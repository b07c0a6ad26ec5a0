import Marketplace.Concurrent.RelyGuarantee
import Marketplace.Concurrent.Schedule
import Marketplace.Files.ContentHash

namespace Marketplace.Cdn

open Concurrent Files

section Keys

def unescape : List Char → Option (List UInt8)
  | [] => some []
  | '%' :: high :: low :: rest => do
    let x ← hexDigit high
    let y ← hexDigit low
    let octets ← unescape rest
    pure (UInt8.ofNat (16 * x + y) :: octets)
  | '%' :: _ => none
  | c :: rest => do
    let octets ← unescape rest
    pure (String.utf8EncodeChar c ++ octets)

-- `none` is a URIError
def decodeURIComponent (text : List Char) : Option (List Char) := do
  let octets ← unescape text
  let decoded ← octets.toByteArray.utf8Decode?
  pure decoded.toList

def decodeKey (encodedKey : List Char) : Option String := do
  let segments ← (encodedKey.splitOn '/').mapM decodeURIComponent
  pure (String.ofList (['/'].intercalate segments))

end Keys

structure StoredObject where
  body : Content
  contentType : Option String
  cacheControl : Option String
  deriving DecidableEq, Repr

structure CachedObject where
  body : Content
  contentType : String
  cacheControl : String
  deriving DecidableEq, Repr

-- what `GetObjectCommand` answers with; `body` is the stream, which is read afterwards
structure GetObjectResult where
  body : Option Content
  contentType : Option String
  cacheControl : Option String
  deriving DecidableEq, Repr

inductive EdgeFailure
  | storage
  | noSuchKey
  | emptyBody
  | invalidUrl
  | uriError
  deriving DecidableEq, Repr

inductive EdgeOp
  | ensureStorageBucket
  | putObject (key : String) (object : StoredObject)
  | getObject (key : String)
  | transformToByteArray (body : Content)
  | cacheHas (key : String)
  | cacheGet (key : String)
  | cacheSet (key : String) (object : CachedObject)
  | cacheClear
  deriving DecidableEq, Repr

abbrev EdgeOp.Res : EdgeOp → Type
  | .getObject _ => GetObjectResult
  | .transformToByteArray _ => Content
  | .cacheHas _ => Bool
  | .cacheGet _ => Option CachedObject
  | _ => Unit

def EdgeOp.Remote : EdgeOp → Prop
  | .ensureStorageBucket | .putObject .. | .getObject _ | .transformToByteArray _ => True
  | _ => False

abbrev EdgeProg (α : Type) := Prog EdgeOp EdgeOp.Res EdgeFailure α

section Code

structure EdgeRequest where
  method : Option String
  url : Option String
  deriving DecidableEq, Repr

inductive ResponseBody
  | text (text : String)
  | buffer (content : Content)
  deriving DecidableEq, Repr

structure EdgeResponse where
  statusCode : ℕ
  headers : List (String × String)
  body : ResponseBody
  deriving DecidableEq, Repr

def EdgeResponse.notFound : EdgeResponse := ⟨404, [], .text "Not Found"⟩

def EdgeResponse.ok (object : CachedObject) (wasCached : Bool) : EdgeResponse :=
  ⟨200, [("Content-Type", object.contentType), ("Cache-Control", object.cacheControl),
    ("X-Cache", if wasCached then "HIT" else "MISS")], .buffer object.body⟩

def immutable : String := "public, max-age=31536000, immutable"

def loadObject (key : String) : EdgeProg CachedObject := do
  match ← Prog.perform (EdgeOp.cacheGet key) with
  | some cached => pure cached
  | none =>
    let result ← Prog.perform (EdgeOp.getObject key)
    match result.body with
    | none => throw .emptyBody
    | some body =>
      let bytes ← Prog.perform (EdgeOp.transformToByteArray body)
      let object : CachedObject :=
        ⟨bytes, result.contentType.getD "application/octet-stream", result.cacheControl.getD immutable⟩
      Prog.perform (EdgeOp.cacheSet key object)
      pure object

-- `pathname url` is that of `new URL(url, 'http://localhost')`, or `none` if it throws
variable (pathname : String → Option String)

def serve (request : EdgeRequest) : EdgeProg EdgeResponse :=
  tryCatch (do
    if request.method ≠ some "GET" then
      pure ⟨405, [], .text "Method Not Allowed"⟩
    else
      match pathname (request.url.getD "/") with
      | none => throw .invalidUrl
      | some path =>
        let encodedKey := path.toList.dropWhile isSlash
        if encodedKey = [] then
          pure .notFound
        else
          match decodeKey encodedKey with
          | none => throw .uriError
          | some key =>
            let wasCached ← Prog.perform (EdgeOp.cacheHas key)
            let object ← loadObject key
            pure (.ok object wasCached))
    fun _ => pure .notFound

def uploadAsset (key : String) (body : Content) : EdgeProg Unit := do
  Prog.perform EdgeOp.ensureStorageBucket
  Prog.perform (EdgeOp.putObject key ⟨body, some "text/css; charset=utf-8", some immutable⟩)

def clearEdgeCache : EdgeProg Unit := Prog.perform EdgeOp.cacheClear

structure Asset where
  directory : String
  filename : String
  content : Content
  deriving DecidableEq, Repr

variable (sha256 : Sha256)

def Asset.key (asset : Asset) : String := assetKey sha256 asset.directory asset.filename asset.content

inductive EdgeCall
  | upload (asset : Asset)
  | request (request : EdgeRequest)
  | clear
  deriving DecidableEq, Repr

def EdgeCall.run : EdgeCall → EdgeProg (Option EdgeResponse)
  | .upload asset => do
    uploadAsset (asset.key sha256) asset.content
    pure none
  | .request asked => do
    let response ← serve pathname asked
    pure (some response)
  | .clear => do
    clearEdgeCache
    pure none

end Code

-- `failed` is a history variable: the clients for which a request to the storage has failed
structure EdgeState (T : Type) where
  store : String → Option StoredObject
  cache : String → Option CachedObject
  failed : List T

variable {T : Type}

def EdgeState.put (key : String) (object : StoredObject) (s : EdgeState T) : EdgeState T :=
  { s with store := Function.update s.store key (some object) }

theorem EdgeState.put_self {key : String} {object : StoredObject} {s : EdgeState T} :
    (s.put key object).store key = some object := Function.update_self ..

theorem EdgeState.put_other {key key' : String} {object : StoredObject} {s : EdgeState T} (h : key' ≠ key) :
    (s.put key object).store key' = s.store key' := Function.update_of_ne h ..

def EdgeState.remember (key : String) (object : CachedObject) (s : EdgeState T) : EdgeState T :=
  { s with cache := Function.update s.cache key (some object) }

theorem EdgeState.remember_self {key : String} {object : CachedObject} {s : EdgeState T} :
    (s.remember key object).cache key = some object := Function.update_self ..

theorem EdgeState.remember_other {key key' : String} {object : CachedObject} {s : EdgeState T} (h : key' ≠ key) :
    (s.remember key object).cache key' = s.cache key' := Function.update_of_ne h ..

def EdgeState.fail (client : T) (s : EdgeState T) : EdgeState T := { s with failed := s.failed ++ [client] }

/-- A PUT that fails may have been stored. The cache is a `Map` of the process. -/
inductive EdgePerforms (client : T) : (o : EdgeOp) → EdgeState T → Except EdgeFailure o.Res → EdgeState T → Prop
  | ensure {s : EdgeState T} : EdgePerforms client .ensureStorageBucket s (.ok ()) s
  | put {key : String} {object : StoredObject} {s : EdgeState T} :
      EdgePerforms client (.putObject key object) s (.ok ()) (s.put key object)
  | putLost {key : String} {object : StoredObject} {s : EdgeState T} :
      EdgePerforms client (.putObject key object) s (.error .storage) ((s.put key object).fail client)
  | found {key : String} {object : StoredObject} {s : EdgeState T} (hfound : s.store key = some object) :
      EdgePerforms client (.getObject key) s (.ok ⟨some object.body, object.contentType, object.cacheControl⟩) s
  | bodyless {key : String} {object : StoredObject} {s : EdgeState T} (hfound : s.store key = some object) :
      EdgePerforms client (.getObject key) s (.ok ⟨none, object.contentType, object.cacheControl⟩) (s.fail client)
  | missing {key : String} {s : EdgeState T} (hmissing : s.store key = none) :
      EdgePerforms client (.getObject key) s (.error .noSuchKey) s
  | read {body : Content} {s : EdgeState T} : EdgePerforms client (.transformToByteArray body) s (.ok body) s
  | refuse {o : EdgeOp} {s : EdgeState T} (ho : o.Remote) : EdgePerforms client o s (.error .storage) (s.fail client)
  | has {key : String} {s : EdgeState T} : EdgePerforms client (.cacheHas key) s (.ok (s.cache key).isSome) s
  | get {key : String} {s : EdgeState T} : EdgePerforms client (.cacheGet key) s (.ok (s.cache key)) s
  | set {key : String} {object : CachedObject} {s : EdgeState T} :
      EdgePerforms client (.cacheSet key object) s (.ok ()) (s.remember key object)
  | clear {s : EdgeState T} : EdgePerforms client .cacheClear s (.ok ()) { s with cache := fun _ => none }

def edgeMachine : Machine T (EdgeState T) EdgeOp EdgeOp.Res EdgeFailure where
  perform := EdgePerforms
  crash _ s s' := s' = s
  frame t s s' := t ∈ s'.failed ↔ t ∈ s.failed
  frame_refl _ _ := Iff.rfl
  frame_trans h h' := h'.trans h
  perform_frame {t t' _ _ _ _} hne h := by
    have hfail {s : EdgeState T} : t' ∈ (s.fail t).failed ↔ t' ∈ s.failed := by
      simp [EdgeState.fail, Ne.symm hne]
    cases h with
    | putLost => exact hfail
    | bodyless => exact hfail
    | refuse => exact hfail
    | _ => exact Iff.rfl
  crash_frame _ h := by rw [h]

@[reducible] def edgeMoves : Moves (edgeMachine (T := T)) where
  Move := Unit
  play _ o _ s := match o with
    | .ensureStorageBucket => some (.ok (), s)
    | .putObject key object => some (.ok (), s.put key object)
    | .getObject key => match s.store key with
      | some object => some (.ok ⟨some object.body, object.contentType, object.cacheControl⟩, s)
      | none => some (.error .noSuchKey, s)
    | .transformToByteArray body => some (.ok body, s)
    | .cacheHas key => some (.ok (s.cache key).isSome, s)
    | .cacheGet key => some (.ok (s.cache key), s)
    | .cacheSet key object => some (.ok (), s.remember key object)
    | .cacheClear => some (.ok (), { s with cache := fun _ => none })
  die _ s := some s
  play_sound {_ o _ s _ _} h := by
    cases o with
    | getObject key =>
      dsimp only at h
      split at h
      · cases h
        exact .found ‹_›
      · cases h
        exact .missing ‹_›
    | _ =>
      cases h
      constructor
  die_sound h := (Option.some.inj h).symm

abbrev EdgeConfig (T : Type) := Config T (EdgeState T) EdgeOp EdgeOp.Res EdgeFailure (Option EdgeResponse)

variable [DecidableEq T]

def edgeStart (pathname : String → Option String) (sha256 : Sha256) (initial : String → Option StoredObject)
    (calls : T → EdgeCall) : EdgeConfig T :=
  .start ⟨initial, fun _ => none, []⟩ fun t => (calls t).run pathname sha256

end Marketplace.Cdn
