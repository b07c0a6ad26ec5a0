import Marketplace.ReadCommitted.Statements
import Marketplace.Values

namespace Marketplace.Files

open Concurrent ReadCommitted

inductive UploadFailure
  | database
  | storage
  | badRequest (message : String)
  | notFound (message : String)
  | forbidden (message : String)
  | conflict (message : String)
  | error (message : String)
  deriving DecidableEq, Repr

def fileTypes : List (String × String) :=
  [("image/jpeg", "jpg"), ("image/png", "png"), ("image/webp", "webp"), ("application/pdf", "pdf"),
    ("application/json", "json"), ("application/octet-stream", "bin")]

-- no extension: `isAllowedContentType` is false
def extensionForContentType (contentType : String) : Option String := fileTypes.lookup contentType

inductive FileStatus
  | pending | completed
  deriving DecidableEq, Repr

structure FileRow where
  id : String
  ownerId : ℕ
  objectKey : String
  contentType : String
  status : FileStatus
  expectedSize : Option ℤ
  actualSize : Option ℤ
  completedAt : Option ℕ
  deriving DecidableEq, Repr

/-- The `files` table, by the value of the `uuid` column, and the index of `object_key`. -/
inductive FilesKey
  | file (id : ℕ)
  | objectKey (key : String)
  deriving DecidableEq, Repr

abbrev FilesRow : FilesKey → Type
  | .file _ => FileRow
  | .objectKey _ => ℕ

def validSize : Option ℤ → Bool
  | none => true
  | some size => fitsInt8 size && 0 ≤ size

def FilesRow.valid : (k : FilesKey) → FilesRow k → Bool
  | .file _, row => validSize row.expectedSize && validSize row.actualSize
  | .objectKey _, _ => true

-- groups of four digits, and a hyphen may stand between two of them
def uuidDigits : ℕ → List Char → Option (List Char)
  | 0, [] => some []
  | groups + 1, a :: b :: c :: d :: text =>
    (uuidDigits groups (if groups ≠ 0 && text.head? = some '-' then text.drop 1 else text)).map ([a, b, c, d] ++ ·)
  | _, _ => none

def uuidIn (text : String) : Option ℕ :=
  let chars := text.toList
  let body :=
    if chars.head? = some '\x7b' && chars.getLast? = some '\x7d' then (chars.drop 1).dropLast else chars
  (uuidDigits 8 body).bind (digitsValue 16)

structure PresignedUrl where
  key : String
  contentType : String
  expiresAt : ℕ
  deriving DecidableEq, Repr

inductive BucketCommand
  | headBucket | createBucket | putPublicAccessBlock
  deriving DecidableEq, Repr

/-- What the file service and its clients do besides SQL: `initialized` is the variable of the storage
client, and the clients send the PUT requests. -/
inductive StorageOp
  | initialized
  | setInitialized
  | bucket (command : BucketCommand)
  | now
  | randomUUID
  | getSignedUrl (key contentType : String) (expiresIn : ℕ)
  | headObject (key : String)
  | putObject (url : PresignedUrl) (size : ℕ)

abbrev StorageOp.Res : StorageOp → Type
  | .initialized => Bool
  | .now => ℕ
  | .randomUUID => String
  | .getSignedUrl _ _ _ => PresignedUrl
  | .headObject _ => Option ℕ
  | _ => Unit

def StorageOp.isRequest : StorageOp → Bool
  | .bucket _ | .headObject _ | .putObject _ _ => true
  | _ => false

structure Head (T : Type) where
  call : T
  key : String
  size : ℕ
  deriving DecidableEq, Repr

/-- The objects are their sizes; `heads` is a history variable. -/
structure Storage (T : Type) where
  clock : ℕ
  initialized : Bool
  urls : List PresignedUrl
  objects : String → Option ℕ
  heads : List (Head T)

variable {T : Type}

def Storage.accepts (s : Storage T) (url : PresignedUrl) : Bool := url ∈ s.urls && s.clock ≤ url.expiresAt

def Storage.at (s : Storage T) (clock : ℕ) : Storage T := { s with clock := clock }

def Storage.store (s : Storage T) (key : String) (size : ℕ) : Storage T :=
  { s with objects := Function.update s.objects key (some size) }

/-- A call of a new process finds `initialized` unset. A URL is valid any number of times until it expires. A
request that fails may have been served. -/
inductive StoragePerforms (t : T) : (o : StorageOp) → Storage T → Except UploadFailure o.Res → Storage T → Prop
  | initialized {s} (b : Bool) (h : b → s.initialized) : StoragePerforms t .initialized s (.ok b) s
  | setInitialized {s} : StoragePerforms t .setInitialized s (.ok ()) { s with initialized := true }
  | bucket {s command} : StoragePerforms t (.bucket command) s (.ok ()) s
  | now {s} {clock : ℕ} (h : s.clock ≤ clock) : StoragePerforms t .now s (.ok clock) (s.at clock)
  | randomUUID {s} (uuid : String) : StoragePerforms t .randomUUID s (.ok uuid) s
  | getSignedUrl {s key contentType expiresIn url} {clock : ℕ} (hclock : s.clock ≤ clock)
      (h : url = ⟨key, contentType, clock + expiresIn * 1000⟩) :
      StoragePerforms t (.getSignedUrl key contentType expiresIn) s (.ok url)
        { s.at clock with urls := url :: s.urls }
  | headObject {s key size} (h : s.objects key = some size) :
      StoragePerforms t (.headObject key) s (.ok (some size)) { s with heads := ⟨t, key, size⟩ :: s.heads }
  | unsized {s key} (h : s.objects key ≠ none) : StoragePerforms t (.headObject key) s (.ok none) s
  | putObject {s url size r} {clock : ℕ} (hclock : s.clock ≤ clock) (h : (s.at clock).accepts url)
      (hr : r = .ok () ∨ r = .error .storage) :
      StoragePerforms t (.putObject url size) s r ((s.at clock).store url.key size)
  | failed {s} {o : StorageOp} (ho : o.isRequest) : StoragePerforms t o s (.error .storage) s

theorem StoragePerforms.heads {t : T} {o : StorageOp} {s s' : Storage T} {r : Except UploadFailure o.Res}
    (h : StoragePerforms t o s r s') : s.heads ⊆ s'.heads := by
  cases h with
  | headObject h => exact List.subset_cons_self _ _
  | _ => exact List.Subset.refl _

def storage : Machine T (Storage T) StorageOp StorageOp.Res UploadFailure where
  perform := StoragePerforms
  crash _ s s' := s' = s
  frame _ s s' := s.heads ⊆ s'.heads
  frame_refl _ _ := List.Subset.refl _
  frame_trans h h' := List.Subset.trans h h'
  perform_frame _ h := h.heads
  crash_frame _ h := by
    subst h
    exact List.Subset.refl _

structure StorageMove where
  clock : ℕ
  uuid : String
  deriving DecidableEq, Repr

@[reducible] def storageMoves : Moves (storage (T := T)) where
  Move := StorageMove
  play t
    | .initialized, _, s => some (.ok s.initialized, s)
    | .setInitialized, _, s => some (.ok (), { s with initialized := true })
    | .bucket _, _, s => some (.ok (), s)
    | .now, m, s => if s.clock ≤ m.clock then some (.ok m.clock, s.at m.clock) else none
    | .randomUUID, m, s => some (.ok m.uuid, s)
    | .getSignedUrl key contentType expiresIn, m, s =>
      if s.clock ≤ m.clock then
        let url := ⟨key, contentType, m.clock + expiresIn * 1000⟩
        some (.ok url, { s.at m.clock with urls := url :: s.urls })
      else none
    | .headObject key, _, s =>
      match s.objects key with
      | some size => some (.ok (some size), { s with heads := ⟨t, key, size⟩ :: s.heads })
      | none => some (.error .storage, s)
    | .putObject url size, m, s =>
      if s.clock ≤ m.clock ∧ (s.at m.clock).accepts url then some (.ok (), (s.at m.clock).store url.key size)
      else some (.error .storage, s)
  die _ s := some s
  play_sound := by
    intro t o m s r s' h
    cases o with
    | initialized =>
      cases h
      exact .initialized _ id
    | setInitialized =>
      cases h
      exact .setInitialized
    | bucket command =>
      cases h
      exact .bucket
    | now =>
      simp only [Option.ite_none_right_eq_some] at h
      obtain ⟨hclock, h⟩ := h
      cases h
      exact .now hclock
    | randomUUID =>
      cases h
      exact .randomUUID _
    | getSignedUrl key contentType expiresIn =>
      simp only [Option.ite_none_right_eq_some] at h
      obtain ⟨hclock, h⟩ := h
      cases h
      exact .getSignedUrl hclock rfl
    | headObject key =>
      simp only at h
      split at h
      · rename_i size hsize
        cases h
        exact .headObject hsize
      · cases h
        exact .failed rfl
    | putObject url size =>
      simp only at h
      split_ifs at h with haccepts
      · cases h
        exact .putObject haccepts.1 haccepts.2 (.inl rfl)
      · cases h
        exact .failed rfl
  die_sound h := (Option.some.inj h).symm

abbrev FilesWorld (T : Type) := World T Empty FilesKey FilesRow (Storage T)

abbrev FilesAction := Action Empty FilesKey FilesRow StorageOp

abbrev FilesCall (α : Type) := Client Empty FilesKey FilesRow StorageOp.Res UploadFailure α

abbrev FilesMachine (T : Type) [DecidableEq T] :
    Machine T (FilesWorld T) FilesAction (Action.Res StorageOp.Res) UploadFailure :=
  withDatabase storage .database

def storageOp (o : StorageOp) : FilesCall o.Res := Prog.perform (Action.ext o)

def ensureStorageBucket : FilesCall Unit := do
  if ← storageOp .initialized then pure ()
  else
    tryCatch (storageOp (.bucket .headBucket)) fun _ => storageOp (.bucket .createBucket)
    tryCatch (storageOp (.bucket .putPublicAccessBlock)) fun _ => pure ()
    storageOp .setInitialized

/-- `raw` is the value of `UPLOAD_PRESIGNED_TTL_SECONDS`. -/
def getPresignedUploadTtlSeconds (raw : Option String) : FilesCall ℕ :=
  match raw with
  | none | some "" => pure (5 * 60)
  | some raw =>
    match jsNumber raw with
    | .integer value =>
      if value ≤ 0 || 7 * 24 * 60 * 60 < value then
        throw (.error "UPLOAD_PRESIGNED_TTL_SECONDS must be an integer between 1 and 604800")
      else pure value.toNat
    | .other => throw (.error "UPLOAD_PRESIGNED_TTL_SECONDS must be an integer between 1 and 604800")

structure CreateUploadIntentInput where
  contentType : String
  size : Option JsNumber
  deriving DecidableEq, Repr

structure UploadIntentResponse where
  fileId : String
  key : String
  uploadUrl : PresignedUrl
  expiresIn : ℕ
  deriving DecidableEq, Repr

structure CommitUploadResponse where
  fileId : String
  key : String
  status : FileStatus
  size : ℤ
  deriving DecidableEq, Repr

-- the parameter of the `expected_size` column, if the size is missing or a non-negative integer
def expectedSize? : Option JsNumber → Option (Option ℤ)
  | none => some none
  | some (.integer size) => if 0 ≤ size then some (some size) else none
  | some .other => none

def uuidParameter (text : String) : FilesCall ℕ :=
  match uuidIn text with
  | some id => pure id
  | none => throw .database

def insertFile (id : ℕ) (row : FileRow) : FilesCall Unit := do
  let _ ← statement
  insertOrFail .database FilesRow.valid (.file id) row
  insertOrFail .database FilesRow.valid (.objectKey row.objectKey) id

def createUploadIntent (ttl : Option String) (userId : ℕ) (input : CreateUploadIntentInput) :
    FilesCall UploadIntentResponse := do
  ensureStorageBucket
  match extensionForContentType input.contentType with
  | none => throw (.badRequest ("Unsupported content type: " ++ input.contentType))
  | some extension =>
    match expectedSize? input.size with
    | none => throw (.badRequest "size must be a non-negative integer")
    | some expectedSize =>
      let fileId ← storageOp .randomUUID
      let uuid ← storageOp .randomUUID
      let key := "uploads/" ++ Nat.repr userId ++ "/" ++ uuid ++ "." ++ extension
      let id ← uuidParameter fileId
      autocommit (insertFile id ⟨fileId, userId, key, input.contentType, .pending, expectedSize, none, none⟩)
      let expiresIn ← getPresignedUploadTtlSeconds ttl
      let uploadUrl ← storageOp (.getSignedUrl key input.contentType expiresIn)
      pure ⟨fileId, key, uploadUrl, expiresIn⟩

def contentLength (key : String) : FilesCall ℕ :=
  tryCatch (do
    match ← storageOp (.headObject key) with
    | none => throw (.conflict "Uploaded object has no size")
    | some size => pure size)
    fun
    | .conflict message => throw (.conflict message)
    | _ => throw (.conflict "Object has not been uploaded")

def completeFile (id size now : ℕ) : FilesCall (Option FileRow) :=
  updateWhere .database FilesRow.valid (.file id) (fun _ => true) fun file =>
    { file with status := .completed, actualSize := some (size : ℤ), completedAt := some now }

def commitUpload (userId : ℕ) (fileId : String) : FilesCall CommitUploadResponse := do
  ensureStorageBucket
  let id ← uuidParameter fileId
  let view ← statement
  match view.row (.file id) with
  | none => throw (.notFound ("File " ++ fileId ++ " not found"))
  | some file =>
    if file.ownerId ≠ userId then throw (.forbidden "File belongs to another user")
    else
      match file.status with
      | .completed =>
        pure ⟨file.id, file.objectKey, .completed, (file.actualSize.or file.expectedSize).getD 0⟩
      | .pending =>
        let size ← contentLength file.objectKey
        if file.expectedSize ≠ none ∧ file.expectedSize ≠ some (size : ℤ) then
          throw (.conflict "Uploaded object size does not match expected size")
        else
          let now ← storageOp .now
          let _ ← autocommit (completeFile id size now)
          pure ⟨file.id, file.objectKey, .completed, size⟩

end Marketplace.Files
