import Marketplace.Cdn.EdgeServer

namespace Marketplace.Cdn

open Concurrent Files

variable {T : Type}

section Uploads

variable (sha256 : Sha256) (initial : String → Option StoredObject) (calls : T → EdgeCall)

def Asset.object (asset : Asset) : StoredObject := ⟨asset.content, some "text/css; charset=utf-8", some immutable⟩

/-- The keys of the uploads are free or hold the same asset already, and no two of the contents have
the same short hash. -/
structure HashedUploads : Prop where
  stored : ∀ t asset, calls t = .upload asset → ∀ object, initial (asset.key sha256) = some object →
      object = asset.object
  injective : ∀ t asset t' asset', calls t = .upload asset → calls t' = .upload asset' →
    sha256.shortHash asset.content = sha256.shortHash asset'.content → asset.content = asset'.content

def StoredObject.cached (object : StoredObject) : CachedObject :=
  ⟨object.body, object.contentType.getD "application/octet-stream", object.cacheControl.getD immutable⟩

inductive Origin (key : String) : StoredObject → Prop
  | initial {object : StoredObject} (h : initial key = some object) : Origin key object
  | upload {t : T} {asset : Asset} (hcall : calls t = .upload asset) (hkey : asset.key sha256 = key) :
      Origin key asset.object

structure Coherent (s : EdgeState T) : Prop where
  stored : ∀ key object, s.store key = some object → Origin sha256 initial calls key object
  cached : ∀ key cached, s.cache key = some cached → ∃ object, s.store key = some object ∧ cached = object.cached

variable {sha256 initial calls} (H : HashedUploads sha256 initial calls)

include H

theorem HashedUploads.content_eq {t t' : T} {asset asset' : Asset} (h : calls t = .upload asset)
    (h' : calls t' = .upload asset') (hkey : asset.key sha256 = asset'.key sha256) : asset.content = asset'.content :=
  H.injective t asset t' asset' h h' (shortHash_eq_of_key hkey)

theorem HashedUploads.object_eq {t : T} {asset : Asset} {object : StoredObject} (h : calls t = .upload asset)
    (ho : Origin sha256 initial calls (asset.key sha256) object) : object = asset.object := by
  generalize hk : asset.key sha256 = key at ho
  cases ho with
  | initial hi => exact H.stored t asset h object (hk ▸ hi)
  | @upload t' asset' hcall hkey =>
    have hcontent := H.content_eq hcall h (hkey.trans hk.symm)
    rw [Asset.object, Asset.object, hcontent]

theorem HashedUploads.put {s : EdgeState T} {t : T} {asset : Asset} (hs : Coherent sha256 initial calls s)
    (h : calls t = .upload asset) : Coherent sha256 initial calls (s.put (asset.key sha256) asset.object) ∧
      ∀ key object, s.store key = some object → (s.put (asset.key sha256) asset.object).store key = some object := by
  have hkeeps : ∀ key object, s.store key = some object →
      (s.put (asset.key sha256) asset.object).store key = some object := by
    intro key object hstore
    by_cases hkey : key = asset.key sha256
    · subst hkey
      rw [EdgeState.put_self, H.object_eq h (hs.stored _ _ hstore)]
    · rw [EdgeState.put_other hkey, hstore]
  refine ⟨⟨fun key object hstore => ?_, fun key cached hcached => ?_⟩, hkeeps⟩
  · by_cases hkey : key = asset.key sha256
    · subst hkey
      rw [EdgeState.put_self] at hstore
      cases hstore
      exact .upload h rfl
    · rw [EdgeState.put_other hkey] at hstore
      exact hs.stored key object hstore
  · obtain ⟨object, hstore, rfl⟩ := hs.cached key cached hcached
    exact ⟨object, hkeeps key object hstore, rfl⟩

end Uploads

section Rules

variable (sha256 : Sha256) (initial : String → Option StoredObject) (calls : T → EdgeCall)

/-- The cache holds what the storage holds, and nothing that is stored is ever replaced. -/
def edgeDiscipline : Discipline (edgeMachine (T := T)) where
  inv := Coherent sha256 initial calls
  always s s' := ∀ key object, s.store key = some object → s'.store key = some object
  rely _ _ _ := True
  gone _ _ := True
  always_refl _ _ _ h := h
  always_trans h h' key object hs := h' key object (h key object hs)
  rely_refl _ _ := trivial
  rely_trans _ _ _ _ _ _ := trivial

variable {sha256 initial calls} {t : T} {key : String}

def Known (key : String) (known : Option StoredObject) (s : EdgeState T) : Prop :=
  ∀ object ∈ known, s.store key = some object

-- a failed request excuses a missing object
def Excused (t : T) (known : Option StoredObject) (s : EdgeState T) : Prop := known = none ∨ t ∈ s.failed

variable {known : Option StoredObject}

theorem known_stable : (edgeDiscipline sha256 initial calls).Stable t (Known key known) :=
  fun _ _ _ h hs object hobject => hs.always key object (h object hobject)

theorem excused_stable : (edgeDiscipline sha256 initial calls).Stable t (Excused t known) :=
  fun _ _ _ h hs => h.imp_right hs.frame.mpr

def Holding (key : String) (cached : CachedObject) (s : EdgeState T) : Prop :=
  ∃ object, s.store key = some object ∧ cached = object.cached

theorem holding_stable {cached : CachedObject} : (edgeDiscipline sha256 initial calls).Stable t (Holding key cached) :=
  fun _ _ _ ⟨object, hstore, hcached⟩ hs => ⟨object, hs.always key object hstore, hcached⟩

theorem allows_of_store {s s' : EdgeState T} (hi : Coherent sha256 initial calls s) (hstore : s'.store = s.store)
    (hcache : ∀ key cached, s'.cache key = some cached → Holding key cached s) :
    (edgeDiscipline sha256 initial calls).Allows t s s' := by
  refine ⟨⟨fun key object h => ?_, fun key cached h => ?_⟩, fun key object h => ?_, fun _ _ => trivial⟩
  · exact hi.stored key object (hstore ▸ h)
  · obtain ⟨object, hobject, rfl⟩ := hcache key cached h
    exact ⟨object, hstore ▸ hobject, rfl⟩
  · exact hstore ▸ h

theorem op_spec {o : EdgeOp} {P : EdgeState T → Prop} {Q : o.Res → EdgeState T → Prop}
    {X : EdgeFailure → EdgeState T → Prop}
    (hP : (edgeDiscipline sha256 initial calls).Stable t P)
    (hcall : ∀ s r s', Coherent sha256 initial calls s → P s → EdgePerforms t o s r s' → s'.store = s.store ∧
      (∀ key cached, s'.cache key = some cached → Holding key cached s) ∧ Discipline.Post Q X r s')
    (hQ : ∀ a, (edgeDiscipline sha256 initial calls).Stable t (Q a))
    (hX : ∀ e, (edgeDiscipline sha256 initial calls).Stable t (X e)) :
    (edgeDiscipline sha256 initial calls).Triple t P (Prog.perform o) Q X := by
  refine .perform hP (fun s r s' hi hp hperform => ?_) ?_ hQ hX
  · obtain ⟨hstore, hcache, hpost⟩ := hcall s r s' hi hp hperform
    exact ⟨allows_of_store hi hstore hcache, hpost⟩
  · rintro s _ hi - rfl
    exact ⟨allows_of_store hi rfl hi.cached, fun _ _ => trivial⟩

theorem hit_spec : (edgeDiscipline sha256 initial calls).Triple t (Known key known) (Prog.perform (EdgeOp.cacheHas key))
    (fun _ => Known key known) fun _ => Excused t known := by
  refine op_spec known_stable ?_ (fun _ => known_stable) fun _ => excused_stable
  intro s r s' hi hp hperform
  cases hperform with
  | refuse ho => exact ho.elim
  | has => exact ⟨rfl, hi.cached, hp⟩

theorem cacheGet_spec : (edgeDiscipline sha256 initial calls).Triple t (Known key known)
    (Prog.perform (EdgeOp.cacheGet key))
    (fun cached s => Known key known s ∧ ∀ object ∈ cached, Holding key object s) fun _ => Excused t known := by
  refine op_spec known_stable ?_ (fun cached => ?_) fun _ => excused_stable
  · intro s r s' hi hp hperform
    cases hperform with
    | refuse ho => exact ho.elim
    | get => exact ⟨rfl, hi.cached, hp, fun object hobject => hi.cached key object hobject⟩
  · exact known_stable.and fun s s' hi h hs object hobject => holding_stable s s' hi (h object hobject) hs

def Answered (t : T) (key : String) (known : Option StoredObject) (result : GetObjectResult) (s : EdgeState T) : Prop :=
  ∃ object, s.store key = some object ∧ result.contentType = object.contentType ∧
    result.cacheControl = object.cacheControl ∧
        (result.body = some object.body ∨ result.body = none ∧ Excused t known s)

theorem getObject_spec : (edgeDiscipline sha256 initial calls).Triple t (Known key known)
    (Prog.perform (EdgeOp.getObject key)) (fun result => Answered t key known result) fun _ => Excused t known := by
  have hfail {s : EdgeState T} : Excused t known (s.fail t) := .inr (by simp [EdgeState.fail])
  refine op_spec known_stable ?_ (fun result => ?_) fun _ => excused_stable
  · intro s r s' hi hp hperform
    cases hperform with
    | found hfound => exact ⟨rfl, hi.cached, _, hfound, rfl, rfl, .inl rfl⟩
    | bodyless hfound => exact ⟨rfl, hi.cached, _, hfound, rfl, rfl, .inr ⟨rfl, hfail⟩⟩
    | missing hmissing =>
      refine ⟨rfl, hi.cached, .inl ?_⟩
      cases known with
      | none => rfl
      | some object => cases (hp object rfl).symm.trans hmissing
    | refuse => exact ⟨rfl, hi.cached, hfail⟩
  · rintro s s' hi ⟨object, hstore, htype, hcontrol, hbody⟩ hs
    refine ⟨object, hs.always key object hstore, htype, hcontrol, hbody.imp_right ?_⟩
    exact fun ⟨hnone, hexcused⟩ => ⟨hnone, excused_stable s s' hi hexcused hs⟩

theorem read_spec {body : Content} {P : EdgeState T → Prop} (hP : (edgeDiscipline sha256 initial calls).Stable t P) :
    (edgeDiscipline sha256 initial calls).Triple t P (Prog.perform (EdgeOp.transformToByteArray body))
      (fun bytes s => bytes = body ∧ P s) fun _ => Excused t known := by
  refine op_spec hP ?_ (fun _ => .and .const hP) fun _ => excused_stable
  intro s r s' hi hp hperform
  cases hperform with
  | read => exact ⟨rfl, hi.cached, rfl, hp⟩
  | refuse => exact ⟨rfl, hi.cached, .inr (by simp [EdgeState.fail])⟩

theorem cacheSet_spec {object : CachedObject} : (edgeDiscipline sha256 initial calls).Triple t (Holding key object)
    (Prog.perform (EdgeOp.cacheSet key object)) (fun _ => Holding key object) fun _ => Excused t known := by
  refine op_spec holding_stable ?_ (fun _ => holding_stable) fun _ => excused_stable
  intro s r s' hi hp hperform
  cases hperform with
  | refuse ho => exact ho.elim
  | set =>
    refine ⟨rfl, fun key' cached hcached => ?_, hp⟩
    by_cases hkey : key' = key
    · subst hkey
      rw [EdgeState.remember_self] at hcached
      cases hcached
      exact hp
    · rw [EdgeState.remember_other hkey] at hcached
      exact hi.cached key' cached hcached

theorem loadObject_spec : (edgeDiscipline sha256 initial calls).Triple t (Known key known) (loadObject key)
    (fun cached => Holding key cached) fun _ => Excused t known := by
  refine .bind cacheGet_spec fun cached => ?_
  cases cached with
  | some cached => exact .pure holding_stable fun s _ h => h.2 cached rfl
  | none =>
    refine .bind (getObject_spec.pre fun s _ h => h.1) fun result => ?_
    obtain ⟨body, contentType, cacheControl⟩ := result
    cases body with
    | none =>
      refine .throw excused_stable fun s _ h => ?_
      obtain ⟨object, -, -, -, hbody | ⟨-, hexcused⟩⟩ := h
      · cases hbody
      · exact hexcused
    | some body =>
      have hheld : (edgeDiscipline sha256 initial calls).Stable t
          (Holding (T := T) key ⟨body, contentType.getD "application/octet-stream", cacheControl.getD immutable⟩) :=
        holding_stable
      refine .bind ((read_spec hheld).pre ?_) fun bytes => .pure_pre ?_
      · rintro s - ⟨object, hstore, htype, hcontrol, hbody | ⟨hbody, -⟩⟩
        · dsimp only at htype hcontrol
          cases hbody
          exact ⟨object, hstore, by rw [htype, hcontrol]; rfl⟩
        · cases hbody
      · intro hbytes
        rw [hbytes]
        exact .bind cacheSet_spec fun _ => .pure holding_stable fun s _ h => h

variable {pathname : String → Option String}

def keyOfPath (path : String) : Option String :=
  if path.toList.dropWhile isSlash = [] then none else decodeKey (path.toList.dropWhile isSlash)

def requestedKey (pathname : String → Option String) (request : EdgeRequest) : Option String :=
  if request.method = some "GET" then (pathname (request.url.getD "/")).bind keyOfPath else none

/-- A 200 carries what is stored under the key, and a stored object is found. -/
structure Served (pathname : String → Option String) (t : T) (request : EdgeRequest) (known : Option StoredObject)
    (response : EdgeResponse) (s : EdgeState T) : Prop where
  carries : response.statusCode = 200 → ∃ key object wasCached, requestedKey pathname request = some key ∧
    s.store key = some object ∧ response = .ok object.cached wasCached
  found : (requestedKey pathname request).isSome → response.statusCode = 200 ∨ Excused t known s

variable {request : EdgeRequest}

theorem served_stable {response : EdgeResponse} :
    (edgeDiscipline sha256 initial calls).Stable t (Served pathname t request known response) := by
  refine fun s s' hi h hs => ⟨fun hok => ?_, fun hkey => (h.found hkey).imp_right ?_⟩
  · obtain ⟨key, object, wasCached, hkey, hstore, hresponse⟩ := h.carries hok
    exact ⟨key, object, wasCached, hkey, hs.always key object hstore, hresponse⟩
  · exact fun hexcused => excused_stable s s' hi hexcused hs

theorem served_of_none {response : EdgeResponse} {s : EdgeState T} (hstatus : response.statusCode ≠ 200)
    (hkey : requestedKey pathname request = none) : Served pathname t request known response s :=
  ⟨fun hok => absurd hok hstatus, fun hsome => by simp [hkey] at hsome⟩

-- a 404 for a request without a key, or after the storage has failed
def Unserved (pathname : String → Option String) (t : T) (request : EdgeRequest) (known : Option StoredObject)
    (s : EdgeState T) : Prop := requestedKey pathname request = none ∨ Excused t known s

theorem unserved_stable : (edgeDiscipline sha256 initial calls).Stable t (Unserved pathname t request known) :=
  fun s s' hi h hs => h.imp_right fun hexcused => excused_stable s s' hi hexcused hs

theorem Unserved.notFound {s : EdgeState T} (h : Unserved pathname t request known s) :
    Served pathname t request known .notFound s := by
  rcases h with hnone | hexcused
  · exact served_of_none (by decide) hnone
  · refine ⟨fun hok => ?_, fun _ => .inr hexcused⟩
    cases hok

theorem serve_spec : (edgeDiscipline sha256 initial calls).Triple t
    (fun s => ∀ key, requestedKey pathname request = some key → Known key known s) (serve pathname request)
    (Served pathname t request known) fun _ _ => False := by
  refine .handle (Y := fun _ => Unserved pathname t request known) ?_ fun e =>
    .pure served_stable fun s _ h => h.notFound
  by_cases hmethod : request.method = some "GET"
  · rw [if_neg (not_not_intro hmethod)]
    cases hpath : pathname (request.url.getD "/") with
    | none =>
      have hnone : requestedKey pathname request = none := by simp [requestedKey, hmethod, hpath]
      exact .throw unserved_stable fun s _ _ => .inl hnone
    | some path =>
      have hpathkey : requestedKey pathname request = keyOfPath path := by simp [requestedKey, hmethod, hpath]
      dsimp only
      by_cases hempty : path.toList.dropWhile isSlash = []
      · rw [if_pos hempty]
        exact .pure served_stable fun s _ _ => served_of_none (by decide) (hpathkey.trans (if_pos hempty))
      · have hrequested : requestedKey pathname request = decodeKey (path.toList.dropWhile isSlash) :=
          hpathkey.trans (if_neg hempty)
        rw [if_neg hempty]
        cases hkey : decodeKey (path.toList.dropWhile isSlash) with
        | none => exact .throw unserved_stable fun s _ _ => .inl (hrequested.trans hkey)
        | some key =>
          refine .bind ((hit_spec.pre fun s _ h => h key (hrequested.trans hkey)).conseq
            (fun _ _ h => h) (fun _ _ _ h => h) fun e s _ h => .inr h) fun wasCached => ?_
          refine .bind (loadObject_spec.conseq (fun _ _ h => h) (fun _ _ _ h => h) fun e s _ h => .inr h)
            fun cached => ?_
          refine .pure served_stable fun s _ h => ⟨fun _ => ?_, fun _ => .inl rfl⟩
          obtain ⟨object, hstore, rfl⟩ := h
          exact ⟨key, object, wasCached, hrequested.trans hkey, hstore, rfl⟩
  · have hnone : requestedKey pathname request = none := by simp [requestedKey, hmethod]
    rw [if_pos hmethod]
    exact .pure served_stable fun s _ _ => served_of_none (by decide) hnone

section Writes

variable (H : HashedUploads sha256 initial calls)

include H

theorem uploadAsset_spec {asset : Asset} (hcall : calls t = .upload asset) :
    (edgeDiscipline sha256 initial calls).Triple t (fun _ => True) (uploadAsset (asset.key sha256) asset.content)
      (fun _ s => s.store (asset.key sha256) = some asset.object) fun _ _ => True := by
  have hensure : (edgeDiscipline sha256 initial calls).Triple t (fun _ => True)
    (Prog.perform EdgeOp.ensureStorageBucket)
      (fun _ _ => True) fun _ _ => True := by
    refine op_spec .const ?_ (fun _ => .const) fun _ => .const
    intro s r s' hi hp hperform
    cases hperform with
    | ensure => exact ⟨rfl, hi.cached, trivial⟩
    | refuse => exact ⟨rfl, hi.cached, trivial⟩
  refine .bind hensure fun _ => .perform .const (fun s r s' hi _ hperform => ?_) ?_
    (fun _ s s' _ h hs => hs.always _ _ h) fun _ => .const
  · obtain ⟨hcoherent, hkeeps⟩ := H.put hi hcall
    cases hperform with
    | put => exact ⟨⟨hcoherent, hkeeps, fun _ _ => trivial⟩, EdgeState.put_self⟩
    | putLost => exact ⟨⟨⟨hcoherent.stored, hcoherent.cached⟩, hkeeps, fun _ _ => trivial⟩, trivial⟩
    | refuse => exact ⟨allows_of_store hi rfl hi.cached, trivial⟩
  · rintro s _ hi - rfl
    exact ⟨allows_of_store hi rfl hi.cached, fun _ _ => trivial⟩

end Writes

section Calls

-- for a request: what is already known of the object that it asks for
def CallKnows (pathname : String → Option String) (known : Option StoredObject) : EdgeCall → EdgeState T → Prop
  | .request asked, s => ∀ key, requestedKey pathname asked = some key → Known key known s
  | _, _ => True

def Ended (pathname : String → Option String) (sha256 : Sha256) (t : T) (known : Option StoredObject) :
    EdgeCall → Except EdgeFailure (Option EdgeResponse) → EdgeState T → Prop
  | .upload asset, .ok _, s => s.store (asset.key sha256) = some asset.object
  | .request asked, .ok response, s => ∃ answer, response = some answer ∧ Served pathname t asked known answer s
  | .request _, .error _, _ => False
  | _, _, _ => True

theorem EdgeCall.run_spec (H : HashedUploads sha256 initial calls) (t : T) :
    (edgeDiscipline sha256 initial calls).Triple t (CallKnows pathname known (calls t)) ((calls t).run pathname sha256)
      (fun r => Ended pathname sha256 t known (calls t) (.ok r)) fun e => Ended pathname sha256 t known (calls t)
    (.error e) := by
  cases hcall : calls t with
  | upload asset =>
    refine .bind (uploadAsset_spec H hcall) fun _ => ?_
    exact .pure (fun s s' _ h hs => hs.always _ _ h) fun s _ h => h
  | request asked =>
    refine .bind serve_spec fun answer => .pure (fun s s' hi h hs => ?_) fun s _ h => ⟨answer, rfl, h⟩
    obtain ⟨answer', hanswer, hserved⟩ := h
    exact ⟨answer', hanswer, served_stable s s' hi hserved hs⟩
  | clear =>
    refine .bind (R := fun _ _ => True) (op_spec .const ?_ (fun _ => .const) fun _ => .const) fun _ =>
      .pure .const fun _ _ _ => trivial
    intro s r s' hi hp hperform
    cases hperform with
    | refuse ho => exact ho.elim
    | clear =>
      refine ⟨rfl, fun key cached hcached => ?_, trivial⟩
      cases hcached

end Calls

end Rules

section Runs

variable [DecidableEq T] {sha256 : Sha256} {initial : String → Option StoredObject} {calls : T → EdgeCall}
  {pathname : String → Option String}

omit [DecidableEq T] in
theorem EdgeCall.safe (H : HashedUploads sha256 initial calls) {s : EdgeState T} (hi : Coherent sha256 initial calls s)
    {t : T} {known : Option StoredObject} (hknows : CallKnows pathname known (calls t) s) :
    (edgeDiscipline sha256 initial calls).Safe t (fun r => Ended pathname sha256 t known (calls t) r)
      ((calls t).run pathname sha256) s := by
  refine Discipline.Safe.mono (EdgeCall.run_spec H t s hi hknows) ?_
  intro r s _ hr
  cases r <;> exact hr

theorem edge_holds (H : HashedUploads sha256 initial calls) {c : EdgeConfig T}
    (h : edgeMachine.Reachable (edgeStart pathname sha256 initial calls) c) : Coherent sha256 initial calls c.shared ∧
      ∀ t, (edgeDiscipline sha256 initial calls).Holds t (fun r => Ended pathname sha256 t none (calls t) r) c.shared
    (c.prog t) := by
  have hstart : Coherent sha256 initial calls (⟨initial, fun _ => none, []⟩ : EdgeState T) :=
    ⟨fun key object hstore => .initial hstore, fun key cached hcached => by cases hcached⟩
  have hsafe : ∀ t, (edgeDiscipline sha256 initial calls).Holds t (fun r => Ended pathname sha256 t none (calls t) r)
      ⟨initial, fun _ => none, []⟩ (some ((calls t).run pathname sha256)) := by
    intro t
    refine EdgeCall.safe H hstart ?_
    cases calls t with
    | request asked => exact fun key _ object hobject => by cases hobject
    | _ => trivial
  obtain ⟨hi, -, hall⟩ := Discipline.reachable_holds hstart hsafe h
  exact ⟨hi, hall⟩

theorem edge_coherent (H : HashedUploads sha256 initial calls) {c : EdgeConfig T}
    (h : edgeMachine.Reachable (edgeStart pathname sha256 initial calls) c) :
    (∀ t asset t' asset', calls t = .upload asset → calls t' = .upload asset' →
      asset.key sha256 = asset'.key sha256 → asset.content = asset'.content) ∧
      (∀ t asked key response, calls t = .request asked → requestedKey pathname asked = some key →
      c.outcome t = some (.ok (some response)) → response.statusCode = 200 →
      (∃ object, Origin sha256 initial calls key object ∧ response.body = .buffer object.body) ∧
      ∀ u asset, calls u = .upload asset → asset.key sha256 = key → response.body = .buffer asset.content) ∧
      ∀ u asset t asked, calls u = .upload asset → c.outcome u = some (.ok none) →
      calls t = .request asked → requestedKey pathname asked = some (asset.key sha256) →
      c.prog t = some ((calls t).run pathname sha256) →
      ∀ d result, edgeMachine.Reachable c d → d.outcome t = some result → t ∉ d.shared.failed →
      ∃ response, result = .ok (some response) ∧ response.statusCode = 200 ∧
      response.body = .buffer asset.content := by
  obtain ⟨hi, hall⟩ := edge_holds H h
  have hended {t : T} {result : Except EdgeFailure (Option EdgeResponse)} (hresult : c.outcome t = some result) :
      Ended pathname sha256 t none (calls t) result c.shared := by
    have hsafe := hall t
    rw [Config.outcome_eq_some.mp hresult] at hsafe
    exact Discipline.Safe.outcome hsafe hi
  refine ⟨fun t asset t' asset' ht ht' hkey => H.content_eq ht ht' hkey, ?_, ?_⟩
  · intro t asked key response hcall hkey hresult hok
    have hanswer := hended hresult
    rw [hcall] at hanswer
    obtain ⟨answer, hsome, hserved⟩ := hanswer
    cases hsome
    obtain ⟨key', object, wasCached, hkey', hstore, rfl⟩ := hserved.carries hok
    cases hkey.symm.trans hkey'
    have horigin := hi.stored key object hstore
    refine ⟨⟨object, horigin, rfl⟩, ?_⟩
    rintro u asset hu rfl
    rw [H.object_eq hu horigin]
    rfl
  · intro u asset t asked hu hupload hcall hkey hunstarted d result hd hresult hfailed
    have hstored := hended hupload
    rw [hu] at hstored
    have hagain : (edgeDiscipline sha256 initial calls).Holds t
        (fun r => Ended pathname sha256 t (some asset.object) (calls t) r) c.shared (c.prog t) := by
      rw [hunstarted]
      refine EdgeCall.safe H hi ?_
      rw [hcall]
      intro key hkey' object hobject
      cases hobject
      cases hkey.symm.trans hkey'
      exact hstored
    obtain ⟨hi', halways, hall'⟩ := Discipline.reachable_holds hi (Discipline.Holds.update hall hagain) hd
    have hsafe := hall' t
    rw [Config.outcome_eq_some.mp hresult, Function.update_self] at hsafe
    have hanswer := Discipline.Safe.outcome hsafe hi'
    rw [hcall] at hanswer
    cases result with
    | error e => exact hanswer.elim
    | ok response =>
      obtain ⟨answer, rfl, hserved⟩ := hanswer
      have hok : answer.statusCode = 200 := by
        rcases hserved.found (by simp [hkey]) with hok | hnone | hmem
        · exact hok
        · cases hnone
        · exact absurd hmem hfailed
      obtain ⟨key, object, wasCached, hkey', hstore, rfl⟩ := hserved.carries hok
      cases hkey.symm.trans hkey'
      cases (halways _ _ hstored).symm.trans hstore
      exact ⟨_, rfl, rfl, rfl⟩

-- SHA-256 of "a" and of "b"
def digestOfA : List ℕ := [
  0xca, 0x97, 0x81, 0x12, 0xca, 0x1b, 0xbd, 0xca, 0xfa, 0xc2, 0x31, 0xb3, 0x9a, 0x23, 0xdc, 0x4d,
  0xa7, 0x86, 0xef, 0xf8, 0x14, 0x7c, 0x4e, 0x72, 0xb9, 0x80, 0x77, 0x85, 0xaf, 0xee, 0x48, 0xbb]

def digestOfB : List ℕ := [
  0x3e, 0x23, 0xe8, 0x16, 0x00, 0x39, 0x59, 0x4a, 0x33, 0x89, 0x4f, 0x65, 0x64, 0xe1, 0xb1, 0x34,
  0x8b, 0xbd, 0x7a, 0x00, 0x88, 0xd4, 0x2c, 0x4a, 0xcb, 0x73, 0xee, 0xae, 0xd5, 0x9c, 0x00, 0x9d]

def letterDigests : Sha256 where
  digest content := if content = [97] then digestOfA else digestOfB
  length_eq content := by split <;> rfl
  bytes content := by split <;> decide

def letterAsset : Asset := ⟨"cdn", "app.css", [97]⟩

def letterRequest : EdgeRequest := ⟨some "GET", some "/cdn/app.ca978112.css"⟩

def edgeCalls : ℕ → EdgeCall
  | 0 => .upload letterAsset
  | 1 => .upload ⟨"cdn", "app.css", [98]⟩
  | 2 => .request letterRequest
  | 3 => .request letterRequest
  | _ => .clear

theorem edgeCalls_hashed : HashedUploads letterDigests (fun _ => none) edgeCalls where
  stored _ _ _ _ h := by cases h
  injective t asset t' asset' h h' := by
    have hcalls {t : ℕ} {asset : Asset} (h : edgeCalls t = .upload asset) :
        asset.content = [97] ∨ asset.content = [98] := by
      rcases t with _ | _ | _ | _ | t <;> cases h
      · exact .inl rfl
      · exact .inr rfl
    rcases hcalls h with h₁ | h₁ <;> rcases hcalls h' with h₂ | h₂ <;> rw [h₁, h₂] <;> decide

/-- A request before the upload is answered with a 404, the next one after it with the asset. -/
theorem edge_coherent_after_miss : ∃ c d : EdgeConfig ℕ,
    edgeMachine.Reachable (edgeStart some letterDigests (fun _ => none) edgeCalls) c ∧ edgeMachine.Reachable c d ∧
      c.outcome 2 = some (.ok (some .notFound)) ∧ c.outcome 0 = some (.ok none) ∧ d.outcome 3 ≠ none ∧
      (∀ result, d.outcome 3 = some result → ∃ response, result = .ok (some response) ∧ response.statusCode = 200 ∧
      response.body = .buffer [97]) ∧
      ∀ response, d.outcome 3 = some (.ok (some response)) → response.statusCode = 200 →
      response.body = .buffer [97] := by
  have hrun : ∃ c d : EdgeConfig ℕ, edgeMachine.Reachable (edgeStart some letterDigests (fun _ => none) edgeCalls) c ∧
      edgeMachine.Reachable c d ∧ c.prog 3 = some ((edgeCalls 3).run some letterDigests) ∧
      c.outcome 2 = some (.ok (some .notFound)) ∧ c.outcome 0 = some (.ok none) ∧ d.outcome 3 ≠ none ∧
      d.shared.failed = [] := by
    apply exists_reachable_later (S := edgeMoves)
      [(2, some ()), (2, some ()), (2, some ()), (0, some ()), (0, some ()), (1, some ()), (1, some ())]
      [(3, some ()), (3, some ()), (3, some ()), (3, some ()), (3, some ())]
    · decide
    · refine ⟨_, rfl, _, rfl, rfl, rfl, ?_, rfl⟩
      exact Option.some_ne_none _
  obtain ⟨c, d, hc, hd, hlater, hmiss, hupload, hdone, hfailed⟩ := hrun
  have h := edge_coherent edgeCalls_hashed (hc.trans hd)
  have hafter := (edge_coherent edgeCalls_hashed hc).2.2 0 letterAsset 3 letterRequest rfl hupload rfl rfl hlater d
  refine ⟨c, d, hc, hd, hmiss, hupload, hdone, fun result hresult => hafter result hd hresult (by simp [hfailed]), ?_⟩
  intro response hresponse hok
  exact (h.2.1 3 letterRequest _ response rfl rfl hresponse hok).2 0 letterAsset rfl rfl

end Runs

end Marketplace.Cdn
