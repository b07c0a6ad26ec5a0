import Marketplace.Files.UploadRules

namespace Marketplace.Files

open Concurrent ReadCommitted

variable {T : Type}

inductive UploadCall
  | intent (userId : ℕ) (input : CreateUploadIntentInput)
  | commit (userId : ℕ) (fileId : String)
  | put (url : PresignedUrl) (size : ℕ)

inductive UploadResponse
  | intent (response : UploadIntentResponse)
  | commit (response : CommitUploadResponse)
  | stored
  deriving DecidableEq, Repr

def UploadCall.run (ttl : Option String) : UploadCall → FilesCall UploadResponse
  | .intent userId input => do
    let response ← createUploadIntent ttl userId input
    pure (.intent response)
  | .commit userId fileId => do
    let response ← commitUpload userId fileId
    pure (.commit response)
  | .put url size => do
    storageOp (.putObject url size)
    pure .stored

/-- What `commitUpload` has verified of a file: HeadObject reported this size, and it is the expected one. -/
structure Verified (s : Storage T) (file : FileRow) (size : ℕ) : Prop where
  actual : file.actualSize = some (size : ℤ)
  expected : ∀ expected, file.expectedSize = some expected → expected = size
  reported : ∃ head ∈ s.heads, head.key = file.objectKey ∧ head.size = size

/-- No step changes the size of the object of a COMPLETED file, and where a call commits, the objects it has
asked for still have the sizes that were reported to it. -/
structure SizesKept (t : T) (a : FilesAction) (w w' : FilesWorld T) : Prop where
  completed : ∀ id file, w.db.committed (.file id) = some file → file.status = .completed →
    w'.env.objects file.objectKey = w.env.objects file.objectKey
  reported : a = .sql .commit → ∀ head ∈ w.env.heads, head.call = t → w.env.objects head.key = some head.size

variable [DecidableEq T]

abbrev steadyUploads (T : Type) [DecidableEq T] :
    Machine T (FilesWorld T) FilesAction (Action.Res StorageOp.Res) UploadFailure :=
  (FilesMachine T).restrict (fun t a w _ w' => SizesKept t a w w') fun _ _ _ => True

-- `steady` says whether `SizesKept` is assumed of the run
def FilesVerified (steady : Prop) (w : FilesWorld T) : Prop :=
  ∀ id file, w.db.committed (.file id) = some file → file.status = .completed →
    ∃ size, Verified w.env file size ∧ (steady → w.env.objects file.objectKey = some size)

structure SameUpload (file file' : FileRow) : Prop where
  objectKey : file'.objectKey = file.objectKey
  expectedSize : file'.expectedSize = file.expectedSize

def FilesKept (w w' : FilesWorld T) : Prop :=
  ∀ id file, w.db.committed (.file id) = some file →
    ∃ file', w'.db.committed (.file id) = some file' ∧ SameUpload file file'

def uploadStates (steady : Prop)
    (A : T → (a : FilesAction) → FilesWorld T → Except UploadFailure (a.Res StorageOp.Res) → FilesWorld T → Prop) :
    Discipline ((FilesMachine T).restrict A fun _ _ _ => True) where
  inv := FilesVerified steady
  always := FilesKept
  rely _ _ _ := True
  gone _ _ := True
  always_refl _ _ file h := ⟨file, h, rfl, rfl⟩
  always_trans h h' id file hfile := by
    obtain ⟨file', hfile', hsame⟩ := h id file hfile
    obtain ⟨file'', hfile'', hsame'⟩ := h' id file' hfile'
    exact ⟨file'', hfile'', hsame'.objectKey.trans hsame.objectKey, hsame'.expectedSize.trans hsame.expectedSize⟩
  rely_refl _ _ := trivial
  rely_trans _ _ _ _ _ _ := trivial

variable {steady : Prop} {t : T}
  {A : T → (a : FilesAction) → FilesWorld T → Except UploadFailure (a.Res StorageOp.Res) → FilesWorld T → Prop}

theorem allows_unchanged {w w' : FilesWorld T} (hi : (uploadStates steady A).inv w)
    (hc : w'.db.committed = w.db.committed) (he : w'.env = w.env) : (uploadStates steady A).Allows t w w' := by
  refine ⟨?_, fun id file h => ⟨file, hc ▸ h, rfl, rfl⟩, fun _ _ => trivial⟩
  intro id file h
  rw [he]
  exact hi id file (hc ▸ h)

theorem uploadStates_calm : Calm (uploadStates steady A) where
  works hi hw := allows_unchanged hi hw.committed rfl
  rollback hi := allows_unchanged hi Database.committed_rollback rfl
  crash hi hc _ := by
    refine ⟨allows_unchanged hi ?_ hc.2, fun _ _ => trivial⟩
    rw [hc.1, Database.committed_rollback]

theorem allows_commit {ws : Workspace FilesKey FilesRow} {c : ℕ} {w : FilesWorld T}
    (hi : (uploadStates steady A).inv w) (hat : At t ws c w)
    (hsame : ∀ id ch old, ws (.file id) = some ch → ch.old = some old → SameUpload old ch.new)
    (hverified : ∀ id ch, ws (.file id) = some ch → ch.old ≠ some ch.new → ch.new.status = .completed →
      ∃ size, Verified w.env ch.new size ∧ (steady → w.env.objects ch.new.objectKey = some size)) :
    (uploadStates steady A).Allows t w ⟨w.db.commit t, w.env⟩ := by
  refine ⟨fun id file hfile hcompleted => ?_, fun id file hfile => ?_, fun _ _ => trivial⟩
  · dsimp only at hfile
    rw [hat.committed_commit] at hfile
    cases hch : ws (.file id) with
    | none =>
      rw [Workspace.onto_of_none hch] at hfile
      exact hi id file hfile hcompleted
    | some ch =>
      rw [Workspace.onto_of_some hch] at hfile
      cases hfile
      by_cases hold : ch.old = some ch.new
      · exact hi id ch.new ((hat.committed_old hch).trans hold) hcompleted
      · exact hverified id ch hch hold hcompleted
  · dsimp only
    rw [hat.committed_commit]
    cases hch : ws (.file id) with
    | none =>
      rw [Workspace.onto_of_none hch]
      exact ⟨file, hfile, rfl, rfl⟩
    | some ch =>
      rw [Workspace.onto_of_some hch]
      exact ⟨ch.new, rfl, hsame id ch file hch ((hat.committed_old hch).symm.trans hfile)⟩

section Assertions

def Known (id : ℕ) (file : FileRow) (w : FilesWorld T) : Prop :=
  ∃ file', w.db.committed (.file id) = some file' ∧ SameUpload file file'

theorem known_kept {id : ℕ} {file : FileRow} : Kept (uploadStates steady A) t (Known id file) where
  stable w w' _ h hs := by
    obtain ⟨file', hfile', hsame⟩ := h
    obtain ⟨file'', hfile'', hsame'⟩ := hs.always id file' hfile'
    exact ⟨file'', hfile'', hsame'.objectKey.trans hsame.objectKey, hsame'.expectedSize.trans hsame.expectedSize⟩
  works _ h hw := by
    obtain ⟨file', hfile', hsame⟩ := h
    exact ⟨file', by rw [hw.committed]; exact hfile', hsame⟩

end Assertions

section Calls

variable (hA : ∀ {t : T} {a : FilesAction} {w r w'}, A t a w r w' → steady → SizesKept t a w w')

include hA

theorem uploadStates_rules : UploadRules (uploadStates steady A) where
  calm := uploadStates_calm
  external := by
    intro t w o r s hi hperform ha
    refine ⟨fun id file hfile hcompleted => ?_, fun _ file hfile => ⟨file, hfile, rfl, rfl⟩, fun _ _ => trivial⟩
    obtain ⟨size, hverified, hstored⟩ := hi id file hfile hcompleted
    obtain ⟨head, hhead, hof⟩ := hverified.reported
    refine ⟨size, ⟨hverified.actual, hverified.expected, head, hperform.heads hhead, hof⟩, fun hsteady => ?_⟩
    exact ((hA ha hsteady).completed id file hfile hcompleted).trans (hstored hsteady)
  starts hi := allows_unchanged hi rfl rfl
  creates := by
    intro t ws c w hi hat hws
    refine allows_commit hi hat (fun id ch old hch hold => ?_) fun id ch hch _ hcompleted => ?_
    · rw [(hws id ch hch).1] at hold
      cases hold
    · rw [(hws id ch hch).2] at hcompleted
      cases hcompleted

theorem completeFile_spec {id size now : ℕ} {file : FileRow}
    (hexpected : file.expectedSize = none ∨ file.expectedSize = some (size : ℤ)) :
    (uploadStates steady A).Triple t (fun w => Idle t w ∧ Known id file w ∧ Reported t file.objectKey size w)
      (autocommit (completeFile id size now)) (fun _ _ => True) fun _ _ => True := by
  have hF : Kept (uploadStates steady A) t fun w => Known id file w ∧ Reported t file.objectKey size w :=
    known_kept.and reported_kept
  refine statement_outside_spec (uploadStates_rules hA) hF.stable (fun _ => .const) (fun _ _ h => h)
    (updateWhere_spec uploadStates_calm hF .any rfl
    (G := fun old _ => SameUpload file old) (fun _ => .const) ?_) fun updated => ?_
  · rintro w old - - ⟨⟨file', hfile', hsame⟩, -⟩ hold
    cases hold.symm.trans hfile'
    exact hsame
  · cases updated with
    | some new =>
      refine .exists_pre fun old => .pure_pre ?_
      rintro ⟨-, rfl, -⟩
      refine commit_spec uploadStates_calm (hF.and .const) .any .const fun w r hi hat hf ha =>
        ⟨allows_commit hi hat ?_ ?_, fun _ => trivial, fun _ => trivial⟩
      · intro j ch old' hj hold
        by_cases hjid : j = id
        · subst hjid
          rw [Workspace.set_self] at hj
          cases hj
          cases hold
          exact ⟨rfl, rfl⟩
        · rw [Workspace.set_of_ne (by simp [hjid])] at hj
          cases hj
      · intro j ch hj _ _
        obtain ⟨⟨-, hreported⟩, hsame⟩ := hf
        by_cases hjid : j = id
        · subst hjid
          rw [Workspace.set_self] at hj
          cases hj
          refine ⟨size, ⟨rfl, fun expected he => ?_, _, hreported, hsame.objectKey.symm, rfl⟩, fun hsteady => ?_⟩
          · rcases hexpected with hnone | hsize
            · exact absurd (he.symm.trans (hsame.expectedSize.trans hnone)) (by simp)
            · exact Option.some.inj (he.symm.trans (hsame.expectedSize.trans hsize))
          · exact (congrArg _ hsame.objectKey).trans ((hA ha hsteady).reported rfl _ hreported rfl)
        · rw [Workspace.set_of_ne (by simp [hjid])] at hj
          cases hj
    | none =>
      refine .exists_pre fun ws => .pure_pre fun hws => ?_
      have hlocked : ∀ j ch, ws j = some ch → ch.old = some ch.new := by
        rcases hws with rfl | ⟨x, rfl⟩
        · exact fun _ _ hj => absurd hj (by simp [Workspace.empty])
        · exact Workspace.set_empty_locked
      refine commit_spec uploadStates_calm hF .any .const fun w r hi hat hf ha =>
        ⟨allows_commit hi hat ?_ ?_, fun _ => trivial, fun _ => trivial⟩
      · intro j ch old hj hold
        cases hold.symm.trans (hlocked _ ch hj)
        exact ⟨rfl, rfl⟩
      · exact fun j ch hj hne => absurd (hlocked _ ch hj) hne

theorem commitUpload_spec (userId : ℕ) (fileId : String) :
    (uploadStates steady A).Triple t (Idle t) (commitUpload userId fileId) (fun _ _ => True) fun _ _ => True := by
  refine (commitUpload_spec_of (uploadStates_rules hA) (K := Known) (Z := fun _ _ _ => True) (fun _ _ => known_kept)
    (fun _ _ _ _ h => h) (fun _ _ => .const) (fun w id file _ hfile => ⟨file, hfile, rfl, rfl⟩)
    (fun _ _ _ _ _ _ => trivial) (fun hexpected => completeFile_spec hA hexpected) userId fileId).conseq
        (fun _ _ h => h)
    (fun _ _ _ _ => trivial) fun _ _ _ h => h

theorem run_spec (ttl : Option String) (call : UploadCall) :
    (uploadStates steady A).Triple t (Idle t) (call.run ttl) (fun _ _ => True) fun _ _ => True := by
  cases call with
  | intent userId input =>
    exact .bind (createUploadIntent_spec (uploadStates_rules hA) ttl userId input) fun _ => .pure .const
      fun _ _ _ => trivial
  | commit userId fileId => exact .bind (commitUpload_spec hA userId fileId) fun _ => .pure .const fun _ _ _ => trivial
  | put url size =>
    refine .bind (R := fun _ => Idle t) ?_ fun _ => .pure .const fun _ _ _ => trivial
    exact (storageOp_keeps (uploadStates_rules hA) idle_stable fun _ _ _ h => h).conseq (fun _ _ h => h)
      (fun _ _ _ h => h)
      fun _ _ _ _ => trivial

theorem run_verified (ttl : Option String) (calls : T → UploadCall) {w : FilesWorld T} (hw : w.db.Quiescent)
    (hempty : ∀ id, w.db.committed (.file id) = none)
    {d : Config T (FilesWorld T) FilesAction (Action.Res StorageOp.Res) UploadFailure UploadResponse}
    (h : ((FilesMachine T).restrict A fun _ _ _ => True).Reachable (.start w fun t => (calls t).run ttl) d) :
    FilesVerified steady d.shared := by
  have hi : (uploadStates steady A).inv w := fun id file hfile => absurd hfile (by simp [hempty id])
  exact (Discipline.run_holds hi (fun t => hw.workspace t) (fun t => run_spec hA ttl (calls t)) h).1

end Calls

/-- A COMPLETED file has the size that HeadObject reported, and that was expected; while sizes are kept, it is
the size of the object. -/
theorem completed_describes_object (ttl : Option String) (calls : T → UploadCall) {w : FilesWorld T}
    (hw : w.db.Quiescent) (hempty : ∀ id, w.db.committed (.file id) = none)
    {d : Config T (FilesWorld T) FilesAction (Action.Res StorageOp.Res) UploadFailure UploadResponse} :
    ((FilesMachine T).Reachable (.start w fun t => (calls t).run ttl) d → ∀ id file,
      d.shared.db.committed (.file id) = some file → file.status = .completed →
      ∃ size, Verified d.shared.env file size) ∧
      ((steadyUploads T).Reachable (.start w fun t => (calls t).run ttl) d → ∀ id file,
      d.shared.db.committed (.file id) = some file → file.status = .completed →
      ∃ size, Verified d.shared.env file size ∧ d.shared.env.objects file.objectKey = some size) := by
  refine ⟨fun h id file hfile hcompleted => ?_, fun h id file hfile hcompleted => ?_⟩
  · have hfiles : FilesVerified False d.shared :=
      run_verified (fun _ hfalse => hfalse.elim) ttl calls hw hempty h.unrestricted
    obtain ⟨size, hverified, -⟩ := hfiles id file hfile hcompleted
    exact ⟨size, hverified⟩
  · have hfiles : FilesVerified True d.shared := run_verified (fun hkept _ => hkept) ttl calls hw hempty h
    obtain ⟨size, hverified, hstored⟩ := hfiles id file hfile hcompleted
    exact ⟨size, hverified, hstored trivial⟩

section Runs

-- no step changes the size of an object that HeadObject has reported
def ReportsKept (w w' : FilesWorld T) : Prop :=
  ∀ head ∈ w.env.heads, w.env.objects head.key = some head.size ∧ w'.env.objects head.key = some head.size

omit [DecidableEq T] in
theorem ReportsKept.sizesKept {a : FilesAction} {w w' : FilesWorld T} (h : ReportsKept w w')
    (hw : FilesVerified False w) : SizesKept t a w w' := by
  refine ⟨fun id file hfile hcompleted => ?_, fun _ head hhead _ => (h head hhead).1⟩
  obtain ⟨size, hverified, -⟩ := hw id file hfile hcompleted
  obtain ⟨head, hhead, hkey, -⟩ := hverified.reported
  rw [← hkey, (h head hhead).1, (h head hhead).2]

abbrev reportsKept (T : Type) [DecidableEq T] :
    Machine T (FilesWorld T) FilesAction (Action.Res StorageOp.Res) UploadFailure :=
  (FilesMachine T).restrict (fun _ _ w _ w' => ReportsKept w w') fun _ _ _ => True

@[reducible] def reportsKeptMoves : Moves (reportsKept T) :=
  (withDatabaseMoves storageMoves .database).restrict
    (fun _ _ w _ w' => w.env.heads.all fun head =>
      w.env.objects head.key = some head.size && w'.env.objects head.key = some head.size)
    fun h => by
      simp only [List.all_eq_true, Bool.and_eq_true, decide_eq_true_eq] at h
      exact h

theorem steady_of_reportsKept (ttl : Option String) (calls : T → UploadCall) {w : FilesWorld T}
    (hw : w.db.Quiescent) (hempty : ∀ id, w.db.committed (.file id) = none)
    {d : Config T (FilesWorld T) FilesAction (Action.Res StorageOp.Res) UploadFailure UploadResponse}
    (h : (reportsKept T).Reachable (.start w fun t => (calls t).run ttl) d) :
    (steadyUploads T).Reachable (.start w fun t => (calls t).run ttl) d :=
  Machine.Reachable.map (M := reportsKept T) (J := FilesVerified False)
    (fun _ hd => run_verified (fun _ hfalse => hfalse.elim) ttl calls hw hempty hd)
    (fun hs _ hperform => ⟨hperform.1, ReportsKept.sizesKept hperform.2 hs⟩) (fun _ _ hcrash => hcrash) h

def pngId : String := "3d03d576-47fa-45cb-aad4-ce3d8c2c5e93"

def pngUrl : PresignedUrl := ⟨"uploads/1/7b0c8a52-9d7e-4f10-8a3b-5f2f0c1d2e4f.png", "image/png", 300000⟩

def pngCalls : Fin 4 → UploadCall
  | 0 => .intent 1 ⟨"image/png", some (.integer 10)⟩
  | 1 => .put pngUrl 10
  | 2 => .commit 1 pngId
  | 3 => .put pngUrl 20

def noFiles : FilesWorld (Fin 4) :=
  ⟨⟨fun _ => none, fun _ => none, fun q => q.elim, fun _ => ⟨.idle, 0⟩⟩, ⟨0, false, [], fun _ => none, []⟩⟩

theorem noFiles_quiescent : noFiles.db.Quiescent := ⟨fun _ => rfl, fun _ => rfl⟩

abbrev FilesStep := Fin 4 × Option (DatabaseMove StorageMove)

def storageStep (t : Fin 4) (uuid : String) : FilesStep := (t, some (.ext ⟨1000, uuid⟩))

def sqlStep (t : Fin 4) : FilesStep := (t, some .go)

def pngUpload : List FilesStep :=
  List.replicate 4 (storageStep 0 "") ++
    [storageStep 0 pngId, storageStep 0 "7b0c8a52-9d7e-4f10-8a3b-5f2f0c1d2e4f"] ++
    List.replicate 5 (sqlStep 0) ++ [(0, some (.ext ⟨0, ""⟩)), storageStep 1 "", storageStep 2 "", sqlStep 2,
      storageStep 2 "", storageStep 2 ""] ++ List.replicate 5 (sqlStep 2)

def pngRow : ℕ := 0x3d03d57647fa45cbaad4ce3d8c2c5e93

def pngFile : FileRow := ⟨pngId, 1, pngUrl.key, "image/png", .completed, some 10, some 10, some 1000⟩

theorem completed_describes_png : ∃ d,
    (steadyUploads (Fin 4)).Reachable (.start noFiles fun t => (pngCalls t).run none) d ∧
    ∃ file, d.shared.db.committed (.file pngRow) = some file ∧
      ∃ size, Verified d.shared.env file size ∧ d.shared.env.objects file.objectKey = some size := by
  obtain ⟨d, hd, hfile⟩ := exists_reachable (S := reportsKeptMoves) pngUpload
    (c := .start noFiles fun t => (pngCalls t).run none)
    (P := fun d => d.shared.db.committed (.file pngRow) = some pngFile) (by decide +kernel)
  have hsteady := steady_of_reportsKept none pngCalls noFiles_quiescent (fun _ => rfl) hd
  exact ⟨d, hsteady, pngFile, hfile,
    (completed_describes_object none pngCalls noFiles_quiescent fun _ => rfl).2 hsteady _ pngFile hfile rfl⟩

/-- The URL is still valid after the commit, and a PUT through it replaces the object. -/
theorem completed_object_replaced : ∃ d : Config (Fin 4) (FilesWorld (Fin 4)) FilesAction
      (Action.Res StorageOp.Res) UploadFailure UploadResponse,
      (FilesMachine (Fin 4)).Reachable (.start noFiles fun t => (pngCalls t).run none) d ∧ (∀ t, d.Ended t) ∧
      ∃ id file, d.shared.db.committed (.file id) = some file ∧ file.status = .completed ∧
      ¬∃ size : ℕ, file.actualSize = some (size : ℤ) ∧ d.shared.env.objects file.objectKey = some size := by
  obtain ⟨d, hd, hfile, hended, hobject⟩ :=
    exists_reachable (S := withDatabaseMoves storageMoves UploadFailure.database)
    (pngUpload ++ [storageStep 3 ""]) (c := .start noFiles fun t => (pngCalls t).run none)
    (P := fun d => d.shared.db.committed (.file pngRow) = some pngFile ∧
      (∀ t, (d.outcome t).isSome) ∧ d.shared.env.objects pngUrl.key = some 20) (by decide +kernel)
  refine ⟨d, hd, fun t => .inr (Option.isSome_iff_exists.mp (hended t)), _, pngFile, hfile, rfl, ?_⟩
  rintro ⟨size, hactual, hsize⟩
  cases hobject.symm.trans hsize
  cases hactual

end Runs

end Marketplace.Files
