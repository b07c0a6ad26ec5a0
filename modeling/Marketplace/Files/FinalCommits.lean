import Marketplace.Files.UploadStates

/-!
What follows on the first commit of a file, when several calls commit it.
-/

namespace Marketplace.Files

open Concurrent ReadCommitted

variable {T : Type}

def FindsPending (a : FilesAction) (w : FilesWorld T) : Prop :=
  ∀ id file, a = .sql (.lock (.file id)) → w.db.committed (.file id) = some file → file.status = .pending

structure FinalFile (file file' : FileRow) : Prop where
  id : file'.id = file.id
  objectKey : file'.objectKey = file.objectKey
  final : file.status = .completed → file' = file

def FilesFinal (w w' : FilesWorld T) : Prop :=
  ∀ id file, w.db.committed (.file id) = some file → ∃ file', w'.db.committed (.file id) = some file' ∧
      FinalFile file file'

theorem FinalFile.refl (file : FileRow) : FinalFile file file := ⟨rfl, rfl, fun _ => rfl⟩

theorem FinalFile.trans {file file' file'' : FileRow} (h : FinalFile file file') (h' : FinalFile file' file'') :
    FinalFile file file'' := by
  refine ⟨h'.id.trans h.id, h'.objectKey.trans h.objectKey, fun hcompleted => ?_⟩
  obtain rfl := h.final hcompleted
  exact h'.final hcompleted

variable [DecidableEq T]

abbrev orderlyCommits (T : Type) [DecidableEq T] :
    Machine T (FilesWorld T) FilesAction (Action.Res StorageOp.Res) UploadFailure :=
  (FilesMachine T).restrict (fun _ a w _ _ => FindsPending a w) fun _ _ _ => True

def finalCommits : Discipline (orderlyCommits T) where
  inv _ := True
  always := FilesFinal
  rely _ _ _ := True
  gone _ _ := True
  always_refl _ _ file h := ⟨file, h, .refl file⟩
  always_trans h h' id file hfile := by
    obtain ⟨file', hfile', hsame⟩ := h id file hfile
    obtain ⟨file'', hfile'', hsame'⟩ := h' id file' hfile'
    exact ⟨file'', hfile'', hsame.trans hsame'⟩
  rely_refl _ _ := trivial
  rely_trans _ _ _ _ _ _ := trivial

variable {t : T}

theorem finalCommits_unchanged {w w' : FilesWorld T} (hc : w'.db.committed = w.db.committed) :
    (finalCommits (T := T)).Allows t w w' :=
  ⟨trivial, fun _ file h => ⟨file, hc ▸ h, .refl file⟩, fun _ _ => trivial⟩

theorem finalCommits_commit {ws : Workspace FilesKey FilesRow} {c : ℕ} {w : FilesWorld T} (hat : At t ws c w)
    (h : ∀ id ch old, ws (.file id) = some ch → ch.old = some old → FinalFile old ch.new) :
    (finalCommits (T := T)).Allows t w ⟨w.db.commit t, w.env⟩ := by
  refine ⟨trivial, fun id file hfile => ?_, fun _ _ => trivial⟩
  dsimp only
  rw [hat.committed_commit]
  cases hch : ws (.file id) with
  | none => exact ⟨file, (Workspace.onto_of_none hch).trans hfile, .refl file⟩
  | some ch => exact ⟨ch.new, Workspace.onto_of_some hch, h id ch file hch ((hat.committed_old hch).symm.trans hfile)⟩

theorem finalCommits_rules : UploadRules (finalCommits (T := T)) where
  calm := .of_committed (fun _ _ _ _ _ => trivial)
    (fun _ _ hc _ file h => ⟨file, hc ▸ h, .refl file⟩) (fun _ _ _ _ => trivial) fun _ _ => trivial
  external _ _ _ := finalCommits_unchanged rfl
  starts _ := finalCommits_unchanged rfl
  creates _ hat hws := by
    refine finalCommits_commit hat fun id ch old hch hold => ?_
    rw [(hws id ch hch).1] at hold
    cases hold

section Calls

def Follows (id : ℕ) (file : FileRow) (w : FilesWorld T) : Prop :=
  ∃ file', w.db.committed (.file id) = some file' ∧ FinalFile file file'

omit [DecidableEq T] in
def FileRow.response (file : FileRow) : CommitUploadResponse :=
  ⟨file.id, file.objectKey, .completed, (file.actualSize.or file.expectedSize).getD 0⟩

def Committed (id : ℕ) (response : CommitUploadResponse) (w : FilesWorld T) : Prop :=
  ∃ file, w.db.committed (.file id) = some file ∧ file.status = .completed ∧ response = file.response

theorem follows_kept {id : ℕ} {file : FileRow} : Kept (finalCommits (T := T)) t (Follows id file) where
  stable _ _ _ h hs := by
    obtain ⟨file', hfile', hsame⟩ := h
    obtain ⟨file'', hfile'', hsame'⟩ := hs.always id file' hfile'
    exact ⟨file'', hfile'', hsame.trans hsame'⟩
  works _ h hw := by
    obtain ⟨file', hfile', hsame⟩ := h
    exact ⟨file', by rw [hw.committed]; exact hfile', hsame⟩

theorem committed_stable {id : ℕ} {response : CommitUploadResponse} :
    (finalCommits (T := T)).Stable t (Committed id response) := by
  rintro w w' - ⟨file, hfile, hcompleted, rfl⟩ hs
  obtain ⟨file', hfile', hsame⟩ := hs.always id file hfile
  obtain rfl := hsame.final hcompleted
  exact ⟨file', hfile', hcompleted, rfl⟩

theorem completePending_spec {id size now : ℕ} {file : FileRow} :
    (finalCommits (T := T)).Triple t (fun w => Idle t w ∧ Follows id file w ∧ Reported t file.objectKey size w)
      (autocommit (completeFile id size now)) (fun _ => Committed id ⟨file.id, file.objectKey, .completed, size⟩)
      fun _ _ => True := by
  refine (statement_outside_spec finalCommits_rules (F := Follows id file) follows_kept.stable
    (fun _ => committed_stable) (fun _ _ h => h)
        (updateWhere_allowed_spec (k := .file id) finalCommits_rules.calm follows_kept .any
      rfl (G := fun old _ => FinalFile file old ∧ FileRow.status old = .pending) (N := fun _ => False)
          (fun _ => .const) .const ?_ ?_)
    fun updated => ?_).pre fun _ _ h => ⟨h.1, h.2.1⟩
  · rintro w old db - - ⟨file', hfile', hsame⟩ hold hpending
    cases hold.symm.trans hfile'
    exact ⟨hsame, hpending id old rfl hold⟩
  · rintro w - - ⟨file', hfile', -⟩ hnone
    cases hnone.symm.trans hfile'
  · cases updated with
    | none =>
      refine .exists_pre fun ws => .pure_pre fun _ w _ h => ?_
      exact (h.2.2 fun _ => rfl).elim
    | some new =>
      refine .exists_pre fun old => .pure_pre ?_
      rintro ⟨-, rfl, -⟩
      refine commit_spec finalCommits_rules.calm (follows_kept.and .const) .any committed_stable
        fun w r hi hat hf _ =>
        ⟨finalCommits_commit hat ?_, fun _ => ?_, fun _ => trivial⟩
      · intro j ch old' hj hold
        by_cases hjid : j = id
        · subst hjid
          rw [Workspace.set_self] at hj
          cases hj
          cases hold
          refine ⟨rfl, rfl, fun hcompleted => ?_⟩
          rw [hf.2.2] at hcompleted
          cases hcompleted
        · rw [Workspace.set_of_ne (by simp [hjid])] at hj
          cases hj
      · refine ⟨{ old with status := .completed, actualSize := some (size : ℤ), completedAt := some now }, ?_, rfl, ?_⟩
        · dsimp only
          rw [hat.committed_commit]
          exact Workspace.onto_of_some Workspace.set_self
        · simp [FileRow.response, hf.2.1.id, hf.2.1.objectKey]

theorem commitUpload_final_spec (userId : ℕ) (fileId : String) :
    (finalCommits (T := T)).Triple t (Idle t) (commitUpload userId fileId)
      (fun response w => ∃ id, uuidIn fileId = some id ∧ Committed id response w) fun _ _ => True :=
  commitUpload_spec_of finalCommits_rules (K := Follows) (fun _ _ => follows_kept) (fun _ _ _ _ h => h)
    (fun _ _ => committed_stable) (fun _ _ file _ hfile => ⟨file, hfile, .refl file⟩)
    (fun _ file hcompleted _ _ ⟨file', hfile', hsame⟩ => by
      obtain rfl := hsame.final hcompleted
      exact ⟨file', hfile', hcompleted, rfl⟩) (fun _ => completePending_spec) userId fileId

def Answered : UploadCall → UploadResponse → FilesWorld T → Prop
  | .commit _ fileId, .commit response, w => ∃ id, uuidIn fileId = some id ∧ Committed id response w
  | _, _, _ => True

theorem run_final_spec (ttl : Option String) (call : UploadCall) :
    (finalCommits (T := T)).Triple t (Idle t) (call.run ttl) (Answered call) fun _ _ => True := by
  cases call with
  | intent userId input =>
    exact .bind (createUploadIntent_spec finalCommits_rules ttl userId input) fun _ => .pure .const fun _ _ _ => trivial
  | commit userId fileId =>
    refine .bind (commitUpload_final_spec userId fileId) fun response => .pure ?_ fun _ _ h => h
    exact .exists fun id => .and .const committed_stable
  | put url size =>
    refine .bind (R := fun _ => Idle t) ?_ fun _ => .pure .const fun _ _ _ => trivial
    exact (storageOp_keeps finalCommits_rules idle_stable fun _ _ _ h => h).conseq (fun _ _ h => h) (fun _ _ _ h => h)
      fun _ _ _ _ => trivial

end Calls

abbrev FilesConfig (T : Type) :=
  Config T (FilesWorld T) FilesAction (Action.Res StorageOp.Res) UploadFailure UploadResponse

abbrev FilesCalls (ttl : Option String) (calls : T → UploadCall) (w : FilesWorld T) : FilesConfig T :=
  .start w fun t => (calls t).run ttl

theorem first_commit_final {ttl : Option String} {calls : T → UploadCall} {w : FilesWorld T} {c : FilesConfig T}
    (hw : w.db.Quiescent) (h : (orderlyCommits T).Reachable (FilesCalls ttl calls w) c) :
    (∀ t t' userId userId' fileId fileId' response response', calls t = .commit userId fileId →
      calls t' = .commit userId' fileId' → uuidIn fileId = uuidIn fileId' →
      c.outcome t = some (.ok (.commit response)) →
      c.outcome t' = some (.ok (.commit response')) → response = response') ∧
      ∀ d, (orderlyCommits T).Reachable c d → ∀ id file, c.shared.db.committed (.file id) = some file →
      file.status = .completed → d.shared.db.committed (.file id) = some file := by
  constructor
  · obtain ⟨-, hdone, -⟩ := Discipline.run_holds (D := finalCommits) trivial hw.workspace
      (fun t => run_final_spec ttl (calls t)) h
    intro t t' userId userId' fileId fileId' response response' ht ht' hsame hr hr'
    have hanswer := hdone t _ hr
    have hanswer' := hdone t' _ hr'
    rw [ht] at hanswer
    rw [ht'] at hanswer'
    obtain ⟨id, hid, file, hfile, -, rfl⟩ := hanswer
    obtain ⟨id', hid', file', hfile', -, rfl⟩ := hanswer'
    cases hid.symm.trans (hsame.trans hid')
    cases hfile.symm.trans hfile'
    rfl
  · intro d hd id file hfile hcompleted
    have halways := Discipline.run_always (D := finalCommits) trivial hw.workspace
      (fun t => run_final_spec ttl (calls t)) h hd
    obtain ⟨file', hfile', hsame⟩ := halways id file hfile
    rw [hfile', hsame.final hcompleted]

section Runs

def finds (a : FilesAction) (w : FilesWorld T) : Bool :=
  match a with
  | .sql (.lock (.file id)) => (w.db.committed (.file id)).all fun file => FileRow.status file = .pending
  | _ => true

@[reducible] def orderlyMoves : Moves (orderlyCommits T) :=
  (withDatabaseMoves storageMoves .database).restrict (fun _ a w _ _ => finds a w) fun h => by
    rintro id file rfl hfile
    simpa [finds, hfile] using h

abbrev CommitStep := ℕ × Option (DatabaseMove StorageMove)

def storageSteps (t : ℕ) (clock : ℕ) (uuids : List String) : List CommitStep :=
  uuids.map fun uuid => (t, some (.ext ⟨clock, uuid⟩))

def sqlSteps (t n : ℕ) : List CommitStep := List.replicate n (t, some .go)

def twoUploads : ℕ → UploadCall
  | 0 => .intent 1 ⟨"image/png", none⟩
  | 1 => .put pngUrl 10
  | 2 => .put pngUrl 20
  | _ => .commit 1 pngId

def nothingStored : FilesWorld ℕ :=
  ⟨⟨fun _ => none, fun _ => none, fun q => q.elim, fun _ => ⟨.idle, 0⟩⟩, ⟨0, false, [], fun _ => none, []⟩⟩

theorem nothingStored_quiescent : nothingStored.db.Quiescent := ⟨fun _ => rfl, fun _ => rfl⟩

def intentSteps : List CommitStep :=
  storageSteps 0 0 ["", "", "", "", pngId, "7b0c8a52-9d7e-4f10-8a3b-5f2f0c1d2e4f"] ++ sqlSteps 0 5 ++
    storageSteps 0 0 [""]

def pngResponse (size : ℤ) : CommitUploadResponse := ⟨pngId, pngUrl.key, .completed, size⟩

def committedAt (size : ℤ) (time : ℕ) : FileRow :=
  ⟨pngId, 1, pngUrl.key, "image/png", .completed, none, some size, some time⟩

-- call 3 commits, and call 4 finds the file COMPLETED
theorem first_commit_final_repeated : ∃ c d : FilesConfig ℕ,
    (orderlyCommits ℕ).Reachable (FilesCalls none twoUploads nothingStored) c ∧ (orderlyCommits ℕ).Reachable c d ∧
    c.outcome 3 = some (.ok (.commit (pngResponse 10))) ∧
    (∀ response, d.outcome 4 = some (.ok (.commit response)) → response = pngResponse 10) ∧
    d.shared.db.committed (.file pngRow) = some (committedAt 10 5) := by
  have hrun := exists_reachable_twice (S := orderlyMoves) (c := FilesCalls none twoUploads nothingStored)
    (P := fun c d => c.outcome 3 = some (.ok (.commit (pngResponse 10))) ∧
      d.outcome 3 = some (.ok (.commit (pngResponse 10))) ∧
      c.shared.db.committed (.file pngRow) = some (committedAt 10 5))
    (intentSteps ++ storageSteps 1 1 [""] ++ storageSteps 3 5 [""] ++ sqlSteps 3 1 ++ storageSteps 3 5 ["", ""] ++
      sqlSteps 3 5)
    (storageSteps 2 6 [""] ++ storageSteps 4 7 [""] ++ sqlSteps 4 1) (by decide +kernel)
  obtain ⟨c, d, hc, hd, hfirst, hstill, hfile⟩ := hrun
  have hsteps := first_commit_final nothingStored_quiescent (hc.trans hd)
  refine ⟨c, d, hc, hd, hfirst, fun response hr => ?_, ?_⟩
  · exact hsteps.1 4 3 1 1 pngId pngId _ _ rfl rfl rfl hr hstill
  · exact (first_commit_final nothingStored_quiescent hc).2 d hd _ _ hfile rfl

/-- Both calls have read the row as PENDING; call 4 measures the second upload. -/
theorem second_commit_overwrites : ∃ c d : FilesConfig ℕ,
    (FilesMachine ℕ).Reachable (FilesCalls none twoUploads nothingStored) c ∧ (FilesMachine ℕ).Reachable c d ∧
    (∃ response response', d.outcome 3 = some (.ok (.commit response)) ∧
      d.outcome 4 = some (.ok (.commit response')) ∧ response ≠ response') ∧
      ∃ id file file', c.shared.db.committed (.file id) = some file ∧ file.status = .completed ∧
      d.shared.db.committed (.file id) = some file' ∧ file'.actualSize ≠ file.actualSize ∧
      file'.completedAt ≠ file.completedAt := by
  have hrun := exists_reachable_twice (S := withDatabaseMoves storageMoves UploadFailure.database)
    (c := FilesCalls none twoUploads nothingStored)
    (P := fun c d => c.shared.db.committed (.file pngRow) = some (committedAt 10 5) ∧
      d.outcome 3 = some (.ok (.commit (pngResponse 10))) ∧ d.outcome 4 = some (.ok (.commit (pngResponse 20))) ∧
      d.shared.db.committed (.file pngRow) = some (committedAt 20 7))
    (intentSteps ++ storageSteps 1 1 [""] ++ storageSteps 3 2 [""] ++ sqlSteps 3 1 ++ storageSteps 3 3 [""] ++
      storageSteps 2 4 [""] ++ storageSteps 4 5 [""] ++ sqlSteps 4 1 ++ storageSteps 4 5 [""] ++
      storageSteps 3 5 [""] ++ sqlSteps 3 5)
    (storageSteps 4 7 [""] ++ sqlSteps 4 5) (by decide +kernel)
  obtain ⟨c, d, hc, hd, hfile, hfirst, hsecond, hfile'⟩ := hrun
  exact ⟨c, d, hc, hd, ⟨_, _, hfirst, hsecond, by decide⟩, _, _, _, hfile, rfl, hfile', by decide, by decide⟩

end Runs

end Marketplace.Files
