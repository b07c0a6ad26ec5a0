import Marketplace.Files.FilesService

/-!
The calls of the file service under any discipline that lets a call store files as PENDING.
-/

namespace Marketplace.Files

open Concurrent ReadCommitted

variable {T : Type} [DecidableEq T]
  {A : T → (a : FilesAction) → FilesWorld T → Except UploadFailure (a.Res StorageOp.Res) → FilesWorld T → Prop}

/-- What a discipline has to allow to the calls, whatever it says of the UPDATE of `commitUpload`. -/
structure UploadRules (D : Discipline ((FilesMachine T).restrict A fun _ _ _ => True)) : Prop where
  calm : Calm D
  external : ∀ {t w o r s}, D.inv w → StoragePerforms t o w.env r s → A t (.ext o) w r ⟨w.db, s⟩ →
      D.Allows t w ⟨w.db, s⟩
  starts : ∀ {t w}, D.inv w → D.Allows t w ⟨w.db.setTxn t ⟨.inProgress, 0⟩, w.env⟩
  creates : ∀ {t ws c w}, D.inv w → At t ws c w →
    (∀ id ch, ws (.file id) = some ch → ch.old = none ∧ ch.new.status = .pending) → D.Allows t w ⟨w.db.commit t, w.env⟩

variable {D : Discipline ((FilesMachine T).restrict A fun _ _ _ => True)} {t : T}

section Assertions

def Reported (t : T) (key : String) (size : ℕ) (w : FilesWorld T) : Prop := ⟨t, key, size⟩ ∈ w.env.heads

theorem reported_kept {key : String} {size : ℕ} : Kept D t (Reported t key size) where
  stable _ _ _ h hs := hs.frame.env h
  works _ h _ := h

def Idle (t : T) (w : FilesWorld T) : Prop := w.db.workspace t = Workspace.empty

theorem idle_stable : D.Stable t (Idle t) := fun _ _ _ h hs => hs.frame.db.workspace.trans h

end Assertions

section Calls

variable (U : UploadRules D)

include U

theorem storageOp_spec {o : StorageOp} {P : FilesWorld T → Prop} {G : o.Res → FilesWorld T → Prop}
    (hP : D.Stable t P) (hdb : ∀ w s, w.env.heads ⊆ s.heads → P w → P ⟨w.db, s⟩) (hG : ∀ a, D.Stable t (G a))
    (h : ∀ (w : FilesWorld T) a s, StoragePerforms t o w.env (.ok a) s → G a ⟨w.db, s⟩) :
    D.Triple t P (storageOp o) (fun a w => P w ∧ G a w) fun _ => P := by
  refine .perform hP ?_ (fun w w' hi _ hc => U.calm.crash hi hc.1 hc.2) (fun a => hP.and (hG a)) fun _ => hP
  rintro w r w' hi hp ⟨hperform, ha⟩
  cases hperform with
  | @ext _ _ _ s hperform =>
    refine ⟨U.external hi hperform ha, ?_⟩
    cases r with
    | ok a => exact ⟨hdb w s hperform.heads hp, h w a s hperform⟩
    | error error => exact hdb w s hperform.heads hp

theorem storageOp_keeps {o : StorageOp} {P : FilesWorld T → Prop} (hP : D.Stable t P)
    (hdb : ∀ w s, w.env.heads ⊆ s.heads → P w → P ⟨w.db, s⟩) : D.Triple t P (storageOp o) (fun _ => P) fun _ => P :=
  (storageOp_spec U hP hdb (G := fun _ _ => True) (fun _ => .const) fun _ _ _ _ => trivial).conseq (fun _ _ h => h)
    (fun _ _ _ h => h.1) fun _ _ _ h => h

theorem ensureStorageBucket_spec : D.Triple t (Idle t) ensureStorageBucket (fun _ => Idle t) fun _ _ => True := by
  have hop (o : StorageOp) : D.Triple t (Idle t) (storageOp o) (fun _ => Idle t) fun _ => Idle t :=
    storageOp_keeps U idle_stable fun _ _ _ h => h
  refine Discipline.Triple.conseq (Q := fun _ => Idle t) (X := fun _ => Idle t) ?_ (fun _ _ h => h)
    (fun _ _ _ h => h) fun _ _ _ _ => trivial
  refine .bind (hop .initialized) fun initialized => ?_
  split
  · exact .pure idle_stable fun _ _ h => h
  · refine .bind (.handle (hop _) fun _ => hop _) fun _ => ?_
    exact .bind (.handle (hop _) fun _ => .pure idle_stable fun _ _ h => h) fun _ => hop _

omit U in
theorem uuidParameter_spec {P : FilesWorld T → Prop} (hP : D.Stable t P) (text : String) :
    D.Triple t P (uuidParameter text) (fun id w => uuidIn text = some id ∧ P w) fun _ _ => True := by
  unfold uuidParameter
  split
  · rename_i id hid
    exact .pure (.and .const hP) fun _ _ h => ⟨hid, h⟩
  · exact .throw .const fun _ _ _ => trivial

theorem statement_outside_spec {α : Type} {body : FilesCall α} {F : FilesWorld T → Prop}
    {S Z : α → FilesWorld T → Prop} (hF : D.Stable t F) (hZ : ∀ a, D.Stable t (Z a))
    (hbegin : ∀ w x, F w → F ⟨w.db.setTxn t x, w.env⟩)
    (hbody : D.Triple t (fun w => At t Workspace.empty 0 w ∧ F w) body S fun _ _ => True)
    (hcommit : ∀ a, D.Triple t (S a) commit (fun _ => Z a) fun _ _ => True) :
    D.Triple t (fun w => Idle t w ∧ F w) (autocommit body) Z fun _ _ => True :=
  autocommit_spec U.calm hF .const hZ (fun _ _ h => h) (fun _ hi hf => ⟨U.starts hi, hbegin _ _ hf⟩)
    (fun _ _ _ => trivial) (fun _ _ _ => trivial) hbody hcommit

theorem insertFile_spec {id : ℕ} {file : FileRow} (hpending : file.status = .pending) :
    D.Triple t (Idle t) (autocommit (insertFile id file)) (fun _ _ => True) fun _ _ => True := by
  refine (statement_outside_spec U (F := fun _ => True) .const (fun _ => .const) (fun _ _ _ => trivial)
    (S := fun _ w => ∃ ws c, (∀ j ch, ws (.file j) = some ch → ch.old = none ∧ ch.new = file) ∧ At t ws c w) ?_
    fun _ => ?_).pre fun _ _ h => ⟨h, trivial⟩
  · refine .bind (statement_spec U.calm .const .any (fun _ => .const) fun _ _ _ _ => trivial) fun _ => ?_
    refine (Discipline.Triple.bind (insertOrFail_spec U.calm .const .any rfl) fun _ => ?_).pre
      fun _ _ h => ⟨h.1, trivial⟩
    refine .pure_pre fun _ => (insertOrFail_spec U.calm .const .any rfl).conseq (fun _ _ h => h) ?_
      fun _ _ _ h => h
    rintro _ w - ⟨-, hat, -⟩
    refine ⟨_, _, fun j ch hj => ?_, hat⟩
    rw [Workspace.set_of_ne (by simp)] at hj
    by_cases hjid : j = id
    · subst hjid
      rw [Workspace.set_self] at hj
      cases hj
      exact ⟨rfl, rfl⟩
    · rw [Workspace.set_of_ne (by simp [hjid])] at hj
      cases hj
  · refine .exists_pre fun ws => .exists_pre fun c => .pure_pre fun hws => ?_
    refine (commit_spec U.calm .const .any .const fun w r hi hat _ _ =>
      ⟨U.creates hi hat ?_, fun _ => trivial, fun _ => trivial⟩).pre fun _ _ h => ⟨h, trivial⟩
    intro j ch hj
    obtain ⟨hold, hnew⟩ := hws j ch hj
    exact ⟨hold, hnew ▸ hpending⟩

omit U in
theorem getPresignedUploadTtlSeconds_spec (raw : Option String) {P : FilesWorld T → Prop} (hP : D.Stable t P) :
    D.Triple t P (getPresignedUploadTtlSeconds raw) (fun _ => P) fun _ _ => True := by
  have hthrow (message : String) : D.Triple t P
      (throw (.error message) : FilesCall ℕ) (fun _ => P) fun _ _ => True := .throw .const fun _ _ _ => trivial
  unfold getPresignedUploadTtlSeconds
  split
  · exact .pure hP fun _ _ h => h
  · exact .pure hP fun _ _ h => h
  · split
    · split
      · exact hthrow _
      · exact .pure hP fun _ _ h => h
    · exact hthrow _

theorem createUploadIntent_spec (ttl : Option String) (userId : ℕ) (input : CreateUploadIntentInput) :
    D.Triple t (Idle t) (createUploadIntent ttl userId input) (fun _ _ => True) fun _ _ => True := by
  have hthrow {α : Type} (failure : UploadFailure) : D.Triple t (Idle t)
      (throw failure : FilesCall α) (fun _ _ => True) fun _ _ => True := .throw .const fun _ _ _ => trivial
  have hop (o : StorageOp) : D.Triple t (Idle t) (storageOp o) (fun _ => Idle t) fun _ _ => True :=
    (storageOp_keeps U idle_stable fun _ _ _ h => h).conseq (fun _ _ h => h) (fun _ _ _ h => h) fun _ _ _ _ => trivial
  refine .bind (ensureStorageBucket_spec U) fun _ => ?_
  split
  · exact hthrow _
  · split
    · exact hthrow _
    · refine .bind (hop _) fun fileId => .bind (hop _) fun uuid => ?_
      refine .bind (uuidParameter_spec idle_stable _) fun id => .pure_pre fun _ => .bind (insertFile_spec U rfl)
        fun _ => ?_
      refine .bind (getPresignedUploadTtlSeconds_spec ttl .const) fun expiresIn => ?_
      refine .bind ((storageOp_keeps U (P := fun _ => True) .const fun _ _ _ h => h).conseq (fun _ _ h => h)
        (fun _ _ _ h => h) fun _ _ _ h => h) fun url => ?_
      exact .pure .const fun _ _ _ => trivial

theorem contentLength_spec {P : FilesWorld T → Prop} (hP : D.Stable t P)
    (hdb : ∀ w s, w.env.heads ⊆ s.heads → P w → P ⟨w.db, s⟩) (key : String) :
    D.Triple t P (contentLength key) (fun size w => P w ∧ Reported t key size w) fun _ _ => True := by
  refine .handle (Y := fun _ _ => True) ?_ fun error => ?_
  · refine .bind ((storageOp_spec U hP hdb (o := .headObject key)
      (G := fun size w => ∀ n, size = some n → Reported t key n w) (fun _ => ?_) ?_).conseq (fun _ _ h => h)
      (fun _ _ _ h => h) fun _ _ _ _ => trivial) fun size => ?_
    · exact fun w w' hi h hs n hn => reported_kept.stable w w' hi (h n hn) hs
    · rintro w size s hperform n rfl
      cases hperform with
      | headObject h => exact List.mem_cons_self ..
    · cases size with
      | none => exact .throw .const fun _ _ _ => trivial
      | some size => exact .pure (hP.and reported_kept.stable) fun w _ h => ⟨h.1, h.2 size rfl⟩
  · cases error <;> exact .throw .const fun _ _ _ => trivial

/-- `K` is what is known of a row that was read, and `Z` what a response says. The UPDATE is left to the
discipline. -/
theorem commitUpload_spec_of {K : ℕ → FileRow → FilesWorld T → Prop}
    {Z : ℕ → CommitUploadResponse → FilesWorld T → Prop}
    (hK : ∀ id file, Kept D t (K id file)) (hKdb : ∀ id file w s, K id file w → K id file ⟨w.db, s⟩)
    (hZ : ∀ id response, D.Stable t (Z id response))
    (hread : ∀ w id file, D.inv w → w.db.committed (.file id) = some file → K id file w)
    (hcompleted : ∀ id file, file.status = .completed → ∀ w, D.inv w → K id file w →
      Z id ⟨file.id, file.objectKey, .completed, (file.actualSize.or file.expectedSize).getD 0⟩ w)
    (hupdate : ∀ {id : ℕ} {file : FileRow} {size now : ℕ},
      (file.expectedSize = none ∨ file.expectedSize = some (size : ℤ)) →
      D.Triple t (fun w => Idle t w ∧ K id file w ∧ Reported t file.objectKey size w)
      (autocommit (completeFile id size now)) (fun _ => Z id ⟨file.id, file.objectKey, .completed, size⟩)
      fun _ _ => True)
    (userId : ℕ) (fileId : String) :
    D.Triple t (Idle t) (commitUpload userId fileId) (fun response w => ∃ id, uuidIn fileId = some id ∧ Z id response w)
      fun _ _ => True := by
  have hthrow {P : FilesWorld T → Prop} {Q : CommitUploadResponse → FilesWorld T → Prop} (failure : UploadFailure) :
      D.Triple t P (throw failure : FilesCall CommitUploadResponse) Q fun _ _ => True :=
          .throw .const fun _ _ _ => trivial
  have hZid (response : CommitUploadResponse) : D.Stable t fun w => ∃ id, uuidIn fileId = some id ∧ Z id response w :=
    .exists fun id => .and .const (hZ id response)
  refine .bind (ensureStorageBucket_spec U) fun _ => .bind (uuidParameter_spec idle_stable _) fun id => .pure_pre
    fun hid => ?_
  refine .bind ((select_outside_spec U.calm (F := fun _ => True) .const (Y := fun _ _ => True)
    (G := fun view w => ∀ file, view.row (.file id) = some file → K id file w) (fun view => ?_) ?_
        (fun _ _ _ => trivial)
    fun _ => .const).pre fun w _ h => ⟨h, trivial⟩) fun view => ?_
  · exact .each fun file => .imp fun _ => hK id file
  · exact fun w hi _ file hfile => hread w id file hi hfile
  · split
    · exact hthrow _
    · rename_i file hfile
      split
      · exact hthrow _
      · split
        · rename_i hstatus
          refine .pure (hZid _) fun w hi h => ⟨id, hid, hcompleted id file hstatus w hi (h.2.2 file hfile)⟩
        · have hP : D.Stable t fun w => Idle t w ∧ K id file w := idle_stable.and (hK id file).stable
          refine (Discipline.Triple.bind (contentLength_spec U hP (fun w s _ h => ⟨h.1, hKdb id file w s h.2⟩)
            file.objectKey) fun size => ?_).pre fun w _ h => ⟨h.1, h.2.2 file hfile⟩
          split
          · exact hthrow _
          · rename_i hexpected
            refine .bind ((storageOp_keeps U (o := .now) (hP.and reported_kept.stable) ?_).conseq (fun _ _ h => h)
              (fun _ _ _ h => h) fun _ _ _ _ => trivial) fun now => ?_
            · exact fun w s hheads h => ⟨⟨h.1.1, hKdb id file w s h.1.2⟩, hheads h.2⟩
            have hsize : file.expectedSize = none ∨ file.expectedSize = some (size : ℤ) := by
              by_cases hnone : file.expectedSize = none
              · exact .inl hnone
              · exact .inr (not_not.mp fun hsize => hexpected ⟨hnone, hsize⟩)
            refine .bind ((hupdate hsize).pre fun _ _ h => ⟨h.1.1, h.1.2, h.2⟩) fun _ => ?_
            exact .pure (hZid _) fun w _ h => ⟨id, hid, h⟩

end Calls

end Marketplace.Files
