import Mathlib.Algebra.BigOperators.Intervals
import Marketplace.OrderUpdates

namespace Marketplace

open Concurrent ReadCommitted

structure WorkerResult where
  workerId : String
  processed : ℕ
  deriving DecidableEq, Repr

variable {T : Type}

section Code

-- WHERE status = 'pending' ORDER BY id
def View.pendingTasks (view : View T) : List ℕ :=
  (List.range (view.seq .postProcessingTasks)).filter fun id =>
    (view.row (.postProcessingTask id)).any fun task => task.status = .pending

-- FOR UPDATE SKIP LOCKED LIMIT 1: the latest version of a locked row has to be pending still
def lockPending : List ℕ → ShopCall T (Option ℕ)
  | [] => pure none
  | id :: ids => do
    let locked ← tryLock (Key.postProcessingTask id)
    match locked.filter fun task => task.status = .pending with
    | none => lockPending ids
    | some _ => pure (some id)

def PostProcessingTaskRow.process (self : T) (workerId : String) (now : ℕ) (task : PostProcessingTaskRow T) :
    PostProcessingTaskRow T :=
  { task with
    status := .done, processed := task.processed + 1, workerId := some workerId, processedAt := some now
    processedBy := some self }

def claimAndProcessTask (self : T) (workerId : String) : ShopCall T Bool := do
  begin
  tryCatch (do
    let view ← statement
    match ← lockPending (View.pendingTasks view) with
    | none =>
      rollback
      pure false
    | some id =>
      let now ← clock
      let _ ← update (Key.postProcessingTask id) (fun _ => true) (PostProcessingTaskRow.process self workerId now)
      commit
      pure true)
    (fun error => do
      rollback
      throw error)

def hasPendingTasks : ShopCall T Bool := do
  let view ← statement
  pure !(View.pendingTasks view).isEmpty

/-- `rounds` bounds the `while` loop: a worker that has used them up is still running, which is the answer `none`. -/
def runWorker (self : T) (workerId : String) : (rounds processed : ℕ) → ShopCall T (Option WorkerResult)
  | 0, _ => pure none
  | rounds + 1, processed => do
    let handled ← claimAndProcessTask self workerId
    if handled then runWorker self workerId rounds (processed + 1)
    else
      let pending ← hasPendingTasks
      if pending then runWorker self workerId rounds processed
      else pure (some ⟨workerId, processed⟩)

def PostProcessingTaskRow.reset (task : PostProcessingTaskRow T) : PostProcessingTaskRow T :=
  { task with status := .pending, processed := 0, workerId := none, processedAt := none, processedBy := none }

end Code

variable [DecidableEq T]

def isProcessedBy (t : T) (tables : Tables T) (id : ℕ) : Bool :=
  (tables (.postProcessingTask id)).any fun task => task.processedBy = some t

def processedCount (t : T) (ids : Finset ℕ) (tables : Tables T) : ℕ :=
  (ids.filter fun id => isProcessedBy t tables id).card

omit [DecidableEq T] in
/-- `ids` are the tasks; each is pending, or one worker has processed it once. -/
structure TaskPool (ids : Finset ℕ) (tables : Tables T) (seq : Serial → ℕ) : Prop where
  tasks : ∀ id, id ∈ ids ↔ ∃ task, tables (.postProcessingTask id) = some task
  issued : ∀ id ∈ ids, id < seq .postProcessingTasks
  once : ∀ id task, tables (.postProcessingTask id) = some task →
    task.status = .pending ∧ task.processed = 0 ∧ task.processedBy = none ∨
    task.status = .done ∧ task.processed = 1 ∧ ∃ t, task.processedBy = some t

omit [DecidableEq T] in
def AllDone (ids : Finset ℕ) (tables : Tables T) : Prop :=
  ∀ id ∈ ids, ∃ task, tables (.postProcessingTask id) = some task ∧ task.status = .done

omit [DecidableEq T] in
structure TaskProcessed (t : T) (id : ℕ) (old new : Tables T) : Prop where
  row : ∃ task workerId now, old (.postProcessingTask id) = some task ∧ task.status = .pending ∧
    new (.postProcessingTask id) = some (task.process t workerId now)
  others : ∀ k, k ≠ .postProcessingTask id → new k = old k

section Tables

variable {t : T} {id : ℕ} {ids : Finset ℕ} {old new : Tables T} {seq : Serial → ℕ}

omit [DecidableEq T] in
theorem TaskPool.processed (hp : TaskPool ids old seq) (h : TaskProcessed t id old new) : TaskPool ids new seq := by
  obtain ⟨task, workerId, now, hold, hpending, hnew⟩ := h.row
  refine ⟨fun j => ?_, hp.issued, fun j task' hj => ?_⟩
  · rw [hp.tasks j]
    by_cases hjid : j = id
    · subst hjid
      simp [hold, hnew]
    · rw [h.others _ (by simpa using hjid)]
  · by_cases hjid : j = id
    · subst hjid
      rw [hnew] at hj
      cases hj
      rcases hp.once j task hold with ⟨-, hzero, -⟩ | ⟨hdone, -⟩
      · exact .inr ⟨rfl, by simp [PostProcessingTaskRow.process, hzero], t, rfl⟩
      · rw [hpending] at hdone
        cases hdone
    · rw [h.others _ (by simpa using hjid)] at hj
      exact hp.once j task' hj

omit [DecidableEq T] in
theorem AllDone.processed (h : TaskProcessed t id old new) {j : ℕ} {task : PostProcessingTaskRow T}
    (hj : old (.postProcessingTask j) = some task) (hdone : task.status = .done) :
    ∃ task', new (.postProcessingTask j) = some task' ∧ task'.status = .done := by
  obtain ⟨task', workerId, now, hold, -, hnew⟩ := h.row
  by_cases hjid : j = id
  · subst hjid
    exact ⟨_, hnew, rfl⟩
  · exact ⟨task, (h.others _ (by simpa using hjid)).trans hj, hdone⟩

theorem isProcessedBy_other (hp : TaskPool ids old seq) (h : TaskProcessed t id old new) {t' : T} (ht : t ≠ t')
    (j : ℕ) : isProcessedBy t' new j = isProcessedBy t' old j := by
  obtain ⟨task, workerId, now, hold, hpending, hnew⟩ := h.row
  by_cases hjid : j = id
  · subst hjid
    have hnone : task.processedBy = none := by
      rcases hp.once j task hold with ⟨-, -, hnone⟩ | ⟨hdone, -⟩
      · exact hnone
      · rw [hpending] at hdone
        cases hdone
    simp [isProcessedBy, hold, hnew, hnone, PostProcessingTaskRow.process, ht]
  · simp [isProcessedBy, h.others (.postProcessingTask j) (by simpa using hjid)]

theorem processedCount_processed (hp : TaskPool ids old seq) (h : TaskProcessed t id old new) :
    processedCount t ids new = processedCount t ids old + 1 := by
  obtain ⟨task, workerId, now, hold, hpending, hnew⟩ := h.row
  have hid : id ∈ ids := (hp.tasks id).mpr ⟨task, hold⟩
  have hnone : task.processedBy = none := by
    rcases hp.once id task hold with ⟨-, -, hnone⟩ | ⟨hdone, -⟩
    · exact hnone
    · rw [hpending] at hdone
      cases hdone
  have hinsert : (ids.filter fun j => isProcessedBy t new j) =
    insert id (ids.filter fun j => isProcessedBy t old j) := by
    ext j
    simp only [Finset.mem_filter, Finset.mem_insert]
    by_cases hjid : j = id
    · subst hjid
      simp [isProcessedBy, hnew, hid, PostProcessingTaskRow.process]
    · simp [isProcessedBy, h.others (.postProcessingTask j) (by simpa using hjid), hjid]
  rw [processedCount, hinsert, Finset.card_insert_of_notMem, processedCount]
  simp only [Finset.mem_filter, not_and]
  simp [isProcessedBy, hold, hnone]

theorem sum_processedCount [Fintype T] (hp : TaskPool ids old seq) (h : AllDone ids old) :
    ∑ t, processedCount t ids old = ids.card := by
  have hone : ∀ id ∈ ids, (∑ t : T, if isProcessedBy t old id then 1 else 0) = 1 := by
    intro id hid
    obtain ⟨task, htask, hdone⟩ := h id hid
    rcases hp.once id task htask with ⟨hpending, -⟩ | ⟨-, -, t, ht⟩
    · rw [hdone] at hpending
      cases hpending
    · simp [isProcessedBy, htask, ht]
  simp only [processedCount, Finset.card_filter]
  rw [Finset.sum_comm, Finset.sum_congr rfl hone]
  simp

omit [DecidableEq T] in
theorem TaskPool.extend (hp : TaskPool ids old seq) {seq' : Serial → ℕ} (hseq : ∀ q, seq q ≤ seq' q) :
    TaskPool ids old seq' :=
  ⟨hp.tasks, fun id hid => Nat.lt_of_lt_of_le (hp.issued id hid) (hseq _), hp.once⟩

omit [DecidableEq T] in
theorem View.pendingTasks_nodup (view : View T) : (View.pendingTasks view).Nodup :=
  List.nodup_range.filter _

omit [DecidableEq T] in
theorem TaskPool.allDone (hp : TaskPool ids old seq) (h : (View.pendingTasks ⟨old, seq⟩).isEmpty) :
    AllDone ids old := by
  intro id hid
  obtain ⟨task, htask⟩ := (hp.tasks id).mp hid
  refine ⟨task, htask, ?_⟩
  rcases hp.once id task htask with ⟨hpending, -⟩ | ⟨hdone, -⟩
  · have hmem : id ∈ View.pendingTasks ⟨old, seq⟩ := by
      simp [View.pendingTasks, hp.issued id hid, htask, hpending]
    rw [List.isEmpty_iff.mp h] at hmem
    cases hmem
  · exact hdone

end Tables

def workerPool (ids : Finset ℕ) : Discipline (ShopMachine T).unrestricted where
  inv w := TaskPool ids w.db.committed w.db.seq
  always w w' := ∀ id task, w.db.committed (.postProcessingTask id) = some task → task.status = .done →
    ∃ task', w'.db.committed (.postProcessingTask id) = some task' ∧ task'.status = .done
  rely t w w' := ∀ id, isProcessedBy t w'.db.committed id = isProcessedBy t w.db.committed id
  gone _ _ := True
  always_refl _ _ task h hdone := ⟨task, h, hdone⟩
  always_trans h h' id task htask hdone := by
    obtain ⟨task', htask', hdone'⟩ := h id task htask hdone
    exact h' id task' htask' hdone'
  rely_refl _ _ _ := rfl
  rely_trans _ _ _ _ h h' id := (h' id).trans (h id)

section Calls

variable {ids : Finset ℕ} {t : T}

theorem workerPool_calm (ids : Finset ℕ) : Calm (workerPool (T := T) ids) := by
  apply Calm.of_committed
  · intro w w' hc hseq hi
    have hi' : TaskPool ids w.db.committed w'.db.seq := hi.extend hseq
    simp only [workerPool, hc]
    exact hi'
  · intro w w' hc id task htask hdone
    exact ⟨task, by rw [hc]; exact htask, hdone⟩
  · intro t w w' hc id
    rw [hc]
  · exact fun _ _ => trivial

structure Idle (ids : Finset ℕ) (t : T) (n : ℕ) (w : ShopWorld T) : Prop where
  workspace : w.db.workspace t = Workspace.empty
  count : processedCount t ids w.db.committed = n

theorem processedCount_rely {w w' : ShopWorld T} (h : (workerPool ids).rely t w w') :
    processedCount t ids w'.db.committed = processedCount t ids w.db.committed := by
  simp only [processedCount, h _]

theorem count_kept (n : ℕ) : Kept (workerPool ids) t fun w => processedCount t ids w.db.committed = n where
  stable _ _ _ h hs := (processedCount_rely hs.rely).trans h
  works _ h hw := by
    rw [hw.committed]
    exact h

theorem Idle.stable {n : ℕ} : (workerPool ids).Stable t (Idle ids t n) := fun w w' hi h hs =>
  ⟨hs.frame.db.workspace.trans h.workspace, (count_kept n).stable w w' hi h.count hs⟩

theorem allDone_stable : (workerPool ids).Stable t fun w => AllDone ids w.db.committed := by
  intro w w' _ h hs id hid
  obtain ⟨task, htask, hdone⟩ := h id hid
  exact hs.always id task htask hdone

structure LockedTasks (ws : Workspace Key (Row T)) (found : Option ℕ) : Prop where
  locked : ∀ k ch, ws k = some ch → ch.old = some ch.new
  pending : ∀ id ∈ found, ∃ task : PostProcessingTaskRow T, task.status = .pending ∧
    ws (.postProcessingTask id) = some ⟨some task, task⟩

omit [DecidableEq T] in
theorem LockedTasks.empty : LockedTasks (Workspace.empty (R := Row T)) none := by
  refine ⟨fun k ch h => ?_, by simp⟩
  cases h

theorem lockPending_spec {n : ℕ} : ∀ (candidates : List ℕ) (ws : Workspace Key (Row T)), candidates.Nodup →
    (∀ id ∈ candidates, ws (.postProcessingTask id) = none) → LockedTasks ws none →
    (workerPool ids).Triple t (fun w => At t ws 1 w ∧ processedCount t ids w.db.committed = n)
      (lockPending candidates) (fun found w => ∃ ws', LockedTasks ws' found ∧ At t ws' 1 w ∧
      processedCount t ids w.db.committed = n) fun _ _ => True := by
  have hkept : Kept (workerPool ids) t fun w => processedCount t ids w.db.committed = n := count_kept n
  have hstable (found : Option ℕ) : (workerPool ids).Stable t fun w => ∃ ws', LockedTasks ws' found ∧ At t ws' 1 w ∧
      processedCount t ids w.db.committed = n :=
    .exists fun _ => .and .const (At.stable.and hkept.stable)
  intro candidates
  induction candidates with
  | nil =>
    intro ws _ _ hws
    exact .pure (hstable none) fun w _ h => ⟨ws, hws, h⟩
  | cons id candidates ih =>
    intro ws hnodup hfree hws
    obtain ⟨hid, hnodup⟩ := List.nodup_cons.mp hnodup
    refine .bind (tryLock_spec (workerPool_calm ids) hkept .any (hfree id (by simp))) fun locked => ?_
    cases locked with
    | none => exact ih ws hnodup (fun j hj => hfree j (by simp [hj])) hws
    | some task =>
      have hset : LockedTasks (ws.set (.postProcessingTask id) ⟨some task, task⟩) none := by
        refine ⟨fun k ch hk => ?_, by simp⟩
        by_cases hkid : k = .postProcessingTask id
        · subst hkid
          rw [Workspace.set_self] at hk
          cases hk
          rfl
        · rw [Workspace.set_of_ne hkid] at hk
          exact hws.locked k ch hk
      by_cases hpending : task.status = .pending
      · simp only [Option.filter, hpending, decide_true, if_true]
        refine .pure (hstable (some id)) fun w _ h => ⟨_, ⟨hset.locked, ?_⟩, h⟩
        intro j hj
        cases hj
        exact ⟨task, hpending, Workspace.set_self⟩
      · simp only [Option.filter, hpending, decide_false, Bool.false_eq_true, if_false]
        refine ih _ hnodup (fun j hj => ?_) hset
        have hne : j ≠ id := fun heq => hid (heq ▸ hj)
        exact (Workspace.set_of_ne (by simpa using hne)).trans (hfree j (by simp [hj]))

theorem LockedTasks.processed {ws : Workspace Key (Row T)} {id c : ℕ} {workerId : String} {now : ℕ}
    {task : PostProcessingTaskRow T} {w : ShopWorld T} (hws : LockedTasks ws (some id))
    (hid : ws (.postProcessingTask id) = some ⟨some task, task⟩)
    (hat : At t (ws.set (.postProcessingTask id) ⟨some task, task.process t workerId now⟩) c w) :
    TaskProcessed t id w.db.committed (w.db.commit t).committed := by
  obtain ⟨task', hpending, htask'⟩ := hws.pending id rfl
  rw [hid] at htask'
  cases htask'
  refine ⟨⟨task, workerId, now, hat.committed_old (k := Key.postProcessingTask id) Workspace.set_self, hpending, ?_⟩,
    fun k hk => ?_⟩
  · rw [hat.committed_commit]
    exact Workspace.onto_of_some (k := Key.postProcessingTask id) Workspace.set_self
  · have hsame : ws.set (.postProcessingTask id) ⟨some task, task.process t workerId now⟩ k = ws k :=
      Workspace.set_of_ne hk
    rw [hat.committed_commit]
    cases hws' : ws k with
    | none => exact Workspace.onto_of_none (hsame.trans hws')
    | some ch =>
      rw [Workspace.onto_of_some (hsame.trans hws'), hat.committed_old (hsame.trans hws'), hws.locked k ch hws']

theorem claimAndProcessTask_spec (workerId : String) (n : ℕ) :
    (workerPool ids).Triple t (Idle ids t n) (claimAndProcessTask t workerId)
      (fun handled => Idle ids t (if handled then n + 1 else n)) fun _ _ => True := by
  have hD := workerPool_calm (T := T) ids
  have hkept (m : ℕ) : Kept (workerPool ids) t fun w => processedCount t ids w.db.committed = m := count_kept m
  refine .bind ((begin_spec hD (hkept n).stable (fun w hi h => ⟨⟨hi, fun _ task h hdone => ⟨task, h, hdone⟩,
    fun _ _ _ => rfl⟩, h⟩) (fun _ _ _ => trivial) fun _ => .const).pre fun w _ h => ⟨h.workspace, h.count⟩) fun _ => ?_
  refine Discipline.Triple.handle (Y := fun _ _ => True) ?_ fun error =>
    rollback_throw_spec hD .const error (fun _ => .const) fun _ _ _ => ⟨trivial, trivial⟩
  refine .bind (statement_spec hD (hkept n) .any (fun _ => .const) fun _ _ _ _ => trivial) fun view => ?_
  refine .bind ((lockPending_spec (View.pendingTasks view) Workspace.empty (View.pendingTasks_nodup view)
    (fun _ _ => rfl) .empty).pre fun w _ h => ⟨h.1, h.2.1⟩) fun found => ?_
  refine .exists_pre fun ws => .pure_pre fun hws => ?_
  cases found with
  | none =>
    have hidle : ∀ w, (workerPool ids).inv w → At t ws 1 w ∧ processedCount t ids w.db.committed = n →
        Idle ids t n ⟨w.db.rollback t, w.env⟩ ∧ True := by
      rintro w - ⟨hat, hcount⟩
      refine ⟨⟨Database.workspace_rollback (by rw [hat.txn]), ?_⟩, trivial⟩
      rw [Database.committed_rollback]
      exact hcount
    refine .bind (hD.abort (At.stable.and (hkept n).stable) hidle Idle.stable fun _ => .const) fun _ => ?_
    exact .pure Idle.stable fun _ _ h => h
  | some id =>
    obtain ⟨task, hpending, hid⟩ := hws.pending id rfl
    refine .bind (clock_spec hD (At.stable.and (hkept n).stable) fun _ => .const) fun now => ?_
    refine .bind (updateWhere_own_spec hD (hkept n) .any hid rfl) fun _ => .pure_pre fun _ => ?_
    refine .bind (commit_spec (Z := Idle ids t (n + 1)) hD (hkept n) .any Idle.stable ?_)
      fun _ => .pure Idle.stable fun _ _ h => h
    intro w r hi hat hcount _
    have hdone := hws.processed hid hat
    have hpool : TaskPool ids (w.db.commit t).committed (w.db.commit t).seq := by
      rw [Database.seq_commit]
      exact hi.processed hdone
    refine ⟨⟨hpool, fun j task hj hj' => AllDone.processed hdone hj hj', fun t' hne =>
      isProcessedBy_other hi hdone hne⟩, fun _ => ⟨Database.workspace_commit (by rw [hat.txn]), ?_⟩, fun _ => trivial⟩
    rw [processedCount_processed hi hdone, hcount]

theorem hasPendingTasks_spec (n : ℕ) : (workerPool ids).Triple t (Idle ids t n) hasPendingTasks
    (fun pending w => Idle ids t n w ∧ (pending = false → AllDone ids w.db.committed)) fun _ _ => True := by
  have hdone (b : Bool) : (workerPool ids).Stable t fun w => Idle ids t n w ∧
    (b = false → AllDone ids w.db.committed) := by
    cases b with
    | true => exact Idle.stable.and fun _ _ _ _ _ h => nomatch h
    | false => exact Idle.stable.and fun w w' hi h hs _ => allDone_stable w w' hi (h rfl) hs
  refine .bind (R := fun view w => Idle ids t n w ∧ ((View.pendingTasks view).isEmpty → AllDone ids w.db.committed))
    ?_ fun view => ?_
  · refine (workerPool_calm ids).inner (o := .statement) trivial Idle.stable ?_ (fun _ _ _ => trivial)
      (fun view => Idle.stable.and ?_) fun _ => .const
    · rintro w view db hi hidle hx -
      cases hx
      have hview : w.db.snapshot t = ⟨w.db.committed, w.db.seq⟩ := by
        have hvisible : w.db.visible t = w.db.committed := by
          funext k
          exact Database.visible_of_none (by rw [hidle.workspace]; rfl)
        rw [Database.snapshot, hvisible]
      refine ⟨⟨hidle.workspace, hidle.count⟩, fun hempty => ?_⟩
      rw [hview] at hempty
      exact hi.allDone hempty
    · exact fun w w' hi h hs hempty => allDone_stable w w' hi (h hempty) hs
  · refine .pure (hdone _) fun w _ h => ⟨h.1, fun hb => h.2 ?_⟩
    simpa using hb

theorem runWorker_spec (workerId : String) (rounds : ℕ) : ∀ n, (workerPool ids).Triple t (Idle ids t n)
    (runWorker t workerId rounds n) (fun result w => ∀ r ∈ result, processedCount t ids w.db.committed = r.processed ∧
      AllDone ids w.db.committed) fun _ _ => True := by
  have hstable (result : Option WorkerResult) : (workerPool ids).Stable t fun w => ∀ r ∈ result,
      processedCount t ids w.db.committed = r.processed ∧ AllDone ids w.db.committed :=
    fun w w' hi h hs r hr => ⟨(count_kept _).stable w w' hi (h r hr).1 hs, allDone_stable w w' hi (h r hr).2 hs⟩
  induction rounds with
  | zero => exact fun n => .pure (hstable none) (by simp)
  | succ rounds ih =>
    intro n
    refine .bind (claimAndProcessTask_spec workerId n) fun handled => ?_
    cases handled with
    | true => exact ih (n + 1)
    | false =>
      refine .bind (hasPendingTasks_spec n) fun pending => ?_
      cases pending with
      | true => exact (ih n).pre fun _ _ h => h.1
      | false =>
        refine .pure (hstable _) fun w _ h r hr => ?_
        cases hr
        exact ⟨h.1.count, h.2 rfl⟩

end Calls

omit [DecidableEq T] in
structure TasksReset (ids : Finset ℕ) (w : ShopWorld T) : Prop where
  quiescent : w.db.Quiescent
  tasks : ∀ id, id ∈ ids ↔ ∃ task, w.db.committed (.postProcessingTask id) = some task
  issued : ∀ id ∈ ids, id < w.db.seq .postProcessingTasks
  reset : ∀ id task, w.db.committed (.postProcessingTask id) = some task →
    task = PostProcessingTaskRow.reset task

theorem TasksReset.idle {ids : Finset ℕ} {w : ShopWorld T} (hw : TasksReset ids w) (t : T) : Idle ids t 0 w := by
  refine ⟨hw.quiescent.workspace t, Finset.card_eq_zero.mpr (Finset.filter_eq_empty_iff.mpr fun id _ => ?_)⟩
  unfold isProcessedBy
  cases hid : w.db.committed (.postProcessingTask id) with
  | none => simp
  | some task =>
    have hby : task.processedBy = none := by
      rw [hw.reset id task hid]
      rfl
    simp [hby]

omit [DecidableEq T] in
theorem TasksReset.pool {ids : Finset ℕ} {w : ShopWorld T} (hw : TasksReset ids w) :
    TaskPool ids w.db.committed w.db.seq := by
  refine ⟨hw.tasks, hw.issued, fun id task hid => .inl ?_⟩
  rw [hw.reset id task hid]
  exact ⟨rfl, rfl, rfl⟩

abbrev WorkerConfig (T : Type) := ShopConfig T (Option WorkerResult)

/-- Every task is processed once: by any workers, under any interleaving of their statements and any failures. -/
theorem workers_process_once [Fintype T] [Nonempty T] {ids : Finset ℕ} {w : ShopWorld T} (hw : TasksReset ids w)
    (workerId : T → String) (rounds : T → ℕ) {c : WorkerConfig T}
    (h : (ShopMachine T).Reachable (.start w fun t => runWorker t (workerId t) (rounds t) 0) c) :
    (∀ id ∈ ids, ∃ task, c.shared.db.committed (.postProcessingTask id) = some task ∧
      (task.status = .done ∧ task.processed = 1 ∨ task.status = .pending ∧ task.processed = 0)) ∧
      ∀ results : T → WorkerResult, (∀ t, c.outcome t = some (.ok (some (results t)))) →
      AllDone ids c.shared.db.committed ∧ ∑ t, (results t).processed = ids.card := by
  obtain ⟨hpool, hout, -⟩ := Discipline.run_holds (D := workerPool ids) hw.pool hw.idle
    (fun t => runWorker_spec (workerId t) (rounds t) 0) h.unrestricted
  have hpool : TaskPool ids c.shared.db.committed c.shared.db.seq := hpool
  refine ⟨fun id hid => ?_, fun results hresults => ?_⟩
  · obtain ⟨task, htask⟩ := (hpool.tasks id).mp hid
    refine ⟨task, htask, ?_⟩
    rcases hpool.once id task htask with ⟨hpending, hzero, -⟩ | ⟨hdone, hone, -⟩
    · exact .inr ⟨hpending, hzero⟩
    · exact .inl ⟨hdone, hone⟩
  · have hall (t : T) := hout t _ (hresults t) (results t) rfl
    obtain ⟨t⟩ := ‹Nonempty T›
    refine ⟨(hall t).2, ?_⟩
    rw [← sum_processedCount hpool (hall t).2]
    exact Finset.sum_congr rfl fun t _ => (hall t).1.symm

def twoTasks : ShopWorld (Fin 2) :=
  ⟨⟨fun
    | .postProcessingTask 1 => some ⟨1, "order_confirmation", .pending, 0, none, none, none⟩
    | .postProcessingTask 2 => some ⟨2, "order_confirmation", .pending, 0, none, none, none⟩
    | _ => none, fun _ => none, fun _ => 3, fun _ => ⟨.idle, 0⟩⟩, []⟩

theorem twoTasks_reset : TasksReset {1, 2} twoTasks where
  quiescent := ⟨fun _ => rfl, fun _ => rfl⟩
  tasks id := by
    by_cases h1 : id = 1
    · subst h1
      simp [twoTasks]
    · by_cases h2 : id = 2
      · subst h2
        simp [twoTasks]
      · simp [twoTasks, h1, h2]
  issued := by decide
  reset id task h := by
    by_cases h1 : id = 1
    · subst h1
      cases h
      rfl
    · by_cases h2 : id = 2
      · subst h2
        cases h
        rfl
      · simp [twoTasks, h1, h2] at h

-- worker 1 selects before worker 0 commits the first task, and then finds it done
def staleSnapshot : List (Fin 2 × Option (DatabaseMove ShopMove)) :=
  let claim : List (DatabaseMove ShopMove) := [.go, .go, .go, .ext (.ok 7), .go, .go, .go, .go]
  let stop : List (DatabaseMove ShopMove) := List.replicate 4 .go
  [1, 1].map (·, some .go) ++ claim.map (0, some ·) ++ [(1, some .go)] ++ (claim.drop 2).map (1, some ·) ++
    stop.map (0, some ·) ++ stop.map (1, some ·)

theorem workers_process_once_stale : ∃ c : WorkerConfig (Fin 2), ∃ results : Fin 2 → WorkerResult,
    (ShopMachine (Fin 2)).Reachable
      (.start twoTasks fun t => runWorker t (if t = 0 then "worker-1" else "worker-2") 3 0) c ∧
      (∀ t, c.outcome t = some (.ok (some (results t)))) ∧ AllDone {1, 2} c.shared.db.committed ∧
      ∑ t, (results t).processed = 2 := by
  have hrun : ∃ c : WorkerConfig (Fin 2), (ShopMachine (Fin 2)).Reachable
      (.start twoTasks fun t => runWorker t (if t = 0 then "worker-1" else "worker-2") 3 0) c ∧
      c.outcome 0 = some (.ok (some ⟨"worker-1", 1⟩)) ∧ c.outcome 1 = some (.ok (some ⟨"worker-2", 1⟩)) := by
    apply exists_reachable (S := withDatabaseMoves shopMoves .database) staleSnapshot
    decide
  obtain ⟨c, hc, h0, h1⟩ := hrun
  have hresults (t : Fin 2) :
      c.outcome t = some (.ok (some (if t = 0 then ⟨"worker-1", 1⟩ else ⟨"worker-2", 1⟩))) := by
    rcases Fin.exists_fin_two.mp ⟨t, rfl⟩ with rfl | rfl
    · exact h0
    · exact h1
  exact ⟨c, _, hc, hresults, (workers_process_once twoTasks_reset (fun t => if t = 0 then "worker-1" else "worker-2")
    (fun _ => 3) hc).2 _ hresults⟩

end Marketplace
