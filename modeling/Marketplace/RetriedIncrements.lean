import Marketplace.StockLedger

namespace Marketplace

open Concurrent ReadCommitted

def demoUserId : ℕ := 1

def increment : ℤ := 1000

def maxRetries : ℕ := 5

/-- The `code` of an error, where `sqlState` is the one a failed statement came with. -/
def Failure.code? (sqlState : String) : Failure → Option String
  | .database => some sqlState
  | .serialization => some "40001"
  | _ => none

def isRetryableError (code : Option String) : Bool := code = some "40001" || code = some "40P01"

variable {T : Type}

section Code

-- with `retries` left; the database may give every failed attempt another SQLSTATE
def retryUpTo (operation : ShopCall T Unit) (sqlState : ℕ → String) : (retries : ℕ) → ShopCall T Unit
  | 0 => operation
  | retries + 1 => tryCatch operation fun error =>
    if isRetryableError (error.code? (sqlState retries)) then retryUpTo operation sqlState retries else throw error

def runWithRetry (operation : ShopCall T Unit) (sqlState : ℕ → String) : ShopCall T Unit :=
  retryUpTo operation sqlState maxRetries

def incrementOnce : ShopCall T Unit := do
  begin
  tryCatch (do
    let view ← statement
    match view.row (.user demoUserId) with
    | none => throw (.error "Failed to read user balance")
    | some user =>
      let newBalance := user.balance + increment
      let _ ← updateSerializable .database .serialization Row.valid view (Key.user demoUserId)
        fun user => { user with balance := newBalance }
      commit)
    (fun error => do
      rollback
      throw error)

def incrementBalance (sqlState : ℕ → String) : ShopCall T Unit := runWithRetry incrementOnce sqlState

inductive BalanceCall
  | increment (sqlState : ℕ → String)
  | checkout (input : CheckoutInput)

def BalanceCall.isIncrement : BalanceCall → Bool
  | .increment _ => true
  | .checkout _ => false

def BalanceCall.run (self : T) : BalanceCall → ShopCall T Unit
  | .increment sqlState => incrementBalance sqlState
  | .checkout input => do
    let _ ← Marketplace.checkout self input
    pure ()

end Code

def credited (n : ℕ) (tables : Tables T) : Tables T
  | .user id => (tables (.user id)).map fun user =>
    if id = demoUserId then { user with balance := user.balance + increment * n } else user
  | k => tables k

structure Incremented (old new : Tables T) : Prop where
  user : ∃ user : UserRow, old (.user demoUserId) = some user ∧
    new (.user demoUserId) = some { user with balance := user.balance + increment }
  others : ∀ k, k ≠ .user demoUserId → new k = old k

section Tables

variable {initial old new : Tables T} {seq : Serial → ℕ} {n : ℕ}

theorem Incremented.placed (h : Incremented old new) : isPlaced new = isPlaced old := by
  funext id
  simp only [isPlaced, h.others (.order id) (by simp)]

theorem Incremented.totalSold (h : Incremented old new) (p : ℕ) : totalSold new seq p = totalSold old seq p := by
  refine Finset.sum_congr rfl fun id _ => ?_
  simp only [sold, h.others (.orderItem id) (by simp), h.placed]

theorem Incremented.totalSpent (h : Incremented old new) (u : ℕ) : totalSpent new seq u = totalSpent old seq u := by
  refine Finset.sum_congr rfl fun id _ => ?_
  simp only [spent, h.others (.order id) (by simp)]

theorem Conserved.increment (h : Incremented old new) (hold : Conserved (credited n initial) old seq) :
    Conserved (credited (n + 1) initial) new seq := by
  obtain ⟨user, huser, hnew⟩ := h.user
  have hitem (id : ℕ) : new (.orderItem id) = old (.orderItem id) := h.others _ (by simp)
  have horder (id : ℕ) : new (.order id) = old (.order id) := h.others _ (by simp)
  have htask (id : ℕ) : new (.postProcessingTask id) = old (.postProcessingTask id) := h.others _ (by simp)
  refine ⟨?_, ?_, ?_, ?_, ?_, ?_, ?_⟩
  · intro p row hrow
    rw [h.others _ (by simp)]
    exact hold.products p row hrow
  · intro u row hrow
    by_cases hu : u = demoUserId
    · subst hu
      exact ⟨_, hnew⟩
    · rw [h.others _ (by simpa using hu)]
      exact hold.users u row (by simpa [credited, hu] using hrow)
  · intro p row hrow
    rw [h.others _ (by simp)] at hrow
    rw [h.totalSold]
    exact hold.stock p row hrow
  · intro u row hrow
    rw [h.totalSpent]
    by_cases hu : u = demoUserId
    · subst hu
      rw [hnew] at hrow
      cases hrow
      obtain ⟨hnonneg, row₀, hrow₀, hbalance⟩ := hold.balance _ _ huser
      refine ⟨Int.add_nonneg hnonneg (by decide), ?_⟩
      simp only [credited, Option.map_eq_some_iff, if_true] at hrow₀ ⊢
      obtain ⟨user₀, huser₀, rfl⟩ := hrow₀
      refine ⟨_, ⟨user₀, huser₀, rfl⟩, ?_⟩
      simp only at hbalance ⊢
      push_cast
      rw [hbalance, mul_add]
      omega
    · rw [h.others _ (by simpa using hu)] at hrow
      obtain ⟨hnonneg, row₀, hrow₀, hbalance⟩ := hold.balance u row hrow
      exact ⟨hnonneg, row₀, by simpa [credited, hu] using hrow₀, hbalance⟩
  · intro id order t horder' hby
    rw [horder] at horder'
    obtain ⟨hlt, ⟨i, item, hi, hitem', htotal, hitems⟩, k, task, hk, htask', htasks⟩ :=
      hold.orders id order t horder' hby
    refine ⟨hlt, ⟨i, item, (hitem i).trans hi, hitem', htotal, fun j item' hj => ?_⟩,
      k, task, (htask k).trans hk, htask', fun j task' hj => ?_⟩
    · exact hitems j item' ((hitem j).symm.trans hj)
    · exact htasks j task' ((htask j).symm.trans hj)
  · intro id item hid
    rw [hitem] at hid
    obtain ⟨hlt, order, hfk⟩ := hold.items id item hid
    rw [h.placed]
    exact ⟨hlt, order, (horder _).trans hfk⟩
  · intro id task hid
    rw [htask] at hid
    obtain ⟨order, hfk⟩ := hold.tasks id task hid
    exact ⟨order, (horder _).trans hfk⟩

end Tables

variable [DecidableEq T]

omit [DecidableEq T] in
-- a COMMIT that reports an error has not been applied
def ReliableCommit : Allowed T := fun _ a w r w' => match a with
  | .sql .commit => isOk r ∨ w' = w
  | _ => True

abbrev BalanceMachine (T : Type) [DecidableEq T] := (ShopMachine T).restrict ReliableCommit fun _ _ _ => True

section Ledger

variable [Fintype T] (calls : T → BalanceCall)

omit [DecidableEq T] in
def creditedCalls (db : Database T Serial Key (Row T)) : ℕ :=
  (Finset.univ.filter fun t => (calls t).isIncrement ∧ (db.txn t).status = .committed).card

def incrementLedger (initial : Tables T) : Discipline (BalanceMachine T) where
  inv w := Conserved (credited (creditedCalls calls w.db) initial) w.db.committed w.db.seq
  always _ _ := True
  rely _ _ _ := True
  gone _ _ := True
  always_refl _ := trivial
  always_trans _ _ := trivial
  rely_refl _ _ := trivial
  rely_trans _ _ _ _ _ _ := trivial

variable {calls} {initial : Tables T} {t : T} {db db' : Database T Serial Key (Row T)}

omit [DecidableEq T] in
theorem creditedCalls_eq (h : ∀ t, (calls t).isIncrement →
    ((db'.txn t).status = .committed ↔ (db.txn t).status = .committed)) :
    creditedCalls calls db' = creditedCalls calls db := by
  unfold creditedCalls
  congr 1
  ext t
  simp only [Finset.mem_filter, Finset.mem_univ, true_and]
  exact and_congr_right fun hinc => h t hinc

theorem incrementLedger_allows {w w' : ShopWorld T} (hi : (incrementLedger calls initial).inv w)
    (hcommitted : w'.db.committed = w.db.committed) (hseq : ∀ q, w.db.seq q ≤ w'.db.seq q)
    (hcount : creditedCalls calls w'.db = creditedCalls calls w.db) :
    (incrementLedger calls initial).Allows t w w' := by
  refine ⟨?_, trivial, fun _ _ => trivial⟩
  have hi' : Conserved (credited (creditedCalls calls w.db) initial) w.db.committed w'.db.seq := hi.extend hseq
  simp only [incrementLedger, hcommitted, hcount]
  exact hi'

theorem incrementLedger_calm : Calm (incrementLedger calls initial) where
  works {t w db} hi hw := by
    refine incrementLedger_allows hi hw.committed hw.seq (creditedCalls_eq fun t' _ => ?_)
    by_cases ht : t = t'
    · subst ht
      rw [hw.status]
    · rw [(hw.frame t' ht).txn]
  rollback {t w} hi := incrementLedger_allows hi Database.committed_rollback
    (fun _ => Nat.le_of_eq (by rw [Database.seq_rollback])) (creditedCalls_eq fun _ _ => Database.status_rollback)
  crash {t w w'} hi hc _ := by
    have hdb := hc.1
    refine ⟨incrementLedger_allows hi ?_ (fun _ => Nat.le_of_eq ?_) (creditedCalls_eq fun t' _ => ?_),
      fun _ _ => trivial⟩
    · rw [hdb, Database.committed_rollback]
    · rw [hdb, Database.seq_rollback]
    · rw [hdb]
      exact Database.status_rollback

theorem incrementLedger_starts {w : ShopWorld T} (hi : (incrementLedger calls initial).inv w)
    (ht : (calls t).isIncrement → (w.db.txn t).status ≠ .committed) :
    (incrementLedger calls initial).Allows t w ⟨w.db.setTxn t ⟨.inProgress, 0⟩, w.env⟩ := by
  refine incrementLedger_allows hi rfl (fun _ => Nat.le_refl _) (creditedCalls_eq fun t' hinc => ?_)
  by_cases heq : t = t'
  · subst heq
    simp [ht hinc]
  · rw [Database.txn_setTxn_of_ne heq]

structure Uncredited (t : T) (w : ShopWorld T) : Prop where
  workspace : w.db.workspace t = Workspace.empty
  status : (w.db.txn t).status ≠ .committed

theorem status_stable {φ : Status → Prop} :
    (incrementLedger calls initial).Stable t fun w => φ (w.db.txn t).status := by
  intro w w' _ h hs
  have htxn := hs.frame.db.txn
  simp only [htxn]
  exact h

theorem Uncredited.stable : (incrementLedger calls initial).Stable t (Uncredited t) := fun w w' hi h hs =>
  ⟨hs.frame.db.workspace.trans h.workspace, status_stable (φ := fun s => s ≠ .committed) w w' hi h.status hs⟩

def incrementWorkspace (user : UserRow) : Workspace Key (Row T) :=
  Workspace.empty.set (.user demoUserId) ⟨some user, { user with balance := user.balance + increment }⟩

omit [Fintype T] in
theorem incrementWorkspace_incremented {user : UserRow} {c : ℕ} {w : ShopWorld T}
    (hat : At t (incrementWorkspace user) c w) : Incremented w.db.committed (w.db.commit t).committed := by
  refine ⟨⟨user, hat.committed_old (k := Key.user demoUserId) Workspace.set_self, ?_⟩, fun k hk => ?_⟩
  · rw [hat.committed_commit]
    exact Workspace.onto_of_some (k := Key.user demoUserId) Workspace.set_self
  · rw [hat.committed_commit]
    exact Workspace.onto_of_none (Workspace.set_of_ne hk)

theorem creditedCalls_commit (ht : (calls t).isIncrement) (hs : (db.txn t).status = .inProgress) :
    creditedCalls calls (db.commit t) = creditedCalls calls db + 1 := by
  have hinsert : (Finset.univ.filter fun t' => (calls t').isIncrement ∧ ((db.commit t).txn t').status = .committed) =
      insert t (Finset.univ.filter fun t' => (calls t').isIncrement ∧ (db.txn t').status = .committed) := by
    ext t'
    simp only [Finset.mem_filter, Finset.mem_insert, Finset.mem_univ, true_and]
    by_cases heq : t' = t
    · subst heq
      simp [ht, Database.txn_commit hs]
    · simp [heq, Database.txn_commit_of_ne (Ne.symm heq)]
  rw [creditedCalls, hinsert, Finset.card_insert_of_notMem, creditedCalls]
  simp [hs]

theorem incrementOnce_spec (ht : (calls t).isIncrement) :
    (incrementLedger calls initial).Triple t (Uncredited t) incrementOnce
      (fun _ w => (w.db.txn t).status = .committed) fun _ => Uncredited t := by
  have hD : Calm (incrementLedger calls initial) := incrementLedger_calm
  have hopen : ∀ _ : Failure, (incrementLedger calls initial).Stable t fun w => (w.db.txn t).status = .inProgress :=
    fun _ => status_stable (φ := fun s => s = .inProgress)
  have hY (F : ShopWorld T → Prop) : Fails (incrementLedger calls initial) t F
      fun _ w => (w.db.txn t).status = .inProgress := ⟨hopen, fun _ hat _ => by rw [hat.txn]⟩
  have hclosed : (incrementLedger calls initial).Stable t fun w => (w.db.txn t).status = .committed :=
    status_stable (φ := fun s => s = .committed)
  refine .bind ((begin_spec hD Uncredited.stable (fun w hi h => ⟨incrementLedger_starts hi fun _ => h.status, ?_⟩)
    (fun _ _ h => h) fun _ => Uncredited.stable).pre fun w _ h => ⟨h.workspace, h⟩) fun _ => ?_
  · exact ⟨h.workspace, by simp⟩
  refine Discipline.Triple.handle (Y := fun _ w => (w.db.txn t).status = .inProgress) ?_ fun error => ?_
  · refine .bind ((statement_spec hD .const (hY _) (G := fun view w => view.row (.user demoUserId) ≠ none →
      ∃ x, w.db.committed (.user demoUserId) = some x) (fun _ => .imp fun _ => .present _) ?_).pre
        fun w _ h => ⟨h.1, trivial⟩) fun view => ?_
    · intro w _ hat _ hview
      have hrow : (w.db.snapshot t).row (.user demoUserId) = w.db.committed (.user demoUserId) :=
        hat.visible_of_none rfl
      rw [hrow] at hview
      exact Option.ne_none_iff_exists'.mp hview
    · split
      · exact .throw (hopen .database) fun w _ h => by rw [h.1.txn]
      · rename_i user hseen
        refine .bind ((updateSerializable_spec (F := fun w => ∃ x, w.db.committed (.user demoUserId) = some x) hD
          (.present _) (hY _) rfl hseen (fun _ hat _ => by rw [hat.txn]) fun _ _ h => h).pre
          fun w _ h => ⟨h.1, h.2.2 (by simp [hseen])⟩) fun _ => .pure_pre fun _ => ?_
        refine commit_spec hD (.present _) (hY _) hclosed fun w r hi hat _ ha => ?_
        have hs : (w.db.txn t).status = .inProgress := by rw [hat.txn]
        refine ⟨⟨?_, trivial, fun _ _ => trivial⟩, fun _ => by simp [Database.txn_commit hs], fun hr => ?_⟩
        · have hnew := Conserved.increment (incrementWorkspace_incremented hat) hi
          simp only [incrementLedger, creditedCalls_commit ht hs, Database.seq_commit]
          exact hnew
        · subst hr
          rcases ha with ha | ha
          · cases ha
          · have hdb : w.db.commit t = w.db := congrArg World.db ha
            rw [hdb]
            exact hs
  · refine rollback_throw_spec hD (hopen error) error (fun _ => Uncredited.stable) fun w _ hs => ?_
    have hready : Uncredited t ⟨w.db.rollback t, w.env⟩ :=
      ⟨Database.workspace_rollback hs, by simp [Database.txn_rollback hs]⟩
    exact ⟨hready, hready⟩

/-- The induction is on the retries that are left: an attempt that failed leaves the call as it was. -/
theorem retryUpTo_spec (ht : (calls t).isIncrement) (sqlState : ℕ → String) (retries : ℕ) :
    (incrementLedger calls initial).Triple t (Uncredited t) (retryUpTo incrementOnce sqlState retries)
      (fun _ w => (w.db.txn t).status = .committed) fun _ => Uncredited t := by
  induction retries with
  | zero => exact incrementOnce_spec ht
  | succ retries ih =>
    refine .handle (incrementOnce_spec ht) fun error => ?_
    split
    · exact ih
    · exact .throw Uncredited.stable fun _ _ h => h

theorem incrementLedger_rules (ht : (calls t).isIncrement = false) :
    CheckoutRules (incrementLedger calls initial) t (fun _ => True) (fun _ => True) (fun _ _ => True)
      (fun _ _ => True) where
  calm := incrementLedger_calm
  kept := .const
  broken := .const
  stable _ := .const
  published _ := .const
  fails _ _ := trivial
  starts hi _ := ⟨incrementLedger_starts hi (by simp [ht]), trivial⟩
  aborts _ _ := trivial
  commits {w r} placed hi hat _ _ horder hitem _ := by
    refine ⟨⟨?_, trivial, fun _ _ => trivial⟩, fun _ => trivial, fun _ => trivial⟩
    have hcount : creditedCalls calls (w.db.commit t) = creditedCalls calls w.db := by
      refine creditedCalls_eq fun t' hinc => ?_
      have hne : t ≠ t' := by
        rintro rfl
        rw [ht] at hinc
        cases hinc
      rw [Database.txn_commit_of_ne hne]
    have hnew := Conserved.commit hi (PlacedCheckout.committed hat) horder hitem
    simp only [incrementLedger, hcount, Database.seq_commit]
    exact hnew
  publishes _ _ _ := publishOrderPlaced_spec incrementLedger_calm (fun _ => True)
    { before := .const
      sent := .const
      confirmed := .const
      broken := .const
      sends := fun _ hi _ => ⟨⟨hi, trivial, fun _ _ => trivial⟩, trivial⟩
      confirms := fun _ hi _ => ⟨⟨hi, trivial, fun _ _ => trivial⟩, trivial⟩
      fails := fun _ _ _ _ _ _ => trivial }

theorem BalanceCall.run_spec (t : T) : (incrementLedger calls initial).Triple t (Uncredited t) ((calls t).run t)
    (fun _ w => (calls t).isIncrement → (w.db.txn t).status = .committed)
    fun _ w => (calls t).isIncrement → (w.db.txn t).status ≠ .committed := by
  cases hcall : calls t with
  | increment sqlState =>
    have ht : (calls t).isIncrement := by rw [hcall]; rfl
    exact (retryUpTo_spec ht sqlState maxRetries).conseq (fun _ _ h => h) (fun _ _ _ h _ => h) fun _ _ _ h _ => h.status
  | checkout input =>
    have ht : (calls t).isIncrement = false := by rw [hcall]; rfl
    refine .bind (R := fun _ _ => True) (((checkout_spec (incrementLedger_rules ht) input).pre
      fun w _ h => ⟨h.workspace, trivial⟩).conseq (fun _ _ h => h) (fun _ _ _ h => h) fun _ _ _ _ h => nomatch h)
          fun _ => ?_
    exact .pure (fun _ _ _ _ _ h => nomatch h) fun _ _ _ h => nomatch h

theorem Conserved.credited_zero {w : ShopWorld T} (hw : NothingCheckedOut w) :
    (incrementLedger calls w.db.committed).inv w := by
  have hzero : creditedCalls calls w.db = 0 := by
    simp [creditedCalls, hw.quiescent.txn]
  have hsame : credited 0 w.db.committed = w.db.committed := by
    funext k
    cases k with
    | user id => cases hid : w.db.committed (.user id) <;> simp [credited, hid]
    | _ => rfl
  simp only [incrementLedger, hzero, hsame]
  exact hw.conserved

end Ledger

section Runs

variable [Fintype T] (calls : T → BalanceCall)

def resolvedIncrements (c : ShopConfig T Unit) : ℕ :=
  (Finset.univ.filter fun t => (calls t).isIncrement ∧ c.outcome t = some (.ok ())).card

def NoneInFlight (c : ShopConfig T Unit) : Prop :=
  ∀ t, c.prog t = some ((calls t).run t) ∨ ∃ r, c.outcome t = some r

/-- Between calls the balance is what the resolved increments and the committed checkouts make of it. -/
theorem increments_applied_once {w : ShopWorld T} (hw : NothingCheckedOut w) {user : UserRow}
    (huser : w.db.committed (.user demoUserId) = some user) {c : ShopConfig T Unit}
    (h : (BalanceMachine T).Reachable (.start w fun t => (calls t).run t) c) (hc : NoneInFlight calls c) :
    ∃ row : UserRow, c.shared.db.committed (.user demoUserId) = some row ∧
      row.balance = user.balance + increment * resolvedIncrements calls c -
      totalSpent c.shared.db.committed c.shared.db.seq demoUserId := by
  have hstart (t : T) : (w.db.txn t).status ≠ .committed := by simp [hw.quiescent.txn t]
  obtain ⟨hinv, hout, -⟩ := Discipline.run_holds (D := incrementLedger calls w.db.committed)
    (Conserved.credited_zero hw)
    (fun t => ⟨hw.quiescent.workspace t, hstart t⟩) BalanceCall.run_spec h
  have hcount : creditedCalls calls c.shared.db = resolvedIncrements calls c := by
    unfold creditedCalls resolvedIncrements
    congr 1
    ext t
    simp only [Finset.mem_filter, Finset.mem_univ, true_and]
    refine and_congr_right fun hinc => ?_
    rcases hc t with hidle | ⟨r, hr⟩
    · have htxn := (Machine.Reachable.unstarted h hidle).db.txn
      have hnone : c.outcome t ≠ some (.ok ()) := by
        intro hdone
        rw [Config.outcome_eq_some.mp hdone] at hidle
        cases hcall : calls t with
        | increment sqlState =>
          rw [hcall] at hidle
          cases hidle
        | checkout input =>
          rw [hcall] at hinc
          cases hinc
      simp [htxn, hstart t, hnone]
    · cases r with
      | ok u => simp [hr, hout t _ hr hinc]
      | error e => simp [hr, hout t _ hr hinc]
  have hconserved : Conserved (credited (creditedCalls calls c.shared.db) w.db.committed) c.shared.db.committed
      c.shared.db.seq := hinv
  obtain ⟨row, hrow⟩ := hconserved.users demoUserId
    { user with balance := user.balance + increment * creditedCalls calls c.shared.db }
    (by simp [credited, huser])
  obtain ⟨-, row₀, hrow₀, hbalance⟩ := hconserved.balance _ row hrow
  refine ⟨row, hrow, ?_⟩
  simp only [credited, huser, Option.map_some, if_true, Option.some.injEq] at hrow₀
  subst hrow₀
  rw [hbalance, hcount]

end Runs

@[reducible] def reliableMoves : Moves (BalanceMachine T) :=
  (withDatabaseMoves shopMoves .database).restrict (fun _ a _ r _ => match a with
    | .sql .commit => isOk r
    | _ => true) (by
      intro t a w r w' htest
      cases a with
      | sql o => cases o <;> first | exact .inl htest | trivial
      | ext o => trivial)

def twoIncrementsAndACheckout : Fin 3 → BalanceCall
  | 0 | 1 => .increment fun _ => "40001"
  | 2 => .checkout raceInput

-- call 1 reads before call 0 commits, gives up on the changed row and starts again; the checkout comes in between
def conflictSchedule : List (Fin 3 × Option (DatabaseMove ShopMove)) :=
  let go (t : Fin 3) (n : ℕ) : List (Fin 3 × Option (DatabaseMove ShopMove)) := List.replicate n (t, some .go)
  go 1 2 ++ go 0 6 ++ go 1 3 ++ go 2 17 ++ go 1 6 ++ List.replicate 5 (2, some (.ext (.ok 5)))

theorem increments_applied_once_retry : ∃ c : ShopConfig (Fin 3) Unit,
    (BalanceMachine (Fin 3)).Reachable (.start .seeded fun t => (twoIncrementsAndACheckout t).run t) c ∧
      (∀ t, c.outcome t = some (.ok ())) ∧
      ∃ row : UserRow, c.shared.db.committed (.user demoUserId) = some row ∧
      row.balance = 1000 + increment * resolvedIncrements twoIncrementsAndACheckout c -
      totalSpent c.shared.db.committed c.shared.db.seq demoUserId := by
  have hrun : ∃ c : ShopConfig (Fin 3) Unit, (BalanceMachine (Fin 3)).Reachable
      (.start .seeded fun t => (twoIncrementsAndACheckout t).run t) c ∧ ∀ t, c.outcome t = some (.ok ()) := by
    apply exists_reachable (S := reliableMoves) conflictSchedule
    decide +kernel
  obtain ⟨c, hc, hdone⟩ := hrun
  refine ⟨c, hc, hdone, ?_⟩
  have huser : (ShopWorld.seeded (T := Fin 3)).db.committed (.user demoUserId) =
      some ⟨"maria@example.com", none, .buyer, 1000⟩ := rfl
  exact increments_applied_once twoIncrementsAndACheckout seeded_nothingCheckedOut huser hc fun t => .inr ⟨_, hdone t⟩

end Marketplace
