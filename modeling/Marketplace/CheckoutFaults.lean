import Marketplace.CheckoutTransaction
import Marketplace.Concurrent.Trace
import Marketplace.ReadCommitted.Alone
import Marketplace.ReadCommitted.Writes

namespace Marketplace

open Concurrent ReadCommitted

variable {T : Type}

abbrev ShopStep (T : Type) :=
  Performed (ShopWorld T) (Action Serial Key (Row T) ShopOp) (Action.Res ShopOp.Res) Failure

/-- What the caller of `checkout` takes its result for. -/
def AllOrNothing (t : T) (input : CheckoutInput) (old new : Tables T) : Except Failure CheckoutResult → Prop
  | .ok result => ∃ placed : PlacedCheckout, ∃ quantity, input.quantity = .integer quantity ∧ 0 < quantity ∧
      placed.Of input quantity ∧ result = placed.result ∧ placed.Committed t old new
  | .error _ => (∀ id, new (.product id) = old (.product id)) ∧ (∀ id, new (.user id) = old (.user id)) ∧
      (∀ id, new (.order id) = old (.order id)) ∧ (∀ id, new (.orderItem id) = old (.orderItem id)) ∧
      ∀ id, new (.postProcessingTask id) = old (.postProcessingTask id)

/-- A broker operation that failed, or a COMMIT that was applied and reported an error. -/
def TooLate (step : ShopStep T) : Prop :=
  step.Failed ∧ ((∃ o, step.op = .ext o) ∨
    step.op = .sql .commit ∧ step.after.db.committed ≠ step.before.db.committed)

-- statements that leave the committed rows alone
def Uncommitted (a : Action Serial Key (Row T) ShopOp) : Prop := ∃ o, a = .sql o ∧ o ≠ .commit

def OnBroker (a : Action Serial Key (Row T) ShopOp) : Prop := ∃ o, a = .ext o

section Programs

theorem executeCheckout_uses (t : T) (input : CheckoutInput) (quantity : ℤ) :
    (executeCheckout t input quantity).Uses Uncommitted := by
  have hint (n : ℤ) : (int4Parameter n : ShopCall T Unit).Uses Uncommitted := by
    unfold int4Parameter
    split <;> trivial
  have hstatement : Uncommitted (.sql .statement : Action Serial Key (Row T) ShopOp) := ⟨_, rfl, nofun⟩
  have hupdate {k : Key} {p : Row T k → Bool} {f : Row T k → Row T k} :
      (update k p f : ShopCall T (Option (Row T k))).Uses Uncommitted :=
    uses_updateWhere hstatement ⟨_, rfl, nofun⟩ fun _ => ⟨_, rfl, nofun⟩
  have hinsert {q : Serial} {key : ℕ → Key} {row : (id : ℕ) → Row T (key id)} :
      (insertReturningId q key row : ShopCall T ℕ).Uses Uncommitted :=
    uses_insertWithId hstatement ⟨_, rfl, nofun⟩ fun _ => ⟨_, rfl, nofun⟩
  refine .bind (hint _) fun _ => .bind hupdate fun updated => ?_
  split
  · trivial
  refine .bind (hint _) fun _ => .bind hupdate fun charged => ?_
  split
  · trivial
  exact .bind hinsert fun _ => .bind hinsert fun _ => .bind hinsert fun _ => trivial

theorem publishOrderPlaced_uses (message : OrderPlacedMessage) :
    (publishOrderPlaced message : ShopCall T Unit).Uses OnBroker := by
  have hexternal (o : ShopOp) : (external o : ShopCall T o.Res).Uses OnBroker := .perform ⟨o, rfl⟩
  refine .bind (hexternal _) fun _ => .bind (.handle ?_ fun error => ?_) fun _ => hexternal _
  · exact .bind (hexternal _) fun _ => hexternal _
  · exact .bind (hexternal _) fun _ => trivial

theorem publishOrderPlaced_failsOnly (message : OrderPlacedMessage) :
    (publishOrderPlaced message : ShopCall T Unit).FailsOnly fun a r => OnBroker a ∧ ∃ e, r = .error e := by
  have hexternal (o : ShopOp) : (external o : ShopCall T o.Res).FailsOnly fun a r => OnBroker a ∧ ∃ e, r = .error e :=
    .perform fun e => ⟨⟨o, rfl⟩, e, rfl⟩
  exact .bind (hexternal _) fun _ => .bind (.handle (.bind (hexternal _) fun _ => hexternal _)) fun _ => hexternal _

theorem publishOrderPlaced_rethrows (message : OrderPlacedMessage) :
    (publishOrderPlaced message : ShopCall T Unit).Rethrows OnBroker := by
  refine .bind .perform fun _ => .bind (.handle ?_ (fun error => ?_) fun error => ?_) fun _ => .perform
  · exact .bind .perform fun _ => .perform
  · exact .bind .perform fun _ => trivial
  · exact .bind_of_forall fun _ => trivial

end Programs

section Runs

variable [DecidableEq T] {t : T} {input : CheckoutInput} {quantity : ℤ} {w w' : ShopWorld T} {steps : List (ShopStep T)}

theorem performs_uncommitted {a : Action Serial Key (Row T) ShopOp} {r : Except Failure (a.Res ShopOp.Res)}
    (ha : Uncommitted a) (h : (ShopMachine T).perform t a w r w') : w'.db.committed = w.db.committed := by
  obtain ⟨o, rfl, ho⟩ := ha
  cases h with
  | @answer _ _ _ db h =>
    cases o with
    | begin => cases h; rfl
    | commit => exact absurd rfl ho
    | rollback =>
      cases h
      exact Database.committed_rollback
    | _ => exact (Database.exec_works (by exact trivial) h).committed
  | refuse _ => rfl
  | lostCommit => exact absurd rfl ho
  | lostRollback => exact Database.committed_rollback

theorem performs_onBroker {a : Action Serial Key (Row T) ShopOp} {r : Except Failure (a.Res ShopOp.Res)}
    (ha : OnBroker a) (h : (ShopMachine T).perform t a w r w') : w'.db = w.db := by
  obtain ⟨o, rfl⟩ := ha
  cases h with
  | ext h => rfl

omit [DecidableEq T] in
theorem not_tooLate {step : ShopStep T} (h : Uncommitted step.op) : ¬TooLate step := by
  obtain ⟨o, ho, hcommit⟩ := h
  rintro ⟨-, ⟨o', ho'⟩ | ⟨ho', -⟩⟩
  · exact absurd (ho.symm.trans ho') (by simp)
  · rw [ho] at ho'
    exact hcommit (Action.sql.inj ho')

structure NotPlaced {α : Type} (steps : List (ShopStep T)) (r : Except Failure α) (w w' : ShopWorld T) : Prop where
  rejects : ∃ e, r = .error e
  committed : w'.db.committed = w.db.committed
  inTime : ∀ step ∈ steps, ¬TooLate step

def Returns {α : Type} (result : α) (steps : List (ShopStep T)) (r : Except Failure α) : Prop :=
  r = .ok result ∧ (∀ step ∈ steps, ¬TooLate step) ∨ (∃ e, r = .error e) ∧ ∃ step ∈ steps, TooLate step

section Appends

omit [DecidableEq T]

variable {α : Type} {first rest : List (ShopStep T)} {result : α} {w₁ : ShopWorld T}

theorem inTime_append (hfirst : ∀ step ∈ first, ¬TooLate step) (hrest : ∀ step ∈ rest, ¬TooLate step) :
    ∀ step ∈ first ++ rest, ¬TooLate step :=
  fun step hstep => (List.mem_append.mp hstep).elim (hfirst step) (hrest step)

theorem NotPlaced.after {r : Except Failure α} (h : NotPlaced rest r w₁ w')
    (hcommitted : w₁.db.committed = w.db.committed) (hfirst : ∀ step ∈ first, ¬TooLate step) :
    NotPlaced (first ++ rest) r w w' :=
  ⟨h.rejects, h.committed.trans hcommitted, inTime_append hfirst h.inTime⟩

theorem Returns.after {r : Except Failure α} (h : Returns result rest r) (hfirst : ∀ step ∈ first, ¬TooLate step) :
    Returns result (first ++ rest) r := by
  rcases h with ⟨hr, hrest⟩ | ⟨hr, step, hstep, hlate⟩
  · exact .inl ⟨hr, inTime_append hfirst hrest⟩
  · exact .inr ⟨hr, step, List.mem_append_right _ hstep, hlate⟩

end Appends

section Uncommitted

variable {α : Type} {p : ShopCall T α} {r : Except Failure α}

theorem runs_committed (hp : p.Uses Uncommitted) (h : (ShopMachine T).Runs t p w steps r w') :
    w'.db.committed = w.db.committed := by
  apply h.kept (P := fun x => x.db.committed = w.db.committed) _ rfl
  intro step hstep hbefore
  exact (performs_uncommitted (h.uses hp step hstep) (h.performs step hstep)).trans hbefore

theorem runs_inTime (hp : p.Uses Uncommitted) (h : (ShopMachine T).Runs t p w steps r w') :
    ∀ step ∈ steps, ¬TooLate step :=
  fun step hstep => not_tooLate (h.uses hp step hstep)

end Uncommitted

/-- A discipline that says nothing: what a client does on its own is then known of it among others. -/
def anything : Discipline (ShopMachine T).unrestricted where
  inv _ := True
  always _ _ := True
  rely _ _ _ := True
  gone _ _ := True
  always_refl _ := trivial
  always_trans _ _ := trivial
  rely_refl _ _ := trivial
  rely_trans _ _ _ _ _ _ := trivial

theorem anything_stable : (anything (T := T)).Stable t fun _ => True := fun _ _ _ _ _ => trivial

theorem anything_allows : (anything (T := T)).Allows t w w' := ⟨trivial, trivial, fun _ _ => trivial⟩

theorem anything_rules :
    CheckoutRules (anything (T := T)) t (fun _ => True) (fun _ => True) (fun _ _ => True) fun _ _ => True where
  calm := .of_committed (fun _ _ _ _ _ => trivial) (fun _ _ _ => trivial) (fun _ _ _ _ => trivial) fun _ _ => trivial
  kept := ⟨anything_stable, fun _ _ _ => trivial⟩
  broken := anything_stable
  stable _ := anything_stable
  published _ := anything_stable
  fails _ _ := trivial
  starts _ _ := ⟨anything_allows, trivial⟩
  aborts _ _ := trivial
  commits _ _ _ _ _ _ _ _ := ⟨anything_allows, fun _ => trivial, fun _ => trivial⟩
  publishes _ event _ := by
    refine (Discipline.Triple.uses (publishOrderPlaced_uses (.event event)) anything_stable ?_ ?_).conseq
      (fun _ _ h => h)
      (fun _ _ _ h => h) fun _ _ _ h => h
    · exact fun _ _ _ _ _ _ _ _ => ⟨anything_allows, trivial⟩
    · exact fun _ _ _ _ _ => ⟨anything_allows, fun _ _ => trivial⟩

theorem executeCheckout_runs {result : CheckoutResult} (hw : At t Workspace.empty 0 w)
    (h : (ShopMachine T).Runs t (executeCheckout t input quantity) w steps (.ok result) w') :
    ∃ placed : PlacedCheckout, placed.Of input quantity ∧ result = placed.result ∧ At t (placed.workspace t) 5 w' := by
  have hsafe := executeCheckout_spec anything_rules input quantity w trivial ⟨hw, trivial⟩
  obtain ⟨-, placed, ⟨hof, hresult⟩, hat, -⟩ := hsafe.runs trivial h.unrestricted
  exact ⟨placed, hof, hresult, hat⟩

/-- The transaction of `checkout`: it places nothing, or it places the order and nothing fails after that,
or the COMMIT is applied and reports an error. -/
theorem transaction_runs {r : Except Failure CheckoutResult} (hw : At t Workspace.empty 0 w)
    (h : (ShopMachine T).Runs t (do
      let result ← executeCheckout t input quantity
      commit
      pure result) w steps r w') :
    NotPlaced steps r w w' ∨ ∃ placed : PlacedCheckout, placed.Of input quantity ∧
      placed.Committed t w.db.committed w'.db.committed ∧ Returns placed.result steps r := by
  have huses := executeCheckout_uses t input quantity
  rcases h.bind_cases with ⟨e, rfl, hexecute⟩ | ⟨result, w₁, first, rest, rfl, hexecute, hrest⟩
  · exact .inl ⟨⟨e, rfl⟩, runs_committed huses hexecute, runs_inTime huses hexecute⟩
  obtain ⟨placed, hof, rfl, hat⟩ := executeCheckout_runs hw hexecute
  have hcommitted : w₁.db.committed = w.db.committed := runs_committed huses hexecute
  have hfirst : ∀ step ∈ first, ¬TooLate step := runs_inTime huses hexecute
  have hplaced : placed.Committed t w.db.committed (w₁.db.commit t).committed := by
    rw [← hcommitted]
    exact PlacedCheckout.committed hat
  have hchanged : (w₁.db.commit t).committed ≠ w₁.db.committed := by
    intro hsame
    have horder := hplaced.order
    rw [hsame, hcommitted, hplaced.order_old] at horder
    cases horder
  rcases hrest.bind_cases with ⟨e, rfl, hcommit⟩ | ⟨u, w₂, second, last, rfl, hcommit, hlast⟩
  · obtain ⟨rfl, hperforms⟩ := hcommit.perform_eq
    cases hperforms with
    | refuse _ =>
      refine .inl ⟨⟨_, rfl⟩, hcommitted, inTime_append hfirst ?_⟩
      intro step hstep
      rw [List.mem_singleton.mp hstep]
      rintro ⟨-, ⟨o, ho⟩ | ⟨-, hne⟩⟩
      · cases ho
      · exact hne rfl
    | lostCommit =>
      refine .inr ⟨placed, hof, hplaced, .inr ⟨⟨_, rfl⟩, _, List.mem_append_right _ (List.mem_singleton_self _), ?_⟩⟩
      exact ⟨⟨_, rfl⟩, .inr ⟨rfl, hchanged⟩⟩
  · obtain ⟨rfl, hperforms⟩ := hcommit.perform_eq
    obtain ⟨rfl, rfl, rfl⟩ := hlast.done_eq
    cases hperforms with
    | answer hexec =>
      cases hexec
      refine .inr ⟨placed, hof, hplaced, .inl ⟨rfl, inTime_append hfirst ?_⟩⟩
      intro step hstep
      obtain rfl : step = _ := by simpa using hstep
      rintro ⟨⟨e, he⟩, -⟩
      cases he

theorem rollback_runs {e : Failure} {r : Except Failure CheckoutResult}
    (h : (ShopMachine T).Runs t (do
      rollback
      throw e) w steps r w') : NotPlaced steps r w w' := by
  have huses : (do
      rollback
      throw e : ShopCall T CheckoutResult).Uses Uncommitted :=
    .bind (.perform ⟨_, rfl, nofun⟩) fun _ => trivial
  have hfails : (do
      rollback
      throw e : ShopCall T CheckoutResult).Fails := .bind_of_forall fun _ => trivial
  exact ⟨h.fails hfails, runs_committed huses h, runs_inTime huses h⟩

theorem publish_runs {message : OrderPlacedMessage} {r : Except Failure Unit}
    (h : (ShopMachine T).Runs t (publishOrderPlaced message) w steps r w') :
    w'.db = w.db ∧ Returns () steps r := by
  have hops := h.uses (publishOrderPlaced_uses message)
  constructor
  · apply h.kept (P := fun x => x.db = w.db) _ rfl
    intro step hstep hbefore
    exact (performs_onBroker (hops step hstep) (h.performs step hstep)).trans hbefore
  · cases r with
    | ok u =>
      refine .inl ⟨rfl, ?_⟩
      rintro step hstep ⟨hfailed, -⟩
      obtain ⟨e, he⟩ := h.rethrown (publishOrderPlaced_rethrows message) ⟨step, hstep, hops step hstep, hfailed⟩
      cases he
    | error e =>
      obtain ⟨step, hstep, hop, hfailed⟩ := h.failed (publishOrderPlaced_failsOnly message)
      exact .inr ⟨⟨e, rfl⟩, step, hstep, hfailed, .inl hop⟩

theorem clock_runs {r : Except Failure ((.ext .clock : Action Serial Key (Row T) ShopOp).Res ShopOp.Res)}
    (h : (ShopMachine T).Runs t clock w steps r w') :
    (∃ now : ℕ, r = .ok now) ∧ w'.db = w.db ∧ ∀ step ∈ steps, ¬TooLate step := by
  obtain ⟨rfl, hperforms⟩ := h.perform_eq
  cases hperforms with
  | ext hperforms =>
    cases hperforms with
    | clock now =>
      refine ⟨⟨now, rfl⟩, rfl, ?_⟩
      intro step hstep
      obtain rfl : step = _ := by simpa using hstep
      rintro ⟨⟨e, he⟩, -⟩
      cases he
    | failed ho => exact absurd rfl ho

theorem announce_runs {result : CheckoutResult} {r : Except Failure CheckoutResult}
    (h : (ShopMachine T).Runs t (do
      let occurredAt ← clock
      publishOrderPlaced (.event (createOrderPlacedEvent input quantity result occurredAt))
      pure result) w steps r w') : w'.db = w.db ∧ Returns result steps r := by
  rcases h.bind_cases with ⟨e, rfl, hclock⟩ | ⟨now, w₁, first, rest, rfl, hclock, hrest⟩
  · obtain ⟨⟨now, hnow⟩, -⟩ := clock_runs hclock
    cases hnow
  obtain ⟨-, hdb₁, hfirst⟩ := clock_runs hclock
  rcases hrest.bind_cases with ⟨e, rfl, hpublish⟩ | ⟨u, w₂, second, last, rfl, hpublish, hlast⟩
  · obtain ⟨hdb, hreturns⟩ := publish_runs hpublish
    refine ⟨hdb.trans hdb₁, ?_⟩
    rcases hreturns with ⟨hok, -⟩ | ⟨-, hlate⟩
    · cases hok
    · exact Returns.after (.inr ⟨⟨e, rfl⟩, hlate⟩) hfirst
  · obtain ⟨hdb, hreturns⟩ := publish_runs hpublish
    obtain ⟨rfl, rfl, rfl⟩ := hlast.done_eq
    refine ⟨hdb.trans hdb₁, ?_⟩
    rcases hreturns with ⟨-, hsecond⟩ | ⟨⟨e, he⟩, -⟩
    · refine Returns.after (.inl ⟨rfl, ?_⟩) hfirst
      simpa using hsecond
    · cases he

theorem attempt_runs {r : Except Failure CheckoutResult} (hw : At t Workspace.empty 0 w)
    (h : (ShopMachine T).Runs t (tryCatch (do
      let result ← executeCheckout t input quantity
      commit
      pure result)
      (fun error => do
        rollback
        throw error)) w steps r w') :
    NotPlaced steps r w w' ∨ ∃ placed : PlacedCheckout, placed.Of input quantity ∧
      placed.Committed t w.db.committed w'.db.committed ∧ Returns placed.result steps r := by
  rcases h.handle_cases with ⟨result, rfl, hbody⟩ | ⟨e, w₁, first, rest, rfl, hbody, hhandler⟩
  · exact transaction_runs hw hbody
  have hundone := rollback_runs hhandler
  rcases transaction_runs hw hbody with hbody | ⟨placed, hof, hplaced, ⟨hok, -⟩ | ⟨-, step, hstep, hlate⟩⟩
  · exact .inl (hundone.after hbody.committed hbody.inTime)
  · cases hok
  · refine .inr ⟨placed, hof, ?_, .inr ⟨hundone.rejects, step, List.mem_append_left _ hstep, hlate⟩⟩
    rw [hundone.committed]
    exact hplaced

theorem checkout_runs {r : Except Failure CheckoutResult} (hw : w.db.workspace t = Workspace.empty)
    (h : (ShopMachine T).Runs t (checkout t input) w steps r w') :
    NotPlaced steps r w w' ∨
      ∃ placed : PlacedCheckout, ∃ quantity, (input.quantity = .integer quantity ∧ 0 < quantity) ∧
      placed.Of input quantity ∧ placed.Committed t w.db.committed w'.db.committed ∧ Returns placed.result steps r := by
  unfold checkout at h
  split at h
  · obtain ⟨rfl, rfl, rfl⟩ := h.done_eq
    exact .inl ⟨⟨_, rfl⟩, rfl, by simp⟩
  rename_i quantity hinput
  split at h
  · obtain ⟨rfl, rfl, rfl⟩ := h.done_eq
    exact .inl ⟨⟨_, rfl⟩, rfl, by simp⟩
  rename_i hquantity
  have hbegin : (begin : ShopCall T Unit).Uses Uncommitted := .perform ⟨_, rfl, nofun⟩
  rcases h.bind_cases with ⟨e, rfl, hfirst⟩ | ⟨u, w₁, first, rest, rfl, hfirst, hrest⟩
  · exact .inl ⟨⟨e, rfl⟩, runs_committed hbegin hfirst, runs_inTime hbegin hfirst⟩
  have hcommitted₁ : w₁.db.committed = w.db.committed := runs_committed hbegin hfirst
  have hinTime₁ : ∀ step ∈ first, ¬TooLate step := runs_inTime hbegin hfirst
  have hat : At t Workspace.empty 0 w₁ := by
    obtain ⟨rfl, hperforms⟩ := hfirst.perform_eq
    cases hperforms with
    | answer hexec =>
      cases hexec
      exact ⟨hw, Database.txn_setTxn⟩
  rcases hrest.bind_cases with ⟨e, rfl, hattempt⟩ | ⟨result, w₂, second, last, rfl, hattempt, hannounce⟩
  · rcases attempt_runs hat hattempt with hnothing | ⟨placed, hof, hplaced, ⟨hok, -⟩ | ⟨-, hlate⟩⟩
    · exact .inl (hnothing.after hcommitted₁ hinTime₁)
    · cases hok
    · rw [hcommitted₁] at hplaced
      exact .inr ⟨placed, quantity, ⟨hinput, by omega⟩, hof, hplaced, Returns.after (.inr ⟨⟨e, rfl⟩, hlate⟩) hinTime₁⟩
  · rcases attempt_runs hat hattempt with ⟨⟨e, he⟩, -, -⟩ | ⟨placed, hof, hplaced, ⟨hok, hsecond⟩ | ⟨⟨e, he⟩, -⟩⟩
    · cases he
    · obtain rfl := Except.ok.inj hok
      obtain ⟨hdb, hreturns⟩ := announce_runs hannounce
      rw [hcommitted₁, ← hdb] at hplaced
      exact .inr ⟨placed, quantity, ⟨hinput, by omega⟩, hof, hplaced, (hreturns.after hsecond).after hinTime₁⟩
    · cases he

end Runs

/-- A call of `checkout` that is alone keeps its word to the caller, whatever fails, if and only if no broker
operation fails and no COMMIT is applied and reported as failed. -/
theorem checkout_all_or_nothing_iff {T : Type} [DecidableEq T] {t : T} {input : CheckoutInput} {w w' : ShopWorld T}
    {steps : List (ShopStep T)} {r : Except Failure CheckoutResult} (hw : w.db.workspace t = Workspace.empty)
    (h : (ShopMachine T).Runs t (checkout t input) w steps r w') :
    AllOrNothing t input w.db.committed w'.db.committed r ↔ ∀ step ∈ steps, ¬TooLate step := by
  rcases checkout_runs hw h with hnothing | ⟨placed, quantity, ⟨hinput, hpositive⟩, hof, hplaced, hreturns⟩
  · obtain ⟨e, rfl⟩ := hnothing.rejects
    have hsame := hnothing.committed
    simp only [AllOrNothing, hsame]
    simpa using hnothing.inTime
  · rcases hreturns with ⟨rfl, hinTime⟩ | ⟨⟨e, rfl⟩, step, hstep, hlate⟩
    · constructor
      · exact fun _ => hinTime
      · exact fun _ => ⟨placed, quantity, hinput, hpositive, hof, rfl, hplaced⟩
    · constructor
      · rintro ⟨-, -, horders, -⟩
        have horder := hplaced.order
        rw [horders, hplaced.order_old] at horder
        cases horder
      · exact fun hinTime => absurd hlate (hinTime step hstep)

def twoOfOne : CheckoutInput := ⟨1, 1, .integer 2⟩

abbrev customerAt (up : Bool) : (a : Action Serial Key (Row ℕ) ShopOp) → ShopWorld ℕ →
    Except Failure (a.Res ShopOp.Res) × ShopWorld ℕ := stepAlone (brokerAt 0 up 10) .database 0

def checkoutAt (up : Bool) : Except Failure CheckoutResult × ShopWorld ℕ :=
  (checkout 0 twoOfOne).run (customerAt up) .seeded

theorem checkoutAt_runs (up : Bool) : (ShopMachine ℕ).Runs 0 (checkout 0 twoOfOne) .seeded
    ((checkout 0 twoOfOne).trace (customerAt up) .seeded) (checkoutAt up).1 (checkoutAt up).2 :=
  Prog.run_runs (stepAlone_performs (brokerAt_performs _ _)) _ _

theorem checkout_all_or_nothing_placed : (checkoutAt true).1 = .ok ⟨1, 200, 3⟩ ∧
    AllOrNothing 0 twoOfOne (ShopWorld.seeded (T := ℕ)).db.committed (checkoutAt true).2.db.committed
      (checkoutAt true).1 := by
  refine ⟨by decide, (checkout_all_or_nothing_iff rfl (checkoutAt_runs true)).mpr ?_⟩
  apply Prog.forall_trace
  rintro o w ⟨⟨e, he⟩, ⟨o, rfl⟩ | ⟨rfl, -⟩⟩
  · cases o <;> cases he
  · cases he

/-- A customer whom the broker's failure tells to try again has been charged. -/
theorem checkout_rejects_placed_order : ∃ steps w',
    (ShopMachine ℕ).Runs 0 (checkout 0 twoOfOne) .seeded steps (.error .broker) w' ∧
    ¬AllOrNothing 0 twoOfOne (ShopWorld.seeded (T := ℕ)).db.committed w'.db.committed (.error .broker) := by
  have hr : (checkoutAt false).1 = .error .broker := by decide
  refine ⟨_, _, hr ▸ checkoutAt_runs false, ?_⟩
  rintro ⟨-, -, horders, -⟩
  have horder : (checkoutAt false).2.db.committed (.order 1) ≠ none := by decide
  exact horder (horders 1)

end Marketplace
