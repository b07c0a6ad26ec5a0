import Mathlib.Data.List.Count
import Marketplace.Concurrent.Notes
import Marketplace.ReadCommitted.Writes
import Marketplace.RelayLedger

namespace Marketplace

open Concurrent ReadCommitted

variable {T α : Type}

-- the message of the `publishOrderPlaced` call that a program has come to
def starting : ShopCall T α → Option OrderPlacedMessage
  | .call (.ext .connectToBroker) next =>
    match next (.ok ()) with
    | .call (.ext (.publish message)) _ => some message
    | _ => none
  | _ => none

-- an operation that neither begins a publication nor sends one
def Silent : Action Serial Key (Row T) ShopOp → Prop
  | .ext .connectToBroker | .ext (.publish _) => False
  | _ => True

def Uncommitting : Action Serial Key (Row T) ShopOp → Prop
  | .sql .commit => False
  | _ => True

/-- What the program starts to publish has reached the broker before it commits, and nothing is published
after a COMMIT. `owed` says whether `message` has been started and is still to be sent. -/
inductive Delivers (message : OrderPlacedMessage) : Bool → ShopCall T α → Prop
  | ok {a : α} : Delivers message false (.done (.ok a))
  | error {owed : Bool} {e : Failure} : Delivers message owed (.done (.error e))
  | commit {next : Except Failure Unit → ShopCall T α} (h : ∀ r, (next r).Uses Silent) :
      Delivers message false (.call (.sql .commit) next)
  | connect {m : OrderPlacedMessage} {next : Except Failure Unit → ShopCall T α}
      (hm : starting (.call (.ext .connectToBroker) next) = some m)
      (h : Delivers message (decide (m = message)) (next (.ok ())))
      (he : ∀ e, (next (.error e)).Aborts Uncommitting) : Delivers message false (.call (.ext .connectToBroker) next)
  | publish {m : OrderPlacedMessage} {next : Except Failure Unit → ShopCall T α}
      (h : Delivers message false (next (.ok ()))) (he : ∀ e, (next (.error e)).Aborts Uncommitting) :
      Delivers message (decide (m = message)) (.call (.ext (.publish m)) next)
  | call {owed : Bool} {a : Action Serial Key (Row T) ShopOp}
      {next : Except Failure (a.Res ShopOp.Res) → ShopCall T α} (ha : Silent a ∧ Uncommitting a)
      (h : ∀ x, Delivers message owed (next (.ok x))) (he : ∀ e, (next (.error e)).Aborts Uncommitting) :
      Delivers message owed (.call a next)

section Programs

variable {β : Type} {message : OrderPlacedMessage} {owed : Bool} {p : ShopCall T α}

theorem starting_bind {f : α → ShopCall T β} {m : OrderPlacedMessage} (h : starting p = some m) :
    starting (p.bind f) = some m := by
  unfold starting at h
  split at h
  · rename_i next
    split at h
    · rename_i hnext
      cases h
      simp only [Prog.bind, starting, hnext]
    · cases h
  · cases h

theorem Delivers.bind {f : α → ShopCall T β} (hp : Delivers message owed p)
    (hu : p.Uses Uncommitting ∨ ∀ a, (f a).Uses Silent) (hf : ∀ a, Delivers message false (f a)) :
    Delivers message owed (p.bind f) := by
  induction hp with
  | ok => exact hf _
  | error => exact .error
  | commit hquiet =>
    rcases hu with hu | hsilent
    · exact hu.1.elim
    · exact .commit fun r => (hquiet r).bind hsilent
  | connect hm _ he ih => exact .connect (starting_bind (f := f) hm) (ih (hu.imp_left fun h => h.2 _)) fun e =>
    (he e).bind
  | publish _ he ih => exact .publish (ih (hu.imp_left fun h => h.2 _)) fun e => (he e).bind
  | call ha _ he ih => exact .call ha (fun x => ih x (hu.imp_left fun h => h.2 _)) fun e => (he e).bind

theorem delivers_of_rethrows (hu : p.Uses fun a => Silent a ∧ Uncommitting a) (hr : p.Rethrows fun _ => True) :
    Delivers message false p := by
  induction p with
  | done r =>
    cases r with
    | ok a => exact .ok
    | error e => exact .error
  | call a next ih =>
    refine .call hu.1 (fun x => ih _ (hu.2 _) (hr.2 _)) fun e => ⟨hr.1 trivial e, ?_⟩
    exact (hu.2 _).mono fun _ h => h.2

theorem delivers_of_aborts (hp : p.Aborts fun a => Silent a ∧ Uncommitting a) : Delivers message owed p := by
  obtain ⟨hfails, hu⟩ := hp
  induction p with
  | done r =>
    cases r with
    | ok a => exact hfails.elim
    | error e => exact .error
  | call a next ih =>
    refine .call hu.1 (fun x => ih _ (hfails _) (hu.2 _)) fun e => ⟨hfails _, ?_⟩
    exact (hu.2 _).mono fun _ h => h.2

theorem Delivers.handle {h : Failure → ShopCall T α} (hp : Delivers message owed p)
    (hh : ∀ e, (h e).Aborts fun a => Silent a ∧ Uncommitting a) : Delivers message owed (p.handle h) := by
  have habort (q : ShopCall T α) (hq : q.Aborts Uncommitting) : (q.handle h).Aborts Uncommitting :=
    hq.handle fun e => ⟨(hh e).fails, (hh e).uses.mono fun _ ha => ha.2⟩
  induction hp with
  | ok => exact .ok
  | error => exact delivers_of_aborts (hh _)
  | commit hquiet => exact .commit fun r => (hquiet r).handle fun e => (hh e).uses.mono fun _ ha => ha.1
  | @connect m next hm _ he ih =>
    refine .connect (m := m) ?_ ih fun e => habort _ (he e)
    simp only [starting] at hm ⊢
    split at hm
    · rename_i hnext
      cases hm
      simp only [hnext, Prog.handle]
    · cases hm
  | publish _ he ih => exact .publish ih fun e => habort _ (he e)
  | call ha _ he ih => exact .call ha ih fun e => habort _ (he e)

end Programs

section Relay

variable {message : OrderPlacedMessage}

def Ordinary (a : Action Serial Key (Row T) ShopOp) : Prop := Silent a ∧ Uncommitting a

theorem update_ordinary (k : Key) (p : Row T k → Bool) (f : Row T k → Row T k) :
    (update k p f : ShopCall T (Option (Row T k))).Uses Ordinary :=
  uses_updateWhere ⟨trivial, trivial⟩ ⟨trivial, trivial⟩ fun _ => ⟨trivial, trivial⟩

theorem lockUnpublished_ordinary (ids : List ℕ) (n : ℕ) :
    (lockUnpublished ids n : ShopCall T _).Uses Ordinary ∧
    (lockUnpublished ids n : ShopCall T _).Rethrows fun _ => True := by
  induction ids generalizing n with
  | nil => exact ⟨trivial, trivial⟩
  | cons id ids ih =>
    cases n with
    | zero => exact ⟨trivial, trivial⟩
    | succ n =>
      constructor
      · refine .bind (.perform ⟨trivial, trivial⟩) fun locked => ?_
        split
        · exact (ih (n + 1)).1
        · exact .bind (ih n).1 fun _ => trivial
      · refine .bind .perform fun locked => ?_
        split
        · exact (ih (n + 1)).2
        · exact .bind (ih n).2 fun _ => trivial

theorem selectUnpublished_ordinary (batchSize : JsNumber) :
    (selectUnpublished batchSize : ShopCall T _).Uses Ordinary ∧
      (selectUnpublished batchSize : ShopCall T _).Rethrows fun _ => True := by
  unfold selectUnpublished
  split
  · exact ⟨.bind (.perform ⟨trivial, trivial⟩) fun _ => (lockUnpublished_ordinary _ _).1,
      .bind .perform fun _ => (lockUnpublished_ordinary _ _).2⟩
  · exact ⟨trivial, trivial⟩

theorem publishOrderPlaced_uncommitting (m : OrderPlacedMessage) :
    (publishOrderPlaced m : ShopCall T Unit).Uses Uncommitting := by
  refine .bind (.perform trivial) fun _ => .bind (.handle ?_ fun error => ?_) fun _ => .perform trivial
  · exact .bind (.perform trivial) fun _ => .perform trivial
  · exact .bind (.perform trivial) fun _ => trivial

theorem publishOrderPlaced_delivers (m : OrderPlacedMessage) :
    Delivers message false (publishOrderPlaced m : ShopCall T Unit) := by
  have hcleanup (error : Failure) : (do external .close; throw error : ShopCall T Unit).Aborts Uncommitting :=
    ⟨.bind_of_forall fun _ => trivial, .bind (.perform trivial) fun _ => trivial⟩
  have hrest : Delivers message false (((external .waitForConfirms : ShopCall T Unit).handle fun error => do
      external .close
      throw error).bind fun _ => external .close) := by
    apply delivers_of_rethrows
    · refine .bind (.handle (.perform ⟨trivial, trivial⟩) fun error => ?_) fun _ => .perform ⟨trivial, trivial⟩
      exact .bind (.perform ⟨trivial, trivial⟩) fun _ => trivial
    · refine .bind (.handle .perform (fun error => ?_) fun error => (hcleanup error).fails) fun _ => .perform
      exact .bind .perform fun _ => trivial
  exact .connect (m := m) rfl (.publish hrest fun e => (hcleanup e).bind) fun e => ⟨trivial, trivial⟩

theorem relayRows_uncommitting (crashAfterPublish : Bool) (rows : List (ℕ × OutboxMessageRow)) (stats : RelayStats) :
    (relayRows crashAfterPublish rows stats : ShopCall T RelayStats).Uses Uncommitting := by
  induction rows generalizing stats with
  | nil => trivial
  | cons p rows ih =>
    refine .bind ((update_ordinary _ _ _).mono fun _ h => h.2) fun _ => ?_
    refine .bind (publishOrderPlaced_uncommitting _) fun _ => ?_
    split
    · trivial
    · refine .bind (.perform trivial) fun now => .bind ((update_ordinary _ _ _).mono fun _ h => h.2) fun _ => ih _

theorem relayRows_delivers (crashAfterPublish : Bool) (rows : List (ℕ × OutboxMessageRow)) (stats : RelayStats) :
    Delivers message false (relayRows crashAfterPublish rows stats : ShopCall T RelayStats) := by
  have hupdate (k : Key) (p : Row T k → Bool) (f : Row T k → Row T k) :
      Delivers message false (update k p f : ShopCall T (Option (Row T k))) :=
    delivers_of_rethrows (update_ordinary k p f) rethrows_updateWhere
  have hused (k : Key) (p : Row T k → Bool) (f : Row T k → Row T k) :
      (update k p f : ShopCall T (Option (Row T k))).Uses Uncommitting := (update_ordinary k p f).mono fun _ h => h.2
  induction rows generalizing stats with
  | nil => exact .ok
  | cons p rows ih =>
    refine (hupdate _ _ _).bind (.inl (hused _ _ _)) fun _ => ?_
    refine (publishOrderPlaced_delivers _).bind (.inl (publishOrderPlaced_uncommitting _)) fun _ => ?_
    split
    · exact .error
    · have hclock : Delivers message false (clock : ShopCall T ℕ) :=
        delivers_of_rethrows (.perform ⟨trivial, trivial⟩) .perform
      refine hclock.bind (.inl (.perform trivial)) fun now => ?_
      exact (hupdate _ _ _).bind (.inl (hused _ _ _)) fun _ => ih _

theorem relayOutboxBatch_delivers (options : RelayOptions) :
    Delivers message false (relayOutboxBatch options : ShopCall T RelayStats) := by
  have hbegin : Delivers message false (begin : ShopCall T Unit) :=
    delivers_of_rethrows (.perform ⟨trivial, trivial⟩) .perform
  refine hbegin.bind (.inl (.perform trivial)) fun _ => Delivers.handle ?_ fun error => ?_
  · obtain ⟨hselect, hrethrows⟩ := selectUnpublished_ordinary (T := T) (options.batchSize.getD defaultBatchSize)
    refine (delivers_of_rethrows hselect hrethrows).bind (.inl (hselect.mono fun _ h => h.2)) fun rows => ?_
    refine (relayRows_delivers _ rows _).bind (.inl (relayRows_uncommitting _ rows _)) fun stats => ?_
    refine .commit fun r => ?_
    cases r <;> trivial
  · exact ⟨.bind_of_forall fun _ => trivial, .bind (.perform ⟨trivial, trivial⟩) fun _ => trivial⟩

end Relay

section Others

theorem insertOrderPlacedOutbox_silent (event : OrderPlacedPayload) :
    (insertOrderPlacedOutbox event : ShopCall T Unit).Uses Silent := by
  refine .bind (.perform trivial) fun createdAt => .bind (uses_insertWithId trivial trivial fun _ => trivial)
    fun id => ?_
  refine .bind (uses_insertRow trivial) fun inserted => ?_
  split <;> trivial

theorem selectProduct_silent (activeOnly : Bool) (productId : JsNumber) :
    (selectProduct activeOnly productId : ShopCall T ProductRow).Uses Silent := by
  unfold selectProduct
  split
  · split
    · refine .bind (.perform trivial) fun view => ?_
      dsimp only
      split <;> trivial
    · trivial
  · trivial

theorem totalAmount_silent (items : List CreateOrderItemInput) (total : ℤ) :
    (totalAmount items total : ShopCall T ℤ).Uses Silent := by
  induction items generalizing total with
  | nil => trivial
  | cons item items ih =>
    unfold totalAmount
    split
    · trivial
    · exact .bind (selectProduct_silent true _) fun product => ih _

theorem insertOrderItems_silent (orderId : ℕ) (items : List CreateOrderItemInput) :
    (insertOrderItems orderId items : ShopCall T Unit).Uses Silent := by
  induction items with
  | nil => trivial
  | cons item items ih =>
    refine .bind (selectProduct_silent false _) fun product => ?_
    split
    · exact .bind (uses_insertWithId trivial trivial fun _ => trivial) fun _ => ih
    · trivial

theorem placeOrder_silent (self : T) (items : List CreateOrderItemInput) (idempotencyKey : String) :
    (placeOrder self items idempotencyKey).Uses Silent := by
  refine .bind (.perform trivial) fun view => ?_
  split
  · trivial
  · refine .bind (totalAmount_silent items 0) fun total => ?_
    refine .bind (uses_insertWithId trivial trivial fun _ => trivial) fun orderId => ?_
    refine .bind (insertOrderItems_silent orderId items) fun _ => .bind (.perform trivial) fun occurredAt => ?_
    refine .bind (insertOrderPlacedOutbox_silent _) fun _ => ?_
    refine .bind ?_ fun _ => .bind (.perform trivial) fun _ => trivial
    unfold updateKey
    split
    · exact .bind (uses_updateWhere trivial trivial fun _ => trivial) fun _ => trivial
    · exact .bind (.perform trivial) fun _ => trivial

theorem replayOrder_silent (idempotencyKey : String) :
    (replayOrder idempotencyKey : ShopCall T OrderResponse).Uses Silent := by
  refine .bind ?_ fun row => ?_
  · unfold selectKeyForUpdate
    split
    · refine .bind (.perform trivial) fun view => ?_
      split
      · trivial
      · exact .perform trivial
    · exact .bind (.perform trivial) fun _ => trivial
  · split
    · refine .bind (.bind (.perform trivial) fun view => ?_) fun response => .bind (.perform trivial) fun _ => trivial
      split
      · trivial
      · exact .bind (.perform trivial) fun _ => trivial
    · trivial

theorem create_silent (self : T) (input : CreateOrderInput) (idempotencyKey : String) :
    (create self input idempotencyKey).Uses Silent := by
  unfold create
  split
  · trivial
  · trivial
  · split
    · trivial
    · refine .handle (.bind (.perform trivial) fun _ => .bind ?_ fun reserved => ?_) fun error => ?_
      · unfold insertKey
        split
        · trivial
        · exact .bind (.perform trivial) fun _ => uses_insertRow trivial
      · split
        · exact placeOrder_silent self _ idempotencyKey
        · exact replayOrder_silent idempotencyKey
      · exact .bind (.handle (.perform trivial) fun _ => trivial) fun _ => trivial

theorem writeEvents_silent (events : List OrderPlacedPayload) : (writeEvents events : ShopCall T Unit).Uses Silent := by
  have hinserts : (insertEvents events : ShopCall T Unit).Uses Silent := by
    induction events with
    | nil => trivial
    | cons event events ih => exact .bind (insertOrderPlacedOutbox_silent event) fun _ => ih
  refine .bind (.perform trivial) fun _ => .handle (.bind hinserts fun _ => .perform trivial) fun error => ?_
  exact .bind (.perform trivial) fun _ => trivial

end Others

theorem starting_silent {a : Action Serial Key (Row T) ShopOp} {next : Except Failure (a.Res ShopOp.Res) → ShopCall T α}
    (ha : Silent a) : starting (.call a next) = none := by
  unfold starting
  split
  · rename_i heq
    cases heq
    exact ha.elim
  · rfl

variable [DecidableEq T]

def sends (t : T) (message : OrderPlacedMessage) (w : ShopWorld T) : ℕ :=
  ((outgoing t w.env).map (·.message)).count message

section Performs

variable {t : T} {message : OrderPlacedMessage} {w w' : ShopWorld T} {a : Action Serial Key (Row T) ShopOp}
  {r : Except Failure (a.Res ShopOp.Res)}

theorem sends_confirm : sends t message ⟨w.db, confirm t w.env⟩ = sends t message w := by
  simp only [sends, outgoing_confirm_self, List.map_map, Function.comp_def]

theorem sends_append {m : OrderPlacedMessage} :
    sends t message ⟨w.db, w.env ++ [⟨t, m, false⟩]⟩ = sends t message w + if m = message then 1 else 0 := by
  simp [sends, outgoing_append_self, List.count_singleton]

theorem performs_sends (ha : Silent a) (h : (ShopMachine T).perform t a w r w') :
    sends t message w' = sends t message w := by
  cases h with
  | answer _ => rfl
  | refuse _ => rfl
  | lostCommit => rfl
  | lostRollback => rfl
  | ext h =>
    cases h with
    | clock _ => rfl
    | connectToBroker => rfl
    | publish => exact ha.elim
    | waitForConfirms => exact sends_confirm
    | close => rfl
    | failed _ => rfl
    | lostPublish => exact ha.elim
    | lostConfirm => exact sends_confirm

theorem performs_status (ha : Uncommitting a) (h : (ShopMachine T).perform t a w r w')
    (hs : (w.db.txn t).status ≠ .committed) : (w'.db.txn t).status ≠ .committed := by
  cases h with
  | @answer _ o _ db h =>
    cases o with
    | begin =>
      cases h
      simp
    | commit => exact ha.elim
    | rollback =>
      cases h
      exact fun h => hs (Database.status_rollback.mp h)
    | _ => 
      rw [(Database.exec_works (by exact trivial) h).status]
      exact hs
  | refuse _ => exact hs
  | lostCommit => exact ha.elim
  | lostRollback => exact fun h => hs (Database.status_rollback.mp h)
  | ext _ => exact hs

end Performs

/-- What a run knows of the publications of `message` that `t` has started: all of them have been sent, but
for the one that `t` is in the middle of; or `t` will not commit. -/
inductive Publishing (starts : List (T × OrderPlacedMessage)) (c : ShopConfig T α) (t : T)
    (message : OrderPlacedMessage) : Prop
  | underway {p : ShopCall T α} {owed : Bool} (hp : c.prog t = some p) (h : Delivers message owed p)
      (hs : (c.shared.db.txn t).status ≠ .committed)
      (hn : starts.count (t, message) = sends t message c.shared + if owed then 1 else 0)
  | aborting (hp : ∀ p, c.prog t = some p → p.Uses Uncommitting) (hs : (c.shared.db.txn t).status ≠ .committed)
  | settled (hp : ∀ p, c.prog t = some p → p.Uses Silent) (hn : starts.count (t, message) = sends t message c.shared)

namespace Publishing

variable {starts : List (T × OrderPlacedMessage)} {c : ShopConfig T α} {t : T} {message : OrderPlacedMessage}

theorem count_eq (h : Publishing starts c t message) (hs : (c.shared.db.txn t).status = .committed) :
    starts.count (t, message) = sends t message c.shared := by
  cases h with
  | underway _ _ hn _ => exact absurd hs hn
  | aborting _ hn => exact absurd hs hn
  | settled _ hn => exact hn

theorem perform {o : Action Serial Key (Row T) ShopOp} {next : Except Failure (o.Res ShopOp.Res) → ShopCall T α}
    {r : Except Failure (o.Res ShopOp.Res)} {w : ShopWorld T} (h : Publishing starts c t message)
    (hprog : c.prog t = some (.call o next)) (hperform : (ShopMachine T).perform t o c.shared r w) :
    Publishing (starts ++ (starting (.call o next)).toList.map (t, ·)) ⟨w, Function.update c.prog t (some (next r))⟩
      t message := by
  have hnow {p : ShopCall T α} (hp : (Function.update c.prog t (some (next r))) t = some p) : p = next r := by
    rw [Function.update_self] at hp
    exact (Option.some.inj hp).symm
  cases h with
  | @underway p owed hp hdelivers hs hn =>
    rw [hprog] at hp
    cases hp
    have habort (e : Failure) (he : (next (.error e)).Aborts Uncommitting) (hr : r = .error e) :
        ∀ p, (Function.update c.prog t (some (next r))) t = some p → p.Uses Uncommitting := by
      intro p hp
      rw [hnow hp, hr]
      exact he.uses
    cases hdelivers with
    | commit hquiet =>
      refine .settled (fun p hp => hnow hp ▸ hquiet r) ?_
      rw [count_noted_self, starting_silent (by exact trivial), performs_sends (by exact trivial) hperform, hn]
      simp
    | @connect m _ hm hok he =>
      have hs' := performs_status (by exact trivial) hperform hs
      cases r with
      | error e => exact .aborting (habort e (he e) rfl) hs'
      | ok u =>
        refine .underway (Function.update_self ..) hok hs' ?_
        have hw : sends t message w = sends t message c.shared := by
          cases hperform with
          | ext h =>
            cases h with
            | connectToBroker => rfl
        rw [count_noted_self, hm, hn, hw]
        simp
    | @publish m _ hok he =>
      have hs' := performs_status (by exact trivial) hperform hs
      cases r with
      | error e => exact .aborting (habort e (he e) rfl) hs'
      | ok u =>
        refine .underway (Function.update_self ..) hok hs' ?_
        have hw : sends t message w = sends t message c.shared + if m = message then 1 else 0 := by
          cases hperform with
          | ext h =>
            cases h with
            | publish => exact sends_append
        rw [count_noted_self, hn, hw]
        simp [starting]
    | call ha hok he =>
      have hs' := performs_status ha.2 hperform hs
      cases r with
      | error e => exact .aborting (habort e (he e) rfl) hs'
      | ok x =>
        refine .underway (Function.update_self ..) (hok x) hs' ?_
        rw [count_noted_self, starting_silent ha.1, performs_sends ha.1 hperform, hn]
        simp
  | aborting hp hs =>
    obtain ⟨ho, hnext⟩ := hp _ hprog
    exact .aborting (fun p hp => hnow hp ▸ hnext r) (performs_status ho hperform hs)
  | settled hp hn =>
    obtain ⟨ho, hnext⟩ := hp _ hprog
    refine .settled (fun p hp => hnow hp ▸ hnext r) ?_
    rw [count_noted_self, starting_silent ho, performs_sends ho hperform, hn]
    simp

theorem crash {o : Action Serial Key (Row T) ShopOp} {next : Except Failure (o.Res ShopOp.Res) → ShopCall T α}
    {w : ShopWorld T} (h : Publishing starts c t message) (hprog : c.prog t = some (.call o next))
    (hcrash : (ShopMachine T).crash t c.shared w) :
    Publishing (starts ++ (starting (.call o next)).toList.map (t, ·))
      ⟨w, Function.update c.prog t none⟩ t message := by
  obtain ⟨hdb, henv⟩ := hcrash
  have hnone {P : ShopCall T α → Prop} : ∀ p, (Function.update c.prog t none) t = some p → P p := by
    simp
  have hs' (hs : (c.shared.db.txn t).status ≠ .committed) : (w.db.txn t).status ≠ .committed := by
    rw [hdb]
    exact fun h => hs (Database.status_rollback.mp h)
  cases h with
  | underway _ _ hs _ => exact .aborting hnone (hs' hs)
  | aborting _ hs => exact .aborting hnone (hs' hs)
  | settled hp hn =>
    refine .settled hnone ?_
    have hw : sends t message w = sends t message c.shared := by
      rcases henv with henv | henv
      · simp only [sends, henv]
      · simp only [sends, henv]
        exact sends_confirm
    rw [count_noted_self, starting_silent (hp _ hprog).1, hw, hn]
    simp

theorem others {starts' : List (T × OrderPlacedMessage)} {d : ShopConfig T α} (h : Publishing starts c t message)
    (hprog : d.prog t = c.prog t) (hframe : (ShopMachine T).frame t c.shared d.shared)
    (hn : starts'.count (t, message) = starts.count (t, message)) : Publishing starts' d t message := by
  have hs : (d.shared.db.txn t).status = (c.shared.db.txn t).status := by rw [hframe.db.txn]
  have henv : outgoing t d.shared.env = outgoing t c.shared.env := hframe.env
  have hw : sends t message d.shared = sends t message c.shared := by rw [sends, sends, henv]
  cases h with
  | underway hp hdelivers hs' hn' => exact .underway (hprog.trans hp) hdelivers (hs ▸ hs') (by rw [hn, hn', hw])
  | aborting hp hs' => exact .aborting (hprog ▸ hp) (hs ▸ hs')
  | settled hp hn' => exact .settled (hprog ▸ hp) (by rw [hn, hn', hw])

end Publishing

theorem publishing_noted {code : T → ShopCall T α} {w : ShopWorld T} {starts : List (T × OrderPlacedMessage)}
    {c : ShopConfig T α} {t : T} {message : OrderPlacedMessage} (hstart : Publishing [] (.start w code) t message)
    (h : (ShopMachine T).Noted starting (.start w code) starts c) : Publishing starts c t message := by
  induction h with
  | refl => exact hstart
  | @call starts d t' o next r s _ hp hs ih =>
    by_cases ht : t' = t
    · subst ht
      exact ih.perform hp hs
    · refine ih.others (Function.update_of_ne (Ne.symm ht) _ _) ((ShopMachine T).perform_frame ht hs) ?_
      exact count_noted_other ht
  | @crash starts d t' o next s _ hp hs ih =>
    by_cases ht : t' = t
    · subst ht
      exact ih.crash hp hs
    · refine ih.others (Function.update_of_ne (Ne.symm ht) _ _) ((ShopMachine T).crash_frame ht hs) ?_
      exact count_noted_other ht

theorem publishing_start (calls : T → OutboxCall) {w : ShopWorld T} (hw : OutboxEmpty w) (t : T)
    (message : OrderPlacedMessage) : Publishing [] (.start w fun t => (calls t).run t) t message := by
  have hn : ([] : List (T × OrderPlacedMessage)).count (t, message) = sends t message w := by
    simp [sends, hw.log, outgoing]
  have hsilent (hs : ((calls t).run t).Uses Silent) : Publishing [] (.start w fun t => (calls t).run t) t message :=
    .settled (fun p hp => Option.some.inj hp ▸ hs) hn
  cases hcall : calls t with
  | relay options =>
    have hidle : (w.db.txn t).status ≠ .committed := by simp [hw.quiescent.txn]
    have hrun : Delivers message false ((calls t).run t) := by
      rw [hcall]
      exact (relayOutboxBatch_delivers options).bind (.inr fun _ => trivial) fun _ => .ok
    exact .underway rfl hrun hidle hn
  | create input key =>
    apply hsilent
    rw [hcall]
    exact .bind (create_silent t input key) fun _ => trivial
  | write events =>
    apply hsilent
    rw [hcall]
    exact writeEvents_silent events

theorem count_starters (starts : List (T × OrderPlacedMessage)) (message : OrderPlacedMessage) (t : T) :
    ((starts.filter fun start => start.2 = message).map Prod.fst).count t = starts.count (t, message) := by
  simp only [List.count, List.countP_map, List.countP_filter]
  congr 1

theorem count_senders (w : ShopWorld T) (row : OutboxMessageRow) (t : T) :
    ((publishes w row).map (·.sender)).count t = sends t (.payload row.payload) w := by
  simp only [publishes, sends, outgoing, List.count, List.countP_map, List.countP_filter]
  congr 1
  funext sent
  simp only [Function.comp_apply, beq_eq_decide]
  exact Bool.and_comm _ _

def committedCalls (w : ShopWorld T) (calls : List T) : List T :=
  calls.filter fun t => (w.db.txn t).status = .committed

omit [DecidableEq T] in
theorem mem_committedCalls {w : ShopWorld T} {calls : List T} {t : T} :
    t ∈ committedCalls w calls ↔ t ∈ calls ∧ (w.db.txn t).status = .committed := by
  simp [committedCalls]

theorem count_committedCalls {w : ShopWorld T} {calls : List T} {t : T} :
    (committedCalls w calls).count t = if (w.db.txn t).status = .committed then calls.count t else 0 := by
  by_cases hs : (w.db.txn t).status = .committed
  · rw [if_pos hs]
    exact List.count_filter (decide_eq_true hs)
  · rw [if_neg hs, List.count_eq_zero]
    exact fun ht => hs (mem_committedCalls.mp ht).2

theorem RelayLog.attempts_eq {isRelay : T → Prop} {w : ShopWorld T} (h : RelayLog isRelay w) {id : ℕ}
    {row : OutboxMessageRow} (hrow : w.db.committed (.outboxMessage id) = some row) :
    row.attempts = (committedCalls w ((publishes w row).map (·.sender))).length := by
  have hsender {t : T} (ht : t ∈ committedCalls w ((publishes w row).map (·.sender))) :
      ∃ sent ∈ w.env, sent.message = .payload row.payload ∧ sent.sender = t ∧ (w.db.txn t).status = .committed := by
    obtain ⟨hmem, hs⟩ := mem_committedCalls.mp ht
    obtain ⟨sent, hsent, rfl⟩ := List.mem_map.mp hmem
    obtain ⟨henv, hm⟩ := List.mem_filter.mp hsent
    exact ⟨sent, henv, of_decide_eq_true hm, rfl, hs⟩
  rw [h.attempts id row hrow]
  by_cases hpub : row.publishedAt = none
  · have hnil : committedCalls w ((publishes w row).map (·.sender)) = [] := by
      apply List.eq_nil_iff_forall_not_mem.mpr
      intro t ht
      obtain ⟨sent, henv, hm, rfl, hs⟩ := hsender ht
      obtain ⟨id', row', hrow', hpub', hm'⟩ := h.published sent henv hs
      have hpayload : row'.payload = row.payload := OrderPlacedMessage.payload.inj (hm'.symm.trans hm)
      obtain rfl := h.id_unique hrow hrow' hpayload
      rw [hrow] at hrow'
      cases hrow'
      exact hpub' hpub
    rw [if_pos hpub, hnil]
    rfl
  · obtain ⟨sent, henv, hm, hs⟩ := h.delivered id row hrow hpub
    have hperm : (committedCalls w ((publishes w row).map (·.sender))).Perm [sent.sender] := by
      refine (List.perm_ext_iff_of_nodup ((h.once (.payload row.payload)).filter _) (List.nodup_singleton _)).mpr ?_
      intro t
      rw [List.mem_singleton]
      constructor
      · intro ht
        obtain ⟨sent', henv', hm', rfl, hs'⟩ := hsender ht
        exact h.single sent' henv' sent henv (hm'.trans hm.symm) (by simp [hs']) (by simp [hs])
      · rintro rfl
        refine mem_committedCalls.mpr ⟨List.mem_map_of_mem (List.mem_filter.mpr ⟨henv, decide_eq_true hm⟩), hs⟩
    rw [if_neg hpub, hperm.length_eq]
    rfl

theorem attempts_count_starts_iff (calls : T → OutboxCall) {w : ShopWorld T} (hw : OutboxEmpty w)
    {starts : List (T × OrderPlacedMessage)} {c : ShopConfig T Unit}
    (h : (ShopMachine T).Noted starting (.start w fun t => (calls t).run t) starts c) {id : ℕ} {row : OutboxMessageRow}
    (hrow : c.shared.db.committed (.outboxMessage id) = some row) :
    row.attempts = (starts.filter fun start => start.2 = .payload row.payload).length ↔
      ∀ t, (t, .payload row.payload) ∈ starts → (c.shared.db.txn t).status = .committed := by
  have hlog := relayLog_reachable calls hw h.reachable
  have hperm : (committedCalls c.shared ((starts.filter fun start => start.2 = .payload row.payload).map Prod.fst)).Perm
      (committedCalls c.shared ((publishes c.shared row).map (·.sender))) := by
    apply List.perm_iff_count.mpr
    intro t
    rw [count_committedCalls, count_committedCalls, count_starters, count_senders]
    split
    · exact (publishing_noted (publishing_start calls hw t (.payload row.payload)) h).count_eq ‹_›
    · rfl
  have hmem {t : T} : t ∈ (starts.filter fun start => start.2 = .payload row.payload).map Prod.fst ↔
      (t, .payload row.payload) ∈ starts := by
    simp
  rw [hlog.attempts_eq hrow, ← hperm.length_eq, Nat.cast_inj, ← @List.length_map _ _ (starts.filter _) Prod.fst,
    committedCalls, List.length_filter_eq_length_iff]
  constructor
  · intro hall t ht
    exact of_decide_eq_true (hall t (hmem.mpr ht))
  · intro hall t ht
    exact decide_eq_true (hall t (hmem.mp ht))

def relayedCalls : Bool → OutboxCall
  | false => .write [samplePayload]
  | true => .relay ⟨none, false⟩

-- the one call writes an outbox row, the other selects it
def selectedSchedule : List (Bool × Option (DatabaseMove ShopMove)) :=
  [(false, some .go), (false, some (.ext (.ok 5)))] ++ List.replicate 5 (false, some .go) ++ List.replicate 6
      (true, some .go)

theorem attempts_count_starts_published : ∃ starts : List (Bool × OrderPlacedMessage), ∃ c : ShopConfig Bool Unit,
    (ShopMachine Bool).Noted starting (.start .empty fun t => (relayedCalls t).run t) starts c ∧
      ∃ row : OutboxMessageRow, c.shared.db.committed (.outboxMessage 1) = some row ∧
      (starts.filter fun start => start.2 = .payload row.payload).length = 1 ∧ row.attempts = 1 ∧
      ∀ t : Bool, (t, .payload row.payload) ∈ starts → (c.shared.db.txn t).status = .committed := by
  have hrun : ∃ starts, ∃ c : ShopConfig Bool Unit,
      (ShopMachine Bool).Noted starting (.start .empty fun t => (relayedCalls t).run t) starts c ∧
      ∃ row ∈ (c.shared.db.committed (.outboxMessage 1) : Option OutboxMessageRow),
        (starts.filter fun start => start.2 = .payload row.payload).length = 1 ∧ row.attempts = 1 := by
    apply exists_noted (S := withDatabaseMoves shopMoves .database)
      (selectedSchedule ++ List.replicate 5 (true, some (.ext (.ok 7))) ++ List.replicate 4 (true, some .go))
    decide
  obtain ⟨starts, c, hrun, row, hrow, hstarts, hattempts⟩ := hrun
  have h := attempts_count_starts_iff relayedCalls ⟨ShopWorld.empty_quiescent, fun _ => rfl, rfl⟩ hrun hrow
  exact ⟨starts, c, hrun, row, hrow, hstarts, hattempts, h.mp (by rw [hstarts, hattempts]; rfl)⟩

-- the broker cannot be reached: the relay rolls back what it counted
theorem unreachable_broker_uncounted : ∃ starts, ∃ c : ShopConfig Bool Unit,
    (ShopMachine Bool).Noted starting (.start .empty fun t => (relayedCalls t).run t) starts c ∧
      ∃ row ∈ (c.shared.db.committed (.outboxMessage 1) : Option OutboxMessageRow),
      (∀ t, (c.shared.db.txn t).status ≠ .inProgress) ∧ row.attempts = 0 ∧
      (starts.filter fun start => start.2 = .payload row.payload).length = 1 := by
  apply exists_noted (S := withDatabaseMoves shopMoves .database)
    (selectedSchedule ++ [(true, some (.ext .fail)), (true, some .go)])
  decide

end Marketplace
