import Mathlib.Data.List.Sort
import Marketplace.CheckoutTransaction
import Marketplace.OrderLedger
import Marketplace.OrderUpdates
import Marketplace.RelayTransaction

namespace Marketplace

open Concurrent ReadCommitted

inductive ApiCall
  | create (input : CreateOrderInput) (idempotencyKey : String)
  | updateStatus (id : ℕ) (status : String)
  | checkout (input : CheckoutInput)
  | relayOutboxBatch (options : RelayOptions)

variable {T : Type}

-- the events of `updateStatus` stay in the memory of its process
def ApiCall.run (self : T) : ApiCall → ShopCall T (Option OrderResponse)
  | .create input idempotencyKey => do
    let response ← Marketplace.create self input idempotencyKey
    pure (some response)
  | .updateStatus id status => do
    let response ← Marketplace.updateStatus (fun _ _ => pure ()) id status
    pure (some response)
  | .checkout input => do
    let _ ← Marketplace.checkout self input
    pure none
  | .relayOutboxBatch options => do
    let _ ← Marketplace.relayOutboxBatch options
    pure none

def OrderItemRow.input (row : OrderItemRow) : CreateOrderItemInput := ⟨.integer row.productId, .integer row.quantity⟩

/-- Order `n` was made from these items by the call `by`, with this total. -/
structure MadeFrom (tables : Tables T) (n : ℕ) (caller : T) (items : List CreateOrderItemInput) (total : ℤ) : Prop where
  order : ∃ order, tables (.order n) = some order ∧ order.placedBy = some caller ∧ order.totalAmount = total
  items : ∃ stored, OrderItems tables n stored ∧ items = stored.map fun s => s.2.input

theorem OrderItems.unique {tables : Tables T} {n : ℕ} {stored stored' : List (ℕ × OrderItemRow)}
    (h : OrderItems tables n stored) (h' : OrderItems tables n stored') : stored = stored' := by
  have hirrefl : Std.Irrefl fun a b : ℕ × OrderItemRow => a.1 < b.1 := ⟨fun _ => Nat.lt_irrefl _⟩
  have hantisymm : Std.Antisymm fun a b : ℕ × OrderItemRow => a.1 < b.1 :=
    ⟨fun _ _ hab hba => absurd (hab.trans hba) (Nat.lt_irrefl _)⟩
  refine h.sorted.eq_of_mem_iff h'.sorted fun ⟨id, row⟩ => ?_
  rw [h.mem, h'.mem]

/-- What a step may do to the orders: change their status, and add others. -/
structure Evolves (old new : Tables T) : Prop where
  keys : ∀ k row, old (.idempotencyKey k) = some row → new (.idempotencyKey k) = some row
  orders : ∀ n order, old (.order n) = some order → ∃ order', new (.order n) = some order' ∧
    order'.placedBy = order.placedBy ∧ order'.totalAmount = order.totalAmount
  items : ∀ id row, old (.orderItem id) = some row → new (.orderItem id) = some row
  fresh : ∀ id row, new (.orderItem id) = some row →
    old (.orderItem id) = some row ∨ old (.order row.orderId) = none

namespace Evolves

variable {old new new' : Tables T}

theorem refl (old : Tables T) : Evolves old old :=
  ⟨fun _ _ h => h, fun _ order h => ⟨order, h, rfl, rfl⟩, fun _ _ h => h, fun _ _ h => .inl h⟩

theorem trans (h : Evolves old new) (h' : Evolves new new') : Evolves old new' where
  keys k row hk := h'.keys k row (h.keys k row hk)
  orders n order hn := by
    obtain ⟨order', hn', hby, htotal⟩ := h.orders n order hn
    obtain ⟨order'', hn'', hby', htotal'⟩ := h'.orders n order' hn'
    exact ⟨order'', hn'', hby'.trans hby, htotal'.trans htotal⟩
  items id row hid := h'.items id row (h.items id row hid)
  fresh id row hid := by
    rcases h'.fresh id row hid with hnew | hnone
    · exact h.fresh id row hnew
    · right
      cases hold : old (.order row.orderId) with
      | none => rfl
      | some order =>
        obtain ⟨order', hnew, -⟩ := h.orders _ order hold
        exact absurd (hnone.symm.trans hnew) (by simp)

theorem of_eq (hkeys : ∀ k, new (.idempotencyKey k) = old (.idempotencyKey k))
    (horders : ∀ n, new (.order n) = old (.order n)) (hitems : ∀ id, new (.orderItem id) = old (.orderItem id)) :
    Evolves old new :=
  ⟨fun k _ h => (hkeys k).trans h, fun n order h => ⟨order, (horders n).trans h, rfl, rfl⟩,
    fun id _ h => (hitems id).trans h, fun id _ h => .inl ((hitems id).symm.trans h)⟩

end Evolves

structure Keeps (old new : Tables T) : Prop extends Evolves old new where
  same : ∀ n order, old (.order n) = some order → new (.order n) = some order

namespace Keeps

variable {old new new' : Tables T}

theorem refl (old : Tables T) : Keeps old old := ⟨.refl old, fun _ _ h => h⟩

theorem trans (h : Keeps old new) (h' : Keeps new new') : Keeps old new' :=
  ⟨h.toEvolves.trans h'.toEvolves, fun n order hn => h'.same n order (h.same n order hn)⟩

theorem of_eq (hkeys : ∀ k, new (.idempotencyKey k) = old (.idempotencyKey k))
    (horders : ∀ n, new (.order n) = old (.order n)) (hitems : ∀ id, new (.orderItem id) = old (.orderItem id)) :
    Keeps old new :=
  ⟨.of_eq hkeys horders hitems, fun n _ h => (horders n).trans h⟩

end Keeps

theorem PlacedOrder.Committed.keeps {placed : PlacedOrder T} {old new : Tables T} (hc : placed.Committed old new)
    (hid : ∀ s ∈ placed.items, s.2.orderId = placed.orderId) : Keeps old new := by
  have hsame : ∀ n order, old (.order n) = some order → new (.order n) = some order := by
    intro n order hn
    by_cases h : n = placed.orderId
    · rw [h, hc.order_old] at hn
      cases hn
    · exact (hc.orders n h).trans hn
  refine ⟨⟨fun k row hk => ?_, fun n order hn => ⟨order, hsame n order hn, rfl, rfl⟩, fun _ _ => hc.keep_item,
    fun id row hrow => ?_⟩, hsame⟩
  · by_cases h : k = placed.key
    · rw [h, hc.key_old] at hk
      cases hk
    · exact (hc.keys k h).trans hk
  · rcases hc.item_cases hrow with hold | hmem
    · exact .inl hold
    · rw [hid _ hmem]
      exact .inr hc.order_old

theorem PlacedCheckout.Committed.keeps {placed : PlacedCheckout} {t : T} {old new : Tables T}
    (hc : placed.Committed t old new) : Keeps old new := by
  have hsame : ∀ n order, old (.order n) = some order → new (.order n) = some order := by
    intro n order hn
    by_cases h : n = placed.orderId
    · rw [h, hc.order_old] at hn
      cases hn
    · exact (hc.orders n h).trans hn
  refine ⟨⟨fun k n hk => (hc.keys k).trans hk, fun n order hn => ⟨order, hsame n order hn, rfl, rfl⟩,
    fun _ _ => hc.keep_item, fun id row hrow => ?_⟩, hsame⟩
  rcases hc.item_cases hrow with hold | ⟨-, rfl⟩
  · exact .inl hold
  · exact .inr hc.order_old

theorem OrderItems.evolves {old new : Tables T} {n : ℕ} {stored : List (ℕ × OrderItemRow)} {order : OrderRow T}
    (h : OrderItems old n stored) (horder : old (.order n) = some order) (he : Evolves old new) :
    OrderItems new n stored := by
  refine ⟨h.sorted, fun id row => ?_⟩
  rw [h.mem]
  constructor
  · exact fun ⟨hid, hrow⟩ => ⟨he.items id row hid, hrow⟩
  · rintro ⟨hid, rfl⟩
    rcases he.fresh id row hid with hold | hnone
    · exact ⟨hold, rfl⟩
    · exact absurd (hnone.symm.trans horder) (by simp)

theorem MadeFrom.evolves {old new : Tables T} {n : ℕ} {caller : T} {items : List CreateOrderItemInput} {total : ℤ}
    (h : MadeFrom old n caller items total) (he : Evolves old new) : MadeFrom new n caller items total := by
  obtain ⟨⟨order, horder, hby, htotal⟩, stored, hstored, hitems⟩ := h
  obtain ⟨order', horder', hby', htotal'⟩ := he.orders n order horder
  exact ⟨⟨order', horder', hby'.trans hby, htotal'.trans htotal⟩, stored, hstored.evolves horder he, hitems⟩

theorem KeyRow.evolves {old new : Tables T} {key stored : String} {n : ℕ} (h : KeyRow old key n stored)
    (he : Evolves old new) : KeyRow new key n stored := ⟨h.key, he.keys _ _ h.row⟩

/-- Every row of a key belongs to an order that was made from the body of the `create` call that inserted it. -/
structure ReplayLedger (calls : T → ApiCall) (w : ShopWorld T) : Prop where
  keys : ∀ k row, w.db.committed (.idempotencyKey k) = some row → ∃ n caller input key items total,
    KeyRow w.db.committed key n k ∧ calls caller = .create input key ∧ input.items = some items ∧
    MadeFrom w.db.committed n caller items total
  items : ∀ id row, w.db.committed (.orderItem id) = some row →
    (∃ order, w.db.committed (.order row.orderId) = some order) ∧ id < w.db.seq .orderItems

theorem ReplayLedger.step {calls : T → ApiCall} {w w' : ShopWorld T} (h : ReplayLedger calls w)
    (he : Evolves w.db.committed w'.db.committed)
    (hkeys : ∀ k row, w'.db.committed (.idempotencyKey k) = some row →
      w.db.committed (.idempotencyKey k) = some row ∨ ∃ n caller input key items total,
      KeyRow w'.db.committed key n k ∧ calls caller = .create input key ∧ input.items = some items ∧
      MadeFrom w'.db.committed n caller items total)
    (hitems : ∀ id row, w'.db.committed (.orderItem id) = some row → w.db.committed (.orderItem id) = some row ∨
      (∃ order, w'.db.committed (.order row.orderId) = some order) ∧ id < w'.db.seq .orderItems)
    (hseq : w.db.seq .orderItems ≤ w'.db.seq .orderItems) : ReplayLedger calls w' where
  keys k row hk := by
    rcases hkeys k row hk with hold | hnew
    · obtain ⟨n, caller, input, key, items, total, hkey, hcall, hinput, hmade⟩ := h.keys k row hold
      exact ⟨n, caller, input, key, items, total, hkey.evolves he, hcall, hinput, hmade.evolves he⟩
    · exact hnew
  items id row hid := by
    rcases hitems id row hid with hold | hnew
    · obtain ⟨⟨order, horder⟩, hlt⟩ := h.items id row hold
      obtain ⟨order', horder', -⟩ := he.orders _ order horder
      exact ⟨⟨order', horder'⟩, Nat.lt_of_lt_of_le hlt hseq⟩
    · exact hnew

variable [DecidableEq T]

def ReadsCreated (calls : T → ApiCall) (t : T) : Action Serial Key (Row T) ShopOp → ShopWorld T → Prop
  | .sql .statement, w => (w.db.txn t).command = 2 → ∀ input key n order, calls t = .create input key →
    w.db.committed (.idempotencyKey key) = some ⟨some n⟩ → w.db.committed (.order n) = some order →
    order.status = .created
  | _, _ => True

abbrev createdReplays (calls : T → ApiCall) (steady : Prop) :
    Machine T (ShopWorld T) (Action Serial Key (Row T) ShopOp) (Action.Res ShopOp.Res) Failure :=
  (ShopMachine T).restrict (fun t a w _ _ => steady → ReadsCreated calls t a w) fun _ _ _ => True

def replayLedger (calls : T → ApiCall) (steady : Prop) : Discipline (createdReplays calls steady) where
  inv := ReplayLedger calls
  always w w' := Evolves w.db.committed w'.db.committed
  rely _ _ _ := True
  gone _ _ := True
  always_refl _ := .refl _
  always_trans := Evolves.trans
  rely_refl _ _ := trivial
  rely_trans _ _ _ _ _ _ := trivial

section Steps

variable {calls : T → ApiCall} {steady : Prop} {t : T}

theorem replayLedger_calm : Calm (replayLedger calls steady) := by
  apply Calm.of_committed
  · intro w w' hc hseq hi
    refine ReplayLedger.step hi ?_ (fun k row hk => .inl ?_) (fun id row hid => .inl ?_) (hseq _)
    · rw [hc]
      exact .refl _
    · rw [← hc]
      exact hk
    · rw [← hc]
      exact hid
  · intro w w' hc
    simp only [replayLedger, hc]
    exact .refl _
  · exact fun _ _ _ _ => trivial
  · exact fun _ _ => trivial

theorem allows_unrelated {w w' : ShopWorld T} (hi : ReplayLedger calls w)
    (hkeys : ∀ k, w'.db.committed (.idempotencyKey k) = w.db.committed (.idempotencyKey k))
    (horders : ∀ n, w'.db.committed (.order n) = w.db.committed (.order n))
    (hitems : ∀ id, w'.db.committed (.orderItem id) = w.db.committed (.orderItem id))
    (hseq : w'.db.seq = w.db.seq) : (replayLedger calls steady).Allows t w w' := by
  have he := Evolves.of_eq hkeys horders hitems
  refine ⟨ReplayLedger.step hi he (fun k row hk => .inl ?_) (fun id row hid => .inl ?_) (Nat.le_of_eq ?_), he,
    fun _ _ => trivial⟩
  · rw [← hkeys]
    exact hk
  · rw [← hitems]
    exact hid
  · rw [hseq]

theorem allows_start {w : ShopWorld T} (hi : ReplayLedger calls w) :
    (replayLedger calls steady).Allows t w ⟨w.db.setTxn t ⟨.inProgress, 0⟩, w.env⟩ :=
  allows_unrelated hi (fun _ => rfl) (fun _ => rfl) (fun _ => rfl) rfl

theorem replayLedger_status (id : ℕ) (status : String) : StatusRules (replayLedger calls steady) t id status
    (fun _ => True) (fun _ => True) (fun _ => True) (fun _ _ => True) where
  calm := replayLedger_calm
  kept := .const
  missing := .const
  settled := .const
  changed _ := .const
  fails _ _ := trivial
  aborts _ _ := trivial
  starts hi _ := ⟨allows_start hi, trivial⟩
  finds _ _ := trivial
  commits {w r new ws updated} _ hi hat _ hws _ _ := by
    suffices (replayLedger calls steady).Allows t w ⟨w.db.commit t, w.env⟩ from ⟨this, by simp, by simp⟩
    cases updated with
    | none =>
      have hsame := hat.committed_unchanged hws
      exact allows_unrelated hi (by simp [hsame]) (by simp [hsame]) (by simp [hsame]) Database.seq_commit
    | some new =>
      obtain ⟨old, rfl, rfl⟩ := hws
      have hc := statusSet_committed hat
      have he : Evolves w.db.committed (w.db.commit t).committed := by
        refine ⟨fun k n hk => (hc.others _ (by simp)).trans hk, fun n order hn => ?_,
          fun i row hi => (hc.others _ (by simp)).trans hi, fun i row hi => .inl
              ((hc.others _ (by simp)).symm.trans hi)⟩
        by_cases hid : n = id
        · subst hid
          obtain rfl := Option.some.inj (hc.before.symm.trans hn)
          exact ⟨_, hc.after, rfl, rfl⟩
        · exact ⟨order, (hc.others _ (by simpa using hid)).trans hn, rfl, rfl⟩
      refine ⟨ReplayLedger.step hi he (fun k row hk => .inl ?_) (fun i row hi => .inl ?_) (Nat.le_of_eq ?_), he,
        fun _ _ => trivial⟩
      · exact (hc.others _ (by simp)).symm.trans hk
      · exact (hc.others _ (by simp)).symm.trans hi
      · rw [Database.seq_commit]

theorem replayLedger_checkout : CheckoutRules (replayLedger calls steady) t
    (fun _ => True) (fun _ => True) (fun _ _ => True) (fun _ _ => True) where
  calm := replayLedger_calm
  kept := .const
  broken := .const
  stable _ := .const
  published _ := .const
  fails _ _ := trivial
  starts hi _ := ⟨allows_start hi, trivial⟩
  aborts _ _ := trivial
  commits {w r} placed hi hat _ _ _ hseq _ := by
    have hc := PlacedCheckout.committed hat
    have he := hc.keeps.toEvolves
    refine ⟨⟨ReplayLedger.step hi he (fun k row hk => .inl ((hc.keys k).symm.trans hk)) (fun id row hid => ?_) ?_, he,
      fun _ _ => trivial⟩, fun _ => trivial, fun _ => trivial⟩
    · rcases hc.item_cases hid with hold | ⟨rfl, rfl⟩
      · exact .inl hold
      · refine .inr ⟨⟨_, hc.order⟩, ?_⟩
        rw [Database.seq_commit]
        exact hseq
    · rw [Database.seq_commit]
  publishes _ _ _ := publishOrderPlaced_spec replayLedger_calm (fun _ => True)
    { before := .const
      sent := .const
      confirmed := .const
      broken := .const
      sends := fun _ hi _ => ⟨allows_unrelated hi (fun _ => rfl) (fun _ => rfl) (fun _ => rfl) rfl, trivial⟩
      confirms := fun _ hi _ => ⟨allows_unrelated hi (fun _ => rfl) (fun _ => rfl) (fun _ => rfl) rfl, trivial⟩
      fails := fun _ _ _ _ _ _ => trivial }

theorem replayLedger_relay : RelayRules (replayLedger calls steady) t where
  calm := replayLedger_calm
  starts hi _ := allows_start hi
  sends hi _ _ _ _ := allows_unrelated hi (fun _ => rfl) (fun _ => rfl) (fun _ => rfl) rfl
  confirms hi := allows_unrelated hi (fun _ => rfl) (fun _ => rfl) (fun _ => rfl) rfl
  commits {w ws c r rows} hi hat hws hmarked _ _ := by
    have hc := hws.committed hmarked hat
    exact allows_unrelated hi (fun _ => hc.others _ (by simp)) (fun _ => hc.others _ (by simp))
      (fun _ => hc.others _ (by simp)) Database.seq_commit

end Steps

structure ReplayAnswered (calls : T → ApiCall) (steady : Prop) (key : String) (response : OrderResponse)
    (w : ShopWorld T) : Prop where
  bound : ∃ stored, KeyRow w.db.committed key response.id stored
  made : ∃ caller input, calls caller = .create input key ∧ input.items = some response.items ∧
    MadeFrom w.db.committed response.id caller response.items response.totalCents
  status : steady → response.status = .created

section Create

variable {calls : T → ApiCall} {steady : Prop} {t : T} {input : CreateOrderInput} {key : String}
  {items : List CreateOrderItemInput}

theorem madeFrom_kept (n : ℕ) (caller : T) (total : ℤ) :
    Kept (replayLedger calls steady) t (fun w => MadeFrom w.db.committed n caller items total) where
  stable _ _ _ h hs := h.evolves hs.always
  works _ h hw := hw.committed ▸ h

omit [DecidableEq T] in
theorem ReplayAnswered.evolves {response : OrderResponse} {w w' : ShopWorld T}
    (h : ReplayAnswered calls steady key response w) (he : Evolves w.db.committed w'.db.committed) :
    ReplayAnswered calls steady key response w' := by
  obtain ⟨caller, input, hcall, hinput, hmade⟩ := h.made
  obtain ⟨stored, hkey⟩ := h.bound
  exact ⟨⟨stored, hkey.evolves he⟩, ⟨caller, input, hcall, hinput, hmade.evolves he⟩, h.status⟩

theorem answered_stable (response : OrderResponse) :
    (replayLedger calls steady).Stable t (ReplayAnswered calls steady key response) :=
  fun _ _ _ h hs => h.evolves hs.always

omit [DecidableEq T] in
theorem MadeFrom.unique {tables : Tables T} {n : ℕ} {caller caller' : T} {items items' : List CreateOrderItemInput}
    {total total' : ℤ} (h : MadeFrom tables n caller items total) (h' : MadeFrom tables n caller' items' total') :
    items = items' ∧ total = total' := by
  obtain ⟨⟨order, horder, -, rfl⟩, stored, hstored, rfl⟩ := h
  obtain ⟨⟨order', horder', -, rfl⟩, stored', hstored', rfl⟩ := h'
  rw [horder] at horder'
  cases horder'
  exact ⟨by rw [hstored.unique hstored'], rfl⟩

omit [DecidableEq T] in
theorem ReplayAnswered.row {response : OrderResponse} {w : ShopWorld T}
    (h : ReplayAnswered calls steady key response w) (hkept : KeyKept key) :
    storedKey key = some key ∧ w.db.committed (.idempotencyKey key) = some ⟨some response.id⟩ := by
  obtain ⟨stored, hkey⟩ := h.bound
  obtain rfl := hkept stored hkey.key
  exact ⟨hkey.key, hkey.row.trans (by rw [if_pos rfl])⟩

omit [DecidableEq T] in
theorem ReplayAnswered.unique {response response' : OrderResponse} {w : ShopWorld T} (hsteady : steady)
    (hkept : KeyKept key) (h : ReplayAnswered calls steady key response w)
    (h' : ReplayAnswered calls steady key response' w) : response = response' := by
  have hid : response.id = response'.id := by
    simpa using (h.row hkept).2.symm.trans (h'.row hkept).2
  obtain ⟨_, _, -, -, hmade⟩ := h.made
  obtain ⟨_, _, -, -, hmade'⟩ := h'.made
  rw [← hid] at hmade'
  obtain ⟨hitems, htotal⟩ := hmade.unique hmade'
  have hstatus := (h.status hsteady).trans (h'.status hsteady).symm
  cases response
  cases response'
  simp_all only

theorem stores_inputs {A : Allowed T} {C : T → ShopWorld T → ShopWorld T → Prop}
    {D : Discipline ((ShopMachine T).restrict A C)} {S : PriceReads D t items key} {n : ℕ} {lines : List OrderLine}
    {stored : List (ℕ × OrderItemRow)} (h : List.Forall₂ (S.Stores n) lines stored) :
    lines.map OrderLine.input = stored.map fun s => s.2.input := by
  induction h with
  | nil => rfl
  | cons hs _ ih =>
    rw [List.map_cons, List.map_cons, ih, OrderItemRow.input, hs.productId, hs.quantity]
    rfl

def replayLedger_place (ht : calls t = .create input key) (hitems : input.items = some items) :
    PlaceRules (replayLedger calls steady) t items key (fun _ => True) (ReplayAnswered calls steady key) where
  calm := replayLedger_calm
  reads := noReads _ t items key
  stable := answered_stable
  failures _ _ := trivial
  starts := allows_start
  places {w r} placed lines hi hat hp hdrawn _ _ := by
    have hc := PlacedOrder.committed hat hp.sorted
    have hkey : KeyRow (w.db.commit t).committed key placed.orderId placed.key := ⟨hp.key, hp.bound ▸ hc.key⟩
    have horderId := stores_orderId hp.stored
    have he := (hc.keeps horderId).toEvolves
    have hnew : ∀ n order, w.db.committed (.order n) = some order → n ≠ placed.orderId := by
      rintro n order hn rfl
      exact absurd (hc.order_old.symm.trans hn) (by simp)
    have hmade : MadeFrom (w.db.commit t).committed placed.orderId t items placed.order.totalAmount := by
      refine ⟨⟨_, hc.order, hp.placedBy, rfl⟩, placed.items, orderItems_placed hc ?_ hp.sorted horderId, ?_⟩
      · intro id row hid
        obtain ⟨⟨order, horder⟩, -⟩ := hi.items id row hid
        exact hnew _ order horder
      · rw [hp.input, stores_inputs hp.stored]
    refine ⟨⟨ReplayLedger.step hi he (fun k row hk => ?_) (fun id row hid => ?_) ?_, he, fun _ _ => trivial⟩,
      ⟨⟨_, hkey⟩, ⟨t, input, ht, hitems, hmade⟩, fun _ => rfl⟩⟩
    · by_cases hk' : k = placed.key
      · subst hk'
        exact .inr ⟨_, t, input, key, items, _, hkey, ht, hitems, hmade⟩
      · exact .inl ((hc.keys k hk').symm.trans hk)
    · rcases hc.item_cases hid with hold | hmem
      · exact .inl hold
      · refine .inr ⟨⟨_, (horderId _ hmem) ▸ hc.order⟩, ?_⟩
        rw [Database.seq_commit]
        exact hdrawn _ hmem
    · rw [Database.seq_commit]

end Create

section Items

omit [DecidableEq T]

variable {view : View T} {n : ℕ} (hseq : ∀ id row, view.row (.orderItem id) = some row → id < view.seq .orderItems)

include hseq

theorem exists_orderItems : ∃ stored, OrderItems view.row n stored ∧ View.orderItems view n = stored.map (·.2) := by
  refine ⟨(List.range (view.seq .orderItems)).filterMap fun id =>
    ((view.row (.orderItem id)).filter fun row => row.orderId = n).map fun row => (id, row), ⟨?_, ?_⟩, ?_⟩
  · apply List.pairwise_lt_range.filterMap
    intro id id' hlt s hs s' hs'
    simp only [Option.map_eq_some_iff] at hs hs'
    obtain ⟨_, -, rfl⟩ := hs
    obtain ⟨_, -, rfl⟩ := hs'
    exact hlt
  · intro id row
    simp only [List.mem_filterMap, Option.map_eq_some_iff, Option.filter_eq_some_iff, Prod.mk.injEq, List.mem_range,
      decide_eq_true_eq]
    constructor
    · rintro ⟨_, -, _, h, rfl, rfl⟩
      exact h
    · exact fun h => ⟨id, hseq id row h.1, row, h, rfl, rfl⟩
  · rw [List.map_filterMap]
    simp only [Option.map_map]
    unfold View.orderItems
    congr 1
    funext id
    exact Option.map_id'.symm

theorem OrderItems.read {stored : List (ℕ × OrderItemRow)} (h : OrderItems view.row n stored) :
    View.orderItems view n = stored.map (·.2) := by
  obtain ⟨found, hfound, hread⟩ := exists_orderItems hseq (n := n)
  rw [hread, h.unique hfound]

end Items

section Replay

variable {calls : T → ApiCall} {steady : Prop} {t : T} {input : CreateOrderInput} {key : String}

def MadeUnder (calls : T → ApiCall) (key : String) (n : ℕ) (items : List CreateOrderItemInput) (total : ℤ)
    (w : ShopWorld T) : Prop :=
  ∃ caller input, calls caller = .create input key ∧ input.items = some items ∧
    MadeFrom w.db.committed n caller items total

theorem madeUnder_kept (n : ℕ) (items : List CreateOrderItemInput) (total : ℤ) :
    Kept (replayLedger calls steady) t (MadeUnder calls key n items total) :=
  .any fun caller => .any fun _ => .and .const (.and .const (madeFrom_kept n caller total))

theorem replayed_order {w : ShopWorld T} {ws : Workspace Key (Row T)} {c n : ℕ} {items : List CreateOrderItemInput}
    {total : ℤ} (hat : At t ws c w) (hws : ws (.order n) = none) (h : MadeUnder calls key n items total w) :
    ∃ order, w.db.committed (.order n) = some order ∧ order.totalAmount = total ∧
      (w.db.snapshot t).row (.order n) = some order := by
  obtain ⟨caller, _, -, -, ⟨order, horder, -, htotal⟩, -⟩ := h
  exact ⟨order, horder, htotal, (hat.visible_of_none hws).trans horder⟩

theorem replayed_items {w : ShopWorld T} {ws : Workspace Key (Row T)} {c n : ℕ} {items : List CreateOrderItemInput}
    {total : ℤ} (hi : ReplayLedger calls w) (hat : At t ws c w) (hws : ∀ id, ws (.orderItem id) = none)
    (h : MadeUnder calls key n items total w) :
    (View.orderItems (w.db.snapshot t) n).map OrderItemRow.input = items := by
  obtain ⟨caller, _, -, -, -, stored, hstored, rfl⟩ := h
  have hrow : ∀ id, (w.db.snapshot t).row (.orderItem id) = w.db.committed (.orderItem id) :=
    fun id => hat.visible_of_none (hws id)
  have hview : OrderItems (w.db.snapshot t).row n stored :=
    ⟨hstored.sorted, fun id row => by rw [hrow id, hstored.mem]⟩
  rw [hview.read (fun id row h => (hi.items id row ((hrow id).symm.trans h)).2), List.map_map]
  rfl

abbrev keyLocked (key : String) (row : IdempotencyKeyRow) : Workspace Key (Row T) :=
  Workspace.empty.set (.idempotencyKey key) ⟨some row, row⟩

theorem replayLedger_findById {row : IdempotencyKeyRow} {n : ℕ} {items : List CreateOrderItemInput} {total : ℤ}
    (ht : calls t = .create input key) (hrow : row.orderId = some n) :
    (replayLedger calls steady).Triple t
      (fun w => At t (keyLocked key row) 2 w ∧ MadeUnder calls key n items total w)
      (findByIdWithClient n)
      (fun response w => (response.id = n ∧ response.items = items ∧ response.totalCents = total ∧
      (steady → response.status = .created)) ∧
      At t (keyLocked key row) 4 w ∧ MadeUnder calls key n items total w)
      fun e _ => e = .database := by
  have hD : Calm (replayLedger calls steady) := replayLedger_calm
  have hF : Kept (replayLedger calls steady) t (MadeUnder calls key n items total) := madeUnder_kept n items total
  have hY := Fails.const (D := replayLedger calls steady) (t := t) (F := MadeUnder calls key n items total)
    (φ := (· = Failure.database)) rfl
  refine .bind (statement_allowed_spec hD hF hY (G := fun view _ => ∃ order : OrderRow T, order.totalAmount = total ∧
    (steady → order.status = .created) ∧ view.row (.order n) = some order) (fun _ => .const) ?_) fun view => ?_
  · intro w hi hat hmade hallowed
    obtain ⟨order, horder, htotal, hread⟩ := replayed_order hat (Workspace.set_of_ne (by simp)) hmade
    refine ⟨order, htotal, fun hs => ?_, hread⟩
    have hbound : w.db.committed (.idempotencyKey key) = some row := hat.committed_old Workspace.set_self
    refine hallowed hs (by rw [hat.txn]) input key n order ht ?_ horder
    rw [hbound, ← hrow]
  · refine .pre (P := fun w => ∃ order : OrderRow T, (order.totalAmount = total ∧ (steady → order.status = .created) ∧
      view.row (.order n) = some order) ∧ At t (keyLocked key row) 3 w ∧
      MadeUnder calls key n items total w) (.exists_pre fun order => .pure_pre fun ⟨htotal, hstatus, hread⟩ => ?_)
      fun w _ ⟨hat, hmade, order, h⟩ => ⟨order, h, hat, hmade⟩
    rw [hread]
    refine .bind (statement_spec hD hF hY
      (G := fun view _ => (View.orderItems view n).map OrderItemRow.input = items) (fun _ => .const) ?_)
          fun itemsView => ?_
    · exact fun w hi hat hmade => replayed_items hi hat (fun _ => Workspace.set_of_ne (by simp)) hmade
    · refine .pure (.and .const (At.stable.and hF.stable)) ?_
      exact fun w _ ⟨hat, hmade, hitems⟩ => ⟨⟨rfl, hitems, htotal, hstatus⟩, hat, hmade⟩

theorem replayLedger_replay (row : IdempotencyKeyRow) {stored : String} {φ : Failure → Prop}
    (ht : calls t = .create input key) (hstored : storedKey key = some stored) (hφ : φ .database)
    (hunbound : (stored = key → row.orderId = none) → φ keyWithoutOrder) :
    (replayLedger calls steady).Triple t
      (fun w => At t Workspace.empty 1 w ∧ w.db.committed (.idempotencyKey stored) = some row)
      (replayOrder key) (ReplayAnswered calls steady key) fun e _ => φ e := by
  have hD : Calm (replayLedger calls steady) := replayLedger_calm
  have hY (F : ShopWorld T → Prop) := Fails.const (D := replayLedger calls steady) (t := t) (F := F) hφ
  have hF : Kept (replayLedger calls steady) t fun w => w.db.committed (.idempotencyKey stored) = some row :=
    ⟨fun _ _ _ h hs => hs.always.keys _ _ h, fun _ h hw => (congrFun hw.committed _).trans h⟩
  unfold replayOrder selectKeyForUpdate
  rw [hstored]
  split
  swap
  · rename_i hcut
    have hφcut := hunbound fun h => absurd (congrArg some h) hcut
    refine .bind (.bind (statement_spec hD hF (hY _) (fun _ => .const) fun _ _ _ _ => trivial) fun _ =>
      .pure (Q := fun row _ => row = none) .const fun _ _ _ => rfl) fun row => ?_
    refine .pre (P := fun _ => row = none ∧ True) (.pure_pre ?_) fun _ _ h => ⟨h, trivial⟩
    rintro rfl
    exact .throw .const fun _ _ _ => hφcut
  rename_i hkept
  obtain rfl : key = stored := (Option.some.inj hkept).symm
  refine .bind (selectForUpdate_spec hD hF (hY _) rfl
    (G := fun (found : IdempotencyKeyRow) w => found = row ∧ ∀ n, row.orderId = some n → ∃ items total,
      MadeUnder calls key n items total w) (fun found => .and .const (.each fun n => .imp fun _ =>
        .any fun items => .any fun total => madeUnder_kept n items total)) (N := fun _ => False) .const ?_ ?_)
    fun found => ?_
  · intro w _ _ hrow hnone
    exact absurd (hnone.symm.trans hrow) (by simp)
  · intro w found hi _ hrow hfound
    obtain rfl := Option.some.inj (hfound.symm.trans hrow)
    refine ⟨rfl, fun n hn => ?_⟩
    obtain ⟨m, caller, input, key', items, total, hkey, hcall, hinput, hmade⟩ := hi.keys _ found hrow
    have hbound := hkey.row
    rw [hrow] at hbound
    obtain rfl := Option.some.inj hbound
    obtain ⟨rfl, hm⟩ := Option.ite_none_right_eq_some.mp hn
    obtain rfl := Option.some.inj hm
    exact ⟨items, total, caller, input, hcall, hinput, hmade⟩
  cases found with
  | none => exact .throw .const fun w _ h => h.2.2.elim
  | some found =>
    refine .pre (.pure_pre (φ := found = row) ?_) fun w _ h => ⟨h.2.2.1, h⟩
    rintro rfl
    obtain ⟨orderId⟩ := found
    cases orderId with
    | none => exact .throw .const fun _ _ _ => hunbound fun _ => rfl
    | some n =>
    refine .pre (P := fun w => ∃ items total, At t (keyLocked key ⟨some n⟩) 2 w ∧ MadeUnder calls key n items total w)
      (.exists_pre fun items => .exists_pre fun total => ?_) ?_
    swap
    · rintro w - ⟨hat, -, -, hmade⟩
      obtain ⟨items, total, hmade⟩ := hmade n rfl
      exact ⟨items, total, hat, hmade⟩
    refine .bind ((replayLedger_findById ht rfl).conseq (fun _ _ h => h) (fun _ _ _ h => h) ?_) fun response => ?_
    · rintro e w - rfl
      exact hφ
    refine .pure_pre fun h => ?_
    obtain ⟨hid, hitems, htotal, hstatus⟩ := h
    refine .bind (commit_spec hD (madeUnder_kept n items total) (hY _) (answered_stable response) ?_) fun _ =>
      .pure (answered_stable response) fun _ _ h => h
    intro w r hi hat hmade _
    have hsame := hat.committed_unchanged Workspace.set_empty_locked
    refine ⟨allows_unrelated hi (by simp [hsame]) (by simp [hsame]) (by simp [hsame]) Database.seq_commit, fun _ => ?_,
      fun _ => hφ⟩
    obtain ⟨caller, input, hcall, hinput, hfrom⟩ := hmade
    refine ⟨⟨key, hstored, ?_⟩, ⟨caller, input, hcall, hitems ▸ hinput, ?_⟩, hstatus⟩
    · rw [hsame, hid, if_pos rfl]
      exact hat.committed_old (k := Key.idempotencyKey key) Workspace.set_self
    · rw [hid, hitems, htotal]
      simpa only [hsame] using hfrom

theorem replayLedger_create (ht : calls t = .create input key) :
    (replayLedger calls steady).Triple t (fun w => w.db.workspace t = Workspace.empty) (create t input key)
      (fun response w => (∃ items, input.Accepted key items) ∧ ReplayAnswered calls steady key response w)
      fun _ _ => True := by
  refine (create_spec_of (F := fun _ => True) (φ := fun _ => True) replayLedger_calm .const trivial
    (fun w hi _ => ⟨allows_start hi, trivial⟩) (fun _ _ => trivial) (fun items stored haccepted hstored => ?_)
    fun items stored haccepted hstored => ?_).pre fun w _ h => ⟨h, trivial⟩
  · exact ((replayLedger_place ht haccepted.body).placeOrder_spec hstored).conseq (fun _ _ h => h)
      (fun _ _ _ h => ⟨⟨items, haccepted⟩, h⟩) fun _ _ _ _ => trivial
  · refine .pre (P := fun (w : ShopWorld T) => ∃ row, At t Workspace.empty 1 w ∧
      w.db.committed (Key.idempotencyKey stored) = some row) (.exists_pre fun row => ?_) ?_
    swap
    · rintro w - ⟨hat, -, row, hrow⟩
      exact ⟨row, hat, hrow⟩
    exact (replayLedger_replay row (φ := fun _ => True) ht hstored trivial fun _ => trivial).conseq (fun _ _ h => h)
      (fun _ _ _ h => ⟨⟨items, haccepted⟩, h⟩) fun _ _ _ _ => trivial

theorem replayLedger_again {items : List CreateOrderItemInput} (ht : calls t = .create input key)
    (haccepted : input.Accepted key items) (hkept : storedKey key = some key) (n : ℕ) :
    (replayLedger calls steady).Triple t
      (fun w => w.db.workspace t = Workspace.empty ∧ w.db.committed (.idempotencyKey key) = some ⟨some n⟩)
      (create t input key) (ReplayAnswered calls steady key) fun e _ => e = .database := by
  have hF : Kept (replayLedger calls steady) t fun w => w.db.committed (.idempotencyKey key) = some ⟨some n⟩ :=
    ⟨fun _ _ _ h hs => hs.always.keys _ _ h, fun _ h hw => (congrFun hw.committed _).trans h⟩
  refine create_spec_of replayLedger_calm hF rfl (fun w hi h => ⟨allows_start hi, h⟩)
    (fun hrejected => absurd haccepted (hrejected items)) (fun _ stored _ hstored => ?_) fun _ stored _ hstored => ?_
  · obtain rfl := Option.some.inj (hkept.symm.trans hstored)
    rintro w - ⟨hat, hbound⟩
    have hnone := hat.committed_old (k := Key.idempotencyKey key) Workspace.set_self
    exact absurd (hnone.symm.trans hbound) (by simp)
  · obtain rfl := Option.some.inj (hkept.symm.trans hstored)
    refine (replayLedger_replay ⟨some n⟩ (φ := (· = Failure.database)) ht hkept rfl fun hnone => ?_).pre
      fun _ _ h => ⟨h.1, h.2.1⟩
    exact absurd (hnone rfl) (by simp)

def Returned (calls : T → ApiCall) (steady : Prop) (t : T) (answer : Option OrderResponse) (w : ShopWorld T) : Prop :=
  ∀ input key, calls t = .create input key → ∃ response, answer = some response ∧
    (∃ items, input.Accepted key items) ∧ ReplayAnswered calls steady key response w

theorem returned_stable (answer : Option OrderResponse) :
    (replayLedger calls steady).Stable t (Returned calls steady t answer) := by
  intro w w' hi h hs input key ht
  obtain ⟨response, hanswer, haccepted, hanswered⟩ := h input key ht
  exact ⟨response, hanswer, haccepted, answered_stable response w w' hi hanswered hs⟩

theorem ApiCall.run_spec (calls : T → ApiCall) (steady : Prop) (t : T) :
    (replayLedger calls steady).Triple t (fun w => w.db.workspace t = Workspace.empty ∧ outgoing t w.env = [])
      ((calls t).run t) (Returned calls steady t) fun _ _ => True := by
  have hnone {answer : Option OrderResponse} (h : ∀ input key, calls t ≠ .create input key) :
      (replayLedger calls steady).Triple t (fun _ => True) (pure answer) (Returned calls steady t) fun _ _ => True :=
    .pure (returned_stable answer) fun _ _ _ input key ht => absurd ht (h input key)
  cases ht : calls t with
  | create input key =>
    refine (Discipline.Triple.bind (replayLedger_create ht) fun response => ?_).pre fun w _ h => h.1
    refine .pure (returned_stable _) fun w _ h input' key' ht' => ?_
    cases ht.symm.trans ht'
    exact ⟨response, rfl, h⟩
  | updateStatus id status =>
    have hspec : (replayLedger calls steady).Triple t (fun w => w.db.workspace t = Workspace.empty ∧ True)
        (Marketplace.updateStatus (fun _ _ => pure ()) id status) (fun _ _ => True) fun _ _ => True :=
      updateStatus_spec (replayLedger_status id status) fun _ => .pure .const fun _ _ _ => trivial
    refine (Discipline.Triple.bind hspec fun _ => hnone (by simp [ht])).conseq (fun _ _ h => ⟨h.1, trivial⟩)
      (fun _ _ _ h => h) fun _ _ _ h => h
  | checkout input =>
    exact .bind ((checkout_spec replayLedger_checkout input).pre fun w _ h => ⟨h.1, trivial⟩) fun _ => hnone
      (by simp [ht])
  | relayOutboxBatch options =>
    exact .bind (relayOutboxBatch_spec replayLedger_relay options) fun _ => hnone (by simp [ht])

end Replay

structure NothingBound (w : ShopWorld T) : Prop where
  quiescent : w.db.Quiescent
  keys : ∀ k, w.db.committed (.idempotencyKey k) = none
  items : ∀ id row, w.db.committed (.orderItem id) = some row →
    (∃ order, w.db.committed (.order row.orderId) = some order) ∧ id < w.db.seq .orderItems
  log : w.env = []

variable {calls : T → ApiCall} {steady : Prop} {w : ShopWorld T} {c d : ShopConfig T (Option OrderResponse)}

omit [DecidableEq T] in
theorem NothingBound.ledger (hw : NothingBound w) (calls : T → ApiCall) : ReplayLedger calls w where
  keys k row hk := absurd ((hw.keys k).symm.trans hk) (by simp)
  items := hw.items

theorem replay_run (hw : NothingBound w)
    (h : (createdReplays calls steady).Reachable (.start w fun t => (calls t).run t) c) :
    ReplayLedger calls c.shared ∧ ∀ t, (replayLedger calls steady).Holds t
      (Discipline.Post (Returned calls steady t) fun _ _ => True) c.shared (c.prog t) := by
  have hstart (t : T) : w.db.workspace t = Workspace.empty ∧ outgoing t w.env = [] :=
    ⟨hw.quiescent.workspace t, by rw [hw.log]; rfl⟩
  have hsafe (t : T) : (replayLedger calls steady).Holds t
      (Discipline.Post (Returned calls steady t) fun _ _ => True) w (some ((calls t).run t)) :=
    ApiCall.run_spec calls steady t w (hw.ledger calls) (hstart t)
  have hi : (replayLedger calls steady).inv w := hw.ledger calls
  obtain ⟨hi, -, hall⟩ := Discipline.reachable_holds hi hsafe h
  exact ⟨hi, hall⟩

theorem replay_answered (hw : NothingBound w)
    (h : (createdReplays calls steady).Reachable (.start w fun t => (calls t).run t) c) {t : T}
    {input : CreateOrderInput} {key : String} {response : OrderResponse} (ht : calls t = .create input key)
    (hok : c.outcome t = some (.ok (some response))) :
    (∃ items, input.Accepted key items) ∧ ReplayAnswered calls steady key response c.shared := by
  obtain ⟨hi, hall⟩ := replay_run hw h
  have hsafe := hall t
  rw [Config.outcome_eq_some.mp hok] at hsafe
  obtain ⟨_, hsome, hanswered⟩ := Discipline.Safe.outcome hsafe hi input key ht
  cases hsome
  exact hanswered

theorem create_answers_request (calls : T → ApiCall) (hw : NothingBound w)
    (h : (ShopMachine T).Reachable (.start w fun t => (calls t).run t) c) {t : T} {input : CreateOrderInput}
    {key : String} {response : OrderResponse} (ht : calls t = .create input key)
    (hok : c.outcome t = some (.ok (some response))) :
    ∃ stored order caller input', storedKey key = some stored ∧
      c.shared.db.committed (.idempotencyKey stored) = some ⟨if stored = key then some response.id else none⟩ ∧
      c.shared.db.committed (.order response.id) = some order ∧ order.placedBy = some caller ∧
      calls caller = .create input' key ∧ (input.items = some response.items ↔ input.items = input'.items) := by
  have h' : (createdReplays calls False).Reachable (.start w fun t => (calls t).run t) c :=
    h.restrict (J := fun _ => True) (fun _ _ => trivial) (fun _ _ => False.elim) fun _ _ => trivial
  obtain ⟨-, ⟨stored, hkey⟩, ⟨caller, input', hcall, hinput, ⟨order, horder, hby, -⟩, -⟩, -⟩ :=
    replay_answered hw h' ht hok
  exact ⟨stored, order, caller, input', hkey.key, hkey.row, horder, hby, hcall, by rw [hinput]⟩

omit [DecidableEq T] in
theorem seeded_nothingBound : NothingBound (ShopWorld.seeded (T := T)) where
  quiescent := ⟨fun _ => rfl, fun _ => rfl⟩
  keys _ := rfl
  items _ _ h := nomatch h
  log := rfl

def repeatedCalls (_ : ℕ) : ApiCall := .create retriedInput "retry"

def placeMoves (t : ℕ) : List (ℕ × Option (DatabaseMove ShopMove)) :=
  List.replicate 17 (t, some .go) ++ List.replicate 2 (t, some (.ext (.ok 5))) ++ List.replicate 8 (t, some .go)

theorem create_answers_request_repeated : ∃ c : ShopConfig ℕ (Option OrderResponse), ∃ response,
    (ShopMachine ℕ).Reachable (.start .seeded fun t => (repeatedCalls t).run t) c ∧
      c.outcome 1 = some (.ok (some response)) ∧ retriedInput.items = some response.items := by
  have hrun : ∃ c : ShopConfig ℕ (Option OrderResponse), (ShopMachine ℕ).Reachable
      (.start .seeded fun t => (repeatedCalls t).run t) c ∧
      c.outcome 1 = some (.ok (some ⟨1, [⟨.integer 1, .integer 2⟩, ⟨.integer 1, .integer 1⟩], 300, .created⟩)) := by
    apply exists_reachable (S := withDatabaseMoves shopMoves .database)
      (placeMoves 0 ++ List.replicate 8 (1, some .go))
    decide
  obtain ⟨c, hc, hok⟩ := hrun
  have h := create_answers_request repeatedCalls seeded_nothingBound hc rfl hok
  obtain ⟨_, _, _, input, -, -, -, -, hcall, hitems⟩ := h
  cases hcall
  exact ⟨c, _, hc, hok, hitems.mpr rfl⟩

def reusedCalls : ℕ → ApiCall
  | 0 => .create retriedInput "retry"
  | _ => .create ⟨some [⟨.integer 1, .integer 1⟩]⟩ "retry"

-- call 1 sends another body with the key of call 0
theorem reused_key_answers_other_order : ∃ c : ShopConfig ℕ (Option OrderResponse), ∃ input key response,
    (ShopMachine ℕ).Reachable (.start .seeded fun t => (reusedCalls t).run t) c ∧
      reusedCalls 1 = .create input key ∧ c.outcome 1 = some (.ok (some response)) ∧
      input.items ≠ some response.items := by
  have hrun : ∃ c : ShopConfig ℕ (Option OrderResponse), (ShopMachine ℕ).Reachable
      (.start .seeded fun t => (reusedCalls t).run t) c ∧
      c.outcome 1 = some (.ok (some ⟨1, [⟨.integer 1, .integer 2⟩, ⟨.integer 1, .integer 1⟩], 300, .created⟩)) := by
    apply exists_reachable (S := withDatabaseMoves shopMoves .database)
      (placeMoves 0 ++ List.replicate 8 (1, some .go))
    decide
  obtain ⟨c, hc, hok⟩ := hrun
  exact ⟨c, _, _, _, hc, rfl, hok, by decide⟩

theorem create_replays_response (calls : T → ApiCall) (hw : NothingBound w)
    (hc : (createdReplays calls True).Reachable (.start w fun t => (calls t).run t) c) {t t' : T}
    {input : CreateOrderInput} {key : String} (hkept : KeyKept key) {response : OrderResponse}
    (ht : calls t = .create input key) (ht' : calls t' = .create input key)
    (hok : c.outcome t = some (.ok (some response))) (hlater : c.prog t' = some ((calls t').run t'))
    (hd : (createdReplays calls True).Reachable c d) {result : Except Failure (Option OrderResponse)}
    (hresult : d.outcome t' = some result) :
    result = .ok (some response) ∨ result = .error .database := by
  obtain ⟨hi, hall⟩ := replay_run hw hc
  obtain ⟨⟨items, haccepted⟩, hanswered⟩ := replay_answered hw hc ht hok
  have hidle : c.shared.db.workspace t' = Workspace.empty :=
    (Machine.Reachable.unstarted hc hlater).db.workspace.trans (hw.quiescent.workspace t')
  have hagain : (replayLedger calls True).Holds t' (Discipline.Post
      (fun answer w => ∃ response, answer = some response ∧ ReplayAnswered calls True key response w)
      fun e _ => e = .database) c.shared (c.prog t') := by
    rw [hlater, ht']
    obtain ⟨hkey, hbound⟩ := hanswered.row hkept
    refine Discipline.Triple.bind (replayLedger_again ht' haccepted hkey response.id) (fun response' => ?_) _ hi
      ⟨hidle, hbound⟩
    refine .pure (.exists fun response => .and .const (answered_stable response)) ?_
    exact fun w _ h => ⟨response', rfl, h⟩
  obtain ⟨hi', halways, hall'⟩ := Discipline.reachable_holds hi (Discipline.Holds.update hall hagain) hd
  have hsafe := hall' t'
  rw [Config.outcome_eq_some.mp hresult, Function.update_self] at hsafe
  have hpost := Discipline.Safe.outcome hsafe hi'
  cases result with
  | error e => exact .inr (congrArg Except.error hpost)
  | ok answer =>
    obtain ⟨response', rfl, hanswered'⟩ := hpost
    exact .inl (by rw [hanswered'.unique trivial hkept (hanswered.evolves halways)])

def orderStatus (w : ShopWorld ℕ) (key : String) : Option OrderStatus :=
  match w.db.committed (.idempotencyKey key) with
  | some ⟨some n⟩ => (w.db.committed (.order n)).map (·.status)
  | _ => none

@[reducible] def createdMoves : Moves (createdReplays repeatedCalls True) :=
  (withDatabaseMoves shopMoves .database).restrict
    (fun _ _ w _ _ => (orderStatus w "retry").all (· = .created)) (by
      intro t a w _ _ htest _
      unfold ReadsCreated
      split
      · intro _ input key n order hcall hbound horder
        cases hcall
        simpa [orderStatus, hbound, horder] using htest
      · trivial)

theorem create_replays_response_repeated : ∃ c d : ShopConfig ℕ (Option OrderResponse), ∃ response,
    (createdReplays repeatedCalls True).Reachable (.start .seeded fun t => (repeatedCalls t).run t) c ∧
      (createdReplays repeatedCalls True).Reachable c d ∧ c.outcome 0 = some (.ok (some response)) ∧
      d.outcome 1 ≠ none ∧
      ∀ result, d.outcome 1 = some result → result = .ok (some response) ∨ result = .error .database := by
  have hrun : ∃ c d : ShopConfig ℕ (Option OrderResponse), (createdReplays repeatedCalls True).Reachable
      (.start .seeded fun t => (repeatedCalls t).run t) c ∧ (createdReplays repeatedCalls True).Reachable c d ∧
      c.prog 1 = some ((repeatedCalls 1).run 1) ∧
      c.outcome 0 = some (.ok (some ⟨1, [⟨.integer 1, .integer 2⟩, ⟨.integer 1, .integer 1⟩], 300, .created⟩)) ∧
      d.outcome 1 ≠ none := by
    apply exists_reachable_later (S := createdMoves) (placeMoves 0) (List.replicate 8 (1, some .go))
    · change ∀ move ∈ (placeMoves 0), move.1 ≠ 1
      decide
    · decide
  obtain ⟨c, d, hc, hd, hlater, hok, hdone⟩ := hrun
  have hkept : KeyKept "retry" := keyKept_of_eq (by decide)
  exact ⟨c, d, _, hc, hd, hok, hdone, fun result hresult =>
    create_replays_response repeatedCalls seeded_nothingBound hc hkept rfl rfl hok hlater hd hresult⟩

def paidCalls : ℕ → ApiCall
  | 1 => .updateStatus 1 "paid"
  | _ => .create retriedInput "retry"

-- call 2 repeats call 0 after the order has been paid
theorem replay_after_payment : ∃ c d : ShopConfig ℕ (Option OrderResponse), ∃ response response',
    (ShopMachine ℕ).Reachable (.start .seeded fun t => (paidCalls t).run t) c ∧ (ShopMachine ℕ).Reachable c d ∧
      c.prog 2 = some ((paidCalls 2).run 2) ∧ c.outcome 0 = some (.ok (some response)) ∧
      d.outcome 2 = some (.ok (some response')) ∧ response' ≠ response := by
  let response : OrderResponse := ⟨1, [⟨.integer 1, .integer 2⟩, ⟨.integer 1, .integer 1⟩], 300, .created⟩
  have hrun := exists_reachable_later (S := withDatabaseMoves shopMoves .database)
    (c := .start ShopWorld.seeded fun t => (paidCalls t).run t) (t := 2)
    (P := fun c d => c.outcome 0 = some (.ok (some response)) ∧
      d.outcome 2 = some (.ok (some { response with status := .paid })))
    (placeMoves 0 ++ List.replicate 7 (1, some .go)) (List.replicate 8 (2, some .go)) (by decide) (by decide)
  obtain ⟨c, d, hc, hd, hlater, hfirst, hagain⟩ := hrun
  exact ⟨c, d, _, _, hc, hd, hlater, hfirst, hagain, by decide⟩

end Marketplace
