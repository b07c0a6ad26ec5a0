import Marketplace.CheckoutTransaction
import Marketplace.OrderLedger

namespace Marketplace

open Concurrent ReadCommitted

variable {T : Type}

inductive PriceWrite
  | update (productId : ℕ) (price : ℤ)
  | upsert (productId : ℕ) (row : ProductRow)

def PriceWrite.run : PriceWrite → ShopCall T Unit
  | .update productId price => do
    let _ ← Marketplace.update (Key.product productId) (fun _ => true) fun product => { product with price := price }
    pure ()
  | .upsert productId row => insertOrUpdate .database Row.valid (Key.product productId) row fun _ => row

def writePrices : List PriceWrite → ShopCall T Unit
  | [] => pure ()
  | write :: writes => do
    write.run
    writePrices writes

def changePrices (writes : List PriceWrite) : ShopCall T Unit := do
  begin
  tryCatch (do
    writePrices writes
    commit)
    (fun error => do
      rollback
      throw error)

inductive PricingCall
  | create (input : CreateOrderInput) (idempotencyKey : String)
  | checkout (input : CheckoutInput)
  | changePrices (writes : List PriceWrite)

def PricingCall.run (self : T) : PricingCall → ShopCall T Unit
  | .create input idempotencyKey => do
    let _ ← Marketplace.create self input idempotencyKey
    pure ()
  | .checkout input => do
    let _ ← Marketplace.checkout self input
    pure ()
  | .changePrices writes => Marketplace.changePrices writes

def storedTotal (stored : List (ℕ × OrderItemRow)) : ℤ := (stored.map fun s => s.2.quantity * s.2.unitPrice).sum

def TotalAgrees (tables : Tables T) (n : ℕ) (order : OrderRow T) : Prop :=
  ∃ stored, OrderItems tables n stored ∧ order.totalAmount = storedTotal stored

structure PriceLedger (tables : Tables T) : Prop where
  totals : ∀ n order t, tables (.order n) = some order → order.placedBy = some t → TotalAgrees tables n order
  items : ∀ id row, tables (.orderItem id) = some row → ∃ order, tables (.order row.orderId) = some order

namespace PriceLedger

variable {old new : Tables T}

theorem extend (h : PriceLedger old) {m : ℕ} {placed : OrderRow T} (hm : new (.order m) = some placed)
    (hfresh : old (.order m) = none) (horders : ∀ n ≠ m, new (.order n) = old (.order n))
    (htotal : TotalAgrees new m placed)
    (hkeep : ∀ id row, old (.orderItem id) = some row → new (.orderItem id) = some row)
    (hnew : ∀ id row, new (.orderItem id) = some row → old (.orderItem id) = some row ∨ row.orderId = m) :
    PriceLedger new := by
  constructor
  · intro n order t hn hby
    by_cases hne : n = m
    · subst hne
      rw [hm] at hn
      cases hn
      exact htotal
    · rw [horders n hne] at hn
      obtain ⟨stored, hstored, hsum⟩ := h.totals n order t hn hby
      exact ⟨stored, hstored.extend hkeep hnew hne, hsum⟩
  · intro id row hid
    rcases hnew id row hid with hold | rfl
    · obtain ⟨order, horder⟩ := h.items id row hold
      have hne : row.orderId ≠ m := by
        rintro rfl
        rw [hfresh] at horder
        cases horder
      exact ⟨order, (horders _ hne).trans horder⟩
    · exact ⟨placed, hm⟩

theorem congr (h : PriceLedger old) (horders : ∀ n, new (.order n) = old (.order n))
    (hitems : ∀ id, new (.orderItem id) = old (.orderItem id)) : PriceLedger new := by
  constructor
  · intro n order t hn hby
    obtain ⟨stored, hstored, hsum⟩ := h.totals n order t ((horders n).symm.trans hn) hby
    exact ⟨stored, ⟨hstored.sorted, fun id row => by rw [hstored.mem, hitems]⟩, hsum⟩
  · intro id row hid
    rw [horders]
    exact h.items id row ((hitems id).symm.trans hid)

theorem fresh_item (h : PriceLedger old) {m : ℕ} (hfresh : old (.order m) = none) :
    ∀ id row, old (.orderItem id) = some row → row.orderId ≠ m := by
  rintro id row hid rfl
  obtain ⟨order, horder⟩ := h.items id row hid
  rw [hfresh] at horder
  cases horder

theorem commit_checkout {t : T} {placed : PlacedCheckout} (h : PriceLedger old) (hc : placed.Committed t old new) :
    PriceLedger new := by
  refine h.extend hc.order hc.order_old hc.orders ⟨[(placed.itemId, placed.item)], ⟨?_, fun id row => ?_⟩, ?_⟩
    (fun _ _ => hc.keep_item) fun id row hid => (hc.item_cases hid).imp_right ?_
  · exact List.pairwise_singleton _ _
  · constructor
    · intro hmem
      obtain ⟨rfl, rfl⟩ := Prod.mk.inj (List.mem_singleton.mp hmem)
      exact ⟨hc.item, rfl⟩
    · rintro ⟨hid, hrow⟩
      rcases hc.item_cases hid with hold | ⟨rfl, rfl⟩
      · exact absurd hrow (h.fresh_item hc.order_old id row hold)
      · exact List.mem_singleton.mpr rfl
  · simp [storedTotal, PlacedCheckout.order, PlacedCheckout.totalAmount, PlacedCheckout.item, mul_comm]
  · rintro ⟨-, rfl⟩
    rfl

end PriceLedger

variable [DecidableEq T]

theorem stored_total {A : Allowed T} {C : T → ShopWorld T → ShopWorld T → Prop}
    {D : Discipline ((ShopMachine T).restrict A C)} {t : T} {items : List CreateOrderItemInput} {key : String}
    {S : PriceReads D t items key} {n : ℕ} {lines : List OrderLine} {stored : List (ℕ × OrderItemRow)}
    (hagree : ∀ p price price', S.agree p price price' → price = price') (h : List.Forall₂ (S.Stores n) lines stored) :
    storedTotal stored = linesTotal lines := by
  induction h with
  | nil => rfl
  | cons hs _ ih =>
    simp only [storedTotal, linesTotal, List.map_cons, List.sum_cons] at ih ⊢
    rw [ih, hs.quantity, hagree _ _ _ hs.price, mul_comm]

def priceOf (p : ℕ) (w : ShopWorld T) : Option ℤ := (w.db.committed (.product p)).map (·.price)

/-- A `create` call of `t` has read the price of product `p` for the total, on account of item `i`:
the statement comes after those that take the key and the buyer. -/
structure ReadForTotal (items : List CreateOrderItemInput) (key : String) (t : T) (i p : ℕ) (w : ShopWorld T) :
    Prop where
  product : items[i]?.map (·.productId) = some (.integer p)
  reserved : ∃ stored new, storedKey key = some stored ∧
    w.db.workspace t (.idempotencyKey stored) = some ⟨none, new⟩
  inProgress : (w.db.txn t).status = .inProgress
  read : 3 + i ≤ (w.db.txn t).command

-- it has read a price for the row of item `i`, once the order and the rows before are inserted
def ReadForRow (items : List CreateOrderItemInput) (t : T) (i : ℕ) (w : ShopWorld T) : Prop :=
  4 + items.length + 2 * i ≤ (w.db.txn t).command

structure BetweenReads (items : List CreateOrderItemInput) (key : String) (t : T) (i p : ℕ) (w : ShopWorld T) :
    Prop extends ReadForTotal items key t i p w where
  again : ¬ReadForRow items t i w

theorem ReadForRow.frame {items : List CreateOrderItemInput} {t : T} {i : ℕ} {w w' : ShopWorld T}
    (hf : w.db.Frame t w'.db) : ReadForRow items t i w' ↔ ReadForRow items t i w := by
  rw [ReadForRow, ReadForRow, hf.txn]

theorem ReadForTotal.frame {items : List CreateOrderItemInput} {key : String} {t : T} {i p : ℕ} {w w' : ShopWorld T}
    (h : ReadForTotal items key t i p w) (hf : w.db.Frame t w'.db) : ReadForTotal items key t i p w' := by
  refine ⟨h.product, ?_, ?_, ?_⟩
  · rw [hf.workspace]
    exact h.reserved
  · rw [hf.txn]
    exact h.inProgress
  · rw [hf.txn]
    exact h.read

-- no step changes the price of a product that a `create` call has read and will read again
def steadyShop (calls : T → PricingCall) :
    Machine T (ShopWorld T) (Action Serial Key (Row T) ShopOp) (Action.Res ShopOp.Res) Failure :=
  (ShopMachine T).restrict (fun _ _ w _ w' => ∀ t input key i p, calls t = .create input key →
    BetweenReads (input.items.getD []) key t i p w → priceOf p w' = priceOf p w) fun _ _ _ => True

section Discipline

variable (calls : T → PricingCall)

def priceLedger : Discipline (steadyShop calls) where
  inv w := PriceLedger w.db.committed
  always _ _ := True
  rely t w w' := ∀ input key i p, calls t = .create input key →
    BetweenReads (input.items.getD []) key t i p w → priceOf p w' = priceOf p w
  gone _ _ := True
  always_refl _ := trivial
  always_trans _ _ := trivial
  rely_refl _ _ _ _ _ _ _ _ := rfl
  rely_trans {t w w' w''} hf _ _ _ h h' input key i p hcall hb := by
    have hb' : BetweenReads (input.items.getD []) key t i p w' :=
      ⟨hb.toReadForTotal.frame hf.db, fun hrow => hb.again ((ReadForRow.frame hf.db).mp hrow)⟩
    exact (h' input key i p hcall hb').trans (h input key i p hcall hb)

theorem priceLedger_calm : Calm (priceLedger calls) := by
  apply Calm.of_committed
  · intro w w' hc _ hi
    simp only [priceLedger, hc] at hi ⊢
    exact hi
  · exact fun _ _ _ => trivial
  · intro t w w' hc input key i p _ _
    simp only [priceOf, hc]
  · exact fun _ _ => trivial

variable {calls}

omit [DecidableEq T] in
theorem priceOf_eq {p : ℕ} {w : ShopWorld T} {row : ProductRow} (h : w.db.committed (.product p) = some row) :
    priceOf p w = some row.price := by
  rw [priceOf, h]
  rfl

def steadyReads {t : T} {input : CreateOrderInput} {key : String} (ht : calls t = .create input key) :
    PriceReads (priceLedger calls) t (input.items.getD []) key where
  seen i p price w := ReadForTotal (input.items.getD []) key t i p w ∧
    (¬ReadForRow (input.items.getD []) t i w → priceOf p w = some price)
  agree _ price price' := price = price'
  kept i p price := by
    constructor
    · rintro w w' hi ⟨hread, hprice⟩ hs
      refine ⟨hread.frame hs.frame.db, fun hagain => ?_⟩
      rw [ReadForRow.frame hs.frame.db] at hagain
      rw [hs.rely input key i p ht ⟨hread, hagain⟩]
      exact hprice hagain
    · rintro w db hi ⟨hread, hprice⟩ hw
      obtain ⟨stored, new, hstored, hnew⟩ := hread.reserved
      obtain ⟨new', hnew'⟩ := hw.own _ _ hnew
      refine ⟨⟨hread.product, ⟨stored, new', hstored, hnew'⟩, hw.status.trans hread.inProgress,
        hread.read.trans hw.command⟩, fun hagain => ?_⟩
      simp only [priceOf, hw.committed]
      exact hprice fun hrow => hagain (Nat.le_trans hrow hw.command)
  first {ws w i p row} hi hat hkey hitem hrow _ := by
    refine ⟨⟨hitem, ?_, ?_, ?_⟩, fun _ => priceOf_eq hrow⟩
    · obtain ⟨stored, new, hstored, hnew⟩ := hkey
      exact ⟨stored, new, hstored, by rw [Database.workspace_setTxn, hat.workspace, hnew]⟩
    · rw [Database.txn_setTxn]
    · rw [Database.txn_setTxn]
      simp only
      omega
  second {ws w i p price row} hi hat hitem hrow hseen := by
    have hagain : ¬ReadForRow (input.items.getD []) t i w := by
      rw [ReadForRow, hat.txn]
      simp only
      omega
    have hprice := hseen.2 hagain
    rw [priceOf_eq hrow] at hprice
    exact (Option.some.inj hprice).symm

theorem allows_samePrices {t : T} {w : ShopWorld T} {db : Database T Serial Key (Row T)}
    (hi : PriceLedger db.committed) (hp : ∀ p, priceOf p ⟨db, w.env⟩ = priceOf p w) :
    (priceLedger calls).Allows t w ⟨db, w.env⟩ := ⟨hi, trivial, fun _ _ _ _ _ p _ _ => hp p⟩

def priceLedger_create {t : T} {input : CreateOrderInput} {key : String} (ht : calls t = .create input key) :
    CreateRules (priceLedger calls) t (input.items.getD []) key (fun _ => True) fun _ _ => True where
  calm := priceLedger_calm calls
  reads := steadyReads ht
  stable _ := .const
  failures _ _ := trivial
  bound _ _ _ _ := trivial
  starts hi := allows_samePrices hi fun _ => rfl
  replays {w row response c} hi hat _ := by
    have hsame := hat.committed_unchanged Workspace.set_empty_locked
    refine ⟨allows_samePrices ?_ fun p => ?_, trivial⟩
    · rw [hsame]
      exact hi
    · simp only [priceOf, hsame]
  places {w r} placed lines hi hat hp _ _ _ := by
    have hc := PlacedOrder.committed hat hp.sorted
    have horderId := stores_orderId hp.stored
    refine ⟨allows_samePrices (PriceLedger.extend hi hc.order hc.order_old hc.orders ⟨placed.items, ?_, ?_⟩
      (fun _ _ => hc.keep_item) fun id row hid => (hc.item_cases hid).imp_right (horderId _)) fun p => ?_, trivial⟩
    · exact orderItems_placed hc (PriceLedger.fresh_item hi hc.order_old) hp.sorted horderId
    · rw [hp.total, stored_total (fun _ _ _ h => h) hp.stored]
    · simp only [priceOf, hc.products]

theorem priceLedger_checkout (t : T) : CheckoutRules (priceLedger calls) t
    (fun _ => True) (fun _ => True) (fun _ _ => True) (fun _ _ => True) where
  calm := priceLedger_calm calls
  kept := .const
  broken := .const
  stable _ := .const
  published _ := .const
  fails _ _ := trivial
  starts hi _ := ⟨allows_samePrices hi fun _ => rfl, trivial⟩
  aborts _ _ := trivial
  commits {w r} placed hi hat _ _ _ _ _ := by
    have hc := PlacedCheckout.committed hat
    refine ⟨allows_samePrices (PriceLedger.commit_checkout hi hc) fun p => ?_, fun _ => trivial, fun _ => trivial⟩
    by_cases hp : p = placed.productId
    · subst hp
      simp only [priceOf, hc.product, hc.product_old]
      rfl
    · simp only [priceOf, hc.products p hp]
  publishes _ _ _ := publishOrderPlaced_spec (priceLedger_calm calls) (fun _ => True)
    { before := .const
      sent := .const
      confirmed := .const
      broken := .const
      sends := fun _ hi _ => ⟨⟨hi, trivial, fun _ _ _ _ _ _ _ _ => rfl⟩, trivial⟩
      confirms := fun _ hi _ => ⟨⟨hi, trivial, fun _ _ _ _ _ _ _ _ => rfl⟩, trivial⟩
      fails := fun _ _ _ _ _ _ => trivial }

def OnlyProducts (ws : Workspace Key (Row T)) : Prop := ∀ k, (∀ p, k ≠ .product p) → ws k = none

omit [DecidableEq T] in
theorem OnlyProducts.set {ws : Workspace Key (Row T)} (h : OnlyProducts ws) (p : ℕ) (ch : Change ProductRow) :
    OnlyProducts (ws.set (.product p) ch) := fun k hk => (Workspace.set_of_ne (hk p)).trans (h k hk)

theorem PriceWrite.run_spec {t : T} {ws : Workspace Key (Row T)} {c : ℕ} (hws : OnlyProducts ws) (write : PriceWrite) :
    (priceLedger calls).Triple t (fun w => At t ws c w ∧ True) write.run
      (fun _ w => ∃ ws', OnlyProducts ws' ∧ At t ws' (c + 1) w ∧ True) fun _ _ => True := by
  have hD := priceLedger_calm calls
  have hdone : (priceLedger calls).Stable t fun w => ∃ ws', OnlyProducts ws' ∧ At t ws' (c + 1) w ∧ True :=
    .exists fun _ => .and .const (At.stable.and .const)
  cases write with
  | update p price =>
    cases hk : ws (.product p) with
    | some ch =>
      refine .bind (updateWhere_own_spec hD .const .any hk rfl) fun _ => .pure hdone ?_
      rintro w - ⟨-, hat⟩
      exact ⟨_, hws.set p _, hat⟩
    | none =>
      refine .bind (updateWhere_spec hD .const .any hk (G := fun _ _ => True) (fun _ => .const)
        fun _ _ _ _ _ _ => trivial) fun updated => .pure hdone ?_
      rintro w - h
      cases updated with
      | some new =>
        obtain ⟨old, -, hat, -⟩ := h
        exact ⟨_, hws.set p _, hat, trivial⟩
      | none =>
        obtain ⟨ws', rfl | ⟨x, rfl⟩, hat⟩ := h
        · exact ⟨_, hws, hat⟩
        · exact ⟨_, hws.set p _, hat⟩
  | upsert p row =>
    apply (insertOrUpdate_spec hD .const .any).conseq (fun _ _ h => h) _ fun _ _ _ h => h
    rintro _ w - ⟨ch, -, hat⟩
    exact ⟨_, hws.set p ch, hat⟩

theorem writePrices_spec {t : T} {ws : Workspace Key (Row T)} {c : ℕ} (hws : OnlyProducts ws)
    (writes : List PriceWrite) :
    (priceLedger calls).Triple t (fun w => At t ws c w ∧ True) (writePrices writes)
      (fun _ w => ∃ ws' c', OnlyProducts ws' ∧ At t ws' c' w ∧ True) fun _ _ => True := by
  induction writes generalizing ws c with
  | nil =>
    refine .pure (.exists fun _ => .exists fun _ => .and .const (At.stable.and .const)) ?_
    exact fun w _ h => ⟨ws, c, hws, h⟩
  | cons write writes ih =>
    refine .bind (write.run_spec hws) fun _ => .exists_pre fun ws' => .pure_pre fun hws' => ?_
    exact ih hws'

theorem changePrices_spec (t : T) (writes : List PriceWrite) :
    (priceLedger calls).Triple t (fun w => w.db.workspace t = Workspace.empty) (changePrices writes)
      (fun _ _ => True) fun _ _ => True := by
  have hD := priceLedger_calm calls
  have hstart := begin_spec (D := priceLedger calls) (t := t) (F := fun _ => True) (Y := fun _ _ => True) hD .const
    (fun w hi _ => ⟨allows_samePrices hi fun _ => rfl, trivial⟩) (fun _ _ _ => trivial) fun _ => .const
  refine (Discipline.Triple.bind hstart fun _ => ?_).pre fun w _ h => ⟨h, trivial⟩
  refine Discipline.Triple.handle (Y := fun _ _ => True) ?_ fun error =>
    rollback_throw_spec hD .const error (fun _ => .const) fun _ _ _ => ⟨trivial, trivial⟩
  refine .bind (writePrices_spec (fun _ _ => rfl) writes) fun _ => .exists_pre fun ws => .exists_pre fun c =>
    .pure_pre fun hws => ?_
  refine commit_spec hD .const (.const trivial) .const fun w r hi hat _ ha => ?_
  have hsame {k : Key} (hk : ∀ p, k ≠ .product p) : (w.db.commit t).committed k = w.db.committed k := by
    rw [hat.committed_commit]
    exact Workspace.onto_of_none (hws k hk)
  refine ⟨⟨PriceLedger.congr hi (fun n => hsame (by simp)) fun id => hsame (by simp), trivial, fun t' _ => ?_⟩,
    fun _ => trivial, fun _ => trivial⟩
  exact ha t'

theorem PricingCall.run_spec (t : T) : (priceLedger calls).Triple t
    (fun w => w.db.workspace t = Workspace.empty) ((calls t).run t) (fun _ _ => True) fun _ _ => True := by
  cases hcall : calls t with
  | create input key =>
    refine .bind (create_spec (priceLedger_create hcall)) fun _ => ?_
    exact .pure .const fun _ _ _ => trivial
  | checkout input =>
    refine .bind ((checkout_spec (priceLedger_checkout t) input).pre fun w _ h => ⟨h, trivial⟩) fun _ => ?_
    exact .pure .const fun _ _ _ => trivial
  | changePrices writes => exact changePrices_spec t writes

end Discipline

structure NothingTotaled (w : ShopWorld T) : Prop where
  quiescent : w.db.Quiescent
  orders : ∀ n order, w.db.committed (.order n) = some order → order.placedBy = none
  items : ∀ id row, w.db.committed (.orderItem id) = some row →
    ∃ order, w.db.committed (.order row.orderId) = some order

theorem order_total_agrees (calls : T → PricingCall) {w : ShopWorld T} (hw : NothingTotaled w)
    {c : ShopConfig T Unit} (h : (steadyShop calls).Reachable (.start w fun t => (calls t).run t) c)
    {n : ℕ} {order : OrderRow T} {t : T} (hn : c.shared.db.committed (.order n) = some order)
    (hby : order.placedBy = some t) : TotalAgrees c.shared.db.committed n order := by
  have hi : PriceLedger w.db.committed := by
    refine ⟨fun n order t hn hby => ?_, hw.items⟩
    rw [hw.orders n order hn] at hby
    cases hby
  obtain ⟨hledger, -⟩ := Discipline.run_holds (D := priceLedger calls) hi hw.quiescent.workspace
    PricingCall.run_spec h
  exact hledger.totals n order t hn hby

def steadyCalls : ℕ → PricingCall
  | 0 => .create retriedInput "steady"
  | 1 => .changePrices [.update 1 200]
  | _ => .checkout ⟨1, 1, .integer 2⟩

-- the price changes before call 0 starts
def steadySchedule : List (ℕ × Option (DatabaseMove ShopMove)) :=
  List.replicate 5 (1, some .go) ++ List.replicate 17 (0, some .go) ++ List.replicate 2 (0, some (.ext (.ok 5))) ++
    List.replicate 8 (0, some .go) ++ List.replicate 17 (2, some .go) ++ List.replicate 5 (2, some (.ext (.ok 6)))

@[reducible] def steadyMoves : Moves (steadyShop steadyCalls) :=
  (withDatabaseMoves shopMoves .database).restrict
    (fun _ _ w _ w' => priceOf 1 w' = priceOf 1 w || (w.db.txn 0).command = 0) (by
      intro _ _ w _ w' htest t input key i p hcall hb
      rcases t with _ | _ | t
      · cases hcall
        have hp : p = 1 := by
          have hproduct := hb.product
          rcases i with _ | _ | i
          · exact (Int.ofNat_inj.mp (JsNumber.integer.inj (Option.some.inj hproduct))).symm
          · exact (Int.ofNat_inj.mp (JsNumber.integer.inj (Option.some.inj hproduct))).symm
          · cases hproduct
        have hread := hb.read
        subst hp
        simp only [Bool.or_eq_true, decide_eq_true_eq] at htest
        rcases htest with hsame | hidle
        · exact hsame
        · omega
      · cases hcall
      · cases hcall)

omit [DecidableEq T] in
theorem seeded_nothingTotaled : NothingTotaled (ShopWorld.seeded (T := T)) where
  quiescent := ⟨fun _ => rfl, fun _ => rfl⟩
  orders _ _ h := nomatch h
  items _ _ h := nomatch h

theorem order_total_agrees_steady : ∃ c : ShopConfig ℕ Unit, ∃ first second : OrderRow ℕ,
    (steadyShop steadyCalls).Reachable (.start .seeded fun t => (steadyCalls t).run t) c ∧
      (c.shared.db.committed (.order 1) = some first ∧ c.shared.db.committed (.order 2) = some second) ∧
      TotalAgrees c.shared.db.committed 1 first ∧ TotalAgrees c.shared.db.committed 2 second := by
  have hrun : ∃ c : ShopConfig ℕ Unit, (steadyShop steadyCalls).Reachable
      (.start .seeded fun t => (steadyCalls t).run t) c ∧
      c.shared.db.committed (.order 1) = some ⟨1, .created, 600, some 0⟩ ∧
      c.shared.db.committed (.order 2) = some ⟨1, .created, 400, some 2⟩ := by
    apply exists_reachable (S := steadyMoves) steadySchedule
    decide
  obtain ⟨c, hc, hfirst, hsecond⟩ := hrun
  exact ⟨c, _, _, hc, ⟨hfirst, hsecond⟩, order_total_agrees steadyCalls seeded_nothingTotaled hc hfirst rfl,
    order_total_agrees steadyCalls seeded_nothingTotaled hc hsecond rfl⟩

omit [DecidableEq T] in
theorem OrderItems.eq_singleton {tables : Tables T} {n : ℕ} {stored : List (ℕ × OrderItemRow)}
    {x : ℕ × OrderItemRow} (h : OrderItems tables n stored) (hx : x ∈ stored) (hall : ∀ s ∈ stored, s = x) :
    stored = [x] := by
  have hsorted := h.sorted
  match stored with
  | [] => cases hx
  | [s] => rw [hall s (by simp)]
  | s :: s' :: rest =>
    have hlt := (List.pairwise_cons.mp hsorted).1 s' (by simp)
    rw [hall s (by simp), hall s' (by simp)] at hlt
    exact absurd hlt (Nat.lt_irrefl _)

def repricedCalls : ℕ → PricingCall
  | 0 => .create ⟨some [⟨.integer 1, .integer 1⟩]⟩ "repriced"
  | _ => .changePrices [.update 1 200]

-- the price changes after call 0 has read it for the total
def repricedSchedule : List (ℕ × Option (DatabaseMove ShopMove)) :=
  List.replicate 5 (0, some .go) ++ List.replicate 5 (1, some .go) ++ List.replicate 7 (0, some .go) ++
    List.replicate 2 (0, some (.ext (.ok 5))) ++ List.replicate 8 (0, some .go)

theorem order_total_repriced : ∃ c : ShopConfig ℕ Unit,
    (ShopMachine ℕ).Reachable (.start .seeded fun t => (repricedCalls t).run t) c ∧
      ∃ n order t, c.shared.db.committed (.order n) = some order ∧ order.placedBy = some t ∧
      ¬TotalAgrees c.shared.db.committed n order := by
  apply exists_reachable (S := withDatabaseMoves shopMoves .database) repricedSchedule
  refine ⟨_, rfl, 1, ⟨1, .created, 100, some 0⟩, 0, rfl, rfl, ?_⟩
  rintro ⟨stored, hstored, hsum⟩
  have hmem := (hstored.mem 1 ⟨1, 1, 1, 200⟩).mpr ⟨rfl, rfl⟩
  have hall : ∀ s ∈ stored, s = (1, ⟨1, 1, 1, 200⟩) := by
    rintro ⟨id, row⟩ hs
    obtain ⟨hid, -⟩ := (hstored.mem id row).mp hs
    rcases id with _ | _ | id
    · cases hid
    · cases hid
      rfl
    · cases hid
  rw [hstored.eq_singleton hmem hall] at hsum
  cases hsum

end Marketplace
