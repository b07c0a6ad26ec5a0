import Mathlib.Data.Fintype.Card
import Marketplace.StockLedger

namespace Marketplace

open Concurrent ReadCommitted

variable {T : Type}

/-- Products and users stay and their prices do too, while what they have gets less. -/
structure Declines (old new : Tables T) : Prop where
  products : ∀ p row, new (.product p) = some row →
    ∃ row', old (.product p) = some row' ∧ row.price = row'.price ∧ row.stockQuantity ≤ row'.stockQuantity
  users : ∀ u row, new (.user u) = some row → ∃ row', old (.user u) = some row' ∧ row.balance ≤ row'.balance

theorem Declines.refl (tables : Tables T) : Declines tables tables :=
  ⟨fun _ row h => ⟨row, h, rfl, le_rfl⟩, fun _ row h => ⟨row, h, le_rfl⟩⟩

theorem Declines.trans {old new newer : Tables T} (h : Declines old new) (h' : Declines new newer) :
    Declines old newer := by
  constructor
  · intro p row hrow
    obtain ⟨row', hrow', hprice, hstock⟩ := h'.products p row hrow
    obtain ⟨row'', hrow'', hprice', hstock'⟩ := h.products p row' hrow'
    exact ⟨row'', hrow'', hprice.trans hprice', hstock.trans hstock'⟩
  · intro u row hrow
    obtain ⟨row', hrow', hbalance⟩ := h'.users u row hrow
    obtain ⟨row'', hrow'', hbalance'⟩ := h.users u row' hrow'
    exact ⟨row'', hrow'', hbalance.trans hbalance'⟩

structure PlacedSale (initial tables : Tables T) (input : CheckoutInput) (n : ℕ) (order : OrderRow T) : Prop where
  user : order.userId = input.userId
  sold : ∃ id item product quantity, tables (.orderItem id) = some item ∧ item.orderId = n ∧
    item.productId = input.productId ∧ input.quantity = .integer quantity ∧ item.quantity = quantity ∧
    initial (.product input.productId) = some product ∧ order.totalAmount = product.price * quantity

structure SalesLedger (initial : Tables T) (input : T → CheckoutInput) (w : ShopWorld T) : Prop where
  conserved : Conserved initial w.db.committed w.db.seq
  declines : Declines initial w.db.committed
  sales : ∀ n order t, w.db.committed (.order n) = some order → order.placedBy = some t →
    PlacedSale initial w.db.committed (input t) n order

section Commit

variable {placed : PlacedCheckout} {t : T} {initial old new : Tables T}

theorem Declines.commit (hc : placed.Committed t old new) (hpos : 0 < placed.quantity)
    (hprice : 0 < placed.product.price) : Declines old new := by
  have htotal : 0 ≤ placed.totalAmount := Int.mul_nonneg (Int.le_of_lt hprice) (Int.le_of_lt hpos)
  constructor
  · intro p row hrow
    by_cases hp : p = placed.productId
    · subst hp
      rw [hc.product] at hrow
      cases hrow
      refine ⟨_, hc.product_old, rfl, ?_⟩
      simp only [PlacedCheckout.newProduct]
      omega
    · exact ⟨row, (hc.products p hp).symm.trans hrow, rfl, le_rfl⟩
  · intro u row hrow
    by_cases hu : u = placed.userId
    · subst hu
      rw [hc.user] at hrow
      cases hrow
      refine ⟨_, hc.user_old, ?_⟩
      simp only [PlacedCheckout.newUser]
      omega
    · exact ⟨row, (hc.users u hu).symm.trans hrow, le_rfl⟩

theorem PlacedSale.commit {input : CheckoutInput} {n : ℕ} {order : OrderRow T}
    (h : PlacedSale initial old input n order) (hc : placed.Committed t old new) :
    PlacedSale initial new input n order := by
  obtain ⟨huser, id, item, product, quantity, hid, hsale⟩ := h
  exact ⟨huser, id, item, product, quantity, hc.keep_item hid, hsale⟩

theorem sale_commit {input : CheckoutInput} {quantity : ℤ} (hd : Declines initial old)
    (hinput : input.quantity = .integer quantity) (hof : placed.Of input quantity)
    (hc : placed.Committed t old new) : PlacedSale initial new input placed.orderId (placed.order t) := by
  obtain ⟨product, hproduct, hprice, -⟩ := hd.products _ _ hc.product_old
  refine ⟨hof.user, placed.itemId, placed.item, product, quantity, hc.item, rfl, hof.product, hinput, hof.quantity,
    hof.product ▸ hproduct, ?_⟩
  rw [← hprice, ← hof.quantity]
  rfl

end Commit

variable [DecidableEq T]

def salesDiscipline (initial : Tables T) (input : T → CheckoutInput) : Discipline (ShopMachine T).unrestricted where
  inv := SalesLedger initial input
  always w w' := Declines w.db.committed w'.db.committed
  rely t w w' := ∀ n order, order.placedBy = some t →
    (w'.db.committed (.order n) = some order ↔ w.db.committed (.order n) = some order)
  gone _ _ := True
  always_refl _ := .refl _
  always_trans := .trans
  rely_refl _ _ _ _ _ := .rfl
  rely_trans _ _ _ _ h h' := by
    intro n order hby
    exact (h' n order hby).trans (h n order hby)

section Rules

variable {initial : Tables T} {input : T → CheckoutInput} {t : T}

theorem salesDiscipline_allows {w w' : ShopWorld T} (hi : SalesLedger initial input w')
    (hc : w'.db.committed = w.db.committed) : (salesDiscipline initial input).Allows t w w' := by
  refine ⟨hi, ?_, fun _ _ _ _ _ => by rw [hc]⟩
  simp only [salesDiscipline, hc]
  exact .refl _

theorem salesDiscipline_calm (initial : Tables T) (input : T → CheckoutInput) :
    Calm (salesDiscipline initial input) := by
  apply Calm.of_committed
  · intro w w' hc hseq hi
    refine ⟨?_, ?_, ?_⟩
    · rw [hc]
      exact hi.conserved.extend hseq
    · rw [hc]
      exact hi.declines
    · rw [hc]
      exact hi.sales
  · intro w w' hc
    simp only [salesDiscipline, hc]
    exact .refl _
  · exact fun _ _ _ hc _ _ _ => by rw [hc]
  · exact fun _ _ => trivial

def Unsold (t : T) (w : ShopWorld T) : Prop :=
  ∀ n order, w.db.committed (.order n) = some order → order.placedBy ≠ some t

def SoldOnce (t : T) (n : ℕ) (w : ShopWorld T) : Prop :=
  (∃ order, w.db.committed (.order n) = some order ∧ order.placedBy = some t) ∧
    ∀ m order, w.db.committed (.order m) = some order → order.placedBy = some t → m = n

theorem unsold_kept (t : T) : Kept (salesDiscipline initial input) t (Unsold t) where
  stable _ _ _ h hs n order hn hby := h n order ((hs.rely n order hby).mp hn) hby
  works _ h hw n order hn := h n order (by rw [← hw.committed]; exact hn)

theorem soldOnce_stable (t : T) (n : ℕ) : (salesDiscipline initial input).Stable t (SoldOnce t n) := by
  rintro w w' _ ⟨⟨order, hn, hby⟩, honly⟩ hs
  exact ⟨⟨order, (hs.rely n order hby).mpr hn, hby⟩,
    fun m order' hm hby' => honly m order' ((hs.rely m order' hby').mp hm) hby'⟩

def Short (p : ℕ) (quantity : ℤ) (w : ShopWorld T) : Prop :=
  ∀ row, w.db.committed (.product p) = some row → row.stockQuantity < quantity

def Poor (u : ℕ) (total : ℤ) (w : ShopWorld T) : Prop :=
  ∀ row, w.db.committed (.user u) = some row → row.balance < total

theorem kept_of_declines {F : ShopWorld T → Prop}
    (hF : ∀ w w', Declines w.db.committed w'.db.committed → F w → F w') :
    Kept (salesDiscipline initial input) t F where
  stable _ _ _ h hs := hF _ _ hs.always h
  works _ h hw := by
    refine hF _ _ ?_ h
    simp only [hw.committed]
    exact .refl _

theorem short_kept (p : ℕ) (quantity : ℤ) : Kept (salesDiscipline initial input) t (Short p quantity) := by
  refine kept_of_declines fun w w' hd h row hrow => ?_
  obtain ⟨row', hrow', -, hstock⟩ := hd.products p row hrow
  exact Int.lt_of_le_of_lt hstock (h row' hrow')

theorem poor_kept (u : ℕ) (total : ℤ) : Kept (salesDiscipline initial input) t (Poor u total) := by
  refine kept_of_declines fun w w' hd h row hrow => ?_
  obtain ⟨row', hrow', hbalance⟩ := hd.users u row hrow
  exact Int.lt_of_le_of_lt hbalance (h row' hrow')

def Refused (initial : Tables T) (t : T) (input : CheckoutInput) (e : Failure) (w : ShopWorld T) : Prop :=
  (e ≠ .database → e ≠ .broker → Unsold t w) ∧
  (e = insufficientStock → ∀ quantity, input.quantity = .integer quantity → Short input.productId quantity w) ∧
  (e = insufficientBalance → ∀ quantity, input.quantity = .integer quantity →
    ∃ product, initial (.product input.productId) = some product ∧ Poor input.userId (product.price * quantity) w)

theorem refused_stable (input' : CheckoutInput) (e : Failure) :
    (salesDiscipline initial input).Stable t (Refused initial t input' e) := by
  rintro w w' hi ⟨hunsold, hstock, hbalance⟩ hs
  refine ⟨fun hdb hbroker => (unsold_kept t).stable _ _ hi (hunsold hdb hbroker) hs, fun he quantity hq =>
    (short_kept _ _).stable _ _ hi (hstock he quantity hq) hs, fun he quantity hq => ?_⟩
  obtain ⟨product, hproduct, hpoor⟩ := hbalance he quantity hq
  exact ⟨product, hproduct, (poor_kept _ _).stable _ _ hi hpoor hs⟩

omit [DecidableEq T] in
theorem refused_of_unsold {input' : CheckoutInput} {e : Failure} {w : ShopWorld T} (h : Unsold t w)
    (hstock : e ≠ insufficientStock) (hbalance : e ≠ insufficientBalance) : Refused initial t input' e w :=
  ⟨fun _ _ => h, fun he => absurd he hstock, fun he => absurd he hbalance⟩

theorem refused_rollback {input' : CheckoutInput} {e : Failure} {w : ShopWorld T} (h : Refused initial t input' e w) :
    Refused initial t input' e ⟨w.db.rollback t, w.env⟩ := by
  have hsame : (w.db.rollback t).committed = w.db.committed := Database.committed_rollback
  simp only [Refused, Unsold, Short, Poor, hsame]
  exact h

theorem salesDiscipline_refusals {input' : CheckoutInput} {quantity : ℤ}
    (hinput : input'.quantity = .integer quantity) :
    ∃ short taken poor, RefusalRules (salesDiscipline initial input) t input' quantity (Unsold t) short taken poor
      (Refused initial t input') := by
  refine ⟨Short input'.productId quantity,
    fun row _ => ∃ product, initial (.product input'.productId) = some product ∧ product.price = row.price,
    Poor input'.userId,
    { short := short_kept _ _
      product := fun _ => .const
      poor := fun _ => poor_kept _ _
      lacks := fun _ _ h => h
      takes := fun {w row} hi _ hrow => ?_
      owes := fun _ _ _ _ h => h
      refusesStock := fun _ hunsold h => ⟨fun _ _ => hunsold, fun _ quantity' hq => ?_, fun he => absurd he (by decide)⟩
      refusesBalance := fun _ hunsold ⟨product, hproduct, hprice⟩ hpoor =>
        ⟨fun _ _ => hunsold, fun he => absurd he (by decide), fun _ quantity' hq => ?_⟩ }⟩
  · obtain ⟨product, hproduct, hprice, -⟩ := hi.declines.products _ row hrow
    exact ⟨product, hproduct, hprice.symm⟩
  · cases hinput.symm.trans hq
    exact h
  · cases hinput.symm.trans hq
    exact ⟨product, hproduct, hprice ▸ hpoor⟩

theorem salesDiscipline_steps (hprice : ∀ p row, initial (.product p) = some row → 0 < row.price) :
    CheckoutSteps (salesDiscipline initial input) t (input t) (Unsold t) (Refused initial t (input t))
      (fun result => SoldOnce t result.orderId) fun result => SoldOnce t result.orderId where
  calm := salesDiscipline_calm initial input
  kept := unsold_kept t
  broken := refused_stable (input t)
  stable result := soldOnce_stable t result.orderId
  published result := soldOnce_stable t result.orderId
  fails _ h := refused_of_unsold h (by decide) (by decide)
  rejects _ h := refused_of_unsold h (by decide) (by decide)
  refuses _ := salesDiscipline_refusals
  starts hi h := ⟨salesDiscipline_allows ⟨hi.conserved, hi.declines, hi.sales⟩ rfl, h⟩
  aborts _ h :=
    ⟨refused_rollback h, fun hdb => absurd rfl hdb, fun he => absurd he (by decide), fun he => absurd he (by decide)⟩
  commits {w r quantity} placed hinput hof hi hat hunsold hpos horder hitem _ := by
    have hc := PlacedCheckout.committed hat
    obtain ⟨product, hproduct, hsame, -⟩ := hi.declines.products _ _ hc.product_old
    have hdeclines := Declines.commit hc hpos (by rw [hsame]; exact hprice _ _ hproduct)
    have hconserved := hi.conserved.commit hc horder hitem
    refine ⟨⟨⟨?_, hi.declines.trans hdeclines, fun n order t' hn hby => ?_⟩, hdeclines, fun t' hne n order hby => ?_⟩,
      fun _ => ⟨⟨_, hc.order, rfl⟩, fun m order hm hby => ?_⟩,
      fun _ => ⟨fun hdb => absurd rfl hdb, fun he => absurd he (by decide), fun he => absurd he (by decide)⟩⟩
    · simp only [Database.seq_commit]
      exact hconserved
    · rcases hc.order_cases hn with hold | ⟨rfl, rfl⟩
      · exact (hi.sales n order t' hold hby).commit hc
      · cases hby
        exact sale_commit hi.declines hinput hof hc
    · by_cases hn : n = placed.orderId
      · subst hn
        rw [hc.order, hc.order_old]
        refine ⟨fun h => ?_, fun h => nomatch h⟩
        cases h
        exact absurd (Option.some.inj hby) hne
      · rw [hc.orders n hn]
    · rcases hc.order_cases hm with hold | ⟨rfl, -⟩
      · exact absurd hby (hunsold m order hold)
      · rfl
  publishes quantity result occurredAt _ := by
    have hrules : PublishRules (salesDiscipline initial input) t
        (.event (createOrderPlacedEvent (input t) quantity result occurredAt)) (SoldOnce t result.orderId)
        (SoldOnce t result.orderId) (SoldOnce t result.orderId) fun _ => True :=
      { before := soldOnce_stable t result.orderId
        sent := soldOnce_stable t result.orderId
        confirmed := soldOnce_stable t result.orderId
        broken := .const
        sends := fun _ hi h => ⟨salesDiscipline_allows ⟨hi.conserved, hi.declines, hi.sales⟩ rfl, h⟩
        confirms := fun _ hi h => ⟨salesDiscipline_allows ⟨hi.conserved, hi.declines, hi.sales⟩ rfl, h⟩
        fails := fun _ _ _ _ _ _ => trivial }
    have hspec := publishOrderPlaced_broker_spec (salesDiscipline_calm initial input) (SoldOnce t result.orderId) hrules
    refine hspec.conseq (fun _ _ h => h) (fun _ _ _ h => h) ?_
    rintro e w - ⟨rfl, -⟩
    exact ⟨fun _ hbroker => absurd rfl hbroker, fun he => absurd he (by decide), fun he => absurd he (by decide)⟩

end Rules

def CheckoutInput.units (input : CheckoutInput) : ℤ :=
  match input.quantity with
  | .integer quantity => quantity
  | .other => 0

def listedPrice (tables : Tables T) (p : ℕ) : ℤ :=
  match tables (.product p) with
  | some product => product.price
  | none => 0

def succeeded [Fintype T] {α : Type} (c : ShopConfig T α) : Finset T :=
  Finset.univ.filter fun t => (c.outcome t).any isOk

omit [DecidableEq T] in
theorem mem_succeeded [Fintype T] {α : Type} {c : ShopConfig T α} {t : T} :
    t ∈ succeeded c ↔ ∃ a, c.outcome t = some (.ok a) := by
  simp only [succeeded, Finset.mem_filter, Finset.mem_univ, true_and, Option.any_eq_true, isOk_iff]
  constructor
  · rintro ⟨r, hr, a, rfl⟩
    exact ⟨a, hr⟩
  · rintro ⟨a, ha⟩
    exact ⟨_, ha, a, rfl⟩

def AllAnswered {α : Type} (c : ShopConfig T α) : Prop :=
  ∀ t, (∃ a, c.outcome t = some (.ok a)) ∨ ∃ e, c.outcome t = some (.error e) ∧ e ≠ .database ∧ e ≠ .broker

section Results

variable {input : T → CheckoutInput} {w : ShopWorld T} (hw : NothingCheckedOut w) {c : ShopConfig T CheckoutResult}
  (h : (ShopMachine T).Reachable (.start w fun t => checkout t (input t)) c)

include hw h

theorem sales_reachable : SalesLedger w.db.committed input c.shared ∧
    (∀ t result, c.outcome t = some (.ok result) → SoldOnce t result.orderId c.shared) ∧
    ∀ t e, c.outcome t = some (.error e) → Refused w.db.committed t (input t) e c.shared := by
  have hprice (p : ℕ) (row : ProductRow) (hrow : w.db.committed (.product p) = some row) : 0 < row.price := by
    have hvalid := hw.valid _ _ hrow
    simp only [Row.valid, Bool.and_eq_true, decide_eq_true_eq] at hvalid
    exact hvalid.1.1.2
  have hsales : SalesLedger w.db.committed input w := by
    refine ⟨hw.conserved, .refl _, fun n order t hn hby => ?_⟩
    rw [hw.orders n order hn] at hby
    cases hby
  have hstart (t : T) : w.db.workspace t = Workspace.empty ∧ Unsold t w := by
    refine ⟨hw.quiescent.workspace t, fun n order hn => ?_⟩
    rw [hw.orders n order hn]
    intro hby
    cases hby
  obtain ⟨hinv, hdone, -⟩ := Discipline.run_holds (D := salesDiscipline w.db.committed input) hsales hstart
    (fun t => checkout_steps_spec (salesDiscipline_steps hprice)) h.unrestricted
  exact ⟨hinv, fun t result => hdone t (.ok result), fun t e => hdone t (.error e)⟩

/-- A checkout is refused only for what is not there, at that time or later. -/
theorem refused_checkouts_lack {t : T} {quantity : ℤ} (hquantity : (input t).quantity = .integer quantity) :
    (c.outcome t = some (.error insufficientStock) →
      ∀ row, c.shared.db.committed (.product (input t).productId) = some row → row.stockQuantity < quantity) ∧
      (c.outcome t = some (.error insufficientBalance) →
      ∃ product, w.db.committed (.product (input t).productId) = some product ∧
      ∀ row, c.shared.db.committed (.user (input t).userId) = some row → row.balance < product.price * quantity) := by
  obtain ⟨-, -, hrefused⟩ := sales_reachable hw h
  exact ⟨fun hr => (hrefused t _ hr).2.1 rfl quantity hquantity, fun hr => (hrefused t _ hr).2.2 rfl quantity hquantity⟩

theorem sold_once {t : T} {result : CheckoutResult} (hr : c.outcome t = some (.ok result)) :
    ∃ order id item, c.shared.db.committed (.order result.orderId) = some order ∧ order.placedBy = some t ∧
      order.userId = (input t).userId ∧
      order.totalAmount = listedPrice w.db.committed (input t).productId * (input t).units ∧
      c.shared.db.committed (.orderItem id) = some item ∧ item.orderId = result.orderId ∧
      item.productId = (input t).productId ∧ item.quantity = (input t).units := by
  obtain ⟨hinv, hdone, -⟩ := sales_reachable hw h
  obtain ⟨⟨order, hn, hby⟩, -⟩ := hdone t result hr
  obtain ⟨huser, id, item, product, quantity, hid, horderId, hproductId, hquantity, hsold, hproduct, htotal⟩ :=
    hinv.sales _ order t hn hby
  have hunits : (input t).units = quantity := by simp only [CheckoutInput.units, hquantity]
  have hprice : listedPrice w.db.committed (input t).productId = product.price := by simp only [listedPrice, hproduct]
  exact ⟨order, id, item, hn, hby, huser, by rw [hunits, hprice, htotal], hid, horderId, hproductId,
    hsold.trans hunits.symm⟩

theorem placed_succeeded (hc : AllAnswered c) {n : ℕ} {order : OrderRow T} {t : T}
    (hn : c.shared.db.committed (.order n) = some order) (hby : order.placedBy = some t) :
    ∃ result, c.outcome t = some (.ok result) ∧ n = result.orderId := by
  obtain ⟨-, hdone, hrefused⟩ := sales_reachable hw h
  rcases hc t with ⟨result, hr⟩ | ⟨e, hr, hdb, hbroker⟩
  · exact ⟨result, hr, (hdone t result hr).2 n order hn hby⟩
  · exact absurd hby ((hrefused t e hr).1 hdb hbroker n order hn)

variable [Fintype T] (hc : AllAnswered c)

include hc

theorem totalSpent_eq (u : ℕ) : totalSpent c.shared.db.committed c.shared.db.seq u =
    ∑ t ∈ succeeded c,
      if (input t).userId = u then listedPrice w.db.committed (input t).productId * (input t).units else 0 := by
  obtain ⟨hinv, -, -⟩ := sales_reachable hw h
  have hsales (t : T) : ∃ n, t ∈ succeeded c → ∃ order, c.shared.db.committed (.order n) = some order ∧
      order.placedBy = some t ∧ order.userId = (input t).userId ∧
      order.totalAmount = listedPrice w.db.committed (input t).productId * (input t).units := by
    by_cases ht : t ∈ succeeded c
    · obtain ⟨result, hr⟩ := mem_succeeded.mp ht
      obtain ⟨order, -, -, hn, hby, huser, htotal, -⟩ := sold_once hw h hr
      exact ⟨_, fun _ => ⟨order, hn, hby, huser, htotal⟩⟩
    · exact ⟨0, fun h => absurd h ht⟩
  choose number hsales using hsales
  symm
  refine Finset.sum_of_injOn number ?_ ?_ ?_ ?_
  · intro t ht t' ht' hsame
    obtain ⟨order, hn, hby, -⟩ := hsales t ht
    obtain ⟨order', hn', hby', -⟩ := hsales t' ht'
    rw [hsame, hn'] at hn
    cases hn
    exact Option.some.inj (hby.symm.trans hby')
  · intro t ht
    obtain ⟨order, hn, hby, -⟩ := hsales t ht
    exact Finset.mem_coe.mpr (Finset.mem_range.mpr (hinv.conserved.orders _ order t hn hby).1)
  · intro n _ hnone
    by_contra hne
    unfold spent at hne
    split at hne
    · rename_i order hn
      split_ifs at hne with hu
      · obtain ⟨t, hby⟩ := Option.isSome_iff_exists.mp hu.2
        obtain ⟨result, hr, rfl⟩ := placed_succeeded hw h hc hn hby
        have ht := mem_succeeded.mpr ⟨result, hr⟩
        obtain ⟨order', hn', hby', -⟩ := hsales t ht
        obtain ⟨result', hr', hsame⟩ := placed_succeeded hw h hc hn' hby'
        cases hr.symm.trans hr'
        exact hnone ⟨t, ht, hsame⟩
      · exact hne rfl
    · exact hne rfl
  · intro t ht
    obtain ⟨order, hn, hby, huser, htotal⟩ := hsales t ht
    simp only [spent, hn, hby, huser, Option.isSome_some, and_true, htotal]

theorem totalSold_eq (p : ℕ) : totalSold c.shared.db.committed c.shared.db.seq p =
    ∑ t ∈ succeeded c, if (input t).productId = p then (input t).units else 0 := by
  obtain ⟨hinv, -, -⟩ := sales_reachable hw h
  have hsales (t : T) : ∃ id, t ∈ succeeded c → ∃ item order, c.shared.db.committed (.orderItem id) = some item ∧
      c.shared.db.committed (.order item.orderId) = some order ∧ order.placedBy = some t ∧
      item.productId = (input t).productId ∧ item.quantity = (input t).units := by
    by_cases ht : t ∈ succeeded c
    · obtain ⟨result, hr⟩ := mem_succeeded.mp ht
      obtain ⟨order, id, item, hn, hby, -, -, hid, horderId, hproductId, hquantity⟩ := sold_once hw h hr
      exact ⟨id, fun _ => ⟨item, order, hid, horderId ▸ hn, hby, hproductId, hquantity⟩⟩
    · exact ⟨0, fun h => absurd h ht⟩
  choose number hsales using hsales
  symm
  refine Finset.sum_of_injOn number ?_ ?_ ?_ ?_
  · intro t ht t' ht' hsame
    obtain ⟨item, order, hid, hn, hby, -⟩ := hsales t ht
    obtain ⟨item', order', hid', hn', hby', -⟩ := hsales t' ht'
    rw [hsame, hid'] at hid
    cases hid
    cases hn.symm.trans hn'
    exact Option.some.inj (hby.symm.trans hby')
  · intro t ht
    obtain ⟨item, order, hid, hn, hby, -⟩ := hsales t ht
    exact Finset.mem_coe.mpr (Finset.mem_range.mpr
      ((hinv.conserved.items _ item hid).1 (isPlaced_iff.mpr ⟨order, t, hn, hby⟩)))
  · intro id _ hnone
    by_contra hne
    unfold sold at hne
    split at hne
    · rename_i item hid
      split_ifs at hne with hp
      · obtain ⟨order, t, hn, hby⟩ := isPlaced_iff.mp hp.2
        obtain ⟨result, hr, horderId⟩ := placed_succeeded hw h hc hn hby
        have ht := mem_succeeded.mpr ⟨result, hr⟩
        obtain ⟨item', order', hid', hn', hby', -⟩ := hsales t ht
        obtain ⟨result', hr', horderId'⟩ := placed_succeeded hw h hc hn' hby'
        cases hr.symm.trans hr'
        -- the order of the call has one item
        obtain ⟨-, ⟨first, -, -, -, -, hfirst⟩, -⟩ := hinv.conserved.orders _ order t hn hby
        have hsame := (hfirst _ item' hid' (horderId'.trans horderId.symm)).trans (hfirst id item hid rfl).symm
        exact hnone ⟨t, ht, hsame⟩
      · exact hne rfl
    · exact hne rfl
  · intro t ht
    obtain ⟨item, order, hid, hn, hby, hproductId, hquantity⟩ := hsales t ht
    have hplaced := isPlaced_iff.mpr ⟨order, t, hn, hby⟩
    simp only [sold, hid, hplaced, hproductId, hquantity, and_true]

theorem stock_left {p : ℕ} {row₀ : ProductRow} (hrow₀ : w.db.committed (.product p) = some row₀) :
    ∃ row, c.shared.db.committed (.product p) = some row ∧ 0 ≤ row.stockQuantity ∧
      row.stockQuantity = row₀.stockQuantity -
      ∑ t ∈ succeeded c, if (input t).productId = p then (input t).units else 0 := by
  obtain ⟨hinv, -, -⟩ := sales_reachable hw h
  obtain ⟨row, hrow⟩ := hinv.conserved.products p row₀ hrow₀
  obtain ⟨hpos, row₁, hrow₁, hstock⟩ := hinv.conserved.stock p row hrow
  cases hrow₀.symm.trans hrow₁
  exact ⟨row, hrow, hpos, by rw [hstock, totalSold_eq hw h hc]⟩

/-- When every call has been answered, what products and users have lost is what the answered calls sold. -/
theorem checkouts_account :
    (∀ p row₀, w.db.committed (.product p) = some row₀ → ∃ row, c.shared.db.committed (.product p) = some row ∧
      0 ≤ row.stockQuantity ∧ row.stockQuantity = row₀.stockQuantity -
      ∑ t ∈ succeeded c, if (input t).productId = p then (input t).units else 0) ∧
      ∀ u row₀, w.db.committed (.user u) = some row₀ → ∃ row, c.shared.db.committed (.user u) = some row ∧
      0 ≤ row.balance ∧ row.balance = row₀.balance - ∑ t ∈ succeeded c,
      if (input t).userId = u then listedPrice w.db.committed (input t).productId * (input t).units else 0 := by
  refine ⟨fun p row₀ hrow₀ => stock_left hw h hc hrow₀, fun u row₀ hrow₀ => ?_⟩
  obtain ⟨hinv, -, -⟩ := sales_reachable hw h
  obtain ⟨row, hrow⟩ := hinv.conserved.users u row₀ hrow₀
  obtain ⟨hpos, row₁, hrow₁, hbalance⟩ := hinv.conserved.balance u row hrow
  cases hrow₀.symm.trans hrow₁
  exact ⟨row, hrow, hpos, by rw [hbalance, totalSpent_eq hw h hc]⟩

omit hc in
/-- Calls that race for one product sell as many times what each asks for as there is in stock. -/
theorem race_sells_out {p : ℕ} {quantity : ℤ} (hquantity : 0 < quantity)
    (hinput : ∀ t, (input t).productId = p ∧ (input t).quantity = .integer quantity)
    (hall : ∀ t, (∃ result, c.outcome t = some (.ok result)) ∨ c.outcome t = some (.error insufficientStock))
    {row₀ : ProductRow} (hrow₀ : w.db.committed (.product p) = some row₀) :
    (succeeded c).card = min (Fintype.card T) (row₀.stockQuantity / quantity).toNat ∧
      ∃ row, c.shared.db.committed (.product p) = some row ∧
      row.stockQuantity = row₀.stockQuantity - (succeeded c).card * quantity := by
  have hc : AllAnswered c := fun t => (hall t).imp_right fun hr => ⟨_, hr, by decide, by decide⟩
  obtain ⟨row, hrow, hpos, hstock⟩ := stock_left hw h hc hrow₀
  have hunits (t : T) : (if (input t).productId = p then (input t).units else 0) = quantity := by
    simp only [CheckoutInput.units, hinput t, if_true]
  simp only [hunits, Finset.sum_const, nsmul_eq_mul] at hstock
  refine ⟨?_, row, hrow, hstock⟩
  have hle : (succeeded c).card ≤ Fintype.card T := Finset.card_le_univ _
  have hfits : ((succeeded c).card : ℤ) ≤ row₀.stockQuantity / quantity :=
    (Int.le_ediv_iff_mul_le hquantity).mpr (by omega)
  by_cases hlt : (succeeded c).card < Fintype.card T
  · obtain ⟨t, ht⟩ : ∃ t, t ∉ succeeded c := by
      by_contra hnone
      refine absurd ?_ (Nat.ne_of_lt hlt)
      refine (Finset.card_eq_iff_eq_univ _).mpr (Finset.eq_univ_iff_forall.mpr fun t => ?_)
      by_contra ht
      exact hnone ⟨t, ht⟩
    have hrefused : c.outcome t = some (.error insufficientStock) :=
      (hall t).resolve_left fun hr => ht (mem_succeeded.mpr hr)
    -- what is left is too little for the call that was refused
    obtain ⟨-, -, hlacks⟩ := sales_reachable hw h
    have hshort := (hlacks t _ hrefused).2.1 rfl quantity (hinput t).2 row ((hinput t).1 ▸ hrow)
    have hless : row₀.stockQuantity / quantity < (succeeded c).card + 1 :=
      Int.ediv_lt_of_lt_mul hquantity (by rw [Int.add_mul]; omega)
    omega
  · omega

end Results

def raceOfTwo : List (Bool × Option (DatabaseMove ShopMove)) := raceSchedule.map fun (t, move) => (t == 1, move)

theorem second_checkout_refused : ∃ c : ShopConfig Bool CheckoutResult,
    (ShopMachine Bool).Reachable (.start .seeded fun t => checkout t raceInput) c ∧
      c.outcome false = some (.ok ⟨1, 300, 2⟩) ∧ c.outcome true = some (.error insufficientStock) := by
  apply exists_reachable (S := withDatabaseMoves shopMoves .database) raceOfTwo
  decide

theorem refused_checkouts_lack_race : ∃ c : ShopConfig Bool CheckoutResult,
    (ShopMachine Bool).Reachable (.start .seeded fun t => checkout t raceInput) c ∧
      c.outcome true = some (.error insufficientStock) ∧
      (∀ row, c.shared.db.committed (.product 1) = some row → row.stockQuantity < 3) ∧
      (c.outcome true = some (.error insufficientBalance) → ∃ product : ProductRow,
      (seededTables (T := Bool)) (.product 1) = some product ∧
      ∀ row, c.shared.db.committed (.user 1) = some row → row.balance < product.price * 3) := by
  obtain ⟨c, hc, -, hrefused⟩ := second_checkout_refused
  have hlack := refused_checkouts_lack seeded_nothingCheckedOut hc (t := true) rfl
  exact ⟨c, hc, hrefused, hlack.1 hrefused, hlack.2⟩

theorem checkouts_account_race : ∃ c : ShopConfig Bool CheckoutResult,
    (ShopMachine Bool).Reachable (.start .seeded fun t => checkout t raceInput) c ∧
      (∃ row, c.shared.db.committed (.product 1) = some row ∧ 0 ≤ row.stockQuantity ∧ row.stockQuantity = 5 - 3) ∧
      ∃ row, c.shared.db.committed (.user 1) = some row ∧ 0 ≤ row.balance ∧ row.balance = 1000 - 300 := by
  obtain ⟨c, hc, hsold, hrefused⟩ := second_checkout_refused
  have hall : AllAnswered c := by
    intro t
    cases t with
    | false => exact .inl ⟨_, hsold⟩
    | true => exact .inr ⟨_, hrefused, by decide, by decide⟩
  have hsucceeded : succeeded c = {false} := by
    ext t
    cases t <;> simp [mem_succeeded, hsold, hrefused]
  have haccount := checkouts_account seeded_nothingCheckedOut hc hall
  rw [hsucceeded] at haccount
  exact ⟨c, hc, haccount.1 1 _ rfl, haccount.2 1 _ rfl⟩

theorem race_sells_out_race : ∃ c : ShopConfig Bool CheckoutResult,
    (ShopMachine Bool).Reachable (.start .seeded fun t => checkout t raceInput) c ∧
      (succeeded c).card = min 2 (5 / 3 : ℤ).toNat ∧ ∃ row, c.shared.db.committed (.product 1) = some row ∧
      row.stockQuantity = 5 - (succeeded c).card * 3 := by
  obtain ⟨c, hc, hsold, hrefused⟩ := second_checkout_refused
  refine ⟨c, hc, race_sells_out seeded_nothingCheckedOut hc (by decide)
    (fun _ => ⟨rfl, rfl⟩) (fun t => ?_) rfl⟩
  cases t with
  | false => exact .inl ⟨_, hsold⟩
  | true => exact .inr hrefused

end Marketplace
