import Marketplace.CheckoutFaults
import Marketplace.OrderLedger

namespace Marketplace

open Concurrent ReadCommitted

variable {T : Type}

inductive SaleCall
  | create (input : CreateOrderInput) (idempotencyKey : String)
  | checkout (input : CheckoutInput)

def SaleCall.run (self : T) : SaleCall → ShopCall T Unit
  | .create input idempotencyKey => do
    let _ ← Marketplace.create self input idempotencyKey
    pure ()
  | .checkout input => do
    let _ ← Marketplace.checkout self input
    pure ()

def Active (tables : Tables T) (p : ℕ) : Prop := ∃ row, tables (.product p) = some row ∧ row.isActive = true

def Inactive (tables : Tables T) (p : ℕ) : Prop := ∃ row, tables (.product p) = some row ∧ row.isActive = false

theorem Active.not_inactive {tables : Tables T} {p : ℕ} (h : Active tables p) : ¬Inactive tables p := by
  obtain ⟨row, hrow, hactive⟩ := h
  rintro ⟨row', hrow', hinactive⟩
  rw [hrow] at hrow'
  cases hrow'
  rw [hactive] at hinactive
  cases hinactive

def CreateOrderInput.Names (input : CreateOrderInput) (p : ℕ) : Prop :=
  ∃ item ∈ input.items.getD [], item.productId = .integer p

def SaleCall.Names (p : ℕ) : SaleCall → Prop
  | .create input _ => input.Names p
  | .checkout input => input.productId = p

def CheckoutInput.Covered (input : CheckoutInput) (tables : Tables T) : Prop :=
  ∃ quantity product user, (input.quantity = .integer quantity ∧ 0 < quantity) ∧
    tables (.product input.productId) = some product ∧ quantity ≤ product.stockQuantity ∧
    tables (.user input.userId) = some user ∧ product.price * quantity ≤ user.balance

def Bound (tables : Tables T) (key : String) : Prop := ∃ n, tables (.idempotencyKey key) = some ⟨some n⟩

/-- Neither a `checkout` of an inactive product that would find stock and balance, nor a `create` that
names one under a key which is bound to an order already. -/
def SaleCall.Heeded (tables : Tables T) : SaleCall → Prop
  | .create input key => Bound tables key → ∀ p, input.Names p → ¬Inactive tables p
  | .checkout input => input.Covered tables → ¬Inactive tables input.productId

structure Sale (T : Type) where
  call : SaleCall
  before : Tables T
  answer : Except Failure Unit
  after : Tables T

structure Sale.OfActive (sale : Sale T) : Prop where
  sold : ∀ id row, sale.after (.orderItem id) = some row →
    sale.before (.orderItem id) = some row ∨ Active sale.before row.productId
  rejected : ∀ p, sale.call.Names p → Inactive sale.before p →
    (∃ e, sale.answer = .error e) ∧ sale.after = sale.before

variable [DecidableEq T]

/-- Calls one after another, each alone on the shop from its first statement to its answer. -/
inductive Sales : ShopWorld T → List (Sale T) → ShopWorld T → Prop
  | nil {w : ShopWorld T} : Sales w [] w
  | cons {w w₁ w₂ : ShopWorld T} {t : T} {call : SaleCall} {steps : List (ShopStep T)} {r : Except Failure Unit}
      {sales : List (Sale T)} (hidle : w.db.workspace t = Workspace.empty)
      (h : (ShopMachine T).Runs t (call.run t) w steps r w₁) (hrest : Sales w₁ sales w₂) :
      Sales w (⟨call, w.db.committed, r, w₁.db.committed⟩ :: sales) w₂

section Create

def AllActive (tables : Tables T) (items : List CreateOrderItemInput) : Prop :=
  ∀ item ∈ items, ∃ p : ℕ, item.productId = .integer p ∧ Active tables p

structure SoldFrom (base : Tables T) (items : List CreateOrderItemInput) (tables : Tables T) : Prop where
  products : ∀ p, tables (.product p) = base (.product p)
  sold : ∀ id row, tables (.orderItem id) = some row → base (.orderItem id) = some row ∨ Active base row.productId
  active : tables = base ∨ AllActive base items

def soldFrom (base : Tables T) (items : List CreateOrderItemInput) : Discipline (ShopMachine T).unrestricted where
  inv w := SoldFrom base items w.db.committed
  always _ _ := True
  rely _ _ _ := True
  gone _ _ := True
  always_refl _ := trivial
  always_trans _ _ := trivial
  rely_refl _ _ := trivial
  rely_trans _ _ _ _ _ _ := trivial

variable {base : Tables T} {items : List CreateOrderItemInput} {key : String} {t : T}

theorem soldFrom_calm : Calm (soldFrom base items) := by
  apply Calm.of_committed
  · intro w w' hc _ hi
    simp only [soldFrom, hc]
    exact hi
  · exact fun _ _ _ => trivial
  · exact fun _ _ _ _ => trivial
  · exact fun _ _ => trivial

def activeReads : PriceReads (soldFrom base items) t items key where
  seen _ p _ _ := Active base p
  agree p _ _ := Active base p
  kept _ _ _ := .const
  first hi _ _ _ hrow hactive := ⟨_, (hi.products _).symm.trans hrow, hactive⟩
  second _ _ _ _ h := h

theorem stored_active {S : PriceReads (soldFrom base items) t items key} {n : ℕ} {lines : List OrderLine}
    {stored : List (ℕ × OrderItemRow)} (hagree : ∀ p price price', S.agree p price price' → Active base p)
    (h : List.Forall₂ (S.Stores n) lines stored) :
    (∀ line ∈ lines, Active base line.productId) ∧ ∀ s ∈ stored, Active base s.2.productId := by
  induction h with
  | nil => simp
  | cons hs _ ih =>
    constructor
    · exact List.forall_mem_cons.mpr ⟨hagree _ _ _ hs.price, ih.1⟩
    · exact List.forall_mem_cons.mpr ⟨hs.productId ▸ hagree _ _ _ hs.price, ih.2⟩

def soldFrom_rules : CreateRules (soldFrom base items) t items key (fun _ => True)
    (fun _ _ => Bound base key ∨ AllActive base items) where
  calm := soldFrom_calm
  reads := activeReads
  stable _ := fun _ _ _ h _ => h
  failures _ _ := trivial
  bound _ _ _ _ := trivial
  starts hi := ⟨hi, trivial, fun _ _ => trivial⟩
  replays {w row response c} hi hat hid := by
    have hsame := hat.committed_unchanged Workspace.set_empty_locked
    have hrow := hat.committed_old Workspace.set_self
    refine ⟨⟨?_, trivial, fun _ _ => trivial⟩, ?_⟩
    · simp only [soldFrom, hsame]
      exact hi
    · rcases hi.active with hbase | hactive
      · left
        obtain ⟨orderId⟩ := row
        cases hid
        exact ⟨response.id, hbase ▸ hrow⟩
      · exact .inr hactive
  places {w r} placed lines hi hat hp _ _ _ := by
    have hc := PlacedOrder.committed hat hp.sorted
    obtain ⟨hlines, hstored⟩ := stored_active (fun _ _ _ h => h) hp.stored
    have hactive : AllActive base items := by
      intro item hitem
      rw [hp.input] at hitem
      obtain ⟨line, hline, rfl⟩ := List.mem_map.mp hitem
      exact ⟨line.productId, rfl, hlines line hline⟩
    refine ⟨⟨⟨fun p => (hc.products p).trans (hi.products p), fun id row hid => ?_, .inr hactive⟩, trivial,
      fun _ _ => trivial⟩, .inr hactive⟩
    rcases hc.item_cases hid with hold | hmem
    · exact hi.sold id row hold
    · exact .inr (hstored _ hmem)

end Create

section Runs

variable {t : T} {input : CreateOrderInput} {key : String} {w w' : ShopWorld T} {steps : List (ShopStep T)}

theorem create_runs {r : Except Failure OrderResponse} (hidle : w.db.workspace t = Workspace.empty)
    (h : (ShopMachine T).Runs t (create t input key) w steps r w') :
    SoldFrom w.db.committed (input.items.getD []) w'.db.committed ∧
      ∀ response, r = .ok response → Bound w.db.committed key ∨ AllActive w.db.committed (input.items.getD []) := by
  have hstart : SoldFrom w.db.committed (input.items.getD []) w.db.committed :=
    ⟨fun _ => rfl, fun _ _ h => .inl h, .inl rfl⟩
  obtain ⟨hsold, hpost⟩ := (create_spec soldFrom_rules w hstart hidle).runs hstart h.unrestricted
  refine ⟨hsold, ?_⟩
  rintro response rfl
  exact hpost

theorem create_sale {r : Except Failure OrderResponse} {answer : Except Failure Unit}
    (hidle : w.db.workspace t = Workspace.empty) (h : (ShopMachine T).Runs t (create t input key) w steps r w')
    (hheeded : (SaleCall.create input key).Heeded w.db.committed)
    (hanswer : ∀ e, r = .error e → answer = .error e) :
    Sale.OfActive ⟨.create input key, w.db.committed, answer, w'.db.committed⟩ := by
  obtain ⟨hsold, hok⟩ := create_runs hidle h
  refine ⟨hsold.sold, fun p hnames hinactive => ?_⟩
  have hnot : ¬AllActive w.db.committed (input.items.getD []) := by
    intro hall
    obtain ⟨item, hitem, hp⟩ := hnames
    obtain ⟨p', hp', hactive⟩ := hall item hitem
    obtain rfl : p' = p := Int.ofNat_inj.mp (JsNumber.integer.inj (hp'.symm.trans hp))
    exact hactive.not_inactive hinactive
  refine ⟨?_, hsold.active.resolve_right hnot⟩
  cases r with
  | error e => exact ⟨e, hanswer e rfl⟩
  | ok response =>
    have hbound := (hok response rfl).resolve_right hnot
    exact absurd hinactive (hheeded hbound p hnames)

theorem checkout_sale {input : CheckoutInput} {r : Except Failure CheckoutResult} {answer : Except Failure Unit}
    (hidle : w.db.workspace t = Workspace.empty) (h : (ShopMachine T).Runs t (checkout t input) w steps r w')
    (hheeded : (SaleCall.checkout input).Heeded w.db.committed)
    (hanswer : ∀ e, r = .error e → answer = .error e) :
    Sale.OfActive ⟨.checkout input, w.db.committed, answer, w'.db.committed⟩ := by
  rcases checkout_runs hidle h with hnothing | ⟨placed, quantity, hquantity, hof, hc, -⟩
  · obtain ⟨e, he⟩ := hnothing.rejects
    have hsame := hnothing.committed
    exact ⟨fun id row hid => .inl (by simpa only [hsame] using hid), fun _ _ _ => ⟨⟨e, hanswer e he⟩, hsame⟩⟩
  · have hproduct : w.db.committed (.product input.productId) = some placed.product := hof.product ▸ hc.product_old
    have huser : w.db.committed (.user input.userId) = some placed.user := hof.user ▸ hc.user_old
    have hcovered : input.Covered w.db.committed :=
      ⟨quantity, placed.product, placed.user, hquantity, hproduct, hof.quantity ▸ placed.inStock, huser,
        hof.quantity ▸ placed.affordable⟩
    have hactive : Active w.db.committed input.productId := by
      refine ⟨placed.product, hproduct, ?_⟩
      cases hvalue : placed.product.isActive with
      | true => rfl
      | false => exact absurd ⟨placed.product, hproduct, hvalue⟩ (hheeded hcovered)
    refine ⟨fun id row hid => ?_, fun p hp hinactive => ?_⟩
    · rcases hc.item_cases hid with hold | ⟨-, rfl⟩
      · exact .inl hold
      · have hitem : Active w.db.committed placed.productId := hof.product ▸ hactive
        exact .inr hitem
    · obtain rfl : input.productId = p := hp
      exact absurd hinactive hactive.not_inactive

theorem sale_ofActive {call : SaleCall} {r : Except Failure Unit} (hidle : w.db.workspace t = Workspace.empty)
    (h : (ShopMachine T).Runs t (call.run t) w steps r w') (hheeded : call.Heeded w.db.committed) :
    Sale.OfActive ⟨call, w.db.committed, r, w'.db.committed⟩ := by
  cases call with
  | create input key =>
    rcases h.bind_cases with ⟨e, rfl, hcreate⟩ | ⟨response, w₁, first, rest, rfl, hcreate, hdone⟩
    · exact create_sale hidle hcreate hheeded fun _ he => by cases he; rfl
    · obtain ⟨-, rfl, rfl⟩ := hdone.done_eq
      exact create_sale hidle hcreate hheeded fun _ he => by cases he
  | checkout input =>
    rcases h.bind_cases with ⟨e, rfl, hcheckout⟩ | ⟨result, w₁, first, rest, rfl, hcheckout, hdone⟩
    · exact checkout_sale hidle hcheckout hheeded fun _ he => by cases he; rfl
    · obtain ⟨-, rfl, rfl⟩ := hdone.done_eq
      exact checkout_sale hidle hcheckout hheeded fun _ he => by cases he

end Runs

/-- No inactive product is sold in a run whose calls heed the activity of the products. -/
theorem inactive_products_unsold {T : Type} [DecidableEq T] {w w' : ShopWorld T} {sales : List (Sale T)}
    (h : Sales w sales w') (hheeded : ∀ sale ∈ sales, sale.call.Heeded sale.before) :
    ∀ sale ∈ sales, sale.OfActive := by
  induction h with
  | nil => simp
  | cons hidle h _ ih =>
    obtain ⟨hfirst, hrest⟩ := List.forall_mem_cons.mp hheeded
    exact List.forall_mem_cons.mpr ⟨sale_ofActive hidle h hfirst, ih hrest⟩

def shelvedTables : Tables T
  | .user 1 => some ⟨"maria@example.com", none, .buyer, 1000⟩
  | .product 1 => some ⟨100, 5, true⟩
  | .product 2 => some ⟨100, 5, false⟩
  | _ => none

def ShopWorld.shelved : ShopWorld T :=
  ⟨⟨shelvedTables, fun _ => none, fun q => if q = .products then 3 else if q = .users then 2 else 1,
    fun _ => ⟨.idle, 0⟩⟩, []⟩

def shelvedInput : CreateOrderInput := ⟨some [⟨.integer 1, .integer 1⟩, ⟨.integer 2, .integer 1⟩]⟩

abbrev shelvedAfter (call : SaleCall) : Except Failure Unit × ShopWorld ℕ := (call.run 0).run (customerAt true) .shelved

theorem shelved_sales (call : SaleCall) : Sales .shelved
    [⟨call, shelvedTables, (shelvedAfter call).1, (shelvedAfter call).2.db.committed⟩] (shelvedAfter call).2 :=
  .cons rfl (Prog.run_runs (stepAlone_performs (brokerAt_performs _ _)) _ _) .nil

theorem inactive_products_unsold_mixed : ∃ (w' : ShopWorld ℕ) (sale : Sale ℕ), Sales .shelved [sale] w' ∧
    sale.call = .create shelvedInput "mixed" ∧ sale.answer = .error (productMissing 2) ∧ sale.OfActive := by
  refine ⟨_, _, shelved_sales (.create shelvedInput "mixed"), rfl, by decide, ?_⟩
  apply inactive_products_unsold (shelved_sales _) _ _ List.mem_cons_self
  intro sale hsale
  obtain rfl := List.mem_singleton.mp hsale
  rintro ⟨n, hn⟩
  cases hn

/-- A product that is not on sale is sold to the next customer. -/
theorem checkout_sells_inactive : ∃ (w' : ShopWorld ℕ) (sales : List (Sale ℕ)), Sales .shelved sales w' ∧
    ¬∀ sale ∈ sales, sale.OfActive := by
  refine ⟨_, _, shelved_sales (.checkout ⟨1, 2, .integer 1⟩), fun h => ?_⟩
  obtain ⟨⟨e, he⟩, -⟩ := (h _ List.mem_cons_self).rejected 2 rfl ⟨_, rfl, rfl⟩
  have hok : (shelvedAfter (.checkout ⟨1, 2, .integer 1⟩)).1 = .ok () := by decide
  rw [hok] at he
  cases he

end Marketplace
