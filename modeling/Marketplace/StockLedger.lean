import Mathlib.Algebra.BigOperators.Intervals
import Marketplace.CheckoutTransaction

namespace Marketplace

open Concurrent ReadCommitted

variable {T : Type}

def isPlaced (tables : Tables T) (orderId : ℕ) : Bool :=
  match tables (.order orderId) with
  | some order => order.placedBy.isSome
  | none => false

def sold (tables : Tables T) (p id : ℕ) : ℤ :=
  match tables (.orderItem id) with
  | some item => if item.productId = p ∧ isPlaced tables item.orderId then item.quantity else 0
  | none => 0

def spent (tables : Tables T) (u id : ℕ) : ℤ :=
  match tables (.order id) with
  | some order => if order.userId = u ∧ order.placedBy.isSome then order.totalAmount else 0
  | none => 0

def totalSold (tables : Tables T) (seq : Serial → ℕ) (p : ℕ) : ℤ :=
  ∑ id ∈ Finset.range (seq .orderItems), sold tables p id

def totalSpent (tables : Tables T) (seq : Serial → ℕ) (u : ℕ) : ℤ :=
  ∑ id ∈ Finset.range (seq .orders), spent tables u id

structure CheckoutOrder (tables : Tables T) (n : ℕ) (order : OrderRow T) : Prop where
  item : ∃ id item, tables (.orderItem id) = some item ∧ item.orderId = n ∧
    order.totalAmount = item.unitPrice * item.quantity ∧
    ∀ id' item', tables (.orderItem id') = some item' → item'.orderId = n → id' = id
  task : ∃ id task, tables (.postProcessingTask id) = some task ∧ task.orderId = n ∧
    ∀ id' task', tables (.postProcessingTask id') = some task' → task'.orderId = n → id' = id

structure Conserved (initial tables : Tables T) (seq : Serial → ℕ) : Prop where
  products : ∀ p row₀, initial (.product p) = some row₀ → ∃ row, tables (.product p) = some row
  users : ∀ u row₀, initial (.user u) = some row₀ → ∃ row, tables (.user u) = some row
  stock : ∀ p row, tables (.product p) = some row → 0 ≤ row.stockQuantity ∧
    ∃ row₀, initial (.product p) = some row₀ ∧ row.stockQuantity = row₀.stockQuantity - totalSold tables seq p
  balance : ∀ u row, tables (.user u) = some row → 0 ≤ row.balance ∧
    ∃ row₀, initial (.user u) = some row₀ ∧ row.balance = row₀.balance - totalSpent tables seq u
  orders : ∀ n order t, tables (.order n) = some order → order.placedBy = some t →
    n < seq .orders ∧ CheckoutOrder tables n order
  items : ∀ id item, tables (.orderItem id) = some item →
    (isPlaced tables item.orderId → id < seq .orderItems) ∧ ∃ order, tables (.order item.orderId) = some order
  tasks : ∀ id task, tables (.postProcessingTask id) = some task → ∃ order, tables (.order task.orderId) = some order

theorem sum_range_extend {f : ℕ → ℤ} {n m : ℕ} (h : n ≤ m) (hf : ∀ i, f i ≠ 0 → i < n) :
    ∑ i ∈ Finset.range m, f i = ∑ i ∈ Finset.range n, f i := by
  symm
  apply Finset.sum_subset (by simpa using h)
  intro i _ hi
  by_contra hne
  exact hi (Finset.mem_range.mpr (hf i hne))

theorem sum_range_update {f : ℕ → ℤ} {n i : ℕ} {x : ℤ} (hi : i < n) (h0 : f i = 0) :
    ∑ j ∈ Finset.range n, Function.update f i x j = ∑ j ∈ Finset.range n, f j + x := by
  have hmem : i ∈ Finset.range n := Finset.mem_range.mpr hi
  rw [Finset.sum_update_of_mem hmem, Finset.sum_eq_add_sum_sdiff_singleton_of_mem hmem f, h0]
  omega

theorem isPlaced_iff {tables : Tables T} {n : ℕ} :
    isPlaced tables n ↔ ∃ order t, tables (.order n) = some order ∧ order.placedBy = some t := by
  unfold isPlaced
  cases tables (.order n) with
  | none => simp
  | some order => simp [Option.isSome_iff_exists]

namespace Conserved

variable {initial tables : Tables T} {seq : Serial → ℕ}

theorem sold_lt (h : Conserved initial tables seq) {p id : ℕ} (hne : sold tables p id ≠ 0) : id < seq .orderItems := by
  unfold sold at hne
  split at hne
  · rename_i item hitem
    split_ifs at hne with hp
    · exact (h.items id item hitem).1 hp.2
    · exact absurd rfl hne
  · exact absurd rfl hne

theorem spent_lt (h : Conserved initial tables seq) {u id : ℕ} (hne : spent tables u id ≠ 0) : id < seq .orders := by
  unfold spent at hne
  split at hne
  · rename_i order horder
    split_ifs at hne with hu
    · obtain ⟨t, ht⟩ := Option.isSome_iff_exists.mp hu.2
      exact (h.orders id order t horder ht).1
    · exact absurd rfl hne
  · exact absurd rfl hne

theorem extend (h : Conserved initial tables seq) {seq' : Serial → ℕ} (hseq : ∀ q, seq q ≤ seq' q) :
    Conserved initial tables seq' := by
  have hsold (p : ℕ) : totalSold tables seq' p = totalSold tables seq p :=
    sum_range_extend (hseq .orderItems) fun id hne => h.sold_lt hne
  have hspent (u : ℕ) : totalSpent tables seq' u = totalSpent tables seq u :=
    sum_range_extend (hseq .orders) fun id hne => h.spent_lt hne
  refine ⟨h.products, h.users, ?_, ?_, ?_, ?_, h.tasks⟩
  · intro p row hrow
    rw [hsold]
    exact h.stock p row hrow
  · intro u row hrow
    rw [hspent]
    exact h.balance u row hrow
  · intro n order t horder hby
    obtain ⟨hn, hcheckout⟩ := h.orders n order t horder hby
    exact ⟨Nat.lt_of_lt_of_le hn (hseq _), hcheckout⟩
  · intro id item hitem
    obtain ⟨hid, hfk⟩ := h.items id item hitem
    exact ⟨fun hp => Nat.lt_of_lt_of_le (hid hp) (hseq _), hfk⟩

end Conserved

section Commit

variable {placed : PlacedCheckout} {t : T} {initial old new : Tables T} {seq : Serial → ℕ}

theorem isPlaced_commit (h : placed.Committed t old new) {n : ℕ} (hn : n ≠ placed.orderId) :
    isPlaced new n = isPlaced old n := by
  unfold isPlaced
  rw [h.orders n hn]

theorem ne_orderId (h : placed.Committed t old new) {n : ℕ} (hn : ∃ order, old (.order n) = some order) :
    n ≠ placed.orderId := by
  rintro rfl
  obtain ⟨order, horder⟩ := hn
  rw [h.order_old] at horder
  cases horder

theorem sold_commit (hold : Conserved initial old seq) (h : placed.Committed t old new) (p : ℕ) :
    sold new p = Function.update (sold old p) placed.itemId (if placed.productId = p then placed.quantity else 0) := by
  funext id
  by_cases hid : id = placed.itemId
  · subst hid
    have hplaced : isPlaced new placed.orderId := isPlaced_iff.mpr ⟨_, t, h.order, rfl⟩
    rw [Function.update_self]
    unfold sold
    rw [h.item]
    simp [PlacedCheckout.item, hplaced]
  · rw [Function.update_of_ne hid]
    unfold sold
    rw [h.items id hid]
    cases hitem : old (.orderItem id) with
    | none => rfl
    | some item => simp only [isPlaced_commit h (ne_orderId h (hold.items id item hitem).2)]

theorem spent_commit (h : placed.Committed t old new) (u : ℕ) :
    spent new u = Function.update (spent old u) placed.orderId
    (if placed.userId = u then placed.totalAmount else 0) := by
  funext id
  by_cases hid : id = placed.orderId
  · subst hid
    rw [Function.update_self]
    unfold spent
    rw [h.order]
    simp [PlacedCheckout.order]
  · rw [Function.update_of_ne hid]
    unfold spent
    rw [h.orders id hid]

theorem totalSold_commit (hold : Conserved initial old seq) (h : placed.Committed t old new)
    (hitem : placed.itemId < seq .orderItems) (p : ℕ) :
    totalSold new seq p = totalSold old seq p + if placed.productId = p then placed.quantity else 0 := by
  have h0 : sold old p placed.itemId = 0 := by
    simp only [sold, h.item_old]
  rw [totalSold, sold_commit hold h, sum_range_update hitem h0]
  rfl

theorem totalSpent_commit (h : placed.Committed t old new) (horder : placed.orderId < seq .orders) (u : ℕ) :
    totalSpent new seq u = totalSpent old seq u + if placed.userId = u then placed.totalAmount else 0 := by
  have h0 : spent old u placed.orderId = 0 := by
    simp only [spent, h.order_old]
  rw [totalSpent, spent_commit h, sum_range_update horder h0]
  rfl

theorem stock_commit (hold : Conserved initial old seq) (h : placed.Committed t old new)
    (hitem : placed.itemId < seq .orderItems) {p : ℕ} {row : ProductRow} (hrow : new (.product p) = some row) :
    0 ≤ row.stockQuantity ∧ ∃ row₀, initial (.product p) = some row₀ ∧
      row.stockQuantity = row₀.stockQuantity - totalSold new seq p := by
  rw [totalSold_commit hold h hitem]
  by_cases hp : p = placed.productId
  · subst hp
    rw [h.product] at hrow
    cases hrow
    obtain ⟨-, row₀, hrow₀, hstock⟩ := hold.stock _ _ h.product_old
    have hin := placed.inStock
    refine ⟨?_, row₀, hrow₀, ?_⟩
    · simp only [PlacedCheckout.newProduct]
      omega
    · simp only [PlacedCheckout.newProduct, if_true]
      omega
  · rw [h.products p hp] at hrow
    rw [if_neg (Ne.symm hp), add_zero]
    exact hold.stock p row hrow

theorem balance_commit (hold : Conserved initial old seq) (h : placed.Committed t old new)
    (horder : placed.orderId < seq .orders) {u : ℕ} {row : UserRow} (hrow : new (.user u) = some row) :
    0 ≤ row.balance ∧ ∃ row₀, initial (.user u) = some row₀ ∧
      row.balance = row₀.balance - totalSpent new seq u := by
  rw [totalSpent_commit h horder]
  by_cases hu : u = placed.userId
  · subst hu
    rw [h.user] at hrow
    cases hrow
    obtain ⟨-, row₀, hrow₀, hbalance⟩ := hold.balance _ _ h.user_old
    have hin : placed.totalAmount ≤ placed.user.balance := placed.affordable
    refine ⟨?_, row₀, hrow₀, ?_⟩
    · simp only [PlacedCheckout.newUser]
      omega
    · simp only [PlacedCheckout.newUser, if_true]
      omega
  · rw [h.users u hu] at hrow
    rw [if_neg (Ne.symm hu), add_zero]
    exact hold.balance u row hrow

theorem checkoutOrder_commit (hold : Conserved initial old seq) (h : placed.Committed t old new) :
    CheckoutOrder new placed.orderId (placed.order t) := by
  constructor
  · refine ⟨placed.itemId, placed.item, h.item, rfl, rfl, fun id item hitem hid => ?_⟩
    by_contra hne
    rw [h.items id hne] at hitem
    exact ne_orderId h (hold.items id item hitem).2 hid
  · refine ⟨placed.taskId, placed.task, h.task, rfl, fun id task htask hid => ?_⟩
    by_contra hne
    rw [h.tasks id hne] at htask
    exact ne_orderId h (hold.tasks id task htask) hid

theorem CheckoutOrder.commit {n : ℕ} {order : OrderRow T} (hn : CheckoutOrder old n order)
    (h : placed.Committed t old new) (hne : n ≠ placed.orderId) : CheckoutOrder new n order := by
  obtain ⟨⟨i, item, hitem, hitemId, htotal, hitems⟩, k, task, htask, htaskId, htasks⟩ := hn
  have hi : i ≠ placed.itemId := by
    rintro rfl
    rw [h.item_old] at hitem
    cases hitem
  have hk : k ≠ placed.taskId := by
    rintro rfl
    rw [h.task_old] at htask
    cases htask
  refine ⟨⟨i, item, (h.items i hi).trans hitem, hitemId, htotal, fun id item' hitem' hid => ?_⟩,
    k, task, (h.tasks k hk).trans htask, htaskId, fun id task' htask' hid => ?_⟩
  · by_cases hnew : id = placed.itemId
    · subst hnew
      rw [h.item] at hitem'
      cases hitem'
      exact absurd hid (Ne.symm hne)
    · rw [h.items id hnew] at hitem'
      exact hitems id item' hitem' hid
  · by_cases hnew : id = placed.taskId
    · subst hnew
      rw [h.task] at htask'
      cases htask'
      exact absurd hid (Ne.symm hne)
    · rw [h.tasks id hnew] at htask'
      exact htasks id task' htask' hid

theorem Conserved.commit (hold : Conserved initial old seq) (h : placed.Committed t old new)
    (horder : placed.orderId < seq .orders) (hitem : placed.itemId < seq .orderItems) :
    Conserved initial new seq := by
  have hpresent : ∀ n, (∃ order, old (.order n) = some order) → ∃ order, new (.order n) = some order := by
    rintro n ⟨order, hn⟩
    exact ⟨order, (h.orders n (ne_orderId h ⟨order, hn⟩)).trans hn⟩
  refine ⟨?_, ?_, fun p row => stock_commit hold h hitem, fun u row => balance_commit hold h horder, ?_, ?_, ?_⟩
  · intro p row₀ hrow₀
    by_cases hp : p = placed.productId
    · exact ⟨_, hp ▸ h.product⟩
    · rw [h.products p hp]
      exact hold.products p row₀ hrow₀
  · intro u row₀ hrow₀
    by_cases hu : u = placed.userId
    · exact ⟨_, hu ▸ h.user⟩
    · rw [h.users u hu]
      exact hold.users u row₀ hrow₀
  · intro n order t' hn hby
    by_cases hnew : n = placed.orderId
    · subst hnew
      rw [h.order] at hn
      cases hn
      exact ⟨horder, checkoutOrder_commit hold h⟩
    · rw [h.orders n hnew] at hn
      obtain ⟨hlt, hcheckout⟩ := hold.orders n order t' hn hby
      exact ⟨hlt, hcheckout.commit h hnew⟩
  · intro id item hid
    by_cases hnew : id = placed.itemId
    · subst hnew
      rw [h.item] at hid
      cases hid
      exact ⟨fun _ => hitem, _, h.order⟩
    · rw [h.items id hnew] at hid
      obtain ⟨hlt, hfk⟩ := hold.items id item hid
      rw [isPlaced_commit h (ne_orderId h hfk)]
      exact ⟨hlt, hpresent _ hfk⟩
  · intro id task hid
    by_cases hnew : id = placed.taskId
    · subst hnew
      rw [h.task] at hid
      cases hid
      exact ⟨_, h.order⟩
    · rw [h.tasks id hnew] at hid
      exact hpresent _ (hold.tasks id task hid)

end Commit

variable [DecidableEq T]

def stockLedger (initial : Tables T) : Discipline (ShopMachine T).unrestricted where
  inv w := Conserved initial w.db.committed w.db.seq
  always _ _ := True
  rely _ _ _ := True
  gone _ _ := True
  always_refl _ := trivial
  always_trans _ _ := trivial
  rely_refl _ _ := trivial
  rely_trans _ _ _ _ _ _ := trivial

theorem stockLedger_calm (initial : Tables T) : Calm (stockLedger initial) := by
  apply Calm.of_committed
  · intro w w' hc hseq hi
    have hi' : Conserved initial w.db.committed w'.db.seq := hi.extend hseq
    simp only [stockLedger, hc]
    exact hi'
  · exact fun _ _ _ => trivial
  · exact fun _ _ _ _ => trivial
  · exact fun _ _ => trivial

theorem stockLedger_rules (initial : Tables T) (t : T) : CheckoutRules (stockLedger initial) t
    (fun _ => True) (fun _ => True) (fun _ _ => True) (fun _ _ => True) where
  calm := stockLedger_calm initial
  kept := .const
  broken := .const
  stable _ := .const
  published _ := .const
  fails _ _ := trivial
  starts hi _ := ⟨⟨hi, trivial, fun _ _ => trivial⟩, trivial⟩
  aborts _ _ := trivial
  commits {w r} placed hi hat _ _ horder hitem _ := by
    refine ⟨⟨?_, trivial, fun _ _ => trivial⟩, fun _ => trivial, fun _ => trivial⟩
    have hnew := hi.commit (PlacedCheckout.committed hat) horder hitem
    simp only [stockLedger, Database.seq_commit]
    exact hnew
  publishes _ _ _ := publishOrderPlaced_spec (stockLedger_calm initial) (fun _ => True)
    { before := .const
      sent := .const
      confirmed := .const
      broken := .const
      sends := fun _ hi _ => ⟨⟨hi, trivial, fun _ _ => trivial⟩, trivial⟩
      confirms := fun _ hi _ => ⟨⟨hi, trivial, fun _ _ => trivial⟩, trivial⟩
      fails := fun _ _ _ _ _ _ => trivial }

/-- The tables before the first checkout: they satisfy their constraints. -/
structure NothingCheckedOut (w : ShopWorld T) : Prop where
  quiescent : w.db.Quiescent
  valid : ∀ k row, w.db.committed k = some row → Row.valid k row
  orders : ∀ n order, w.db.committed (.order n) = some order → order.placedBy = none
  items : ∀ id item, w.db.committed (.orderItem id) = some item →
    ∃ order, w.db.committed (.order item.orderId) = some order
  tasks : ∀ id task, w.db.committed (.postProcessingTask id) = some task →
    ∃ order, w.db.committed (.order task.orderId) = some order

omit [DecidableEq T] in
theorem NothingCheckedOut.conserved {w : ShopWorld T} (hw : NothingCheckedOut w) :
    Conserved w.db.committed w.db.committed w.db.seq := by
  have hplaced (n : ℕ) : isPlaced w.db.committed n = false := by
    rw [Bool.eq_false_iff]
    intro hn
    obtain ⟨order, t, horder, hby⟩ := isPlaced_iff.mp hn
    rw [hw.orders n order horder] at hby
    cases hby
  have hsold (p : ℕ) : totalSold w.db.committed w.db.seq p = 0 := by
    apply Finset.sum_eq_zero
    intro id _
    unfold sold
    split <;> simp [hplaced]
  have hspent (u : ℕ) : totalSpent w.db.committed w.db.seq u = 0 := by
    apply Finset.sum_eq_zero
    intro id _
    unfold spent
    split
    · rename_i order horder
      simp [hw.orders id order horder]
    · rfl
  refine ⟨fun _ row₀ h => ⟨row₀, h⟩, fun _ row₀ h => ⟨row₀, h⟩, ?_, ?_, ?_, ?_, hw.tasks⟩
  · intro p row hrow
    have hvalid := hw.valid _ _ hrow
    simp only [Row.valid, Bool.and_eq_true, decide_eq_true_eq] at hvalid
    exact ⟨hvalid.2, row, hrow, by rw [hsold, sub_zero]⟩
  · intro u row hrow
    have hvalid := hw.valid _ _ hrow
    simp only [Row.valid, Bool.and_eq_true, decide_eq_true_eq] at hvalid
    exact ⟨hvalid.2, row, hrow, by rw [hspent, sub_zero]⟩
  · intro n order t horder hby
    rw [hw.orders n order horder] at hby
    cases hby
  · intro id item hitem
    exact ⟨by simp [hplaced], hw.items id item hitem⟩

theorem checkout_conserves (input : T → CheckoutInput) {w : ShopWorld T} (hw : NothingCheckedOut w)
    {c : ShopConfig T CheckoutResult} (h : (ShopMachine T).Reachable (.start w fun t => checkout t (input t)) c) :
    Conserved w.db.committed c.shared.db.committed c.shared.db.seq :=
  (Discipline.run_holds (D := stockLedger w.db.committed) hw.conserved
    (fun t => ⟨hw.quiescent.workspace t, trivial⟩)
    (fun t => checkout_spec (stockLedger_rules w.db.committed t) (input t)) h.unrestricted).1

def raceInput : CheckoutInput := ⟨1, 1, .integer 3⟩

-- call 1 sees five in stock, waits for call 0 and then finds two
def raceSchedule : List (ℕ × Option (DatabaseMove ShopMove)) :=
  [0, 0, 0, 0, 1, 1].map (·, some .go) ++ List.replicate 13 (0, some .go) ++ [1, 1].map (·, some .go) ++
    List.replicate 5 (0, some (.ext (.ok 5)))

omit [DecidableEq T] in
theorem seeded_nothingCheckedOut : NothingCheckedOut (ShopWorld.seeded (T := T)) where
  quiescent := ⟨fun _ => rfl, fun _ => rfl⟩
  valid k row h := by
    simp only [ShopWorld.seeded, seededTables] at h
    split at h
    · cases h
      rfl
    · cases h
      rfl
    · cases h
  orders _ _ h := nomatch h
  items _ _ h := nomatch h
  tasks _ _ h := nomatch h

theorem checkout_conserves_race : ∃ c : ShopConfig ℕ CheckoutResult,
    (ShopMachine ℕ).Reachable (.start .seeded fun t => checkout t raceInput) c ∧
      (c.outcome 0 = some (.ok ⟨1, 300, 2⟩) ∧ c.outcome 1 = some (.error insufficientStock)) ∧
      Conserved (ShopWorld.seeded (T := ℕ)).db.committed c.shared.db.committed c.shared.db.seq := by
  have hrun : ∃ c : ShopConfig ℕ CheckoutResult, (ShopMachine ℕ).Reachable
      (.start .seeded fun t => checkout t raceInput) c ∧
      c.outcome 0 = some (.ok ⟨1, 300, 2⟩) ∧ c.outcome 1 = some (.error insufficientStock) := by
    apply exists_reachable (S := withDatabaseMoves shopMoves .database) raceSchedule
    decide
  obtain ⟨c, hc, hdone⟩ := hrun
  exact ⟨c, hc, hdone, checkout_conserves (fun _ => raceInput) seeded_nothingCheckedOut hc⟩

end Marketplace
