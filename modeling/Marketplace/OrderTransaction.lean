import Mathlib.Algebra.BigOperators.Group.List.Basic
import Mathlib.Algebra.Order.Group.Int
import Marketplace.Orders

namespace Marketplace

open Concurrent ReadCommitted

/-- An item that passed the checks of the first loop, with the price read there. -/
structure OrderLine where
  productId : ℕ
  quantity : ℤ
  price : ℤ

def OrderLine.input (line : OrderLine) : CreateOrderItemInput :=
  ⟨.integer line.productId, .integer line.quantity⟩

def linesTotal (lines : List OrderLine) : ℤ := (lines.map fun line => line.price * line.quantity).sum

theorem numbers_eq_some {item : CreateOrderItemInput} {productId quantity : ℤ}
    (h : item.numbers = some (productId, quantity)) :
    item = ⟨.integer productId, .integer quantity⟩ ∧ 0 < productId ∧ 0 < quantity := by
  obtain ⟨p, q⟩ := item
  unfold CreateOrderItemInput.numbers at h
  split at h
  · rename_i n m hp hq
    split_ifs at h with hpos
    cases h
    simp only at hp hq
    refine ⟨by rw [hp, hq], ?_⟩
    omega
  · cases h

theorem keyKept_of_eq {idempotencyKey : String} (h : storedKey idempotencyKey = some idempotencyKey) :
    KeyKept idempotencyKey := fun _ hstored => Option.some.inj (hstored.symm.trans h)

variable {T : Type} [DecidableEq T]

def insertItems (ws : Workspace Key (Row T)) (stored : List (ℕ × OrderItemRow)) :
    Workspace Key (Row T) :=
  stored.foldl (fun ws s => ws.set (.orderItem s.1) ⟨none, s.2⟩) ws

section InsertItems

omit [DecidableEq T]

variable {ws : Workspace Key (Row T)} {stored : List (ℕ × OrderItemRow)}

theorem insertItems_of_ne {k : Key} (hk : ∀ id, k ≠ .orderItem id) :
    insertItems ws stored k = ws k := by
  induction stored generalizing ws with
  | nil => rfl
  | cons s stored ih => exact ih.trans (Workspace.set_of_ne (hk s.1))

theorem insertItems_not_mem {id : ℕ} (hid : ∀ s ∈ stored, s.1 ≠ id) :
    insertItems ws stored (.orderItem id) = ws (.orderItem id) := by
  induction stored generalizing ws with
  | nil => rfl
  | cons s stored ih =>
    have hs := hid s (by simp)
    apply (ih fun s hs => hid s (by simp [hs])).trans
    exact Workspace.set_of_ne (by simp [Ne.symm hs])

theorem insertItems_mem {s : ℕ × OrderItemRow} (hs : s ∈ stored) (hsorted : stored.Pairwise (·.1 < ·.1)) :
    insertItems ws stored (.orderItem s.1) = some ⟨none, s.2⟩ := by
  induction stored generalizing ws with
  | nil => simp at hs
  | cons s' stored ih =>
    obtain ⟨hlt, hrest⟩ := List.pairwise_cons.mp hsorted
    rcases List.mem_cons.mp hs with rfl | hs
    · apply (insertItems_not_mem fun s' hs' => Nat.ne_of_gt (hlt s' hs')).trans
      exact Workspace.set_self
    · exact ih hs hrest

end InsertItems

structure PlacedOrder (T : Type) where
  key : String
  -- the order in the key's row
  bound : Option ℕ
  orderId : ℕ
  order : OrderRow T
  items : List (ℕ × OrderItemRow)
  outboxId : ℕ
  outbox : OutboxMessageRow

def PlacedOrder.workspace (placed : PlacedOrder T) : Workspace Key (Row T) :=
  (((insertItems
    ((Workspace.empty.set (.idempotencyKey placed.key) ⟨none, ⟨none⟩⟩).set
      (.order placed.orderId) ⟨none, placed.order⟩) placed.items).set
      (.outboxMessage placed.outboxId) ⟨none, placed.outbox⟩).set
      (.outboxEventId placed.outbox.eventId) ⟨none, placed.outboxId⟩).set
      (.idempotencyKey placed.key) ⟨none, ⟨placed.bound⟩⟩

structure PlacedOrder.Committed (placed : PlacedOrder T) (old new : Tables T) : Prop where
  key_old : old (.idempotencyKey placed.key) = none
  key : new (.idempotencyKey placed.key) = some ⟨placed.bound⟩
  keys : ∀ k ≠ placed.key, new (.idempotencyKey k) = old (.idempotencyKey k)
  order_old : old (.order placed.orderId) = none
  order : new (.order placed.orderId) = some placed.order
  orders : ∀ n ≠ placed.orderId, new (.order n) = old (.order n)
  items_old : ∀ s ∈ placed.items, old (.orderItem s.1) = none
  items : ∀ s ∈ placed.items, new (.orderItem s.1) = some s.2
  items_other : ∀ id, (∀ s ∈ placed.items, s.1 ≠ id) → new (.orderItem id) = old (.orderItem id)
  message_old : old (.outboxMessage placed.outboxId) = none
  message : new (.outboxMessage placed.outboxId) = some placed.outbox
  messages : ∀ id ≠ placed.outboxId, new (.outboxMessage id) = old (.outboxMessage id)
  event_old : old (.outboxEventId placed.outbox.eventId) = none
  event : new (.outboxEventId placed.outbox.eventId) = some placed.outboxId
  events : ∀ id ≠ placed.outbox.eventId, new (.outboxEventId id) = old (.outboxEventId id)
  products : ∀ id, new (.product id) = old (.product id)
  users : ∀ id, new (.user id) = old (.user id)

namespace PlacedOrder

section Lookups

omit [DecidableEq T]

variable (placed : PlacedOrder T)

theorem workspace_key : placed.workspace (.idempotencyKey placed.key) = some ⟨none, ⟨placed.bound⟩⟩ :=
  Workspace.set_self

theorem workspace_event : placed.workspace (.outboxEventId placed.outbox.eventId) = some ⟨none, placed.outboxId⟩ :=
  (Workspace.set_of_ne (by simp)).trans Workspace.set_self

theorem workspace_message : placed.workspace (.outboxMessage placed.outboxId) = some ⟨none, placed.outbox⟩ := by
  apply (Workspace.set_of_ne (by simp)).trans
  exact (Workspace.set_of_ne (by simp)).trans Workspace.set_self

theorem workspace_item {s : ℕ × OrderItemRow} (hs : s ∈ placed.items)
    (hsorted : placed.items.Pairwise (·.1 < ·.1)) : placed.workspace (.orderItem s.1) = some ⟨none, s.2⟩ := by
  apply (Workspace.set_of_ne (by simp)).trans
  apply (Workspace.set_of_ne (by simp)).trans
  exact (Workspace.set_of_ne (by simp)).trans (insertItems_mem hs hsorted)

theorem workspace_order : placed.workspace (.order placed.orderId) = some ⟨none, placed.order⟩ := by
  apply (Workspace.set_of_ne (by simp)).trans
  apply (Workspace.set_of_ne (by simp)).trans
  apply (Workspace.set_of_ne (by simp)).trans
  exact (insertItems_of_ne (by simp)).trans Workspace.set_self

theorem workspace_none {k : Key} (hkey : k ≠ .idempotencyKey placed.key) (horder : k ≠ .order placed.orderId)
    (hitem : ∀ s ∈ placed.items, k ≠ .orderItem s.1) (hmessage : k ≠ .outboxMessage placed.outboxId)
    (hevent : k ≠ .outboxEventId placed.outbox.eventId) : placed.workspace k = none := by
  apply (Workspace.set_of_ne hkey).trans
  apply (Workspace.set_of_ne hevent).trans
  apply (Workspace.set_of_ne hmessage).trans
  have hbase : (((Workspace.empty (R := Row T)).set (.idempotencyKey placed.key) ⟨none, ⟨none⟩⟩).set
      (.order placed.orderId) ⟨none, placed.order⟩) k = none :=
    (Workspace.set_of_ne horder).trans (Workspace.set_of_ne hkey)
  by_cases hk : ∃ id, k = .orderItem id
  · obtain ⟨id, rfl⟩ := hk
    apply (insertItems_not_mem fun s hs hne => ?_).trans hbase
    exact hitem s hs (by rw [hne])
  · exact (insertItems_of_ne fun id hid => hk ⟨id, hid⟩).trans hbase

end Lookups

omit [DecidableEq T] in
theorem committed_of {placed : PlacedOrder T} {old new : Tables T} (h : placed.workspace.Commits old new)
    (hsorted : placed.items.Pairwise (·.1 < ·.1)) : placed.Committed old new := by
  have hsame {k : Key} (hk : placed.workspace k = none) : new k = old k := h.same hk
  exact
    { key_old := h.old_eq placed.workspace_key
      key := h.new_eq placed.workspace_key
      keys := fun k hk => hsame (placed.workspace_none (by simpa using hk) (by simp) (by simp) (by simp) (by simp))
      order_old := h.old_eq placed.workspace_order
      order := h.new_eq placed.workspace_order
      orders := fun n hn =>
        hsame (placed.workspace_none (by simp) (by simpa using hn) (by simp) (by simp) (by simp))
      items_old := fun s hs => h.old_eq (placed.workspace_item hs hsorted)
      items := fun s hs => h.new_eq (placed.workspace_item hs hsorted)
      items_other := fun id hid => hsame (placed.workspace_none (by simp) (by simp)
        (fun s hs heq => hid s hs (Key.orderItem.inj heq).symm) (by simp) (by simp))
      message_old := h.old_eq placed.workspace_message
      message := h.new_eq placed.workspace_message
      messages := fun id hid =>
        hsame (placed.workspace_none (by simp) (by simp) (by simp) (by simpa using hid) (by simp))
      event_old := h.old_eq placed.workspace_event
      event := h.new_eq placed.workspace_event
      events := fun id hid =>
        hsame (placed.workspace_none (by simp) (by simp) (by simp) (by simp) (by simpa using hid))
      products := fun id => hsame (placed.workspace_none (by simp) (by simp) (by simp) (by simp) (by simp))
      users := fun id => hsame (placed.workspace_none (by simp) (by simp) (by simp) (by simp) (by simp)) }

theorem committed {placed : PlacedOrder T} {t : T} {c : ℕ} {w : ShopWorld T} (hat : At t placed.workspace c w)
    (hsorted : placed.items.Pairwise (·.1 < ·.1)) :
    placed.Committed w.db.committed (w.db.commit t).committed :=
  committed_of hat.commits hsorted

namespace Committed

omit [DecidableEq T]

variable {placed : PlacedOrder T} {old new : Tables T} (h : placed.Committed old new)

include h

theorem order_cases {n : ℕ} {order : OrderRow T} (hn : new (.order n) = some order) :
    old (.order n) = some order ∨ (n = placed.orderId ∧ order = placed.order) := by
  by_cases hne : n = placed.orderId
  · subst hne
    rw [h.order] at hn
    cases hn
    exact .inr ⟨rfl, rfl⟩
  · exact .inl ((h.orders n hne).symm.trans hn)

theorem item_cases {id : ℕ} {row : OrderItemRow} (hid : new (.orderItem id) = some row) :
    old (.orderItem id) = some row ∨ (id, row) ∈ placed.items := by
  by_cases hmem : ∃ s ∈ placed.items, s.1 = id
  · obtain ⟨s, hs, rfl⟩ := hmem
    rw [h.items s hs] at hid
    cases hid
    exact .inr hs
  · exact .inl ((h.items_other id fun s hs hne => hmem ⟨s, hs, hne⟩).symm.trans hid)

theorem keep_item {id : ℕ} {row : OrderItemRow} (hid : old (.orderItem id) = some row) :
    new (.orderItem id) = some row := by
  refine (h.items_other id ?_).trans hid
  rintro s hs rfl
  rw [h.items_old s hs] at hid
  cases hid

theorem message_cases {id : ℕ} {row : OutboxMessageRow} (hid : new (.outboxMessage id) = some row) :
    old (.outboxMessage id) = some row ∨ (id = placed.outboxId ∧ row = placed.outbox) := by
  by_cases hne : id = placed.outboxId
  · subst hne
    rw [h.message] at hid
    cases hid
    exact .inr ⟨rfl, rfl⟩
  · exact .inl ((h.messages id hne).symm.trans hid)

theorem keep_message {id : ℕ} {row : OutboxMessageRow} (hid : old (.outboxMessage id) = some row) :
    new (.outboxMessage id) = some row := by
  have hne : id ≠ placed.outboxId := by
    rintro rfl
    rw [h.message_old] at hid
    cases hid
  exact (h.messages id hne).trans hid

theorem keep_event {e : String} {id : ℕ} (he : old (.outboxEventId e) = some id) :
    new (.outboxEventId e) = some id := by
  have hne : e ≠ placed.outbox.eventId := by
    rintro rfl
    rw [h.event_old] at he
    cases he
  exact (h.events e hne).trans he

end Committed

end PlacedOrder

variable {A : Allowed T} {C : T → ShopWorld T → ShopWorld T → Prop}

/-- What a discipline says about the prices that the two loops read: `seen` of the first read,
`agree` of the price stored for the same item. -/
structure PriceReads (D : Discipline ((ShopMachine T).restrict A C)) (t : T)
    (items : List CreateOrderItemInput) (key : String) where
  seen : ℕ → ℕ → ℤ → ShopWorld T → Prop
  agree : ℕ → ℤ → ℤ → Prop
  kept : ∀ i p price, Kept D t (seen i p price)
  first : ∀ {ws w i} {p : ℕ} {row}, D.inv w → At t ws (2 + i) w →
    (∃ stored new, storedKey key = some stored ∧ ws (.idempotencyKey stored) = some ⟨none, new⟩) →
    (items[i]?.map (·.productId)) = some (.integer p) →
    w.db.committed (.product p) = some row → row.isActive = true →
    seen i p row.price ⟨w.db.setTxn t ⟨.inProgress, 2 + i + 1⟩, w.env⟩
  second : ∀ {ws w i} {p : ℕ} {price row}, D.inv w → At t ws (3 + items.length + 2 * i) w →
    (items[i]?.map (·.productId)) = some (.integer p) → w.db.committed (.product p) = some row →
    seen i p price w → agree p price row.price

variable {D : Discipline ((ShopMachine T).restrict A C)} {t : T} {items : List CreateOrderItemInput}
  {key : String}

namespace PriceReads

variable (S : PriceReads D t items key)

def seenFrom : ℕ → List OrderLine → ShopWorld T → Prop
  | _, [], _ => True
  | i, line :: lines, w => S.seen i line.productId line.price w ∧ seenFrom (i + 1) lines w

theorem seenFrom_kept (i : ℕ) (lines : List OrderLine) : Kept D t (S.seenFrom i lines) := by
  induction lines generalizing i with
  | nil => exact .const
  | cons line lines ih => exact (S.kept i _ _).and (ih (i + 1))

structure Stores (orderId : ℕ) (line : OrderLine) (stored : ℕ × OrderItemRow) : Prop where
  orderId : stored.2.orderId = orderId
  productId : stored.2.productId = line.productId
  quantity : stored.2.quantity = line.quantity
  price : S.agree line.productId line.price stored.2.unitPrice

structure Places (caller : T) (placed : PlacedOrder T) (lines : List OrderLine) : Prop where
  bound : placed.bound = if placed.key = key then some placed.orderId else none
  key : storedKey key = some placed.key
  status : placed.order.status = .created
  placedBy : placed.order.placedBy = some caller
  input : items = lines.map OrderLine.input
  quantities : ∀ line ∈ lines, 0 < line.quantity
  total : placed.order.totalAmount = linesTotal lines
  stored : List.Forall₂ (S.Stores placed.orderId) lines placed.items
  sorted : placed.items.Pairwise (·.1 < ·.1)
  eventId : placed.outbox.eventId = orderPlacedEventId placed.orderId
  payload : ∃ occurredAt, placed.outbox.payload = toOrderPlacedEvent
    ⟨placed.outbox.eventId, placed.orderId, placed.order.userId, items, placed.order.totalAmount⟩ occurredAt
  publishedAt : placed.outbox.publishedAt = none
  attempts : placed.outbox.attempts = 0

end PriceReads

def ItemsDrawn (stored : List (ℕ × OrderItemRow)) (w : ShopWorld T) : Prop :=
  ∀ s ∈ stored, s.1 + 1 ≤ w.db.seq .orderItems

theorem itemsDrawn_kept (stored : List (ℕ × OrderItemRow)) : Kept D t (ItemsDrawn stored) :=
  .each fun s => .imp fun _ => .seq_le Serial.orderItems (s.1 + 1)

structure PlaceRules (D : Discipline ((ShopMachine T).restrict A C)) (t : T)
    (items : List CreateOrderItemInput) (key : String) (φ : Failure → Prop)
    (Z : OrderResponse → ShopWorld T → Prop) where
  calm : Calm D
  reads : PriceReads D t items key
  -- the sequence of the orders never falls below it
  firstOrder : ℕ := 0
  ordersFrom : ∀ {w}, D.inv w → firstOrder ≤ w.db.seq .orders := by exact fun _ => Nat.zero_le _
  stable : ∀ response, D.Stable t (Z response)
  failures : ∀ e, e ≠ keyWithoutOrder → φ e
  starts : ∀ {w}, D.inv w → D.Allows t w ⟨w.db.setTxn t ⟨.inProgress, 0⟩, w.env⟩
  places : ∀ {w r} placed lines, D.inv w → At t placed.workspace (5 + 3 * items.length) w →
    reads.Places t placed lines → ItemsDrawn placed.items w → firstOrder ≤ placed.orderId →
    A t (.sql .commit) w r ⟨w.db.commit t, w.env⟩ →
    D.Allows t w ⟨w.db.commit t, w.env⟩ ∧
      Z ⟨placed.orderId, items, placed.order.totalAmount, .created⟩ ⟨w.db.commit t, w.env⟩

structure PlaceSteps (D : Discipline ((ShopMachine T).restrict A C)) (t : T)
    (items : List CreateOrderItemInput) (key : String) (φ : Failure → Prop)
    (Z : OrderResponse → ShopWorld T → Prop) where
  calm : Calm D
  reads : PriceReads D t items key
  firstOrder : ℕ := 0
  ordersFrom : ∀ {w}, D.inv w → firstOrder ≤ w.db.seq .orders := by exact fun _ => Nat.zero_le _
  stable : ∀ response, D.Stable t (Z response)
  failures : ∀ e, e ≠ keyWithoutOrder → φ e
  buyer : ℕ → Prop
  chooses : ∀ {w : ShopWorld T} {userId}, D.inv w →
    firstUser (⟨w.db.committed, w.db.seq⟩ : View T) = some userId → buyer userId
  places : ∀ {w r} placed lines, D.inv w → At t placed.workspace (5 + 3 * items.length) w →
    reads.Places t placed lines → buyer placed.order.userId → ItemsDrawn placed.items w →
    firstOrder ≤ placed.orderId → A t (.sql .commit) w r ⟨w.db.commit t, w.env⟩ →
    D.Allows t w ⟨w.db.commit t, w.env⟩ ∧
      Z ⟨placed.orderId, items, placed.order.totalAmount, .created⟩ ⟨w.db.commit t, w.env⟩

def PlaceRules.steps {φ : Failure → Prop} {Z : OrderResponse → ShopWorld T → Prop} (H : PlaceRules D t items key φ Z) :
    PlaceSteps D t items key φ Z where
  calm := H.calm
  reads := H.reads
  firstOrder := H.firstOrder
  ordersFrom := H.ordersFrom
  stable := H.stable
  failures := H.failures
  buyer _ := True
  chooses _ _ := trivial
  places placed lines hi hat hp _ := H.places placed lines hi hat hp

structure CreateRules (D : Discipline ((ShopMachine T).restrict A C)) (t : T)
    (items : List CreateOrderItemInput) (key : String) (φ : Failure → Prop)
    (Z : OrderResponse → ShopWorld T → Prop) extends PlaceRules D t items key φ Z where
  bound : ∀ {w stored row}, D.inv w → storedKey key = some stored →
    w.db.committed (.idempotencyKey stored) = some row → (stored = key → row.orderId = none) → φ keyWithoutOrder
  replays : ∀ {w row response c}, D.inv w →
    At t (Workspace.empty.set (.idempotencyKey key) ⟨some row, row⟩) c w → row.orderId = some response.id →
    D.Allows t w ⟨w.db.commit t, w.env⟩ ∧ Z response ⟨w.db.commit t, w.env⟩

section Loops

variable {ws : Workspace Key (Row T)} {F : ShopWorld T → Prop} {φ : Failure → Prop}
  (hD : Calm D) (hF : Kept D t F) (hφ : ∀ e, e ≠ keyWithoutOrder → φ e)
  (hws : ∀ p, ws (.product p) = none)

include hD hF hφ hws

theorem selectProduct_spec {c : ℕ} (active : Bool) (productId : JsNumber)
    {G : ℕ → ProductRow → ShopWorld T → Prop} (hG : ∀ p row, Kept D t (G p row))
    (h : ∀ w (p : ℕ) row, D.inv w → At t ws c w → F w → productId = .integer p →
      w.db.committed (.product p) = some row → (active = true → row.isActive = true) →
      G p row ⟨w.db.setTxn t ⟨.inProgress, c + 1⟩, w.env⟩) :
    D.Triple t (fun w => At t ws c w ∧ F w) (selectProduct active productId)
      (fun row w => ∃ p : ℕ, productId = .integer p ∧ At t ws (c + 1) w ∧ F w ∧ G p row w) fun e _ => φ e := by
  have hY := Fails.const (D := D) (t := t) (F := F) (hφ .database (by simp [keyWithoutOrder]))
  cases productId with
  | other => exact hY.throw
  | integer n =>
    simp only [selectProduct]
    split
    · have hG' : ∀ v : View T, Kept D t fun w =>
          ∀ p row, n = Int.ofNat p → v.row (.product p) = some row → (active = true → row.isActive = true) →
            G p row w := by
        intro v
        constructor
        · intro w w' hi hv hs p row hn hr hactive
          exact (hG p row).stable w w' hi (hv p row hn hr hactive) hs
        · intro w db hi hv hw p row hn hr hactive
          exact (hG p row).works hi (hv p row hn hr hactive) hw
      apply Discipline.Triple.bind (statement_spec hD hF hY hG' _)
      · intro v
        split
        · exact .throw .const fun _ _ _ => hφ _ (by simp [keyWithoutOrder, productMissing])
        · rename_i row hrow
          refine .pure (.exists fun p => .and .const (At.stable.and (hF.stable.and (hG p row).stable))) ?_
          rintro w - ⟨hat, hf, hv⟩
          obtain ⟨hrow, hactive⟩ := Option.filter_eq_some_iff.mp hrow
          split_ifs at hrow with hn
          have hn' : n = Int.ofNat n.toNat := (Int.toNat_of_nonneg hn).symm
          exact ⟨n.toNat, congrArg JsNumber.integer hn', hat, hf, hv n.toNat row hn' hrow
            (by simpa [imp_iff_not_or] using hactive)⟩
      · rintro w hi hat hf p row rfl hr
        have hc : w.db.visible t (.product p) = some row := hr
        rw [hat.visible_of_none (hws p)] at hc
        exact h w p row hi hat hf rfl hc
    · exact hY.throw

theorem totalAmount_spec (S : PriceReads D t items key)
    (hkey : ∃ stored new, storedKey key = some stored ∧ ws (.idempotencyKey stored) = some ⟨none, new⟩)
    {rest : List CreateOrderItemInput} {i : ℕ} (hrest : items.drop i = rest) (total : ℤ) :
    D.Triple t (fun w => At t ws (2 + i) w ∧ F w) (totalAmount rest total)
      (fun r w => ∃ lines, (rest = lines.map OrderLine.input ∧ (∀ line ∈ lines, 0 < line.quantity) ∧
      r = total + linesTotal lines) ∧ At t ws (2 + i + rest.length) w ∧ F w ∧ S.seenFrom i lines w)
      fun e _ => φ e := by
  induction rest generalizing i total F with
  | nil =>
    refine .pure (.exists fun lines => .and .const
      (At.stable.and (hF.stable.and (S.seenFrom_kept i lines).stable))) ?_
    rintro w - ⟨hat, hf⟩
    exact ⟨[], ⟨rfl, by simp, by simp [linesTotal]⟩, hat, hf, trivial⟩
  | cons item rest ih =>
    have hitem : items[i]? = some item := by
      have h := congrArg (·[0]?) hrest
      simpa using h
    have hdrop : items.drop (i + 1) = rest := by
      rw [← List.drop_drop, hrest]
      rfl
    unfold totalAmount
    split
    · exact .throw .const fun _ _ _ => hφ _ (by simp [keyWithoutOrder])
    · rename_i productId quantity hnumbers
      obtain ⟨rfl, -, hquantity⟩ := numbers_eq_some hnumbers
      refine .bind (selectProduct_spec hD hF hφ hws true _
        (fun p row => S.kept i p row.price) ?_) fun row => ?_
      · intro w p row hi hat _ hp hc hactive
        refine S.first hi hat hkey ?_ hc (hactive rfl)
        rw [hitem]
        exact congrArg some hp
      · refine .exists_pre fun p => .pure_pre fun hp => ?_
        obtain rfl : productId = Int.ofNat p := by simpa using hp
        refine (ih (hF.and (S.kept i p row.price)) hdrop (total + row.price * quantity)).conseq
          (fun w _ h => h) ?_ fun _ _ _ h => h
        rintro r w - ⟨lines, ⟨hlines, hpos, hr⟩, hat, ⟨hf, hseen⟩, hseens⟩
        refine ⟨⟨p, quantity, row.price⟩ :: lines, ⟨?_, ?_, ?_⟩, ?_, hf, hseen, hseens⟩
        · rw [hlines]
          rfl
        · simpa using ⟨hquantity, hpos⟩
        · rw [hr]
          simp [linesTotal, add_assoc]
        · have hc : 2 + i + (rest.length + 1) = 2 + (i + 1) + rest.length := by omega
          rw [List.length_cons, hc]
          exact hat

theorem insertOrderItems_spec (S : PriceReads D t items key) (orderId : ℕ) (lines : List OrderLine) {i n : ℕ}
    (hlines : items.drop i = lines.map OrderLine.input) (hitems : ∀ id, n ≤ id → ws (.orderItem id) = none) :
    D.Triple t (fun w => At t ws (3 + items.length + 2 * i) w ∧ F w ∧ S.seenFrom i lines w ∧ n ≤ w.db.seq .orderItems)
      (insertOrderItems orderId (lines.map OrderLine.input))
      (fun _ w => ∃ stored, (List.Forall₂ (S.Stores orderId) lines stored ∧ stored.Pairwise (·.1 < ·.1) ∧
      ∀ s ∈ stored, n ≤ s.1) ∧
      At t (insertItems ws stored) (3 + items.length + 2 * (i + lines.length)) w ∧ F w ∧
      n ≤ w.db.seq .orderItems ∧ ItemsDrawn stored w)
      fun e _ => φ e := by
  induction lines generalizing i n ws with
  | nil =>
    refine .pure (.exists fun stored => .and .const (At.stable.and (hF.stable.and
      ((Kept.seq_le .orderItems n).and (itemsDrawn_kept stored)).stable))) ?_
    rintro w - ⟨hat, hf, -, hseq⟩
    exact ⟨[], ⟨.nil, .nil, by simp⟩, hat, hf, hseq, by simp [ItemsDrawn]⟩
  | cons line lines ih =>
    have hitem : items[i]? = some line.input := by
      have h := congrArg (·[0]?) hlines
      simpa using h
    have hdrop : items.drop (i + 1) = lines.map OrderLine.input := by
      rw [← List.drop_drop, hlines]
      rfl
    have hseen := S.kept i line.productId line.price
    have hF' := hF.and ((S.seenFrom_kept (i + 1) lines).and (.seq_le .orderItems n))
    have hY := Fails.const (D := D) (t := t) (F := fun w => F w ∧ S.seenFrom (i + 1) lines w ∧
      n ≤ w.db.seq .orderItems) (hφ .database (by simp [keyWithoutOrder]))
    refine (Discipline.Triple.bind (selectProduct_spec hD (hseen.and hF') hφ hws false _
      (G := fun p row _ => S.agree p line.price row.price) (fun _ _ => .const) ?_) fun row => ?_).pre
      fun w _ h => ⟨h.1, h.2.2.1.1, h.2.1, h.2.2.1.2, h.2.2.2⟩
    · rintro w p row hi hat ⟨hs, -⟩ hp hc -
      obtain rfl : line.productId = p := Int.ofNat_inj.mp (JsNumber.integer.inj hp)
      exact S.second hi hat (by rw [hitem]; rfl) hc hs
    · refine .exists_pre fun p => .pure_pre fun hp => ?_
      obtain rfl : line.productId = p := Int.ofNat_inj.mp (JsNumber.integer.inj hp)
      refine Discipline.Triple.pre (P := fun w => S.agree line.productId line.price row.price ∧
        At t ws (3 + items.length + 2 * i + 1) w ∧ F w ∧ S.seenFrom (i + 1) lines w ∧
        n ≤ w.db.seq .orderItems) (.pure_pre fun hagree => ?_) fun w _ h => ⟨h.2.2, h.1, h.2.1.2⟩
      refine .bind (insertWithId_spec hD hF' hY (fun w _ h => h.2.2) hitems) fun id => ?_
      refine .pure_pre fun ⟨hid, _⟩ => ?_
      let ws' : Workspace Key (Row T) :=
        ws.set (.orderItem id) ⟨none, ⟨orderId, line.productId, line.quantity, row.price⟩⟩
      have hws' : ∀ p, ws' (.product p) = none := fun p => (Workspace.set_of_ne (by simp)).trans (hws p)
      have hitems' : ∀ j, id + 1 ≤ j → ws' (.orderItem j) = none :=
        fun j hj => (Workspace.set_of_ne (by simp; omega)).trans (hitems j (by omega))
      have hstep := ih hws' hdrop hitems'
      have hc : 3 + items.length + 2 * i + 1 + 1 = 3 + items.length + 2 * (i + 1) := by omega
      have hc' : i + 1 + lines.length = i + (lines.length + 1) := by omega
      rw [hc'] at hstep
      refine hstep.conseq ?_ ?_ fun _ _ _ h => h
      · rintro w - ⟨hat, ⟨hf, hseens, -⟩, hseq⟩
        exact ⟨hc ▸ hat, hf, hseens, hseq⟩
      · rintro _ w - ⟨stored, ⟨hstored, hsorted, hge⟩, hat, hf, hseq, hdrawn⟩
        refine ⟨(id, ⟨orderId, line.productId, line.quantity, row.price⟩) :: stored,
          ⟨.cons ⟨rfl, rfl, rfl, hagree⟩ hstored, List.pairwise_cons.mpr ⟨fun s hs => hge s hs, hsorted⟩, ?_⟩,
          hat, hf, hid.trans (Nat.le_of_succ_le hseq), List.forall_mem_cons.mpr ⟨hseq, hdrawn⟩⟩
        intro s hs
        rcases List.mem_cons.mp hs with rfl | hs
        · exact hid
        · exact hid.trans (Nat.le_of_succ_le (hge s hs))

end Loops

theorem insertOrderPlacedOutbox_spec {ws : Workspace Key (Row T)} {c n : ℕ} {F : ShopWorld T → Prop}
    {φ : Failure → Prop} (hD : Calm D) (hF : Kept D t F) (hφ : φ .database) (event : OrderPlacedPayload)
    (hn : ∀ w, D.inv w → F w → n ≤ w.db.seq .outboxMessages)
    (hmessage : ∀ id, n ≤ id → ws (.outboxMessage id) = none) :
    D.Triple t (fun w => At t ws c w ∧ F w) (insertOrderPlacedOutbox event)
      (fun _ w => ∃ (id : ℕ) (row : OutboxMessageRow),
      (n ≤ id ∧ row.eventId = event.eventId ∧ row.payload = event ∧ (row.publishedAt = none ∧ row.attempts = 0) ∧
      ws (.outboxEventId row.eventId) = none) ∧
      At t ((ws.set (.outboxMessage id) ⟨none, row⟩).set (.outboxEventId row.eventId) ⟨none, id⟩)
      (c + 1) w ∧ F w ∧ id + 1 ≤ w.db.seq .outboxMessages) fun e _ => φ e := by
  have hY (F : ShopWorld T → Prop) := Fails.const (D := D) (t := t) (F := F) hφ
  refine .bind (clock_spec hD (At.stable.and hF.stable) fun _ => .const) fun createdAt => ?_
  refine .bind (insertWithId_spec hD hF (hY F) hn hmessage) fun id => .pure_pre fun ⟨hid, _⟩ => ?_
  have hF' := hF.and (.seq_le .outboxMessages (id + 1))
  have hevent (ch : Change OutboxMessageRow) :
      ws.set (.outboxMessage id) ch (.outboxEventId event.eventId) = ws (.outboxEventId event.eventId) :=
    Workspace.set_of_ne (by simp)
  cases hws : ws (.outboxEventId event.eventId) with
  | some ch => exact insertOrFail_own_spec hD hF' (hY _) ((hevent _).trans hws)
  | none =>
    refine (insertOrFail_spec hD hF' (hY _) ((hevent _).trans hws)).conseq (fun _ _ h => h) ?_ fun _ _ _ h => h
    rintro _ w - ⟨-, hat, hf⟩
    exact ⟨id, _, ⟨hid, rfl, rfl, ⟨rfl, rfl⟩, hws⟩, hat, hf⟩

theorem findByIdWithClient_spec {ws : Workspace Key (Row T)} {c : ℕ} {F : ShopWorld T → Prop}
    {φ : Failure → Prop} (hD : Calm D) (hF : Kept D t F) (hφ : ∀ e, e ≠ keyWithoutOrder → φ e) (id : ℕ) :
    D.Triple t (fun w => At t ws c w ∧ F w) (findByIdWithClient id)
      (fun response w => response.id = id ∧ At t ws (c + 2) w ∧ F w) fun e _ => φ e := by
  have hY := Fails.const (D := D) (t := t) (F := F) (hφ .database (by simp [keyWithoutOrder]))
  refine .bind (statement_spec hD hF hY (fun _ => .const) fun _ _ _ _ => trivial) fun view => ?_
  split
  · exact .throw .const fun _ _ _ => hφ _ (by simp [keyWithoutOrder])
  · refine (Discipline.Triple.bind (statement_spec hD hF hY (fun _ => .const) fun _ _ _ _ => trivial)
      fun itemsView => ?_).pre fun w _ h => ⟨h.1, h.2.1⟩
    refine .pure (.and .const (At.stable.and hF.stable)) ?_
    exact fun w _ h => ⟨rfl, h.1, h.2.1⟩

omit [DecidableEq T] in
theorem firstUser_congr {view view' : View T} (hseq : view.seq = view'.seq)
    (hrow : ∀ u, view.row (.user u) = view'.row (.user u)) : firstUser view = firstUser view' := by
  unfold firstUser
  rw [hseq]
  exact congrArg (List.find? · _) (funext fun u => by rw [hrow])

theorem insertKey_spec {F : ShopWorld T → Prop} {φ : Failure → Prop} (hD : Calm D) (hF : Kept D t F)
    (hφ : φ .database) :
    D.Triple t (fun w => At t Workspace.empty 0 w ∧ F w) (insertKey key)
      (fun reserved w => ∃ stored, storedKey key = some stored ∧
      if reserved then At t (Workspace.empty.set (.idempotencyKey stored) ⟨none, ⟨none⟩⟩) 1 w ∧ F w
      else At t Workspace.empty 1 w ∧ F w ∧ ∃ row, w.db.committed (.idempotencyKey stored) = some row)
      fun e _ => φ e := by
  have hY := Fails.const (D := D) (t := t) (F := F) hφ
  unfold insertKey
  split
  · exact hY.throw
  · rename_i stored hstored
    refine (insertOrSkip_spec hD hF hY rfl).conseq (fun _ _ h => h) ?_ fun _ _ _ h => h
    intro reserved w _ h
    refine ⟨stored, hstored, ?_⟩
    cases reserved with
    | true => exact h.2
    | false => exact h

-- a key that the column does not keep as it is stays without its order
theorem updateKey_spec {ws : Workspace Key (Row T)} {c : ℕ} {F : ShopWorld T → Prop} {φ : Failure → Prop}
    {stored : String} (hD : Calm D) (hF : Kept D t F) (hφ : φ .database) (hstored : storedKey key = some stored)
    (hws : ws (.idempotencyKey stored) = some ⟨none, ⟨none⟩⟩) (orderId : ℕ) :
    D.Triple t (fun w => At t ws c w ∧ F w) (updateKey key orderId)
      (fun _ w => At t (ws.set (.idempotencyKey stored) ⟨none, ⟨if stored = key then some orderId else none⟩⟩)
      (c + 1) w ∧ F w) fun e _ => φ e := by
  have hY := Fails.const (D := D) (t := t) (F := F) hφ
  unfold updateKey
  rw [hstored]
  split
  · rename_i hkept
    obtain rfl := Option.some.inj hkept
    rw [if_pos rfl]
    refine .bind (updateWhere_own_spec hD hF hY hws rfl) fun _ => .pure_pre fun _ => ?_
    exact .pure (At.stable.and hF.stable) fun _ _ h => h
  · rename_i hcut
    rw [if_neg fun h => hcut (congrArg some h), Workspace.set_eq_self hws]
    refine .bind (statement_spec hD hF hY (fun _ => .const) fun _ _ _ _ => trivial) fun _ => ?_
    exact .pure (At.stable.and hF.stable) fun _ _ h => ⟨h.1, h.2.1⟩

namespace PlaceSteps

variable {φ : Failure → Prop} {Z : OrderResponse → ShopWorld T → Prop}
  (H : PlaceSteps D t items key φ Z) {stored : String} (hstored : storedKey key = some stored)

include H hstored

theorem placeOrder_spec :
    D.Triple t (fun w => At t (Workspace.empty.set (.idempotencyKey stored) ⟨none, ⟨none⟩⟩) 1 w ∧ True)
      (placeOrder t items key) Z fun e _ => φ e := by
  have hφ := H.failures .database (by simp [keyWithoutOrder])
  have hY (F : ShopWorld T → Prop) := Fails.const (D := D) (t := t) (F := F) hφ
  refine .bind (statement_spec H.calm .const (hY _)
    (G := fun view _ => ∀ userId, firstUser view = some userId → H.buyer userId) (fun _ => .const) ?_) fun view => ?_
  · intro w hi hat _ userId hfirst
    have hsame : firstUser (⟨w.db.committed, w.db.seq⟩ : View T) = firstUser (w.db.snapshot t) :=
      firstUser_congr rfl fun u => (hat.visible_of_none (k := Key.user u) (Workspace.set_of_ne (by simp))).symm
    exact H.chooses hi (hsame.trans hfirst)
  split
  · exact .throw .const fun _ _ _ => H.failures _ (by simp [keyWithoutOrder])
  rename_i userId hfirst
  refine .pre (P := fun w => H.buyer userId ∧
    At t (Workspace.empty.set (.idempotencyKey stored) ⟨none, ⟨none⟩⟩) 2 w ∧ True) (.pure_pre fun hbuyer => ?_)
    fun w _ h => ⟨h.2.2 userId hfirst, h.1, trivial⟩
  refine (Discipline.Triple.bind (totalAmount_spec (i := 0) (F := fun _ => True) H.calm .const H.failures
    (fun p => Workspace.set_of_ne (by simp)) H.reads ⟨_, _, hstored, Workspace.set_self⟩ rfl 0) fun total => ?_).pre
    fun w _ h => ⟨h.1, trivial⟩
  refine .exists_pre fun lines => .pure_pre ?_
  rintro ⟨hlines, hpos, htotal⟩
  replace hlines : items = lines.map OrderLine.input := hlines
  refine .pre (.bind (insertWithId_spec H.calm (H.reads.seenFrom_kept 0 lines) (hY _)
    (fun _ hi _ => H.ordersFrom hi) fun id _ => Workspace.set_of_ne (by simp)) fun orderId => ?_)
    fun w _ h => ⟨h.1, h.2.2⟩
  refine .pure_pre ?_
  rintro ⟨hfirst, -⟩
  let ws : Workspace Key (Row T) := (Workspace.empty.set (.idempotencyKey stored) ⟨none, ⟨none⟩⟩).set (.order orderId)
    ⟨none, ⟨userId, .created, total, some t⟩⟩
  have hproducts : ∀ p, ws (.product p) = none :=
    fun p => (Workspace.set_of_ne (by simp)).trans (Workspace.set_of_ne (by simp))
  have hitems : ∀ id, 0 ≤ id → ws (.orderItem id) = none :=
    fun id _ => (Workspace.set_of_ne (by simp)).trans (Workspace.set_of_ne (by simp))
  have hloop := insertOrderItems_spec (F := fun _ => True) (i := 0) H.calm .const H.failures hproducts H.reads
    orderId lines hlines hitems
  rw [← hlines] at hloop
  refine .pre (.bind hloop fun _ => ?_) fun w _ h => ⟨?_, trivial, h.2.1, Nat.zero_le _⟩
  swap
  · have hc : 2 + 0 + items.length + 1 = 3 + items.length + 2 * 0 := by omega
    exact hc ▸ h.1
  refine .exists_pre fun rows => .pure_pre ?_
  rintro ⟨hrows, hsorted, -⟩
  have hdrawn := itemsDrawn_kept (D := D) (t := t) rows
  refine .pre (.bind (clock_spec H.calm (At.stable.and hdrawn.stable) fun _ => .const) fun occurredAt => ?_)
    fun w _ h => ⟨h.1, h.2.2.2⟩
  refine .bind (insertOrderPlacedOutbox_spec (n := 0) H.calm hdrawn hφ _ (fun _ _ _ => Nat.zero_le _)
    fun id _ => ?_) fun _ => ?_
  · apply (insertItems_of_ne (by simp)).trans
    exact (Workspace.set_of_ne (by simp)).trans (Workspace.set_of_ne (by simp))
  refine .exists_pre fun outboxId => .exists_pre fun row => .pure_pre ?_
  rintro ⟨-, hid, hpayload, hunpublished, -⟩
  have hkey : (((insertItems ws rows).set (.outboxMessage outboxId) ⟨none, row⟩).set
      (.outboxEventId row.eventId) ⟨none, outboxId⟩) (.idempotencyKey stored) = some ⟨none, ⟨none⟩⟩ := by
    apply (Workspace.set_of_ne (by simp)).trans
    apply (Workspace.set_of_ne (by simp)).trans
    apply (insertItems_of_ne (by simp)).trans
    exact (Workspace.set_of_ne (by simp)).trans Workspace.set_self
  refine .pre (.bind (updateKey_spec H.calm hdrawn hφ hstored hkey orderId) fun _ => ?_) fun w _ h => ⟨h.1, h.2.1⟩
  refine .bind (commit_spec H.calm hdrawn (hY _) (H.stable _) ?_) fun _ => .pure (H.stable _) fun _ _ h => h
  intro w r hi hat hdrawn ha
  have hc : 3 + items.length + 2 * (0 + lines.length) + 1 + 1 = 5 + 3 * items.length := by
    rw [hlines, List.length_map]
    omega
  rw [hc] at hat
  obtain ⟨hall, hz⟩ := H.places
    ⟨stored, _, orderId, ⟨userId, .created, total, some t⟩, rows, outboxId, row⟩ lines hi hat
    { key := hstored
      bound := rfl
      status := rfl
      placedBy := rfl
      input := hlines
      quantities := hpos
      total := by simpa using htotal
      stored := hrows
      sorted := hsorted
      eventId := hid
      payload := ⟨occurredAt, by rw [hpayload, hid]; rfl⟩
      publishedAt := hunpublished.1
      attempts := hunpublished.2 } hbuyer hdrawn hfirst ha
  exact ⟨hall, fun _ => hz, fun _ => hφ⟩

end PlaceSteps

theorem PlaceRules.placeOrder_spec {φ : Failure → Prop} {Z : OrderResponse → ShopWorld T → Prop} {stored : String}
    (H : PlaceRules D t items key φ Z) (hstored : storedKey key = some stored) :
    D.Triple t (fun w => At t (Workspace.empty.set (.idempotencyKey stored) ⟨none, ⟨none⟩⟩) 1 w ∧ True)
      (placeOrder t items key) Z fun e _ => φ e := H.steps.placeOrder_spec hstored

namespace CreateRules

variable {φ : Failure → Prop} {Z : OrderResponse → ShopWorld T → Prop}
  (H : CreateRules D t items key φ Z) {stored : String} (hstored : storedKey key = some stored)

include H hstored

theorem replayOrder_spec (c : ℕ) :
    D.Triple t (fun w => At t Workspace.empty c w ∧ ∃ row, w.db.committed (.idempotencyKey stored) = some row)
      (replayOrder key) Z fun e _ => φ e := by
  have hφ := H.failures .database (by simp [keyWithoutOrder])
  have hY (F : ShopWorld T → Prop) := Fails.const (D := D) (t := t) (F := F) hφ
  unfold replayOrder selectKeyForUpdate
  rw [hstored]
  split
  swap
  · rename_i hcut
    refine .bind (.bind (statement_spec H.calm (.present _) (hY _) (G := fun _ _ => φ keyWithoutOrder)
      (fun _ => .const) ?_) fun _ => .pure (Q := fun row _ => row = none ∧ φ keyWithoutOrder) .const ?_)
      fun row => .pure_pre ?_
    · exact fun w hi _ hrow => H.bound hi hstored hrow.choose_spec fun h => absurd (congrArg some h) hcut
    · exact fun w _ h => ⟨rfl, h.2.2⟩
    · rintro rfl
      exact .throw .const fun _ _ h => h
  rename_i hkept
  obtain rfl := Option.some.inj hkept
  refine .bind (selectForUpdate_spec H.calm (.present _) (hY _) rfl
    (G := fun (row : IdempotencyKeyRow) _ => row.orderId = none → φ keyWithoutOrder) (fun _ => .const)
        (N := fun _ => False) .const
    ?_ ?_) fun row => ?_
  · rintro w - - ⟨row, hrow⟩ hnone
    rw [hnone] at hrow
    cases hrow
  · exact fun w row hi _ _ hrow hnone => H.bound hi hstored hrow fun _ => hnone
  cases row with
  | none => exact .throw .const fun w _ h => h.2.2.elim
  | some row =>
    obtain ⟨orderId⟩ := row
    cases orderId with
    | none => exact .throw .const fun w _ h => h.2.2 rfl
    | some orderId =>
      refine .pre (.bind (findByIdWithClient_spec H.calm .const H.failures orderId) fun response => ?_)
        fun w _ h => ⟨h.1, trivial⟩
      refine .pure_pre ?_
      rintro rfl
      refine .bind (commit_spec H.calm .const (hY _) (H.stable response) ?_) fun _ =>
        .pure (H.stable response) fun _ _ h => h
      intro w r hi hat _ _
      obtain ⟨hall, hz⟩ := H.replays hi hat rfl
      exact ⟨hall, fun _ => hz, fun _ => hφ⟩

end CreateRules

/-- The requests that `create` does not turn down at once. -/
structure CreateOrderInput.Accepted (input : CreateOrderInput) (key : String) (items : List CreateOrderItemInput) :
    Prop where
  body : input.items = some items
  nonempty : items ≠ []
  nonblank : isBlank key = false

theorem create_spec_of {input : CreateOrderInput} {key : String} {φ : Failure → Prop} {F : ShopWorld T → Prop}
    {Z : OrderResponse → ShopWorld T → Prop} (hD : Calm D) (hF : Kept D t F) (hφ : φ .database)
    (hstart : ∀ w, D.inv w → F w →
      D.Allows t w ⟨w.db.setTxn t ⟨.inProgress, 0⟩, w.env⟩ ∧ F ⟨w.db.setTxn t ⟨.inProgress, 0⟩, w.env⟩)
    (hrejected : (∀ items, ¬input.Accepted key items) → ∀ message, φ (.badRequest message))
    (hplace : ∀ items stored, input.Accepted key items → storedKey key = some stored →
      D.Triple t (fun w => At t (Workspace.empty.set (.idempotencyKey stored) ⟨none, ⟨none⟩⟩) 1 w ∧ F w)
      (placeOrder t items key) Z fun e _ => φ e)
    (hreplay : ∀ items stored, input.Accepted key items → storedKey key = some stored →
      D.Triple t
      (fun w => At t Workspace.empty 1 w ∧ F w ∧ ∃ row, w.db.committed (.idempotencyKey stored) = some row)
      (replayOrder key) Z fun e _ => φ e) :
    D.Triple t (fun w => w.db.workspace t = Workspace.empty ∧ F w) (create t input key) Z fun e _ => φ e := by
  have hY := Fails.const (D := D) (t := t) (F := F) hφ
  unfold create
  split
  · rename_i hitems
    refine .throw .const fun _ _ _ => hrejected (fun items h => ?_) _
    rw [h.body] at hitems
    cases hitems
  · rename_i hitems
    refine .throw .const fun _ _ _ => hrejected (fun items h => h.nonempty ?_) _
    exact Option.some.inj (h.body.symm.trans hitems)
  rename_i items hne hitems
  split
  · rename_i hblank
    refine .throw .const fun _ _ _ => hrejected (fun items h => ?_) _
    rw [h.nonblank] at hblank
    cases hblank
  rename_i hblank
  have haccepted : input.Accepted key items := ⟨hitems, fun h => hne (h ▸ rfl), by simpa using hblank⟩
  refine Discipline.Triple.handle (Y := fun e _ => φ e) ?_ fun error => ?_
  · refine .bind (begin_spec hD hF.stable hstart (fun _ _ _ => hφ) fun _ => .const) fun _ => ?_
    refine .bind (insertKey_spec hD hF hφ) fun reserved => .exists_pre fun stored => .pure_pre fun hstored => ?_
    cases reserved with
    | true => exact hplace items stored haccepted hstored
    | false => exact hreplay items stored haccepted hstored
  · refine .bind (R := fun _ _ => φ error) (Discipline.Triple.handle (Y := fun _ _ => φ error)
      (hD.abort .const (fun _ _ h => ⟨h, h⟩) .const fun _ => .const) fun _ => ?_) fun _ => ?_
    · exact .pure .const fun _ _ h => h
    · exact .throw .const fun _ _ h => h

theorem create_spec {input : CreateOrderInput} {key : String} {φ : Failure → Prop}
    {Z : OrderResponse → ShopWorld T → Prop} (H : CreateRules D t (input.items.getD []) key φ Z) :
    D.Triple t (fun w => w.db.workspace t = Workspace.empty) (create t input key) Z fun e _ => φ e := by
  refine (create_spec_of (F := fun _ => True) H.calm .const (H.failures .database (by simp [keyWithoutOrder]))
    (fun w hi _ => ⟨H.starts hi, trivial⟩) (fun _ _ => H.failures _ (by simp [keyWithoutOrder])) ?_ ?_).pre
    fun w _ h => ⟨h, trivial⟩
  · intro items stored haccepted hstored
    rw [haccepted.body] at H
    exact H.placeOrder_spec hstored
  · exact fun items stored _ hstored => (H.replayOrder_spec hstored 1).pre fun w _ h => ⟨h.1, h.2.2⟩

end Marketplace
