import Marketplace.OrderPlacedConsumer
import Marketplace.OrderReadBack

/-!
The shop as a store that serves one request after the other, each of them at once.
-/

namespace Marketplace

open ReadCommitted

inductive ShopRequest
  | create (input : CreateOrderInput) (idempotencyKey : String)
  | checkout (input : CheckoutInput)
  | relayOutboxBatch (options : RelayOptions)
  | processOrderPlacedEvent (event : ConsumedEvent)

inductive ShopAnswer
  | create (response : OrderResponse)
  | checkout (result : CheckoutResult)
  | relayOutboxBatch (stats : RelayStats)
  | processOrderPlacedEvent (result : ProcessResult)
  deriving DecidableEq, Repr

variable {T : Type}

def ShopRequest.run (self : T) : ShopRequest → ShopCall T ShopAnswer
  | .create input idempotencyKey => do
    let response ← Marketplace.create self input idempotencyKey
    pure (.create response)
  | .checkout input => do
    let result ← Marketplace.checkout self input
    pure (.checkout result)
  | .relayOutboxBatch options => do
    let stats ← Marketplace.relayOutboxBatch options
    pure (.relayOutboxBatch stats)
  | .processOrderPlacedEvent event => do
    let result ← Marketplace.processOrderPlacedEvent self event
    pure (.processOrderPlacedEvent result)

structure FirstUser (tables : Tables T) (n : ℕ) : Prop where
  user : (tables (.user n)).isSome
  least : ∀ u, (tables (.user u)).isSome → n ≤ u

def OrderLine.Listed (tables : Tables T) (p : ℕ) (price : ℤ) : Prop :=
  ∃ product, tables (.product p) = some product ∧ product.isActive = true ∧ product.price = price

def OrderLine.row (orderId : ℕ) (line : OrderLine) : OrderItemRow :=
  ⟨orderId, line.productId, line.quantity, line.price⟩

structure PlacedOrder.For (placed : PlacedOrder T) (caller : T) (items : List CreateOrderItemInput) (key : String)
    (lines : List OrderLine) (tables : Tables T) : Prop where
  bound : placed.bound = if placed.key = key then some placed.orderId else none
  key : storedKey key = some placed.key
  input : items = lines.map OrderLine.input
  priced : ∀ line ∈ lines, 0 < line.quantity ∧ OrderLine.Listed tables line.productId line.price
  buyer : FirstUser tables placed.order.userId
  order : placed.order = ⟨placed.order.userId, .created, linesTotal lines, some caller⟩
  stored : placed.items.map Prod.snd = lines.map (OrderLine.row placed.orderId)
  sorted : placed.items.Pairwise (·.1 < ·.1)
  eventId : placed.outbox.eventId = orderPlacedEventId placed.orderId
  payload : ∃ occurredAt, placed.outbox.payload = toOrderPlacedEvent
    ⟨orderPlacedEventId placed.orderId, placed.orderId, placed.order.userId, items, linesTotal lines⟩ occurredAt
  waiting : placed.outbox.publishedAt = none ∧ placed.outbox.attempts = 0

/-- The request is served at once: what it reads are the rows of `old`, and `new` has all that it writes. The
ids that it draws, the times that it reads and the rows that a relay passes over are left open. -/
inductive Serves (self : T) : ShopRequest → Tables T → ShopAnswer → Tables T → Prop
  | placed {input : CreateOrderInput} {key : String} {items : List CreateOrderItemInput} {placed : PlacedOrder T}
      {lines : List OrderLine} {old new : Tables T} (haccepted : input.Accepted key items)
      (hplaced : placed.For self items key lines old) (h : placed.workspace.Commits old new) :
      Serves self (.create input key) old (.create ⟨placed.orderId, items, linesTotal lines, .created⟩) new
  | replayed {input : CreateOrderInput} {key : String} {items : List CreateOrderItemInput} {response : OrderResponse}
      {old : Tables T} (haccepted : input.Accepted key items) (hkept : storedKey key = some key)
      (hkey : old (.idempotencyKey key) = some ⟨some response.id⟩) (hreads : ReadsAs old response) :
      Serves self (.create input key) old (.create response) old
  | sold {input : CheckoutInput} {quantity : ℤ} {placed : PlacedCheckout} {old new : Tables T}
      (hinput : input.quantity = .integer quantity) (hpos : 0 < quantity) (hof : placed.Of input quantity)
      (h : (placed.workspace self).Commits old new) : Serves self (.checkout input) old (.checkout placed.result) new
  | relayed {options : RelayOptions} {limit : ℕ} {rows : List (ℕ × OutboxMessageRow)} {ws : Workspace Key (Row T)}
      {old new : Tables T} (hlimit : options.limit = some limit) (hlength : rows.length ≤ limit)
      (hordered : rows.Pairwise Earlier) (hcrash : options.crashAfterPublish = true → rows = [])
      (hws : Relaying rows ws) (hmarked : Marked rows ws) (h : ws.Commits old new) :
      Serves self (.relayOutboxBatch options) old (.relayOutboxBatch ⟨rows.length, rows.length, rows.length⟩) new
  | applied {event : ConsumedEvent} {messageId : String} {effect : OrderEventEffectRow} {old new : Tables T}
      (hid : event.messageId = some messageId) (heffect : event.effect = some effect)
      (h : (applied self messageId effect).Commits old new) :
      Serves self (.processOrderPlacedEvent event) old (.processOrderPlacedEvent .applied) new
  | skipped {event : ConsumedEvent} {messageId : String} {old : Tables T} (hid : event.messageId = some messageId)
      (hmarker : ∃ row, old (.processedMessage messageId consumerName) = some row) :
      Serves self (.processOrderPlacedEvent event) old (.processOrderPlacedEvent .skipped) old

inductive ServesAll (requests : T → ShopRequest) : Tables T → List (T × ShopAnswer) → Tables T → Prop
  | nil (tables : Tables T) : ServesAll requests tables [] tables
  | cons {t : T} {answer : ShopAnswer} {calls : List (T × ShopAnswer)} {old tables new : Tables T}
      (h : Serves t (requests t) old answer tables) (hcalls : ServesAll requests tables calls new) :
      ServesAll requests old ((t, answer) :: calls) new

theorem ServesAll.append {requests : T → ShopRequest} {calls calls' : List (T × ShopAnswer)} {old tables new : Tables T}
    (h : ServesAll requests old calls tables) (h' : ServesAll requests tables calls' new) :
    ServesAll requests old (calls ++ calls') new := by
  induction h with
  | nil => exact h'
  | cons hserves _ ih => exact .cons hserves (ih h')

inductive Refuses (input : CheckoutInput) (tables : Tables T) : Failure → Prop
  | stock {quantity : ℤ} (hinput : input.quantity = .integer quantity)
      (h : ∀ product, tables (.product input.productId) = some product → product.stockQuantity < quantity) :
      Refuses input tables insufficientStock
  | balance {quantity : ℤ} {product : ProductRow} (hinput : input.quantity = .integer quantity)
      (hproduct : tables (.product input.productId) = some product) (hstock : quantity ≤ product.stockQuantity)
      (h : ∀ user, tables (.user input.userId) = some user → user.balance < product.price * quantity) :
      Refuses input tables insufficientBalance

structure SameCatalog (old new : Tables T) : Prop where
  products : ∀ p, (new (.product p)).map (fun row => (row.price, row.isActive)) =
    (old (.product p)).map fun row => (row.price, row.isActive)
  users : ∀ u, (new (.user u)).isSome = (old (.user u)).isSome

namespace SameCatalog

variable {old new newer : Tables T}

theorem refl (tables : Tables T) : SameCatalog tables tables := ⟨fun _ => rfl, fun _ => rfl⟩

theorem trans (h : SameCatalog old new) (h' : SameCatalog new newer) : SameCatalog old newer :=
  ⟨fun p => (h'.products p).trans (h.products p), fun u => (h'.users u).trans (h.users u)⟩

theorem of_eq (hproducts : ∀ p, new (.product p) = old (.product p)) (husers : ∀ u, new (.user u) = old (.user u)) :
    SameCatalog old new := ⟨fun p => by rw [hproducts], fun u => by rw [husers]⟩

theorem listed (h : SameCatalog old new) {p : ℕ} {price : ℤ} :
    OrderLine.Listed new p price ↔ OrderLine.Listed old p price := by
  have hentry (tables : Tables T) : OrderLine.Listed tables p price ↔
      (tables (.product p)).map (fun row => (row.price, row.isActive)) = some (price, true) := by
    simp only [OrderLine.Listed, Option.map_eq_some_iff, Prod.mk.injEq]
    exact exists_congr fun row => and_congr_right fun _ => and_comm
  rw [hentry, hentry, h.products]

theorem firstUser (h : SameCatalog old new) {n : ℕ} : FirstUser new n ↔ FirstUser old n := by
  constructor
  · exact fun hn => ⟨h.users n ▸ hn.user, fun u hu => hn.least u (h.users u ▸ hu)⟩
  · exact fun hn => ⟨(h.users n).symm ▸ hn.user, fun u hu => hn.least u ((h.users u).symm ▸ hu)⟩

end SameCatalog

theorem PlacedOrder.For.orderId {placed : PlacedOrder T} {self : T} {items : List CreateOrderItemInput} {key : String}
    {lines : List OrderLine} {tables : Tables T} (h : placed.For self items key lines tables) :
    ∀ s ∈ placed.items, s.2.orderId = placed.orderId := by
  intro s hs
  have hrow : s.2 ∈ placed.items.map Prod.snd := List.mem_map_of_mem hs
  rw [h.stored] at hrow
  obtain ⟨line, -, hline⟩ := List.mem_map.mp hrow
  rw [← hline]
  rfl

namespace Serves

variable {self : T} {request : ShopRequest} {answer : ShopAnswer} {old new : Tables T}

theorem keeps (h : Serves self request old answer new) : Keeps old new := by
  cases h with
  | placed _ hplaced h => exact (PlacedOrder.committed_of h hplaced.sorted).keeps hplaced.orderId
  | replayed => exact .refl old
  | sold _ _ _ h => exact (PlacedCheckout.committed_of h).keeps
  | relayed _ _ _ _ hws hmarked h =>
    have hc := hws.committed_of hmarked h
    exact .of_eq (fun _ => hc.others _ (by simp)) (fun _ => hc.others _ (by simp)) fun _ => hc.others _ (by simp)
  | applied _ _ h =>
    have hsame {k : Key} (hmarker : ∀ m c, k ≠ .processedMessage m c) (heffect : ∀ m, k ≠ .orderEventEffect m) :
        new k = old k :=
      h.same ((Workspace.set_of_ne (heffect _)).trans (Workspace.set_of_ne (hmarker _ _)))
    exact .of_eq (fun _ => hsame (by simp) (by simp)) (fun _ => hsame (by simp) (by simp))
      fun _ => hsame (by simp) (by simp)
  | skipped => exact .refl old

theorem catalog (h : Serves self request old answer new) : SameCatalog old new := by
  cases h with
  | placed _ hplaced h =>
    have hc := PlacedOrder.committed_of h hplaced.sorted
    exact .of_eq hc.products hc.users
  | replayed => exact .refl old
  | @sold _ _ placed _ _ _ _ _ h =>
    have hc := PlacedCheckout.committed_of h
    constructor
    · intro p
      by_cases hp : p = placed.productId
      · subst hp
        rw [hc.product, hc.product_old]
        rfl
      · rw [hc.products p hp]
    · intro u
      by_cases hu : u = placed.userId
      · subst hu
        rw [hc.user, hc.user_old]
        rfl
      · rw [hc.users u hu]
  | relayed _ _ _ _ hws hmarked h =>
    have hc := hws.committed_of hmarked h
    exact .of_eq (fun _ => hc.others _ (by simp)) fun _ => hc.others _ (by simp)
  | applied _ _ h =>
    exact .of_eq (fun _ => h.same ((Workspace.set_of_ne (by simp)).trans (Workspace.set_of_ne (by simp))))
      fun _ => h.same ((Workspace.set_of_ne (by simp)).trans (Workspace.set_of_ne (by simp)))
  | skipped => exact .refl old

theorem createdAt_kept (h : Serves self request old answer new) {id : ℕ} {row : OutboxMessageRow}
    (hold : old (.outboxMessage id) = some row) :
    ∃ row', new (.outboxMessage id) = some row' ∧ row'.createdAt = row.createdAt := by
  cases h with
  | placed _ hplaced h => exact ⟨row, (PlacedOrder.committed_of h hplaced.sorted).keep_message hold, rfl⟩
  | replayed => exact ⟨row, hold, rfl⟩
  | sold _ _ _ h => exact ⟨row, ((PlacedCheckout.committed_of h).messages id).trans hold, rfl⟩
  | relayed _ _ _ _ hws hmarked h => exact hws.createdAt_kept hmarked h hold
  | applied _ _ h =>
    exact ⟨row, (h.same ((Workspace.set_of_ne (by simp)).trans (Workspace.set_of_ne (by simp)))).trans hold, rfl⟩
  | skipped => exact ⟨row, hold, rfl⟩

theorem references (h : Serves self request old answer new) :
    (∀ k n, new (.idempotencyKey k) = some ⟨some n⟩ →
      old (.idempotencyKey k) = some ⟨some n⟩ ∨ ∃ order, new (.order n) = some order) ∧
      ∀ id row, new (.orderItem id) = some row →
      old (.orderItem id) = some row ∨ ∃ order, new (.order row.orderId) = some order := by
  cases h with
  | @placed _ _ _ placed _ _ _ _ hplaced h =>
    have hc := PlacedOrder.committed_of h hplaced.sorted
    refine ⟨fun k n hk => ?_, fun id row hid => (hc.item_cases hid).imp_right fun hmem => ?_⟩
    · by_cases hkey : k = placed.key
      · subst hkey
        rw [hc.key, hplaced.bound] at hk
        obtain ⟨-, hn⟩ := Option.ite_none_right_eq_some.mp (IdempotencyKeyRow.mk.inj (Option.some.inj hk))
        obtain rfl := Option.some.inj hn
        exact .inr ⟨_, hc.order⟩
      · exact .inl ((hc.keys k hkey).symm.trans hk)
    · exact ⟨_, (hplaced.orderId _ hmem) ▸ hc.order⟩
  | replayed => exact ⟨fun _ _ => .inl, fun _ _ => .inl⟩
  | sold _ _ _ h =>
    have hc := PlacedCheckout.committed_of h
    refine ⟨fun k n hk => .inl ((hc.keys k).symm.trans hk), fun id row hid => (hc.item_cases hid).imp_right ?_⟩
    rintro ⟨-, rfl⟩
    exact ⟨_, hc.order⟩
  | relayed _ _ _ _ hws hmarked h =>
    have hc := hws.committed_of hmarked h
    exact ⟨fun k n hk => .inl ((hc.others _ (by simp)).symm.trans hk),
      fun id row hid => .inl ((hc.others _ (by simp)).symm.trans hid)⟩
  | applied _ _ h =>
    exact ⟨fun k n hk => .inl
      ((h.same ((Workspace.set_of_ne (by simp)).trans (Workspace.set_of_ne (by simp)))).symm.trans hk),
      fun id row hid => .inl
        ((h.same ((Workspace.set_of_ne (by simp)).trans (Workspace.set_of_ne (by simp)))).symm.trans hid)⟩
  | skipped => exact ⟨fun _ _ => .inl, fun _ _ => .inl⟩

theorem paired (h : Serves self request old answer new) (hold : Paired old) : Paired new := by
  have hsame (hmarker : ∀ m, new (.processedMessage m consumerName) = old (.processedMessage m consumerName))
      (heffect : ∀ m, new (.orderEventEffect m) = old (.orderEventEffect m)) : Paired new := by
    intro m
    rw [hmarker, heffect]
    exact hold m
  cases h with
  | @placed _ _ _ placed _ _ _ _ hplaced h =>
    have hnone {k : Key} (hk : placed.workspace k = none) : new k = old k := h.same hk
    exact hsame (fun m => hnone (placed.workspace_none (by simp) (by simp) (by simp) (by simp) (by simp)))
      fun m => hnone (placed.workspace_none (by simp) (by simp) (by simp) (by simp) (by simp))
  | replayed => exact hold
  | @sold _ _ placed _ _ _ _ _ h =>
    exact hsame
      (fun m => h.same (placed.workspace_none self (by simp) (by simp) (by simp) (by simp) (by simp)))
      fun m => h.same (placed.workspace_none self (by simp) (by simp) (by simp) (by simp) (by simp))
  | relayed _ _ _ _ hws hmarked h =>
    have hc := hws.committed_of hmarked h
    exact hsame (fun m => hc.others _ (by simp)) fun m => hc.others _ (by simp)
  | applied _ _ h => exact (applied_committed_of h).paired hold
  | skipped => exact hold

end Serves

end Marketplace
