import Marketplace.Broker

namespace Marketplace

open Concurrent ReadCommitted

structure CreateOrderInput where
  -- `none` when the body's `items` is not an array
  items : Option (List CreateOrderItemInput)
  deriving DecidableEq, Repr

structure OrderResponse where
  id : ℕ
  items : List CreateOrderItemInput
  totalCents : ℤ
  status : OrderStatus
  deriving DecidableEq, Repr

def keyWithoutOrder : Failure := .error "Idempotency key exists without completed order"

def productMissing (productId : ℤ) : Failure :=
  .badRequest ("Product " ++ Int.repr productId ++ " does not exist")

def CreateOrderItemInput.numbers (item : CreateOrderItemInput) : Option (ℤ × ℤ) :=
  match item.productId, item.quantity with
  | .integer productId, .integer quantity =>
    if productId ≤ 0 ∨ quantity ≤ 0 then none else some (productId, quantity)
  | _, _ => none

variable {T : Type}

def selectProduct (activeOnly : Bool) (productId : JsNumber) : ShopCall T ProductRow :=
  match productId with
  | .integer id =>
    if fitsInt8 id then do
      let view ← statement
      let found : Option ProductRow := if 0 ≤ id then view.row (.product id.toNat) else none
      match found.filter fun product => !activeOnly || product.isActive with
      | none => throw (productMissing id)
      | some product => pure product
    else throw .database
  | .other => throw .database

-- the first loop over the items
def totalAmount : List CreateOrderItemInput → ℤ → ShopCall T ℤ
  | [], total => pure total
  | item :: items, total =>
    match item.numbers with
    | none => throw (.badRequest "Invalid order item")
    | some (_, quantity) => do
      let product ← selectProduct true item.productId
      totalAmount items (total + product.price * quantity)

-- the second loop, which reads every price again
def insertOrderItems (orderId : ℕ) : List CreateOrderItemInput → ShopCall T Unit
  | [] => pure ()
  | item :: items => do
    let product ← selectProduct false item.productId
    match item.productId, item.quantity with
    | .integer productId, .integer quantity =>
      let _ ← insertReturningId .orderItems .orderItem
        fun _ => ⟨orderId, productId.toNat, quantity, product.price⟩
      insertOrderItems orderId items
    | _, _ => throw .database

def insertOrderPlacedOutbox (event : OrderPlacedPayload) : ShopCall T Unit := do
  let createdAt ← clock
  let id ← insertReturningId .outboxMessages .outboxMessage fun _ =>
    { eventId := event.eventId
      aggregateType := "order"
      aggregateId := Nat.repr event.data.orderId
      type := event.type
      payload := event
      createdAt := createdAt
      publishedAt := none
      attempts := 0 }
  insertUnique (.outboxEventId event.eventId) id

def View.orderItems (view : View T) (orderId : ℕ) : List OrderItemRow :=
  (List.range (view.seq .orderItems)).filterMap fun id =>
    (view.row (.orderItem id)).filter fun row => row.orderId = orderId

def findByIdWithClient (id : ℕ) : ShopCall T OrderResponse := do
  let view ← statement
  match view.row (.order id) with
  | none => throw (.notFound ("Order " ++ Nat.repr id ++ " not found"))
  | some order =>
    let itemsView ← statement
    pure
      { id := id
        items := (View.orderItems itemsView id).map fun item => ⟨.integer item.productId, .integer item.quantity⟩
        totalCents := order.totalAmount
        status := order.status }

-- the column `idempotency_key varchar(200)`
def storedKey (idempotencyKey : String) : Option String := varchar 200 idempotencyKey

def KeyKept (idempotencyKey : String) : Prop :=
  ∀ stored, storedKey idempotencyKey = some stored → stored = idempotencyKey

def insertKey (idempotencyKey : String) : ShopCall T Bool :=
  match storedKey idempotencyKey with
  | none => throw .database
  | some stored => insertOnConflictDoNothing (.idempotencyKey stored) ⟨none⟩

-- unlike an INSERT, a comparison does not cut the text, and no row has a text that the column would cut
def selectKeyForUpdate (idempotencyKey : String) : ShopCall T (Option IdempotencyKeyRow) :=
  if storedKey idempotencyKey = some idempotencyKey then selectForUpdate (Key.idempotencyKey idempotencyKey)
  else do
    let _ ← statement
    pure none

def updateKey (idempotencyKey : String) (orderId : ℕ) : ShopCall T Unit :=
  if storedKey idempotencyKey = some idempotencyKey then do
    let _ ← update (.idempotencyKey idempotencyKey) (fun _ => true) fun _ => ⟨some orderId⟩
    pure ()
  else do
    let _ ← statement
    pure ()

def replayOrder (idempotencyKey : String) : ShopCall T OrderResponse := do
  match ← selectKeyForUpdate idempotencyKey with
  | some ⟨some orderId⟩ =>
    let response ← findByIdWithClient orderId
    commit
    pure response
  | _ => throw keyWithoutOrder

def firstUser (view : View T) : Option ℕ :=
  (List.range (view.seq .users)).find? fun id => (view.row (.user id)).isSome

def placeOrder (self : T) (items : List CreateOrderItemInput) (idempotencyKey : String) :
    ShopCall T OrderResponse := do
  let view ← statement
  match firstUser view with
  | none => throw (.badRequest "No buyer available")
  | some userId =>
    let total ← totalAmount items 0
    let orderId ← insertReturningId .orders .order fun _ => ⟨userId, .created, total, some self⟩
    insertOrderItems orderId items
    let occurredAt ← clock
    let event := toOrderPlacedEvent ⟨orderPlacedEventId orderId, orderId, userId, items, total⟩ occurredAt
    insertOrderPlacedOutbox event
    updateKey idempotencyKey orderId
    commit
    pure ⟨orderId, items, total, .created⟩

def create (self : T) (input : CreateOrderInput) (idempotencyKey : String) : ShopCall T OrderResponse :=
  match input.items with
  | none | some [] => throw (.badRequest "Order must contain at least one item")
  | some items =>
    if isBlank idempotencyKey then throw (.badRequest "Idempotency-Key must not be empty")
    else
      tryCatch (do
        begin
        let reserved ← insertKey idempotencyKey
        if reserved then placeOrder self items idempotencyKey else replayOrder idempotencyKey)
        (fun error => do
          tryCatch rollback (fun _ => pure ())
          throw error)

end Marketplace
