import Marketplace.Broker

namespace Marketplace

open Concurrent ReadCommitted

structure CheckoutInput where
  userId : ℕ
  productId : ℕ
  quantity : JsNumber
  deriving DecidableEq, Repr

structure CheckoutResult where
  orderId : ℕ
  totalAmount : ℤ
  remainingStock : ℤ
  deriving DecidableEq, Repr

def insufficientStock : Failure := .checkoutError "INSUFFICIENT_STOCK"

def insufficientBalance : Failure := .checkoutError "INSUFFICIENT_BALANCE"

variable {T : Type}

-- a number sent where PostgreSQL expects an integer
def int4Parameter (n : ℤ) : ShopCall T Unit := if fitsInt4 n then pure () else throw .database

def executeCheckout (self : T) (input : CheckoutInput) (quantity : ℤ) : ShopCall T CheckoutResult := do
  int4Parameter quantity
  let updated ← update (Key.product input.productId) (fun product => quantity ≤ product.stockQuantity)
    fun product => { product with stockQuantity := product.stockQuantity - quantity }
  match updated with
  | none => throw insufficientStock
  | some product =>
    let totalAmount := product.price * quantity
    int4Parameter totalAmount
    let charged ← update (Key.user input.userId) (fun user => totalAmount ≤ user.balance)
      fun user => { user with balance := user.balance - totalAmount }
    match charged with
    | none => throw insufficientBalance
    | some _ =>
      let orderId ← insertReturningId .orders .order fun _ => ⟨input.userId, .created, totalAmount, some self⟩
      let _ ← insertReturningId .orderItems .orderItem fun _ => ⟨orderId, input.productId, quantity, product.price⟩
      let _ ← insertReturningId .postProcessingTasks .postProcessingTask
        fun _ => ⟨orderId, "order_confirmation", .pending, 0, none, none, none⟩
      pure ⟨orderId, totalAmount, product.stockQuantity⟩

def createOrderPlacedEvent (input : CheckoutInput) (quantity : ℤ) (result : CheckoutResult) (occurredAt : ℕ) :
    OrderPlacedEvent where
  eventId := orderPlacedEventId result.orderId
  type := orderPlacedType
  occurredAt := occurredAt
  data :=
    { orderId := Nat.repr result.orderId
      userId := Nat.repr input.userId
      productId := Nat.repr input.productId
      quantity := quantity
      totalAmount := result.totalAmount }

def checkout (self : T) (input : CheckoutInput) : ShopCall T CheckoutResult :=
  match input.quantity with
  | .other => throw (.error "Quantity must be a positive integer")
  | .integer quantity =>
    if quantity ≤ 0 then throw (.error "Quantity must be a positive integer")
    else do
      begin
      let result ← tryCatch (do
        let result ← executeCheckout self input quantity
        commit
        pure result)
        (fun error => do
          rollback
          throw error)
      let occurredAt ← clock
      publishOrderPlaced (.event (createOrderPlacedEvent input quantity result occurredAt))
      pure result

end Marketplace
