import Marketplace.Values

namespace Marketplace

def orderPlacedType : String := "order.placed"

structure CreateOrderItemInput where
  productId : JsNumber
  quantity : JsNumber
  deriving DecidableEq, Repr

structure OrderPlacedItem where
  productId : JsNumber
  quantity : JsNumber
  deriving DecidableEq, Repr

structure OrderPlacedData where
  orderId : ℕ
  userId : ℕ
  items : List OrderPlacedItem
  totalAmount : ℤ
  deriving DecidableEq, Repr

structure OrderPlacedPayload where
  eventId : String
  type : String
  occurredAt : ℕ
  data : OrderPlacedData
  deriving DecidableEq, Repr

structure OrderPlacedEventData where
  orderId : String
  userId : String
  productId : String
  quantity : ℤ
  totalAmount : ℤ
  deriving DecidableEq, Repr

structure OrderPlacedEvent where
  eventId : String
  type : String
  occurredAt : ℕ
  data : OrderPlacedEventData
  deriving DecidableEq, Repr

-- what `publishOrderPlaced` is called with: by the relay, and by `checkout`
inductive OrderPlacedMessage
  | payload (p : OrderPlacedPayload)
  | event (e : OrderPlacedEvent)
  deriving DecidableEq, Repr

def OrderPlacedMessage.eventId : OrderPlacedMessage → String
  | .payload p => p.eventId
  | .event e => e.eventId

structure ToOrderPlacedEventInput where
  eventId : String
  orderId : ℕ
  userId : ℕ
  items : List CreateOrderItemInput
  totalAmount : ℤ

def toOrderPlacedEvent (input : ToOrderPlacedEventInput) (occurredAt : ℕ) : OrderPlacedPayload where
  eventId := input.eventId
  type := orderPlacedType
  occurredAt := occurredAt
  data :=
    { orderId := input.orderId
      userId := input.userId
      items := input.items.map (fun item => ⟨item.productId, item.quantity⟩)
      totalAmount := input.totalAmount }

def orderPlacedEventId (orderId : ℕ) : String := "order.placed:" ++ Nat.repr orderId

theorem orderPlacedEventId_injective {n m : ℕ} (h : orderPlacedEventId n = orderPlacedEventId m) : n = m :=
  append_repr_injective h

theorem space_orderPlacedEventId (n : ℕ) : ' ' ∉ (orderPlacedEventId n).toList := by
  rw [orderPlacedEventId, String.toList_append, List.mem_append, Nat.toList_repr]
  rintro (hhead | hdigits)
  · exact absurd hhead (by decide)
  · exact absurd (Nat.isDigit_of_mem_toDigits (by decide) (by decide) hdigits) (by decide)

end Marketplace
