import Marketplace.Checkout
import Marketplace.Json.RoundTrip
import Marketplace.OrderLedger
import Marketplace.WorkQueue

namespace Marketplace

-- the year, month and day that begin so many days after 1970-01-01
def civilDate (days : ℕ) : ℕ × ℕ × ℕ :=
  let era := (days + 719468) / 146097
  let dayOfEra := (days + 719468) % 146097
  let yearOfEra := (dayOfEra - dayOfEra / 1460 + dayOfEra / 36524 - dayOfEra / 146096) / 365
  -- both count from the first of March
  let dayOfYear := dayOfEra - (365 * yearOfEra + yearOfEra / 4 - yearOfEra / 100)
  let monthOfYear := (5 * dayOfYear + 2) / 153
  let month := if monthOfYear < 10 then monthOfYear + 3 else monthOfYear - 9
  (400 * era + yearOfEra + if month ≤ 2 then 1 else 0, month, dayOfYear - (153 * monthOfYear + 2) / 5 + 1)

def padded (width n : ℕ) : String := String.ofList ((Nat.toDigits 10 n).leftpad width '0')

/-- `new Date(ms).toISOString()`. -/
def toISOString (ms : ℕ) : String :=
  let (year, month, day) := civilDate (ms / 86400000)
  let date :=
    (if year < 10000 then padded 4 year else "+" ++ padded 6 year) ++ "-" ++ padded 2 month ++ "-" ++ padded 2 day
  let time := padded 2 (ms / 3600000 % 24) ++ ":" ++ padded 2 (ms / 60000 % 60) ++ ":" ++ padded 2 (ms / 1000 % 60)
  date ++ "T" ++ time ++ "." ++ padded 3 (ms % 1000) ++ "Z"

def OrderPlacedItem.json (item : OrderPlacedItem) : JsonValue :=
  .object [("productId", .number item.productId), ("quantity", .number item.quantity)]

def OrderPlacedData.json (data : OrderPlacedData) : JsonValue :=
  .object
    [("orderId", .number (.integer data.orderId)),
      ("userId", .number (.integer data.userId)),
      ("items", .array (data.items.map OrderPlacedItem.json)),
      ("totalAmount", .number (.integer data.totalAmount))]

def OrderPlacedPayload.json (payload : OrderPlacedPayload) : JsonValue :=
  .object
    [("eventId", .string payload.eventId),
      ("type", .string payload.type),
      ("occurredAt", .string (toISOString payload.occurredAt)),
      ("data", payload.data.json)]

def OrderPlacedEventData.json (data : OrderPlacedEventData) : JsonValue :=
  .object
    [("orderId", .string data.orderId),
      ("userId", .string data.userId),
      ("productId", .string data.productId),
      ("quantity", .number (.integer data.quantity)),
      ("totalAmount", .number (.integer data.totalAmount))]

def OrderPlacedEvent.json (event : OrderPlacedEvent) : JsonValue :=
  .object
    [("eventId", .string event.eventId),
      ("type", .string event.type),
      ("occurredAt", .string (toISOString event.occurredAt)),
      ("data", event.data.json)]

-- the relay sends what it has read from the jsonb column
def OrderPlacedMessage.json : OrderPlacedMessage → JsonValue
  | .payload p => p.json.jsonb
  | .event e => e.json

def OrderPlacedMessage.content (message : OrderPlacedMessage) : ByteArray := message.json.bytes

/-- The `data` of an `OrderPlacedPayload` as it is declared. -/
structure DeclaredData where
  orderId : JsNumber
  userId : JsNumber
  items : List OrderPlacedItem
  totalAmount : JsNumber
  deriving DecidableEq, Repr

namespace JsonValue

def IsItem (value : JsonValue) (item : OrderPlacedItem) : Prop :=
  value.get "productId" = some (.number item.productId) ∧ value.get "quantity" = some (.number item.quantity)

structure IsData (value : JsonValue) (declared : DeclaredData) : Prop where
  orderId : value.get "orderId" = some (.number declared.orderId)
  userId : value.get "userId" = some (.number declared.userId)
  items : ∃ items, value.get "items" = some (.array items) ∧ List.Forall₂ IsItem items declared.items
  totalAmount : value.get "totalAmount" = some (.number declared.totalAmount)

structure IsPayload (value : JsonValue) (declared : DeclaredData) : Prop where
  eventId : ∃ text, value.get "eventId" = some (.string text)
  type : value.get "type" = some (.string orderPlacedType)
  occurredAt : ∃ text, value.get "occurredAt" = some (.string text)
  data : ∃ data, value.get "data" = some data ∧ IsData data declared

end JsonValue

variable {T : Type}

def DeclaredData.States (declared : DeclaredData) (orderId : ℕ) (order : OrderRow T)
    (stored : List (ℕ × OrderItemRow)) :
    Prop :=
  declared =
    { orderId := .integer orderId
      userId := .integer order.userId
      items := stored.map fun s => ⟨.integer s.2.productId, .integer s.2.quantity⟩
      totalAmount := .integer order.totalAmount }

def Understood (content : ByteArray) (orderId : ℕ) (order : OrderRow T) (stored : List (ℕ × OrderItemRow)) : Prop :=
  ∃ value, JsonValue.ofBytes content = some value ∧ (∃ event, parseOrderPlacedEvent (some value) = .ok event) ∧
    ∃ declared, value.IsPayload declared ∧ declared.States orderId order stored

theorem append_ne_empty {first last : String} (h : first ≠ "" ∨ last ≠ "") : first ++ last ≠ "" := by
  intro hempty
  have htext := congrArg String.toList hempty
  rw [String.toList_append] at htext
  obtain ⟨hfirst, hlast⟩ := List.append_eq_nil_iff.mp htext
  rcases h with h | h
  · exact h (String.toList_inj.mp hfirst)
  · exact h (String.toList_inj.mp hlast)

theorem toISOString_ne_empty (ms : ℕ) : toISOString ms ≠ "" := append_ne_empty (.inr (by decide))

example : toISOString 951782400123 = "2000-02-29T00:00:00.123Z" := by decide +kernel

theorem orderPlacedEventId_ne_empty (n : ℕ) : orderPlacedEventId n ≠ "" := append_ne_empty (.inl (by decide))

theorem parseOrderPlacedEvent_ok {fields : List (String × JsonValue)} {eventId occurredAt data orderId : JsonValue}
    (heventId : (JsonValue.object fields).get "eventId" = some eventId)
    (htype : (JsonValue.object fields).get "type" = some (.string orderPlacedType))
    (hoccurredAt : (JsonValue.object fields).get "occurredAt" = some occurredAt)
    (hdata : (JsonValue.object fields).get "data" = some data) (horderId : data.get "orderId" = some orderId)
    (htruthy : eventId.truthy && occurredAt.truthy && orderId.truthy) :
    ∃ event, parseOrderPlacedEvent (some (.object fields)) = .ok event := by
  refine ⟨⟨eventId, occurredAt, orderId⟩, ?_⟩
  simp only [Bool.and_eq_true] at htruthy
  simp only [parseOrderPlacedEvent, heventId, htype, hoccurredAt, hdata, Option.bind_some, horderId, htruthy.1.1,
    htruthy.1.2, htruthy.2]
  rfl

theorem OrderPlacedEvent.json_plain (event : OrderPlacedEvent) : event.json.Plain := by
  refine .object (by simp) ?_
  simp only [List.forall_mem_cons, List.not_mem_nil, false_implies, implies_true, and_true]
  refine ⟨.string, .string, .string, .object (by simp) ?_⟩
  simp only [List.forall_mem_cons, List.not_mem_nil, false_implies, implies_true, and_true]
  exact ⟨.string, .string, .string, .number, .number⟩

theorem createOrderPlacedEvent_accepted (input : CheckoutInput) (quantity : ℤ) (result : CheckoutResult)
    (occurredAt : ℕ) :
    ∃ event, parseOrderPlacedEvent (some (createOrderPlacedEvent input quantity result occurredAt).json) =
      .ok event := by
  refine parseOrderPlacedEvent_ok rfl rfl rfl rfl rfl ?_
  simp [JsonValue.truthy, toISOString_ne_empty, createOrderPlacedEvent, orderPlacedEventId_ne_empty]

theorem OrderPlacedEvent.not_payload (event : OrderPlacedEvent) (declared : DeclaredData) :
    ¬event.json.IsPayload declared := by
  rintro ⟨-, -, -, data, hdata, hdeclared⟩
  have horderId := hdeclared.orderId
  have : data = event.data.json := (Option.some.inj hdata).symm
  subst this
  cases horderId

theorem not_understood_event (event : OrderPlacedEvent) {orderId : ℕ} {order : OrderRow T}
    {stored : List (ℕ × OrderItemRow)} : ¬Understood (OrderPlacedMessage.event event).content orderId order stored := by
  rintro ⟨value, hvalue, -, declared, hdeclared, -⟩
  have hjson : JsonValue.ofBytes (OrderPlacedMessage.event event).content = some event.json :=
    JsonValue.ofBytes_bytes event.json_plain
  rw [hjson] at hvalue
  cases hvalue
  exact event.not_payload declared hdeclared

section Payload

variable {payload : OrderPlacedPayload} {orderId : ℕ} {order : OrderRow T} {stored : List (ℕ × OrderItemRow)}
  (h : Carries payload orderId order stored)

include h

theorem Carries.data_plain : payload.data.json.Plain := by
  refine .object (by simp) ?_
  simp only [List.forall_mem_cons, List.not_mem_nil, false_implies, implies_true, and_true]
  refine ⟨.number, .number, .array ?_, .number⟩
  rw [h.items, List.map_map]
  refine List.forall_mem_map.mpr fun s _ => .object (by simp) ?_
  simp only [List.forall_mem_cons, List.not_mem_nil, false_implies, implies_true, and_true]
  exact ⟨.number, .number⟩

theorem Carries.json_plain : payload.json.Plain := by
  refine .object (by simp) ?_
  simp only [List.forall_mem_cons, List.not_mem_nil, false_implies, implies_true, and_true]
  exact ⟨.string, .string, .string, h.data_plain⟩

theorem Carries.isData : payload.data.json.jsonb.IsData
    ⟨.integer orderId, .integer order.userId, stored.map fun s => ⟨.integer s.2.productId, .integer s.2.quantity⟩,
      .integer order.totalAmount⟩ := by
  have hget (name : String) : payload.data.json.jsonb.get name = (payload.data.json.get name).map JsonValue.jsonb :=
    JsonValue.get_jsonb (by simp)
  refine ⟨?_, ?_, ?_, ?_⟩
  · rw [hget, ← h.orderId]
    rfl
  · rw [hget, ← h.userId]
    rfl
  · refine ⟨(payload.data.items.map OrderPlacedItem.json).map JsonValue.jsonb, ?_, ?_⟩
    · rw [hget, ← JsonValue.jsonbItems_eq]
      rfl
    · rw [h.items, List.map_map, List.map_map, List.forall₂_map_left_iff, List.forall₂_map_right_iff]
      refine List.forall₂_same.mpr fun s _ => ⟨?_, ?_⟩
      · exact JsonValue.get_jsonb (by simp)
      · exact JsonValue.get_jsonb (by simp)
  · rw [hget, ← h.totalAmount]
    rfl

theorem Carries.understood (hpos : 0 < orderId) :
    Understood (OrderPlacedMessage.payload payload).content orderId order stored := by
  have hget (name : String) : payload.json.jsonb.get name = (payload.json.get name).map JsonValue.jsonb :=
    JsonValue.get_jsonb (by simp)
  have heventId : payload.json.jsonb.get "eventId" = some (.string payload.eventId) := hget _
  have htype : payload.json.jsonb.get "type" = some (.string orderPlacedType) := by
    rw [hget, ← h.type]
    rfl
  have hoccurredAt : payload.json.jsonb.get "occurredAt" = some (.string (toISOString payload.occurredAt)) := hget _
  have hdata : payload.json.jsonb.get "data" = some payload.data.json.jsonb := hget _
  refine ⟨payload.json.jsonb, JsonValue.ofBytes_bytes h.json_plain.jsonb, ?_, _,
    ⟨⟨_, heventId⟩, htype, ⟨_, hoccurredAt⟩, _, hdata, h.isData⟩, rfl⟩
  refine parseOrderPlacedEvent_ok heventId htype hoccurredAt hdata h.isData.orderId ?_
  simp [JsonValue.truthy, toISOString_ne_empty, h.eventId, orderPlacedEventId_ne_empty, Nat.ne_of_gt hpos]

end Payload

end Marketplace
