import Marketplace.DeliveryLedger
import Marketplace.MessageFormat

namespace Marketplace

open Concurrent ReadCommitted

/-- How the driver and the casts to `text` and `bigint` read the parameters that order events carry. An integer out
of the range of `bigint` may be refused. -/
structure Parameters.ReadsEvents (parameters : Parameters) : Prop where
  text : ∀ value, parameters.text (.string value) = value
  number : ∀ n, parameters.bigint (.number (.integer n)) = some n ∨
    ¬fitsInt8 n ∧ parameters.bigint (.number (.integer n)) = none
  digits : ∀ n : ℕ, parameters.bigint (.string (Nat.repr n)) = some (n : ℤ) ∨
    ¬fitsInt8 n ∧ parameters.bigint (.string (Nat.repr n)) = none

structure ConsumedEvent.IsOf (event : ConsumedEvent) (n : ℕ) : Prop where
  eventId : event.eventId = orderPlacedEventId n
  type : event.type = orderPlacedType
  orderId : event.orderId = some (n : ℤ) ∨ ¬fitsInt8 n ∧ event.orderId = none

namespace ConsumedEvent.IsOf

variable {event : ConsumedEvent} {n : ℕ} (h : event.IsOf n)

include h

theorem messageId_eq {messageId : String} (hid : event.messageId = some messageId) :
    messageId = orderPlacedEventId n := by
  rw [ConsumedEvent.messageId, h.eventId] at hid
  exact varchar_unspaced (space_orderPlacedEventId n) hid

theorem effect_eq {effect : OrderEventEffectRow} (heffect : event.effect = some effect) :
    effect = ⟨n, orderPlacedType⟩ := by
  have htype : varchar 150 event.type = some orderPlacedType := by
    rw [h.type]
    decide
  rcases h.orderId with horderId | ⟨-, horderId⟩
  · simp only [ConsumedEvent.effect, horderId, htype] at heffect
    cases heffect
    rfl
  · simp [ConsumedEvent.effect, horderId] at heffect

end ConsumedEvent.IsOf

variable {T : Type}

-- a message that `parseOrderPlacedEvent` refuses is nacked
def deliver (parameters : Parameters) (self : T) (message : OrderPlacedMessage) : ShopCall T ProcessResult :=
  match acceptedEvent parameters (JsonValue.ofBytes message.content) with
  | none => throw (.error "Invalid order.placed event")
  | some event => processOrderPlacedEvent self event

inductive ServiceCall
  | order (call : OrderCall)
  | deliver (message : OrderPlacedMessage)

def ServiceCall.IsCreate : ServiceCall → Prop
  | .order (.create _ _) => True
  | _ => False

def ServiceCall.run (parameters : Parameters) (self : T) : ServiceCall → ShopCall T (Option ProcessResult)
  | .order call => do
    call.run self
    pure none
  | .deliver message => do
    let result ← Marketplace.deliver parameters self message
    pure (some result)

structure OrderPlacedEvent.States (event : OrderPlacedEvent) (n : ℕ) (order : OrderRow T) (item : OrderItemRow) :
    Prop where
  eventId : event.eventId = orderPlacedEventId n
  type : event.type = orderPlacedType
  orderId : event.data.orderId = Nat.repr n
  userId : event.data.userId = Nat.repr order.userId
  productId : event.data.productId = Nat.repr item.productId
  quantity : event.data.quantity = item.quantity
  totalAmount : event.data.totalAmount = order.totalAmount

def Describes (tables : Tables T) (n : ℕ) : OrderPlacedMessage → Prop
  | .payload p => ∃ order stored, tables (.order n) = some order ∧ OrderItems tables n stored ∧ Carries p n order stored
  | .event e => ∃ order id item, tables (.order n) = some order ∧
    OrderItems tables n [(id, item)] ∧ e.States n order item

theorem Describes.order {tables : Tables T} {n : ℕ} {message : OrderPlacedMessage} (h : Describes tables n message) :
    message.eventId = orderPlacedEventId n ∧ ∃ order, tables (.order n) = some order := by
  cases message with
  | payload p =>
    obtain ⟨order, _, horder, -, hcarries⟩ := h
    exact ⟨hcarries.eventId, order, horder⟩
  | event e =>
    obtain ⟨order, _, _, horder, -, hstates⟩ := h
    exact ⟨hstates.eventId, order, horder⟩

section Parsing

variable {parameters : Parameters} (hreads : parameters.ReadsEvents) {tables : Tables T} {n : ℕ}

theorem acceptedEvent_eq {fields : List (String × JsonValue)} {eventId occurredAt data orderId : JsonValue}
    {event : ConsumedEvent} (heventId : (JsonValue.object fields).get "eventId" = some eventId)
    (hoccurredAt : (JsonValue.object fields).get "occurredAt" = some occurredAt)
    (hdata : (JsonValue.object fields).get "data" = some data) (horderId : data.get "orderId" = some orderId)
    (h : acceptedEvent parameters (some (.object fields)) = some event) :
    event = ⟨parameters.text eventId, orderPlacedType, parameters.bigint orderId⟩ := by
  unfold acceptedEvent at h
  obtain ⟨parsed, hparsed, rfl⟩ := Option.map_eq_some_iff.mp h
  simp only [parseOrderPlacedEvent, heventId, hoccurredAt, hdata, Option.bind_some, horderId] at hparsed
  split at hparsed
  · rename_i hevent _ _ horder
    cases hevent
    cases horder
    split_ifs at hparsed
    · cases hparsed
      rfl
    · cases hparsed
  · cases hparsed

include hreads

theorem Carries.event_isOf {p : OrderPlacedPayload} {order : OrderRow T} {stored : List (ℕ × OrderItemRow)}
    {event : ConsumedEvent} (h : Carries p n order stored)
    (haccepted : acceptedEvent parameters (JsonValue.ofBytes (OrderPlacedMessage.payload p).content) = some event) :
    event.IsOf n := by
  have hget (name : String) : p.json.jsonb.get name = (p.json.get name).map JsonValue.jsonb :=
    JsonValue.get_jsonb (by simp)
  have hcontent : JsonValue.ofBytes (OrderPlacedMessage.payload p).content = some p.json.jsonb :=
    JsonValue.ofBytes_bytes h.json_plain.jsonb
  rw [hcontent] at haccepted
  rw [acceptedEvent_eq (hget "eventId") (hget "occurredAt") (hget "data") h.isData.orderId haccepted]
  exact ⟨(hreads.text _).trans h.eventId, rfl, hreads.number n⟩

theorem Carries.accepted {p : OrderPlacedPayload} {order : OrderRow T} {stored : List (ℕ × OrderItemRow)}
    (h : Carries p n order stored) (hpos : 0 < n) :
    ∃ event, acceptedEvent parameters (JsonValue.ofBytes (OrderPlacedMessage.payload p).content) = some event ∧
      event.IsOf n := by
  obtain ⟨value, hvalue, ⟨parsed, hparsed⟩, -⟩ := h.understood hpos
  have haccepted : acceptedEvent parameters (JsonValue.ofBytes (OrderPlacedMessage.payload p).content) =
      some (parameters.event parsed) := by
    rw [hvalue, acceptedEvent, hparsed]
    rfl
  exact ⟨_, haccepted, h.event_isOf hreads haccepted⟩

theorem Describes.accepted {message : OrderPlacedMessage} {event : ConsumedEvent} (h : Describes tables n message)
    (haccepted : acceptedEvent parameters (JsonValue.ofBytes message.content) = some event) : event.IsOf n := by
  cases message with
  | payload p =>
    obtain ⟨order, stored, -, -, hcarries⟩ := h
    exact hcarries.event_isOf hreads haccepted
  | event e =>
    obtain ⟨order, id, item, -, -, hstates⟩ := h
    have hcontent : JsonValue.ofBytes (OrderPlacedMessage.event e).content = some e.json :=
      JsonValue.ofBytes_bytes e.json_plain
    rw [hcontent] at haccepted
    have heventId : e.json.get "eventId" = some (.string e.eventId) := rfl
    have hoccurredAt : e.json.get "occurredAt" = some (.string (toISOString e.occurredAt)) := rfl
    have hdata : e.json.get "data" = some e.data.json := rfl
    have horderId : e.data.json.get "orderId" = some (.string e.data.orderId) := rfl
    rw [hstates.orderId] at horderId
    rw [acceptedEvent_eq heventId hoccurredAt hdata horderId haccepted]
    exact ⟨(hreads.text _).trans hstates.eventId, rfl, hreads.digits n⟩

end Parsing

structure Grows (old new : Tables T) : Prop where
  orders : ∀ n order, old (.order n) = some order → new (.order n) = some order
  items : ∀ id row, old (.orderItem id) = some row → new (.orderItem id) = some row
  newItems : ∀ id row, new (.orderItem id) = some row →
    old (.orderItem id) = some row ∨ old (.order row.orderId) = none
  markers : ∀ m r, old (.processedMessage m consumerName) = some r → new (.processedMessage m consumerName) = some r
  events : ∀ e id, old (.outboxEventId e) = some id → new (.outboxEventId e) = some id

namespace Grows

variable {old new newer : Tables T}

theorem refl (tables : Tables T) : Grows tables tables :=
  ⟨fun _ _ h => h, fun _ _ h => h, fun _ _ h => .inl h, fun _ _ h => h, fun _ _ h => h⟩

theorem trans (h : Grows old new) (h' : Grows new newer) : Grows old newer := by
  refine ⟨fun n order hn => h'.orders n order (h.orders n order hn), fun id row hid =>
    h'.items id row (h.items id row hid), fun id row hid => ?_, fun m r hm => h'.markers m r (h.markers m r hm),
    fun e id he => h'.events e id (h.events e id he)⟩
  rcases h'.newItems id row hid with hid | hnone
  · exact h.newItems id row hid
  · refine .inr (Option.eq_none_iff_forall_ne_some.mpr fun order horder => ?_)
    rw [h.orders _ order horder] at hnone
    cases hnone

theorem orderItems (h : Grows old new) {n : ℕ} {order : OrderRow T} {stored : List (ℕ × OrderItemRow)}
    (horder : old (.order n) = some order) (hstored : OrderItems old n stored) : OrderItems new n stored := by
  refine ⟨hstored.sorted, fun id row => ?_⟩
  rw [hstored.mem]
  constructor
  · rintro ⟨hid, hrow⟩
    exact ⟨h.items id row hid, hrow⟩
  · rintro ⟨hid, hrow⟩
    rcases h.newItems id row hid with hid | hnone
    · exact ⟨hid, hrow⟩
    · rw [hrow, horder] at hnone
      cases hnone

theorem describes (h : Grows old new) {n : ℕ} {message : OrderPlacedMessage} (hm : Describes old n message) :
    Describes new n message := by
  cases message with
  | payload p =>
    obtain ⟨order, stored, horder, hstored, hcarries⟩ := hm
    exact ⟨order, stored, h.orders n order horder, h.orderItems horder hstored, hcarries⟩
  | event e =>
    obtain ⟨order, id, item, horder, hstored, hstates⟩ := hm
    exact ⟨order, id, item, h.orders n order horder, h.orderItems horder hstored, hstates⟩

end Grows

/-- Where every order, its message and its effect are while the services run. -/
structure Pipeline (calls : T → ServiceCall) (w : ShopWorld T) : Prop where
  items : ∀ id row, w.db.committed (.orderItem id) = some row →
    ∃ order, w.db.committed (.order row.orderId) = some order
  created : ∀ n order t, w.db.committed (.order n) = some order → order.placedBy = some t → (calls t).IsCreate →
    ∃ id row, w.db.committed (.outboxEventId (orderPlacedEventId n)) = some id ∧
      w.db.committed (.outboxMessage id) = some row ∧ row.payload.eventId = orderPlacedEventId n
  outbox : ∀ id row, w.db.committed (.outboxMessage id) = some row →
    ∃ n, Describes w.db.committed n (.payload row.payload)
  marked : ∀ id row, w.db.committed (.outboxMessage id) = some row → row.publishedAt ≠ none →
    ∃ sent ∈ w.env, sent.message = .payload row.payload
  sent : ∀ sent ∈ w.env, ∃ n, Describes w.db.committed n sent.message
  effects : ∀ m effect, w.db.committed (.orderEventEffect m) = some effect →
    ∃ n, m = orderPlacedEventId n ∧ effect = ⟨n, orderPlacedType⟩ ∧
      ∃ sent ∈ w.env, Describes w.db.committed n sent.message
  paired : Paired w.db.committed

namespace Pipeline

variable {calls : T → ServiceCall} {w : ShopWorld T} (h : Pipeline calls w)

include h

theorem step {db : Database T Serial Key (Row T)} (hgrows : Grows w.db.committed db.committed)
    (hitems : ∀ id row, db.committed (.orderItem id) = some row → w.db.committed (.orderItem id) = some row ∨
      ∃ order, db.committed (.order row.orderId) = some order)
    (hcreated : ∀ n order t, db.committed (.order n) = some order → order.placedBy = some t → (calls t).IsCreate →
      w.db.committed (.order n) = some order ∨
      ∃ id row, db.committed (.outboxEventId (orderPlacedEventId n)) = some id ∧
      db.committed (.outboxMessage id) = some row ∧ row.payload.eventId = orderPlacedEventId n)
    (hkeep : ∀ id row, w.db.committed (.outboxMessage id) = some row →
      ∃ row', db.committed (.outboxMessage id) = some row' ∧ row'.payload = row.payload)
    (houtbox : ∀ id row, db.committed (.outboxMessage id) = some row →
      (∃ old, w.db.committed (.outboxMessage id) = some old ∧ row.payload = old.payload) ∨
      ∃ n, Describes db.committed n (.payload row.payload))
    (hmarked : ∀ id row, db.committed (.outboxMessage id) = some row → row.publishedAt ≠ none →
      w.db.committed (.outboxMessage id) = some row ∨ ∃ sent ∈ w.env, sent.message = .payload row.payload)
    (heffects : ∀ m effect, db.committed (.orderEventEffect m) = some effect →
      w.db.committed (.orderEventEffect m) = some effect ∨ ∃ n, m = orderPlacedEventId n ∧
      effect = ⟨n, orderPlacedType⟩ ∧ ∃ sent ∈ w.env, Describes w.db.committed n sent.message)
    (hpaired : Paired db.committed) : Pipeline calls ⟨db, w.env⟩ := by
  refine ⟨?_, ?_, ?_, ?_, ?_, ?_, hpaired⟩
  · intro id row hid
    rcases hitems id row hid with hold | hnew
    · obtain ⟨order, horder⟩ := h.items id row hold
      exact ⟨order, hgrows.orders _ order horder⟩
    · exact hnew
  · intro n order t hn hby ht
    rcases hcreated n order t hn hby ht with hold | hnew
    · obtain ⟨id, row, hindex, hid, hevent⟩ := h.created n order t hold hby ht
      obtain ⟨row', hid', hpayload⟩ := hkeep id row hid
      exact ⟨id, row', hgrows.events _ _ hindex, hid', by rw [hpayload, hevent]⟩
    · exact hnew
  · intro id row hid
    rcases houtbox id row hid with ⟨old, hold, hpayload⟩ | hnew
    · obtain ⟨n, hn⟩ := h.outbox id old hold
      exact ⟨n, hpayload ▸ hgrows.describes hn⟩
    · exact hnew
  · intro id row hid hpub
    rcases hmarked id row hid hpub with hold | hsent
    · exact h.marked id row hold hpub
    · exact hsent
  · intro sent hmem
    obtain ⟨n, hn⟩ := h.sent sent hmem
    exact ⟨n, hgrows.describes hn⟩
  · intro m effect hm
    have hold : ∃ n, m = orderPlacedEventId n ∧ effect = ⟨n, orderPlacedType⟩ ∧
        ∃ sent ∈ w.env, Describes w.db.committed n sent.message := (heffects m effect hm).elim (h.effects m effect) id
    obtain ⟨n, hn, heffect, sent, hmem, hdescribes⟩ := hold
    exact ⟨n, hn, heffect, sent, hmem, hgrows.describes hdescribes⟩

theorem same_rows {db : Database T Serial Key (Row T)} (hc : db.committed = w.db.committed) :
    Pipeline calls ⟨db, w.env⟩ := by
  refine h.step (hc ▸ .refl _) ?_ ?_ ?_ ?_ ?_ ?_ (hc ▸ h.paired) <;> rw [hc]
  · exact fun _ _ hid => .inl hid
  · exact fun _ _ _ hn _ _ => .inl hn
  · exact fun _ row hid => ⟨row, hid, rfl⟩
  · exact fun _ row hid => .inl ⟨row, hid, rfl⟩
  · exact fun _ _ hid _ => .inl hid
  · exact fun _ _ hm => .inl hm

theorem longer {log : List (Sent T)} (hkeep : ∀ sent ∈ w.env, ∃ sent' ∈ log, sent'.message = sent.message)
    (hsent : ∀ sent ∈ log, ∃ n, Describes w.db.committed n sent.message) : Pipeline calls ⟨w.db, log⟩ := by
  refine ⟨h.items, h.created, h.outbox, ?_, hsent, ?_, h.paired⟩
  · intro id row hid hpub
    obtain ⟨sent, hmem, hmessage⟩ := h.marked id row hid hpub
    obtain ⟨sent', hmem', hsame⟩ := hkeep sent hmem
    exact ⟨sent', hmem', hsame.trans hmessage⟩
  · intro m effect hm
    obtain ⟨n, hn, heffect, sent, hmem, hdescribes⟩ := h.effects m effect hm
    obtain ⟨sent', hmem', hsame⟩ := hkeep sent hmem
    exact ⟨n, hn, heffect, sent', hmem', hsame ▸ hdescribes⟩

theorem send {t : T} {n : ℕ} {message : OrderPlacedMessage} (hm : Describes w.db.committed n message) :
    Pipeline calls ⟨w.db, w.env ++ [⟨t, message, false⟩]⟩ := by
  refine h.longer (fun sent hmem => ⟨sent, List.mem_append_left _ hmem, rfl⟩) fun sent hmem => ?_
  rcases List.mem_append.mp hmem with hmem | hmem
  · exact h.sent sent hmem
  · obtain rfl := List.mem_singleton.mp hmem
    exact ⟨n, hm⟩

theorem confirm [DecidableEq T] (t : T) : Pipeline calls ⟨w.db, confirm t w.env⟩ := by
  refine h.longer (fun sent hmem => ?_) fun sent hmem => ?_
  · obtain ⟨sent', hmem', -, hsame⟩ := confirm_of_mem (t := t) hmem
    exact ⟨sent', hmem', hsame⟩
  · obtain ⟨sent', hmem', -, hsame⟩ := mem_confirm hmem
    exact hsame ▸ h.sent sent' hmem'

end Pipeline

variable [DecidableEq T] {calls : T → ServiceCall} {w : ShopWorld T} {t : T} {ws : Workspace Key (Row T)} {c : ℕ}

namespace Pipeline

variable (h : Pipeline calls w)

include h

section Create

variable {A : Allowed T} {C : T → ShopWorld T → ShopWorld T → Prop} {D : Discipline ((ShopMachine T).restrict A C)}
  {items : List CreateOrderItemInput} {key : String} {S : PriceReads D t items key} {placed : PlacedOrder T}
  {lines : List OrderLine}

omit h in
theorem create_unchanged (hat : At t placed.workspace c w) (m : String) :
    (w.db.commit t).committed (.processedMessage m consumerName) = w.db.committed (.processedMessage m consumerName) ∧
      (w.db.commit t).committed (.orderEventEffect m) = w.db.committed (.orderEventEffect m) := by
  rw [hat.committed_commit]
  exact ⟨Workspace.onto_of_none (placed.workspace_none (by simp) (by simp) (by simp) (by simp) (by simp)),
    Workspace.onto_of_none (placed.workspace_none (by simp) (by simp) (by simp) (by simp) (by simp))⟩

omit h in
theorem grows_create (hat : At t placed.workspace c w) (hp : S.Places t placed lines) :
    Grows w.db.committed (w.db.commit t).committed := by
  have hc := PlacedOrder.committed hat hp.sorted
  refine ⟨fun n order hn => ?_, fun id row hid => hc.keep_item hid, fun id row hid => ?_, fun m r hm => ?_,
    fun e id he => hc.keep_event he⟩
  · refine (hc.orders n ?_).trans hn
    rintro rfl
    rw [hc.order_old] at hn
    cases hn
  · refine (hc.item_cases hid).imp_right fun hmem => ?_
    rw [stores_orderId hp.stored _ hmem]
    exact hc.order_old
  · rw [(create_unchanged hat m).1]
    exact hm

theorem commit_create (hat : At t placed.workspace c w) (hp : S.Places t placed lines) :
    Pipeline calls ⟨w.db.commit t, w.env⟩ := by
  have hc := PlacedOrder.committed hat hp.sorted
  have hdescribes : Describes (w.db.commit t).committed placed.orderId (.payload placed.outbox.payload) := by
    refine ⟨placed.order, placed.items, hc.order, ?_, carries_of_places hp⟩
    refine orderItems_placed hc (fun id row hid heq => ?_) hp.sorted (stores_orderId hp.stored)
    obtain ⟨order, horder⟩ := h.items id row hid
    rw [heq, hc.order_old] at horder
    cases horder
  refine h.step (grows_create hat hp) ?_ ?_ (fun id row hid => ⟨row, hc.keep_message hid, rfl⟩) ?_ ?_ ?_ ?_
  · intro id row hid
    refine (hc.item_cases hid).imp_right fun hmem => ?_
    rw [stores_orderId hp.stored _ hmem]
    exact ⟨_, hc.order⟩
  · intro n order t' hn _ _
    rcases hc.order_cases hn with hold | ⟨rfl, -⟩
    · exact .inl hold
    · exact .inr ⟨_, _, hp.eventId ▸ hc.event, hc.message, (carries_of_places hp).eventId⟩
  · intro id row hid
    rcases hc.message_cases hid with hold | ⟨-, rfl⟩
    · exact .inl ⟨row, hold, rfl⟩
    · exact .inr ⟨_, hdescribes⟩
  · intro id row hid hpub
    rcases hc.message_cases hid with hold | ⟨-, rfl⟩
    · exact .inl hold
    · exact absurd hp.publishedAt hpub
  · intro m effect hm
    rw [(create_unchanged hat m).2] at hm
    exact .inl hm
  · intro m
    rw [(create_unchanged hat m).1, (create_unchanged hat m).2]
    exact h.paired m

end Create

section Checkout

variable {placed : PlacedCheckout}

omit h in
theorem checkout_unchanged (hat : At t (placed.workspace t) c w) (m : String) :
    (w.db.commit t).committed (.processedMessage m consumerName) = w.db.committed (.processedMessage m consumerName) ∧
      (w.db.commit t).committed (.orderEventEffect m) = w.db.committed (.orderEventEffect m) := by
  rw [hat.committed_commit]
  exact ⟨Workspace.onto_of_none (placed.workspace_none t (by simp) (by simp) (by simp) (by simp) (by simp)),
    Workspace.onto_of_none (placed.workspace_none t (by simp) (by simp) (by simp) (by simp) (by simp))⟩

omit h in
theorem grows_checkout (hat : At t (placed.workspace t) c w) :
    Grows w.db.committed (w.db.commit t).committed := by
  have hc := PlacedCheckout.committed hat
  refine ⟨fun n order hn => ?_, fun id row hid => hc.keep_item hid, fun id row hid => ?_, fun m r hm => ?_,
    fun e id he => (hc.events e).trans he⟩
  · refine (hc.orders n ?_).trans hn
    rintro rfl
    rw [hc.order_old] at hn
    cases hn
  · rcases hc.item_cases hid with hold | ⟨-, rfl⟩
    · exact .inl hold
    · exact .inr hc.order_old
  · rw [(checkout_unchanged hat m).1]
    exact hm

theorem states_checkout (hat : At t (placed.workspace t) c w) {input : CheckoutInput} {quantity : ℤ} {occurredAt : ℕ}
    (hof : placed.Of input quantity) : Describes (w.db.commit t).committed placed.orderId
      (.event (createOrderPlacedEvent input quantity placed.result occurredAt)) := by
  have hc := PlacedCheckout.committed hat
  refine ⟨placed.order t, placed.itemId, placed.item, hc.order, ⟨List.pairwise_singleton _ _, fun id row => ?_⟩, ?_⟩
  · simp only [List.mem_singleton, Prod.mk.injEq]
    constructor
    · rintro ⟨rfl, rfl⟩
      exact ⟨hc.item, rfl⟩
    · rintro ⟨hid, hrow⟩
      rcases hc.item_cases hid with hold | hnew
      · obtain ⟨order, horder⟩ := h.items id row hold
        rw [hrow, hc.order_old] at horder
        cases horder
      · exact hnew
  · exact ⟨rfl, rfl, rfl, congrArg Nat.repr hof.user.symm, congrArg Nat.repr hof.product.symm, hof.quantity.symm, rfl⟩

theorem commit_checkout (ht : ¬(calls t).IsCreate) (hat : At t (placed.workspace t) c w) :
    Pipeline calls ⟨w.db.commit t, w.env⟩ := by
  have hc := PlacedCheckout.committed hat
  refine h.step (grows_checkout hat) ?_ ?_ (fun id row hid => ⟨row, (hc.messages id).trans hid, rfl⟩) ?_ ?_ ?_ ?_
  · intro id row hid
    rcases hc.item_cases hid with hold | ⟨-, rfl⟩
    · exact .inl hold
    · exact .inr ⟨_, hc.order⟩
  · intro n order t' hn hby ht'
    rcases hc.order_cases hn with hold | ⟨rfl, rfl⟩
    · exact .inl hold
    · cases hby
      exact absurd ht' ht
  · intro id row hid
    rw [hc.messages] at hid
    exact .inl ⟨row, hid, rfl⟩
  · intro id row hid _
    rw [hc.messages] at hid
    exact .inl hid
  · intro m effect hm
    rw [(checkout_unchanged hat m).2] at hm
    exact .inl hm
  · intro m
    rw [(checkout_unchanged hat m).1, (checkout_unchanged hat m).2]
    exact h.paired m

end Checkout

section Relay

variable {rows : List (ℕ × OutboxMessageRow)}

omit h in
theorem grows_relay (hc : Relayed rows w.db.committed (w.db.commit t).committed) :
    Grows w.db.committed (w.db.commit t).committed := by
  have hsame {k : Key} (hk : ∀ id, k ≠ .outboxMessage id) : (w.db.commit t).committed k = w.db.committed k :=
    hc.others k hk
  refine ⟨fun n order hn => (hsame (by simp)).trans hn, fun id row hid => (hsame (by simp)).trans hid,
    fun id row hid => .inl ((hsame (by simp)).symm.trans hid), fun m r hm => (hsame (by simp)).trans hm,
    fun e id he => (hsame (by simp)).trans he⟩

theorem commit_relay (hc : Relayed rows w.db.committed (w.db.commit t).committed)
    (hsent : outgoing t w.env = publishedBy t rows) : Pipeline calls ⟨w.db.commit t, w.env⟩ := by
  refine h.step (grows_relay hc) ?_ ?_ ?_ ?_ ?_ ?_ ?_
  · exact fun id row hid => .inl ((hc.others _ (by simp)).symm.trans hid)
  · exact fun n order t' hn _ _ => .inl ((hc.others _ (by simp)).symm.trans hn)
  · intro id row hid
    obtain ⟨row', hid', hpayload, -, -⟩ := hc.keep_message id row hid
    exact ⟨row', hid', hpayload⟩
  · intro id row hid
    rcases hc.message_cases id row hid with ⟨p, -, -, hpayload, -, -, hold⟩ | hold
    · exact .inl ⟨p.2, hold, hpayload.symm⟩
    · exact .inl ⟨row, hold, rfl⟩
  · intro id row hid _
    rcases hc.message_cases id row hid with ⟨p, hp, -, hpayload, -, -, -⟩ | hold
    · have hmem : (⟨t, .payload p.2.payload, true⟩ : Sent T) ∈ outgoing t w.env := by
        rw [hsent]
        exact List.mem_map.mpr ⟨p, hp, rfl⟩
      exact .inr ⟨_, (mem_outgoing.mp hmem).1, by rw [hpayload]⟩
    · exact .inl hold
  · exact fun m effect hm => .inl ((hc.others _ (by simp)).symm.trans hm)
  · intro m
    rw [hc.others (.orderEventEffect m) (by simp), hc.others (.processedMessage m consumerName) (by simp)]
    exact h.paired m

end Relay

section Deliver

variable {messageId : String} {effect : OrderEventEffectRow}

omit h in
theorem deliver_unchanged (hat : At t (applied t messageId effect) c w) {k : Key}
    (hmarker : k ≠ .processedMessage messageId consumerName) (heffect : k ≠ .orderEventEffect messageId) :
    (w.db.commit t).committed k = w.db.committed k := by
  rw [hat.committed_commit]
  exact Workspace.onto_of_none ((Workspace.set_of_ne heffect).trans (Workspace.set_of_ne hmarker))

omit h in
theorem grows_deliver (hat : At t (applied t messageId effect) c w) :
    Grows w.db.committed (w.db.commit t).committed := by
  have hsame (n : ℕ) : (w.db.commit t).committed (.order n) = w.db.committed (.order n) :=
    deliver_unchanged hat (by simp) (by simp)
  have hitems (id : ℕ) : (w.db.commit t).committed (.orderItem id) = w.db.committed (.orderItem id) :=
    deliver_unchanged hat (by simp) (by simp)
  exact ⟨fun n order hn => (hsame n).trans hn, fun id row hid => (hitems id).trans hid,
    fun id row hid => .inl ((hitems id).symm.trans hid), fun m r => (applied_committed hat).keep_marker,
    fun e id he => (deliver_unchanged hat (by simp) (by simp)).trans he⟩

theorem commit_deliver (hat : At t (applied t messageId effect) c w) {n : ℕ}
    (hmessage : messageId = orderPlacedEventId n) (heffect : effect = ⟨n, orderPlacedType⟩)
    (hsent : ∃ sent ∈ w.env, Describes w.db.committed n sent.message) :
    Pipeline calls ⟨w.db.commit t, w.env⟩ := by
  have hc := applied_committed hat
  have hmessages (id : ℕ) : (w.db.commit t).committed (.outboxMessage id) = w.db.committed (.outboxMessage id) :=
    deliver_unchanged hat (by simp) (by simp)
  refine h.step (grows_deliver hat) ?_ ?_ ?_ ?_ ?_ ?_ (hc.paired h.paired)
  · exact fun id row hid => .inl ((deliver_unchanged hat (by simp) (by simp)).symm.trans hid)
  · exact fun n order t' hn _ _ => .inl ((deliver_unchanged hat (by simp) (by simp)).symm.trans hn)
  · exact fun id row hid => ⟨row, (hmessages id).trans hid, rfl⟩
  · exact fun id row hid => .inl ⟨row, (hmessages id).symm.trans hid, rfl⟩
  · exact fun id row hid _ => .inl ((hmessages id).symm.trans hid)
  · intro m effect' hm
    by_cases he : m = messageId
    · subst he
      have heffect' : (w.db.commit t).committed (.orderEventEffect m) = some effect := by
        rw [hat.committed_commit]
        exact Workspace.onto_of_some (k := Key.orderEventEffect m) Workspace.set_self
      rw [heffect'] at hm
      cases hm
      exact .inr ⟨n, hmessage, heffect, hsent⟩
    · exact .inl ((hc.effects m he).symm.trans hm)

end Deliver

end Pipeline

-- the broker delivers only what has been published
def services (calls : T → ServiceCall) :
    Machine T (ShopWorld T) (Action Serial Key (Row T) ShopOp) (Action.Res ShopOp.Res) Failure :=
  (ShopMachine T).restrict
    (fun t _ w _ _ => ∀ message, calls t = .deliver message → ∃ sent ∈ w.env, sent.message = message)
    fun _ _ _ => True

def pipelineLedger (calls : T → ServiceCall) : Discipline (services calls) where
  inv := Pipeline calls
  always w w' := Grows w.db.committed w'.db.committed
  rely _ _ _ := True
  gone _ _ := True
  always_refl _ := .refl _
  always_trans := .trans
  rely_refl _ _ := trivial
  rely_trans _ _ _ _ _ _ := trivial

theorem describes_stable {n : ℕ} {message : OrderPlacedMessage} :
    (pipelineLedger calls).Stable t fun w => Describes w.db.committed n message :=
  fun _ _ _ h hs => hs.always.describes h

theorem pipelineLedger_allows {w' : ShopWorld T} (hi : Pipeline calls w') (hc : w'.db.committed = w.db.committed) :
    (pipelineLedger calls).Allows t w w' :=
  ⟨hi, by simp only [pipelineLedger, hc]; exact .refl _, fun _ _ => trivial⟩

theorem pipelineLedger_calm : Calm (pipelineLedger calls) where
  works hi hw := pipelineLedger_allows (Pipeline.same_rows hi hw.committed) hw.committed
  rollback hi := pipelineLedger_allows (Pipeline.same_rows hi Database.committed_rollback) Database.committed_rollback
  crash {t w w'} hi hc _ := by
    obtain ⟨hdb, henv⟩ := hc
    obtain ⟨db, env⟩ := w'
    simp only at hdb henv
    subst hdb
    have hr : Pipeline calls ⟨w.db.rollback t, w.env⟩ := Pipeline.same_rows hi Database.committed_rollback
    refine ⟨pipelineLedger_allows ?_ Database.committed_rollback, fun _ _ => trivial⟩
    rcases henv with rfl | rfl
    · exact hr
    · exact hr.confirm t

theorem pipelineLedger_relay : RelayRules (pipelineLedger calls) t where
  calm := pipelineLedger_calm
  starts hi _ := pipelineLedger_allows (Pipeline.same_rows hi rfl) rfl
  sends {w ws c rows processed p rest} hi hat hws hrows _ := by
    obtain ⟨-, new, hp, -, -⟩ := hws.selected p (by simp [hrows])
    obtain ⟨n, hn⟩ := Pipeline.outbox hi p.1 p.2 (hat.committed_old hp)
    exact pipelineLedger_allows (Pipeline.send hi hn) rfl
  confirms hi := pipelineLedger_allows (Pipeline.confirm hi t) rfl
  commits {w ws c r rows} hi hat hws hmarked hsent _ := by
    have hc := hws.committed hmarked hat
    exact ⟨Pipeline.commit_relay hi hc hsent, Pipeline.grows_relay hc, fun _ _ => trivial⟩

def pipelineLedger_create (items : List CreateOrderItemInput) (key : String) :
    CreateRules (pipelineLedger calls) t items key (fun _ => True) fun _ _ => True where
  calm := pipelineLedger_calm
  reads := noReads _ t items key
  stable _ := .const
  failures _ _ := trivial
  bound _ _ _ _ := trivial
  starts hi := pipelineLedger_allows (Pipeline.same_rows hi rfl) rfl
  replays {w row response c} hi hat _ := by
    have hsame := hat.committed_unchanged Workspace.set_empty_locked
    exact ⟨pipelineLedger_allows (Pipeline.same_rows hi hsame) hsame, trivial⟩
  places {w r} placed lines hi hat hp _ _ _ :=
    ⟨⟨Pipeline.commit_create hi hat hp, Pipeline.grows_create hat hp, fun _ _ => trivial⟩, trivial⟩

def CheckoutAnnounced (input : CheckoutInput) (result : CheckoutResult) (w : ShopWorld T) : Prop :=
  ∀ quantity occurredAt, input.quantity = .integer quantity →
    Describes w.db.committed result.orderId (.event (createOrderPlacedEvent input quantity result occurredAt))

theorem pipelineLedger_checkout (ht : ¬(calls t).IsCreate) (input : CheckoutInput) :
    CheckoutSteps (pipelineLedger calls) t input (fun _ => True) (fun _ _ => True) (CheckoutAnnounced input)
      fun _ _ => True where
  calm := pipelineLedger_calm
  kept := .const
  broken _ := .const
  stable _ _ _ _ h hs quantity occurredAt hinput := hs.always.describes (h quantity occurredAt hinput)
  published _ := .const
  fails _ _ := trivial
  rejects _ _ := trivial
  refuses _ _ := ⟨_, _, _, .none (fun _ _ => trivial) fun _ _ => trivial⟩
  starts hi _ := ⟨pipelineLedger_allows (Pipeline.same_rows hi rfl) rfl, trivial⟩
  aborts _ _ := ⟨trivial, trivial⟩
  commits {w r quantity} placed hinput hof hi hat _ _ _ _ _ := by
    refine ⟨⟨Pipeline.commit_checkout hi ht hat, Pipeline.grows_checkout hat, fun _ _ => trivial⟩,
      fun _ quantity' occurredAt hinput' => ?_, fun _ => trivial⟩
    cases hinput.symm.trans hinput'
    exact Pipeline.states_checkout hi hat hof
  publishes quantity result occurredAt hinput := by
    have hdescribed : (pipelineLedger calls).Stable t fun w => Describes w.db.committed result.orderId
        (.event (createOrderPlacedEvent input quantity result occurredAt)) := describes_stable
    exact (publishOrderPlaced_spec pipelineLedger_calm (fun _ => True)
      { before := hdescribed
        sent := .const
        confirmed := .const
        broken := .const
        sends := fun _ hi h => ⟨pipelineLedger_allows (Pipeline.send hi h) rfl, trivial⟩
        confirms := fun _ hi _ => ⟨pipelineLedger_allows (Pipeline.confirm hi t) rfl, trivial⟩
        fails := fun _ _ _ _ _ _ => trivial }).pre fun w _ h => h quantity occurredAt hinput

section Deliveries

variable {parameters : Parameters} {message : OrderPlacedMessage} {event : ConsumedEvent}

theorem processed_stable (messageId : String) (result : ProcessResult) :
    (pipelineLedger calls).Stable t (processed t messageId result) := by
  intro w w' _ h hs
  cases result with
  | applied => exact hs.always.markers _ _ h
  | skipped =>
    obtain ⟨r, hr⟩ := h
    exact ⟨r, hs.always.markers _ _ hr⟩

def Handled (t : T) (message : OrderPlacedMessage) (result : ProcessResult) (w : ShopWorld T) : Prop :=
  ∃ n, Describes w.db.committed n message ∧ processed t (orderPlacedEventId n) result w

theorem handled_stable (result : ProcessResult) : (pipelineLedger calls).Stable t (Handled t message result) :=
  .exists fun _ => describes_stable.and (processed_stable _ result)

theorem pipelineLedger_process (hreads : parameters.ReadsEvents) (ht : calls t = .deliver message)
    (hevent : acceptedEvent parameters (JsonValue.ofBytes message.content) = some event) :
    ProcessSteps (pipelineLedger calls) t event (fun _ => True) (Handled t message) where
  calm := pipelineLedger_calm
  paired hi := Pipeline.paired hi
  before := .const
  stable := handled_stable
  starts hi _ := ⟨pipelineLedger_allows (Pipeline.same_rows hi rfl) rfl, trivial⟩
  applies {w r messageId effect} hid heffect hi hat ha := by
    obtain ⟨sent, hmem, rfl⟩ := ha message ht
    obtain ⟨n, hn⟩ := Pipeline.sent hi sent hmem
    have hof := hn.accepted hreads hevent
    obtain rfl := hof.messageId_eq hid
    have hgrows := Pipeline.grows_deliver hat
    exact ⟨⟨Pipeline.commit_deliver hi hat rfl (hof.effect_eq heffect) ⟨sent, hmem, hn⟩, hgrows, fun _ _ => trivial⟩,
      n, hgrows.describes hn, (applied_committed hat).marker⟩
  skips {w r messageId} hid hi hat hmarker ha := by
    obtain ⟨sent, hmem, rfl⟩ := ha message ht
    obtain ⟨n, hn⟩ := Pipeline.sent hi sent hmem
    obtain rfl := (hn.accepted hreads hevent).messageId_eq hid
    have hsame : (w.db.commit t).committed = w.db.committed := hat.committed_unchanged fun _ _ h => nomatch h
    refine ⟨pipelineLedger_allows (Pipeline.same_rows hi hsame) hsame, n, ?_⟩
    simp only [processed, hsame]
    exact ⟨hn, hmarker⟩

end Deliveries

def CallServed (t : T) : ServiceCall → Option ProcessResult → ShopWorld T → Prop
  | .order _, result, _ => result = none
  | .deliver message, result, w => ∃ handled, result = some handled ∧ Handled t message handled w

theorem ServiceCall.run_spec {parameters : Parameters} (hreads : parameters.ReadsEvents) (t : T) :
    (pipelineLedger calls).Triple t (fun w => w.db.workspace t = Workspace.empty ∧ outgoing t w.env = [])
      ((calls t).run parameters t) (CallServed t (calls t)) fun _ _ => True := by
  have hnone : (pipelineLedger calls).Triple t (fun _ => True) (.done (.ok none) : ShopCall T (Option ProcessResult))
      (fun result _ => result = none) fun _ _ => True := .pure .const fun _ _ _ => rfl
  cases hcall : calls t with
  | order call =>
    refine .bind (R := fun _ _ => True) ?_ fun _ => hnone
    cases call with
    | create input key =>
      exact .bind ((create_spec (pipelineLedger_create _ key)).pre fun w _ h => h.1) fun _ =>
        .pure .const fun _ _ _ => trivial
    | checkout input =>
      have ht : ¬(calls t).IsCreate := by
        rw [hcall]
        exact fun h => h
      exact .bind ((checkout_steps_spec (pipelineLedger_checkout ht input)).pre fun w _ h => ⟨h.1, trivial⟩) fun _ =>
        .pure .const fun _ _ _ => trivial
    | relay options =>
      exact .bind (relayOutboxBatch_spec pipelineLedger_relay options) fun _ => .pure .const fun _ _ _ => trivial
  | deliver message =>
    simp only [ServiceCall.run, Marketplace.deliver]
    cases hevent : acceptedEvent parameters (JsonValue.ofBytes message.content) with
    | none => exact .bind (R := fun _ _ => False) (.throw .const fun _ _ _ => trivial) fun _ _ _ h => h.elim
    | some event =>
      have hrules := pipelineLedger_process hreads hcall hevent
      refine .bind (hrules.processOrderPlacedEvent_spec.pre fun w _ h => ⟨h.1, trivial⟩) fun result => ?_
      exact .pure (.exists fun handled => .and .const (handled_stable handled)) fun w _ h => ⟨result, rfl, h⟩

structure NothingServed (w : ShopWorld T) : Prop extends NothingOrdered w where
  items : ∀ id row, w.db.committed (.orderItem id) = some row →
    ∃ order, w.db.committed (.order row.orderId) = some order
  markers : ∀ m, w.db.committed (.processedMessage m consumerName) = none
  effects : ∀ m, w.db.committed (.orderEventEffect m) = none

omit [DecidableEq T] in
theorem NothingServed.pipeline {w : ShopWorld T} (hw : NothingServed w) (calls : T → ServiceCall) :
    Pipeline calls w where
  items := hw.items
  created n order t hn hby _ := by
    rw [hw.orders n order hn] at hby
    cases hby
  outbox id row hid := by
    rw [hw.messages] at hid
    cases hid
  marked id row hid := by
    rw [hw.messages] at hid
    cases hid
  sent sent hmem := by
    rw [hw.log] at hmem
    cases hmem
  effects m effect hm := by
    rw [hw.effects] at hm
    cases hm
  paired m := by simp [hw.markers, hw.effects]

section Results

variable {parameters : Parameters} (hreads : parameters.ReadsEvents) {w : ShopWorld T} (hw : NothingServed w)
  {c : ShopConfig T (Option ProcessResult)}
  (h : (services calls).Reachable (.start w fun t => (calls t).run parameters t) c)

include hreads hw h

theorem pipeline_reachable : Pipeline calls c.shared ∧
    ∀ t result, c.outcome t = some (.ok result) → CallServed t (calls t) result c.shared := by
  obtain ⟨hinv, hdone, -⟩ := Discipline.run_holds (D := pipelineLedger calls) (hw.pipeline calls)
    (fun t => ⟨hw.quiescent.workspace t, by rw [hw.log]; rfl⟩) (ServiceCall.run_spec hreads) h
  exact ⟨hinv, fun t result hr => hdone t _ hr⟩

theorem delivered_effect {t : T} {message : OrderPlacedMessage} {result : Option ProcessResult}
    (ht : calls t = .deliver message) (hr : c.outcome t = some (.ok result)) : ∃ n,
      Describes c.shared.db.committed n message ∧
      c.shared.db.committed (.orderEventEffect (orderPlacedEventId n)) = some ⟨n, orderPlacedType⟩ := by
  obtain ⟨hinv, hdone⟩ := pipeline_reachable hreads hw h
  have hserved := hdone t result hr
  rw [ht] at hserved
  obtain ⟨handled, -, n, hn, hprocessed⟩ := hserved
  have hmarker : ∃ r, c.shared.db.committed (.processedMessage (orderPlacedEventId n) consumerName) = some r := by
    cases handled with
    | applied => exact ⟨_, hprocessed⟩
    | skipped => exact hprocessed
  obtain ⟨effect, heffect⟩ := (hinv.paired _).mpr hmarker
  obtain ⟨n', hn', rfl, -⟩ := hinv.effects _ effect heffect
  cases orderPlacedEventId_injective hn'
  exact ⟨n, hn, heffect⟩

/-- What the broker carries and what the consumer has recorded are committed orders, each recorded once. -/
theorem effects_of_orders :
    (∀ sent ∈ c.shared.env, ∃ n, Describes c.shared.db.committed n sent.message) ∧
    (∀ m effect, c.shared.db.committed (.orderEventEffect m) = some effect → ∃ n order,
      m = orderPlacedEventId n ∧ effect = ⟨n, orderPlacedType⟩ ∧ c.shared.db.committed (.order n) = some order ∧
      ∃ sent ∈ c.shared.env, Describes c.shared.db.committed n sent.message) ∧
      ∀ t t' message message', calls t = .deliver message → calls t' = .deliver message' →
      message.eventId = message'.eventId → c.outcome t = some (.ok (some .applied)) →
      c.outcome t' = some (.ok (some .applied)) → t = t' := by
  obtain ⟨hinv, hdone⟩ := pipeline_reachable hreads hw h
  refine ⟨hinv.sent, fun m effect hm => ?_, fun t t' message message' ht ht' hevents hr hr' => ?_⟩
  · obtain ⟨n, hn, heffect, sent, hmem, hdescribes⟩ := hinv.effects m effect hm
    obtain ⟨-, order, horder⟩ := hdescribes.order
    exact ⟨n, order, hn, heffect, horder, sent, hmem, hdescribes⟩
  · have hserved := hdone t _ hr
    have hserved' := hdone t' _ hr'
    rw [ht] at hserved
    rw [ht'] at hserved'
    obtain ⟨_, heq, n, hn, hmarker⟩ := hserved
    obtain ⟨_, heq', n', hn', hmarker'⟩ := hserved'
    cases heq
    cases heq'
    rw [hn.order.1, hn'.order.1] at hevents
    cases orderPlacedEventId_injective hevents
    -- both have inserted the one marker
    simp only [processed] at hmarker hmarker'
    rw [hmarker'] at hmarker
    simpa using hmarker.symm

/-- The event of an order of `create` waits in the outbox; once it is marked as published it has been sent, and
once it has been handled the order has its effect. -/
theorem order_effect_follows {n : ℕ} {order : OrderRow T} {t : T}
    (hn : c.shared.db.committed (.order n) = some order) (hby : order.placedBy = some t) (ht : (calls t).IsCreate) :
    ∃ id row, c.shared.db.committed (.outboxEventId (orderPlacedEventId n)) = some id ∧
      c.shared.db.committed (.outboxMessage id) = some row ∧
      Describes c.shared.db.committed n (.payload row.payload) ∧
      (row.publishedAt ≠ none → ∃ sent ∈ c.shared.env, sent.message = .payload row.payload) ∧
      ∀ t' result, calls t' = .deliver (.payload row.payload) → c.outcome t' = some (.ok result) →
      c.shared.db.committed (.orderEventEffect (orderPlacedEventId n)) = some ⟨n, orderPlacedType⟩ := by
  obtain ⟨hinv, -⟩ := pipeline_reachable hreads hw h
  obtain ⟨id, row, hindex, hid, hevent⟩ := hinv.created n order t hn hby ht
  have hsame {m : ℕ} (hm : Describes c.shared.db.committed m (.payload row.payload)) : m = n :=
    orderPlacedEventId_injective (hm.order.1.symm.trans hevent)
  refine ⟨id, row, hindex, hid, ?_, hinv.marked id row hid, fun t' result ht' hr => ?_⟩
  · obtain ⟨m, hm⟩ := hinv.outbox id row hid
    exact hsame hm ▸ hm
  · obtain ⟨m, hm, heffect⟩ := delivered_effect hreads hw h ht' hr
    exact hsame hm ▸ heffect

end Results

def castParameters : Parameters where
  text
    | .string value => value
    | _ => ""
  bigint
    | .number (.integer n) => if fitsInt8 n then some n else none
    | .string value =>
      match jsNumber value with
      | .integer n => if fitsInt8 n then some n else none
      | .other => none
    | _ => none

theorem castParameters_readsEvents : castParameters.ReadsEvents where
  text _ := rfl
  number n := by
    by_cases h : fitsInt8 n
    · exact .inl (if_pos h)
    · exact .inr ⟨h, if_neg h⟩
  digits n := by
    simp only [castParameters, jsNumber_repr]
    by_cases h : fitsInt8 n
    · exact .inl (if_pos h)
    · exact .inr ⟨h, if_neg h⟩

def placedPayload : OrderPlacedPayload :=
  toOrderPlacedEvent ⟨orderPlacedEventId 1, 1, 1, [⟨.integer 1, .integer 2⟩, ⟨.integer 1, .integer 1⟩], 300⟩ 6

omit [DecidableEq T] in
theorem deliver_placedPayload (t : T) : deliver castParameters t (.payload placedPayload) =
    processOrderPlacedEvent t ⟨orderPlacedEventId 1, orderPlacedType, some 1⟩ := by
  have hcarries : Carries (T := ℕ) placedPayload 1 ⟨1, .created, 300, some 0⟩
      [(1, ⟨1, 1, 2, 100⟩), (2, ⟨1, 1, 1, 100⟩)] :=
    ⟨rfl, rfl, rfl, rfl, rfl, rfl⟩
  obtain ⟨event, haccepted, hof⟩ := hcarries.accepted castParameters_readsEvents (by decide)
  have horderId : event.orderId = some 1 := hof.orderId.resolve_right fun h => h.1 (by decide)
  obtain ⟨eventId, type, orderId⟩ := event
  obtain rfl : eventId = _ := hof.eventId
  obtain rfl : type = _ := hof.type
  obtain rfl : orderId = _ := horderId
  simp only [deliver, haccepted]

def pipelineCalls : ℕ → ServiceCall
  | 0 => .order (.create retriedInput "pipeline")
  | 2 => .deliver (.payload placedPayload)
  | _ => .order (.relay ⟨none, false⟩)

def pipelinePrograms : ℕ → ShopCall ℕ (Option ProcessResult)
  | 2 => do
    let result ← processOrderPlacedEvent 2 ⟨orderPlacedEventId 1, orderPlacedType, some 1⟩
    pure (some result)
  | t => (pipelineCalls t).run castParameters t

theorem pipelinePrograms_eq : (fun t => (pipelineCalls t).run castParameters t) = pipelinePrograms := by
  funext t
  by_cases ht : t = 2
  · subst ht
    simp only [pipelineCalls, ServiceCall.run, deliver_placedPayload]
    rfl
  · simp only [pipelinePrograms]

@[reducible] def servicesMoves (calls : ℕ → ServiceCall) : Moves (services calls) :=
  (withDatabaseMoves shopMoves .database).restrict
    (fun t _ w _ _ =>
      match calls t with
      | .deliver message => message ∈ w.env.map (·.message)
      | .order _ => true) fun {t o w r w'} htest message ht => by
    rw [ht] at htest
    simpa using htest

def pipelineSchedule : List (ℕ × Option (DatabaseMove ShopMove)) :=
  List.replicate 17 (0, some .go) ++ List.replicate 2 (0, some (.ext (.ok 6))) ++ List.replicate 8 (0, some .go) ++
    List.replicate 6 (1, some .go) ++ List.replicate 5 (1, some (.ext (.ok 7))) ++ List.replicate 4 (1, some .go) ++
    List.replicate 6 (2, some .go)

omit [DecidableEq T] in
theorem seeded_nothingServed : NothingServed (ShopWorld.seeded (T := T)) where
  toNothingOrdered := seeded_nothingOrdered
  items _ _ h := nomatch h
  markers _ := rfl
  effects _ := rfl

-- call 0 places an order, call 1 relays its event and call 2 handles it
theorem pipeline_run : ∃ c : ShopConfig ℕ (Option ProcessResult),
    (services pipelineCalls).Reachable (.start .seeded fun t => (pipelineCalls t).run castParameters t) c ∧
      c.shared.env.map (·.message) = [.payload placedPayload] ∧
      c.shared.db.committed (.order 1) = some ⟨1, .created, 300, some 0⟩ ∧
      c.outcome 2 = some (.ok (some .applied)) := by
  rw [pipelinePrograms_eq]
  apply exists_reachable (S := servicesMoves pipelineCalls) pipelineSchedule
  decide

theorem effects_of_orders_relayed : ∃ c : ShopConfig ℕ (Option ProcessResult),
    (services pipelineCalls).Reachable (.start .seeded fun t => (pipelineCalls t).run castParameters t) c ∧
      c.shared.env.map (·.message) = [.payload placedPayload] ∧ c.outcome 2 = some (.ok (some .applied)) ∧
      (∀ sent ∈ c.shared.env, ∃ n, Describes c.shared.db.committed n sent.message) ∧
      (∀ m effect, c.shared.db.committed (.orderEventEffect m) = some effect → ∃ n order,
      m = orderPlacedEventId n ∧ effect = ⟨n, orderPlacedType⟩ ∧ c.shared.db.committed (.order n) = some order ∧
      ∃ sent ∈ c.shared.env, Describes c.shared.db.committed n sent.message) ∧
      ∀ t message, pipelineCalls t = .deliver message → message.eventId = placedPayload.eventId →
      c.outcome t = some (.ok (some .applied)) → t = 2 := by
  obtain ⟨c, hc, henv, -, hdone⟩ := pipeline_run
  obtain ⟨hsent, heffects, honce⟩ := effects_of_orders castParameters_readsEvents seeded_nothingServed hc
  exact ⟨c, hc, henv, hdone, hsent, heffects,
    fun t message ht hevent hr => honce t 2 message _ ht rfl hevent hr hdone⟩

theorem order_effect_follows_relayed : ∃ c : ShopConfig ℕ (Option ProcessResult),
    (services pipelineCalls).Reachable (.start .seeded fun t => (pipelineCalls t).run castParameters t) c ∧
      c.shared.db.committed (.order 1) = some ⟨1, .created, 300, some 0⟩ ∧ ∃ id row,
      c.shared.db.committed (.outboxEventId (orderPlacedEventId 1)) = some id ∧
      c.shared.db.committed (.outboxMessage id) = some row ∧
      Describes c.shared.db.committed 1 (.payload row.payload) ∧
      (row.publishedAt ≠ none → ∃ sent ∈ c.shared.env, sent.message = .payload row.payload) ∧
      ∀ t' result, pipelineCalls t' = .deliver (.payload row.payload) → c.outcome t' = some (.ok result) →
      c.shared.db.committed (.orderEventEffect (orderPlacedEventId 1)) = some ⟨1, orderPlacedType⟩ := by
  obtain ⟨c, hc, -, horder, -⟩ := pipeline_run
  exact ⟨c, hc, horder, order_effect_follows castParameters_readsEvents seeded_nothingServed hc horder rfl trivial⟩

end Marketplace
