import Marketplace.Json.Value
import Marketplace.OrderPlacedConsumer

namespace Marketplace

open Concurrent ReadCommitted

structure ParsedEvent where
  eventId : JsonValue
  occurredAt : JsonValue
  orderId : JsonValue

-- `none` is a message whose content is not JSON
def parseOrderPlacedEvent : Option JsonValue → Except Failure ParsedEvent
  | none => .error (.error "Unexpected token in JSON")
  | some .null => .error (.error "Cannot read properties of null (reading 'eventId')")
  | some parsed =>
    match parsed.get "eventId", parsed.get "type", parsed.get "occurredAt",
      (parsed.get "data").bind fun data => data.get "orderId" with
    | some eventId, some (.string type), some occurredAt, some orderId =>
      if eventId.truthy && type = orderPlacedType && occurredAt.truthy && orderId.truthy then
        .ok ⟨eventId, occurredAt, orderId⟩
      else .error (.error "Invalid order.placed event")
    | _, _, _, _ => .error (.error "Invalid order.placed event")

/-- How the database driver and the column types read a query parameter. -/
structure Parameters where
  text : JsonValue → String
  bigint : JsonValue → Option ℤ

def Parameters.event (parameters : Parameters) (parsed : ParsedEvent) : ConsumedEvent :=
  ⟨parameters.text parsed.eventId, orderPlacedType, parameters.bigint parsed.orderId⟩

def acceptedEvent (parameters : Parameters) (content : Option JsonValue) : Option ConsumedEvent :=
  (parseOrderPlacedEvent content).toOption.map parameters.event

def ConsumedEvent.HasBigint (event : ConsumedEvent) : Prop := ∃ orderId, event.orderId = some orderId ∧ fitsInt8 orderId

structure ConsumedEvent.Storable (event : ConsumedEvent) : Prop where
  messageId : ∃ messageId, event.messageId = some messageId
  effect : ∃ effect, event.effect = some effect ∧ fitsInt8 effect.orderId

theorem acceptedEvent_type {parameters : Parameters} {content : Option JsonValue} {event : ConsumedEvent}
    (h : acceptedEvent parameters content = some event) : event.type = orderPlacedType := by
  obtain ⟨parsed, -, rfl⟩ := Option.map_eq_some_iff.mp h
  rfl

theorem ConsumedEvent.HasBigint.storable {event : ConsumedEvent} {messageId : String} (h : event.HasBigint)
    (htype : event.type = orderPlacedType) (hid : event.messageId = some messageId) : event.Storable := by
  obtain ⟨orderId, horder, hfits⟩ := h
  have hstored : varchar 150 orderPlacedType = some orderPlacedType := by decide
  exact ⟨⟨messageId, hid⟩, ⟨orderId, orderPlacedType⟩, by simp [effect, horder, htype, hstored], hfits⟩

-- where a message is, for the queue `shop.order.placed`
inductive Place (T : Type)
  | queued
  | unacknowledged (delivery : T)
  | acked
  | deadLettered
  deriving DecidableEq

structure WorkQueue (T Msg : Type) where
  place : Msg → Place T
  -- the deliveries whose channel is closed
  closed : T → Bool

inductive QueueOp (T Msg : Type)
  | deliver (message : Msg)
  | onMessage
  | ack (message : Msg)
  | nack (message : Msg)
  | closeChannel (deliveries : T → Bool)

abbrev QueueOp.Res {T Msg : Type} (_ : QueueOp T Msg) : Type := Unit

variable {T Msg : Type} [DecidableEq T] [DecidableEq Msg]

namespace WorkQueue

omit [DecidableEq T] in
def move (x : WorkQueue T Msg) (message : Msg) (place : Place T) : WorkQueue T Msg :=
  { x with place := Function.update x.place message place }

-- what was delivered on the channel and not acknowledged is queued again
omit [DecidableEq T] [DecidableEq Msg] in
def close (x : WorkQueue T Msg) (deliveries : T → Bool) : WorkQueue T Msg where
  place message := match x.place message with
    | .unacknowledged t => if deliveries t then .queued else .unacknowledged t
    | place => place
  closed t := x.closed t || deliveries t

omit [DecidableEq T] [DecidableEq Msg] in
theorem place_close {x : WorkQueue T Msg} {deliveries : T → Bool} {message : Msg} {place : Place T}
    (h : (x.close deliveries).place message = place) (hq : place ≠ .queued) : x.place message = place := by
  simp only [close] at h
  split at h
  · split at h
    · exact absurd h.symm hq
    · rename_i hplace _
      exact hplace.trans h
  · exact h

omit [DecidableEq T] [DecidableEq Msg] in
theorem closed_close {x : WorkQueue T Msg} {deliveries : T → Bool} {t : T} (h : x.closed t) :
    (x.close deliveries).closed t :=
  Bool.or_eq_true_iff.mpr (.inl h)

end WorkQueue

/-- An `ack` or a `nack` may be lost with the channel, or throw, and `onMessage` may throw. -/
inductive QueuePerforms (t : T) : (o : QueueOp T Msg) → WorkQueue T Msg → Except Failure o.Res → WorkQueue T Msg → Prop
  | deliver {x message} (hqueued : x.place message = .queued) (hopen : x.closed t = false) :
    QueuePerforms t (.deliver message) x (.ok ()) (x.move message (.unacknowledged t))
  | onMessage {x} (r : Except Failure Unit) : QueuePerforms t .onMessage x r x
  | ack {x message} (hplace : x.place message = .unacknowledged t) (hopen : x.closed t = false) :
    QueuePerforms t (.ack message) x (.ok ()) (x.move message .acked)
  | nack {x message} (hplace : x.place message = .unacknowledged t) (hopen : x.closed t = false) :
    QueuePerforms t (.nack message) x (.ok ()) (x.move message .deadLettered)
  | lostAck {x message} (r : Except Failure Unit) : QueuePerforms t (.ack message) x r x
  | lostNack {x message} (r : Except Failure Unit) : QueuePerforms t (.nack message) x r x
  | closeChannel {x deliveries} : QueuePerforms t (.closeChannel deliveries) x (.ok ()) (x.close deliveries)

omit [DecidableEq T] in
theorem QueuePerforms.keeps_closed {t u : T} {o : QueueOp T Msg} {x x' : WorkQueue T Msg} {r : Except Failure Unit}
    (h : QueuePerforms t o x r x') (hu : x.closed u) : x'.closed u := by
  cases h with
  | closeChannel => exact WorkQueue.closed_close hu
  | _ => exact hu

def workQueue : Machine T (WorkQueue T Msg) (QueueOp T Msg) QueueOp.Res Failure where
  perform := QueuePerforms
  crash t x x' := x' = x.close fun t' => t' = t
  frame _ _ _ := True
  frame_refl _ _ := trivial
  frame_trans _ _ := trivial
  perform_frame _ _ := trivial
  crash_frame _ _ := trivial

inductive QueueMove
  | go
  | fail
  deriving DecidableEq, Repr

-- `fail` is an operation that throws
@[reducible] def queueMoves : Moves (@workQueue T Msg _ _) where
  Move := QueueMove
  play t
    | .deliver message, .go, x =>
      if x.place message = .queued ∧ x.closed t = false then some (.ok (), x.move message (.unacknowledged t)) else none
    | .onMessage, .go, x => some (.ok (), x)
    | .onMessage, .fail, x => some (.error (.error "onMessage"), x)
    | .ack message, .go, x =>
      if x.place message = .unacknowledged t ∧ x.closed t = false then some (.ok (), x.move message .acked) else none
    | .ack _, .fail, x => some (.error .broker, x)
    | .nack message, .go, x =>
      if x.place message = .unacknowledged t ∧ x.closed t = false then some (.ok (), x.move message .deadLettered)
      else none
    | .nack _, .fail, x => some (.error .broker, x)
    | .closeChannel deliveries, .go, x => some (.ok (), x.close deliveries)
    | _, _, _ => none
  die t x := some (x.close fun t' => t' = t)
  play_sound := by
    intro t o m x r x' h
    cases o <;> cases m <;> simp only [reduceCtorEq, Option.ite_none_right_eq_some, Option.some.injEq] at h
    · obtain ⟨⟨hqueued, hopen⟩, h⟩ := h
      cases h
      exact .deliver hqueued hopen
    · cases h
      exact .onMessage _
    · cases h
      exact .onMessage _
    · obtain ⟨⟨hplace, hopen⟩, h⟩ := h
      cases h
      exact .ack hplace hopen
    · cases h
      exact .lostAck _
    · obtain ⟨⟨hplace, hopen⟩, h⟩ := h
      cases h
      exact .nack hplace hopen
    · cases h
      exact .lostNack _
    · cases h
      exact .closeChannel
  die_sound h := (Option.some.inj h).symm

abbrev QueueWorld (T Msg : Type) := World T Serial Key (Row T) (WorkQueue T Msg)

abbrev QueueCall (T Msg α : Type) := Client Serial Key (Row T) (@QueueOp.Res T Msg) Failure α

abbrev QueueConfig (T Msg : Type) :=
  Config T (QueueWorld T Msg) (Action Serial Key (Row T) (QueueOp T Msg)) (Action.Res QueueOp.Res) Failure Unit

abbrev QueueMachine (T Msg : Type) [DecidableEq T] [DecidableEq Msg] :
    Machine T (QueueWorld T Msg) (Action Serial Key (Row T) (QueueOp T Msg)) (Action.Res QueueOp.Res) Failure :=
  withDatabase workQueue .database

section Code

omit [DecidableEq T] [DecidableEq Msg]

def queue (o : QueueOp T Msg) : QueueCall T Msg Unit := Prog.perform (Action.ext o)

-- the callback of `channel.consume`
def consume (parameters : Parameters) (self : T) (message : Msg) (content : Option JsonValue) : QueueCall T Msg Unit :=
    do
  queue (.deliver message)
  tryCatch (do
    match parseOrderPlacedEvent content with
    | .error error => throw error
    | .ok parsed =>
      let _ ← processOrderPlacedEvent self (parameters.event parsed)
      queue .onMessage
      queue (.ack message))
    (fun _ => queue (.nack message))

end Code

inductive ConsumerCall (T Msg : Type)
  | consume (message : Msg)
  | closeChannel (deliveries : T → Bool)

def ConsumerCall.run (parameters : Parameters) (content : Msg → Option JsonValue) (self : T) :
    ConsumerCall T Msg → QueueCall T Msg Unit
  | .consume message => Marketplace.consume parameters self message (content message)
  | .closeChannel deliveries => queue (.closeChannel deliveries)

end Marketplace
