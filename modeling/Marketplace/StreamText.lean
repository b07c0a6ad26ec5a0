import Marketplace.EventStream.Decoder
import Marketplace.MessageFormat
import Marketplace.OrderStream

/-!
The stream of an order's events as text, and the client that reads it one character after the other.
-/

namespace Marketplace

open EventStream

def OrderStatus.text : OrderStatus → String
  | .created => "created"
  | .paid => "paid"
  | .shipped => "shipped"
  | .completed => "completed"
  | .cancelled => "cancelled"

def OrderStatusEvent.json (event : OrderStatusEvent) : JsonValue :=
  .object
    [("orderId", .number (.integer event.orderId)),
      ("status", .string event.status.text),
      ("occurredAt", .string (toISOString event.occurredAt))]

def retryText : List Char := "retry: 1000\n\n".toList

def writeSseEvent (event : OrderStatusEvent) : List Char :=
  "id: ".toList ++ Nat.toDigits 10 event.id ++ "\n".toList ++ "event: order.status\n".toList ++
    ("data: ".toList ++ JsonValue.stringify event.json ++ "\n\n".toList)

section Blocks

def retryFields : List (List Char × List Char) := [("retry".toList, "1000".toList)]

def OrderStatusEvent.fields (event : OrderStatusEvent) : List (List Char × List Char) :=
  [("id".toList, Nat.toDigits 10 event.id), ("event".toList, "order.status".toList),
    ("data".toList, JsonValue.stringify event.json)]

def OrderStatusEvent.message (event : OrderStatusEvent) : Message :=
  ⟨Nat.toDigits 10 event.id, "order.status".toList, JsonValue.stringify event.json⟩

theorem writeSseEvent_eq (event : OrderStatusEvent) : writeSseEvent event = block event.fields := by
  have hid : "id: ".toList = "id".toList ++ [':', ' '] := rfl
  have hevent : "event: order.status\n".toList =
      "event".toList ++ ':' :: ' ' :: ("order.status".toList ++ ['\n']) := rfl
  have hdata : "data: ".toList = "data".toList ++ [':', ' '] := rfl
  have hline : "\n".toList = ['\n'] := rfl
  have hblank : "\n\n".toList = ['\n', '\n'] := rfl
  unfold writeSseEvent OrderStatusEvent.fields
  rw [hid, hevent, hdata, hline, hblank]
  -- `simp` is not to evaluate the literals
  generalize JsonValue.stringify event.json = data
  generalize "id".toList = idName
  generalize "event".toList = eventName
  generalize "order.status".toList = status
  generalize "data".toList = dataName
  simp [block, fieldText]

theorem event_onLine (event : OrderStatusEvent) : ∀ field ∈ event.fields, OnLine field := by
  have hname : ∀ name ∈ ["id".toList, "event".toList, "data".toList],
      name ≠ [] ∧ ∀ c ∈ name, c ≠ ':' ∧ c ≠ '\n' ∧ c ≠ '\r' := by simp
  have hid : Decoder.IsPlain (Nat.toDigits 10 event.id) := by
    intro c hc
    have hdigit : c.isDigit := Nat.isDigit_of_mem_toDigits (by decide) (by decide) hc
    constructor <;> rintro rfl <;> exact absurd hdigit (by decide)
  have hdata : Decoder.IsPlain (JsonValue.stringify event.json) := by
    intro c hc
    have hprintable := JsonValue.printable_stringify event.json c hc
    constructor <;> rintro rfl <;> exact absurd hprintable (by decide)
  intro field hfield
  simp only [OrderStatusEvent.fields, List.mem_cons, List.not_mem_nil, or_false] at hfield
  rcases hfield with rfl | rfl | rfl
  · exact ⟨(hname _ (by simp)).1, (hname _ (by simp)).2, hid⟩
  · refine ⟨(hname _ (by simp)).1, (hname _ (by simp)).2, ?_⟩
    simp [Decoder.IsPlain]
  · exact ⟨(hname _ (by simp)).1, (hname _ (by simp)).2, hdata⟩

theorem retry_onLine : ∀ field ∈ retryFields, OnLine field := by
  intro field hfield
  rw [List.mem_singleton.mp hfield]
  refine ⟨by decide, by simp, ?_⟩
  simp [Decoder.IsPlain]

variable {d : Decoder}

theorem dispatch_event (hd : d.Ready) (event : OrderStatusEvent) :
    (d.fields event.fields).dispatch.2 = some event.message ∧
      (d.fields event.fields).dispatch.1.lastEventId = Nat.toDigits 10 event.id := by
  have hnull : '\x00' ∉ Nat.toDigits 10 event.id := fun h => absurd
    (Nat.isDigit_of_mem_toDigits (by decide) (by decide) h) (by decide)
  have hfields : d.fields event.fields = { d with
      idBuffer := Nat.toDigits 10 event.id
      event := "order.status".toList
      data := JsonValue.stringify event.json ++ ['\n'] } := by
    change ((d.field "id".toList _).field "event".toList _).field "data".toList _ = _
    rw [Decoder.field_id hnull, Decoder.field_event, Decoder.field_data, hd.data, List.nil_append]
  have hevent : "order.status".toList ≠ [] := by decide
  rw [hfields]
  exact ⟨Decoder.dispatch_message rfl hevent, rfl⟩

theorem dispatch_retry (hd : d.Ready) : (d.fields retryFields).dispatch.2 = none ∧
    (d.fields retryFields).dispatch.1.lastEventId = d.lastEventId := by
  have hdigits : "1000".toList ≠ [] ∧ "1000".toList.all Char.isDigit := by decide
  have hdecimal : EventStream.decimal "1000".toList = 1000 := by decide
  have hretry : d.fields retryFields = { d with reconnectionTime := some 1000 } := by
    change d.field "retry".toList "1000".toList = _
    rw [Decoder.field_retry hdigits, hdecimal]
  rw [hretry]
  exact ⟨if_pos hd.data, hd.idBuffer⟩

theorem parse_message (event : OrderStatusEvent) : JsonValue.parse event.message.data = some event.json := by
  have hnames : ["orderId", "status", "occurredAt"].Nodup := by decide
  refine JsonValue.parse_stringify (.object hnames fun field hfield => ?_)
  simp only [List.mem_cons, List.not_mem_nil, or_false] at hfield
  rcases hfield with rfl | rfl | rfl
  · exact .number
  · exact .string
  · exact .string

end Blocks

/-- A request of the client, or the text that is written to its connection and that it has not read. -/
inductive TextConnection
  | requested (lastEventIdHeader : Option String)
  | streaming (unread : List Char)
  deriving DecidableEq, Repr

/-- The process with one client of the stream of an order. `emitted` is a history variable. -/
structure TextState where
  service : OrderEventsService
  emitted : List OrderStatusEvent
  client : Decoder
  messages : List Message
  connection : Option TextConnection

namespace TextState

def start : TextState := ⟨.start, [], .start, [], none⟩

-- a client that has no id sends no header
def header (s : TextState) : Option String :=
  if s.client.lastEventId = [] then none else some (String.ofList s.client.lastEventId)

def missed (orderId : ℕ) (s : TextState) : List OrderStatusEvent :=
  match s.header with
  | none => []
  | some id => (eventsOf orderId s.emitted).filter fun event => parseLastEventId (some id) < event.id

end TextState

inductive TextAction
  | emit (orderId : ℕ) (status : OrderStatus) (now : ℕ)
  | connect
  | found
  | notFound
  -- one character
  | read
  | disconnect
  deriving DecidableEq, Repr

/-- One step; an action that the connection does not allow changes nothing. -/
def textStep (orderId : ℕ) (s : TextState) : TextAction → TextState
  | .emit changed status now =>
    let (event, service) := s.service.emitStatusChanged changed status now
    { s with
      service := service
      emitted := s.emitted ++ [event]
      connection := s.connection.map fun
        | .requested header => .requested header
        | .streaming unread =>
          .streaming (if event.orderId ≠ orderId then unread else unread ++ writeSseEvent event) }
  | .connect =>
    match s.connection with
    | none => { s with client := s.client.reconnect, connection := some (.requested s.header) }
    | some _ => s
  | .found =>
    match s.connection with
    | some (.requested header) =>
      let missedEvents := s.service.getEventsAfter orderId (parseLastEventId header)
      { s with connection := some (.streaming (retryText ++ missedEvents.flatMap writeSseEvent)) }
    | _ => s
  | .notFound =>
    match s.connection with
    | some (.requested _) => { s with connection := none }
    | _ => s
  | .read =>
    match s.connection with
    | some (.streaming (c :: unread)) =>
      { s with
        client := (s.client.step c).1
        messages := s.messages ++ (s.client.step c).2.toList
        connection := some (.streaming unread) }
    | _ => s
  | .disconnect => { s with connection := none }

def textRun (orderId : ℕ) (actions : List TextAction) : TextState := actions.foldl (textStep orderId) .start

def TextWithinBuffer (orderId : ℕ) (actions : List TextAction) : Prop :=
  ∀ before after, actions = before ++ .found :: after →
    (∃ header, (textRun orderId before).connection = some (.requested header)) →
    ((textRun orderId before).missed orderId).length ≤ maxBufferedEventsPerOrder

section Refinement

variable {orderId : ℕ} {s : TextState} {x : StreamState}

/-- The text that is unread is that of the events that are, and at first of the `retry` field. -/
inductive SameConnection (client : Decoder) : Option TextConnection → Option Connection → Prop
  | none : SameConnection client none none
  | requested {header : Option String} (hclient : client.Ready) :
      SameConnection client (some (.requested header)) (some (.requested header))
  | retrying {text : List Char} {unread : List OrderStatusEvent}
      (htext : client.Unread text (retryFields :: unread.map OrderStatusEvent.fields)) :
      SameConnection client (some (.streaming text)) (some (.streaming unread))
  | streaming {text : List Char} {unread : List OrderStatusEvent}
      (htext : client.Unread text (unread.map OrderStatusEvent.fields)) :
      SameConnection client (some (.streaming text)) (some (.streaming unread))

structure Refines (s : TextState) (x : StreamState) : Prop where
  service : s.service = x.service
  emitted : s.emitted = x.emitted
  messages : s.messages = x.received.map OrderStatusEvent.message
  lastEventId : s.client.lastEventId =
    (x.received.getLast?.map fun event => Nat.toDigits 10 event.id).getD []
  connection : SameConnection s.client s.connection x.connection

theorem refines_start : Refines .start .start := ⟨rfl, rfl, rfl, rfl, .none⟩

theorem Refines.header (h : Refines s x) : s.header = x.lastEventId := by
  unfold TextState.header StreamState.lastEventId
  rw [h.lastEventId]
  cases x.received.getLast? with
  | none => rfl
  | some event =>
    simp only [Option.map_some, Option.getD_some, if_neg Nat.toDigits_ne_nil]
    rfl

theorem Refines.missed (h : Refines s x) : s.missed orderId = x.missed orderId := by
  unfold TextState.missed StreamState.missed
  rw [h.header, h.emitted]
  unfold StreamState.lastEventId
  cases x.received.getLast? with
  | none => rfl
  | some event => simp [parseLastEventId_repr]

theorem onLine_events (events : List OrderStatusEvent) :
    ∀ fields ∈ events.map OrderStatusEvent.fields, ∀ field ∈ fields, OnLine field := by
  intro fields hfields
  obtain ⟨event, -, rfl⟩ := List.mem_map.mp hfields
  exact event_onLine event

theorem flatMap_writeSseEvent (events : List OrderStatusEvent) :
    events.flatMap writeSseEvent = (events.map OrderStatusEvent.fields).flatMap block := by
  rw [List.flatMap_map]
  exact List.flatMap_congr fun event _ => writeSseEvent_eq event

theorem SameConnection.emit {client : Decoder} {connection : Option TextConnection} {connection' : Option Connection}
    (h : SameConnection client connection connection') (event : OrderStatusEvent) :
    SameConnection client (connection.map fun
      | .requested header => .requested header
      | .streaming unread => .streaming (if event.orderId ≠ orderId then unread else unread ++ writeSseEvent event))
      (connection'.map (Connection.next orderId event)) := by
  have hmore : ∀ fields ∈ [event.fields], ∀ field ∈ fields, OnLine field := fun fields hfields =>
    List.mem_singleton.mp hfields ▸ event_onLine event
  have htext : writeSseEvent event = [event.fields].flatMap block := by simp [writeSseEvent_eq]
  cases h with
  | none => exact .none
  | requested hclient => exact .requested hclient
  | retrying hunread =>
    by_cases horder : event.orderId ≠ orderId
    · simpa [Connection.next, horder] using .retrying hunread
    · have happend := hunread.append hmore
      rw [← htext] at happend
      simp only [Option.map_some, Connection.next, if_neg horder]
      exact .retrying (by simpa using happend)
  | streaming hunread =>
    by_cases horder : event.orderId ≠ orderId
    · simpa [Connection.next, horder] using .streaming hunread
    · have happend := hunread.append hmore
      rw [← htext] at happend
      simp only [Option.map_some, Connection.next, if_neg horder]
      exact .streaming (by simpa using happend)

def TextState.events (s : TextState) : TextAction → List StreamAction
  | .emit changed status now => [.emit changed status now]
  | .connect => [.connect]
  | .found => [.found]
  | .notFound => [.notFound]
  | .read =>
    match s.connection with
    | some (.streaming (c :: _)) => if (s.client.step c).2 = none then [] else [.receive]
    | _ => []
  | .disconnect => [.disconnect]

theorem refines_read (h : Refines s x) :
    Refines (textStep orderId s .read) ((s.events .read).foldl (streamStep orderId) x) := by
  obtain ⟨service, emitted, client, messages, connection⟩ := s
  obtain ⟨service', emitted', received, connection'⟩ := x
  obtain ⟨hservice, hemitted, hmessages, hid, hconnection⟩ := h
  cases hconnection with
  | none => exact ⟨hservice, hemitted, hmessages, hid, .none⟩
  | requested hclient => exact ⟨hservice, hemitted, hmessages, hid, .requested hclient⟩
  | @retrying text unread hunread =>
    cases text with
    | nil => exact ⟨hservice, hemitted, hmessages, hid, .retrying hunread⟩
    | cons c text =>
      rcases hunread.step with ⟨hnext, hnone, hsame⟩ | ⟨fields, rest, origin, hblocks, hready, horigin, hnext, hstep⟩
      · simp only [textStep, TextState.events, hnone, if_true, List.foldl_nil, Option.toList_none, List.append_nil]
        exact ⟨hservice, hemitted, hmessages, hsame.trans hid, .retrying hnext⟩
      · obtain ⟨rfl, rfl⟩ := List.cons.inj hblocks
        obtain ⟨hnone, hsame⟩ := dispatch_retry hready
        rw [← hstep] at hnone hsame
        simp only [textStep, TextState.events, hnone, if_true, List.foldl_nil, Option.toList_none, List.append_nil]
        exact ⟨hservice, hemitted, hmessages, (hsame.trans horigin).trans hid, .streaming hnext⟩
  | @streaming text unread hunread =>
    cases text with
    | nil => exact ⟨hservice, hemitted, hmessages, hid, .streaming hunread⟩
    | cons c text =>
      rcases hunread.step with ⟨hnext, hnone, hsame⟩ | ⟨fields, rest, origin, hblocks, hready, horigin, hnext, hstep⟩
      · simp only [textStep, TextState.events, hnone, if_true, List.foldl_nil, Option.toList_none, List.append_nil]
        exact ⟨hservice, hemitted, hmessages, hsame.trans hid, .streaming hnext⟩
      · cases unread with
        | nil => cases hblocks
        | cons event unread =>
          obtain ⟨rfl, rfl⟩ := List.cons.inj hblocks
          obtain ⟨hsome, hlast⟩ := dispatch_event hready event
          rw [← hstep] at hsome hlast
          simp only [textStep, TextState.events, hsome, reduceCtorEq, if_false, List.foldl_cons, List.foldl_nil,
            streamStep, Option.toList_some]
          refine ⟨hservice, hemitted, ?_, ?_, .streaming hnext⟩
          · rw [List.map_append, ← hmessages]
            rfl
          · rw [hlast, List.getLast?_concat]
            rfl

theorem refines_step (h : Refines s x) (action : TextAction) :
    Refines (textStep orderId s action) ((s.events action).foldl (streamStep orderId) x) := by
  cases action with
  | read => exact refines_read h
  | emit changed status now =>
    obtain ⟨hservice, hemitted, hmessages, hid, hconnection⟩ := h
    simp only [textStep, TextState.events, List.foldl_cons, List.foldl_nil, streamStep, hservice, hemitted]
    exact ⟨rfl, rfl, hmessages, hid, hconnection.emit _⟩
  | connect =>
    have hheader := h.header
    obtain ⟨service, emitted, client, messages, connection⟩ := s
    obtain ⟨service', emitted', received, connection'⟩ := x
    obtain ⟨hservice, hemitted, hmessages, hid, hconnection⟩ := h
    cases hconnection with
    | none =>
      simp only [textStep, TextState.events, List.foldl_cons, List.foldl_nil, streamStep, hheader]
      exact ⟨hservice, hemitted, hmessages, hid, .requested Decoder.ready_reconnect⟩
    | requested hclient => exact ⟨hservice, hemitted, hmessages, hid, .requested hclient⟩
    | retrying hunread => exact ⟨hservice, hemitted, hmessages, hid, .retrying hunread⟩
    | streaming hunread => exact ⟨hservice, hemitted, hmessages, hid, .streaming hunread⟩
  | found =>
    obtain ⟨service, emitted, client, messages, connection⟩ := s
    obtain ⟨service', emitted', received, connection'⟩ := x
    obtain ⟨rfl, hemitted, hmessages, hid, hconnection⟩ := h
    cases hconnection with
    | none => exact ⟨rfl, hemitted, hmessages, hid, .none⟩
    | @requested header hclient =>
      refine ⟨rfl, hemitted, hmessages, hid, ?_⟩
      have hunread := hclient.unread (List.forall_mem_cons.mpr ⟨retry_onLine,
        onLine_events (service.getEventsAfter orderId (parseLastEventId header))⟩)
      refine .retrying ?_
      rw [flatMap_writeSseEvent]
      exact hunread
    | retrying hunread => exact ⟨rfl, hemitted, hmessages, hid, .retrying hunread⟩
    | streaming hunread => exact ⟨rfl, hemitted, hmessages, hid, .streaming hunread⟩
  | notFound =>
    obtain ⟨service, emitted, client, messages, connection⟩ := s
    obtain ⟨service', emitted', received, connection'⟩ := x
    obtain ⟨hservice, hemitted, hmessages, hid, hconnection⟩ := h
    cases hconnection with
    | none => exact ⟨hservice, hemitted, hmessages, hid, .none⟩
    | requested hclient => exact ⟨hservice, hemitted, hmessages, hid, .none⟩
    | retrying hunread => exact ⟨hservice, hemitted, hmessages, hid, .retrying hunread⟩
    | streaming hunread => exact ⟨hservice, hemitted, hmessages, hid, .streaming hunread⟩
  | disconnect => exact ⟨h.service, h.emitted, h.messages, h.lastEventId, .none⟩

def streamActions (orderId : ℕ) : TextState → List TextAction → List StreamAction
  | _, [] => []
  | s, action :: actions => s.events action ++ streamActions orderId (textStep orderId s action) actions

theorem refines_run (h : Refines s x) (actions : List TextAction) :
    Refines (actions.foldl (textStep orderId) s) ((streamActions orderId s actions).foldl (streamStep orderId) x) := by
  induction actions generalizing s x with
  | nil => exact h
  | cons action actions ih =>
    rw [List.foldl_cons, streamActions, List.foldl_append]
    exact ih (refines_step h action)

theorem found_mem_events {action : TextAction} (h : .found ∈ s.events action) : action = .found := by
  cases action with
  | found => rfl
  | read =>
    simp only [TextState.events] at h
    split at h
    · split at h <;> simp at h
    · simp at h
  | _ => simp [TextState.events] at h

theorem split_found {actions : List TextAction} {before after : List StreamAction}
    (h : streamActions orderId s actions = before ++ .found :: after) : ∃ before' after',
      actions = before' ++ .found :: after' ∧ streamActions orderId s before' = before := by
  induction actions generalizing s before with
  | nil => simp [streamActions] at h
  | cons action actions ih =>
    -- the replay is one of a later action
    have hlater : ∀ first, before = s.events action ++ first →
        streamActions orderId (textStep orderId s action) actions = first ++ .found :: after →
        ∃ before' after', action :: actions = before' ++ .found :: after' ∧
          streamActions orderId s before' = before := by
      rintro first rfl hfirst
      obtain ⟨before', after', rfl, hbefore⟩ := ih hfirst
      exact ⟨action :: before', after', rfl, by rw [streamActions, hbefore]⟩
    rw [streamActions] at h
    rcases List.append_eq_append_iff.mp h with ⟨first, hbefore, hfirst⟩ | ⟨first, hevents, hfirst⟩
    · exact hlater first hbefore hfirst
    · cases first with
      | nil => exact hlater [] (by simpa using hevents.symm) hfirst.symm
      | cons next first =>
        obtain ⟨rfl, -⟩ := List.cons.inj hfirst
        obtain rfl : action = .found := found_mem_events (s := s) (by simp [hevents])
        have hnil : before = [] := by
          have hlength := congrArg List.length hevents
          simp only [TextState.events, List.length_append, List.length_cons, List.length_nil] at hlength
          exact List.length_eq_zero_iff.mp (by omega)
        exact ⟨[], actions, rfl, hnil.symm⟩

theorem SameConnection.of_requested {client : Decoder} {connection : Option TextConnection} {header : Option String}
    (h : SameConnection client connection (some (.requested header))) : connection = some (.requested header) := by
  cases h
  rfl

theorem SameConnection.of_read {client : Decoder} {unread : List OrderStatusEvent}
    (h : SameConnection client (some (.streaming [])) (some (.streaming unread))) : unread = [] := by
  cases h with
  | retrying htext => simpa using htext.nil
  | streaming htext => simpa using htext.nil

theorem refines_textRun (orderId : ℕ) (actions : List TextAction) :
    Refines (textRun orderId actions) (streamRun orderId (streamActions orderId .start actions)) :=
  refines_run refines_start actions

theorem TextWithinBuffer.events {actions : List TextAction} (h : TextWithinBuffer orderId actions) :
    WithinBuffer orderId (streamActions orderId .start actions) := by
  rintro before after hsplit ⟨header, hheader⟩
  obtain ⟨before', after', rfl, rfl⟩ := split_found hsplit
  have hrefines := refines_textRun orderId before'
  rw [← hrefines.missed]
  refine h before' after' rfl ⟨header, ?_⟩
  have hconnection := hrefines.connection
  rw [hheader] at hconnection
  exact hconnection.of_requested

end Refinement

/-- Wherever the text is cut, what the client dispatches over all its connections are messages of a segment
of the order's events, in order and each once, with data that parse to the event; once it has read all that
was written to its connection, the segment reaches up to the last event. -/
theorem text_stream_contiguous (orderId : ℕ) {actions : List TextAction} (h : TextWithinBuffer orderId actions) :
    let s := textRun orderId actions
    ∃ received : List OrderStatusEvent, s.messages = received.map OrderStatusEvent.message ∧
      received <:+: eventsOf orderId s.emitted ∧ received.Pairwise (fun a b => a.id < b.id) ∧
      (∀ event ∈ received, JsonValue.parse event.message.data = some event.json) ∧
      (s.connection = some (.streaming []) → received <:+ eventsOf orderId s.emitted) := by
  have hrefines := refines_textRun orderId actions
  have hkept := streamKept_run h.events
  refine ⟨_, hrefines.messages, ?_, ?_, fun event _ => parse_message event, fun hread => ?_⟩
  · rw [hrefines.emitted]
    exact hkept.received
  · exact hkept.emitted.ids_eventsOf.sublist hkept.received.sublist
  · have hconnection := hrefines.connection
    rw [hread] at hconnection
    rw [hrefines.emitted]
    generalize hstream :
      (streamRun orderId (streamActions orderId .start actions)).connection = connection at hconnection
    cases connection with
    | none => cases hconnection
    | some connection =>
      cases connection with
      | requested header => cases hconnection
      | streaming unread =>
        have hsuffix := hkept.streaming unread hstream
        rwa [hconnection.of_read, List.append_nil] at hsuffix

def TextAction.isEmit : TextAction → Bool
  | .emit .. => true
  | _ => false

theorem textRun_emitted_length (orderId : ℕ) (actions : List TextAction) :
    (textRun orderId actions).emitted.length = actions.countP TextAction.isEmit := by
  induction actions using List.reverseRecOn with
  | nil => rfl
  | append_singleton actions action ih =>
    have hstep : (textStep orderId (textRun orderId actions) action).emitted.length =
        (textRun orderId actions).emitted.length + if action.isEmit then 1 else 0 := by
      cases action with
      | emit => simp [textStep, TextAction.isEmit]
      | disconnect => simp [textStep, TextAction.isEmit]
      | _ =>
        simp only [textStep, TextAction.isEmit]
        split <;> simp
    rw [textRun, List.foldl_append, List.countP_append, ← ih]
    exact hstep.trans (by simp [List.countP_singleton])

theorem textWithinBuffer_of_emits {orderId : ℕ} {actions : List TextAction}
    (h : actions.countP TextAction.isEmit ≤ maxBufferedEventsPerOrder) : TextWithinBuffer orderId actions := by
  rintro before after rfl -
  have hemitted := textRun_emitted_length orderId before
  have hmissed : ((textRun orderId before).missed orderId).length ≤ (textRun orderId before).emitted.length := by
    unfold TextState.missed
    split
    · exact Nat.zero_le _
    · exact (List.length_filter_le ..).trans (List.length_filter_le ..)
  rw [List.countP_append] at h
  omega

-- the connection breaks in the second event, which the next one replays
def cutStream : List TextAction :=
  [.emit 7 .created 10, .connect, .found] ++ List.replicate 119 .read ++ [.emit 7 .paid 20] ++
    List.replicate 5 .read ++ [.disconnect, .emit 8 .paid 30, .connect, .found] ++ List.replicate 116 .read

theorem text_stream_contiguous_cut :
    (textRun 7 cutStream).messages.map (·.lastEventId) = [['1'], ['2']] ∧
    ∃ received : List OrderStatusEvent, (textRun 7 cutStream).messages = received.map OrderStatusEvent.message ∧
      received <:+: eventsOf 7 (textRun 7 cutStream).emitted := by
  have hbuffer : TextWithinBuffer 7 cutStream := textWithinBuffer_of_emits (by decide +kernel)
  obtain ⟨received, hmessages, hsegment, -⟩ := text_stream_contiguous 7 hbuffer
  exact ⟨by decide +kernel, received, hmessages, hsegment⟩

end Marketplace
