import Marketplace.OrderEvents

namespace Marketplace

def parseLastEventId : Option String → ℤ
  | none => 0
  | some value =>
    if value = "" then 0
    else match jsNumber value with
      | .integer parsed => if parsed < 0 then 0 else parsed
      | .other => 0

/-- A call of `streamOrderEvents`: it awaits `findById`, or it has subscribed and its client has not read
all that was written to the response. -/
inductive Connection
  | requested (lastEventIdHeader : Option String)
  | streaming (unread : List OrderStatusEvent)
  deriving DecidableEq, Repr

-- what the handler writes once `findById` has answered
def replay (service : OrderEventsService) (orderId : ℕ) (lastEventIdHeader : Option String) : Connection :=
  .streaming (service.getEventsAfter orderId (parseLastEventId lastEventIdHeader))

-- `subject.next`
def Connection.next (orderId : ℕ) (event : OrderStatusEvent) : Connection → Connection
  | .requested header => .requested header
  | .streaming unread => .streaming (if event.orderId ≠ orderId then unread else unread ++ [event])

/-- The process with one client of the stream of an order. `emitted` is a history variable. -/
structure StreamState where
  service : OrderEventsService
  emitted : List OrderStatusEvent
  received : List OrderStatusEvent
  connection : Option Connection

namespace StreamState

def start : StreamState := ⟨.start, [], [], none⟩

def lastEventId (s : StreamState) : Option String := s.received.getLast?.map fun event => Nat.repr event.id

def missed (orderId : ℕ) (s : StreamState) : List OrderStatusEvent :=
  match s.received.getLast? with
  | none => []
  | some last => (eventsOf orderId s.emitted).filter fun event => last.id < event.id

end StreamState

inductive StreamAction
  | emit (orderId : ℕ) (status : OrderStatus) (now : ℕ)
  | connect
  | found
  | notFound
  | receive
  | disconnect
  deriving DecidableEq, Repr

/-- One step; an action that the connection does not allow changes nothing. -/
def streamStep (orderId : ℕ) (s : StreamState) : StreamAction → StreamState
  | .emit changed status now =>
    let (event, service) := s.service.emitStatusChanged changed status now
    { s with
      service := service
      emitted := s.emitted ++ [event]
      connection := s.connection.map (Connection.next orderId event) }
  | .connect =>
    match s.connection with
    | none => { s with connection := some (.requested s.lastEventId) }
    | some _ => s
  | .found =>
    match s.connection with
    | some (.requested header) => { s with connection := some (replay s.service orderId header) }
    | _ => s
  | .notFound =>
    match s.connection with
    | some (.requested _) => { s with connection := none }
    | _ => s
  | .receive =>
    match s.connection with
    | some (.streaming (event :: unread)) =>
      { s with received := s.received ++ [event], connection := some (.streaming unread) }
    | _ => s
  | .disconnect => { s with connection := none }

def streamRun (orderId : ℕ) (actions : List StreamAction) : StreamState :=
  actions.foldl (streamStep orderId) .start

/-- Whenever a handler replays, the client has missed at most as many events as a buffer holds. -/
def WithinBuffer (orderId : ℕ) (actions : List StreamAction) : Prop :=
  ∀ before after, actions = before ++ .found :: after →
    (∃ header, (streamRun orderId before).connection = some (.requested header)) →
    ((streamRun orderId before).missed orderId).length ≤ maxBufferedEventsPerOrder

section Replay

variable {emitted received : List OrderStatusEvent} {service : OrderEventsService} {orderId : ℕ}

theorem parseLastEventId_repr (n : ℕ) : parseLastEventId (some (Nat.repr n)) = n := by
  have hne : Nat.repr n ≠ "" := by
    intro hempty
    have hl := congrArg String.toList hempty
    rw [Nat.toList_repr] at hl
    exact Nat.toDigits_ne_nil hl
  have hpos : ¬(n : ℤ) < 0 := by omega
  simp only [parseLastEventId, if_neg hne, jsNumber_repr, if_neg hpos]

theorem filter_above {n : ℕ} {front after : List OrderStatusEvent} (hfront : ∀ event ∈ front, event.id ≤ n)
    (hafter : ∀ event ∈ after, n < event.id) : (front ++ after).filter (fun event => n < event.id) = after := by
  have hnone : front.filter (fun event => n < event.id) = [] := by
    apply List.filter_eq_nil_iff.mpr
    intro event hevent
    have hle := hfront event hevent
    simp
    omega
  have hall : after.filter (fun event => n < event.id) = after := by
    apply List.filter_eq_self.mpr
    intro event hevent
    simpa using hafter event hevent
  rw [List.filter_append, hnone, hall, List.nil_append]

theorem Emitted.ids_eventsOf (h : Emitted emitted service) :
    (eventsOf orderId emitted).Pairwise fun a b => a.id < b.id :=
  h.ids.sublist (List.filter_sublist ..)

theorem getEventsAfter_zero (h : Emitted emitted service) :
    service.getEventsAfter orderId 0 = (eventsOf orderId emitted).rtake maxBufferedEventsPerOrder := by
  rw [OrderEventsService.getEventsAfter, h.buffers]
  apply List.filter_eq_self.mpr
  intro event hevent
  have hmem : event ∈ emitted := List.mem_of_mem_filter (List.mem_of_mem_drop hevent)
  have := (h.range event hmem).1
  simp
  omega

section Returning

variable {front after : List OrderStatusEvent} {last : OrderStatusEvent}

theorem ids_around (h : Emitted emitted service) (hevents : eventsOf orderId emitted = front ++ [last] ++ after) :
    (∀ event ∈ front ++ [last], event.id ≤ last.id) ∧ ∀ event ∈ after, last.id < event.id := by
  have hids : (eventsOf orderId emitted).Pairwise fun a b => a.id < b.id := h.ids_eventsOf
  rw [hevents] at hids
  obtain ⟨hfront, -, hafter⟩ := List.pairwise_append.mp hids
  constructor
  · intro event hevent
    rcases List.mem_append.mp hevent with hevent | hevent
    · exact Nat.le_of_lt ((List.pairwise_append.mp hfront).2.2 event hevent last (List.mem_singleton_self _))
    · rw [List.mem_singleton.mp hevent]
  · exact fun event hevent => hafter last (by simp) event hevent

theorem getEventsAfter_last (h : Emitted emitted service)
    (hevents : eventsOf orderId emitted = front ++ [last] ++ after)
    (hlength : after.length ≤ maxBufferedEventsPerOrder) : service.getEventsAfter orderId last.id = after := by
  obtain ⟨hfront, hafter⟩ := ids_around h hevents
  rw [OrderEventsService.getEventsAfter, h.buffers, hevents, List.rtake, List.drop_append_of_le_length]
  · have hdropped : ∀ event ∈ (front ++ [last]).drop ((front ++ [last] ++ after).length - maxBufferedEventsPerOrder),
        event.id ≤ last.id := fun event hevent => hfront event (List.mem_of_mem_drop hevent)
    simpa using filter_above hdropped hafter
  · simp only [List.length_append] at hlength ⊢
    omega

end Returning

end Replay

section Runs

variable {orderId : ℕ} {s : StreamState} {actions before after : List StreamAction}

/-- What the client has received is a segment of the order's events, and what it will read from its
connection follows on it, up to the last event. -/
structure StreamKept (orderId : ℕ) (s : StreamState) : Prop where
  emitted : Emitted s.emitted s.service
  received : s.received <:+: eventsOf orderId s.emitted
  requested : ∀ header, s.connection = some (.requested header) → header = s.lastEventId
  streaming : ∀ unread, s.connection = some (.streaming unread) →
    s.received ++ unread <:+ eventsOf orderId s.emitted

theorem streamKept_start : StreamKept orderId .start where
  emitted := emitted_start
  received := List.infix_rfl
  requested := by simp [StreamState.start]
  streaming := by simp [StreamState.start]

theorem getEventsAfter_suffix (h : StreamKept orderId s)
    (hmissed : (s.missed orderId).length ≤ maxBufferedEventsPerOrder) :
    s.received ++ s.service.getEventsAfter orderId (parseLastEventId s.lastEventId) <:+ eventsOf orderId s.emitted := by
  rcases List.eq_nil_or_concat s.received with hreceived | ⟨front, last, hreceived⟩
  · simp only [StreamState.lastEventId, hreceived, List.getLast?_nil, Option.map_none, parseLastEventId,
      getEventsAfter_zero h.emitted, List.nil_append]
    exact List.drop_suffix ..
  · obtain ⟨earlier, after, hsegment⟩ := h.received
    have hevents : eventsOf orderId s.emitted = (earlier ++ front) ++ [last] ++ after := by
      rw [← hsegment, hreceived]
      simp
    obtain ⟨hfront, hafter⟩ := ids_around h.emitted hevents
    have hlast : s.received.getLast? = some last := by simp [hreceived]
    have hmissed' : s.missed orderId = after := by
      simp only [StreamState.missed, hlast, hevents]
      exact filter_above hfront hafter
    rw [hmissed'] at hmissed
    rw [StreamState.lastEventId, hlast, Option.map_some, parseLastEventId_repr,
      getEventsAfter_last h.emitted hevents hmissed, ← hsegment]
    exact ⟨earlier, by simp⟩

theorem streamKept_emit (h : StreamKept orderId s) (changed : ℕ) (status : OrderStatus) (now : ℕ) :
    StreamKept orderId (streamStep orderId s (.emit changed status now)) := by
  have hevent : (s.service.emitStatusChanged changed status now).1.orderId = changed := rfl
  constructor
  · exact h.emitted.emitStatusChanged
  · simp only [streamStep, eventsOf_append]
    exact h.received.trans (List.prefix_append ..).isInfix
  · intro header hheader
    simp only [streamStep, Option.map_eq_some_iff] at hheader
    obtain ⟨connection, hconnection, hnext⟩ := hheader
    cases connection with
    | requested header' =>
      obtain rfl := Connection.requested.inj hnext
      exact h.requested header' hconnection
    | streaming unread => simp [Connection.next] at hnext
  · intro unread hunread
    simp only [streamStep, Option.map_eq_some_iff] at hunread
    obtain ⟨connection, hconnection, hnext⟩ := hunread
    cases connection with
    | requested header => simp [Connection.next] at hnext
    | streaming unread' =>
      obtain rfl := Connection.streaming.inj hnext
      obtain ⟨earlier, hsuffix⟩ := h.streaming unread' hconnection
      refine ⟨earlier, ?_⟩
      simp only [streamStep, eventsOf_append, eventsOf_singleton, ← hsuffix, hevent]
      by_cases hchanged : changed = orderId
      · simp [hchanged]
      · simp [hchanged]

theorem streamKept_step (h : StreamKept orderId s) (action : StreamAction)
    (hfound : action = .found → (∃ header, s.connection = some (.requested header)) →
      (s.missed orderId).length ≤ maxBufferedEventsPerOrder) :
    StreamKept orderId (streamStep orderId s action) := by
  cases action with
  | emit changed status now => exact streamKept_emit h changed status now
  | connect =>
    simp only [streamStep]
    split
    · exact ⟨h.emitted, h.received, by simp [StreamState.lastEventId], by simp⟩
    · exact h
  | found =>
    simp only [streamStep]
    split
    · rename_i header hconnection
      refine ⟨h.emitted, h.received, by simp [replay], ?_⟩
      intro unread hunread
      simp only [replay, Option.some.injEq, Connection.streaming.injEq] at hunread
      rw [← hunread, h.requested header hconnection]
      have hsuffix := getEventsAfter_suffix h (hfound rfl ⟨header, hconnection⟩)
      exact hsuffix
    · exact h
  | notFound =>
    simp only [streamStep]
    split
    · exact ⟨h.emitted, h.received, by simp, by simp⟩
    · exact h
  | receive =>
    simp only [streamStep]
    split
    · rename_i event unread hconnection
      have hsuffix := h.streaming _ hconnection
      constructor
      · exact h.emitted
      · simp only
        refine List.IsInfix.trans ?_ hsuffix.isInfix
        exact ⟨[], unread, by simp⟩
      · simp
      · intro unread' hunread
        simp only [Option.some.injEq, Connection.streaming.injEq] at hunread
        subst hunread
        simpa using hsuffix
    · exact h
  | disconnect => exact ⟨h.emitted, h.received, by simp [streamStep], by simp [streamStep]⟩

theorem streamRun_snoc (action : StreamAction) :
    streamRun orderId (actions ++ [action]) = streamStep orderId (streamRun orderId actions) action := by
  simp only [streamRun, List.foldl_append, List.foldl_cons, List.foldl_nil]

theorem WithinBuffer.earlier (h : WithinBuffer orderId (before ++ after)) : WithinBuffer orderId before := by
  rintro first rest rfl
  exact h first (rest ++ after) (by simp)

theorem streamKept_run (h : WithinBuffer orderId actions) : StreamKept orderId (streamRun orderId actions) := by
  induction actions using List.reverseRecOn with
  | nil => exact streamKept_start
  | append_singleton actions action ih =>
    rw [streamRun_snoc]
    apply streamKept_step (ih h.earlier)
    rintro rfl
    exact h actions [] rfl

end Runs

/-- Over all its connections the client receives a segment of the order's events, in order and each once;
once it is subscribed, what it has received and has still to read reaches up to the last event. -/
theorem stream_contiguous (orderId : ℕ) {actions : List StreamAction} (h : WithinBuffer orderId actions) :
    let s := streamRun orderId actions
    s.received <:+: eventsOf orderId s.emitted ∧ s.received.Pairwise (fun a b => a.id < b.id) ∧
    ∀ unread, s.connection = some (.streaming unread) → s.received ++ unread <:+ eventsOf orderId s.emitted := by
  have hkept := streamKept_run h
  exact ⟨hkept.received, hkept.emitted.ids_eventsOf.sublist hkept.received.sublist, hkept.streaming⟩

theorem streamRun_emitted_length (orderId : ℕ) (actions : List StreamAction) :
    (streamRun orderId actions).emitted.length ≤ actions.length := by
  induction actions using List.reverseRecOn with
  | nil => exact Nat.le_refl _
  | append_singleton actions action ih =>
    have hstep : (streamStep orderId (streamRun orderId actions) action).emitted.length ≤
        (streamRun orderId actions).emitted.length + 1 := by
      cases action with
      | emit => simp [streamStep]
      | disconnect => simp [streamStep]
      | _ =>
        simp only [streamStep]
        split <;> simp
    rw [streamRun_snoc, List.length_append, List.length_singleton]
    omega

theorem withinBuffer_of_length {orderId : ℕ} {actions : List StreamAction}
    (h : actions.length ≤ maxBufferedEventsPerOrder) : WithinBuffer orderId actions := by
  rintro before after rfl -
  have hlength := streamRun_emitted_length orderId before
  have hmissed : ((streamRun orderId before).missed orderId).length ≤ (streamRun orderId before).emitted.length := by
    unfold StreamState.missed
    split
    · exact Nat.zero_le _
    · exact (List.length_filter_le ..).trans (List.length_filter_le ..)
  simp only [List.length_append] at h
  omega

-- the connection breaks before the second event is read, and the next one is replayed around a change
def brokenStream : List StreamAction :=
  [.emit 7 .created 10, .connect, .found, .receive, .emit 7 .paid 20, .disconnect, .emit 8 .paid 30, .connect,
    .emit 7 .shipped 40, .found, .emit 7 .completed 50, .receive, .receive, .receive]

theorem stream_contiguous_broken :
    (streamRun 7 brokenStream).received.map (·.status) = [.created, .paid, .shipped, .completed] ∧
    (streamRun 7 brokenStream).received <:+: eventsOf 7 (streamRun 7 brokenStream).emitted :=
  ⟨by decide, (stream_contiguous 7 (withinBuffer_of_length (by decide))).1⟩

end Marketplace
