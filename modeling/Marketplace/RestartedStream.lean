import Marketplace.OrderStream

namespace Marketplace

/-- The running process with the client of the stream, and what the client received from the processes before. -/
structure ServerState where
  stream : StreamState
  earlier : List OrderStatusEvent

namespace ServerState

def start : ServerState := ⟨.start, []⟩

-- the client does not know which process an event came from
def lastEventId (s : ServerState) : Option String :=
  (s.earlier ++ s.stream.received).getLast?.map fun event => Nat.repr event.id

end ServerState

inductive ServerAction
  | process (action : StreamAction)
  | restart
  deriving DecidableEq, Repr

def serverStep (orderId : ℕ) (s : ServerState) : ServerAction → ServerState
  | .process .connect =>
    match s.stream.connection with
    | none => { s with stream := { s.stream with connection := some (.requested s.lastEventId) } }
    | some _ => s
  | .process action => { s with stream := streamStep orderId s.stream action }
  | .restart => ⟨.start, s.earlier ++ s.stream.received⟩

def serverRun (orderId : ℕ) (actions : List ServerAction) : ServerState :=
  actions.foldl (serverStep orderId) .start

def ReplaysMissed (orderId : ℕ) (s : ServerState) : Prop :=
  ∃ unread, (serverStep orderId s (.process .found)).stream.connection = some (.streaming unread) ∧
    ∀ event ∈ s.stream.service.buffers orderId, event ∉ s.stream.received → event ∈ unread

/-- If the client has received nothing from the running process, the buffer has ids above its last one. -/
def BufferAbove (orderId : ℕ) (s : ServerState) : Prop :=
  s.stream.received = [] → ∀ last, s.earlier.getLast? = some last →
    ∀ event ∈ s.stream.service.buffers orderId, last.id < event.id

def AtReplays (orderId : ℕ) (P : ServerState → Prop) (actions : List ServerAction) : Prop :=
  ∀ before after header, actions = before ++ .process .found :: after →
    (serverRun orderId before).stream.connection = some (.requested header) → P (serverRun orderId before)

section Buffers

variable {emitted : List OrderStatusEvent} {service : OrderEventsService} {orderId : ℕ} {event : OrderStatusEvent}

theorem Emitted.of_buffered (h : Emitted emitted service) (hevent : event ∈ service.buffers orderId) :
    event ∈ emitted := by
  rw [h.buffers] at hevent
  exact List.mem_of_mem_filter (List.mem_of_mem_drop hevent)

theorem Emitted.ids_buffer (h : Emitted emitted service) :
    (service.buffers orderId).Pairwise fun a b => a.id < b.id := by
  rw [h.buffers]
  exact h.ids_eventsOf.sublist (List.drop_sublist ..)

theorem mem_buffers_emit {changed : ℕ} {status : OrderStatus} {now : ℕ}
    (hevent : event ∈ (service.emitStatusChanged changed status now).2.buffers orderId) :
    event ∈ service.buffers orderId ∨ changed = orderId ∧ event = (service.emitStatusChanged changed status now).1 := by
  simp only [OrderEventsService.emitStatusChanged] at hevent
  by_cases hchanged : orderId = changed
  · subst hchanged
    rw [Function.update_self] at hevent
    rcases List.mem_append.mp (List.mem_of_mem_drop hevent) with hold | hnew
    · exact .inl hold
    · exact .inr ⟨rfl, List.mem_singleton.mp hnew⟩
  · rw [Function.update_of_ne hchanged] at hevent
    exact .inl hevent

end Buffers

section Runs

variable {orderId : ℕ} {s : ServerState} {actions before after : List ServerAction} {P : ServerState → Prop}

/-- What holds of the client whatever the ids are. -/
structure ServerKept (s : ServerState) : Prop where
  emitted : Emitted s.stream.emitted s.stream.service
  received : ∀ event ∈ s.stream.received, event ∈ s.stream.emitted
  requested : ∀ header, s.stream.connection = some (.requested header) → header = s.lastEventId
  unread : ∀ unread, s.stream.connection = some (.streaming unread) →
    (∀ event ∈ unread, event ∈ s.stream.emitted) ∧ unread.Pairwise fun a b => a.id < b.id

/-- No buffered event is behind the last one received from the running process, and none is lost to a
client that is subscribed. -/
structure NothingSkipped (orderId : ℕ) (s : ServerState) : Prop where
  received : ∀ last, s.stream.received.getLast? = some last →
    ∀ event ∈ s.stream.service.buffers orderId, event.id ≤ last.id → event ∈ s.stream.received
  unread : ∀ unread, s.stream.connection = some (.streaming unread) →
    ∀ event ∈ s.stream.service.buffers orderId, event ∈ s.stream.received ∨ event ∈ unread

theorem serverKept_start : ServerKept .start where
  emitted := emitted_start
  received := by simp [ServerState.start, StreamState.start]
  requested := by simp [ServerState.start, StreamState.start]
  unread := by simp [ServerState.start, StreamState.start]

theorem nothingSkipped_start (earlier : List OrderStatusEvent) : NothingSkipped orderId ⟨.start, earlier⟩ where
  received := by simp [StreamState.start]
  unread := by simp [StreamState.start]

theorem unread_emit {connection : Option Connection} {event : OrderStatusEvent} {unread : List OrderStatusEvent}
    (h : connection.map (Connection.next orderId event) = some (.streaming unread)) :
    ∃ old, connection = some (.streaming old) ∧
      (event.orderId = orderId ∧ unread = old ++ [event] ∨ event.orderId ≠ orderId ∧ unread = old) := by
  obtain ⟨connection, rfl, hnext⟩ := Option.map_eq_some_iff.mp h
  cases connection with
  | requested header => simp [Connection.next] at hnext
  | streaming old =>
    refine ⟨old, rfl, ?_⟩
    obtain rfl := Connection.streaming.inj hnext
    by_cases hevent : event.orderId = orderId
    · simp [hevent]
    · simp [hevent]

theorem ServerKept.emit (h : ServerKept s) (changed : ℕ) (status : OrderStatus) (now : ℕ) :
    ServerKept (serverStep orderId s (.process (.emit changed status now))) where
  emitted := h.emitted.emitStatusChanged
  received := by
    intro event hevent
    exact List.mem_append_left _ (h.received event hevent)
  requested := by
    intro header hheader
    simp only [serverStep, streamStep, Option.map_eq_some_iff] at hheader
    obtain ⟨connection, hconnection, hnext⟩ := hheader
    cases connection with
    | requested header' =>
      obtain rfl := Connection.requested.inj hnext
      exact h.requested header' hconnection
    | streaming unread => simp [Connection.next] at hnext
  unread := by
    intro unread hunread
    obtain ⟨old, hold, ⟨-, rfl⟩ | ⟨-, rfl⟩⟩ := unread_emit hunread
    · obtain ⟨hemitted, hids⟩ := h.unread old hold
      constructor
      · intro event hevent
        rcases List.mem_append.mp hevent with hevent | hevent
        · exact List.mem_append_left _ (hemitted event hevent)
        · exact List.mem_append_right _ hevent
      · apply List.pairwise_append.mpr
        refine ⟨hids, List.pairwise_singleton .., ?_⟩
        intro event hevent last hlast
        rw [List.mem_singleton.mp hlast]
        exact (h.emitted.range event (hemitted event hevent)).2
    · obtain ⟨hemitted, hids⟩ := h.unread unread hold
      exact ⟨fun event hevent => List.mem_append_left _ (hemitted event hevent), hids⟩

theorem ServerKept.found (h : ServerKept s) : ServerKept (serverStep orderId s (.process .found)) := by
  simp only [serverStep, streamStep]
  split
  · refine ⟨h.emitted, h.received, by simp [replay], ?_⟩
    intro unread hunread
    obtain rfl := Connection.streaming.inj (Option.some.inj hunread)
    constructor
    · intro event hevent
      exact h.emitted.of_buffered (List.mem_of_mem_filter hevent)
    · exact h.emitted.ids_buffer.sublist (List.filter_sublist ..)
  · exact h

theorem ServerKept.receive (h : ServerKept s) : ServerKept (serverStep orderId s (.process .receive)) := by
  simp only [serverStep, streamStep]
  split
  · rename_i event unread hconnection
    obtain ⟨hemitted, hids⟩ := h.unread _ hconnection
    refine ⟨h.emitted, ?_, by simp, ?_⟩
    · intro other hother
      rcases List.mem_append.mp hother with hother | hother
      · exact h.received other hother
      · rw [List.mem_singleton.mp hother]
        exact hemitted event List.mem_cons_self
    · intro unread' hunread
      obtain rfl := Connection.streaming.inj (Option.some.inj hunread)
      exact ⟨fun other hother => hemitted other (List.mem_cons_of_mem _ hother), (List.pairwise_cons.mp hids).2⟩
  · exact h

theorem serverKept_step (h : ServerKept s) (action : ServerAction) : ServerKept (serverStep orderId s action) := by
  cases action with
  | restart => exact ⟨emitted_start, by simp [serverStep, StreamState.start],
      by simp [serverStep, StreamState.start], by simp [serverStep, StreamState.start]⟩
  | process action =>
    cases action with
    | emit changed status now => exact h.emit changed status now
    | connect =>
      simp only [serverStep]
      split
      · exact ⟨h.emitted, h.received, by simp [ServerState.lastEventId], by simp⟩
      · exact h
    | found => exact h.found
    | notFound =>
      simp only [serverStep, streamStep]
      split
      · exact ⟨h.emitted, h.received, by simp, by simp⟩
      · exact h
    | receive => exact h.receive
    | disconnect => exact ⟨h.emitted, h.received, by simp [serverStep, streamStep], by simp [serverStep, streamStep]⟩

theorem serverRun_snoc (action : ServerAction) :
    serverRun orderId (actions ++ [action]) = serverStep orderId (serverRun orderId actions) action := by
  simp only [serverRun, List.foldl_append, List.foldl_cons, List.foldl_nil]

theorem serverKept_run (actions : List ServerAction) : ServerKept (serverRun orderId actions) := by
  induction actions using List.reverseRecOn with
  | nil => exact serverKept_start
  | append_singleton actions action ih =>
    rw [serverRun_snoc]
    exact serverKept_step ih action

theorem replayed_of_bufferAbove (h : ServerKept s) (hskipped : NothingSkipped orderId s)
    (habove : BufferAbove orderId s) {event : OrderStatusEvent}
    (hevent : event ∈ s.stream.service.buffers orderId) (hmissed : event ∉ s.stream.received) :
    event ∈ s.stream.service.getEventsAfter orderId (parseLastEventId s.lastEventId) := by
  have hlater : parseLastEventId s.lastEventId < event.id := by
    rcases List.eq_nil_or_concat s.stream.received with hreceived | ⟨front, last, hreceived⟩
    · rw [ServerState.lastEventId, hreceived, List.append_nil]
      cases hearlier : s.earlier.getLast? with
      | none =>
        have hpositive := (h.emitted.range event (h.emitted.of_buffered hevent)).1
        simp only [Option.map_none, parseLastEventId]
        omega
      | some last =>
        have hid := habove hreceived last hearlier event hevent
        rw [Option.map_some, parseLastEventId_repr]
        omega
    · have hlast : s.stream.received.getLast? = some last := by simp [hreceived]
      have hid : last.id < event.id := by
        by_contra hle
        exact hmissed (hskipped.received last hlast event hevent (by omega))
      rw [ServerState.lastEventId, List.getLast?_append, hlast, Option.some_or, Option.map_some,
        parseLastEventId_repr]
      omega
  exact List.mem_filter.mpr ⟨hevent, by simpa using hlater⟩

theorem NothingSkipped.emit (h : NothingSkipped orderId s) (hkept : ServerKept s) (changed : ℕ)
    (status : OrderStatus) (now : ℕ) :
    NothingSkipped orderId (serverStep orderId s (.process (.emit changed status now))) where
  received := by
    intro last hlast event hevent hid
    obtain hold | ⟨-, rfl⟩ := mem_buffers_emit hevent
    · exact h.received last hlast event hold hid
    · -- the id of a new event is above all that were emitted
      have hlast' : last.id < s.stream.service.nextEventId :=
        (hkept.emitted.range last (hkept.received last (List.mem_of_getLast? hlast))).2
      simp only [OrderEventsService.emitStatusChanged] at hid
      omega
  unread := by
    intro unread hunread event hevent
    obtain ⟨old, hold, hcase⟩ := unread_emit hunread
    obtain hbuffered | ⟨hchanged, rfl⟩ := mem_buffers_emit hevent
    · have hevents := h.unread old hold event hbuffered
      obtain ⟨-, rfl⟩ | ⟨-, rfl⟩ := hcase
      · exact hevents.imp_right (List.mem_append_left _)
      · exact hevents
    · obtain ⟨-, rfl⟩ | ⟨hother, -⟩ := hcase
      · exact .inr (List.mem_append_right _ (List.mem_singleton_self _))
      · exact absurd hchanged hother

theorem NothingSkipped.receive (h : NothingSkipped orderId s) (hkept : ServerKept s) :
    NothingSkipped orderId (serverStep orderId s (.process .receive)) := by
  simp only [serverStep, streamStep]
  split
  · rename_i next unread hconnection
    have hids := List.pairwise_cons.mp (hkept.unread _ hconnection).2
    constructor
    · intro last hlast event hevent hid
      obtain rfl : next = last := by simpa using hlast
      obtain hreceived | hevent := h.unread _ hconnection event hevent
      · exact List.mem_append_left _ hreceived
      · rcases List.mem_cons.mp hevent with rfl | hlater
        · exact List.mem_append_right _ (List.mem_singleton_self _)
        · have := hids.1 event hlater
          omega
    · intro unread' hunread event hevent
      obtain rfl := Connection.streaming.inj (Option.some.inj hunread)
      obtain hreceived | hevent := h.unread _ hconnection event hevent
      · exact .inl (List.mem_append_left _ hreceived)
      · rcases List.mem_cons.mp hevent with rfl | hlater
        · exact .inl (List.mem_append_right _ (List.mem_singleton_self _))
        · exact .inr hlater
  · exact h

theorem NothingSkipped.found (h : NothingSkipped orderId s) (hkept : ServerKept s)
    (habove : ∀ header, s.stream.connection = some (.requested header) → BufferAbove orderId s) :
    NothingSkipped orderId (serverStep orderId s (.process .found)) := by
  simp only [serverStep, streamStep]
  split
  · rename_i header hconnection
    constructor
    · exact h.received
    · intro unread hunread event hevent
      obtain rfl := Connection.streaming.inj (Option.some.inj hunread)
      by_cases hreceived : event ∈ s.stream.received
      · exact .inl hreceived
      · rw [hkept.requested header hconnection]
        exact .inr (replayed_of_bufferAbove hkept h (habove header hconnection) hevent hreceived)
  · exact h

theorem NothingSkipped.step (h : NothingSkipped orderId s) (hkept : ServerKept s) (action : ServerAction)
    (habove : action = .process .found → ∀ header, s.stream.connection = some (.requested header) →
      BufferAbove orderId s) :
    NothingSkipped orderId (serverStep orderId s action) := by
  cases action with
  | restart => exact nothingSkipped_start _
  | process action =>
    cases action with
    | emit changed status now => exact h.emit hkept changed status now
    | connect =>
      simp only [serverStep]
      split
      · exact ⟨h.received, by simp⟩
      · exact h
    | found => exact h.found hkept (habove rfl)
    | notFound =>
      simp only [serverStep, streamStep]
      split
      · exact ⟨h.received, by simp⟩
      · exact h
    | receive => exact h.receive hkept
    | disconnect => exact ⟨h.received, by simp [serverStep, streamStep]⟩

theorem AtReplays.earlier (h : AtReplays orderId P (before ++ after)) : AtReplays orderId P before := by
  rintro first rest header rfl hheader
  exact h first (rest ++ after) header (by simp) hheader

theorem nothingSkipped_run (h : AtReplays orderId (BufferAbove orderId) actions) :
    NothingSkipped orderId (serverRun orderId actions) := by
  induction actions using List.reverseRecOn with
  | nil => exact nothingSkipped_start []
  | append_singleton actions action ih =>
    rw [serverRun_snoc]
    apply (ih h.earlier).step (serverKept_run actions)
    rintro rfl header hheader
    exact h actions [] header rfl hheader

theorem found_replays (h : ServerKept s) {header : Option String}
    (hheader : s.stream.connection = some (.requested header)) :
    (serverStep orderId s (.process .found)).stream.connection =
      some (.streaming (s.stream.service.getEventsAfter orderId (parseLastEventId s.lastEventId))) := by
  simp only [serverStep, streamStep, hheader, replay, h.requested header hheader]

theorem bufferAbove_of_replaysMissed (h : ServerKept s) {header : Option String}
    (hheader : s.stream.connection = some (.requested header)) (hreplays : ReplaysMissed orderId s) :
    BufferAbove orderId s := by
  intro hreceived last hlast event hevent
  obtain ⟨unread, hunread, hmissed⟩ := hreplays
  rw [found_replays h hheader] at hunread
  obtain rfl := Connection.streaming.inj (Option.some.inj hunread)
  have hreplayed := hmissed event hevent (by simp [hreceived])
  rw [ServerState.lastEventId, hreceived, List.append_nil, hlast, Option.map_some, parseLastEventId_repr] at hreplayed
  simpa using (List.mem_filter.mp hreplayed).2

end Runs

/-- The handler replays all that its client has missed, over all restarts, if and only if it never answers
a client from an earlier process with an id that the buffered events have not passed. -/
theorem replays_missed_iff (orderId : ℕ) (actions : List ServerAction) :
    AtReplays orderId (ReplaysMissed orderId) actions ↔ AtReplays orderId (BufferAbove orderId) actions := by
  constructor
  · intro h before after header hactions hheader
    exact bufferAbove_of_replaysMissed (serverKept_run before) hheader (h before after header hactions hheader)
  · intro h before after header hactions hheader
    subst hactions
    have hkept : ServerKept (serverRun orderId before) := serverKept_run before
    have hskipped : NothingSkipped orderId (serverRun orderId before) := nothingSkipped_run h.earlier
    refine ⟨_, found_replays hkept hheader, ?_⟩
    intro event hevent hmissed
    exact replayed_of_bufferAbove hkept hskipped (h before _ header rfl hheader) hevent hmissed

-- the client has read three events when the server restarts, and the order is completed in the new process
def restartedStream : List ServerAction :=
  [.process (.emit 7 .created 10), .process (.emit 7 .paid 20), .process (.emit 7 .shipped 30), .process .connect,
    .process .found, .process .receive, .process .receive, .process .receive, .restart,
    .process (.emit 7 .completed 40), .process .connect]

theorem restart_loses_event :
    ∃ actions, ¬AtReplays 7 (ReplaysMissed 7) actions := by
  refine ⟨restartedStream ++ [.process .found], ?_⟩
  intro h
  obtain ⟨unread, hunread, hmissed⟩ := h restartedStream [] (some "3") rfl (by decide)
  have hnothing : (serverRun 7 (restartedStream ++ [.process .found])).stream.connection = some (.streaming []) := by
    decide
  rw [serverRun_snoc, hunread] at hnothing
  obtain rfl := Connection.streaming.inj (Option.some.inj hnothing)
  have hcompleted : ⟨1, 7, .completed, 40⟩ ∈ (serverRun 7 restartedStream).stream.service.buffers 7 := by decide
  exact List.not_mem_nil (hmissed _ hcompleted (by decide))

end Marketplace
