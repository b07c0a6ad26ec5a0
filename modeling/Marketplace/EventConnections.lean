import Marketplace.OrderStream
import Marketplace.OrderUpdates
import Marketplace.ReadCommitted.Writes

/-!
The connections of a process that streams order events, and what their handlers leave in `events$`.
-/

namespace Marketplace.Sse

open Concurrent ReadCommitted

inductive SseFrame
  | head
  | retry
  | event (event : OrderStatusEvent)
  deriving DecidableEq, Repr

structure Subscription (T : Type) where
  connection : T
  orderId : ℕ
  deriving DecidableEq, Repr

structure SseConnection where
  written : List SseFrame
  closed : Bool
  -- the request has a listener for 'close'
  listening : Bool
  deriving DecidableEq, Repr

/-- The memory of the process. A connection has the name of its request. -/
structure ConnectionsState (T : Type) where
  service : OrderEventsService
  subscriptions : List (Subscription T)
  connection : T → SseConnection

inductive SseOp (T : Type)
  | write (frame : SseFrame)
  | getEventsAfter (orderId : ℕ) (lastEventId : ℤ)
  | subscribe (orderId : ℕ)
  | onClose
  | close (connection : T)
  | emitStatusChanged (orderId : ℕ) (status : OrderStatus)

abbrev SseOp.Res {T : Type} : SseOp T → Type
  | .getEventsAfter _ _ => List OrderStatusEvent
  | _ => Unit

variable {T : Type} [DecidableEq T]

namespace ConnectionsState

def update (s : ConnectionsState T) (t : T) (f : SseConnection → SseConnection) : ConnectionsState T :=
  { s with connection := Function.update s.connection t (f (s.connection t)) }

-- nothing is written to a closed connection
def write (s : ConnectionsState T) (t : T) (frame : SseFrame) : ConnectionsState T :=
  s.update t fun connection =>
    if connection.closed then connection else { connection with written := connection.written ++ [frame] }

omit [DecidableEq T] in
def subscribe (s : ConnectionsState T) (t : T) (orderId : ℕ) : ConnectionsState T :=
  { s with subscriptions := s.subscriptions ++ [⟨t, orderId⟩] }

def onClose (s : ConnectionsState T) (t : T) : ConnectionsState T :=
  s.update t fun connection => { connection with listening := true }

/-- The request emits 'close': the listener, if there is one by now, unsubscribes. -/
def close (s : ConnectionsState T) (t : T) : ConnectionsState T :=
  let closed := s.update t fun connection => { connection with closed := true }
  if (s.connection t).listening then
    { closed with subscriptions := closed.subscriptions.filter fun subscription => subscription.connection ≠ t }
  else closed

def emit (s : ConnectionsState T) (orderId : ℕ) (status : OrderStatus) (now : ℕ) : ConnectionsState T :=
  let (event, service) := s.service.emitStatusChanged orderId status now
  s.subscriptions.foldl (fun s subscription =>
    if event.orderId ≠ subscription.orderId then s else s.write subscription.connection (.event event))
    { s with service := service }

omit [DecidableEq T] in
def start : ConnectionsState T := ⟨.start, [], fun _ => ⟨[], false, false⟩⟩

end ConnectionsState

inductive SsePerforms (t : T) :
    (o : SseOp T) → ConnectionsState T → Except Failure o.Res → ConnectionsState T → Prop
  | write {s frame} : SsePerforms t (.write frame) s (.ok ()) (s.write t frame)
  | getEventsAfter {s orderId lastEventId} :
      SsePerforms t (.getEventsAfter orderId lastEventId) s (.ok (s.service.getEventsAfter orderId lastEventId)) s
  | subscribe {s orderId} : SsePerforms t (.subscribe orderId) s (.ok ()) (s.subscribe t orderId)
  | onClose {s} : SsePerforms t .onClose s (.ok ()) (s.onClose t)
  | close {s connection} (h : (s.connection connection).closed = false) :
      SsePerforms t (.close connection) s (.ok ()) (s.close connection)
  | emitStatusChanged {s orderId status} (now : ℕ) :
      SsePerforms t (.emitStatusChanged orderId status) s (.ok ()) (s.emit orderId status now)

omit [DecidableEq T] in
def Unsubscribed (t : T) (s : ConnectionsState T) : Prop :=
    ∀ subscription ∈ s.subscriptions, subscription.connection ≠ t

section Steps

variable {s s' : ConnectionsState T} {t u : T}

@[simp] theorem ConnectionsState.update_self {f : SseConnection → SseConnection} :
    (s.update t f).connection t = f (s.connection t) := by simp [update]

theorem ConnectionsState.update_of_ne {f : SseConnection → SseConnection} (h : u ≠ t) :
    (s.update t f).connection u = s.connection u := by simp [update, h]

/-- A step that neither subscribes nor installs a listener, and closes no connection. -/
structure KeepsListeners (s s' : ConnectionsState T) : Prop where
  subscriptions : s'.subscriptions = s.subscriptions
  closed : ∀ t, (s'.connection t).closed = (s.connection t).closed
  listening : ∀ t, (s'.connection t).listening = (s.connection t).listening

omit [DecidableEq T] in
theorem KeepsListeners.trans {s'' : ConnectionsState T} (h : KeepsListeners s s') (h' : KeepsListeners s' s'') :
    KeepsListeners s s'' :=
  ⟨h'.subscriptions.trans h.subscriptions, fun t => (h'.closed t).trans (h.closed t),
    fun t => (h'.listening t).trans (h.listening t)⟩

theorem keepsListeners_write {frame : SseFrame} : KeepsListeners s (s.write t frame) := by
  refine ⟨rfl, fun u => ?_, fun u => ?_⟩
  all_goals
    by_cases hu : u = t
    · subst hu
      simp only [ConnectionsState.write, ConnectionsState.update_self]
      split <;> rfl
    · rw [ConnectionsState.write, ConnectionsState.update_of_ne hu]

theorem keepsListeners_emit {orderId : ℕ} {status : OrderStatus} {now : ℕ} :
    KeepsListeners s (s.emit orderId status now) := by
  have hfold (event : OrderStatusEvent) (subscriptions : List (Subscription T)) (s : ConnectionsState T) :
      KeepsListeners s (subscriptions.foldl (fun s subscription =>
        if event.orderId ≠ subscription.orderId then s else s.write subscription.connection (.event event)) s) := by
    induction subscriptions generalizing s with
    | nil => exact ⟨rfl, fun _ => rfl, fun _ => rfl⟩
    | cons subscription subscriptions ih =>
      rw [List.foldl_cons]
      split
      · exact ih s
      · exact keepsListeners_write.trans (ih _)
  have hservice : KeepsListeners s { s with service := (s.service.emitStatusChanged orderId status now).2 } :=
    ⟨rfl, fun _ => rfl, fun _ => rfl⟩
  exact hservice.trans (hfold (s.service.emitStatusChanged orderId status now).1 s.subscriptions _)

theorem listening_close : ((s.close t).connection u).listening = (s.connection u).listening := by
  have hupdate : ((s.update t fun connection => { connection with closed := true }).connection u).listening =
      (s.connection u).listening := by
    by_cases hu : u = t
    · subst hu
      rw [ConnectionsState.update_self]
    · rw [ConnectionsState.update_of_ne hu]
  unfold ConnectionsState.close
  split <;> exact hupdate

theorem subscriptions_close : (s.close t).subscriptions ⊆ s.subscriptions := by
  unfold ConnectionsState.close
  split
  · exact List.filter_subset_self _
  · exact List.Subset.refl _

theorem SsePerforms.others {o : SseOp T} {r : Except Failure o.Res} (h : SsePerforms t o s r s') (hne : t ≠ u) :
    (s'.connection u).listening = (s.connection u).listening ∧ (Unsubscribed u s → Unsubscribed u s') := by
  have hkept (h : KeepsListeners s s') :
      (s'.connection u).listening = (s.connection u).listening ∧ (Unsubscribed u s → Unsubscribed u s') := by
    refine ⟨h.listening u, fun hu => ?_⟩
    unfold Unsubscribed
    rw [h.subscriptions]
    exact hu
  cases h with
  | write => exact hkept keepsListeners_write
  | getEventsAfter => exact ⟨rfl, id⟩
  | subscribe =>
    refine ⟨rfl, fun hu subscription hmem => ?_⟩
    rcases List.mem_append.mp hmem with hmem | hmem
    · exact hu subscription hmem
    · rw [List.mem_singleton.mp hmem]
      exact hne
  | onClose => exact ⟨by rw [ConnectionsState.onClose, ConnectionsState.update_of_ne (Ne.symm hne)], id⟩
  | close _ => exact ⟨listening_close, fun hu subscription hmem => hu subscription (subscriptions_close hmem)⟩
  | emitStatusChanged now => exact hkept keepsListeners_emit

end Steps

/-- The handlers share one process: none of them crashes alone. -/
def orderConnections : Machine T (ConnectionsState T) (SseOp T) SseOp.Res Failure where
  perform := SsePerforms
  crash _ _ _ := False
  frame t s s' := (s'.connection t).listening = (s.connection t).listening ∧ (Unsubscribed t s → Unsubscribed t s')
  frame_refl _ _ := ⟨rfl, id⟩
  frame_trans h h' := ⟨h'.1.trans h.1, fun hu => h'.2 (h.2 hu)⟩
  perform_frame hne h := h.others hne
  crash_frame _ h := h.elim

abbrev SseWorld (T : Type) := World T Serial Key (Row T) (ConnectionsState T)

abbrev SseAction (T : Type) := Action Serial Key (Row T) (SseOp T)

abbrev SseClient (T α : Type) := @Client Serial Key (Row T) (SseOp T) SseOp.Res Failure α

abbrev SseConfig (T : Type) := Config T (SseWorld T) (SseAction T) (Action.Res SseOp.Res) Failure Unit

abbrev SseMachine (T : Type) [DecidableEq T] :
    Machine T (SseWorld T) (SseAction T) (Action.Res SseOp.Res) Failure :=
  withDatabase orderConnections .database

section Code

omit [DecidableEq T]

def sse (o : SseOp T) : SseClient T o.Res := Prog.perform (Action.ext o)

def writeSseEvents : List OrderStatusEvent → SseClient T Unit
  | [] => pure ()
  | event :: events => do
    sse (.write (.event event))
    writeSseEvents events

def streamOrderEvents (id : ℕ) (lastEventIdHeader : Option String) : SseClient T Unit := do
  let _ ← findById id
  let lastEventId := parseLastEventId lastEventIdHeader
  sse (.write .head)
  sse (.write .retry)
  let missedEvents ← sse (.getEventsAfter id lastEventId)
  writeSseEvents missedEvents
  sse (.subscribe id)
  sse .onClose

inductive SseCall (T : Type)
  | streamOrderEvents (id : ℕ) (lastEventIdHeader : Option String)
  | close (connection : T)
  | updateStatus (id : ℕ) (status : String)

def SseCall.run : SseCall T → SseClient T Unit
  | .streamOrderEvents id lastEventIdHeader => Sse.streamOrderEvents id lastEventIdHeader
  | .close connection => sse (.close connection)
  | .updateStatus id status => do
    let _ ← Marketplace.updateStatus (fun orderId status => sse (.emitStatusChanged orderId status)) id status

end Code

/-- Where a handler installs its listener, its connection is still open. -/
def ListensInTime (t : T) (a : SseAction T) (w : SseWorld T) : Prop :=
  a = .ext .onClose → (w.env.connection t).closed = false

abbrev promptHandlers (T : Type) [DecidableEq T] :
    Machine T (SseWorld T) (SseAction T) (Action.Res SseOp.Res) Failure :=
  (SseMachine T).restrict (fun t a w _ _ => ListensInTime t a w) fun _ _ _ => True

def ClosedUnsubscribed (s : ConnectionsState T) : Prop :=
  ∀ t, (s.connection t).closed = true → (s.connection t).listening = true → Unsubscribed t s

def closedUnsubscribed : Discipline (promptHandlers T) where
  inv w := ClosedUnsubscribed w.env
  always _ _ := True
  rely _ _ _ := True
  gone _ _ := False
  always_refl _ := trivial
  always_trans _ _ := trivial
  rely_refl _ _ := trivial
  rely_trans _ _ _ _ _ _ := trivial

section Specs

variable {t : T} {s s' : ConnectionsState T}

def NotSubscribed (t : T) (w : SseWorld T) : Prop :=
  (w.env.connection t).listening = false ∧ Unsubscribed t w.env

def Listening (t : T) (w : SseWorld T) : Prop := (w.env.connection t).listening = true

theorem notSubscribed_stable : (closedUnsubscribed (T := T)).Stable t (NotSubscribed t) :=
  fun _ _ _ h hs => ⟨hs.frame.env.1.trans h.1, hs.frame.env.2 h.2⟩

theorem listening_stable : (closedUnsubscribed (T := T)).Stable t (Listening t) :=
  fun _ _ _ h hs => hs.frame.env.1.trans h

omit [DecidableEq T] in
theorem ClosedUnsubscribed.kept (h : ClosedUnsubscribed s) (hs : KeepsListeners s s') : ClosedUnsubscribed s' := by
  intro u hclosed hlistening
  rw [hs.closed] at hclosed
  rw [hs.listening] at hlistening
  unfold Unsubscribed
  rw [hs.subscriptions]
  exact h u hclosed hlistening

theorem ClosedUnsubscribed.close (h : ClosedUnsubscribed s) (t : T) : ClosedUnsubscribed (s.close t) := by
  intro u hclosed hlistening
  rw [listening_close] at hlistening
  by_cases hu : u = t
  · subst hu
    intro subscription hmem
    simp only [ConnectionsState.close, hlistening, if_true, List.mem_filter, decide_eq_true_eq] at hmem
    exact hmem.2
  · refine fun subscription hmem => h u ?_ hlistening subscription (subscriptions_close hmem)
    have hsame : ((s.update t fun connection => { connection with closed := true }).connection u).closed =
        (s.connection u).closed := by rw [ConnectionsState.update_of_ne hu]
    rw [← hsame]
    unfold ConnectionsState.close at hclosed
    split at hclosed <;> exact hclosed

omit [DecidableEq T] in
def Quiet : SseAction T → Prop
  | .ext (.subscribe _) | .ext .onClose => False
  | _ => True

theorem quiet_step {a : SseAction T} {r : Except Failure (a.Res SseOp.Res)} {w w' : SseWorld T} (ha : Quiet a)
    (hi : ClosedUnsubscribed w.env) (h : NotSubscribed t w) (hs : (SseMachine T).perform t a w r w') :
    ClosedUnsubscribed w'.env ∧ NotSubscribed t w' := by
  have hkept {s' : ConnectionsState T} (hk : KeepsListeners w.env s') :
      ClosedUnsubscribed s' ∧ (s'.connection t).listening = false ∧ Unsubscribed t s' := by
    refine ⟨hi.kept hk, (hk.listening t).trans h.1, ?_⟩
    unfold Unsubscribed
    rw [hk.subscriptions]
    exact h.2
  cases hs with
  | answer _ => exact ⟨hi, h⟩
  | refuse _ => exact ⟨hi, h⟩
  | lostCommit => exact ⟨hi, h⟩
  | lostRollback => exact ⟨hi, h⟩
  | ext hperform =>
    cases hperform with
    | write => exact hkept keepsListeners_write
    | getEventsAfter => exact ⟨hi, h⟩
    | subscribe => exact ha.elim
    | onClose => exact ha.elim
    | close _ =>
      refine ⟨hi.close _, listening_close.trans h.1, fun subscription hmem => ?_⟩
      exact h.2 subscription (subscriptions_close hmem)
    | emitStatusChanged now => exact hkept keepsListeners_emit

theorem quiet_spec {α : Type} {p : SseClient T α} (hp : p.Uses Quiet) :
    (closedUnsubscribed (T := T)).Triple t (NotSubscribed t) p (fun _ => NotSubscribed t) fun _ => NotSubscribed t := by
  refine .uses hp notSubscribed_stable ?_ fun _ _ _ _ hc => hc.1.2.elim
  intro a r w w' ha hi h hs
  obtain ⟨hi', h'⟩ := quiet_step ha hi h hs.1
  exact ⟨⟨hi', trivial, fun _ _ => trivial⟩, h'⟩

omit [DecidableEq T] in
theorem findById_quiet (id : ℕ) : (findById id : SseClient T OrderResponse).Uses Quiet := by
  refine .bind (.perform trivial) fun view => ?_
  split
  · trivial
  · exact .bind (.perform trivial) fun _ => trivial

omit [DecidableEq T] in
theorem writeSseEvents_quiet (events : List OrderStatusEvent) :
    (writeSseEvents events : SseClient T Unit).Uses Quiet := by
  induction events with
  | nil => trivial
  | cons event events ih => exact .bind (.perform trivial) fun _ => ih

omit [DecidableEq T] in
theorem updateStatus_quiet (id : ℕ) (status : String) : (Marketplace.updateStatus
    (fun orderId status => sse (.emitStatusChanged orderId status)) id status :
      SseClient T OrderResponse).Uses Quiet := by
  unfold Marketplace.updateStatus
  split
  · trivial
  · refine .bind (.bind (.perform trivial) fun _ => .handle ?_ fun error => ?_) fun updated => ?_
    · refine .bind (uses_updateWhere trivial trivial fun _ => trivial) fun _ => ?_
      exact .bind (.perform trivial) fun _ => trivial
    · exact .bind (.handle (.perform trivial) fun _ => trivial) fun _ => trivial
    · split
      · trivial
      · exact .bind (.perform trivial) fun _ => findById_quiet id

theorem subscribe_spec (orderId : ℕ) : (closedUnsubscribed (T := T)).Triple t (NotSubscribed t)
    (sse (.subscribe orderId)) (fun _ w => (w.env.connection t).listening = false) fun _ => NotSubscribed t := by
  refine .perform notSubscribed_stable ?_ (fun _ _ _ _ hc => hc.1.2.elim)
    (fun _ _ _ _ h hs => hs.frame.env.1.trans h) fun _ => notSubscribed_stable
  rintro w r w' hi h ⟨hs, -⟩
  cases hs with
  | ext hperform =>
    cases hperform with
    | subscribe =>
      refine ⟨⟨fun u hclosed hlistening subscription hmem => ?_, trivial, fun _ _ => trivial⟩, h.1⟩
      rcases List.mem_append.mp hmem with hmem | hmem
      · exact hi u hclosed hlistening subscription hmem
      · rw [List.mem_singleton.mp hmem]
        rintro rfl
        have hnot : (w.env.connection t).listening = false := h.1
        cases hnot.symm.trans hlistening

theorem onClose_spec : (closedUnsubscribed (T := T)).Triple t (fun w => (w.env.connection t).listening = false)
    (sse .onClose) (fun _ => Listening t) fun _ => NotSubscribed t := by
  refine .perform (fun _ _ _ h hs => hs.frame.env.1.trans h) ?_ (fun _ _ _ _ hc => hc.1.2.elim)
    (fun _ => listening_stable) fun _ => notSubscribed_stable
  rintro w r w' hi - ⟨hs, hopen⟩
  cases hs with
  | ext hperform =>
    cases hperform with
    | onClose =>
      refine ⟨⟨fun u hclosed hlistening => ?_, trivial, fun _ _ => trivial⟩, ?_⟩
      · by_cases hu : u = t
        · subst hu
          simp only [ConnectionsState.onClose, ConnectionsState.update_self] at hclosed
          rw [hopen rfl] at hclosed
          cases hclosed
        · simp only [ConnectionsState.onClose, ConnectionsState.update_of_ne hu] at hclosed hlistening
          exact hi u hclosed hlistening
      · change ((w.env.onClose t).connection t).listening = true
        rw [ConnectionsState.onClose, ConnectionsState.update_self]

theorem streamOrderEvents_spec (id : ℕ) (lastEventIdHeader : Option String) : (closedUnsubscribed (T := T)).Triple t
    (NotSubscribed t) (streamOrderEvents id lastEventIdHeader) (fun _ => Listening t) fun _ => NotSubscribed t := by
  refine .bind (quiet_spec (findById_quiet id)) fun _ => .bind (quiet_spec (.perform trivial)) fun _ => ?_
  refine .bind (quiet_spec (.perform trivial)) fun _ => .bind (quiet_spec (.perform trivial)) fun missedEvents => ?_
  refine .bind (quiet_spec (writeSseEvents_quiet missedEvents)) fun _ => ?_
  exact .bind (subscribe_spec id) fun _ => onClose_spec

theorem run_spec (call : SseCall T) : (closedUnsubscribed (T := T)).Triple t (NotSubscribed t) call.run
    (fun _ w => Listening t w ∨ NotSubscribed t w) fun _ => NotSubscribed t := by
  have hquiet {p : SseClient T Unit} (hp : p.Uses Quiet) : (closedUnsubscribed (T := T)).Triple t (NotSubscribed t) p
      (fun _ w => Listening t w ∨ NotSubscribed t w) fun _ => NotSubscribed t :=
    (quiet_spec hp).conseq (fun _ _ h => h) (fun _ _ _ h => .inr h) fun _ _ _ h => h
  cases call with
  | streamOrderEvents id header =>
    exact (streamOrderEvents_spec id header).conseq (fun _ _ h => h) (fun _ _ _ h => .inl h) fun _ _ _ h => h
  | close connection => exact hquiet (.perform trivial)
  | updateStatus id status => exact hquiet (.bind (updateStatus_quiet id status) fun _ => trivial)

end Specs

def NoConnections (w : SseWorld T) : Prop :=
  w.env.subscriptions = [] ∧ ∀ t, (w.env.connection t).closed = false ∧ (w.env.connection t).listening = false

theorem no_subscription_outlives_connection {calls : T → SseCall T} {w : SseWorld T} {c : SseConfig T}
    (hw : NoConnections w) (h : (promptHandlers T).Reachable (.start w fun t => (calls t).run) c) {t : T}
    (hended : c.Ended t) (hclosed : (c.shared.env.connection t).closed = true) : Unsubscribed t c.shared.env := by
  have hi : (closedUnsubscribed (T := T)).inv w := by
    intro u hu
    rw [(hw.2 u).1] at hu
    cases hu
  have hidle (u : T) : NotSubscribed u w := by
    refine ⟨(hw.2 u).2, ?_⟩
    unfold Unsubscribed
    rw [hw.1]
    simp
  obtain ⟨hinv, hdone, hgone⟩ := Discipline.run_holds (D := closedUnsubscribed) hi hidle (fun u => run_spec (calls u)) h
  rcases hended with hnone | ⟨r, hr⟩
  · exact (hgone t hnone).elim
  · have hanswer := hdone t r hr
    cases r with
    | ok u =>
      rcases hanswer with hlistening | hquiet
      · exact hinv t hclosed hlistening
      · exact hquiet.2
    | error error => exact hanswer.2

section Runs

@[reducible] def connectionMoves : Moves (orderConnections (T := T)) where
  Move := ℕ
  play t
    | .write frame, _, s => some (.ok (), s.write t frame)
    | .getEventsAfter orderId lastEventId, _, s => some (.ok (s.service.getEventsAfter orderId lastEventId), s)
    | .subscribe orderId, _, s => some (.ok (), s.subscribe t orderId)
    | .onClose, _, s => some (.ok (), s.onClose t)
    | .close connection, _, s =>
      if (s.connection connection).closed = false then some (.ok (), s.close connection) else none
    | .emitStatusChanged orderId status, now, s => some (.ok (), s.emit orderId status now)
  die _ _ := none
  play_sound := by
    intro t o m s r s' h
    cases o with
    | close connection =>
      simp only [Option.ite_none_right_eq_some] at h
      obtain ⟨hopen, h⟩ := h
      cases h
      exact .close hopen
    | _ =>
      cases h
      constructor
  die_sound h := nomatch h

def listens (t : T) (a : SseAction T) (w : SseWorld T) : Bool :=
  match a with
  | .ext .onClose => !(w.env.connection t).closed
  | _ => true

@[reducible] def promptMoves : Moves (promptHandlers T) :=
  (withDatabaseMoves connectionMoves .database).restrict (fun t a w _ _ => listens t a w) fun h => by
    rintro rfl
    simpa [listens] using h

def placedTables : Tables T
  | .user 1 => some ⟨"maria@example.com", none, .buyer, 1000⟩
  | .order 1 => some ⟨1, .created, 300, none⟩
  | _ => none

def placedWorld : SseWorld ℕ :=
  ⟨⟨placedTables, fun _ => none, fun q => if q = .users ∨ q = .orders then 2 else 1, fun _ => ⟨.idle, 0⟩⟩, .start⟩

theorem placedWorld_noConnections : NoConnections placedWorld := ⟨rfl, fun _ => ⟨rfl, rfl⟩⟩

def leavingCalls : ℕ → SseCall ℕ
  | 0 => .streamOrderEvents 1 none
  | _ => .close 0

def selects : List (ℕ × Option (DatabaseMove ℕ)) := [(0, some .go), (0, some .go)]

def handlerSteps (n : ℕ) : List (ℕ × Option (DatabaseMove ℕ)) := List.replicate n (0, some (.ext 0))

def leaves : List (ℕ × Option (DatabaseMove ℕ)) := [(1, some (.ext 0))]

theorem no_subscription_outlives_connection_left : ∃ c : SseConfig ℕ,
    (promptHandlers ℕ).Reachable (.start placedWorld fun t => (leavingCalls t).run) c ∧
    c.outcome 0 = some (.ok ()) ∧ (c.shared.env.connection 0).closed = true ∧ Unsubscribed 0 c.shared.env := by
  have hrun : ∃ c : SseConfig ℕ, (promptHandlers ℕ).Reachable (.start placedWorld fun t => (leavingCalls t).run) c ∧
      c.outcome 0 = some (.ok ()) ∧ (c.shared.env.connection 0).closed = true := by
    apply exists_reachable (S := promptMoves) (selects ++ handlerSteps 5 ++ leaves)
    decide
  obtain ⟨c, hc, hdone, hclosed⟩ := hrun
  exact ⟨c, hc, hdone, hclosed,
    no_subscription_outlives_connection placedWorld_noConnections hc (.inr ⟨_, hdone⟩) hclosed⟩

/-- The client leaves while the handler awaits `findById`. -/
theorem early_close_leaks_subscription : ∃ c : SseConfig ℕ,
    (SseMachine ℕ).Reachable (.start placedWorld fun t => (leavingCalls t).run) c ∧ c.Ended 0 ∧
    (c.shared.env.connection 0).closed = true ∧ ¬Unsubscribed 0 c.shared.env := by
  have hrun : ∃ c : SseConfig ℕ, (SseMachine ℕ).Reachable (.start placedWorld fun t => (leavingCalls t).run) c ∧
      c.outcome 0 = some (.ok ()) ∧ (c.shared.env.connection 0).closed = true ∧
          ⟨0, 1⟩ ∈ c.shared.env.subscriptions := by
    apply exists_reachable (S := withDatabaseMoves connectionMoves .database)
      ([(0, some .go)] ++ leaves ++ [(0, some .go)] ++ handlerSteps 5)
    decide
  obtain ⟨c, hc, hdone, hclosed, hmem⟩ := hrun
  exact ⟨c, hc, .inr ⟨_, hdone⟩, hclosed, fun h => h _ hmem rfl⟩

end Runs

end Marketplace.Sse
