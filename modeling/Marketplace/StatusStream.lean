import Marketplace.Concurrent.History
import Marketplace.OrderStream
import Marketplace.OrderUpdates

namespace Marketplace

open Concurrent ReadCommitted

/-- A client of `events$`: an SSE response, or a socket in the room of the order. -/
structure Subscriber where
  orderId : ℕ
  sent : List OrderStatusEvent

/-- The memory of the process. `emitted` is a history variable: the events with the calls that emitted them. -/
structure EventsState (T : Type) where
  service : OrderEventsService
  emitted : List (T × OrderStatusEvent)
  subscribers : T → Option Subscriber

inductive EventsOp
  | emitStatusChanged (orderId : ℕ) (status : OrderStatus)
  | subscribe (orderId : ℕ) (lastEventIdHeader : Option String)
  | join (orderId : ℕ)
  | close

abbrev EventsOp.Res (_ : EventsOp) : Type := Unit

variable {T : Type} [DecidableEq T]

def Subscriber.next (event : OrderStatusEvent) (subscriber : Subscriber) : Subscriber :=
  if event.orderId = subscriber.orderId then { subscriber with sent := subscriber.sent ++ [event] } else subscriber

namespace EventsState

omit [DecidableEq T] in
def emit (x : EventsState T) (t : T) (orderId : ℕ) (status : OrderStatus) (now : ℕ) : EventsState T :=
  let (event, service) := x.service.emitStatusChanged orderId status now
  { service := service
    emitted := x.emitted ++ [(t, event)]
    subscribers := fun t' => (x.subscribers t').map (Subscriber.next event) }

def subscribe (x : EventsState T) (t : T) (subscriber : Option Subscriber) : EventsState T :=
  { x with subscribers := Function.update x.subscribers t subscriber }

def start : EventsState T := ⟨.start, [], fun _ => none⟩

end EventsState

inductive EventsPerforms (t : T) : (o : EventsOp) → EventsState T → Except Failure o.Res → EventsState T → Prop
  | emitStatusChanged {x : EventsState T} {orderId : ℕ} {status : OrderStatus} (now : ℕ) :
    EventsPerforms t (.emitStatusChanged orderId status) x (.ok ()) (x.emit t orderId status now)
  | subscribe {x : EventsState T} {orderId : ℕ} {header : Option String} :
    EventsPerforms t (.subscribe orderId header) x (.ok ())
      (x.subscribe t (some ⟨orderId, x.service.getEventsAfter orderId (parseLastEventId header)⟩))
  | join {x : EventsState T} {orderId : ℕ} :
    EventsPerforms t (.join orderId) x (.ok ()) (x.subscribe t (some ⟨orderId, []⟩))
  | close {x : EventsState T} : EventsPerforms t .close x (.ok ()) (x.subscribe t none)

/-- The calls share one process: none of them crashes alone. -/
def orderEvents : Machine T (EventsState T) EventsOp EventsOp.Res Failure where
  perform := EventsPerforms
  crash _ _ _ := False
  frame t x x' := ∀ event, (t, event) ∈ x'.emitted ↔ (t, event) ∈ x.emitted
  frame_refl _ _ _ := Iff.rfl
  frame_trans h h' event := (h' event).trans (h event)
  perform_frame hne h event := by
    cases h with
    | emitStatusChanged now => simp [EventsState.emit, Ne.symm hne]
    | subscribe => exact Iff.rfl
    | join => exact Iff.rfl
    | close => exact Iff.rfl
  crash_frame _ h := h.elim

abbrev EventsWorld (T : Type) := World T Serial Key (Row T) (EventsState T)

abbrev EventsCall (T α : Type) := Client Serial Key (Row T) EventsOp.Res Failure α

abbrev EventsConfig (T α : Type) :=
  Config T (EventsWorld T) (Action Serial Key (Row T) EventsOp) (Action.Res EventsOp.Res) Failure α

abbrev EventsMachine (T : Type) [DecidableEq T] :
    Machine T (EventsWorld T) (Action Serial Key (Row T) EventsOp) (Action.Res EventsOp.Res) Failure :=
  withDatabase orderEvents .database

inductive StatusCall
  | updateStatus (id : ℕ) (status : String)
  | streamOrderEvents (id : ℕ) (lastEventIdHeader : Option String)
  | joinOrderRoom (orderId userId : ℕ)

section Code

omit [DecidableEq T]

def memory (o : EventsOp) : EventsCall T Unit := Prog.perform (Action.ext o)

def streamOrderEvents (id : ℕ) (lastEventIdHeader : Option String) : EventsCall T Unit := do
  let _ ← findById id
  memory (.subscribe id lastEventIdHeader)
  memory .close

-- the ids have been checked
def joinOrderRoom (orderId userId : ℕ) : EventsCall T Unit := do
  if ← belongsToUser orderId userId then
    memory (.join orderId)
    memory .close
  else pure ()

def StatusCall.run : StatusCall → EventsCall T Unit
  | .updateStatus id status => do
    let _ ← Marketplace.updateStatus (fun orderId status => memory (.emitStatusChanged orderId status)) id status
  | .streamOrderEvents id lastEventIdHeader => Marketplace.streamOrderEvents id lastEventIdHeader
  | .joinOrderRoom orderId userId => Marketplace.joinOrderRoom orderId userId

end Code

structure Pending (calls : T → StatusCall) (n : ℕ) (t : T) (w : EventsWorld T) : Prop where
  call : ∃ status, calls t = .updateStatus n status
  committed : (w.db.txn t).status = .committed
  order : ∃ order, w.db.committed (.order n) = some order
  unsent : ∀ event, (t, event) ∉ w.env.emitted

def CommitAnswered (_ : T) : (a : Action Serial Key (Row T) EventsOp) → EventsWorld T →
    Except Failure (a.Res EventsOp.Res) → EventsWorld T → Prop
  | .sql .commit, w, r, w' => r = .ok () ∨ w' = w
  | _, _, _, _ => True

abbrev answeredCommits :
    Machine T (EventsWorld T) (Action Serial Key (Row T) EventsOp) (Action.Res EventsOp.Res) Failure :=
  (EventsMachine T).restrict CommitAnswered fun _ _ _ => True

def CommitsAfter (states : List (EventsWorld T)) (u t : T) : Prop :=
  ∃ w w', [w, w'] <:+: states ∧ (w.db.txn t).status = .committed ∧
    (w.db.txn u).status ≠ .committed ∧ (w'.db.txn u).status = .committed

/-- A call of order `n` that emits its event while no other call of the order has one to emit is the last of them
to have committed. -/
def EmitsInOrder (calls : T → StatusCall) (n : ℕ) (states : List (EventsWorld T)) : Prop :=
  ∀ w w' t event, [w, w'] <:+: states → (t, event) ∉ w.env.emitted → (t, event) ∈ w'.env.emitted →
    event.orderId = n → (∃ u, u ≠ t ∧ Pending calls n u w) ∨
      ∀ u status, calls u = .updateStatus n status → (w.db.txn u).status = .committed → ¬CommitsAfter states u t

def Along (states : List (EventsWorld T)) (t : T) (a : Action Serial Key (Row T) EventsOp) (w : EventsWorld T)
    (r : Except Failure (a.Res EventsOp.Res)) (w' : EventsWorld T) : Prop :=
  [w, w'] <:+: states ∧ CommitAnswered t a w r w'

abbrev updatesAlong (states : List (EventsWorld T)) :
    Machine T (EventsWorld T) (Action Serial Key (Row T) EventsOp) (Action.Res EventsOp.Res) Failure :=
  (EventsMachine T).restrict (Along states) fun _ w w' => [w, w'] <:+: states ∧ True

def EventsState.eventsOf (x : EventsState T) (n : ℕ) : List OrderStatusEvent :=
  Marketplace.eventsOf n (x.emitted.map Prod.snd)

/-- The order has the status of the UPDATE that committed last, and so has its last event, unless a call has still
one to emit. -/
structure StatusLedger (calls : T → StatusCall) (n : ℕ) (states : List (EventsWorld T)) (w : EventsWorld T) : Prop where
  emitted : Emitted (w.env.emitted.map Prod.snd) w.env.service
  latest : ∀ t status order, calls t = .updateStatus n status → (w.db.txn t).status = .committed →
    (∀ u status, calls u = .updateStatus n status → (w.db.txn u).status = .committed → ¬CommitsAfter states u t) →
    w.db.committed (.order n) = some order → orderStatus? status = some order.status
  last : (∃ u, Pending calls n u w) ∨ ∀ event, (w.env.eventsOf n).getLast? = some event →
    ∃ order, w.db.committed (.order n) = some order ∧ order.status = event.status
  subscribers : ∀ t subscriber, w.env.subscribers t = some subscriber → ∀ event,
    subscriber.sent.getLast? = some event → (w.env.eventsOf subscriber.orderId).getLast? = some event

def statusLedger (calls : T → StatusCall) (n : ℕ) (states : List (EventsWorld T)) :
    Discipline (updatesAlong states) where
  inv := StatusLedger calls n states
  always w w' := ∀ m, w.db.committed (.order m) = none ↔ w'.db.committed (.order m) = none
  rely _ _ _ := True
  gone _ _ := False
  always_refl _ _ := Iff.rfl
  always_trans h h' m := (h m).trans (h' m)
  rely_refl _ _ := trivial
  rely_trans _ _ _ _ _ _ := trivial

section Steps

variable {calls : T → StatusCall} {n : ℕ} {states : List (EventsWorld T)} {w w' : EventsWorld T} {t u : T}

omit [DecidableEq T] in
theorem Pending.of_eq {m : ℕ} (h : Pending calls m u w) (hdb : (w'.db.txn u).status = .committed)
    (horder : ∀ order, w.db.committed (.order m) = some order → ∃ order', w'.db.committed (.order m) = some order')
    (henv : ∀ event, (u, event) ∈ w'.env.emitted → (u, event) ∈ w.env.emitted) : Pending calls m u w' := by
  obtain ⟨order, hm⟩ := h.order
  exact ⟨h.call, hdb, horder order hm, fun event he => h.unsent event (henv event he)⟩

omit [DecidableEq T] in
theorem StatusLedger.of_db (hi : StatusLedger calls n states w) {db : Database T Serial Key (Row T)}
    (hc : db.committed = w.db.committed)
    (hs : ∀ u, (db.txn u).status = .committed ↔ (w.db.txn u).status = .committed) :
    StatusLedger calls n states ⟨db, w.env⟩ where
  emitted := hi.emitted
  latest t status order ht hcommitted hlatest hn :=
    hi.latest t status order ht ((hs t).mp hcommitted) (fun u status hu hcu => hlatest u status hu ((hs u).mpr hcu))
      (by rwa [← hc])
  last := by
    rcases hi.last with ⟨u, hu⟩ | hlast
    · exact .inl ⟨u, hu.of_eq ((hs u).mpr hu.committed) (fun order hn => ⟨order, by rw [hc, hn]⟩) fun _ h => h⟩
    · exact .inr fun event he => by simpa only [hc] using hlast event he
  subscribers := hi.subscribers

omit [DecidableEq T] in
theorem EventsState.eventsOf_emit (x : EventsState T) (t : T) (n m : ℕ) (status : OrderStatus) (now : ℕ) :
    (x.emit t n status now).eventsOf m = x.eventsOf m ++
      if n = m then [(x.service.emitStatusChanged n status now).1] else [] := by
  have hn : (x.service.emitStatusChanged n status now).1.orderId = n := rfl
  simp only [eventsOf, emit, List.map_append, List.map_cons, List.map_nil, eventsOf_append, eventsOf_singleton, hn]

omit [DecidableEq T] in
theorem StatusLedger.emit (hi : StatusLedger calls n states w) {id : ℕ} {text : String} {status : OrderStatus}
    (now : ℕ) (ht : calls t = .updateStatus id text) (hstatus : orderStatus? text = some status)
    (hpending : Pending calls id t w)
    (h : id = n → (∃ u, u ≠ t ∧ Pending calls n u w) ∨
      ∀ u status, calls u = .updateStatus n status → (w.db.txn u).status = .committed → ¬CommitsAfter states u t) :
    StatusLedger calls n states ⟨w.db, w.env.emit t id status now⟩ := by
  have hothers : ∀ u, u ≠ t → Pending calls n u w → Pending calls n u ⟨w.db, w.env.emit t id status now⟩ := by
    intro u hut hu
    refine hu.of_eq hu.committed (fun order hm => ⟨order, hm⟩) fun event he => ?_
    simpa [EventsState.emit, hut] using he
  constructor
  · have hemitted : Emitted (w.env.emitted.map Prod.snd ++ [(w.env.service.emitStatusChanged id status now).1])
        (w.env.service.emitStatusChanged id status now).2 := hi.emitted.emitStatusChanged
    simpa [EventsState.emit] using hemitted
  · exact hi.latest
  · simp only [EventsState.eventsOf_emit]
    by_cases hid : id = n
    · subst hid
      rcases h rfl with ⟨u, hut, hu⟩ | hlatest
      · exact .inl ⟨u, hothers u hut hu⟩
      · right
        intro event he
        simp only [if_true, List.getLast?_append, List.getLast?_singleton, Option.some_or, Option.some.injEq] at he
        subst he
        obtain ⟨order, horder⟩ := hpending.order
        have hstored := hi.latest t text order ht hpending.committed hlatest horder
        exact ⟨order, horder, Option.some.inj (hstored.symm.trans hstatus)⟩
    · simp only [hid, if_false, List.append_nil]
      rcases hi.last with ⟨u, hu⟩ | hlast
      · refine .inl ⟨u, hothers u ?_ hu⟩
        rintro rfl
        obtain ⟨_, hn⟩ := hu.call
        cases ht.symm.trans hn
        exact hid rfl
      · exact .inr hlast
  · intro t' subscriber' hs event he
    obtain ⟨subscriber, hold, rfl⟩ := Option.map_eq_some_iff.mp hs
    simp only [EventsState.eventsOf_emit]
    by_cases hn : id = subscriber.orderId
    · subst hn
      simpa [Subscriber.next, OrderEventsService.emitStatusChanged] using he
    · have hlast := hi.subscribers t' subscriber hold event
      simp only [Subscriber.next, hn, if_false, List.append_nil] at he ⊢
      exact hlast he

theorem StatusLedger.subscribe (hi : StatusLedger calls n states w) {subscriber : Option Subscriber}
    (h : ∀ s ∈ subscriber, ∀ event, s.sent.getLast? = some event →
      (w.env.eventsOf s.orderId).getLast? = some event) :
    StatusLedger calls n states ⟨w.db, w.env.subscribe t subscriber⟩ where
  emitted := hi.emitted
  latest := hi.latest
  last := by
    rcases hi.last with ⟨u, hu⟩ | hlast
    · exact .inl ⟨u, hu.of_eq hu.committed (fun order hm => ⟨order, hm⟩) fun _ h => h⟩
    · exact .inr hlast
  subscribers t' s hs := by
    simp only [EventsState.subscribe] at hs
    by_cases ht : t' = t
    · subst ht
      rw [Function.update_self] at hs
      exact h s hs
    · rw [Function.update_of_ne ht] at hs
      exact hi.subscribers t' s hs

theorem statusLedger_calm : Calm (statusLedger calls n states) where
  works {t w db} hi hw := by
    refine ⟨hi.of_db hw.committed fun u => ?_, fun m => by simp only [hw.committed], fun _ _ => trivial⟩
    by_cases hut : u = t
    · rw [hut, hw.status]
    · rw [(hw.frame u (Ne.symm hut)).txn]
  rollback {t w} hi := by
    exact ⟨hi.of_db Database.committed_rollback fun _ => Database.status_rollback, fun m => by simp,
      fun _ _ => trivial⟩
  crash _ hc _ := hc.2.elim

theorem StatusLedger.commit {id c : ℕ} {text : String} {status : OrderStatus} {ws : Workspace Key (Row T)}
    {updated : Option (OrderRow T)} (hi : StatusLedger calls n states w) (hat : At t ws c w)
    (hws : StatusWorkspace id status ws updated) (hmissing : updated = none → w.db.committed (.order id) = none)
    (ht : calls t = .updateStatus id text) (hstatus : orderStatus? text = some status)
    (hunsent : ∀ event, (t, event) ∉ w.env.emitted) (hstep : [w, ⟨w.db.commit t, w.env⟩] <:+: states) :
    StatusLedger calls n states ⟨w.db.commit t, w.env⟩ ∧
      ∀ m, w.db.committed (.order m) = none ↔ (w.db.commit t).committed (.order m) = none := by
  have htxn : (w.db.txn t).status = .inProgress := by rw [hat.txn]
  have hcommitted : ((w.db.commit t).txn t).status = .committed := by rw [Database.txn_commit htxn]
  have htold : (w.db.txn t).status ≠ .committed := by simp [htxn]
  have hothers {u : T} (hut : u ≠ t) : ((w.db.commit t).txn u).status = (w.db.txn u).status := by
    rw [Database.txn_commit_of_ne (Ne.symm hut)]
  have hpending : ∀ u, Pending calls n u w → Pending calls n u ⟨w.db.commit t, w.env⟩ := by
    intro u hu
    have hut : u ≠ t := by
      rintro rfl
      exact htold hu.committed
    exact hu.of_eq ((hothers hut).trans hu.committed)
      (fun order hn => (Database.frame_commit (Ne.symm hut)).rows _ order hn) fun _ h => h
  -- another call that committed before is only asked for if `t` has not changed its order
  have hbefore {u : T} {status' : String} {order : OrderRow T} (hut : u ≠ t) (hu : calls u = .updateStatus n status')
      (hcu : ((w.db.commit t).txn u).status = .committed)
      (hlatest : ∀ v status, calls v = .updateStatus n status → ((w.db.commit t).txn v).status = .committed →
        ¬CommitsAfter states v u) (hn : w.db.committed (.order n) = some order) :
      orderStatus? status' = some order.status := by
    refine hi.latest u status' order hu ((hothers hut).symm.trans hcu) (fun v status hv hcv => ?_) hn
    have hvt : v ≠ t := by
      rintro rfl
      exact htold hcv
    exact hlatest v status hv ((hothers hvt).trans hcv)
  cases updated with
  | none =>
    have hsame := hat.committed_unchanged hws
    refine ⟨⟨hi.emitted, fun u status' order hu hcu hlatest hn => ?_, ?_, hi.subscribers⟩, fun m => by rw [hsame]⟩
    · dsimp only at hn
      rw [hsame] at hn
      by_cases hut : u = t
      · subst hut
        cases ht.symm.trans hu
        exact absurd (hn.symm.trans (hmissing rfl)) (by simp)
      · exact hbefore hut hu hcu hlatest hn
    · exact hi.last.imp (fun ⟨u, hu⟩ => ⟨u, hpending u hu⟩) fun hlast => by simpa only [hsame] using hlast
  | some new =>
    obtain ⟨old, rfl, rfl⟩ := hws
    have hc := statusSet_committed hat
    refine ⟨⟨hi.emitted, fun u status' order hu hcu hlatest hn => ?_, ?_, hi.subscribers⟩, fun m => ?_⟩
    · by_cases hut : u = t
      · subst hut
        cases ht.symm.trans hu
        obtain rfl := Option.some.inj (hc.after.symm.trans hn)
        exact hstatus
      · by_cases hid : n = id
        · subst hid
          exact absurd ⟨w, _, hstep, (hothers hut).symm.trans hcu, htold, hcommitted⟩
            (hlatest t text ht hcommitted)
        · exact hbefore hut hu hcu hlatest ((hc.others (.order n) (by simpa using hid)).symm.trans hn)
    · by_cases hid : n = id
      · subst hid
        exact .inl ⟨t, ⟨text, ht⟩, hcommitted, ⟨_, hc.after⟩, hunsent⟩
      · rw [hc.others (.order n) (by simpa using hid)]
        exact hi.last.imp (fun ⟨u, hu⟩ => ⟨u, hpending u hu⟩) fun hlast => hlast
    · by_cases hid : m = id
      · subst hid
        simp [hc.before, hc.after]
      · rw [hc.others (.order m) (by simpa using hid)]

end Steps

section Calls

variable {calls : T → StatusCall} {n : ℕ} {states : List (EventsWorld T)} {t : T}

def NothingPending (calls : T → StatusCall) (t : T) (w : EventsWorld T) : Prop := ∀ m, ¬Pending calls m t w

def Unchanged (t : T) (w : EventsWorld T) : Prop :=
  (w.db.txn t).status ≠ .committed ∧ ∀ event, (t, event) ∉ w.env.emitted

theorem unchanged_kept : Kept (statusLedger calls n states) t (Unchanged t) where
  stable w w' _ h hs := by
    refine ⟨?_, fun event he => h.2 event ((hs.frame.env event).mp he)⟩
    rw [hs.frame.db.txn]
    exact h.1
  works _ h hw := ⟨by rw [hw.status]; exact h.1, h.2⟩

omit [DecidableEq T] in
theorem exists_order_of_iff {m : ℕ} {w w' : EventsWorld T}
    (h : w.db.committed (.order m) = none ↔ w'.db.committed (.order m) = none)
    (hm : ∃ order, w.db.committed (.order m) = some order) : ∃ order, w'.db.committed (.order m) = some order :=
  Option.ne_none_iff_exists'.mp fun hnone => (Option.ne_none_iff_exists'.mpr hm) (h.mpr hnone)

theorem pending_stable (m : ℕ) : (statusLedger calls n states).Stable t (Pending calls m t) := by
  intro w w' _ h hs
  refine ⟨h.call, ?_, exists_order_of_iff (hs.always m) h.order, fun event he =>
    h.unsent event ((hs.frame.env event).mp he)⟩
  rw [hs.frame.db.txn]
  exact h.committed

theorem settled_kept : Kept (statusLedger calls n states) t (NothingPending calls t) where
  stable w w' _ h hs m hm := by
    refine h m ⟨hm.call, ?_, exists_order_of_iff (hs.always m).symm hm.order, fun event he =>
      hm.unsent event ((hs.frame.env event).mpr he)⟩
    rw [← hs.frame.db.txn]
    exact hm.committed
  works {w db} _ h hw m hm := by
    refine h m ⟨hm.call, by rw [← hw.status]; exact hm.committed, ?_, hm.unsent⟩
    simpa only [hw.committed] using hm.order

theorem statusLedger_status {id : ℕ} {status : String} (ht : calls t = .updateStatus id status) :
    StatusRules (statusLedger calls n states) t id status (Unchanged t)
      (fun w => w.db.committed (.order id) = none) (NothingPending calls t)
      (fun new w => orderStatus? status = some new ∧ Pending calls id t w) where
  calm := statusLedger_calm
  kept := unchanged_kept
  missing := ⟨fun _ _ _ h hs => (hs.always _).mp h, fun _ h hw => (congrFun hw.committed _).trans h⟩
  settled := settled_kept
  changed _ := .and .const (pending_stable id)
  fails _ h _ hm := h.1 hm.committed
  aborts {w} _ h m hm :=
    h m ⟨hm.call, Database.status_rollback.mp hm.committed, by simpa using hm.order, hm.unsent⟩
  starts {w} hi h := by
    refine ⟨⟨hi.of_db rfl fun u => ?_, fun _ => Iff.rfl, fun _ _ => trivial⟩, by simp, h.2⟩
    by_cases hut : u = t
    · subst hut
      simp [h.1]
    · rw [Database.txn_setTxn_of_ne (Ne.symm hut)]
  finds _ h := h
  commits {w r new ws updated} hnew hi hat h hws hmissing ha := by
    obtain ⟨hledger, horders⟩ := hi.commit hat hws hmissing ht hnew h.2 ha.1
    refine ⟨⟨hledger, horders, fun _ _ => trivial⟩, fun _ => ?_, fun hr => ?_⟩
    · cases updated with
      | none =>
        rw [if_pos rfl]
        intro m hm
        obtain ⟨_, hcall⟩ := hm.call
        obtain ⟨order, horder⟩ := hm.order
        cases ht.symm.trans hcall
        exact absurd (((horders _).mp (hmissing rfl)).symm.trans horder) (by simp)
      | some order =>
        rw [if_neg (by simp)]
        obtain ⟨old, -, rfl⟩ := hws
        exact ⟨hnew, ⟨status, ht⟩, by rw [Database.txn_commit (by rw [hat.txn])],
          ⟨_, (statusSet_committed hat).after⟩, h.2⟩
    · rcases ha.2 with hok | hsame
      · exact absurd (hr.symm.trans hok) (by simp)
      · have htxn := congrArg (fun w : EventsWorld T => (w.db.txn t).status) hsame
        rw [Database.txn_commit (by rw [hat.txn]), hat.txn] at htxn
        cases htxn

theorem memory_spec {o : EventsOp} {P Q : EventsWorld T → Prop} (hP : (statusLedger calls n states).Stable t P)
    (hQ : (statusLedger calls n states).Stable t Q)
    (h : ∀ w r x, StatusLedger calls n states w → P w → EventsPerforms t o w.env r x → [w, ⟨w.db, x⟩] <:+: states →
      StatusLedger calls n states ⟨w.db, x⟩ ∧ Q ⟨w.db, x⟩) :
    (statusLedger calls n states).Triple t P (memory o) (fun _ => Q) fun _ => Q := by
  apply Discipline.Triple.perform hP _ (fun w w' hi _ hc => statusLedger_calm.crash hi hc.1 hc.2) (fun _ => hQ)
    fun _ => hQ
  rintro w r w' hi hp ⟨hperform, ha⟩
  cases hperform with
  | ext hx =>
    obtain ⟨hledger, hq⟩ := h w r _ hi hp hx ha.1
    refine ⟨⟨hledger, fun _ => Iff.rfl, fun _ _ => trivial⟩, ?_⟩
    cases r <;> exact hq

theorem emit_spec (horder : EmitsInOrder calls n states) {id : ℕ} {status : String}
    (ht : calls t = .updateStatus id status) (new : OrderStatus) :
    (statusLedger calls n states).Triple t (fun w => orderStatus? status = some new ∧ Pending calls id t w)
      (memory (.emitStatusChanged id new)) (fun _ => NothingPending calls t) fun _ => NothingPending calls t := by
  apply memory_spec (.and .const (pending_stable id)) settled_kept.stable
  rintro w r x hi ⟨hnew, hpending⟩ hx hstep
  cases hx with
  | emitStatusChanged now =>
    have hsent : (t, (w.env.service.emitStatusChanged id new now).1) ∈ (w.env.emit t id new now).emitted := by
      simp [EventsState.emit]
    refine ⟨hi.emit now ht hnew hpending fun hid => ?_, fun m hm => hm.unsent _ hsent⟩
    exact horder w _ t _ hstep (hpending.unsent _) hsent hid

omit [DecidableEq T] in
theorem getLast_filter_above {events : List OrderStatusEvent} (hids : events.Pairwise fun a b => a.id < b.id)
    {after : ℤ} {event : OrderStatusEvent}
    (h : (events.filter fun event => after < event.id).getLast? = some event) : events.getLast? = some event := by
  induction events using List.reverseRecOn with
  | nil => exact h
  | append_singleton events last =>
    obtain ⟨-, -, hbefore⟩ := List.pairwise_append.mp hids
    by_cases hlast : after < last.id
    · simpa [hlast] using h
    · have hnone : (events ++ [last]).filter (fun event => after < event.id) = [] := by
        apply List.filter_eq_nil_iff.mpr
        intro event hevent
        rcases List.mem_append.mp hevent with hevent | hevent
        · have hid := hbefore event hevent last (by simp)
          simp
          omega
        · rw [List.mem_singleton.mp hevent]
          simpa using hlast
      rw [hnone] at h
      cases h

omit [DecidableEq T] in
theorem getLast_buffer {emitted : List OrderStatusEvent} {service : OrderEventsService} {n : ℕ}
    {event : OrderStatusEvent} (h : Emitted emitted service) (hlast : (service.buffers n).getLast? = some event) :
    (eventsOf n emitted).getLast? = some event := by
  rw [h.buffers, List.rtake, List.getLast?_drop] at hlast
  split at hlast
  · cases hlast
  · exact hlast

omit [DecidableEq T] in
theorem getLast_getEventsAfter {emitted : List OrderStatusEvent} {service : OrderEventsService} {n : ℕ} {after : ℤ}
    {event : OrderStatusEvent} (h : Emitted emitted service)
    (hlast : (service.getEventsAfter n after).getLast? = some event) :
    (Marketplace.eventsOf n emitted).getLast? = some event := by
  have hids : (service.buffers n).Pairwise fun a b => a.id < b.id := by
    rw [h.buffers]
    exact (h.ids.filter _).sublist (List.drop_sublist _ _)
  exact getLast_buffer h (getLast_filter_above hids hlast)

theorem subscription_spec {o : EventsOp} (ho : ∀ status n, o ≠ .emitStatusChanged n status) :
    (statusLedger calls n states).Triple t (fun _ => True) (memory o) (fun _ _ => True) fun _ _ => True := by
  apply memory_spec .const .const
  intro w r x hi _ hx _
  cases hx with
  | emitStatusChanged now => exact absurd rfl (ho _ _)
  | subscribe =>
    refine ⟨hi.subscribe ?_, trivial⟩
    rintro s hs event hlast
    cases hs
    exact getLast_getEventsAfter hi.emitted hlast
  | join =>
    refine ⟨hi.subscribe ?_, trivial⟩
    rintro s hs event hlast
    cases hs
    cases hlast
  | close => exact ⟨hi.subscribe (by simp), trivial⟩

theorem StatusCall.run_spec (horder : EmitsInOrder calls n states) (t : T) :
    (statusLedger calls n states).Triple t (fun w => w.db.workspace t = Workspace.empty ∧ Unchanged t w) (calls t).run
      (fun _ => NothingPending calls t) fun _ => NothingPending calls t := by
  have hother {p : EventsCall T Unit} (hcall : ∀ n status, calls t ≠ .updateStatus n status)
      (h : (statusLedger calls n states).Triple t (fun _ => True) p (fun _ _ => True) fun _ _ => True) :
      (statusLedger calls n states).Triple t (fun w => w.db.workspace t = Workspace.empty ∧ Unchanged t w) p
        (fun _ => NothingPending calls t) fun _ => NothingPending calls t :=
    h.conseq (fun _ _ _ => trivial) (fun _ _ _ _ n hn => absurd hn.call.choose_spec (hcall n _))
      fun _ _ _ _ n hn => absurd hn.call.choose_spec (hcall n _)
  cases ht : calls t with
  | updateStatus id status =>
    refine .bind (updateStatus_spec (statusLedger_status ht) fun new => emit_spec horder ht new) fun _ => ?_
    exact .pure settled_kept.stable fun _ _ h => h
  | streamOrderEvents id header =>
    apply hother (by simp [ht])
    refine .bind (findById_spec statusLedger_calm .const id) fun _ => ?_
    exact .bind (subscription_spec (by simp)) fun _ => subscription_spec (by simp)
  | joinOrderRoom orderId userId =>
    apply hother (by simp [ht])
    refine .bind (belongsToUser_spec statusLedger_calm .const orderId userId) fun owns => ?_
    split
    · exact .bind (subscription_spec (by simp)) fun _ => subscription_spec (by simp)
    · exact .pure .const fun _ _ _ => trivial

end Calls

structure NothingEmitted (w : EventsWorld T) : Prop where
  quiescent : w.db.Quiescent
  memory : w.env = .start

omit [DecidableEq T] in
theorem NothingEmitted.ledger {w : EventsWorld T} (hw : NothingEmitted w) (calls : T → StatusCall) (n : ℕ)
    (states : List (EventsWorld T)) : StatusLedger calls n states w := by
  obtain ⟨db, env⟩ := w
  obtain ⟨hquiescent, rfl⟩ := hw
  refine ⟨emitted_start, fun t _ _ _ ht => ?_, .inr fun event he => ?_, fun t subscriber hs => ?_⟩
  · rw [hquiescent.txn t] at ht
    cases ht
  · cases he
  · cases hs

theorem stream_ends_on_status (calls : T → StatusCall) {w : EventsWorld T} (hw : NothingEmitted w)
    {c : EventsConfig T Unit} {run : List (EventsConfig T Unit)}
    (h : answeredCommits.History (.start w fun t => (calls t).run) run c) {n : ℕ}
    (horder : EmitsInOrder calls n (run.map Config.shared))
    (hquiet : ∀ t status, calls t = .updateStatus n status → c.Ended t ∨ c.prog t = some (calls t).run) :
    (∀ event, (c.shared.env.service.buffers n).getLast? = some event →
      ∃ order, c.shared.db.committed (.order n) = some order ∧ order.status = event.status) ∧
      ∀ t subscriber event, c.shared.env.subscribers t = some subscriber → subscriber.orderId = n →
      subscriber.sent.getLast? = some event →
      ∃ order, c.shared.db.committed (.order n) = some order ∧ order.status = event.status := by
  have hstart (t : T) : w.db.workspace t = Workspace.empty ∧ Unchanged t w :=
    ⟨hw.quiescent.workspace t, by simp [hw.quiescent.txn t], by simp [hw.memory, EventsState.start]⟩
  obtain ⟨hledger, hdone, hgone⟩ := Discipline.run_holds (D := statusLedger calls n (run.map Config.shared))
    (hw.ledger calls n _) hstart (StatusCall.run_spec horder) h.reachable_along
  have hlast : ∀ event, (c.shared.env.eventsOf n).getLast? = some event →
      ∃ order, c.shared.db.committed (.order n) = some order ∧ order.status = event.status := by
    rcases hledger.last with ⟨u, hu⟩ | hlast
    · obtain ⟨status, hcall⟩ := hu.call
      rcases hquiet u status hcall with (hnone | ⟨r, hr⟩) | hidle
      · exact (hgone u hnone).elim
      · have hsettled : NothingPending calls u c.shared := by
          cases r <;> exact hdone u _ hr
        exact absurd hu (hsettled n)
      · have htxn := (Machine.Reachable.unstarted h.reachable hidle).db.txn
        have hcommitted := hu.committed
        rw [htxn, hw.quiescent.txn u] at hcommitted
        cases hcommitted
    · exact hlast
  refine ⟨fun event he => hlast event (getLast_buffer hledger.emitted he), ?_⟩
  rintro t subscriber event hs rfl he
  exact hlast event (hledger.subscribers t subscriber hs event he)

@[reducible] def eventsMoves : Moves (orderEvents (T := T)) where
  Move := ℕ
  play t
    | .emitStatusChanged n status, now, x => some (.ok (), x.emit t n status now)
    | .subscribe n header, _, x =>
      some (.ok (), x.subscribe t (some ⟨n, x.service.getEventsAfter n (parseLastEventId header)⟩))
    | .join n, _, x => some (.ok (), x.subscribe t (some ⟨n, []⟩))
    | .close, _, x => some (.ok (), x.subscribe t none)
  die _ _ := none
  play_sound := by
    intro t o m x r x' h
    cases o <;> cases h
    · exact .emitStatusChanged m
    · exact .subscribe
    · exact .join
    · exact .close
  die_sound h := nomatch h

def orderedTables : Tables T
  | .user 1 => some ⟨"maria@example.com", none, .buyer, 1000⟩
  | .order 1 => some ⟨1, .created, 300, none⟩
  | _ => none

def EventsWorld.ordered : EventsWorld T :=
  ⟨⟨orderedTables, fun _ => none, fun q => if q = .users ∨ q = .orders then 2 else 1, fun _ => ⟨.idle, 0⟩⟩, .start⟩

def shippedCalls : ℕ → StatusCall
  | 0 => .updateStatus 1 "paid"
  | 1 => .updateStatus 1 "shipped"
  | _ => .streamOrderEvents 1 none

@[reducible] def answeredMoves : Moves (answeredCommits (T := ℕ)) :=
  (withDatabaseMoves eventsMoves .database).restrict (fun _ _ _ r _ => isOk r) (by
    intro t a w r w' htest
    unfold CommitAnswered
    split
    · exact .inl (isOk_iff.mp htest).choose_spec
    · trivial)

-- call 1 waits for the row of call 0, which emits before it commits
def orderlySchedule : List (ℕ × Option (DatabaseMove ℕ)) :=
  [2, 2].map (·, some .go) ++ [(2, some (.ext 0))] ++ [0, 0, 1, 1, 0, 0, 0].map (·, some .go) ++
    [(0, some (.ext 7))] ++ [1, 1, 1].map (·, some .go) ++ [(1, some (.ext 8))] ++ [0, 0, 1, 1].map (·, some .go)

def ShippedLast (states : List (EventsWorld ℕ)) : Prop :=
  (∀ w ∈ states, (w.db.txn 1).status = .committed → (w.db.txn 0).status = .committed) ∧
    states.IsChain fun w w' => ∀ sent ∈ w'.env.emitted,
      sent ∈ w.env.emitted ∨ sent.1 = 1 ∨ sent.1 = 0 ∧ (w.db.txn 1).status ≠ .committed

instance (states : List (EventsWorld ℕ)) : Decidable (ShippedLast states) :=
  inferInstanceAs (Decidable (_ ∧ _))

theorem ShippedLast.emitsInOrder {states : List (EventsWorld ℕ)} (h : ShippedLast states) :
    EmitsInOrder shippedCalls 1 states := by
  obtain ⟨hcommits, hemits⟩ := h
  intro w w' t event hstep hnew hsent _
  right
  rintro u status hu hcommitted ⟨x, x', hx, ht, hbefore, -⟩
  have hne : u ≠ t := by
    rintro rfl
    exact hbefore ht
  have hcall : u = 0 ∨ u = 1 := by
    rcases u with _ | _ | u
    · exact .inl rfl
    · exact .inr rfl
    · cases hu
  have hchain := List.IsChain.infix hemits hstep
  have hpair := List.isChain_pair.mp hchain _ hsent
  rcases hpair.resolve_left hnew with hone | ⟨hzero, hlater⟩
  · obtain rfl : t = 1 := hone
    obtain rfl := hcall.resolve_right hne
    exact hbefore (hcommits x (hx.subset (by simp)) ht)
  · obtain rfl : t = 0 := hzero
    obtain rfl := hcall.resolve_left hne
    exact hlater hcommitted

theorem stream_ends_on_status_shipped : ∃ (run : List (EventsConfig ℕ Unit)) (c : EventsConfig ℕ Unit),
    answeredCommits.History (.start .ordered fun t => (shippedCalls t).run) run c ∧
      EmitsInOrder shippedCalls 1 (run.map Config.shared) ∧ (c.Ended 0 ∧ c.Ended 1) ∧
      (∃ event, (c.shared.env.service.buffers 1).getLast? = some event ∧
      ∃ order, c.shared.db.committed (.order 1) = some order ∧ order.status = event.status) ∧
      ∃ subscriber event, c.shared.env.subscribers 2 = some subscriber ∧ subscriber.orderId = 1 ∧
      subscriber.sent.getLast? = some event ∧
      ∃ order, c.shared.db.committed (.order 1) = some order ∧ order.status = event.status := by
  have hrun : ∃ run c, answeredCommits.History (.start EventsWorld.ordered fun t => (shippedCalls t).run) run c ∧
      ShippedLast (run.map Config.shared) ∧
      (c.outcome 0 = some (.ok ()) ∧ c.outcome 1 = some (.ok ())) ∧
      (c.shared.env.service.buffers 1).getLast? = some ⟨2, 1, .shipped, 8⟩ ∧
      (c.shared.env.subscribers 2).map (fun s => (s.orderId, s.sent.getLast?)) =
        some (1, some ⟨2, 1, .shipped, 8⟩) := by
    apply exists_history (S := answeredMoves) orderlySchedule
    decide
  obtain ⟨run, c, h, horder, ⟨hfirst, hsecond⟩, hlast, hsubscriber⟩ := hrun
  have hquiet : ∀ t status, shippedCalls t = .updateStatus 1 status →
      c.Ended t ∨ c.prog t = some (shippedCalls t).run := by
    intro t status ht
    rcases t with _ | _ | t
    · exact .inl (.inr ⟨_, hfirst⟩)
    · exact .inl (.inr ⟨_, hsecond⟩)
    · cases ht
  have hstart : NothingEmitted (EventsWorld.ordered (T := ℕ)) := ⟨⟨fun _ => rfl, fun _ => rfl⟩, rfl⟩
  obtain ⟨hbuffer, hsent⟩ := stream_ends_on_status shippedCalls hstart h horder.emitsInOrder hquiet
  obtain ⟨subscriber, hs, heq⟩ := Option.map_eq_some_iff.mp hsubscriber
  obtain ⟨hid, hsentLast⟩ := Prod.mk.inj heq
  exact ⟨run, c, h, horder.emitsInOrder, ⟨.inr ⟨_, hfirst⟩, .inr ⟨_, hsecond⟩⟩, ⟨_, hlast, hbuffer _ hlast⟩,
    subscriber, _, hs, hid, hsentLast, hsent 2 subscriber _ hs hid hsentLast⟩

-- call 1 commits after call 0 and emits before it
def overtakenSchedule : List (ℕ × Option (DatabaseMove ℕ)) :=
  [(2, some .go), (2, some .go), (2, some (.ext 0))] ++ List.replicate 5 (0, some .go) ++
    List.replicate 5 (1, some .go) ++ [(1, some (.ext 7)), (0, some (.ext 8))] ++ [0, 0, 1, 1].map (·, some .go)

theorem overtaken_status_stays : ∃ c : EventsConfig ℕ Unit,
    (EventsMachine ℕ).Reachable (.start .ordered fun t => (shippedCalls t).run) c ∧
      (c.Ended 0 ∧ c.Ended 1) ∧
      (c.shared.db.committed (.order 1)).map (·.status) = some .shipped ∧
      (c.shared.env.service.buffers 1).getLast?.map (·.status) = some .paid ∧
      (c.shared.env.subscribers 2).map (fun s => s.sent.getLast?.map (·.status)) = some (some .paid) := by
  have hrun : ∃ c : EventsConfig ℕ Unit,
      (EventsMachine ℕ).Reachable (.start .ordered fun t => (shippedCalls t).run) c ∧
      (c.outcome 0 = some (.ok ()) ∧ c.outcome 1 = some (.ok ())) ∧
      (c.shared.db.committed (.order 1)).map (·.status) = some .shipped ∧
      (c.shared.env.service.buffers 1).getLast?.map (·.status) = some .paid ∧
      (c.shared.env.subscribers 2).map (fun s => s.sent.getLast?.map (·.status)) = some (some .paid) := by
    apply exists_reachable (S := withDatabaseMoves eventsMoves .database) overtakenSchedule
    decide
  obtain ⟨c, hc, ⟨hfirst, hsecond⟩, hstale⟩ := hrun
  exact ⟨c, hc, ⟨.inr ⟨_, hfirst⟩, .inr ⟨_, hsecond⟩⟩, hstale⟩

end Marketplace
