import Marketplace.Schema

namespace Marketplace

structure OrderStatusEvent where
  id : ℕ
  orderId : ℕ
  status : OrderStatus
  occurredAt : ℕ
  deriving DecidableEq, Repr

def maxBufferedEventsPerOrder : ℕ := 100

structure OrderEventsService where
  buffers : ℕ → List OrderStatusEvent
  nextEventId : ℕ

namespace OrderEventsService

def start : OrderEventsService := ⟨fun _ => [], 1⟩

def emitStatusChanged (service : OrderEventsService) (orderId : ℕ) (status : OrderStatus) (now : ℕ) :
    OrderStatusEvent × OrderEventsService :=
  let event := ⟨service.nextEventId, orderId, status, now⟩
  let buffer := service.buffers orderId ++ [event]
  let buffer := buffer.drop (buffer.length - maxBufferedEventsPerOrder)
  (event, ⟨Function.update service.buffers orderId buffer, service.nextEventId + 1⟩)

def getEventsAfter (service : OrderEventsService) (orderId : ℕ) (lastEventId : ℤ) : List OrderStatusEvent :=
  (service.buffers orderId).filter fun event => lastEventId < event.id

end OrderEventsService

structure StatusChange where
  orderId : ℕ
  status : OrderStatus
  now : ℕ
  deriving DecidableEq, Repr

def OrderStatusEvent.change (event : OrderStatusEvent) : StatusChange := ⟨event.orderId, event.status, event.occurredAt⟩

namespace OrderEventsService

def emitAll (service : OrderEventsService) : List StatusChange → List OrderStatusEvent × OrderEventsService
  | [] => ([], service)
  | ⟨orderId, status, now⟩ :: changes =>
    let (event, service) := service.emitStatusChanged orderId status now
    let (events, service) := emitAll service changes
    (event :: events, service)

theorem change_emitAll (service : OrderEventsService) (changes : List StatusChange) :
    (service.emitAll changes).1.map OrderStatusEvent.change = changes := by
  induction changes generalizing service with
  | nil => rfl
  | cons change changes ih => exact congrArg (change :: ·) (ih _)

end OrderEventsService

def eventsOf (orderId : ℕ) (emitted : List OrderStatusEvent) : List OrderStatusEvent :=
  emitted.filter fun event => event.orderId = orderId

/-- A service that has emitted these events: ids in order, and of each order its last events buffered. -/
structure Emitted (emitted : List OrderStatusEvent) (service : OrderEventsService) : Prop where
  next : 0 < service.nextEventId
  ids : emitted.Pairwise fun a b => a.id < b.id
  range : ∀ event ∈ emitted, 0 < event.id ∧ event.id < service.nextEventId
  buffers : ∀ orderId, service.buffers orderId = (eventsOf orderId emitted).rtake maxBufferedEventsPerOrder

section Emitted

variable {emitted : List OrderStatusEvent} {service : OrderEventsService} {orderId : ℕ} {status : OrderStatus} {now : ℕ}

theorem emitted_start : Emitted [] .start where
  next := Nat.one_pos
  ids := List.Pairwise.nil
  range := by simp
  buffers := fun _ => rfl

theorem eventsOf_append {emitted' : List OrderStatusEvent} :
    eventsOf orderId (emitted ++ emitted') = eventsOf orderId emitted ++ eventsOf orderId emitted' :=
  List.filter_append ..

theorem eventsOf_singleton {event : OrderStatusEvent} :
    eventsOf orderId [event] = if event.orderId = orderId then [event] else [] := by
  simp [eventsOf, List.filter_singleton]

theorem rtake_rtake_append {α : Type} (n : ℕ) (l l' : List α) : (l.rtake n ++ l').rtake n = (l ++ l').rtake n := by
  simp only [List.rtake_eq_reverse_take_reverse, List.reverse_append, List.reverse_reverse, List.take_append,
    List.take_take]
  congr 3
  omega

theorem Emitted.emitStatusChanged (h : Emitted emitted service) :
    Emitted (emitted ++ [(service.emitStatusChanged orderId status now).1])
      (service.emitStatusChanged orderId status now).2 where
  next := Nat.succ_pos _
  ids := by
    apply List.pairwise_append.mpr
    refine ⟨h.ids, List.pairwise_singleton .., ?_⟩
    intro event hevent last hlast
    rw [List.mem_singleton.mp hlast]
    exact (h.range event hevent).2
  range := by
    intro event hevent
    simp only [OrderEventsService.emitStatusChanged]
    rcases List.mem_append.mp hevent with hevent | hevent
    · have hrange := h.range event hevent
      omega
    · rw [List.mem_singleton.mp hevent]
      exact ⟨h.next, Nat.lt_succ_self _⟩
  buffers := by
    intro other
    simp only [OrderEventsService.emitStatusChanged, eventsOf_append, eventsOf_singleton]
    by_cases hother : other = orderId
    · subst hother
      simp only [Function.update_self, h.buffers other, if_true]
      rw [← rtake_rtake_append]
      simp only [List.rtake]
    · simp only [Function.update_of_ne hother, h.buffers other, Ne.symm hother, if_false, List.append_nil]

theorem Emitted.emitAll (h : Emitted emitted service) (changes : List StatusChange) :
    Emitted (emitted ++ (service.emitAll changes).1) (service.emitAll changes).2 := by
  induction changes generalizing emitted service with
  | nil => rwa [OrderEventsService.emitAll, List.append_nil]
  | cons change changes ih =>
    obtain ⟨orderId, status, now⟩ := change
    have hfirst : Emitted (emitted ++ [(service.emitStatusChanged orderId status now).1]) _ := h.emitStatusChanged
    have hstep := ih hfirst
    rw [List.append_assoc] at hstep
    exact hstep

theorem filter_rtake {events : List OrderStatusEvent} (hids : events.Pairwise fun a b => a.id < b.id) {n : ℕ} {k : ℤ}
    (hn : (events.filter fun event => k < event.id).length ≤ n) :
    (events.rtake n).filter (fun event => k < event.id) = events.filter fun event => k < event.id := by
  have hsplit : events.take (events.length - n) ++ events.rtake n = events := List.take_append_drop ..
  have hfilter := congrArg (List.filter fun event => decide (k < event.id)) hsplit
  rw [List.filter_append] at hfilter
  suffices hnone : (events.take (events.length - n)).filter (fun event => k < event.id) = [] by
    rw [← hfilter, hnone, List.nil_append]
  rw [List.filter_eq_nil_iff]
  intro event hevent hid
  have hlast : ∀ later ∈ events.rtake n, decide (k < later.id) = true := by
    intro later hlater
    rw [← hsplit] at hids
    have hlt := (List.pairwise_append.mp hids).2.2 event hevent later hlater
    have hk := of_decide_eq_true hid
    apply decide_eq_true
    omega
  rw [← hfilter, List.length_append, List.filter_eq_self.mpr hlast] at hn
  have hpos : 0 < ((events.take (events.length - n)).filter fun event => k < event.id).length :=
    List.length_pos_of_mem (List.mem_filter.mpr ⟨hevent, hid⟩)
  have htake : 0 < (events.take (events.length - n)).length := List.length_pos_of_mem hevent
  simp only [List.rtake, List.length_drop, List.length_take] at hn htake
  omega

theorem buffer_is_tail (changes : List StatusChange) (orderId : ℕ) :
    let (emitted, service) := OrderEventsService.start.emitAll changes
    let events := eventsOf orderId emitted
    emitted.map OrderStatusEvent.change = changes ∧
      service.buffers orderId = events.drop (events.length - min events.length maxBufferedEventsPerOrder) ∧
      (emitted.Pairwise fun a b => a.id < b.id) ∧
      ∀ k, service.getEventsAfter orderId k = (service.buffers orderId).filter (fun event => k < event.id) ∧
        ((events.filter fun event => k < event.id).length ≤ maxBufferedEventsPerOrder →
          service.getEventsAfter orderId k = events.filter fun event => k < event.id) := by
  dsimp only
  have h := emitted_start.emitAll changes
  rw [List.nil_append] at h
  have hids : (eventsOf orderId (OrderEventsService.start.emitAll changes).1).Pairwise fun a b => a.id < b.id :=
    h.ids.filter _
  refine ⟨OrderEventsService.change_emitAll _ changes, ?_, h.ids, fun k => ⟨rfl, fun hk => ?_⟩⟩
  · rw [h.buffers orderId, List.rtake]
    congr 1
    omega
  · rw [OrderEventsService.getEventsAfter, h.buffers orderId]
    exact filter_rtake hids hk

theorem buffer_is_tail_interleaved :
    (OrderEventsService.start.emitAll [⟨1, .paid, 10⟩, ⟨2, .paid, 20⟩, ⟨1, .shipped, 30⟩]).2.getEventsAfter 1 1 =
      [⟨3, 1, .shipped, 30⟩] :=
  (((buffer_is_tail [⟨1, .paid, 10⟩, ⟨2, .paid, 20⟩, ⟨1, .shipped, 30⟩] 1).2.2.2 1).2 (by decide)).trans (by decide)

end Emitted

end Marketplace
