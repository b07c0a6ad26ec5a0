import Marketplace.WorkQueue

namespace Marketplace

open Concurrent ReadCommitted

variable {T Msg : Type} [DecidableEq T] [DecidableEq Msg]

abbrev QueueAllowed (T Msg : Type) := T → (a : Action Serial Key (Row T) (QueueOp T Msg)) → QueueWorld T Msg →
  Except Failure (a.Res QueueOp.Res) → QueueWorld T Msg → Prop

def Effected (event : ConsumedEvent) (w : QueueWorld T Msg) : Prop :=
  ∃ messageId r, event.messageId = some messageId ∧ w.db.committed (.orderEventEffect messageId) = some r

-- the event that a delivery hands to `processOrderPlacedEvent`
def consumedEvent (parameters : Parameters) (content : Msg → Option JsonValue) :
    ConsumerCall T Msg → Option ConsumedEvent
  | .consume message => acceptedEvent parameters (content message)
  | .closeChannel _ => none

section Ledger

variable (parameters : Parameters) (content : Msg → Option JsonValue) (calls : T → ConsumerCall T Msg)

/-- In the runs that `A` allows, `B` is known of an event once a delivery of it has failed whose channel is open,
and `J` holds in every state. -/
structure FailureRules (A : QueueAllowed T Msg) (B : T → ConsumedEvent → QueueWorld T Msg → Prop)
    (J : QueueWorld T Msg → Prop) : Prop where
  persists : ∀ {t event w w'}, (Effected event w → Effected event w') → B t event w → B t event w'
  statements : ∀ {t event o w e w'}, consumedEvent parameters content (calls t) = some event →
    A t (.sql o) w (.error e) w' → B t event w' ∨ w'.env.closed t
  callbacks : ∀ {t event o w e w'}, consumedEvent parameters content (calls t) = some event → Effected event w' →
    A t (.ext o) w (.error e) w' → B t event w' ∨ w'.env.closed t
  unfit : ∀ {t event w r w'}, consumedEvent parameters content (calls t) = some event → ¬event.Storable →
    A t (.sql .rollback) w r w' → B t event w' ∨ w'.env.closed t
  steady : ∀ {w w'}, w'.db.committed = w.db.committed → (∀ t, w.env.closed t → w'.env.closed t) →
    (∀ message, w'.env.place message = .deadLettered → w.env.place message = .deadLettered) → J w → J w'
  nacks : ∀ {t message w}, calls t = .consume message → w.env.closed t = false →
    (∀ event, acceptedEvent parameters (content message) = some event → B t event w) → J w →
    J ⟨w.db, w.env.move message .deadLettered⟩
  commits : ∀ {t event messageId w r}, consumedEvent parameters content (calls t) = some event →
    event.messageId = some messageId → J w → EffectCommitted t messageId w.db.committed (w.db.commit t).committed →
    A t (.sql .commit) w r ⟨w.db.commit t, w.env⟩ → J ⟨w.db.commit t, w.env⟩

structure QueueLedger (B : T → ConsumedEvent → QueueWorld T Msg → Prop) (J : QueueWorld T Msg → Prop)
    (w : QueueWorld T Msg) : Prop where
  paired : Paired w.db.committed
  acked : ∀ message event, w.env.place message = .acked → acceptedEvent parameters (content message) = some event →
    Effected event w
  dead : ∀ message event, w.env.place message = .deadLettered →
    acceptedEvent parameters (content message) = some event → ∃ t, calls t = .consume message ∧ B t event w
  extra : J w

variable {parameters content calls} {A : QueueAllowed T Msg} {B : T → ConsumedEvent → QueueWorld T Msg → Prop}
  {J : QueueWorld T Msg → Prop} (H : FailureRules parameters content calls A B J)

def queueLedger (_ : FailureRules parameters content calls A B J) :
    Discipline ((QueueMachine T Msg).restrict A fun _ _ _ => True) where
  inv := QueueLedger parameters content calls B J
  always w w' := (∀ event, Effected event w → Effected event w') ∧ ∀ t, w.env.closed t → w'.env.closed t
  rely _ _ _ := True
  gone _ _ := True
  always_refl _ := ⟨fun _ h => h, fun _ h => h⟩
  always_trans h h' := ⟨fun event he => h'.1 event (h.1 event he), fun t ht => h'.2 t (h.2 t ht)⟩
  rely_refl _ _ := trivial
  rely_trans _ _ _ _ _ _ := trivial

section Steps

include H

theorem QueueLedger.of_committed {w w' : QueueWorld T Msg} (hi : QueueLedger parameters content calls B J w)
    (hc : w'.db.committed = w.db.committed) (hclosed : ∀ t, w.env.closed t → w'.env.closed t)
    (hplace : ∀ message, w'.env.place message = .acked ∨ w'.env.place message = .deadLettered →
      w'.env.place message = w.env.place message) : QueueLedger parameters content calls B J w' := by
  have heffected : ∀ event, Effected event w → Effected event w' := fun event h => by simpa only [Effected, hc] using h
  constructor
  · rw [hc]
    exact hi.paired
  · intro message event hacked haccepted
    exact heffected event (hi.acked message event ((hplace message (.inl hacked)).symm.trans hacked) haccepted)
  · intro message event hdead haccepted
    obtain ⟨t, ht, hb⟩ := hi.dead message event ((hplace message (.inr hdead)).symm.trans hdead) haccepted
    exact ⟨t, ht, H.persists (heffected event) hb⟩
  · exact H.steady hc hclosed (fun message hdead => (hplace message (.inr hdead)).symm.trans hdead) hi.extra

theorem QueueLedger.move {w : QueueWorld T Msg} (hi : QueueLedger parameters content calls B J w) {message : Msg}
    {place : Place T} (hdead : place ≠ .deadLettered)
    (hacked : place = .acked → ∀ event, acceptedEvent parameters (content message) = some event → Effected event w) :
    QueueLedger parameters content calls B J ⟨w.db, w.env.move message place⟩ := by
  have hother : ∀ message', (w.env.move message place).place message' = .deadLettered →
      w.env.place message' = .deadLettered := by
    intro message' hplace
    by_cases hm : message' = message
    · subst hm
      exact absurd (by simpa [WorkQueue.move] using hplace) hdead
    · simpa [WorkQueue.move, hm] using hplace
  refine ⟨hi.paired, fun message' event hplace haccepted => ?_, fun message' event hplace haccepted => ?_,
    H.steady (w := w) rfl (fun _ h => h) hother hi.extra⟩
  · by_cases hm : message' = message
    · subst hm
      exact hacked (by simpa [WorkQueue.move] using hplace) event haccepted
    · exact hi.acked message' event (by simpa [WorkQueue.move, hm] using hplace) haccepted
  · obtain ⟨t, ht, hb⟩ := hi.dead message' event (hother message' hplace) haccepted
    exact ⟨t, ht, H.persists (w := w) (fun h => h) hb⟩

theorem QueueLedger.nack {w : QueueWorld T Msg} (hi : QueueLedger parameters content calls B J w) {t : T}
    {message : Msg} (ht : calls t = .consume message) (hopen : w.env.closed t = false)
    (hfailed : ∀ event, acceptedEvent parameters (content message) = some event → B t event w) :
    QueueLedger parameters content calls B J ⟨w.db, w.env.move message .deadLettered⟩ := by
  refine ⟨hi.paired, fun message' event hplace haccepted => ?_, fun message' event hplace haccepted => ?_,
    H.nacks ht hopen hfailed hi.extra⟩
  · by_cases hm : message' = message
    · subst hm
      simp [WorkQueue.move] at hplace
    · exact hi.acked message' event (by simpa [WorkQueue.move, hm] using hplace) haccepted
  · by_cases hm : message' = message
    · subst hm
      exact ⟨t, ht, H.persists (w := w) (fun h => h) (hfailed event haccepted)⟩
    · obtain ⟨u, hu, hb⟩ := hi.dead message' event (by simpa [WorkQueue.move, hm] using hplace) haccepted
      exact ⟨u, hu, H.persists (w := w) (fun h => h) hb⟩

theorem queueLedger_calm : Calm (queueLedger H) where
  works {t w db} hi hw := by
    refine ⟨QueueLedger.of_committed H hi hw.committed (fun _ h => h) fun _ _ => rfl,
      ⟨fun event h => ?_, fun _ h => h⟩, fun _ _ => trivial⟩
    simpa only [Effected, hw.committed] using h
  rollback {t w} hi := by
    refine ⟨QueueLedger.of_committed H hi Database.committed_rollback (fun _ h => h) fun _ _ => rfl,
      ⟨fun event h => ?_, fun _ h => h⟩, fun _ _ => trivial⟩
    simpa only [Effected, Database.committed_rollback] using h
  crash {t w w'} hi hc _ := by
    have hcommitted : w'.db.committed = w.db.committed := by rw [hc.1, Database.committed_rollback]
    have henv : w'.env = w.env.close fun t' => t' = t := hc.2
    have hclosed : ∀ u, w.env.closed u → w'.env.closed u := fun u hu => henv ▸ WorkQueue.closed_close hu
    refine ⟨⟨QueueLedger.of_committed H hi hcommitted hclosed fun message hplace => ?_,
      ⟨fun event h => ?_, hclosed⟩, fun _ _ => trivial⟩, fun _ _ => trivial⟩
    · rw [henv] at hplace ⊢
      rcases hplace with hplace | hplace
      · rw [hplace, WorkQueue.place_close hplace (by simp)]
      · rw [hplace, WorkQueue.place_close hplace (by simp)]
    · simpa only [Effected, hcommitted] using h

end Steps

section Consume

variable {t : T} {message : Msg}

theorem queue_spec {o : QueueOp T Msg} {P Q : QueueWorld T Msg → Prop} {Y : QueueWorld T Msg → Prop}
    (hP : (queueLedger H).Stable t P) (hQ : (queueLedger H).Stable t Q) (hY : (queueLedger H).Stable t Y)
    (h : ∀ w r x, QueueLedger parameters content calls B J w → P w → QueuePerforms t o w.env r x →
      A t (.ext o) w r ⟨w.db, x⟩ → QueueLedger parameters content calls B J ⟨w.db, x⟩ ∧
      (r = .ok () → Q ⟨w.db, x⟩) ∧ ((∃ e, r = .error e) → Y ⟨w.db, x⟩)) :
    (queueLedger H).Triple t P (queue o) (fun _ => Q) fun _ => Y := by
  apply Discipline.Triple.perform hP _ (fun w w' hi _ hc => (queueLedger_calm H).crash hi hc.1 hc.2) (fun _ => hQ)
    fun _ => hY
  rintro w r w' hi hp ⟨hperform, ha⟩
  cases hperform with
  | ext hx =>
    obtain ⟨hledger, hok, herror⟩ := h w r _ hi hp hx ha
    refine ⟨⟨hledger, ⟨fun event he => he, fun _ => hx.keeps_closed⟩, fun _ _ => trivial⟩, ?_⟩
    cases r with
    | ok _ => exact hok rfl
    | error e => exact herror ⟨e, rfl⟩

theorem effected_stable (event : ConsumedEvent) : (queueLedger H).Stable t (Effected event) :=
  fun _ _ _ h hs => hs.always.1 event h

theorem queueLedger_process {event : ConsumedEvent}
    (hevent : consumedEvent parameters content (calls t) = some event) :
    ProcessRules (queueLedger H) t event fun _ => Effected event where
  calm := queueLedger_calm H
  paired hi := hi.paired
  stable _ := effected_stable H event
  starts hi := ⟨QueueLedger.of_committed H hi rfl (fun _ h => h) fun _ _ => rfl, ⟨fun _ h => h, fun _ h => h⟩,
    fun _ _ => trivial⟩
  applies {w r messageId effect} hid hi hat ha := by
    have hc := applied_committed hat
    have hkeep : ∀ event', Effected event' w → Effected event' ⟨w.db.commit t, w.env⟩ := by
      rintro event' ⟨m, row, hm, hrow⟩
      obtain ⟨marker, hmarker⟩ := (hi.paired m).mp ⟨row, hrow⟩
      obtain ⟨row', hrow'⟩ := (hc.paired hi.paired m).mpr ⟨marker, hc.keep_marker hmarker⟩
      exact ⟨m, row', hm, hrow'⟩
    obtain ⟨row, hrow⟩ := hc.effect
    refine ⟨⟨⟨hc.paired hi.paired, fun message event' hacked haccepted => ?_, fun message event' hdead haccepted => ?_,
      H.commits hevent hid hi.extra hc ha⟩, ⟨hkeep, fun _ h => h⟩, fun _ _ => trivial⟩, messageId, row, hid, hrow⟩
    · exact hkeep event' (hi.acked message event' hacked haccepted)
    · obtain ⟨u, hu, hb⟩ := hi.dead message event' hdead haccepted
      exact ⟨u, hu, H.persists (hkeep event') hb⟩
  skips {w r messageId} hid hi hat hmarker ha := by
    have hsame : (w.db.commit t).committed = w.db.committed := hat.committed_unchanged fun _ _ h => nomatch h
    obtain ⟨row, hrow⟩ := (hi.paired messageId).mpr hmarker
    refine ⟨⟨QueueLedger.of_committed H hi hsame (fun _ h => h) fun _ _ => rfl, ⟨fun event' h => ?_, fun _ h => h⟩,
      fun _ _ => trivial⟩, messageId, row, hid, ?_⟩
    · simpa only [Effected, hsame] using h
    · simpa only [hsame] using hrow

omit [DecidableEq T] [DecidableEq Msg] in
theorem processOrderPlacedEvent_failsOnly {event : ConsumedEvent} (h : event.Storable) :
    (processOrderPlacedEvent t event : QueueCall T Msg ProcessResult).FailsOnly
      fun a r => (∃ o, a = .sql o) ∧ ∃ e, r = .error e := by
  have hquery (o : Stmt Serial Key (Row T)) : (query o : QueueCall T Msg o.Res).FailsOnly
      fun a r => (∃ o, a = .sql o) ∧ ∃ e, r = .error e := .perform fun e => ⟨⟨o, rfl⟩, e, rfl⟩
  have hinsert {k : Key} {row : Row T k} (hvalid : Row.valid k row) :
      (insertOnConflictDoNothing k row : QueueCall T Msg Bool).FailsOnly
        fun a r => (∃ o, a = .sql o) ∧ ∃ e, r = .error e := by
    refine (hquery _).bind fun _ => ?_
    rw [insertRow, if_pos hvalid]
    exact hquery _
  obtain ⟨⟨messageId, hid⟩, effect, heffect, hfits⟩ := h
  have hmarker : (insertMarker t event : QueueCall T Msg Bool).FailsOnly
      fun a r => (∃ o, a = .sql o) ∧ ∃ e, r = .error e := by
    rw [insertMarker, hid]
    exact hinsert rfl
  refine (hquery _).bind fun _ => Prog.FailsOnly.handle (hmarker.bind fun marked => ?_)
  split
  · have hvalid : Row.valid (T := T) (.orderEventEffect messageId) effect := hfits
    rw [insertEffect, hid, heffect]
    exact (hinsert hvalid).bind fun _ => (hquery _).bind fun _ => trivial
  · exact (hquery _).bind fun _ => trivial

-- whatever fails after BEGIN, a ROLLBACK follows
omit [DecidableEq T] [DecidableEq Msg] in
theorem processOrderPlacedEvent_rollsBack (event : ConsumedEvent) :
    (processOrderPlacedEvent t event : QueueCall T Msg ProcessResult).FailsOnly
      fun a r => a = .sql .begin ∧ (∃ e, r = .error e) ∨ a = .sql .rollback := by
  refine .bind (.perform fun e => .inl ⟨rfl, e, rfl⟩) fun _ => .handler fun error => ?_
  exact fun r => .inl (.inr rfl)

theorem processOrderPlacedEvent_failed {event : ConsumedEvent}
    (hevent : consumedEvent parameters content (calls t) = some event) :
    (queueLedger H).Triple t (fun w => w.db.workspace t = Workspace.empty) (processOrderPlacedEvent t event)
      (fun _ => Effected event) fun _ w => B t event w ∨ w.env.closed t := by
  have hspec := (queueLedger_process H hevent).processOrderPlacedEvent_spec
  have hpersists : ∀ w w', (queueLedger H).always w w' → B t event w ∨ w.env.closed t →
      B t event w' ∨ w'.env.closed t := fun _ _ hs hb => hb.imp (H.persists (hs.1 event)) (hs.2 t)
  have herror {w : QueueWorld T Msg} : True ∧ (B t event w ∨ w.env.closed t) → B t event w ∨ w.env.closed t :=
    And.right
  by_cases hfits : event.Storable
  · refine (hspec.fails (processOrderPlacedEvent_failsOnly hfits) hpersists ?_).conseq (fun _ _ h => h)
      (fun _ _ _ h => h) fun _ _ _ => herror
    rintro _ w _ w' ⟨⟨o, rfl⟩, e, rfl⟩ ⟨-, ha⟩
    exact H.statements hevent ha
  · refine (hspec.fails (processOrderPlacedEvent_rollsBack event) hpersists ?_).conseq (fun _ _ h => h)
      (fun _ _ _ h => h) fun _ _ _ => herror
    rintro a w r w' hstep ⟨-, ha⟩
    rcases hstep with ⟨rfl, e, rfl⟩ | rfl
    · exact H.statements hevent ha
    · exact H.unfit hevent hfits ha

theorem consume_spec (ht : calls t = .consume message) :
    (queueLedger H).Triple t (fun w => w.db.workspace t = Workspace.empty)
      (consume parameters t message (content message)) (fun _ _ => True) fun _ _ => True := by
  have hidle : (queueLedger H).Stable t fun w => w.db.workspace t = Workspace.empty :=
    fun _ _ _ h hs => hs.frame.db.workspace.trans h
  have hfailed : (queueLedger H).Stable t fun w => ∀ event,
      acceptedEvent parameters (content message) = some event → B t event w ∨ w.env.closed t :=
    fun _ _ _ h hs event he => (h event he).imp (H.persists (hs.always.1 event)) (hs.always.2 t)
  refine .bind (queue_spec H (Y := fun _ => True) hidle hidle .const ?_) fun _ => ?_
  · intro w r x hi hw hx _
    cases hx with
    | deliver hqueued hopen => exact ⟨hi.move H (by simp) (by simp), fun _ => hw, fun _ => trivial⟩
  refine Discipline.Triple.handle (Y := fun _ w => ∀ event,
    acceptedEvent parameters (content message) = some event → B t event w ∨ w.env.closed t) ?_ fun error => ?_
  · cases hparse : parseOrderPlacedEvent (content message) with
    | error error =>
      refine .throw hfailed fun w _ _ event he => ?_
      simp [acceptedEvent, hparse, Except.toOption] at he
    | ok parsed =>
      have haccepted : acceptedEvent parameters (content message) = some (parameters.event parsed) := by
        simp [acceptedEvent, hparse, Except.toOption]
      have hevent : consumedEvent parameters content (calls t) = some (parameters.event parsed) := by
        rw [ht]
        exact haccepted
      have hfail {w : QueueWorld T Msg} (hb : B t (parameters.event parsed) w ∨ w.env.closed t) :
          ∀ event, acceptedEvent parameters (content message) = some event → B t event w ∨ w.env.closed t := by
        intro event he
        rw [haccepted] at he
        cases he
        exact hb
      have heffected := effected_stable H (t := t) (parameters.event parsed)
      refine .bind ((processOrderPlacedEvent_failed H hevent).conseq (fun _ _ h => h) (fun _ _ _ h => h)
        fun _ _ _ h => hfail h) fun result => ?_
      refine .bind (queue_spec H heffected heffected hfailed ?_) fun _ => queue_spec H heffected .const hfailed ?_
      · intro w r x hi he hx ha
        cases hx with
        | onMessage r =>
          refine ⟨hi, fun _ => he, ?_⟩
          rintro ⟨e, rfl⟩
          exact hfail (H.callbacks hevent he ha)
      · intro w r x hi he hx ha
        cases hx with
        | ack hplace hopen =>
          refine ⟨hi.move H (by simp) fun _ event haccepted' => ?_, fun _ => trivial, by simp⟩
          rw [haccepted] at haccepted'
          cases haccepted'
          exact he
        | lostAck r =>
          refine ⟨hi, fun _ => trivial, ?_⟩
          rintro ⟨e, rfl⟩
          exact hfail (H.callbacks hevent he ha)
  · refine queue_spec H hfailed .const .const ?_
    intro w r x hi hb hx _
    cases hx with
    | nack hplace hopen =>
      refine ⟨hi.nack H ht hopen fun event he => ?_, fun _ => trivial, fun _ => trivial⟩
      exact (hb event he).resolve_right (by simp [hopen])
    | lostNack r => exact ⟨hi, fun _ => trivial, fun _ => trivial⟩

end Consume

include H

theorem ConsumerCall.run_spec (t : T) :
    (queueLedger H).Triple t (fun w => w.db.workspace t = Workspace.empty) ((calls t).run parameters content t)
      (fun _ _ => True) fun _ _ => True := by
  cases ht : calls t with
  | consume message => exact consume_spec H ht
  | closeChannel deliveries =>
    refine (queue_spec H (P := fun _ => True) .const .const .const ?_).pre fun _ _ _ => trivial
    intro w r x hi _ hx _
    cases hx with
    | closeChannel =>
      refine ⟨QueueLedger.of_committed H hi rfl (fun _ => WorkQueue.closed_close) fun message hplace => ?_,
        fun _ => trivial, fun _ => trivial⟩
      rcases hplace with hplace | hplace
      · rw [hplace, WorkQueue.place_close hplace (by simp)]
      · rw [hplace, WorkQueue.place_close hplace (by simp)]

omit H in
structure NothingConsumed (w : QueueWorld T Msg) : Prop where
  quiescent : w.db.Quiescent
  markers : ∀ m, w.db.committed (.processedMessage m consumerName) = none
  effects : ∀ m, w.db.committed (.orderEventEffect m) = none
  queued : ∀ message, w.env.place message = .queued

theorem queue_run {w : QueueWorld T Msg} (hw : NothingConsumed w) (hJ : J w) {c : QueueConfig T Msg}
    (h : ((QueueMachine T Msg).restrict A fun _ _ _ => True).Reachable
      (.start w fun t => (calls t).run parameters content t) c) :
    QueueLedger parameters content calls B J c.shared := by
  have hi : (queueLedger H).inv w := by
    refine ⟨fun m => by simp [hw.markers, hw.effects], fun message event hplace => ?_,
      fun message event hplace => ?_, hJ⟩
    · exact absurd ((hw.queued message).symm.trans hplace) (by simp)
    · exact absurd ((hw.queued message).symm.trans hplace) (by simp)
  exact (Discipline.run_holds (D := queueLedger H) hi hw.quiescent.workspace (ConsumerCall.run_spec H) h).1

end Ledger

section Settled

variable (parameters : Parameters) (content : Msg → Option JsonValue) (calls : T → ConsumerCall T Msg)

/-- No database operation fails in a delivery of a valid event, on an open channel, that leaves the event without
its effect. -/
def NoTransientFailure : QueueAllowed T Msg
  | t, .sql _, _, r, w' => ∀ event, consumedEvent parameters content (calls t) = some event → event.Storable →
    (∃ x, r = .ok x) ∨ Effected event w' ∨ w'.env.closed t
  | _, .ext _, _, _, _ => True

theorem noTransientFailure_rules : FailureRules parameters content calls (NoTransientFailure parameters content calls)
    (fun _ event w => event.Storable → Effected event w) fun _ => True where
  persists heffected h hfits := heffected (h hfits)
  statements {t event o w e w'} hevent ha := by
    by_cases hfits : event.Storable
    · rcases ha event hevent hfits with ⟨x, hx⟩ | heffected | hclosed
      · cases hx
      · exact .inl fun _ => heffected
      · exact .inr hclosed
    · exact .inl fun h => absurd h hfits
  callbacks _ heffected _ := .inl fun _ => heffected
  unfit _ hunfit _ := .inl fun h => absurd h hunfit
  steady _ _ _ _ := trivial
  nacks _ _ _ _ := trivial
  commits _ _ _ _ _ := trivial

theorem valid_event_effected
    (hids : ∀ message event, acceptedEvent parameters (content message) = some event →
      event.messageId = some event.eventId)
    {w : QueueWorld T Msg} (hw : NothingConsumed w) {c : QueueConfig T Msg}
    (h : ((QueueMachine T Msg).restrict (NoTransientFailure parameters content calls) fun _ _ _ => True).Reachable
      (.start w fun t => (calls t).run parameters content t) c) {message : Msg} {event : ConsumedEvent}
    (haccepted : acceptedEvent parameters (content message) = some event) (hbigint : event.HasBigint)
    (hsettled : c.shared.env.place message = .acked ∨ c.shared.env.place message = .deadLettered) :
    ∃ row, c.shared.db.committed (.orderEventEffect event.eventId) = some row := by
  have hledger := queue_run (noTransientFailure_rules parameters content calls) hw trivial h
  have hid := hids message event haccepted
  have heffected : Effected event c.shared := by
    rcases hsettled with hacked | hdead
    · exact hledger.acked message event hacked haccepted
    · obtain ⟨t, -, hb⟩ := hledger.dead message event hdead haccepted
      exact hb (hbigint.storable (acceptedEvent_type haccepted) hid)
  obtain ⟨messageId, row, hid', hrow⟩ := heffected
  obtain rfl := Option.some.inj (hid'.symm.trans hid)
  exact ⟨row, hrow⟩

end Settled

def sampleParameters : Parameters where
  text
    | .string value => value
    | _ => ""
  bigint
    | .number (.integer n) => some n
    | _ => none

def placedContent (eventId : String) (orderId : ℤ) : Option JsonValue :=
  some (.object [("eventId", .string eventId), ("type", .string orderPlacedType),
    ("occurredAt", .string "2026-01-01T00:00:00.000Z"), ("data", .object [("orderId", .number (.integer orderId))])])

def sampleContent : ℕ → Option JsonValue
  | 0 => placedContent "order.placed:1" 1
  | 1 => placedContent "order.placed:2" 2
  | _ => none

theorem sampleContent_id : ∀ message event, acceptedEvent sampleParameters (sampleContent message) = some event →
    event.messageId = some event.eventId := by
  intro message event haccepted
  rcases message with _ | _ | message
  · cases haccepted
    decide
  · cases haccepted
    decide
  · cases haccepted

def sampleDeliveries (t : ℕ) : ConsumerCall ℕ ℕ := .consume t

def QueueWorld.queued : QueueWorld T Msg :=
  ⟨⟨fun _ => none, fun _ => none, fun _ => 1, fun _ => ⟨.idle, 0⟩⟩, ⟨fun _ => .queued, fun _ => false⟩⟩

omit [DecidableEq T] [DecidableEq Msg] in
theorem queued_nothingConsumed : NothingConsumed (QueueWorld.queued : QueueWorld T Msg) :=
  ⟨⟨fun _ => rfl, fun _ => rfl⟩, fun _ => rfl, fun _ => rfl, fun _ => rfl⟩

abbrev QueueSchedule := List (ℕ × Option (DatabaseMove QueueMove))

def appliedMoves (t : ℕ) : QueueSchedule := (t, some (.ext .go)) :: List.replicate 6 (t, some .go)

@[reducible] def noTransientMoves :
    Moves ((QueueMachine ℕ ℕ).restrict (NoTransientFailure sampleParameters sampleContent sampleDeliveries)
      fun _ _ _ => True) :=
  (withDatabaseMoves queueMoves .database).restrict (fun _ a _ r _ => match a with
    | .sql _ => isOk r
    | .ext _ => true) (by
      intro t a w r w' htest
      cases a with
      | sql o => exact fun _ _ _ => .inl (isOk_iff.mp htest)
      | ext o => trivial)

-- `onMessage` throws after the COMMIT
theorem valid_event_effected_rejected : ∃ c : QueueConfig ℕ ℕ, ∃ event,
    ((QueueMachine ℕ ℕ).restrict (NoTransientFailure sampleParameters sampleContent sampleDeliveries)
      fun _ _ _ => True).Reachable
      (.start .queued fun t => (sampleDeliveries t).run sampleParameters sampleContent t) c ∧
      acceptedEvent sampleParameters (sampleContent 0) = some event ∧ c.shared.env.place 0 = .deadLettered ∧
      ∃ row, c.shared.db.committed (.orderEventEffect event.eventId) = some row := by
  have hrun : ∃ c : QueueConfig ℕ ℕ,
      ((QueueMachine ℕ ℕ).restrict (NoTransientFailure sampleParameters sampleContent sampleDeliveries)
        fun _ _ _ => True).Reachable
        (.start .queued fun t => (sampleDeliveries t).run sampleParameters sampleContent t) c ∧
      c.shared.env.place 0 = .deadLettered := by
    apply exists_reachable (S := noTransientMoves) (appliedMoves 0 ++ [(0, some (.ext .fail)), (0, some (.ext .go))])
    decide
  obtain ⟨c, hc, hdead⟩ := hrun
  exact ⟨c, _, hc, rfl, hdead, valid_event_effected sampleParameters sampleContent sampleDeliveries sampleContent_id
    queued_nothingConsumed hc rfl ⟨1, rfl, rfl⟩ (.inr hdead)⟩

-- the database refuses the transaction of a valid event
theorem valid_event_lost : ∃ c : QueueConfig ℕ ℕ, ∃ event,
    (QueueMachine ℕ ℕ).Reachable
      (.start .queued fun t => (sampleDeliveries t).run sampleParameters sampleContent t) c ∧
      acceptedEvent sampleParameters (sampleContent 0) = some event ∧ event.HasBigint ∧
      c.shared.env.place 0 = .deadLettered ∧ c.shared.db.committed (.orderEventEffect event.eventId) = none := by
  have hrun : ∃ c : QueueConfig ℕ ℕ, (QueueMachine ℕ ℕ).Reachable
      (.start .queued fun t => (sampleDeliveries t).run sampleParameters sampleContent t) c ∧
      c.shared.env.place 0 = .deadLettered ∧
      c.shared.db.committed (.orderEventEffect "order.placed:1") = none := by
    apply exists_reachable (S := withDatabaseMoves queueMoves .database)
      [(0, some (.ext .go)), (0, some .refuse), (0, some (.ext .go))]
    decide
  obtain ⟨c, hc, hdead, hnone⟩ := hrun
  exact ⟨c, _, hc, rfl, ⟨1, rfl, rfl⟩, hdead, hnone⟩

section DeadLettered

variable (parameters : Parameters) (content : Msg → Option JsonValue) (calls : T → ConsumerCall T Msg)
    (fails : T → Prop)

/-- On open channels only the deliveries `fails` meet a failure: an operation that fails, or a column that does not
take the event (ROLLBACK follows). When the effect of an event is committed, each of them that is of this event has
lost its channel, and its message has not been dead-lettered. -/
def FailsBeforeEffect : QueueAllowed T Msg := fun t a w r w' =>
  (¬fails t → (∃ x, r = .ok x) ∧ a ≠ .sql .rollback ∨ w'.env.closed t) ∧
    (a = .sql .commit → w'.db.committed ≠ w.db.committed → ∀ event u message event',
      consumedEvent parameters content (calls t) = some event → calls u = .consume message →
      acceptedEvent parameters (content message) = some event' → event'.messageId = event.messageId → fails u →
      w.env.closed u ∧ w.env.place message ≠ .deadLettered)

def FailuresOver (w : QueueWorld T Msg) : Prop := ∀ u message event, calls u = .consume message →
  acceptedEvent parameters (content message) = some event → fails u → Effected event w →
  w.env.closed u ∧ w.env.place message ≠ .deadLettered

variable {parameters content calls fails}

theorem failsBeforeEffect_rules :
    FailureRules parameters content calls (FailsBeforeEffect parameters content calls fails) (fun t _ _ => fails t)
      (FailuresOver parameters content calls fails) where
  persists _ h := h
  statements {t event o w e w'} _ ha := by
    by_cases hfails : fails t
    · exact .inl hfails
    · rcases ha.1 hfails with ⟨⟨x, hx⟩, -⟩ | hclosed
      · cases hx
      · exact .inr hclosed
  callbacks {t event o w e w'} _ _ ha := by
    by_cases hfails : fails t
    · exact .inl hfails
    · rcases ha.1 hfails with ⟨⟨x, hx⟩, -⟩ | hclosed
      · cases hx
      · exact .inr hclosed
  unfit {t event w r w'} _ _ ha := by
    by_cases hfails : fails t
    · exact .inl hfails
    · rcases ha.1 hfails with ⟨-, hrollback⟩ | hclosed
      · exact absurd rfl hrollback
      · exact .inr hclosed
  steady {w w'} hc hclosed hdead h u message event hu haccepted hfails heffected := by
    obtain ⟨hu', hplace⟩ := h u message event hu haccepted hfails (by simpa only [Effected, hc] using heffected)
    exact ⟨hclosed u hu', fun hplace' => hplace (hdead message hplace')⟩
  nacks {t message w} ht hopen hfailed h u message' event hu haccepted hfails heffected := by
    obtain ⟨hu', hplace⟩ := h u message' event hu haccepted hfails heffected
    refine ⟨hu', ?_⟩
    by_cases hm : message' = message
    · -- its own nack would come too late
      subst hm
      have hclosed := (h t message' event ht haccepted (hfailed event haccepted) heffected).1
      exact absurd hclosed (by simp [hopen])
    · simpa [WorkQueue.move, hm] using hplace
  commits {t event messageId w r} hevent hid h hc ha u message event' hu haccepted hfails heffected := by
    obtain ⟨m, row, hm, hrow⟩ := heffected
    by_cases he : m = messageId
    · subst he
      refine ha.2 rfl (fun hsame => ?_) event u message event' hevent hu haccepted (hm.trans hid.symm) hfails
      have hmarker := congrFun hsame (.processedMessage m consumerName)
      exact absurd (hc.marker.symm.trans (hmarker.trans hc.before)) (by simp)
    · exact h u message event' hu haccepted hfails ⟨m, row, hm, (hc.effects m he).symm.trans hrow⟩

theorem dead_letter_unapplied {w : QueueWorld T Msg} (hw : NothingConsumed w) {c : QueueConfig T Msg}
    (h : ((QueueMachine T Msg).restrict (FailsBeforeEffect parameters content calls fails) fun _ _ _ => True).Reachable
      (.start w fun t => (calls t).run parameters content t) c) {message : Msg} {event : ConsumedEvent}
    (haccepted : acceptedEvent parameters (content message) = some event)
    (hdead : c.shared.env.place message = .deadLettered) : ¬Effected event c.shared := by
  have hover : FailuresOver parameters content calls fails w := by
    rintro u message event - - - ⟨m, row, -, hrow⟩
    exact absurd ((hw.effects m).symm.trans hrow) (by simp)
  have hledger := queue_run failsBeforeEffect_rules hw hover h
  obtain ⟨t, ht, hfails⟩ := hledger.dead message event hdead haccepted
  exact fun heffected => (hledger.extra t message event ht haccepted hfails heffected).2 hdead

end DeadLettered

-- the database refuses the transactions of deliveries 0 and 1; channel 0 closes, and delivery 3 is of its message
def redeliveries : ℕ → ConsumerCall ℕ ℕ
  | 0 => .consume 0
  | 1 => .consume 1
  | 2 => .closeChannel (· = 0)
  | _ => .consume 0

@[reducible] def redeliveryMoves :
    Moves ((QueueMachine ℕ ℕ).restrict (FailsBeforeEffect sampleParameters sampleContent redeliveries (· ≤ 1))
      fun _ _ _ => True) :=
  (withDatabaseMoves queueMoves .database).restrict (fun t a w r _ => match a with
    | .sql .commit => isOk r && t = 3 && w.env.closed 0 && w.env.place 0 ≠ .deadLettered
    | .sql .rollback => t ≤ 1
    | _ => t ≤ 1 || isOk r) (by
      intro t a w r w' htest
      refine ⟨fun ht => .inl ⟨isOk_iff.mp ?_, ?_⟩, ?_⟩
      · split at htest
        · simp only [Bool.and_eq_true] at htest
          exact htest.1.1.1
        · exact absurd (of_decide_eq_true htest) ht
        · simpa [ht] using htest
      · rintro rfl
        exact ht (of_decide_eq_true htest)
      rintro rfl - event u message event' hevent hu haccepted hid hfails
      simp only [Bool.and_eq_true, decide_eq_true_eq] at htest
      obtain ⟨⟨⟨-, rfl⟩, hclosed⟩, hplace⟩ := htest
      cases hevent
      rcases u with _ | _ | u
      · cases hu
        exact ⟨hclosed, hplace⟩
      · cases hu
        cases haccepted
        exact absurd hid (by decide)
      · omega)

-- the nack of delivery 0 is lost and its message is applied later, that of delivery 1 arrives
theorem dead_letter_unapplied_second : ∃ c : QueueConfig ℕ ℕ, ∃ event,
    ((QueueMachine ℕ ℕ).restrict (FailsBeforeEffect sampleParameters sampleContent redeliveries (· ≤ 1))
      fun _ _ _ => True).Reachable
      (.start .queued fun t => (redeliveries t).run sampleParameters sampleContent t) c ∧
      acceptedEvent sampleParameters (sampleContent 1) = some event ∧ c.shared.env.place 0 = .acked ∧
      c.shared.env.place 1 = .deadLettered ∧ ¬Effected event c.shared := by
  have hrun : ∃ c : QueueConfig ℕ ℕ,
      ((QueueMachine ℕ ℕ).restrict (FailsBeforeEffect sampleParameters sampleContent redeliveries (· ≤ 1))
        fun _ _ _ => True).Reachable
        (.start .queued fun t => (redeliveries t).run sampleParameters sampleContent t) c ∧
      c.shared.env.place 0 = .acked ∧ c.shared.env.place 1 = .deadLettered := by
    apply exists_reachable (S := redeliveryMoves)
      ([(0, some (.ext .go)), (0, some .refuse), (2, some (.ext .go)), (0, some (.ext .fail)), (1, some (.ext .go)),
        (1, some .refuse)] ++ appliedMoves 3 ++ [(3, some (.ext .go)), (3, some (.ext .go)), (1, some (.ext .go))])
    decide
  obtain ⟨c, hc, hacked, hdead⟩ := hrun
  exact ⟨c, _, hc, rfl, hacked, hdead, dead_letter_unapplied queued_nothingConsumed hc rfl hdead⟩

-- `onMessage` throws after the COMMIT
theorem applied_event_dead_lettered : ∃ c : QueueConfig ℕ ℕ, ∃ event,
    (QueueMachine ℕ ℕ).Reachable
      (.start .queued fun t => (sampleDeliveries t).run sampleParameters sampleContent t) c ∧
      acceptedEvent sampleParameters (sampleContent 0) = some event ∧ c.shared.env.place 0 = .deadLettered ∧
      Effected event c.shared := by
  have hrun : ∃ c : QueueConfig ℕ ℕ, (QueueMachine ℕ ℕ).Reachable
      (.start .queued fun t => (sampleDeliveries t).run sampleParameters sampleContent t) c ∧
      c.shared.env.place 0 = .deadLettered ∧
      c.shared.db.committed (.orderEventEffect "order.placed:1") = some ⟨1, orderPlacedType⟩ := by
    apply exists_reachable (S := withDatabaseMoves queueMoves .database)
      (appliedMoves 0 ++ [(0, some (.ext .fail)), (0, some (.ext .go))])
    decide
  obtain ⟨c, hc, hdead, heffect⟩ := hrun
  exact ⟨c, _, hc, rfl, hdead, "order.placed:1", _, sampleContent_id 0 _ rfl, heffect⟩

end Marketplace
