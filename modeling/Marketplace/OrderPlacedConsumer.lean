import Marketplace.Broker
import Marketplace.ReadCommitted.Session

namespace Marketplace

open Concurrent ReadCommitted

def consumerName : String := "order-placed-consumer"

/-- A delivered event. `orderId` is the integer that `data.orderId` denotes, if it denotes one. -/
structure ConsumedEvent where
  eventId : String
  type : String
  orderId : Option ℤ
  deriving DecidableEq, Repr

inductive ProcessResult
  | applied | skipped
  deriving DecidableEq, Repr

variable {T Ext : Type} {ExtRes : Ext → Type}

-- `message_id` in both tables
def ConsumedEvent.messageId (event : ConsumedEvent) : Option String := varchar 150 event.eventId

-- the columns of the effect, where they take the event
def ConsumedEvent.effect (event : ConsumedEvent) : Option OrderEventEffectRow := do
  pure ⟨← event.orderId, ← varchar 150 event.type⟩

def insertMarker (self : T) (event : ConsumedEvent) : Client Serial Key (Row T) ExtRes Failure Bool :=
  match event.messageId with
  | none => throw .database
  | some messageId => insertOnConflictDoNothing (.processedMessage messageId consumerName) ⟨some self⟩

def insertEffect (event : ConsumedEvent) : Client Serial Key (Row T) ExtRes Failure Bool :=
  match event.messageId, event.effect with
  | some messageId, some effect => insertOnConflictDoNothing (.orderEventEffect messageId) effect
  | _, _ => throw .database

def processOrderPlacedEvent (self : T) (event : ConsumedEvent) :
    Client Serial Key (Row T) ExtRes Failure ProcessResult := do
  begin
  tryCatch (do
    let marked ← insertMarker self event
    if marked then do
      let _ ← insertEffect event
      commit
      pure .applied
    else do
      commit
      pure .skipped)
    (fun error => do
      rollback
      throw error)

def marked (t : T) (messageId : String) : Workspace Key (Row T) :=
  Workspace.empty.set (.processedMessage messageId consumerName) ⟨none, ⟨some t⟩⟩

def applied (t : T) (messageId : String) (effect : OrderEventEffectRow) : Workspace Key (Row T) :=
  (marked t messageId).set (.orderEventEffect messageId) ⟨none, effect⟩

theorem marked_marker (t : T) (messageId : String) :
    marked t messageId (.processedMessage messageId consumerName) = some ⟨none, ⟨some t⟩⟩ :=
  Workspace.set_self

theorem marked_effect (t : T) (messageId : String) : marked t messageId (.orderEventEffect messageId) = none :=
  Workspace.set_of_ne (by simp)

def Paired (tables : Tables T) : Prop := ∀ m, (∃ r, tables (.orderEventEffect m) = some r) ↔
  ∃ r, tables (.processedMessage m consumerName) = some r

structure EffectCommitted (t : T) (messageId : String) (old new : Tables T) : Prop where
  before : old (.processedMessage messageId consumerName) = none
  marker : new (.processedMessage messageId consumerName) = some ⟨some t⟩
  effect : ∃ r, new (.orderEventEffect messageId) = some r
  markers : ∀ m ≠ messageId, new (.processedMessage m consumerName) = old (.processedMessage m consumerName)
  effects : ∀ m ≠ messageId, new (.orderEventEffect m) = old (.orderEventEffect m)

theorem EffectCommitted.paired {t : T} {messageId : String} {old new : Tables T}
    (h : EffectCommitted t messageId old new) (hold : Paired old) : Paired new := by
  intro m
  by_cases he : m = messageId
  · subst he
    exact ⟨fun _ => ⟨_, h.marker⟩, fun _ => h.effect⟩
  · rw [h.effects m he, h.markers m he]
    exact hold m

theorem EffectCommitted.keep_marker {t : T} {messageId : String} {old new : Tables T}
    (h : EffectCommitted t messageId old new) {m : String} {r : ProcessedMessageRow T}
    (hm : old (.processedMessage m consumerName) = some r) : new (.processedMessage m consumerName) = some r := by
  refine (h.markers m ?_).trans hm
  rintro rfl
  exact absurd (h.before.symm.trans hm) (by simp)

theorem applied_committed_of {t : T} {messageId : String} {effect : OrderEventEffectRow} {old new : Tables T}
    (h : (applied t messageId effect).Commits old new) : EffectCommitted t messageId old new := by
  have hmarker : applied t messageId effect (.processedMessage messageId consumerName) = some ⟨none, ⟨some t⟩⟩ :=
    (Workspace.set_of_ne (by simp)).trans (marked_marker t messageId)
  refine ⟨h.old_eq hmarker, h.new_eq hmarker,
    ⟨effect, h.new_eq (k := Key.orderEventEffect messageId) Workspace.set_self⟩, fun m hm => h.same ?_,
    fun m hm => h.same ?_⟩
  · exact (Workspace.set_of_ne (by simp)).trans (Workspace.set_of_ne (by simpa using hm))
  · exact (Workspace.set_of_ne (by simpa using hm)).trans (Workspace.set_of_ne (by simp))

variable [DecidableEq T] {X : Type}

theorem applied_committed {t : T} {messageId : String} {effect : OrderEventEffectRow} {c : ℕ}
    {w : World T Serial Key (Row T) X} (hat : At t (applied t messageId effect) c w) :
    EffectCommitted t messageId w.db.committed (w.db.commit t).committed :=
  applied_committed_of hat.commits

variable {M : Machine T X Ext ExtRes Failure}
  {A : T → (a : Action Serial Key (Row T) Ext) → World T Serial Key (Row T) X → Except Failure (a.Res ExtRes) →
    World T Serial Key (Row T) X → Prop}
  {C : T → World T Serial Key (Row T) X → World T Serial Key (Row T) X → Prop}
  {D : Discipline ((withDatabase (Q := Serial) (R := Row T) M .database).restrict A C)} {t : T} {event : ConsumedEvent}
  {Z : ProcessResult → World T Serial Key (Row T) X → Prop}

structure ProcessRules (D : Discipline ((withDatabase (Q := Serial) (R := Row T) M .database).restrict A C)) (t : T)
    (event : ConsumedEvent) (Z : ProcessResult → World T Serial Key (Row T) X → Prop) : Prop where
  calm : Calm D
  paired : ∀ {w}, D.inv w → Paired w.db.committed
  stable : ∀ result, D.Stable t (Z result)
  starts : ∀ {w}, D.inv w → D.Allows t w ⟨w.db.setTxn t ⟨.inProgress, 0⟩, w.env⟩
  applies : ∀ {w r messageId effect}, event.messageId = some messageId → D.inv w →
    At t (applied t messageId effect) 2 w → A t (.sql .commit) w r ⟨w.db.commit t, w.env⟩ →
    D.Allows t w ⟨w.db.commit t, w.env⟩ ∧ Z .applied ⟨w.db.commit t, w.env⟩
  skips : ∀ {w r messageId}, event.messageId = some messageId → D.inv w → At t Workspace.empty 1 w →
    (∃ r, w.db.committed (.processedMessage messageId consumerName) = some r) →
    A t (.sql .commit) w r ⟨w.db.commit t, w.env⟩ →
    D.Allows t w ⟨w.db.commit t, w.env⟩ ∧ Z .skipped ⟨w.db.commit t, w.env⟩

structure ProcessSteps (D : Discipline ((withDatabase (Q := Serial) (R := Row T) M .database).restrict A C)) (t : T)
    (event : ConsumedEvent) (S : World T Serial Key (Row T) X → Prop)
    (Z : ProcessResult → World T Serial Key (Row T) X → Prop) : Prop where
  calm : Calm D
  paired : ∀ {w}, D.inv w → Paired w.db.committed
  before : D.Stable t S
  stable : ∀ result, D.Stable t (Z result)
  starts : ∀ {w}, D.inv w → S w →
    D.Allows t w ⟨w.db.setTxn t ⟨.inProgress, 0⟩, w.env⟩ ∧ S ⟨w.db.setTxn t ⟨.inProgress, 0⟩, w.env⟩
  applies : ∀ {w r messageId effect}, event.messageId = some messageId → event.effect = some effect → D.inv w →
    At t (applied t messageId effect) 2 w → A t (.sql .commit) w r ⟨w.db.commit t, w.env⟩ →
    D.Allows t w ⟨w.db.commit t, w.env⟩ ∧ Z .applied ⟨w.db.commit t, w.env⟩
  skips : ∀ {w r messageId}, event.messageId = some messageId → D.inv w → At t Workspace.empty 1 w →
    (∃ r, w.db.committed (.processedMessage messageId consumerName) = some r) →
    A t (.sql .commit) w r ⟨w.db.commit t, w.env⟩ →
    D.Allows t w ⟨w.db.commit t, w.env⟩ ∧ Z .skipped ⟨w.db.commit t, w.env⟩

namespace ProcessSteps

variable {S : World T Serial Key (Row T) X → Prop} (H : ProcessSteps D t event S Z)

include H

theorem insertMarker_spec :
    D.Triple t (fun w => At t Workspace.empty 0 w ∧ True) (insertMarker t event)
      (fun inserted w => ∃ messageId, event.messageId = some messageId ∧
      if inserted then At t (marked t messageId) 1 w
      else At t Workspace.empty 1 w ∧ ∃ r, w.db.committed (.processedMessage messageId consumerName) = some r)
      fun _ _ => True := by
  unfold insertMarker
  split
  · exact Fails.any.throw
  · rename_i messageId hid
    refine (insertOrSkip_spec H.calm .const .any rfl).conseq (fun _ _ h => h) ?_ fun _ _ _ h => h
    intro inserted w _ h
    refine ⟨messageId, hid, ?_⟩
    cases inserted with
    | true => exact h.2.1
    | false => exact ⟨h.1, h.2.2⟩

-- once the marker is inserted the effect cannot exist, so DO NOTHING does insert it
theorem insertEffect_spec {messageId : String} (hid : event.messageId = some messageId) (c : ℕ) :
    D.Triple t (fun w => At t (marked t messageId) c w ∧ True) (insertEffect event)
      (fun _ w => ∃ effect, event.effect = some effect ∧ At t (applied t messageId effect) (c + 1) w ∧ True)
      fun _ _ => True := by
  unfold insertEffect
  rw [hid]
  cases heffect : event.effect with
  | none => exact Fails.any.throw
  | some effect =>
    refine (insertOrSkip_spec H.calm .const .any (marked_effect t messageId)).conseq (fun _ _ h => h) ?_
      fun _ _ _ h => h
    intro inserted w hi h
    cases inserted with
    | true => exact ⟨effect, rfl, h.2⟩
    | false =>
      obtain ⟨hat, -, hexists⟩ := h
      obtain ⟨r, hr⟩ := (H.paired hi messageId).mp hexists
      have hn := hat.committed_old (marked_marker t messageId)
      rw [hn] at hr
      cases hr

theorem processOrderPlacedEvent_spec :
    D.Triple t (fun w => w.db.workspace t = Workspace.empty ∧ S w) (processOrderPlacedEvent t event) Z
      fun _ _ => True := by
  have hD := H.calm
  have hstart := begin_spec (Y := fun _ _ => True) hD H.before (fun w hi h => H.starts hi h) (fun _ _ _ => trivial)
    fun _ => .const
  refine .bind (R := fun _ w => At t Workspace.empty 0 w ∧ True) (hstart.conseq (fun _ _ h => h)
    (fun _ _ _ h => ⟨h.1, trivial⟩) fun _ _ _ h => h) fun _ => ?_
  refine Discipline.Triple.handle (Y := fun _ _ => True) ?_ fun error =>
    rollback_throw_spec hD .const error (fun _ => .const) fun _ _ _ => ⟨trivial, trivial⟩
  refine .bind H.insertMarker_spec fun inserted => .exists_pre fun messageId => .pure_pre fun hid => ?_
  cases inserted with
  | true =>
    refine .bind ((H.insertEffect_spec hid 1).pre fun _ _ h => ⟨h, trivial⟩) fun _ =>
      .exists_pre fun effect => .pure_pre fun heffect => ?_
    refine .bind (commit_spec hD .const .any (H.stable .applied) ?_) fun _ =>
      .pure (H.stable .applied) fun _ _ h => h
    intro w r hi hat _ ha
    obtain ⟨hall, hz⟩ := H.applies hid heffect hi hat ha
    exact ⟨hall, fun _ => hz, fun _ => trivial⟩
  | false =>
    refine (Discipline.Triple.bind (commit_spec hD (.present (.processedMessage messageId consumerName)) .any
      (H.stable .skipped) ?_) fun _ => .pure (H.stable .skipped) fun _ _ h => h).pre fun w _ h => ⟨h.1, h.2⟩
    intro w r hi hat hmarker ha
    obtain ⟨hall, hz⟩ := H.skips hid hi hat hmarker ha
    exact ⟨hall, fun _ => hz, fun _ => trivial⟩

end ProcessSteps

theorem ProcessRules.processOrderPlacedEvent_spec (H : ProcessRules D t event Z) :
    D.Triple t (fun w => w.db.workspace t = Workspace.empty) (processOrderPlacedEvent t event) Z fun _ _ => True :=
  (ProcessSteps.processOrderPlacedEvent_spec (S := fun _ => True)
    { calm := H.calm
      paired := H.paired
      before := .const
      stable := H.stable
      starts := fun hi _ => ⟨H.starts hi, trivial⟩
      applies := fun hid _ => H.applies hid
      skips := H.skips }).pre fun _ _ h => ⟨h, trivial⟩

def processed (t : T) (messageId : String) : ProcessResult → World T Serial Key (Row T) X → Prop
  | .applied, w => w.db.committed (.processedMessage messageId consumerName) = some ⟨some t⟩
  | .skipped, w => ∃ r, w.db.committed (.processedMessage messageId consumerName) = some r

section Alone

variable {ext : (o : ShopOp) → List (Sent T) → Except Failure o.Res × List (Sent T)} {base : Tables T}
  {seq : Serial → ℕ} {messageId : String} {effect : OrderEventEffectRow}

end Alone

end Marketplace
