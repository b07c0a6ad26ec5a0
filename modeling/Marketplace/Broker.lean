import Mathlib.Data.List.Basic
import Marketplace.Schema

namespace Marketplace

open Concurrent ReadCommitted

/-- A message that reached the broker, with the call that sent it. -/
structure Sent (T : Type) where
  sender : T
  message : OrderPlacedMessage
  confirmed : Bool
  deriving DecidableEq, Repr

inductive ShopOp
  | clock
  | connectToBroker
  | publish (message : OrderPlacedMessage)
  | waitForConfirms
  | close

abbrev ShopOp.Res : ShopOp → Type
  | .clock => ℕ
  | _ => Unit

variable {T : Type} [DecidableEq T]

def confirm (t : T) (log : List (Sent T)) : List (Sent T) :=
  log.map (fun sent => if sent.sender = t then { sent with confirmed := true } else sent)

def outgoing (t : T) (log : List (Sent T)) : List (Sent T) := log.filter (fun sent => sent.sender = t)

/-- Any broker operation may fail. A publish that fails may still have reached the broker, and the
broker may have confirmed a message although `waitForConfirms` failed or was never answered. -/
inductive ShopPerforms (t : T) :
    (o : ShopOp) → List (Sent T) → Except Failure o.Res → List (Sent T) → Prop
  | clock {log} (now : ℕ) : ShopPerforms t .clock log (.ok now) log
  | connectToBroker {log} : ShopPerforms t .connectToBroker log (.ok ()) log
  | publish {log m} : ShopPerforms t (.publish m) log (.ok ()) (log ++ [⟨t, m, false⟩])
  | waitForConfirms {log} : ShopPerforms t .waitForConfirms log (.ok ()) (confirm t log)
  | close {log} : ShopPerforms t .close log (.ok ()) log
  | failed {o log} (h : o ≠ .clock) : ShopPerforms t o log (.error .broker) log
  | lostPublish {log m} :
      ShopPerforms t (.publish m) log (.error .broker) (log ++ [⟨t, m, false⟩])
  | lostConfirm {log} : ShopPerforms t .waitForConfirms log (.error .broker) (confirm t log)

def ShopCrashes (t : T) (log log' : List (Sent T)) : Prop := log' = log ∨ log' = confirm t log

theorem outgoing_append {t t' : T} {log : List (Sent T)} {m : OrderPlacedMessage} {b : Bool} (hne : t ≠ t') :
    outgoing t' (log ++ [⟨t, m, b⟩]) = outgoing t' log := by
  simp [outgoing, hne]

theorem outgoing_confirm {t t' : T} {log : List (Sent T)} (hne : t ≠ t') :
    outgoing t' (confirm t log) = outgoing t' log := by
  induction log with
  | nil => rfl
  | cons sent log ih =>
    simp only [outgoing, confirm, List.map_cons, List.filter_cons] at ih ⊢
    by_cases ht : sent.sender = t
    · simp [ht, hne, ih]
    · simp [ht, ih]

theorem outgoing_append_self {t : T} {log : List (Sent T)} {m : OrderPlacedMessage} {b : Bool} :
    outgoing t (log ++ [⟨t, m, b⟩]) = outgoing t log ++ [⟨t, m, b⟩] := by
  simp [outgoing]

theorem outgoing_confirm_self {t : T} {log : List (Sent T)} :
    outgoing t (confirm t log) = (outgoing t log).map fun sent => { sent with confirmed := true } := by
  induction log with
  | nil => rfl
  | cons sent log ih =>
    simp only [outgoing, confirm, List.map_cons, List.filter_cons] at ih ⊢
    by_cases ht : sent.sender = t
    · simp [ht, ih]
    · simp [ht, ih]

theorem mem_confirm {t : T} {log : List (Sent T)} {sent : Sent T} (h : sent ∈ confirm t log) :
    ∃ sent' ∈ log, sent'.sender = sent.sender ∧ sent'.message = sent.message := by
  obtain ⟨sent', hmem, rfl⟩ := List.mem_map.mp h
  refine ⟨sent', hmem, ?_⟩
  split <;> exact ⟨rfl, rfl⟩

theorem confirm_of_mem {t : T} {log : List (Sent T)} {sent : Sent T} (h : sent ∈ log) :
    ∃ sent' ∈ confirm t log, sent'.sender = sent.sender ∧ sent'.message = sent.message := by
  refine ⟨_, List.mem_map_of_mem h, ?_⟩
  split <;> exact ⟨rfl, rfl⟩

theorem confirm_mem {t : T} {log : List (Sent T)} {sent : Sent T} (h : sent ∈ log) (hc : sent.confirmed) :
    sent ∈ confirm t log := by
  refine List.mem_map.mpr ⟨sent, h, ?_⟩
  split
  · cases sent
    cases hc
    rfl
  · rfl

theorem mem_outgoing {t : T} {log : List (Sent T)} {sent : Sent T} :
    sent ∈ outgoing t log ↔ sent ∈ log ∧ sent.sender = t := by
  simp [outgoing]

def shop : Machine T (List (Sent T)) ShopOp ShopOp.Res Failure where
  perform := ShopPerforms
  crash := ShopCrashes
  frame t log log' := outgoing t log' = outgoing t log
  frame_refl _ _ := rfl
  frame_trans h h' := h'.trans h
  perform_frame hne h := by
    cases h with
    | clock now => rfl
    | connectToBroker => rfl
    | publish => exact outgoing_append hne
    | waitForConfirms => exact outgoing_confirm hne
    | close => rfl
    | failed h => rfl
    | lostPublish => exact outgoing_append hne
    | lostConfirm => exact outgoing_confirm hne
  crash_frame hne h := by
    rcases h with rfl | rfl
    · rfl
    · exact outgoing_confirm hne

inductive ShopMove
  | ok (now : ℕ)
  | fail
  deriving DecidableEq, Repr

@[reducible] def shopMoves : Moves (shop (T := T)) where
  Move := ShopMove
  play t
    | .clock, .ok now, log => some (.ok now, log)
    | .connectToBroker, .ok _, log => some (.ok (), log)
    | .publish m, .ok _, log => some (.ok (), log ++ [⟨t, m, false⟩])
    | .waitForConfirms, .ok _, log => some (.ok (), confirm t log)
    | .close, .ok _, log => some (.ok (), log)
    | .clock, .fail, _ => none
    | _, .fail, log => some (.error .broker, log)
  die _ log := some log
  play_sound := by
    intro t o m log r log' h
    cases o <;> cases m <;> cases h
    · exact .clock _
    · exact .connectToBroker
    · exact .failed (by simp)
    · exact .publish
    · exact .failed (by simp)
    · exact .waitForConfirms
    · exact .failed (by simp)
    · exact .close
    · exact .failed (by simp)
  die_sound h := .inl (Option.some.inj h).symm

-- a broker that refuses connections while it is down
def brokerAt (t : T) (up : Bool) (now : ℕ) :
    (o : ShopOp) → List (Sent T) → Except Failure o.Res × List (Sent T)
  | .clock, log => (.ok now, log)
  | .connectToBroker, log => (if up then .ok () else .error .broker, log)
  | .publish message, log => (.ok (), log ++ [⟨t, message, false⟩])
  | .waitForConfirms, log => (.ok (), confirm t log)
  | .close, log => (.ok (), log)

theorem brokerAt_performs {t : T} (up : Bool) (now : ℕ) (o : ShopOp) (log : List (Sent T)) :
    shop.perform t o log (brokerAt t up now o log).1 (brokerAt t up now o log).2 := by
  cases o with
  | clock => exact .clock now
  | connectToBroker =>
    cases up with
    | true => exact .connectToBroker
    | false => exact .failed (by simp)
  | publish message => exact .publish
  | waitForConfirms => exact .waitForConfirms
  | close => exact .close

abbrev ShopWorld (T : Type) := World T Serial Key (Row T) (List (Sent T))

def ShopWorld.empty : ShopWorld T := ⟨⟨fun _ => none, fun _ => none, fun _ => 1, fun _ => ⟨.idle, 0⟩⟩, []⟩

def seededTables : Tables T
  | .user 1 => some ⟨"maria@example.com", none, .buyer, 1000⟩
  | .product 1 => some ⟨100, 5, true⟩
  | _ => none

def ShopWorld.seeded : ShopWorld T :=
  ⟨⟨seededTables, fun _ => none, fun q => if q = .users ∨ q = .products then 2 else 1, fun _ => ⟨.idle, 0⟩⟩, []⟩

omit [DecidableEq T] in
theorem ShopWorld.empty_quiescent : (ShopWorld.empty (T := T)).db.Quiescent := ⟨fun _ => rfl, fun _ => rfl⟩

abbrev ShopCall (T α : Type) := Client Serial Key (Row T) ShopOp.Res Failure α

abbrev ShopConfig (T α : Type) :=
  Config T (ShopWorld T) (Action Serial Key (Row T) ShopOp) (Action.Res ShopOp.Res) Failure α

abbrev ShopMachine (T : Type) [DecidableEq T] :
    Machine T (ShopWorld T) (Action Serial Key (Row T) ShopOp) (Action.Res ShopOp.Res) Failure :=
  withDatabase shop .database

abbrev Allowed (T : Type) := T → (a : Action Serial Key (Row T) ShopOp) → ShopWorld T →
  Except Failure (a.Res ShopOp.Res) → ShopWorld T → Prop

section Code

omit [DecidableEq T]

def external (o : ShopOp) : ShopCall T o.Res := Prog.perform (Action.ext o)

-- `new Date()` and `now()`
def clock : ShopCall T ℕ := external .clock

def publishOrderPlaced (message : OrderPlacedMessage) : ShopCall T Unit := do
  external .connectToBroker
  tryCatch (do
    external (.publish message)
    external .waitForConfirms)
    (fun error => do
      external .close
      throw error)
  external .close

end Code

section Specs

variable {A : Allowed T} {C : T → ShopWorld T → ShopWorld T → Prop}
  {D : Discipline ((ShopMachine T).restrict A C)} {t : T} {P : ShopWorld T → Prop}
  {Y : Failure → ShopWorld T → Prop} (hD : Calm D)

include hD

omit hD in
theorem outgoing_kept (sent : List (Sent T)) : Kept D t (fun w => outgoing t w.env = sent) where
  stable _ _ _ h hs := hs.frame.env.trans h
  works _ h _ := h

theorem clock_spec (hP : D.Stable t P) (hY : ∀ e, D.Stable t (Y e)) : D.Triple t P clock (fun _ => P) Y := by
  apply Discipline.Triple.perform hP _ (fun w w' hi _ hc => hD.crash hi hc.1 hc.2) (fun _ => hP) hY
  rintro w r w' hi hp ⟨h, -⟩
  cases h with
  | ext h =>
    cases h with
    | clock now => exact ⟨hD.works hi (Database.works_refl _ _), hp⟩
    | failed h => exact absurd rfl h

theorem external_spec {o : ShopOp} (ho : o = .connectToBroker ∨ o = .close) (hP : D.Stable t P)
    (hY : ∀ e, D.Stable t (Y e)) (hfail : ∀ w, D.inv w → P w → A t (.ext o) w (.error .broker) w → Y .broker w) :
    D.Triple t P (external o) (fun _ => P) Y := by
  apply Discipline.Triple.perform hP _ (fun w w' hi _ hc => hD.crash hi hc.1 hc.2) (fun _ => hP) hY
  rintro w r w' hi hp ⟨h, ha⟩
  have hidle := hD.works (t := t) hi (Database.works_refl w.db t)
  rcases ho with rfl | rfl
  · cases h with
    | ext h =>
      cases h with
      | connectToBroker => exact ⟨hidle, hp⟩
      | failed h => exact ⟨hidle, hfail w hi hp ha⟩
  · cases h with
    | ext h =>
      cases h with
      | close => exact ⟨hidle, hp⟩
      | failed h => exact ⟨hidle, hfail w hi hp ha⟩

theorem publish_spec {P' : ShopWorld T → Prop} {message : OrderPlacedMessage} (hP : D.Stable t P)
    (hP' : D.Stable t P') (hY : ∀ e, D.Stable t (Y e))
    (hsend : ∀ w, D.inv w → P w → D.Allows t w ⟨w.db, w.env ++ [⟨t, message, false⟩]⟩ ∧
      P' ⟨w.db, w.env ++ [⟨t, message, false⟩]⟩)
    (hfail : ∀ w w', D.inv w' → P w' ∨ P' w' → A t (.ext (.publish message)) w (.error .broker) w' →
      Y .broker w') :
    D.Triple t P (external (.publish message)) (fun _ => P') Y := by
  apply Discipline.Triple.perform hP _ (fun w w' hi _ hc => hD.crash hi hc.1 hc.2) (fun _ => hP') hY
  rintro w r w' hi hp ⟨h, ha⟩
  obtain ⟨hall, hp'⟩ := hsend w hi hp
  cases h with
  | ext h =>
    cases h with
    | publish => exact ⟨hall, hp'⟩
    | failed h => exact ⟨hD.works hi (Database.works_refl _ _), hfail w _ hi (.inl hp) ha⟩
    | lostPublish => exact ⟨hall, hfail w _ hall.inv (.inr hp') ha⟩

theorem waitForConfirms_spec {P' : ShopWorld T → Prop} (hP : D.Stable t P) (hP' : D.Stable t P')
    (hY : ∀ e, D.Stable t (Y e))
    (hconfirm : ∀ w, D.inv w → P w → D.Allows t w ⟨w.db, confirm t w.env⟩ ∧ P' ⟨w.db, confirm t w.env⟩)
    (hfail : ∀ w w', D.inv w' → P w' ∨ P' w' → A t (.ext .waitForConfirms) w (.error .broker) w' →
      Y .broker w') :
    D.Triple t P (external .waitForConfirms) (fun _ => P') Y := by
  apply Discipline.Triple.perform hP _ (fun w w' hi _ hc => hD.crash hi hc.1 hc.2) (fun _ => hP') hY
  rintro w r w' hi hp ⟨h, ha⟩
  obtain ⟨hall, hp'⟩ := hconfirm w hi hp
  cases h with
  | ext h =>
    cases h with
    | waitForConfirms => exact ⟨hall, hp'⟩
    | failed h => exact ⟨hD.works hi (Database.works_refl _ _), hfail w _ hi (.inl hp) ha⟩
    | lostConfirm => exact ⟨hall, hfail w _ hall.inv (.inr hp') ha⟩

omit hD in
/-- What has to be shown of `D` where `t` publishes `message`: `P` before, `Sent` once the broker has
it, `Q` once the broker has confirmed it, `B` after an error. -/
structure PublishRules (D : Discipline ((ShopMachine T).restrict A C)) (t : T) (message : OrderPlacedMessage)
    (P Sent Q B : ShopWorld T → Prop) : Prop where
  before : D.Stable t P
  sent : D.Stable t Sent
  confirmed : D.Stable t Q
  broken : D.Stable t B
  sends : ∀ w, D.inv w → P w → D.Allows t w ⟨w.db, w.env ++ [⟨t, message, false⟩]⟩ ∧
    Sent ⟨w.db, w.env ++ [⟨t, message, false⟩]⟩
  confirms : ∀ w, D.inv w → Sent w → D.Allows t w ⟨w.db, confirm t w.env⟩ ∧ Q ⟨w.db, confirm t w.env⟩
  fails : ∀ o w w', D.inv w' → P w' ∨ Sent w' ∨ Q w' → A t (.ext o) w (.error .broker) w' → B w'

theorem publishOrderPlaced_broker_spec {message : OrderPlacedMessage} (Sent : ShopWorld T → Prop)
    {Q B : ShopWorld T → Prop} (H : PublishRules D t message P Sent Q B) :
    D.Triple t P (publishOrderPlaced message) (fun _ => Q) fun e w => e = .broker ∧ B w := by
  have hB (e : Failure) : D.Stable t fun w => e = .broker ∧ B w := .and .const H.broken
  refine .bind (external_spec hD (.inl rfl) H.before hB fun w hi h ha => ⟨rfl, H.fails _ w w hi (.inl h) ha⟩)
    fun _ => ?_
  refine .bind (R := fun _ => Q) (Discipline.Triple.handle (Y := fun e w => e = .broker ∧ B w) ?_ fun error => ?_)
    fun _ => ?_
  · refine .bind (publish_spec hD H.before H.sent hB H.sends fun w w' hi h ha => ⟨rfl, ?_⟩) fun _ => ?_
    · exact H.fails _ w w' hi (h.imp_right .inl) ha
    refine waitForConfirms_spec hD H.sent H.confirmed hB H.confirms fun w w' hi h ha => ⟨rfl, ?_⟩
    exact H.fails _ w w' hi (.inr h) ha
  · refine .bind (external_spec hD (.inr rfl) (hB error) hB fun _ _ h _ => ⟨rfl, h.2⟩) fun _ => ?_
    exact .throw (hB error) fun _ _ h => h
  · exact external_spec hD (.inr rfl) H.confirmed hB fun w hi h ha => ⟨rfl, H.fails _ w w hi (.inr (.inr h)) ha⟩

theorem publishOrderPlaced_spec {message : OrderPlacedMessage} (Sent : ShopWorld T → Prop)
    {Q B : ShopWorld T → Prop} (H : PublishRules D t message P Sent Q B) :
    D.Triple t P (publishOrderPlaced message) (fun _ => Q) fun _ => B :=
  (publishOrderPlaced_broker_spec hD Sent H).conseq (fun _ _ h => h) (fun _ _ _ h => h) fun _ _ _ h => h.2

end Specs

end Marketplace
