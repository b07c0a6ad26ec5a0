import Marketplace.ReadCommitted.System

namespace ReadCommitted

open Concurrent

abbrev Workspace (K : Type) (R : K → Type) := (k : K) → Option (Change (R k))

def Workspace.empty {K : Type} {R : K → Type} : Workspace K R := fun _ => none

variable {T Q K X Ext : Type} {R : K → Type} {ExtRes : Ext → Type} {E α : Type}

/-- A step of `t` inside its transaction: it may lock and change rows, but commits nothing. -/
structure Database.Works [DecidableEq T] (t : T) (db db' : Database T Q K R) : Prop where
  committed : db'.committed = db.committed
  frame : ∀ t', t ≠ t' → db.Frame t' db'
  seq : ∀ q, db.seq q ≤ db'.seq q
  own : ∀ k ch, db.workspace t k = some ch → ∃ r, db'.workspace t k = some ⟨ch.old, r⟩
  status : (db'.txn t).status = (db.txn t).status
  command : (db.txn t).command ≤ (db'.txn t).command

def Stmt.IsInner : Stmt Q K R → Prop
  | .begin | .commit | .rollback => False
  | _ => True

variable [DecidableEq T] [DecidableEq K]

omit [DecidableEq K] in
theorem Database.Quiescent.workspace {db : Database T Q K R} (h : db.Quiescent) (t : T) :
    db.workspace t = Workspace.empty := funext fun k => workspace_none_of_free (h.held k)

theorem Database.works_hold {db : Database T Q K R} {t : T} {k : K} {r : R k}
    (hk : ∀ t', t ≠ t' → db.workspace t' k = none) : db.Works t (db.hold t k r) := by
  refine ⟨rfl, fun t' hne => frame_hold hne (hk t' hne), fun _ => Nat.le_refl _, fun j ch hj => ?_, rfl,
    Nat.le_refl _⟩
  rw [workspace_hold]
  by_cases hjk : j = k
  · subst hjk
    rw [Function.update_self, committed_of_workspace hj]
    exact ⟨r, rfl⟩
  · rw [Function.update_of_ne hjk, hj]
    exact ⟨ch.new, rfl⟩

omit [DecidableEq K] in
theorem Database.works_refl (db : Database T Q K R) (t : T) : db.Works t db :=
  ⟨rfl, fun _ _ => .refl _ _, fun _ => Nat.le_refl _, fun _ ch h => ⟨ch.new, h⟩, rfl, Nat.le_refl _⟩

theorem Database.Locks.works {db db' : Database T Q K R} {t : T} {k : K} {r : Option (R k)}
    (h : db.Locks t k r db') : db.Works t db' := by
  cases h with
  | again hw => exact works_refl _ _
  | missing hw => exact works_refl _ _
  | taken hh hc => exact works_hold fun t' _ => workspace_none_of_free hh

variable [DecidableEq Q]

theorem Database.exec_works {db db' : Database T Q K R} {t : T} {o : Stmt Q K R} {r : o.Res}
    (ho : o.IsInner) (h : db.exec t o = some (r, db')) : db.Works t db' := by
  cases o with
  | begin => exact ho.elim
  | commit => exact ho.elim
  | rollback => exact ho.elim
  | statement =>
    cases h
    exact ⟨rfl, fun _ hne => frame_setTxn hne, fun _ => Nat.le_refl _, fun _ ch h => ⟨ch.new, h⟩,
      by rw [txn_setTxn], by rw [txn_setTxn]; exact Nat.le_succ _⟩
  | lock k => exact (locks_of_lock h).works
  | tryLock k => exact (locks_of_tryLock h).works
  | put k x =>
    obtain ⟨⟨ch, hw⟩, rfl⟩ := put_eq h
    exact works_hold fun t' hne => workspace_none_of_other (held_of_workspace hw) hne
  | reserve k x =>
    rcases reserve_eq h with ⟨-, rfl, -⟩ | ⟨-, rfl, hh, -⟩
    · exact works_refl _ _
    · exact works_hold fun t' _ => workspace_none_of_free hh
  | nextval q =>
    have hf : ∀ t', db.Frame t' db' := by
      cases h
      exact fun t' => frame_nextval q
    cases h
    exact ⟨rfl, fun t' _ => hf t', (hf t).seq, fun _ ch h => ⟨ch.new, h⟩, rfl, Nat.le_refl _⟩

variable {M : Machine T X Ext ExtRes E} {e : E}
  {A : T → (a : Action Q K R Ext) → World T Q K R X → Except E (a.Res ExtRes) → World T Q K R X → Prop}
  {C : T → World T Q K R X → World T Q K R X → Prop}

/-- The steps that change no committed row keep the discipline, wherever a client is. -/
structure Calm (D : Discipline ((withDatabase (Q := Q) (R := R) M e).restrict A C)) : Prop where
  works : ∀ {t w db}, D.inv w → w.db.Works t db → D.Allows t w ⟨db, w.env⟩
  rollback : ∀ {t w}, D.inv w → D.Allows t w ⟨w.db.rollback t, w.env⟩
  crash : ∀ {t w w'}, D.inv w → Crashes M t w w' → C t w w' →
    D.Allows t w w' ∧ ∀ w'', D.Interferes t w' w'' → D.gone t w''

variable {D : Discipline ((withDatabase (Q := Q) (R := R) M e).restrict A C)} {t : T}
  {P : World T Q K R X → Prop} {Y : E → World T Q K R X → Prop}

abbrev Client (Q K : Type) (R : K → Type) {Ext : Type} (ExtRes : Ext → Type) (E α : Type) : Type :=
  Prog (Action Q K R Ext) (Action.Res ExtRes) E α

section Operations

omit [DecidableEq K] [DecidableEq Q]

def query (o : Stmt Q K R) : Client Q K R ExtRes E o.Res := Prog.perform (Action.sql o)

def begin : Client Q K R ExtRes E Unit := query .begin

def statement : Client Q K R ExtRes E (Snapshot Q K R) := query .statement

def lock (k : K) : Client Q K R ExtRes E (Option (R k)) := query (.lock k)

def tryLock (k : K) : Client Q K R ExtRes E (Option (R k)) := query (.tryLock k)

def put (k : K) (r : R k) : Client Q K R ExtRes E Unit := query (.put k r)

def reserve (k : K) (r : R k) : Client Q K R ExtRes E Bool := query (.reserve k r)

def nextval (q : Q) : Client Q K R ExtRes E ℕ := query (.nextval q)

def commit : Client Q K R ExtRes E Unit := query .commit

def rollback : Client Q K R ExtRes E Unit := query .rollback

end Operations

namespace Calm

theorem of_committed
    (hi : ∀ w w', w'.db.committed = w.db.committed → (∀ q, w.db.seq q ≤ w'.db.seq q) → D.inv w → D.inv w')
    (ha : ∀ w w', w'.db.committed = w.db.committed → D.always w w')
    (hr : ∀ t w w', w'.db.committed = w.db.committed → D.rely t w w') (hg : ∀ t w, D.gone t w) : Calm D where
  works h hw := ⟨hi _ _ hw.committed hw.seq h, ha _ _ hw.committed, fun t' _ => hr t' _ _ hw.committed⟩
  rollback {t w} h :=
    ⟨hi w _ Database.committed_rollback (fun q => Nat.le_of_eq (by rw [Database.seq_rollback])) h,
      ha w _ Database.committed_rollback, fun t' _ => hr t' w _ Database.committed_rollback⟩
  crash {t w w'} h hc _ := by
    have hcommitted : w'.db.committed = w.db.committed := by rw [hc.1, Database.committed_rollback]
    have hseq : w'.db.seq = w.db.seq := by rw [hc.1, Database.seq_rollback]
    exact ⟨⟨hi w w' hcommitted (fun q => Nat.le_of_eq (by rw [hseq])) h, ha w w' hcommitted,
      fun t' _ => hr t' w w' hcommitted⟩,
      fun w'' _ => hg t w''⟩

theorem inner (hD : Calm D) {o : Stmt Q K R} {P' : o.Res → World T Q K R X → Prop} (ho : o.IsInner)
    (hP : D.Stable t P)
    (hr : ∀ w r db, D.inv w → P w → w.db.exec t o = some (r, db) → A t (.sql o) w (.ok r) ⟨db, w.env⟩ →
      P' r ⟨db, w.env⟩)
    (hY : ∀ w, D.inv w → P w → Y e w) (hP' : ∀ r, D.Stable t (P' r)) (hYs : ∀ e, D.Stable t (Y e)) :
    D.Triple t P (query o) P' Y := by
  apply Discipline.Triple.perform hP _ (fun w w' hi _ hc => hD.crash hi hc.1 hc.2) hP' hYs
  rintro w r w' hi hp ⟨h, ha⟩
  cases h with
  | answer h => exact ⟨hD.works hi (Database.exec_works ho h), hr _ _ _ hi hp h ha⟩
  | refuse _ => exact ⟨hD.works hi (Database.works_refl _ _), hY _ hi hp⟩
  | lostCommit => exact ho.elim
  | lostRollback => exact ho.elim

theorem start (hD : Calm D) {P' : World T Q K R X → Prop} (hP : D.Stable t P)
    (hb : ∀ w, D.inv w → P w → D.Allows t w ⟨w.db.setTxn t ⟨.inProgress, 0⟩, w.env⟩ ∧
      P' ⟨w.db.setTxn t ⟨.inProgress, 0⟩, w.env⟩)
    (hY : ∀ w, D.inv w → P w → Y e w) (hP' : D.Stable t P') (hYs : ∀ e, D.Stable t (Y e)) :
    D.Triple t P begin (fun _ => P') Y := by
  apply Discipline.Triple.perform hP _ (fun w w' hi _ hc => hD.crash hi hc.1 hc.2) (fun _ => hP') hYs
  rintro w r w' hi hp ⟨h, -⟩
  cases h with
  | answer h => cases h; exact hb _ hi hp
  | refuse _ => exact ⟨hD.works hi (Database.works_refl _ _), hY _ hi hp⟩

theorem abort (hD : Calm D) {P' : World T Q K R X → Prop} (hP : D.Stable t P)
    (hb : ∀ w, D.inv w → P w → P' ⟨w.db.rollback t, w.env⟩ ∧ Y e ⟨w.db.rollback t, w.env⟩)
    (hP' : D.Stable t P') (hYs : ∀ e, D.Stable t (Y e)) :
    D.Triple t P ReadCommitted.rollback (fun _ => P') Y := by
  apply Discipline.Triple.perform hP _ (fun w w' hi _ hc => hD.crash hi hc.1 hc.2) (fun _ => hP') hYs
  rintro w r w' hi hp ⟨h, -⟩
  cases h with
  | answer h => cases h; exact ⟨hD.rollback hi, (hb _ hi hp).1⟩
  | refuse ho => exact absurd trivial ho
  | lostRollback => exact ⟨hD.rollback hi, (hb _ hi hp).2⟩

theorem finish (hD : Calm D) {P' : World T Q K R X → Prop} (hP : D.Stable t P)
    (hb : ∀ w r, D.inv w → P w → A t (.sql .commit) w r ⟨w.db.commit t, w.env⟩ →
      D.Allows t w ⟨w.db.commit t, w.env⟩ ∧ (r = .ok () → P' ⟨w.db.commit t, w.env⟩) ∧
      (r = .error e → Y e ⟨w.db.commit t, w.env⟩))
    (hY : ∀ w, D.inv w → P w → Y e w) (hP' : D.Stable t P') (hYs : ∀ e, D.Stable t (Y e)) :
    D.Triple t P commit (fun _ => P') Y := by
  apply Discipline.Triple.perform hP _ (fun w w' hi _ hc => hD.crash hi hc.1 hc.2) (fun _ => hP') hYs
  rintro w r w' hi hp ⟨h, ha⟩
  cases h with
  | answer h =>
    cases h
    obtain ⟨hall, hp', -⟩ := hb w _ hi hp ha
    exact ⟨hall, hp' rfl⟩
  | refuse _ => exact ⟨hD.works hi (Database.works_refl _ _), hY _ hi hp⟩
  | lostCommit =>
    obtain ⟨hall, -, hy⟩ := hb w _ hi hp ha
    exact ⟨hall, hy rfl⟩

end Calm

end ReadCommitted
