import Marketplace.Concurrent.SoleClient
import Marketplace.ReadCommitted.Alone

/-!
A session that is alone on the database. No statement of it waits or fails, and what each one answers
and leaves is known exactly.
-/

namespace ReadCommitted

open Concurrent

variable {T Q K X Ext : Type} {R : K → Type} {ExtRes : Ext → Type} {E : Type}

structure Free (base : (k : K) → Option (R k)) (seq : Q → ℕ) (w : World T Q K R X) : Prop where
  committed : w.db.committed = base
  seq : w.db.seq = seq
  held : ∀ k, w.db.held k = none

/-- The rows as the transaction of `t` sees them, those of `base` with what it has written. -/
structure Session (t : T) (base : (k : K) → Option (R k)) (seq : Q → ℕ) (current : (k : K) → Option (R k))
    (w : World T Q K R X) : Prop where
  committed : w.db.committed = base
  seq : w.db.seq = seq
  status : (w.db.txn t).status = .inProgress
  rows : ∀ k, w.db.held k = none ∧ current k = base k ∨ ∃ r, w.db.held k = some (t, r) ∧ current k = some r

def Holds (t : T) (k : K) (w : World T Q K R X) : Prop := ∃ r, w.db.held k = some (t, r)

variable [DecidableEq T] {base current : (k : K) → Option (R k)} {seq : Q → ℕ} {t : T} {w : World T Q K R X}

section Worlds

theorem Free.visible (h : Free base seq w) : w.db.visible t = base := by
  funext k
  simp [Database.visible, h.held k, h.committed]

theorem Session.visible (h : Session t base seq current w) : w.db.visible t = current := by
  funext k
  rcases h.rows k with ⟨hheld, hk⟩ | ⟨r, hheld, hk⟩
  · simp [Database.visible, hheld, hk, h.committed]
  · simp [Database.visible, hheld, hk]

theorem Session.release (h : Session t base seq current w) (k : K) : w.db.release t k = none := by
  rcases h.rows k with ⟨hheld, -⟩ | ⟨r, hheld, -⟩ <;> simp [Database.release, hheld]

omit [DecidableEq T] in
theorem Session.hold [DecidableEq K] (h : Session t base seq current w) (k : K) (r : R k) :
    Session t base seq (Function.update current k (some r)) ⟨w.db.hold t k r, w.env⟩ := by
  refine ⟨h.committed, h.seq, h.status, fun j => ?_⟩
  by_cases hj : j = k
  · subst hj
    exact .inr ⟨r, by simp [Database.hold], by simp⟩
  · simp only [Database.hold, Function.update_of_ne hj]
    exact h.rows j

end Worlds

variable [DecidableEq Q] [DecidableEq K] {ext : (o : Ext) → X → Except E (ExtRes o) × X} {e : E}
    {C : E → World T Q K R X → Prop}

theorem begin_solo : Prog.Solo (stepAlone ext e t) (Free base seq) begin (fun _ => Session t base seq base) C := by
  refine .perform fun w h => ⟨h.committed, h.seq, ?_, fun k => .inl ⟨h.held k, rfl⟩⟩
  exact congrArg Txn.status Database.txn_setTxn

theorem statement_free : Prog.Solo (stepAlone ext e t) (Free base seq) statement
    (fun v w => v = ⟨base, seq⟩ ∧ Free base seq w) C := by
  refine .perform fun w h => ⟨?_, h.committed, h.seq, h.held⟩
  simp [Database.snapshot, h.visible, h.seq]

theorem statement_solo : Prog.Solo (stepAlone ext e t) (Session t base seq current) statement
    (fun v w => v = ⟨current, seq⟩ ∧ Session t base seq current w) C := by
  refine .perform fun w h => ⟨?_, h.committed, h.seq, ?_, h.rows⟩
  · simp [Database.snapshot, h.visible, h.seq]
  · exact (congrArg Txn.status Database.txn_setTxn).trans h.status

theorem commit_solo : Prog.Solo (stepAlone ext e t) (Session t base seq current) commit
    (fun _ => Free current seq) C := by
  refine .perform fun w h => ?_
  have hcommit : w.db.commit t =
      ⟨w.db.visible t, w.db.release t, w.db.seq, Function.update w.db.txn t ⟨.committed, (w.db.txn t).command⟩⟩ :=
    if_pos h.status
  constructor
  · rw [hcommit]
    exact h.visible
  · rw [hcommit]
    exact h.seq
  · rw [hcommit]
    exact h.release

theorem rollback_solo : Prog.Solo (stepAlone ext e t) (Session t base seq current) rollback
    (fun _ => Free base seq) C := by
  refine .perform fun w h => ?_
  have hrollback : w.db.rollback t =
      ⟨w.db.committed, w.db.release t, w.db.seq, Function.update w.db.txn t ⟨.aborted, (w.db.txn t).command⟩⟩ :=
    if_pos h.status
  constructor
  · rw [hrollback]
    exact h.committed
  · rw [hrollback]
    exact h.seq
  · rw [hrollback]
    exact h.release

theorem lock_solo {k : K} : Prog.Solo (stepAlone ext e t) (Session t base seq current) (lock k)
    (fun r w => r = current k ∧ (current k ≠ none → Holds t k w) ∧ Session t base seq current w) C := by
  refine .perform fun w h => ?_
  rcases h.rows k with ⟨hheld, hk⟩ | ⟨x, hheld, hk⟩
  · cases hbase : base k with
    | none =>
      rw [stepAlone_sql (r := none) (d := w.db) (by simp [Database.exec, hheld, h.committed, hbase])]
      exact ⟨(hk.trans hbase).symm, fun hne => absurd (hk.trans hbase) hne, h⟩
    | some x =>
      have hx : current k = some x := hk.trans hbase
      rw [stepAlone_sql (r := some x) (d := w.db.hold t k x) (by simp [Database.exec, hheld, h.committed, hbase])]
      have hhold := h.hold k x
      rw [← hx, Function.update_eq_self] at hhold
      exact ⟨hx.symm, fun _ => ⟨x, by simp [Database.hold]⟩, hhold⟩
  · rw [stepAlone_sql (r := some x) (d := w.db) (by simp [Database.exec, hheld])]
    exact ⟨hk.symm, fun _ => ⟨x, hheld⟩, h⟩

theorem tryLock_solo {k : K} : Prog.Solo (stepAlone ext e t) (Session t base seq current) (tryLock k)
    (fun r w => r = current k ∧ Session t base seq current w) C := by
  refine .perform fun w h => ?_
  rcases h.rows k with ⟨hheld, hk⟩ | ⟨x, hheld, hk⟩
  · cases hbase : base k with
    | none =>
      rw [stepAlone_sql (r := none) (d := w.db) (by simp [Database.exec, hheld, h.committed, hbase])]
      exact ⟨(hk.trans hbase).symm, h⟩
    | some x =>
      have hx : current k = some x := hk.trans hbase
      rw [stepAlone_sql (r := some x) (d := w.db.hold t k x) (by simp [Database.exec, hheld, h.committed, hbase])]
      have hhold := h.hold k x
      rw [← hx, Function.update_eq_self] at hhold
      exact ⟨hx.symm, hhold⟩
  · rw [stepAlone_sql (r := some x) (d := w.db) (by simp [Database.exec, hheld])]
    exact ⟨hk.symm, h⟩

theorem put_solo {k : K} {r : R k} : Prog.Solo (stepAlone ext e t) (fun w => Holds t k w ∧ Session t base seq current w)
    (put k r) (fun _ => Session t base seq (Function.update current k (some r))) C := by
  rintro w ⟨⟨x, hheld⟩, h⟩
  simp only [put, query, Prog.perform, Prog.run]
  rw [stepAlone_sql (r := ()) (d := w.db.hold t k r) (by simp [Database.exec, hheld])]
  exact h.hold k r

theorem updateWhere_solo {valid : (k : K) → R k → Bool} {k : K} {p : R k → Bool} {f : R k → R k} {r : R k}
    (hk : current k = some r) (hp : p r) (hvalid : valid k (f r)) :
    Prog.Solo (stepAlone ext e t) (Session t base seq current) (updateWhere e valid k p f)
      (fun new w => new = some (f r) ∧ Session t base seq (Function.update current k (some (f r))) w) C := by
  refine .bind_eq statement_solo ?_
  simp only [hk, hp, if_true]
  refine .bind_eq (a := some r) (S := fun w => Holds t k w ∧ Session t base seq current w)
    (lock_solo.conseq (fun _ h => h) (fun x w h => ⟨h.1.trans hk, h.2.1 (by simp [hk]), h.2.2⟩) fun _ _ h => h) ?_
  simp only [hp, hvalid, if_true]
  exact .bind put_solo fun _ => .pure fun w h => ⟨rfl, h⟩

theorem reserve_solo {k : K} {r : R k} : Prog.Solo (stepAlone ext e t) (Session t base seq current) (reserve k r)
    (fun b w => b = (current k).isNone ∧
      Session t base seq (if b then Function.update current k (some r) else current) w) C := by
  refine .perform fun w h => ?_
  rcases h.rows k with ⟨hheld, hk⟩ | ⟨x, hheld, hk⟩
  · cases hbase : base k with
    | none =>
      rw [stepAlone_sql (r := true) (d := w.db.hold t k r) (by simp [Database.exec, hheld, h.committed, hbase])]
      exact ⟨by simp [hk, hbase], h.hold k r⟩
    | some x =>
      rw [stepAlone_sql (r := false) (d := w.db) (by simp [Database.exec, hheld, h.committed, hbase])]
      exact ⟨by simp [hk, hbase], h⟩
  · rw [stepAlone_sql (r := false) (d := w.db) (by simp [Database.exec, hheld])]
    exact ⟨by simp [hk], h⟩

theorem insertOrSkip_solo {valid : (k : K) → R k → Bool} {k : K} {r : R k} (hvalid : valid k r) :
    Prog.Solo (stepAlone ext e t) (Session t base seq current) (insertOrSkip e valid k r)
      (fun b w => b = (current k).isNone ∧
      Session t base seq (if b then Function.update current k (some r) else current) w) C := by
  refine .bind_eq statement_solo ?_
  rw [insertRow, if_pos hvalid]
  exact reserve_solo

theorem nextval_solo {q : Q} : Prog.Solo (stepAlone ext e t) (Session t base seq current) (nextval q)
    (fun n w => n = seq q ∧ Session t base (Function.update seq q (seq q + 1)) current w) C := by
  refine .perform fun w h => ?_
  rw [stepAlone_sql (by rfl)]
  exact ⟨congrFun h.seq q, h.committed, by simp [h.seq], h.status, h.rows⟩

theorem insertOrFail_solo {valid : (k : K) → R k → Bool} {k : K} {r : R k} (hvalid : valid k r)
    (hk : current k = none) : Prog.Solo (stepAlone ext e t) (Session t base seq current) (insertOrFail e valid k r)
      (fun _ => Session t base seq (Function.update current k (some r))) C := by
  refine .bind_eq (a := true) (S := Session t base seq (Function.update current k (some r))) ?_ (.pure fun _ h => h)
  rw [insertRow, if_pos hvalid]
  refine reserve_solo.conseq (fun _ h => h) (fun inserted w h => ?_) fun _ _ h => h
  rw [hk] at h
  obtain ⟨rfl, h⟩ := h
  exact ⟨rfl, h⟩

theorem insertWithId_solo {valid : (k : K) → R k → Bool} {q : Q} {key : ℕ → K} {row : (id : ℕ) → R (key id)}
    (hvalid : valid (key (seq q)) (row (seq q))) (hk : current (key (seq q)) = none) :
    Prog.Solo (stepAlone ext e t) (Session t base seq current) (insertWithId e valid q key row)
      (fun id w => id = seq q ∧ Session t base (Function.update seq q (seq q + 1))
      (Function.update current (key (seq q)) (some (row (seq q)))) w) C := by
  refine .bind_eq statement_solo (.bind_eq nextval_solo ?_)
  exact .bind (insertOrFail_solo hvalid hk) fun _ => .pure fun _ h => ⟨rfl, h⟩

/-- A statement leaves the environment as it is. -/
def OnDatabase (a : Action Q K R Ext) : Prop := ∃ o, a = .sql o

omit [DecidableEq Q] [DecidableEq K] in
theorem onDatabase_sql (o : Stmt Q K R) : OnDatabase (.sql o : Action Q K R Ext) := ⟨o, rfl⟩

theorem stepAlone_env {a : Action Q K R Ext} (ha : OnDatabase a) : (stepAlone ext e t a w).2.env = w.env := by
  obtain ⟨o, rfl⟩ := ha
  simp only [stepAlone]
  split <;> rfl

theorem run_env {α : Type} {p : Client Q K R ExtRes E α} (hp : p.Uses OnDatabase) :
    (p.run (stepAlone ext e t) w).2.env = w.env := by
  induction p generalizing w with
  | done r => rfl
  | call a next ih => exact (ih _ (hp.2 _)).trans (stepAlone_env hp.1)

theorem solo_with_env {α : Type} {P : World T Q K R X → Prop} {p : Client Q K R ExtRes E α}
    {G : α → World T Q K R X → Prop} (hp : p.Uses OnDatabase) (h : Prog.Solo (stepAlone ext e t) P p G C)
    {H : X → Prop} : Prog.Solo (stepAlone ext e t) (fun w => P w ∧ H w.env) p (fun a w => G a w ∧ H w.env)
      fun error w => C error w ∧ H w.env := by
  rintro w ⟨hP, hH⟩
  have hends := h w hP
  have henv : (p.run (stepAlone ext e t) w).2.env = w.env := run_env hp
  rw [← henv] at hH
  generalize p.run (stepAlone ext e t) w = x at hends hH ⊢
  obtain ⟨r, w'⟩ := x
  cases r with
  | ok a => exact ⟨hends, hH⟩
  | error error => exact ⟨hends, hH⟩

end ReadCommitted
