import Mathlib.Data.Option.Defs
import Marketplace.Concurrent.TwoRuns
import Marketplace.ReadCommitted.Statements

/-!
A client that is alone on the database. Two of its runs start from databases whose rows are related,
and as long as it changes rows to related rows, it leaves such databases.
-/

namespace ReadCommitted

open Concurrent

variable {T Q K X Ext : Type} {R : K → Type} {ExtRes : Ext → Type} {E : Type} [DecidableEq T] [DecidableEq Q]
  [DecidableEq K]

/-- `ext` is what the environment answers; no statement of the client fails. -/
def stepAlone (ext : (o : Ext) → X → Except E (ExtRes o) × X) (e : E) (t : T) :
    (a : Action Q K R Ext) → World T Q K R X → Except E (a.Res ExtRes) × World T Q K R X
  | .sql o, w =>
    match w.db.exec t o with
    | some (r, db) => (.ok r, ⟨db, w.env⟩)
    -- to wait for a lock would be to wait for oneself
    | none => (.error e, w)
  | .ext o, w => ((ext o w.env).1, ⟨w.db, (ext o w.env).2⟩)

variable {ext : (o : Ext) → X → Except E (ExtRes o) × X} {e : E} {t : T}

theorem stepAlone_performs {M : Machine T X Ext ExtRes E}
    (hext : ∀ o x, M.perform t o x (ext o x).1 (ext o x).2) (a : Action Q K R Ext) (w : World T Q K R X) :
    (withDatabase M e).perform t a w (stepAlone ext e t a w).1 (stepAlone ext e t a w).2 := by
  cases a with
  | ext o => exact .ext (hext o w.env)
  | sql o =>
    simp only [stepAlone]
    split
    · rename_i hexec
      exact .answer hexec
    · rename_i hexec
      refine .refuse fun hrollback => ?_
      cases o with
      | rollback => cases hexec
      | _ => exact hrollback

theorem stepAlone_sql {o : Stmt Q K R} {w : World T Q K R X} {r : o.Res} {d : Database T Q K R}
    (h : w.db.exec t o = some (r, d)) : stepAlone ext e t (.sql o) w = (.ok r, ⟨d, w.env⟩) := by
  simp [stepAlone, h]

/-- `Rows k` relates the rows of the two databases, present or not; the sequences have passed `first`. -/
structure Alike (Rows : (k : K) → Option (R k) → Option (R k) → Prop) (first : Q → ℕ) (w w' : World T Q K R X) :
    Prop where
  env : w'.env = w.env
  seq : w'.db.seq = w.db.seq
  txn : w'.db.txn = w.db.txn
  rows : ∀ k, Rows k (w.db.committed k) (w'.db.committed k)
  first : ∀ q, first q ≤ w.db.seq q

/-- The rows that `t` has locked, and nobody else has locked one. -/
inductive HeldAlike (Rows : (k : K) → Option (R k) → Option (R k) → Prop) (t : T) (k : K) :
    Option (T × R k) → Option (T × R k) → Prop
  | free : HeldAlike Rows t k none none
  | held {r r' : R k} (h : Rows k (some r) (some r')) : HeldAlike Rows t k (some (t, r)) (some (t, r'))

variable {Rows : (k : K) → Option (R k) → Option (R k) → Prop} {first : Q → ℕ}

def Resting (Rows : (k : K) → Option (R k) → Option (R k) → Prop) (first : Q → ℕ) (w w' : World T Q K R X) : Prop :=
  Alike Rows first w w' ∧ (∀ k, w.db.held k = none) ∧ ∀ k, w'.db.held k = none

def Working (Rows : (k : K) → Option (R k) → Option (R k) → Prop) (first : Q → ℕ) (t : T) (w w' : World T Q K R X) :
    Prop :=
  Alike Rows first w w' ∧ (w.db.txn t).status = .inProgress ∧ ∀ k, HeldAlike Rows t k (w.db.held k) (w'.db.held k)

structure AlikeViews (Rows : (k : K) → Option (R k) → Option (R k) → Prop) (v v' : Snapshot Q K R) : Prop where
  rows : ∀ k, Rows k (v.row k) (v'.row k)
  seq : v'.seq = v.seq

section Worlds

variable {w w' : World T Q K R X}

omit [DecidableEq Q] [DecidableEq K]

omit [DecidableEq T] in
theorem Resting.held (h : Resting Rows first w w') (t : T) (k : K) :
    HeldAlike Rows t k (w.db.held k) (w'.db.held k) := by
  rw [h.2.1 k, h.2.2 k]
  exact .free

theorem Alike.visible (h : Alike Rows first w w') (hheld : ∀ k, HeldAlike Rows t k (w.db.held k) (w'.db.held k))
    (k : K) : Rows k (w.db.visible t k) (w'.db.visible t k) := by
  have hk := hheld k
  have hrow := h.rows k
  unfold Database.visible
  generalize w.db.held k = x at hk ⊢
  generalize w'.db.held k = x' at hk ⊢
  cases hk with
  | free => exact hrow
  | held hr => simpa using hr

theorem Alike.setTxn (h : Alike Rows first w w') (x : Txn) :
    Alike Rows first ⟨w.db.setTxn t x, w.env⟩ ⟨w'.db.setTxn t x, w'.env⟩ :=
  ⟨h.env, h.seq, by simp [Database.setTxn, h.txn], h.rows, h.first⟩

theorem Alike.views (h : Alike Rows first w w') (hheld : ∀ k, HeldAlike Rows t k (w.db.held k) (w'.db.held k)) :
    AlikeViews Rows (w.db.snapshot t) (w'.db.snapshot t) := ⟨h.visible hheld, h.seq⟩

theorem release_none (h : HeldAlike Rows t k (w.db.held k) (w'.db.held k)) :
    w.db.release t k = none ∧ w'.db.release t k = none := by
  unfold Database.release
  generalize w.db.held k = x at h ⊢
  generalize w'.db.held k = x' at h ⊢
  cases h with
  | free => exact ⟨rfl, rfl⟩
  | held _ => simp

theorem Working.commit (h : Working Rows first t w w') :
    Resting Rows first ⟨w.db.commit t, w.env⟩ ⟨w'.db.commit t, w'.env⟩ := by
  obtain ⟨ha, hs, hheld⟩ := h
  have hs' : (w'.db.txn t).status = .inProgress := by rw [ha.txn, hs]
  unfold Database.commit
  rw [if_pos hs, if_pos hs']
  refine ⟨⟨ha.env, ha.seq, ?_, ha.visible hheld, ha.first⟩, fun k => (release_none (hheld k)).1,
    fun k => (release_none (hheld k)).2⟩
  simp only [ha.txn]

theorem Working.rollback (h : Working Rows first t w w') :
    Resting Rows first ⟨w.db.rollback t, w.env⟩ ⟨w'.db.rollback t, w'.env⟩ := by
  obtain ⟨ha, hs, hheld⟩ := h
  have hs' : (w'.db.txn t).status = .inProgress := by rw [ha.txn, hs]
  unfold Database.rollback
  rw [if_pos hs, if_pos hs']
  refine ⟨⟨ha.env, ha.seq, ?_, ha.rows, ha.first⟩, fun k => (release_none (hheld k)).1,
    fun k => (release_none (hheld k)).2⟩
  simp only [ha.txn]

omit [DecidableEq T] in
theorem Working.hold [DecidableEq K] (h : Working Rows first t w w') {k : K} {r r' : R k}
    (hr : Rows k (some r) (some r')) :
    Working Rows first t ⟨w.db.hold t k r, w.env⟩ ⟨w'.db.hold t k r', w'.env⟩ := by
  obtain ⟨ha, hs, hheld⟩ := h
  refine ⟨⟨ha.env, ha.seq, ha.txn, ha.rows, ha.first⟩, hs, fun j => ?_⟩
  by_cases hj : j = k
  · subst hj
    simp only [Database.hold, Function.update_self]
    exact .held hr
  · simp only [Database.hold, Function.update_of_ne hj]
    exact hheld j

omit [DecidableEq T] in
theorem HeldAlike.cases {k : K} {x x' : Option (T × R k)} (h : HeldAlike Rows t k x x') :
    x = none ∧ x' = none ∨ ∃ r r', x = some (t, r) ∧ x' = some (t, r') ∧ Rows k (some r) (some r') := by
  cases h with
  | free => exact .inl ⟨rfl, rfl⟩
  | held hr => exact .inr ⟨_, _, rfl, rfl, hr⟩

end Worlds

section Statements

variable {C : World T Q K R X → World T Q K R X → Prop} {k : K}

def Present (Rows : (k : K) → Option (R k) → Option (R k) → Prop) (k : K) : Prop :=
  ∀ r r', Rows k r r' → (r = none ↔ r' = none)

omit [DecidableEq T] [DecidableEq Q] [DecidableEq K] in
theorem Present.cases (hk : Present Rows k) {r r' : Option (R k)} (h : Rows k r r') :
    r = none ∧ r' = none ∨ ∃ x x', r = some x ∧ r' = some x' := by
  cases r with
  | none => exact .inl ⟨rfl, (hk _ _ h).mp rfl⟩
  | some x =>
    cases r' with
    | none => exact absurd ((hk _ _ h).mpr rfl) (by simp)
    | some x' => exact .inr ⟨x, x', rfl, rfl⟩

theorem begin_together : Prog.Together (stepAlone ext e t) (Resting Rows first) begin begin
    (fun _ _ => Working Rows first t) C := by
  refine .perform fun w w' h => ?_
  refine ⟨h.1.setTxn _, ?_, h.held t⟩
  exact congrArg Txn.status Database.txn_setTxn

theorem statement_resting : Prog.Together (stepAlone ext e t) (Resting Rows first) statement statement
    (fun v v' w w' => AlikeViews Rows v v' ∧ Resting Rows first w w') C := by
  refine .perform fun w w' h => ?_
  refine ⟨h.1.views (h.held t), ?_, h.2.1, h.2.2⟩
  rw [h.1.txn]
  exact h.1.setTxn _

theorem statement_working : Prog.Together (stepAlone ext e t) (Working Rows first t) statement statement
    (fun v v' w w' => AlikeViews Rows v v' ∧ Working Rows first t w w') C := by
  refine .perform fun w w' h => ?_
  refine ⟨h.1.views h.2.2, ?_, ?_, h.2.2⟩
  · rw [h.1.txn]
    exact h.1.setTxn _
  · exact (congrArg Txn.status Database.txn_setTxn).trans h.2.1

theorem commit_together : Prog.Together (stepAlone ext e t) (Working Rows first t) commit commit
    (fun _ _ => Resting Rows first) C := .perform fun _ _ h => h.commit

theorem rollback_together : Prog.Together (stepAlone ext e t) (Working Rows first t) rollback rollback
    (fun _ _ => Resting Rows first) C := .perform fun _ _ h => h.rollback

theorem nextval_together {q : Q} : Prog.Together (stepAlone ext e t) (Working Rows first t) (nextval q) (nextval q)
    (fun id id' w w' => (id' = id ∧ first q ≤ id) ∧ Working Rows first t w w') C := by
  refine .perform fun w w' h => ?_
  obtain ⟨ha, hs, hheld⟩ := h
  refine ⟨⟨congrFun ha.seq q, ha.first q⟩, ⟨ha.env, ?_, ha.txn, ha.rows, fun q' => ?_⟩, hs, hheld⟩
  · simp only [ha.seq]
  · by_cases hq : q' = q
    · subst hq
      simpa using Nat.le_succ_of_le (ha.first q')
    · simpa [hq] using ha.first q'

theorem lock_together (hk : Present Rows k) : Prog.Together (stepAlone ext e t) (Working Rows first t) (lock k) (lock k)
    (fun r r' w w' => Rows k r r' ∧ (r ≠ none → ∃ x, w.db.held k = some (t, x)) ∧ Working Rows first t w w') C := by
  refine .perform fun w w' h => ?_
  rcases (h.2.2 k).cases with ⟨hfree, hfree'⟩ | ⟨r, r', hheld, hheld', hr⟩
  · have hrow := h.1.rows k
    rcases hk.cases hrow with ⟨hnone, hnone'⟩ | ⟨x, x', hx, hx'⟩
    · rw [stepAlone_sql (r := none) (d := w.db) (by simp [Database.exec, hfree, hnone]),
        stepAlone_sql (r := none) (d := w'.db) (by simp [Database.exec, hfree', hnone'])]
      rw [hnone, hnone'] at hrow
      exact ⟨hrow, by simp, h⟩
    · rw [stepAlone_sql (r := some x) (d := w.db.hold t k x) (by simp [Database.exec, hfree, hx]),
        stepAlone_sql (r := some x') (d := w'.db.hold t k x') (by simp [Database.exec, hfree', hx'])]
      rw [hx, hx'] at hrow
      exact ⟨hrow, fun _ => ⟨x, by simp [Database.hold]⟩, h.hold hrow⟩
  · rw [stepAlone_sql (r := some r) (d := w.db) (by simp [Database.exec, hheld]),
      stepAlone_sql (r := some r') (d := w'.db) (by simp [Database.exec, hheld'])]
    exact ⟨hr, fun _ => ⟨r, hheld⟩, h⟩

theorem put_together {r r' : R k} (hr : Rows k (some r) (some r')) : Prog.Together (stepAlone ext e t)
    (fun w w' => (∃ x, w.db.held k = some (t, x)) ∧ Working Rows first t w w') (put k r) (put k r')
    (fun _ _ => Working Rows first t) C := by
  refine .perform fun w w' h => ?_
  obtain ⟨⟨x, hx⟩, h⟩ := h
  rcases (h.2.2 k).cases with ⟨hfree, -⟩ | ⟨y, y', hheld, hheld', -⟩
  · exact absurd (hfree.symm.trans hx) (by simp)
  · rw [stepAlone_sql (r := ()) (d := w.db.hold t k r) (by simp [Database.exec, hheld]),
      stepAlone_sql (r := ()) (d := w'.db.hold t k r') (by simp [Database.exec, hheld'])]
    exact h.hold hr

theorem reserve_together (hk : Present Rows k) {r r' : R k} (hr : Rows k none none → Rows k (some r) (some r')) :
    Prog.Together (stepAlone ext e t) (Working Rows first t) (reserve k r) (reserve k r')
      (fun b b' w w' => (b' = b ∧ (b → Rows k none none)) ∧ Working Rows first t w w') C := by
  refine .perform fun w w' h => ?_
  rcases (h.2.2 k).cases with ⟨hfree, hfree'⟩ | ⟨x, x', hheld, hheld', -⟩
  · have hrow := h.1.rows k
    rcases hk.cases hrow with ⟨hnone, hnone'⟩ | ⟨x, x', hx, hx'⟩
    · rw [stepAlone_sql (r := true) (d := w.db.hold t k r) (by simp [Database.exec, hfree, hnone]),
        stepAlone_sql (r := true) (d := w'.db.hold t k r') (by simp [Database.exec, hfree', hnone'])]
      rw [hnone, hnone'] at hrow
      exact ⟨⟨rfl, fun _ => hrow⟩, h.hold (hr hrow)⟩
    · rw [stepAlone_sql (r := false) (d := w.db) (by simp [Database.exec, hfree, hx]),
        stepAlone_sql (r := false) (d := w'.db) (by simp [Database.exec, hfree', hx'])]
      exact ⟨⟨rfl, by simp⟩, h⟩
  · rw [stepAlone_sql (r := false) (d := w.db) (by simp [Database.exec, hheld]),
      stepAlone_sql (r := false) (d := w'.db) (by simp [Database.exec, hheld'])]
    exact ⟨⟨rfl, by simp⟩, h⟩

end Statements

section Code

variable {C : World T Q K R X → World T Q K R X → Prop} {k : K} {valid : (k : K) → R k → Bool}

theorem insertRow_together (hk : Present Rows k) {r : R k} (hr : Rows k none none → Rows k (some r) (some r)) :
    Prog.Together (stepAlone ext e t) (Working Rows first t) (insertRow e valid k r) (insertRow e valid k r)
      (fun b b' w w' => (b' = b ∧ (b → Rows k none none)) ∧ Working Rows first t w w')
      (fun w w' => valid k r = false ∧ Working Rows first t w w') := by
  unfold insertRow
  split
  · exact reserve_together hk hr
  · rename_i hinvalid
    exact .throw fun _ _ h => ⟨by simpa using hinvalid, h⟩

theorem insertOrSkip_together (hk : Present Rows k) {r : R k} (hr : Rows k none none → Rows k (some r) (some r)) :
    Prog.Together (stepAlone ext e t) (Working Rows first t) (insertOrSkip e valid k r) (insertOrSkip e valid k r)
      (fun b b' w w' => (b' = b ∧ (b → Rows k none none)) ∧ Working Rows first t w w')
      (fun w w' => valid k r = false ∧ Working Rows first t w w') :=
  .bind statement_working fun _ _ => (insertRow_together hk hr).pre fun _ _ h => h.2

theorem insertOrFail_together (hk : Present Rows k) {r : R k} (hr : Rows k none none → Rows k (some r) (some r)) :
    Prog.Together (stepAlone ext e t) (Working Rows first t) (insertOrFail e valid k r) (insertOrFail e valid k r)
      (fun _ _ => Working Rows first t) (Working Rows first t) := by
  refine .bind ((insertRow_together hk hr).conseq (fun _ _ h => h) (fun _ _ _ _ h => h) fun _ _ h => h.2)
    fun b b' => .pure_pre ?_
  rintro ⟨rfl, -⟩
  split
  · exact .pure fun _ _ h => h
  · exact .throw fun _ _ h => h

theorem insertWithId_together {q : Q} {key : ℕ → K} {row : (id : ℕ) → R (key id)}
    (hk : ∀ id, first q ≤ id → Present Rows (key id))
    (hr : ∀ id, first q ≤ id → Rows (key id) none none → Rows (key id) (some (row id)) (some (row id))) :
    Prog.Together (stepAlone ext e t) (Working Rows first t) (insertWithId e valid q key row)
      (insertWithId e valid q key row) (fun id id' w w' => (id' = id ∧ first q ≤ id) ∧ Working Rows first t w w')
      (Working Rows first t) := by
  refine .bind statement_working fun _ _ => (Prog.Together.bind nextval_together fun id id' => .pure_pre ?_).pre
    fun _ _ h => h.2
  rintro ⟨rfl, hid⟩
  exact .bind (insertOrFail_together (hk id' hid) (hr id' hid)) fun _ _ => .pure fun _ _ h => ⟨⟨rfl, hid⟩, h⟩

theorem selectForUpdate_together (hk : Present Rows k) :
    Prog.Together (stepAlone ext e t) (Working Rows first t) (selectForUpdate k) (selectForUpdate k)
      (fun r r' w w' => Rows k r r' ∧ Working Rows first t w w') C := by
  refine .bind statement_working fun v v' => .pure_pre fun hv => ?_
  have hrow := hv.rows k
  rcases hk.cases hrow with ⟨hnone, hnone'⟩ | ⟨x, x', hx, hx'⟩
  · simp only [hnone, hnone']
    rw [hnone, hnone'] at hrow
    exact .pure fun _ _ h => ⟨hrow, h⟩
  · simp only [hx, hx']
    exact (lock_together hk).conseq (fun _ _ h => h) (fun _ _ _ _ h => ⟨h.1, h.2.2⟩) fun _ _ h => h

/-- What an UPDATE answers: no row, or two rows that it made of related ones. -/
inductive Updated (Rows : (k : K) → Option (R k) → Option (R k) → Prop) (k : K) (p : R k → Bool) (f : R k → R k) :
    Option (R k) → Option (R k) → Prop
  | missing (h : Rows k none none) : Updated Rows k p f none none
  | skipped {x x' : R k} (h : Rows k (some x) (some x')) (hp : p x = false) : Updated Rows k p f none none
  | set {x x' : R k} (h : Rows k (some x) (some x')) (hp : p x) : Updated Rows k p f (some (f x)) (some (f x'))

theorem updateWhere_together (hk : Present Rows k) {p : R k → Bool} {f : R k → R k}
    (hp : ∀ x x', Rows k (some x) (some x') → p x' = p x)
    (hvalid : ∀ x x', Rows k (some x) (some x') → valid k (f x') = valid k (f x))
    (hf : ∀ x x', Rows k (some x) (some x') → Rows k (some (f x)) (some (f x'))) :
    Prog.Together (stepAlone ext e t) (Working Rows first t) (updateWhere e valid k p f) (updateWhere e valid k p f)
      (fun r r' w w' => Updated Rows k p f r r' ∧ Working Rows first t w w')
      (fun w w' => (∃ x x', Rows k (some x) (some x') ∧ valid k (f x) = false) ∧ Working Rows first t w w') := by
  refine .bind statement_working fun v v' => .pure_pre fun hv => ?_
  have hrow := hv.rows k
  rcases hk.cases hrow with ⟨hnone, hnone'⟩ | ⟨x, x', hx, hx'⟩
  · simp only [hnone, hnone']
    rw [hnone, hnone'] at hrow
    exact .pure fun _ _ h => ⟨.missing hrow, h⟩
  rw [hx, hx'] at hrow
  simp only [hx, hx', hp x x' hrow]
  split
  · refine .bind (lock_together hk) fun r r' => .pure_pre fun hr => ?_
    rcases hk.cases hr with ⟨rfl, rfl⟩ | ⟨y, y', rfl, rfl⟩
    · exact .pure fun _ _ h => ⟨.missing hr, h.2⟩
    simp only [hp y y' hr, hvalid y y' hr]
    split
    · rename_i hpy
      split
      · refine .bind ((put_together (hf y y' hr)).pre fun _ _ h => ⟨h.1 (by simp), h.2⟩) fun _ _ => ?_
        exact .pure fun _ _ h => ⟨.set hr hpy, h⟩
      · rename_i hinvalid
        exact .throw fun _ _ h => ⟨⟨y, y', hr, by simpa using hinvalid⟩, h.2⟩
    · rename_i hpy
      exact .pure fun _ _ h => ⟨.skipped hr (by simpa using hpy), h.2⟩
  · rename_i hpx
    exact .pure fun _ _ h => ⟨.skipped hrow (by simpa using hpx), h⟩

theorem abandon_together {α : Type} {φ : Prop} {Z : α → α → World T Q K R X → World T Q K R X → Prop}
    (error : E) : Prog.Together (stepAlone ext e t) (fun w w' => φ ∧ Working Rows first t w w')
      (do tryCatch rollback (fun _ => pure ()); throw error : Client Q K R ExtRes E α)
      (do tryCatch rollback (fun _ => pure ()); throw error) Z (fun w w' => φ ∧ Resting Rows first w w') := by
  refine .pure_pre fun hφ => .bind (Q := fun _ _ => Resting Rows first) (.handle
    (rollback_together (C := fun _ _ => False)) fun _ _ _ hfalse => hfalse.elim) fun _ _ => ?_
  exact .throw fun _ _ h => ⟨hφ, h⟩

theorem autocommit_together {α : Type} {body : Client Q K R ExtRes E α} {φ : α → α → Prop} {ψ : Prop}
    (hbody : Prog.Together (stepAlone ext e t) (Working Rows first t) body body
      (fun a a' w w' => φ a a' ∧ Working Rows first t w w') fun w w' => ψ ∧ Working Rows first t w w') :
    Prog.Together (stepAlone ext e t) (Resting Rows first) (autocommit body) (autocommit body)
      (fun a a' w w' => φ a a' ∧ Resting Rows first w w') fun w w' => ψ ∧ Resting Rows first w w' := by
  refine .bind begin_together fun _ _ => .handle (.bind hbody fun a a' => .pure_pre fun hφ => ?_)
    fun error => abandon_together error
  exact .bind commit_together fun _ _ => .pure fun _ _ h => ⟨hφ, h⟩

end Code

end ReadCommitted
