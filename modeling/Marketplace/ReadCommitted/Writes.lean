import Marketplace.ReadCommitted.Statements

/-!
The rows a program may write. What a transaction is about to commit is then known without following
the program.
-/

namespace ReadCommitted

open Concurrent

variable {T Q K X Ext : Type} {R : K → Type} {ExtRes : Ext → Type} {E α : Type}

inductive Stmt.Writes : Stmt Q K R → (k : K) → R k → Prop
  | put {k : K} {r : R k} : Writes (.put k r) k r
  | reserve {k : K} {r : R k} : Writes (.reserve k r) k r

def Action.WritesIn (W : (k : K) → R k → Prop) : Action Q K R Ext → Prop
  | .sql o => ∀ k r, o.Writes k r → W k r
  | .ext _ => True

-- no BEGIN, COMMIT or ROLLBACK
def Action.IsInner : Action Q K R Ext → Prop
  | .sql o => o.IsInner
  | .ext _ => True

abbrev OnlyWrites (W : (k : K) → R k → Prop) (p : Client Q K R ExtRes E α) : Prop := p.Uses (Action.WritesIn W)

abbrev InnerWrites (W : (k : K) → R k → Prop) (p : Client Q K R ExtRes E α) : Prop :=
  p.Uses fun a => a.WritesIn W ∧ a.IsInner

section Programs

variable {W : (k : K) → R k → Prop} {e : E} {valid : (k : K) → R k → Bool}

theorem onlyWrites_query {o : Stmt Q K R} (ho : ∀ k r, ¬o.Writes k r) :
    OnlyWrites W (query o : Client Q K R ExtRes E o.Res) :=
  .perform fun k r h => absurd h (ho k r)

theorem onlyWrites_begin : OnlyWrites W (begin : Client Q K R ExtRes E Unit) := onlyWrites_query nofun

theorem onlyWrites_statement : OnlyWrites W (statement : Client Q K R ExtRes E _) := onlyWrites_query nofun

theorem onlyWrites_commit : OnlyWrites W (commit : Client Q K R ExtRes E Unit) := onlyWrites_query nofun

theorem onlyWrites_rollback : OnlyWrites W (rollback : Client Q K R ExtRes E Unit) := onlyWrites_query nofun

theorem onlyWrites_put {k : K} {r : R k} (h : W k r) : OnlyWrites W (put k r : Client Q K R ExtRes E Unit) := by
  refine .perform ?_
  rintro _ _ ⟨⟩
  exact h

theorem onlyWrites_reserve {k : K} {r : R k} (h : W k r) : OnlyWrites W (reserve k r : Client Q K R ExtRes E Bool) := by
  refine .perform ?_
  rintro _ _ ⟨⟩
  exact h

theorem onlyWrites_insertRow {k : K} {r : R k} (h : W k r) :
    OnlyWrites W (insertRow e valid k r : Client Q K R ExtRes E Bool) := by
  unfold insertRow
  split
  · exact onlyWrites_reserve h
  · trivial

theorem onlyWrites_insertOrFail {k : K} {r : R k} (h : W k r) :
    OnlyWrites W (insertOrFail e valid k r : Client Q K R ExtRes E Unit) := by
  refine .bind (onlyWrites_insertRow h) fun inserted => ?_
  split <;> trivial

section Uses

variable {S : Action Q K R Ext → Prop}

theorem uses_insertRow {k : K} {r : R k} (hreserve : S (.sql (.reserve k r))) :
    (insertRow e valid k r : Client Q K R ExtRes E Bool).Uses S := by
  unfold insertRow
  split
  · exact .perform hreserve
  · trivial

variable (hstatement : S (.sql .statement))

include hstatement

theorem uses_insertWithId {q : Q} {key : ℕ → K} {row : (id : ℕ) → R (key id)} (hnextval : S (.sql (.nextval q)))
    (hreserve : ∀ id, S (.sql (.reserve (key id) (row id)))) :
    (insertWithId e valid q key row : Client Q K R ExtRes E ℕ).Uses S := by
  refine .bind (.perform hstatement) fun _ => .bind (.perform hnextval) fun id => ?_
  refine .bind (.bind (uses_insertRow (hreserve id)) fun inserted => ?_) fun _ => trivial
  split <;> trivial

theorem uses_updateWhere {k : K} {p : R k → Bool} {f : R k → R k} (hlock : S (.sql (.lock k)))
    (hput : ∀ r, S (.sql (.put k (f r)))) :
    (updateWhere e valid k p f : Client Q K R ExtRes E (Option (R k))).Uses S := by
  refine .bind (.perform hstatement) fun view => ?_
  split
  · trivial
  · split
    · refine .bind (.perform hlock) fun latest => ?_
      split
      · trivial
      · split
        · split
          · exact .bind (.perform (hput _)) fun _ => trivial
          · trivial
        · trivial
    · trivial

end Uses

theorem rethrows_updateWhere {S : Action Q K R Ext → Prop} {k : K} {p : R k → Bool} {f : R k → R k} :
    (updateWhere e valid k p f : Client Q K R ExtRes E (Option (R k))).Rethrows S := by
  refine .bind .perform fun view => ?_
  split
  · trivial
  · split
    · refine .bind .perform fun latest => ?_
      split
      · trivial
      · split
        · split
          · exact .bind .perform fun _ => trivial
          · trivial
        · trivial
    · trivial

theorem onlyWrites_insertWithId {q : Q} {key : ℕ → K} {row : (id : ℕ) → R (key id)} (h : ∀ id, W (key id) (row id)) :
    OnlyWrites W (insertWithId e valid q key row : Client Q K R ExtRes E ℕ) := by
  refine uses_insertWithId nofun nofun fun id => ?_
  rintro _ _ ⟨⟩
  exact h id

theorem onlyWrites_updateWhere {k : K} {p : R k → Bool} {f : R k → R k} (h : ∀ r, W k (f r)) :
    OnlyWrites W (updateWhere e valid k p f : Client Q K R ExtRes E (Option (R k))) := by
  refine uses_updateWhere nofun nofun fun r => ?_
  rintro _ _ ⟨⟩
  exact h r

theorem innerWrites_statement : InnerWrites W (statement : Client Q K R ExtRes E _) := .perform ⟨nofun, trivial⟩

theorem innerWrites_lock (k : K) : InnerWrites W (lock k : Client Q K R ExtRes E _) := .perform ⟨nofun, trivial⟩

theorem innerWrites_put {k : K} {r : R k} (h : W k r) : InnerWrites W (put k r : Client Q K R ExtRes E Unit) := by
  refine .perform ⟨?_, trivial⟩
  rintro _ _ ⟨⟩
  exact h

theorem InnerWrites.onlyWrites {p : Client Q K R ExtRes E α} (h : InnerWrites W p) : OnlyWrites W p :=
  h.mono fun _ ha => ha.1

theorem onlyWrites_autocommit {body : Client Q K R ExtRes E α} (h : OnlyWrites W body) :
    OnlyWrites W (autocommit body) := by
  refine .bind onlyWrites_begin fun _ => .handle ?_ fun error => ?_
  · exact .bind h fun _ => .bind onlyWrites_commit fun _ => trivial
  · exact .bind (.handle onlyWrites_rollback fun _ => trivial) fun _ => trivial

end Programs

variable [DecidableEq T] [DecidableEq Q] [DecidableEq K]

/-- A row that the transaction holds is unchanged, or one it was allowed to write. -/
def Changed (W : (k : K) → R k → Prop) (ws : Workspace K R) : Prop :=
  ∀ k ch, ws k = some ch → ch.old = some ch.new ∨ W k ch.new

section Workspaces

variable {W : (k : K) → R k → Prop} {ws : Workspace K R}

omit [DecidableEq T] [DecidableEq Q] [DecidableEq K]

theorem Changed.empty : Changed W Workspace.empty := nofun

theorem Changed.set [DecidableEq K] (h : Changed W ws) {k : K} {ch : Change (R k)} (hk : W k ch.new) :
    Changed W (ws.set k ch) := by
  intro j ch' hj
  by_cases hjk : j = k
  · subst hjk
    rw [Workspace.set_self] at hj
    cases hj
    exact .inr hk
  · rw [Workspace.set_of_ne hjk] at hj
    exact h j ch' hj

theorem Changed.onto (h : Changed W ws) {base : (k : K) → Option (R k)}
    (hbase : ∀ k ch, ws k = some ch → base k = ch.old) (k : K) :
    ws.onto base k = base k ∨ ∃ r, ws.onto base k = some r ∧ W k r := by
  cases hk : ws k with
  | none => exact .inl (Workspace.onto_of_none hk)
  | some ch =>
    rw [Workspace.onto_of_some hk]
    rcases h k ch hk with hsame | hw
    · exact .inl (by rw [hbase k ch hk, hsame])
    · exact .inr ⟨_, rfl, hw⟩

end Workspaces

theorem Database.exec_change {db db' : Database T Q K R} {t : T} {o : Stmt Q K R} {r : o.Res} (ho : o.IsInner)
    (h : db.exec t o = some (r, db')) {k : K} {ch : Change (R k)} (hk : db'.workspace t k = some ch) :
    db.workspace t k = some ch ∨ ch.old = some ch.new ∨ o.Writes k ch.new := by
  have hlocks {j : K} {r : Option (R j)} (hl : db.Locks t j r db') :
      db.workspace t k = some ch ∨ ch.old = some ch.new := by
    cases hl with
    | again _ => exact .inl hk
    | missing _ => exact .inl hk
    | taken _ hc =>
      rw [workspace_hold] at hk
      by_cases hkj : k = j
      · subst hkj
        rw [Function.update_self] at hk
        cases hk
        exact .inr hc
      · rw [Function.update_of_ne hkj] at hk
        exact .inl hk
  have hwrites {j : K} {x : R j} (ho : o.Writes j x) (heq : db' = db.hold t j x) :
      db.workspace t k = some ch ∨ o.Writes k ch.new := by
    subst heq
    rw [workspace_hold] at hk
    by_cases hkj : k = j
    · subst hkj
      rw [Function.update_self] at hk
      cases hk
      exact .inr ho
    · rw [Function.update_of_ne hkj] at hk
      exact .inl hk
  cases o with
  | begin => exact ho.elim
  | commit => exact ho.elim
  | rollback => exact ho.elim
  | statement =>
    cases h
    exact .inl hk
  | nextval q =>
    cases h
    exact .inl hk
  | lock j => exact (hlocks (locks_of_lock h)).imp_right .inl
  | tryLock j => exact (hlocks (locks_of_tryLock h)).imp_right .inl
  | put j x => exact (hwrites .put (put_eq h).2).imp_right .inr
  | reserve j x =>
    rcases reserve_eq h with ⟨-, rfl, -⟩ | ⟨-, heq, -⟩
    · exact .inl hk
    · exact (hwrites .reserve heq).imp_right .inr

variable {M : Machine T X Ext ExtRes E} {e : E}
  {A : T → (a : Action Q K R Ext) → World T Q K R X → Except E (a.Res ExtRes) → World T Q K R X → Prop}
  {C : T → World T Q K R X → World T Q K R X → Prop}

/-- Of a transaction that may write `W`, the discipline asks only for its BEGIN, its COMMIT and the
operations on the environment. -/
structure WriteRules (D : Discipline ((withDatabase (Q := Q) (R := R) M e).restrict A C)) (t : T)
    (W : (k : K) → R k → Prop) : Prop where
  calm : Calm D
  starts : ∀ {w}, D.inv w → D.Allows t w ⟨w.db.setTxn t ⟨.inProgress, 0⟩, w.env⟩
  commits : ∀ {ws c w}, D.inv w → At t ws c w → Changed W ws → D.Allows t w ⟨w.db.commit t, w.env⟩
  external : ∀ {o w r x}, D.inv w → M.perform t o w.env r x → D.Allows t w ⟨w.db, x⟩

variable {D : Discipline ((withDatabase (Q := Q) (R := R) M e).restrict A C)} {t : T} {W : (k : K) → R k → Prop}

def Changes (W : (k : K) → R k → Prop) (t : T) (w : World T Q K R X) : Prop := Changed W (w.db.workspace t)

theorem Changes.stable : D.Stable t (Changes W t) := by
  intro w w' _ h hs
  unfold Changes
  rw [hs.frame.db.workspace]
  exact h

omit [DecidableEq Q] [DecidableEq K] in
theorem At.of_inProgress {w : World T Q K R X} (hs : (w.db.txn t).status = .inProgress) :
    At t (w.db.workspace t) (w.db.txn t).command w := by
  refine ⟨rfl, ?_⟩
  cases hx : w.db.txn t with
  | mk status command =>
    rw [hx] at hs
    cases hs
    rfl

def Inside (W : (k : K) → R k → Prop) (t : T) (w : World T Q K R X) : Prop := ∃ ws c, Changed W ws ∧ At t ws c w

theorem Inside.stable : D.Stable t (Inside W t) := .exists fun _ => .exists fun _ => .and .const At.stable

omit [DecidableEq Q] [DecidableEq K] in
theorem Inside.changes {w : World T Q K R X} (h : Inside W t w) : Changes W t w := by
  obtain ⟨ws, c, hws, hat⟩ := h
  unfold Changes
  rw [hat.workspace]
  exact hws

theorem Changes.exec {w : World T Q K R X} {o : Stmt Q K R} {r : o.Res} {db : Database T Q K R} (ho : o.IsInner)
    (hw : ∀ k r, o.Writes k r → W k r) (h : Changes W t w) (hx : w.db.exec t o = some (r, db)) :
    Changes W t ⟨db, w.env⟩ := by
  intro k ch hk
  rcases Database.exec_change ho hx hk with hold | hsame | hnew
  · exact h k ch hold
  · exact .inl hsame
  · exact .inr (hw k _ hnew)

namespace WriteRules

variable (H : WriteRules D t W)

include H

theorem inner {p : Client Q K R ExtRes E α} (hp : InnerWrites W p) :
    D.Triple t (Inside W t) p (fun _ => Inside W t) fun _ => Inside W t := by
  refine .uses hp Inside.stable ?_ fun w w' hi _ hc => H.calm.crash hi hc.1 hc.2
  rintro a r w w' ⟨hwrites, ho⟩ hi hin ⟨h, -⟩
  cases h with
  | answer hx =>
    have hworks := Database.exec_works ho hx
    refine ⟨H.calm.works hi hworks, _, _, hin.changes.exec ho hwrites hx, .of_inProgress ?_⟩
    obtain ⟨ws, c, -, hat⟩ := hin
    exact hworks.status.trans (by rw [hat.txn])
  | refuse _ => exact ⟨H.calm.works hi (Database.works_refl _ _), hin⟩
  | lostCommit => exact ho.elim
  | lostRollback => exact ho.elim
  | ext hx =>
    obtain ⟨ws, c, hws, hat⟩ := hin
    exact ⟨H.external hi hx, ws, c, hws, hat.workspace, hat.txn⟩

theorem commit_allows {w : World T Q K R X} (hi : D.inv w) (h : Changes W t w) :
    D.Allows t w ⟨w.db.commit t, w.env⟩ ∧ Changes W t ⟨w.db.commit t, w.env⟩ := by
  by_cases hs : (w.db.txn t).status = .inProgress
  · refine ⟨H.commits hi (.of_inProgress hs) h, ?_⟩
    unfold Changes
    rw [Database.workspace_commit hs]
    exact Changed.empty
  · have hsame : w.db.commit t = w.db := if_neg hs
    rw [hsame]
    exact ⟨H.calm.works hi (Database.works_refl _ _), h⟩

theorem rollback_allows {w : World T Q K R X} (hi : D.inv w) (h : Changes W t w) :
    D.Allows t w ⟨w.db.rollback t, w.env⟩ ∧ Changes W t ⟨w.db.rollback t, w.env⟩ := by
  refine ⟨H.calm.rollback hi, ?_⟩
  by_cases hs : (w.db.txn t).status = .inProgress
  · unfold Changes
    rw [Database.workspace_rollback hs]
    exact Changed.empty
  · have hsame : w.db.rollback t = w.db := if_neg hs
    rw [hsame]
    exact h

theorem call {p : Client Q K R ExtRes E α} (hp : OnlyWrites W p) :
    D.Triple t (Changes W t) p (fun _ => Changes W t) fun _ => Changes W t := by
  refine .uses hp Changes.stable ?_ fun w w' hi _ hc => H.calm.crash hi hc.1 hc.2
  rintro a r w w' hwrites hi hin ⟨h, -⟩
  cases h with
  | @answer _ o r db hx =>
    by_cases ho : o.IsInner
    · exact ⟨H.calm.works hi (Database.exec_works ho hx), hin.exec ho hwrites hx⟩
    · cases o with
      | begin =>
        cases hx
        exact ⟨H.starts hi, hin⟩
      | commit =>
        cases hx
        exact H.commit_allows hi hin
      | rollback =>
        cases hx
        exact H.rollback_allows hi hin
      | _ => exact absurd trivial ho
  | refuse _ => exact ⟨H.calm.works hi (Database.works_refl _ _), hin⟩
  | lostCommit => exact H.commit_allows hi hin
  | lostRollback => exact H.rollback_allows hi hin
  | ext hx => exact ⟨H.external hi hx, hin⟩

end WriteRules

end ReadCommitted
