import Mathlib.Order.WithBot
import Marketplace.ReadCommitted.DrawnIds
import Marketplace.ReadCommitted.PolicyRules

/-!
Who waits for whom. A row that one transaction has locked or inserted makes another wait that wants to
lock it or to insert the same key; a foreign key asks for a weaker lock on the row it leads to.
-/

namespace ReadCommitted

open Concurrent

-- PostgreSQL's row locks, from the weakest
inductive LockMode
  | keyShare | share | noKeyUpdate | update
  deriving DecidableEq, Repr

def LockMode.conflicts : LockMode → LockMode → Bool
  | .keyShare, mode => mode = .update
  | .share, mode => mode = .noKeyUpdate || mode = .update
  | .noKeyUpdate, mode => mode ≠ .keyShare
  | .update, _ => true

/-- The mode in which the statements lock the rows of a key, and the rows that a row's foreign keys lead to. -/
structure LockScheme (K : Type) (R : K → Type) where
  mode : K → LockMode
  references : (k : K) → R k → List K

variable {T Q K L X Ext : Type} {R : K → Type} {ExtRes : Ext → Type} {E α : Type}

def Stmt.requests : Stmt Q K R → Option K
  | .lock k => some k
  | .reserve k _ => some k
  | _ => none

def Action.requests : Action Q K R Ext → Option K
  | .sql o => o.requests
  | .ext _ => none

variable [DecidableEq T] [DecidableEq Q] [DecidableEq K]

/-- `t` waits for `u`. The check of a foreign key that a statement has set waits while `u` holds the row it
leads to in a conflicting mode, and holds a key-share lock on that row from then on. -/
inductive WaitsFor (S : LockScheme K R) (c : Config T (World T Q K R X) (Action Q K R Ext) (Action.Res ExtRes) E α)
    (t u : T) : Prop
  | row {o : Stmt Q K R} {next k} (hprog : c.prog t = some (.call (.sql o) next)) (hk : o.requests = some k)
    (hwaits : c.shared.db.exec t o = none) (hheld : c.shared.db.Holds u k)
  | foreignKey {o : Stmt Q K R} {next k j} {r : R k} (hprog : c.prog t = some (.call (.sql o) next))
    (hwrites : o.Writes k r) (hj : j ∈ S.references k r)
    (hset : ∀ old, c.shared.db.committed k = some old → j ∉ S.references k old) (hheld : c.shared.db.Holds u j)
    (hmode : (S.mode j).conflicts .keyShare) (hne : t ≠ u)
  | keyShare {o : Stmt Q K R} {next k j} {r : R j} (hprog : c.prog t = some (.call (.sql o) next))
    (hk : o.requests = some k)
    (hmode : (S.mode k).conflicts .keyShare) (hheld : c.shared.db.held j = some (u, r)) (hj : k ∈ S.references j r)
    (hset : ∀ old, c.shared.db.committed j = some old → k ∉ S.references j old) (hne : t ≠ u)

def Acyclic (waits : T → T → Prop) : Prop := ∀ t, ¬Relation.TransGen waits t t

omit [DecidableEq T] in
theorem acyclic_of_increasing {ρ : Type} [Preorder ρ] {waits : T → T → Prop} (rank : T → ρ)
    (h : ∀ t u, waits t u → rank t < rank u) : Acyclic waits := by
  have hpath : ∀ t u, Relation.TransGen waits t u → rank t < rank u := by
    intro t u hu
    induction hu with
    | single hu => exact h _ _ hu
    | tail _ hu ih => exact ih.trans (h _ _ hu)
  exact fun t ht => lt_irrefl _ (hpath t t ht)

section Order

variable {ρ : Type} [Preorder ρ] {S : LockScheme K R} {rank : K → ρ} {label : (k : K) → R k → L}
  {c : Config T (World T Q K R X) (Action Q K R Ext) (Action.Res ExtRes) E α}

/-- A row that is not held yet is requested only while those held have a lower rank. -/
def InOrder (rank : K → ρ) (z : Phase Q K L) (a : Action Q K R Ext) : Prop :=
  ∀ k, a.requests = some k → z.held k ∨ ∀ j, z.held j → rank j < rank k

def blockedOn (c : Config T (World T Q K R X) (Action Q K R Ext) (Action.Res ExtRes) E α) (t : T) : Option K :=
  match c.prog t with
  | some (.call (.sql o) _) => if (c.shared.db.exec t o).isNone then o.requests else none
  | _ => none

theorem not_holds_requested {db : Database T Q K R} {t : T} {o : Stmt Q K R} {k : K} (hk : o.requests = some k)
    (hwaits : db.exec t o = none) : ¬db.Holds t k := by
  rintro ⟨r, hr⟩
  cases o with
  | lock j =>
    cases hk
    simp [Database.exec, hr] at hwaits
  | reserve j x =>
    cases hk
    simp [Database.exec, hr] at hwaits
  | _ => cases hk

theorem blockedOn_eq_some {t : T} {k : K} (h : blockedOn c t = some k) :
    ∃ o next, c.prog t = some (.call (.sql o) next) ∧ o.requests = some k ∧ c.shared.db.exec t o = none := by
  unfold blockedOn at h
  split at h
  · rename_i o next hprog
    split at h
    · rename_i hnone
      exact ⟨o, next, hprog, h, Option.isNone_iff_eq_none.mp hnone⟩
    · cases h
  · cases h

/-- Where nothing is locked against foreign keys and every client goes up in rank, nobody waits in a circle. -/
theorem acyclic_of_inOrder {M : Machine T X Ext ExtRes E} {e : E} {code : T → Client Q K R ExtRes E α}
    {G : Except E α → Phase Q K L → Prop} {w : World T Q K R X} (hw : w.db.Quiescent)
    (hmode : ∀ k r, ∀ j ∈ S.references k r, (S.mode j).conflicts .keyShare = false)
    (hcode : ∀ t, Follows (.of label (InOrder rank)) G .start (code t))
    (h : (withDatabase M e).Reachable (.start w code) c) : Acyclic (WaitsFor S c) := by
  obtain ⟨z, hphased, -, hprogs⟩ := follows_reachable Policy.of_draws hcode hw (fun _ _ _ hk _ => by cases hk)
    (fun _ _ _ _ => trivial) h
  have hordered : ∀ t k j, blockedOn c t = some k → c.shared.db.Holds t j → rank j < rank k := by
    intro t k j hk hj
    obtain ⟨o, next, hprog, hrequests, hwaits⟩ := blockedOn_eq_some hk
    obtain ⟨hasks, -⟩ := hprogs t _ hprog
    rcases hasks k hrequests with hk | hlower
    · exact absurd (((hphased.tracks t).held k).mp hk) (not_holds_requested hrequests hwaits)
    · exact hlower j (((hphased.tracks t).held j).mpr hj)
  refine acyclic_of_increasing (fun t => (blockedOn c t).elim ⊤ fun k => (rank k : WithTop ρ)) fun t u hwaits => ?_
  cases hwaits with
  | @row o next k hprog hk hwaits hheld =>
    have ht : blockedOn c t = some k := by simp [blockedOn, hprog, hwaits, hk]
    rw [ht]
    cases hu : blockedOn c u with
    | none => exact WithTop.coe_lt_top _
    | some j => exact WithTop.coe_lt_coe.mpr (hordered u j k hu hheld)
  | foreignKey _ _ hj _ _ hconflicts _ =>
    rw [hmode _ _ _ hj] at hconflicts
    cases hconflicts
  | keyShare _ _ hconflicts _ hj _ _ =>
    rw [hmode _ _ _ hj] at hconflicts
    cases hconflicts

end Order

end ReadCommitted
