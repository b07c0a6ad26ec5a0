import Mathlib.Logic.Relation
import Marketplace.Concurrent.Program

namespace Concurrent

/-- What the operations of the clients `T` do to a shared state `σ`. An operation that no
transition allows is blocked, and `frame t` is what the others leave alone. -/
structure Machine (T σ Op : Type) (Res : Op → Type) (E : Type) where
  perform : T → (o : Op) → σ → Except E (Res o) → σ → Prop
  crash : T → σ → σ → Prop
  frame : T → σ → σ → Prop
  frame_refl : ∀ t s, frame t s s
  frame_trans : ∀ {t s s' s''}, frame t s s' → frame t s' s'' → frame t s s''
  perform_frame : ∀ {t t' o s r s'}, t ≠ t' → perform t o s r s' → frame t' s s'
  crash_frame : ∀ {t t' s s'}, t ≠ t' → crash t s s' → frame t' s s'

structure Config (T σ Op : Type) (Res : Op → Type) (E α : Type) where
  shared : σ
  -- `none` is a crashed client
  prog : T → Option (Prog Op Res E α)

variable {T σ Op : Type} {Res : Op → Type} {E α : Type}

def Config.outcome (c : Config T σ Op Res E α) (t : T) : Option (Except E α) :=
  match c.prog t with
  | some (.done r) => some r
  | _ => none

theorem Config.outcome_eq_some {c : Config T σ Op Res E α} {t : T} {r : Except E α} :
    c.outcome t = some r ↔ c.prog t = some (.done r) := by
  unfold outcome
  split
  · rename_i r' hr
    simp [hr]
  · rename_i hn
    simp only [reduceCtorEq, false_iff]
    exact hn r

def Config.Ended (c : Config T σ Op Res E α) (t : T) : Prop := c.prog t = none ∨ ∃ r, c.outcome t = some r

variable [DecidableEq T]

def Config.start (s : σ) (code : T → Prog Op Res E α) : Config T σ Op Res E α :=
  ⟨s, fun t => some (code t)⟩

namespace Machine

variable (M : Machine T σ Op Res E)

inductive Step : Config T σ Op Res E α → Config T σ Op Res E α → Prop
  | call {c : Config T σ Op Res E α} {t : T} {o : Op} {next : Except E (Res o) → Prog Op Res E α}
      {r : Except E (Res o)} {s : σ} (hp : c.prog t = some (.call o next))
      (hs : M.perform t o c.shared r s) : Step c ⟨s, Function.update c.prog t (some (next r))⟩
  | crash {c : Config T σ Op Res E α} {t : T} {o : Op} {next : Except E (Res o) → Prog Op Res E α}
      {s : σ} (hp : c.prog t = some (.call o next))
      (hs : M.crash t c.shared s) : Step c ⟨s, Function.update c.prog t none⟩

def Reachable : Config T σ Op Res E α → Config T σ Op Res E α → Prop :=
  Relation.ReflTransGen M.Step

def restrict (allowed : T → (o : Op) → σ → Except E (Res o) → σ → Prop) (mayCrash : T → σ → σ → Prop) :
    Machine T σ Op Res E where
  perform t o s r s' := M.perform t o s r s' ∧ allowed t o s r s'
  crash t s s' := M.crash t s s' ∧ mayCrash t s s'
  frame := M.frame
  frame_refl := M.frame_refl
  frame_trans := M.frame_trans
  perform_frame hne h := M.perform_frame hne h.1
  crash_frame hne h := M.crash_frame hne h.1

abbrev unrestricted : Machine T σ Op Res E := M.restrict (fun _ _ _ _ _ => True) fun _ _ _ => True

variable {M}

/-- A run is one of another machine that has every transition of the states in the run. -/
theorem Reachable.map {M' : Machine T σ Op Res E} {J : σ → Prop} {c d : Config T σ Op Res E α}
    (hJ : ∀ d, M.Reachable c d → J d.shared)
    (hp : ∀ {t o s r s'}, J s → J s' → M.perform t o s r s' → M'.perform t o s r s')
    (hc : ∀ {t s s'}, J s → J s' → M.crash t s s' → M'.crash t s s') (h : M.Reachable c d) : M'.Reachable c d := by
  induction h with
  | refl => exact .refl
  | @tail d e hd hs ih =>
    refine ih.tail ?_
    have hJd := hJ d hd
    have hJe := hJ e (hd.tail hs)
    cases hs with
    | call hprog hs => exact .call hprog (hp hJd hJe hs)
    | crash hprog hs => exact .crash hprog (hc hJd hJe hs)

section Restricted

variable {allowed : T → (o : Op) → σ → Except E (Res o) → σ → Prop} {mayCrash : T → σ → σ → Prop}
  {c d : Config T σ Op Res E α}

theorem Reachable.of_restrict (h : (M.restrict allowed mayCrash).Reachable c d) : M.Reachable c d :=
  Reachable.map (M := M.restrict allowed mayCrash) (J := fun _ => True) (fun _ _ => trivial)
    (fun _ _ hs => hs.1) (fun _ _ hs => hs.1) h

theorem Reachable.restrict {J : σ → Prop} (hJ : ∀ d, M.Reachable c d → J d.shared)
    (hp : ∀ {t o s r s'}, J s → J s' → allowed t o s r s') (hc : ∀ {t s s'}, J s → J s' → mayCrash t s s')
    (h : M.Reachable c d) : (M.restrict allowed mayCrash).Reachable c d :=
  h.map hJ (fun hs hs' hperform => ⟨hperform, hp hs hs'⟩) fun hs hs' hcrash => ⟨hcrash, hc hs hs'⟩

theorem Reachable.unrestricted (h : M.Reachable c d) : M.unrestricted.Reachable c d :=
  h.restrict (J := fun _ => True) (fun _ _ => trivial) (fun _ _ => trivial) fun _ _ => trivial

end Restricted

theorem Reachable.started {s : σ} {code : T → Prog Op Res E α} {c : Config T σ Op Res E α}
    (h : M.Reachable (.start s code) c) (t : T) (p : Prog Op Res E α) (hp : c.prog t = some p) :
    p = code t ∧ M.frame t s c.shared ∨ p.Later (code t) := by
  induction h generalizing p with
  | refl => exact .inl ⟨(Option.some.inj hp).symm, M.frame_refl t s⟩
  | @tail c d _ hs ih =>
    cases hs with
    | @call t' o next r s' hprog hperform =>
      by_cases ht : t = t'
      · subst ht
        simp only [Function.update_self, Option.some.injEq] at hp
        subst hp
        rcases ih _ hprog with ⟨hcode, -⟩ | hlater
        · exact .inr (hcode ▸ .single (.call o next r))
        · exact .inr (.head (.call o next r) hlater)
      · simp only [Function.update_of_ne ht] at hp
        exact (ih p hp).imp_left fun ⟨hcode, hframe⟩ =>
          ⟨hcode, M.frame_trans hframe (M.perform_frame (Ne.symm ht) hperform)⟩
    | @crash t' o next s' hprog hcrash =>
      by_cases ht : t = t'
      · subst ht
        simp only [Function.update_self, reduceCtorEq] at hp
      · simp only [Function.update_of_ne ht] at hp
        exact (ih p hp).imp_left fun ⟨hcode, hframe⟩ =>
          ⟨hcode, M.frame_trans hframe (M.crash_frame (Ne.symm ht) hcrash)⟩

theorem Reachable.unstarted {s : σ} {code : T → Prog Op Res E α} {c : Config T σ Op Res E α}
    (h : M.Reachable (.start s code) c) {t : T} (ht : c.prog t = some (code t)) : M.frame t s c.shared := by
  rcases h.started t _ ht with ⟨-, hframe⟩ | hlater
  · exact hframe
  · exact absurd hlater (Prog.not_later_self _)

end Machine

end Concurrent
