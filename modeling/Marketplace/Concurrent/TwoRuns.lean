import Marketplace.Concurrent.Machine

/-!
A client that is alone on the shared state, and what two of its runs from different states have
in common.
-/

namespace Concurrent

namespace Prog

variable {Op σ : Type} {Res : Op → Type} {E α α' β β' : Type}

/-- `step` is what an operation answers and leaves. -/
def run (step : (o : Op) → σ → Except E (Res o) × σ) : Prog Op Res E α → σ → Except E α × σ
  | .done r, s => (r, s)
  | .call o next, s => (next (step o s).1).run step (step o s).2

variable {step : (o : Op) → σ → Except E (Res o) × σ}

theorem run_bind (p : Prog Op Res E α) (f : α → Prog Op Res E β) (s : σ) : (p.bind f).run step s =
    match p.run step s with
    | (.ok a, s') => (f a).run step s'
    | (.error e, s') => (.error e, s') := by
  induction p generalizing s with
  | done r => cases r <;> rfl
  | call o next ih => exact ih _ _

theorem run_handle (p : Prog Op Res E α) (h : E → Prog Op Res E α) (s : σ) : (p.handle h).run step s =
    match p.run step s with
    | (.ok a, s') => (.ok a, s')
    | (.error e, s') => (h e).run step s' := by
  induction p generalizing s with
  | done r => cases r <;> rfl
  | call o next ih => exact ih _ _

theorem run_reachable {T : Type} [DecidableEq T] {M : Machine T σ Op Res E} {t : T}
    (hstep : ∀ o s, M.perform t o s (step o s).1 (step o s).2) (p : Prog Op Res E α) (c : Config T σ Op Res E α)
    (hc : c.prog t = some p) :
    M.Reachable c ⟨(p.run step c.shared).2, Function.update c.prog t (some (.done (p.run step c.shared).1))⟩ := by
  induction p generalizing c with
  | done r =>
    simp only [run]
    rw [← hc, Function.update_eq_self]
    exact .refl
  | call o next ih =>
    have hrest := ih (step o c.shared).1 ⟨(step o c.shared).2, Function.update c.prog t (some (next _))⟩
      (Function.update_self ..)
    simp only [Function.update_idem] at hrest
    exact .head (.call hc (hstep o c.shared)) hrest

/-- Both results are values, or both are the same error. -/
def Agree (Q : α → α' → σ → σ → Prop) (X : σ → σ → Prop) : Except E α × σ → Except E α' × σ → Prop
  | (.ok a, s), (.ok a', s') => Q a a' s s'
  | (.error e, s), (.error e', s') => e' = e ∧ X s s'
  | _, _ => False

def Together (step : (o : Op) → σ → Except E (Res o) × σ) (P : σ → σ → Prop) (p : Prog Op Res E α)
    (p' : Prog Op Res E α') (Q : α → α' → σ → σ → Prop) (X : σ → σ → Prop) : Prop :=
  ∀ s s', P s s' → Agree Q X (p.run step s) (p'.run step s')

theorem Agree.conseq {Q R : α → α' → σ → σ → Prop} {X Y : σ → σ → Prop} {x : Except E α × σ} {x' : Except E α' × σ}
    (h : Agree Q X x x') (hQ : ∀ a a' s s', Q a a' s s' → R a a' s s') (hX : ∀ s s', X s s' → Y s s') :
    Agree R Y x x' := by
  obtain ⟨r, s⟩ := x
  obtain ⟨r', s'⟩ := x'
  cases r with
  | ok a =>
    cases r' with
    | ok a' => exact hQ a a' s s' h
    | error e' => exact h
  | error e =>
    cases r' with
    | ok a' => exact h
    | error e' => exact ⟨h.1, hX s s' h.2⟩

namespace Together

variable {P P' : σ → σ → Prop} {Q Q' : α → α' → σ → σ → Prop} {R : β → β' → σ → σ → Prop} {X X' : σ → σ → Prop}
  {p : Prog Op Res E α} {p' : Prog Op Res E α'}

theorem pure {a : α} {a' : α'} (h : ∀ s s', P s s' → Q a a' s s') :
    Together step P (.done (.ok a)) (.done (.ok a')) Q X :=
  h

theorem throw {e : E} (h : ∀ s s', P s s' → X s s') :
    Together step P (.done (.error e) : Prog Op Res E α) (.done (.error e) : Prog Op Res E α') Q X :=
  fun s s' hp => ⟨rfl, h s s' hp⟩

theorem perform {o o' : Op} {Q : Res o → Res o' → σ → σ → Prop}
    (h : ∀ s s', P s s' → Agree Q X (step o s) (step o' s')) :
    Together step P (.perform o) (.perform o') Q X := h

theorem conseq (h : Together step P p p' Q X) (hP : ∀ s s', P' s s' → P s s')
    (hQ : ∀ a a' s s', Q a a' s s' → Q' a a' s s') (hX : ∀ s s', X s s' → X' s s') :
    Together step P' p p' Q' X' := fun s s' hp => (h s s' (hP s s' hp)).conseq hQ hX

theorem pre (h : Together step P p p' Q X) (hP : ∀ s s', P' s s' → P s s') : Together step P' p p' Q X :=
  fun s s' hp => h s s' (hP s s' hp)

theorem pure_pre {φ : Prop} (h : φ → Together step P p p' Q X) :
    Together step (fun s s' => φ ∧ P s s') p p' Q X := fun s s' hp => h hp.1 s s' hp.2

theorem bind {f : α → Prog Op Res E β} {f' : α' → Prog Op Res E β'} (hp : Together step P p p' Q X)
    (hf : ∀ a a', Together step (Q a a') (f a) (f' a') R X) : Together step P (p.bind f) (p'.bind f') R X := by
  intro s s' h
  have hagree := hp s s' h
  rw [run_bind, run_bind]
  generalize p.run step s = x at hagree ⊢
  generalize p'.run step s' = x' at hagree ⊢
  obtain ⟨r, s₁⟩ := x
  obtain ⟨r', s₁'⟩ := x'
  cases r with
  | ok a =>
    cases r' with
    | ok a' => exact hf a a' s₁ s₁' hagree
    | error e' => exact hagree.elim
  | error e =>
    cases r' with
    | ok a' => exact hagree.elim
    | error e' => exact hagree

theorem handle {h h' : E → Prog Op Res E α} {p p' : Prog Op Res E α} {Q : α → α → σ → σ → Prop}
    (hp : Together step P p p' Q X') (hh : ∀ e, Together step X' (h e) (h' e) Q X) :
    Together step P (p.handle h) (p'.handle h') Q X := by
  intro s s' hP
  have hagree := hp s s' hP
  rw [run_handle, run_handle]
  generalize p.run step s = x at hagree ⊢
  generalize p'.run step s' = x' at hagree ⊢
  obtain ⟨r, s₁⟩ := x
  obtain ⟨r', s₁'⟩ := x'
  cases r with
  | ok a =>
    cases r' with
    | ok a' => exact hagree
    | error e' => exact hagree.elim
  | error e =>
    cases r' with
    | ok a' => exact hagree.elim
    | error e' =>
      obtain ⟨rfl, hx⟩ := hagree
      exact hh _ s₁ s₁' hx

end Together

end Prog

end Concurrent
