import Marketplace.Concurrent.TwoRuns

/-!
What the run of a client that is alone on the shared state answers and leaves.
-/

namespace Concurrent.Prog

variable {Op σ : Type} {Res : Op → Type} {E α β : Type}

def Ends (Q : α → σ → Prop) (X : E → σ → Prop) : Except E α × σ → Prop
  | (.ok a, s) => Q a s
  | (.error e, s) => X e s

/-- From every state in which `P` holds, the run ends with a value and `Q`, or with an error and `X`. -/
def Solo (step : (o : Op) → σ → Except E (Res o) × σ) (P : σ → Prop) (p : Prog Op Res E α) (Q : α → σ → Prop)
    (X : E → σ → Prop) : Prop := ∀ s, P s → Ends Q X (p.run step s)

theorem Ends.conseq {Q Q' : α → σ → Prop} {X Y : E → σ → Prop} {x : Except E α × σ} (h : Ends Q X x)
    (hQ : ∀ a s, Q a s → Q' a s) (hX : ∀ e s, X e s → Y e s) : Ends Q' Y x := by
  obtain ⟨r, s⟩ := x
  cases r with
  | ok a => exact hQ a s h
  | error e => exact hX e s h

namespace Solo

variable {step : (o : Op) → σ → Except E (Res o) × σ} {P P' : σ → Prop} {Q Q' : α → σ → Prop} {R : β → σ → Prop}
  {X Y : E → σ → Prop} {p : Prog Op Res E α}

theorem pure {a : α} (h : ∀ s, P s → Q a s) : Solo step P (.done (.ok a)) Q X := h

theorem throw {e : E} (h : ∀ s, P s → X e s) : Solo step P (.done (.error e) : Prog Op Res E α) Q X := h

theorem perform {o : Op} {Q : Res o → σ → Prop} (h : ∀ s, P s → Ends Q X (step o s)) :
    Solo step P (.perform o) Q X := h

theorem conseq (h : Solo step P p Q X) (hP : ∀ s, P' s → P s) (hQ : ∀ a s, Q a s → Q' a s)
    (hX : ∀ e s, X e s → Y e s) : Solo step P' p Q' Y := fun s hp => (h s (hP s hp)).conseq hQ hX

theorem pre (h : Solo step P p Q X) (hP : ∀ s, P' s → P s) : Solo step P' p Q X := fun s hp => h s (hP s hp)

theorem pure_pre {φ : Prop} (h : φ → Solo step P p Q X) : Solo step (fun s => φ ∧ P s) p Q X :=
  fun s hp => h hp.1 s hp.2

/-- The answer is known: what follows is the rest of the program on that answer. -/
theorem bind_eq {a : α} {S : σ → Prop} {f : α → Prog Op Res E β} (hp : Solo step P p (fun x s => x = a ∧ S s) X)
    (hf : Solo step S (f a) R X) : Solo step P (p.bind f) R X := by
  intro s h
  have hends := hp s h
  rw [run_bind]
  generalize p.run step s = x at hends ⊢
  obtain ⟨r, s₁⟩ := x
  cases r with
  | ok b =>
    obtain ⟨rfl, hs⟩ := hends
    exact hf s₁ hs
  | error e => exact hends

theorem bind {f : α → Prog Op Res E β} (hp : Solo step P p Q X) (hf : ∀ a, Solo step (Q a) (f a) R X) :
    Solo step P (p.bind f) R X := by
  intro s h
  have hends := hp s h
  rw [run_bind]
  generalize p.run step s = x at hends ⊢
  obtain ⟨r, s₁⟩ := x
  cases r with
  | ok a => exact hf a s₁ hends
  | error e => exact hends

theorem handle {h : E → Prog Op Res E α} (hp : Solo step P p Q Y) (hh : ∀ e, Solo step (Y e) (h e) Q X) :
    Solo step P (p.handle h) Q X := by
  intro s hP
  have hends := hp s hP
  rw [run_handle]
  generalize p.run step s = x at hends ⊢
  obtain ⟨r, s₁⟩ := x
  cases r with
  | ok a => exact hends
  | error e => exact hh e s₁ hends

theorem answers {a : α} {s : σ} (h : Solo step P p (fun x _ => x = a) fun _ _ => False) (hs : P s) :
    (p.run step s).1 = .ok a := by
  have hends := h s hs
  generalize p.run step s = x at hends ⊢
  obtain ⟨r, s₁⟩ := x
  cases r with
  | ok b => exact congrArg Except.ok hends
  | error e => exact hends.elim

theorem reachable {T : Type} [DecidableEq T] {M : Machine T σ Op Res E} {t : T} {c : Config T σ Op Res E α}
    (h : Solo step P p Q X) (hstep : ∀ o s, M.perform t o s (step o s).1 (step o s).2) (hc : c.prog t = some p)
    (hp : P c.shared) :
    ∃ r d, Ends Q X (r, d.shared) ∧ M.Reachable c d ∧ d.outcome t = some r ∧ ∀ u, u ≠ t → d.prog u = c.prog u :=
  ⟨_, _, h _ hp, run_reachable hstep p c hc, Config.outcome_eq_some.mpr (Function.update_self ..),
    fun _ hu => Function.update_of_ne hu _ _⟩

end Solo

end Concurrent.Prog
