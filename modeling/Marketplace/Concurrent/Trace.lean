import Marketplace.Concurrent.RelyGuarantee
import Marketplace.Concurrent.TwoRuns

/-!
A client that is alone on the shared state, with all that its operations answered.
-/

namespace Concurrent

structure Performed (σ Op : Type) (Res : Op → Type) (E : Type) where
  op : Op
  before : σ
  answer : Except E (Res op)
  after : σ

variable {T σ Op : Type} {Res : Op → Type} {E α β : Type}

def Performed.Failed (step : Performed σ Op Res E) : Prop := ∃ e, step.answer = .error e

/-- `M.Runs t p s steps r s'`: client `t` performs `steps` and ends with `r`. -/
inductive Machine.Runs (M : Machine T σ Op Res E) (t : T) :
    Prog Op Res E α → σ → List (Performed σ Op Res E) → Except E α → σ → Prop
  | done {r : Except E α} {s : σ} : M.Runs t (.done r) s [] r s
  | call {o : Op} {next : Except E (Res o) → Prog Op Res E α} {s s' s'' : σ} {r : Except E (Res o)}
      {steps : List (Performed σ Op Res E)} {result : Except E α} (h : M.perform t o s r s')
      (hrest : M.Runs t (next r) s' steps result s'') : M.Runs t (.call o next) s (⟨o, s, r, s'⟩ :: steps) result s''

namespace Machine.Runs

variable {M : Machine T σ Op Res E} {t : T} {s s' : σ} {steps : List (Performed σ Op Res E)}

theorem done_eq {r r' : Except E α} (h : M.Runs t (.done r) s steps r' s') : steps = [] ∧ r' = r ∧ s' = s := by
  cases h with
  | done => exact ⟨rfl, rfl, rfl⟩

theorem perform_eq {o : Op} {r : Except E (Res o)} (h : M.Runs t (Prog.perform o) s steps r s') :
    steps = [⟨o, s, r, s'⟩] ∧ M.perform t o s r s' := by
  cases h with
  | call hperform hrest =>
    cases hrest with
    | done => exact ⟨rfl, hperform⟩

theorem bind_cases {p : Prog Op Res E α} {f : α → Prog Op Res E β} {r : Except E β}
    (h : M.Runs t (p.bind f) s steps r s') :
    (∃ e, r = .error e ∧ M.Runs t p s steps (.error e) s') ∨
    ∃ a s₁ first rest, steps = first ++ rest ∧ M.Runs t p s first (.ok a) s₁ ∧ M.Runs t (f a) s₁ rest r s' := by
  induction p generalizing s steps with
  | done x =>
    cases x with
    | ok a => exact .inr ⟨a, s, [], steps, rfl, .done, h⟩
    | error e =>
      cases h with
      | done => exact .inl ⟨e, rfl, .done⟩
  | call o next ih =>
    cases h with
    | call hperform hrest =>
      rcases ih _ hrest with ⟨e, hr, hp⟩ | ⟨a, s₁, first, rest, rfl, hp, hf⟩
      · exact .inl ⟨e, hr, .call hperform hp⟩
      · exact .inr ⟨a, s₁, _ :: first, rest, rfl, .call hperform hp, hf⟩

theorem handle_cases {p : Prog Op Res E α} {f : E → Prog Op Res E α} {r : Except E α}
    (h : M.Runs t (p.handle f) s steps r s') :
    (∃ a, r = .ok a ∧ M.Runs t p s steps (.ok a) s') ∨
    ∃ e s₁ first rest, steps = first ++ rest ∧ M.Runs t p s first (.error e) s₁ ∧ M.Runs t (f e) s₁ rest r s' := by
  induction p generalizing s steps with
  | done x =>
    cases x with
    | ok a =>
      cases h with
      | done => exact .inl ⟨a, rfl, .done⟩
    | error e => exact .inr ⟨e, s, [], steps, rfl, .done, h⟩
  | call o next ih =>
    cases h with
    | call hperform hrest =>
      rcases ih _ hrest with ⟨a, hr, hp⟩ | ⟨e, s₁, first, rest, rfl, hp, hf⟩
      · exact .inl ⟨a, hr, .call hperform hp⟩
      · exact .inr ⟨e, s₁, _ :: first, rest, rfl, .call hperform hp, hf⟩

section Steps

variable {p : Prog Op Res E α} {r : Except E α} {S : Op → Prop}

theorem performs (h : M.Runs t p s steps r s') :
    ∀ step ∈ steps, M.perform t step.op step.before step.answer step.after := by
  induction h with
  | done => simp
  | call hperform _ ih => exact List.forall_mem_cons.mpr ⟨hperform, ih⟩

theorem uses (hp : p.Uses S) (h : M.Runs t p s steps r s') : ∀ step ∈ steps, S step.op := by
  induction h with
  | done => simp
  | call hperform _ ih => exact List.forall_mem_cons.mpr ⟨hp.1, ih (hp.2 _)⟩

theorem kept {P : σ → Prop} (h : M.Runs t p s steps r s') (hsteps : ∀ step ∈ steps, P step.before → P step.after)
    (hs : P s) : P s' := by
  induction h with
  | done => exact hs
  | call hperform _ ih =>
    obtain ⟨hfirst, hrest⟩ := List.forall_mem_cons.mp hsteps
    exact ih hrest (hfirst hs)

theorem unrestricted [DecidableEq T] (h : M.Runs t p s steps r s') : M.unrestricted.Runs t p s steps r s' := by
  induction h with
  | done => exact .done
  | call hperform _ ih => exact .call ⟨hperform, trivial⟩ ih

theorem failed {S : (o : Op) → Except E (Res o) → Prop} {e : E} (hp : p.FailsOnly S)
    (h : M.Runs t p s steps (.error e) s') : ∃ step ∈ steps, S step.op step.answer := by
  generalize hr : (Except.error e : Except E α) = r at h
  induction h with
  | done =>
    subst hr
    exact hp.elim
  | @call o next s s' s'' r steps result hperform hrest ih =>
    rcases hp r with hstep | hnext
    · exact ⟨_, List.mem_cons_self, hstep⟩
    · obtain ⟨step, hstep, hS⟩ := ih hnext hr
      exact ⟨step, List.mem_cons_of_mem _ hstep, hS⟩

theorem fails (hp : p.Fails) (h : M.Runs t p s steps r s') : ∃ e, r = .error e := by
  induction h with
  | @done r s =>
    cases r with
    | ok a => exact hp.elim
    | error e => exact ⟨e, rfl⟩
  | call hperform _ ih => exact ih (hp _)

theorem rethrown (hp : p.Rethrows S) (h : M.Runs t p s steps r s') (hfailed : ∃ step ∈ steps, S step.op ∧ step.Failed) :
    ∃ e, r = .error e := by
  induction h with
  | done => simp at hfailed
  | @call o next s s' s'' r steps result hperform hrest ih =>
    obtain ⟨step, hstep, hS, e, hanswer⟩ := hfailed
    rcases List.mem_cons.mp hstep with rfl | hstep
    · obtain rfl : r = .error e := hanswer
      exact hrest.fails (hp.1 hS e)
    · exact ih (hp.2 r) ⟨step, hstep, hS, e, hanswer⟩

end Steps

end Machine.Runs

def Machine.answering (A : (o : Op) → Except E (Res o) → Prop) : Machine T Unit Op Res E where
  perform _ o _ r _ := A o r
  crash _ _ _ := True
  frame _ _ _ := True
  frame_refl _ _ := trivial
  frame_trans _ _ := trivial
  perform_frame _ _ := trivial
  crash_frame _ _ := trivial

/-- What the operations of a client answer in a run, whatever the others do in between, they may answer a
client of which nothing else is known. -/
theorem Machine.Reachable.answering [DecidableEq T] {M : Machine T σ Op Res E} {A : (o : Op) → Except E (Res o) → Prop}
    (hA : ∀ {t o s r s'}, M.perform t o s r s' → A o r) {s : σ} {code : T → Prog Op Res E α} {d : Config T σ Op Res E α}
    (h : M.Reachable (.start s code) d) {t : T} {p : Prog Op Res E α} (hp : d.prog t = some p) {steps r}
    (hrest : (Machine.answering (T := Unit) A).Runs () p () steps r ()) :
    ∃ first, (Machine.answering (T := Unit) A).Runs () (code t) () (first ++ steps) r () := by
  induction h generalizing p steps with
  | refl =>
    cases hp
    exact ⟨[], hrest⟩
  | tail _ hs ih =>
    cases hs with
    | @call u o next r' s' hprog hperform =>
      by_cases htu : t = u
      · subst htu
        simp only [Function.update_self, Option.some.injEq] at hp
        subst hp
        obtain ⟨first, hfirst⟩ := ih hprog (.call (hA hperform) hrest)
        exact ⟨first ++ [⟨o, (), r', ()⟩], by simpa using hfirst⟩
      · simp only [Function.update_of_ne htu] at hp
        exact ih hp hrest
    | @crash u o next s' hprog hcrash =>
      by_cases htu : t = u
      · subst htu
        simp only [Function.update_self, reduceCtorEq] at hp
      · simp only [Function.update_of_ne htu] at hp
        exact ih hp hrest

namespace Prog

variable {M : Machine T σ Op Res E} {t : T} {step : (o : Op) → σ → Except E (Res o) × σ}

def trace (step : (o : Op) → σ → Except E (Res o) × σ) : Prog Op Res E α → σ → List (Performed σ Op Res E)
  | .done _, _ => []
  | .call o next, s => ⟨o, s, (step o s).1, (step o s).2⟩ :: (next (step o s).1).trace step (step o s).2

theorem run_runs (hstep : ∀ o s, M.perform t o s (step o s).1 (step o s).2) (p : Prog Op Res E α) (s : σ) :
    M.Runs t p s (p.trace step s) (p.run step s).1 (p.run step s).2 := by
  induction p generalizing s with
  | done r => exact .done
  | call o next ih => exact .call (hstep o s) (ih _ _)

theorem forall_trace {P : Performed σ Op Res E → Prop} (h : ∀ o s, P ⟨o, s, (step o s).1, (step o s).2⟩)
    (p : Prog Op Res E α) (s : σ) : ∀ x ∈ p.trace step s, P x := by
  induction p generalizing s with
  | done r => simp [trace]
  | call o next ih => exact List.forall_mem_cons.mpr ⟨h o s, ih _ _⟩

end Prog

/-- What a specification says of a client that shares its state holds where it is alone. -/
theorem Discipline.Safe.runs {M : Machine T σ Op Res E} {D : Discipline M} {t : T} {Q : Except E α → σ → Prop}
    {p : Prog Op Res E α} {s s' : σ} {steps : List (Performed σ Op Res E)} {r : Except E α} (hp : D.Safe t Q p s)
    (hs : D.inv s) (h : M.Runs t p s steps r s') : D.inv s' ∧ Q r s' := by
  induction h with
  | done => exact ⟨hs, hp.outcome hs⟩
  | call hperform _ ih =>
    obtain ⟨hallows, hnext⟩ := (hp _ (.refl hs)).1 _ _ hperform
    exact ih hnext hallows.inv

end Concurrent
