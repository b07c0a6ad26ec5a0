import Mathlib.Logic.Function.Basic
import Mathlib.Order.WellFounded

namespace Concurrent

/-- A client program. It performs one operation at a time on a shared state and goes on with
what the operation answered, a result or an error. -/
inductive Prog (Op : Type) (Res : Op → Type) (E α : Type) : Type
  | done (r : Except E α)
  | call (o : Op) (next : Except E (Res o) → Prog Op Res E α)

namespace Prog

variable {Op : Type} {Res : Op → Type} {E α β : Type}

def bind : Prog Op Res E α → (α → Prog Op Res E β) → Prog Op Res E β
  | .done (.ok a), f => f a
  | .done (.error e), _ => .done (.error e)
  | .call o next, f => .call o (fun r => (next r).bind f)

def handle : Prog Op Res E α → (E → Prog Op Res E α) → Prog Op Res E α
  | .done (.ok a), _ => .done (.ok a)
  | .done (.error e), h => h e
  | .call o next, h => .call o (fun r => (next r).handle h)

def perform (o : Op) : Prog Op Res E (Res o) := .call o .done

instance : Monad (Prog Op Res E) where
  pure a := .done (.ok a)
  bind := bind

instance : MonadExceptOf E (Prog Op Res E) where
  throw e := .done (.error e)
  tryCatch := handle

@[simp] theorem pure_def (a : α) : (pure a : Prog Op Res E α) = .done (.ok a) := rfl

@[simp] theorem throw_def (e : E) : (throw e : Prog Op Res E α) = .done (.error e) := rfl

@[simp] theorem bind_def (p : Prog Op Res E α) (f : α → Prog Op Res E β) : (p >>= f) = p.bind f := rfl

@[simp] theorem tryCatch_def (p : Prog Op Res E α) (h : E → Prog Op Res E α) :
    tryCatch p h = p.handle h := rfl

/-- The program throws only after a step of which `S` holds. -/
def FailsOnly (S : (o : Op) → Except E (Res o) → Prop) : Prog Op Res E α → Prop
  | .done (.ok _) => True
  | .done (.error _) => False
  | .call o next => ∀ r, S o r ∨ FailsOnly S (next r)

namespace FailsOnly

variable {S : (o : Op) → Except E (Res o) → Prop}

theorem bind {p : Prog Op Res E α} {f : α → Prog Op Res E β} (hp : p.FailsOnly S) (hf : ∀ a, (f a).FailsOnly S) :
    (p.bind f).FailsOnly S := by
  induction p with
  | done r =>
    cases r with
    | ok a => exact hf a
    | error e => exact hp.elim
  | call o next ih => exact fun r => (hp r).imp_right (ih r)

theorem handle {p : Prog Op Res E α} {h : E → Prog Op Res E α} (hp : p.FailsOnly S) : (p.handle h).FailsOnly S := by
  induction p with
  | done r =>
    cases r with
    | ok a => trivial
    | error e => exact hp.elim
  | call o next ih => exact fun r => (hp r).imp_right (ih r)

theorem handler {p : Prog Op Res E α} {h : E → Prog Op Res E α} (hh : ∀ e, (h e).FailsOnly S) :
    (p.handle h).FailsOnly S := by
  induction p with
  | done r =>
    cases r with
    | ok a => trivial
    | error e => exact hh e
  | call o next ih => exact fun r => .inr (ih r)

theorem perform {o : Op} (ho : ∀ e, S o (.error e)) : (perform o : Prog Op Res E (Res o)).FailsOnly S := by
  intro r
  cases r with
  | ok a => exact .inr trivial
  | error e => exact .inl (ho e)

end FailsOnly

def Uses (S : Op → Prop) : Prog Op Res E α → Prop
  | .done _ => True
  | .call o next => S o ∧ ∀ r, Uses S (next r)

namespace Uses

variable {S : Op → Prop}

theorem bind {p : Prog Op Res E α} {f : α → Prog Op Res E β} (hp : p.Uses S) (hf : ∀ a, (f a).Uses S) :
    (p.bind f).Uses S := by
  induction p with
  | done r =>
    cases r with
    | ok a => exact hf a
    | error e => trivial
  | call o next ih => exact ⟨hp.1, fun r => ih r (hp.2 r)⟩

theorem handle {p : Prog Op Res E α} {h : E → Prog Op Res E α} (hp : p.Uses S) (hh : ∀ e, (h e).Uses S) :
    (p.handle h).Uses S := by
  induction p with
  | done r =>
    cases r with
    | ok a => trivial
    | error e => exact hh e
  | call o next ih => exact ⟨hp.1, fun r => ih r (hp.2 r)⟩

theorem perform {o : Op} (ho : S o) : (perform o : Prog Op Res E (Res o)).Uses S := ⟨ho, fun _ => trivial⟩

theorem mono {S' : Op → Prop} {p : Prog Op Res E α} (hp : p.Uses S) (h : ∀ o, S o → S' o) : p.Uses S' := by
  induction p with
  | done r => trivial
  | call o next ih => exact ⟨h o hp.1, fun r => ih r (hp.2 r)⟩

end Uses

def Fails : Prog Op Res E α → Prop
  | .done (.ok _) => False
  | .done (.error _) => True
  | .call _ next => ∀ r, Fails (next r)

theorem Fails.bind {p : Prog Op Res E α} {f : α → Prog Op Res E β} (hp : p.Fails) : (p.bind f).Fails := by
  induction p with
  | done r =>
    cases r with
    | ok a => exact hp.elim
    | error e => trivial
  | call o next ih => exact fun r => ih r (hp r)

theorem Fails.bind_of_forall {p : Prog Op Res E α} {f : α → Prog Op Res E β} (hf : ∀ a, (f a).Fails) :
    (p.bind f).Fails := by
  induction p with
  | done r =>
    cases r with
    | ok a => exact hf a
    | error e => trivial
  | call o next ih => exact fun r => ih r

theorem Fails.handle {p : Prog Op Res E α} {h : E → Prog Op Res E α} (hp : p.Fails) (hh : ∀ e, (h e).Fails) :
    (p.handle h).Fails := by
  induction p with
  | done r =>
    cases r with
    | ok a => exact hp.elim
    | error e => exact hh e
  | call o next ih => exact fun r => ih r (hp r)

/-- Whatever the operations answer, the program throws, and it performs only operations of `S` before. -/
structure Aborts (S : Op → Prop) (p : Prog Op Res E α) : Prop where
  fails : p.Fails
  uses : p.Uses S

theorem Aborts.bind {S : Op → Prop} {p : Prog Op Res E α} {f : α → Prog Op Res E β} (hp : p.Aborts S) :
    (p.bind f).Aborts S := by
  refine ⟨hp.fails.bind, ?_⟩
  obtain ⟨hfails, huses⟩ := hp
  induction p with
  | done r =>
    cases r with
    | ok a => exact hfails.elim
    | error e => trivial
  | call o next ih => exact ⟨huses.1, fun r => ih r (hfails r) (huses.2 r)⟩

theorem Aborts.handle {S : Op → Prop} {p : Prog Op Res E α} {h : E → Prog Op Res E α} (hp : p.Aborts S)
    (hh : ∀ e, (h e).Aborts S) : (p.handle h).Aborts S :=
  ⟨hp.fails.handle fun e => (hh e).fails, hp.uses.handle fun e => (hh e).uses⟩

def Rethrows (S : Op → Prop) : Prog Op Res E α → Prop
  | .done _ => True
  | .call o next => (S o → ∀ e, (next (.error e)).Fails) ∧ ∀ r, Rethrows S (next r)

namespace Rethrows

variable {S : Op → Prop}

theorem bind {p : Prog Op Res E α} {f : α → Prog Op Res E β} (hp : p.Rethrows S) (hf : ∀ a, (f a).Rethrows S) :
    (p.bind f).Rethrows S := by
  induction p with
  | done r =>
    cases r with
    | ok a => exact hf a
    | error e => trivial
  | call o next ih => exact ⟨fun ho e => (hp.1 ho e).bind, fun r => ih r (hp.2 r)⟩

theorem handle {p : Prog Op Res E α} {h : E → Prog Op Res E α} (hp : p.Rethrows S) (hh : ∀ e, (h e).Rethrows S)
    (hfails : ∀ e, (h e).Fails) : (p.handle h).Rethrows S := by
  induction p with
  | done r =>
    cases r with
    | ok a => trivial
    | error e => exact hh e
  | call o next ih => exact ⟨fun ho e => (hp.1 ho e).handle hfails, fun r => ih r (hp.2 r)⟩

theorem perform {o : Op} : (perform o : Prog Op Res E (Res o)).Rethrows S := ⟨fun _ _ => trivial, fun _ => trivial⟩

end Rethrows

inductive Next : Prog Op Res E α → Prog Op Res E α → Prop
  | call (o : Op) (next : Except E (Res o) → Prog Op Res E α) (r : Except E (Res o)) : Next (next r) (.call o next)

theorem next_wf : WellFounded (@Next Op Res E α) := by
  constructor
  intro p
  induction p with
  | done r => exact ⟨_, fun q h => nomatch h⟩
  | call o next ih =>
    refine ⟨_, fun q h => ?_⟩
    cases h
    exact ih _

def Later (p q : Prog Op Res E α) : Prop := Relation.TransGen Next p q

theorem not_later_self (p : Prog Op Res E α) : ¬Later p p :=
  fun h => next_wf.transGen.asymmetric p p h h

end Prog

end Concurrent
