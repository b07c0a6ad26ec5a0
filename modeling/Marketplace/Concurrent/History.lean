import Mathlib.Data.List.Chain
import Mathlib.Data.List.Infix
import Marketplace.Concurrent.RelyGuarantee
import Marketplace.Concurrent.Schedule

/-!
The configurations that a run goes through, and what a discipline says of them when a step is known to be one of
the run.
-/

namespace Concurrent

variable {T σ Op : Type} {Res : Op → Type} {E α β : Type}

section Chains

variable {P : β → Prop} {a b a' b' : β} {l : List β}

theorem isChain_forall {rest : List β} (h : (b :: rest).IsChain fun x y => P x → P y) (hb : P b) :
    ∀ x ∈ b :: rest, P x := by
  induction rest generalizing b with
  | nil => simpa using hb
  | cons b' rest ih =>
    obtain ⟨hstep, hrest⟩ := List.isChain_cons_cons.mp h
    exact List.forall_mem_cons.mpr ⟨hb, ih hrest (hstep hb)⟩

theorem isChain_once (h : l.IsChain fun x y => P x → P y) (hab : [a, b] <:+: l) (hab' : [a', b'] <:+: l)
    (ha : ¬P a) (hb : P b) (ha' : ¬P a') (hb' : P b') : a = a' ∧ b = b' := by
  induction l with
  | nil => simp at hab
  | cons x rest ih =>
    have hlater {c d c' d' : β} (hhead : [c, d] <+: x :: rest) (hrest : [c', d'] <:+: rest) (hd : P d) : P c' := by
      obtain ⟨-, hsecond⟩ := List.cons_prefix_cons.mp hhead
      obtain ⟨rest, rfl⟩ := hsecond
      exact isChain_forall h.tail hd c' (hrest.subset (by simp))
    rcases List.infix_cons_iff.mp hab with hhead | hrest
    · rcases List.infix_cons_iff.mp hab' with hhead' | hrest'
      · obtain ⟨rfl, hsecond⟩ := List.cons_prefix_cons.mp hhead
        obtain ⟨rfl, hsecond'⟩ := List.cons_prefix_cons.mp hhead'
        obtain ⟨rest, rfl⟩ := hsecond
        obtain ⟨rfl, -⟩ := List.cons_prefix_cons.mp hsecond'
        exact ⟨rfl, rfl⟩
      · exact absurd (hlater hhead hrest' hb) ha'
    · rcases List.infix_cons_iff.mp hab' with hhead' | hrest'
      · exact absurd (hlater hhead' hrest hb') ha
      · exact ih h.tail hrest hrest'

end Chains

variable [DecidableEq T]

/-- `M.History c run d`: a run from `c` to `d` through these configurations. -/
inductive Machine.History (M : Machine T σ Op Res E) (c : Config T σ Op Res E α) :
    List (Config T σ Op Res E α) → Config T σ Op Res E α → Prop
  | refl : M.History c [c] c
  | tail {run : List (Config T σ Op Res E α)} {d e : Config T σ Op Res E α} (h : M.History c run d)
      (hs : M.Step d e) : M.History c (run ++ [e]) e

abbrev Machine.along (M : Machine T σ Op Res E) (states : List σ) : Machine T σ Op Res E :=
  M.restrict (fun _ _ s _ s' => [s, s'] <:+: states) fun _ s s' => [s, s'] <:+: states

namespace Machine

variable {M : Machine T σ Op Res E} {c d e : Config T σ Op Res E α} {run : List (Config T σ Op Res E α)} {t : T}

theorem Step.frame (hs : M.Step d e) : ∃ t, ∀ t', t ≠ t' → M.frame t' d.shared e.shared := by
  cases hs with
  | @call t o next r s hp hs => exact ⟨t, fun t' hne => M.perform_frame hne hs⟩
  | @crash t o next s hp hs => exact ⟨t, fun t' hne => M.crash_frame hne hs⟩

theorem Step.outcome (hs : M.Step d e) {r : Except E α} (hr : d.outcome t = some r) : e.outcome t = some r := by
  rw [Config.outcome_eq_some] at hr ⊢
  have hother {t' : T} {o : Op} {next : Except E (Res o) → Prog Op Res E α} {p : Option (Prog Op Res E α)}
      (hp : d.prog t' = some (.call o next)) : Function.update d.prog t' p t = some (.done r) := by
    have hne : t ≠ t' := by
      rintro rfl
      rw [hr] at hp
      cases hp
    rw [Function.update_of_ne hne]
    exact hr
  cases hs with
  | call hp _ => exact hother hp
  | crash hp _ => exact hother hp

namespace History

theorem exists_of_reachable (h : M.Reachable c d) : ∃ run, M.History c run d := by
  induction h with
  | refl => exact ⟨_, .refl⟩
  | tail _ hs ih =>
    obtain ⟨run, h⟩ := ih
    exact ⟨_, h.tail hs⟩

theorem reachable (h : M.History c run d) : M.Reachable c d := by
  induction h with
  | refl => exact .refl
  | tail _ hs ih => exact ih.tail hs

theorem head (h : M.History c run d) : run.head? = some c := by
  induction h with
  | refl => rfl
  | tail _ _ ih => rw [List.head?_append, ih, Option.some_or]

theorem getLast (h : M.History c run d) : run.getLast? = some d := by
  cases h with
  | refl => rfl
  | tail _ _ => exact List.getLast?_concat

theorem of_mem (h : M.History c run d) (he : e ∈ run) : M.Reachable c e ∧ M.Reachable e d := by
  induction h with
  | refl =>
    obtain rfl := List.mem_singleton.mp he
    exact ⟨.refl, .refl⟩
  | tail h hs ih =>
    rcases List.mem_append.mp he with he | he
    · exact ⟨(ih he).1, (ih he).2.tail hs⟩
    · obtain rfl := List.mem_singleton.mp he
      exact ⟨h.reachable.tail hs, .refl⟩

theorem cons (hs : M.Step c d) (h : M.History d run e) : M.History c (c :: run) e := by
  induction h with
  | refl => exact .tail .refl hs
  | tail _ hs' ih => exact ih.tail hs'

theorem along_append (h : M.History c run d) (more : List σ) :
    (M.along (run.map Config.shared ++ more)).History c run d := by
  induction h generalizing more with
  | refl => exact .refl
  | @tail run d e h hs ih =>
    have hpair : [d.shared, e.shared] <:+: (run ++ [e]).map Config.shared ++ more := by
      obtain ⟨first, hfirst⟩ := List.getLast?_eq_some_iff.mp h.getLast
      exact ⟨first.map Config.shared, more, by rw [hfirst]; simp⟩
    have hbefore := ih ([e.shared] ++ more)
    rw [← List.append_assoc] at hbefore
    have hsame : run.map Config.shared ++ [e.shared] = (run ++ [e]).map Config.shared := by simp
    rw [hsame] at hbefore
    refine hbefore.tail ?_
    cases hs with
    | call hp hs => exact .call hp ⟨hs, hpair⟩
    | crash hp hs => exact .crash hp ⟨hs, hpair⟩

theorem along (h : M.History c run d) : (M.along (run.map Config.shared)).History c run d := by
  have hsame := h.along_append []
  rwa [List.append_nil] at hsame

theorem reachable_along {allowed : T → (o : Op) → σ → Except E (Res o) → σ → Prop} {mayCrash : T → σ → σ → Prop}
    (h : (M.restrict allowed mayCrash).History c run d) :
    (M.restrict (fun t o s r s' => [s, s'] <:+: run.map Config.shared ∧ allowed t o s r s')
      fun t s s' => [s, s'] <:+: run.map Config.shared ∧ mayCrash t s s').Reachable c d :=
  Reachable.map (M := (M.restrict allowed mayCrash).along (run.map Config.shared)) (J := fun _ => True)
    (fun _ _ => trivial) (fun _ _ h => ⟨h.1.1, h.2, h.1.2⟩) (fun _ _ h => ⟨h.1.1, h.2, h.1.2⟩) h.along.reachable

end History

theorem Reachable.outcome (h : M.Reachable c d) {r : Except E α} (hr : c.outcome t = some r) :
    d.outcome t = some r := by
  induction h with
  | refl => exact hr
  | tail _ hs ih => exact hs.outcome ih

end Machine

namespace Discipline

variable {M : Machine T σ Op Res E} {D : Discipline M} {c d : Config T σ Op Res E α}
  {run : List (Config T σ Op Res E α)}

theorem history_holds {Q : T → Except E α → σ → Prop} (hi : D.inv c.shared)
    (hc : ∀ t, D.Holds t (Q t) c.shared (c.prog t)) (h : M.History c run d) :
    (run.map Config.shared).IsChain fun s s' => D.always s s' ∧ ∃ t, ∀ t', t ≠ t' → M.frame t' s s' := by
  induction h with
  | refl => exact .singleton _
  | @tail run d e h hs ih =>
    obtain ⟨hi', -, hall⟩ := reachable_holds hi hc h.reachable
    obtain ⟨-, halways, -⟩ := step_holds hi' hall hs
    rw [List.map_append]
    refine ih.append (.singleton _) fun s hd s' he => ?_
    rw [List.getLast?_map, h.getLast] at hd
    cases hd
    cases he
    exact ⟨halways, hs.frame⟩

end Discipline

section Schedules

variable {M : Machine T σ Op Res E} {c d : Config T σ Op Res E α} {run : List (Config T σ Op Res E α)}

def Config.visits (S : Moves M) :
    List (T × Option S.Move) → Config T σ Op Res E α → Option (List (Config T σ Op Res E α) × Config T σ Op Res E α)
  | [], c => some ([c], c)
  | (t, m) :: rest, c => (c.play S t m).bind fun d => (visits S rest d).map fun (run, e) => (c :: run, e)

variable {S : Moves M}

theorem visits_history {moves : List (T × Option S.Move)} (h : c.visits S moves = some (run, d)) :
    M.History c run d := by
  induction moves generalizing c run with
  | nil =>
    cases h
    exact .refl
  | cons move rest ih =>
    obtain ⟨c', hplay, hrest⟩ := Option.bind_eq_some_iff.mp h
    obtain ⟨⟨run', d'⟩, hvisits, hrun⟩ := Option.map_eq_some_iff.mp hrest
    cases hrun
    exact (ih hvisits).cons (play_step hplay)

theorem exists_history (moves : List (T × Option S.Move))
    {P : List (Config T σ Op Res E α) → Config T σ Op Res E α → Prop} (h : ∃ x ∈ c.visits S moves, P x.1 x.2) :
    ∃ run d, M.History c run d ∧ P run d := by
  obtain ⟨⟨run, d⟩, hd, hp⟩ := h
  exact ⟨run, d, visits_history hd, hp⟩

end Schedules

end Concurrent
