import Marketplace.Concurrent.Machine

namespace Concurrent

variable {T σ Op : Type} {Res : Op → Type} {E α β : Type}

/-- What the clients of a run promise each other: an invariant of the shared state, what every step
does, what each client may rely on between two of its own operations, and what is left when it has
crashed. -/
structure Discipline (M : Machine T σ Op Res E) where
  inv : σ → Prop
  always : σ → σ → Prop
  rely : T → σ → σ → Prop
  gone : T → σ → Prop
  always_refl : ∀ s, always s s
  always_trans : ∀ {s s' s''}, always s s' → always s' s'' → always s s''
  rely_refl : ∀ t s, rely t s s
  rely_trans : ∀ {t s s' s''}, M.frame t s s' → M.frame t s' s'' → always s s' → always s' s'' →
    rely t s s' → rely t s' s'' → rely t s s''

namespace Discipline

variable {M : Machine T σ Op Res E} (D : Discipline M) (t : T)

structure Interferes (s s' : σ) : Prop where
  inv : D.inv s'
  frame : M.frame t s s'
  always : D.always s s'
  rely : D.rely t s s'

structure Allows (s s' : σ) : Prop where
  inv : D.inv s'
  always : D.always s s'
  rely : ∀ t', t ≠ t' → D.rely t' s s'

variable {D t}

theorem Interferes.refl {s : σ} (h : D.inv s) : D.Interferes t s s :=
  ⟨h, M.frame_refl t s, D.always_refl s, D.rely_refl t s⟩

theorem Interferes.trans {s s' s'' : σ} (h : D.Interferes t s s') (h' : D.Interferes t s' s'') :
    D.Interferes t s s'' :=
  ⟨h'.inv, M.frame_trans h.frame h'.frame, D.always_trans h.always h'.always,
    D.rely_trans h.frame h'.frame h.always h'.always h.rely h'.rely⟩

theorem Allows.interferes {s s' : σ} {t' : T} (hne : t ≠ t') (hf : M.frame t' s s')
    (h : D.Allows t s s') : D.Interferes t' s s' := ⟨h.inv, hf, h.always, h.rely t' hne⟩

variable (D t)

def Stable (P : σ → Prop) : Prop := ∀ s s', D.inv s → P s → D.Interferes t s s' → P s'

/-- Whatever the others do in between, every operation of the program is a step that `D` allows
to `t`, and `Q` holds of its outcome. -/
def Safe (Q : Except E α → σ → Prop) : Prog Op Res E α → σ → Prop
  | .done r, s => ∀ s', D.Interferes t s s' → Q r s'
  | .call o next, s => ∀ s', D.Interferes t s s' →
      (∀ r s'', M.perform t o s' r s'' → D.Allows t s' s'' ∧ Safe Q (next r) s'') ∧
      (∀ s'', M.crash t s' s'' → D.Allows t s' s'' ∧ ∀ s₃, D.Interferes t s'' s₃ → D.gone t s₃)

def Post (Q : α → σ → Prop) (X : E → σ → Prop) : Except E α → σ → Prop
  | .ok a => Q a
  | .error e => X e

def Triple (P : σ → Prop) (p : Prog Op Res E α) (Q : α → σ → Prop) (X : E → σ → Prop) : Prop :=
  ∀ s, D.inv s → P s → D.Safe t (Post Q X) p s

variable {D t}

theorem Safe.interferes {Q : Except E α → σ → Prop} {p : Prog Op Res E α} {s s' : σ}
    (h : D.Safe t Q p s) (hi : D.Interferes t s s') : D.Safe t Q p s' := by
  cases p with
  | done r => exact fun s'' hi' => h s'' (hi.trans hi')
  | call o next => exact fun s'' hi' => h s'' (hi.trans hi')

theorem Safe.outcome {Q : Except E α → σ → Prop} {r : Except E α} {s : σ}
    (h : D.Safe t Q (.done r) s) (hi : D.inv s) : Q r s := h s (.refl hi)

theorem Safe.bind {Q : β → σ → Prop} {R : α → σ → Prop} {X : E → σ → Prop}
    {p : Prog Op Res E α} {f : α → Prog Op Res E β} {s : σ} (hs : D.inv s) (hp : D.Safe t (Post R X) p s)
    (hf : ∀ a, D.Triple t (R a) (f a) Q X) :
    D.Safe t (Post Q X) (p.bind f) s := by
  induction p generalizing s with
  | done r =>
    cases r with
    | ok a => exact hf a s hs (hp s (.refl hs))
    | error e => exact hp
  | call o next ih =>
    intro s' hi
    obtain ⟨hcall, hcrash⟩ := hp s' hi
    refine ⟨fun r s'' hr => ?_, hcrash⟩
    obtain ⟨ha, hn⟩ := hcall r s'' hr
    exact ⟨ha, ih r ha.inv hn⟩

theorem Safe.handle {Q : α → σ → Prop} {X Y : E → σ → Prop} {p : Prog Op Res E α}
    {h : E → Prog Op Res E α} {s : σ} (hs : D.inv s) (hp : D.Safe t (Post Q Y) p s)
    (hh : ∀ e, D.Triple t (Y e) (h e) Q X) : D.Safe t (Post Q X) (p.handle h) s := by
  induction p generalizing s with
  | done r =>
    cases r with
    | ok a => exact hp
    | error e => exact hh e s hs (hp s (.refl hs))
  | call o next ih =>
    intro s' hi
    obtain ⟨hcall, hcrash⟩ := hp s' hi
    refine ⟨fun r s'' hr => ?_, hcrash⟩
    obtain ⟨ha, hn⟩ := hcall r s'' hr
    exact ⟨ha, ih r ha.inv hn⟩

theorem Safe.mono {Q Q' : Except E α → σ → Prop} {p : Prog Op Res E α} {s : σ}
    (hp : D.Safe t Q p s) (hQ : ∀ r s, D.inv s → Q r s → Q' r s) : D.Safe t Q' p s := by
  induction p generalizing s with
  | done r => exact fun s' hi => hQ r s' hi.inv (hp s' hi)
  | call o next ih =>
    intro s' hi
    obtain ⟨hcall, hcrash⟩ := hp s' hi
    exact ⟨fun r s'' hr => ⟨(hcall r s'' hr).1, ih r (hcall r s'' hr).2⟩, hcrash⟩

section Persistent

variable {B : σ → Prop} (hB : ∀ s s', D.always s s' → B s → B s')

include hB

theorem Safe.keep {Q : Except E α → σ → Prop} {p : Prog Op Res E α} {s : σ} (hp : D.Safe t Q p s) (hb : B s) :
    D.Safe t (fun r s => Q r s ∧ B s) p s := by
  induction p generalizing s with
  | done r => exact fun s' hi => ⟨hp s' hi, hB s s' hi.always hb⟩
  | call o next ih =>
    intro s' hi
    obtain ⟨hcall, hcrash⟩ := hp s' hi
    refine ⟨fun r s'' hr => ?_, hcrash⟩
    obtain ⟨ha, hn⟩ := hcall r s'' hr
    exact ⟨ha, ih r hn (hB s' s'' ha.always (hB s s' hi.always hb))⟩

theorem Safe.fails {S : (o : Op) → Except E (Res o) → Prop} {Q : α → σ → Prop} {X : E → σ → Prop}
    {p : Prog Op Res E α} {s : σ} (hS : ∀ o s r s', S o r → M.perform t o s r s' → B s') (hf : p.FailsOnly S)
    (hp : D.Safe t (Post Q X) p s) : D.Safe t (Post Q fun e s => X e s ∧ B s) p s := by
  induction p generalizing s with
  | done r =>
    cases r with
    | ok a => exact hp
    | error e => exact hf.elim
  | call o next ih =>
    intro s' hi
    obtain ⟨hcall, hcrash⟩ := hp s' hi
    refine ⟨fun r s'' hr => ?_, hcrash⟩
    obtain ⟨ha, hn⟩ := hcall r s'' hr
    refine ⟨ha, ?_⟩
    rcases hf r with hstep | hrest
    · refine (hn.keep hB (hS o s' r s'' hstep hr)).mono ?_
      rintro r s₃ - ⟨hr, hb⟩
      cases r with
      | ok a => exact hr
      | error e => exact ⟨hr, hb⟩
    · exact ih r hrest hn

end Persistent

namespace Triple

variable {P P' : σ → Prop} {Q Q' : α → σ → Prop} {X X' : E → σ → Prop}

theorem fails {B : σ → Prop} {S : (o : Op) → Except E (Res o) → Prop} {p : Prog Op Res E α}
    (h : D.Triple t P p Q X) (hf : p.FailsOnly S) (hB : ∀ s s', D.always s s' → B s → B s')
    (hS : ∀ o s r s', S o r → M.perform t o s r s' → B s') : D.Triple t P p Q fun e s => X e s ∧ B s :=
  fun s hi hp => (h s hi hp).fails hB hS hf

theorem pure {a : α} (hQ : D.Stable t (Q a)) (h : ∀ s, D.inv s → P s → Q a s) :
    D.Triple t P (.done (.ok a)) Q X :=
  fun s hi hp s' hs => hQ s s' hi (h s hi hp) hs

theorem throw {e : E} (hX : D.Stable t (X e)) (h : ∀ s, D.inv s → P s → X e s) :
    D.Triple t P (.done (.error e)) Q X :=
  fun s hi hp s' hs => hX s s' hi (h s hi hp) hs

theorem bind {R : α → σ → Prop} {Q : β → σ → Prop} {p : Prog Op Res E α} {f : α → Prog Op Res E β}
    (hp : D.Triple t P p R X) (hf : ∀ a, D.Triple t (R a) (f a) Q X) :
    D.Triple t P (p.bind f) Q X :=
  fun s hi hP => Safe.bind hi (hp s hi hP) hf

theorem handle {Y : E → σ → Prop} {p : Prog Op Res E α} {h : E → Prog Op Res E α}
    (hp : D.Triple t P p Q Y) (hh : ∀ e, D.Triple t (Y e) (h e) Q X) :
    D.Triple t P (p.handle h) Q X :=
  fun s hi hP => Safe.handle hi (hp s hi hP) hh

theorem conseq {p : Prog Op Res E α} (h : D.Triple t P p Q X) (hP : ∀ s, D.inv s → P' s → P s)
    (hQ : ∀ a s, D.inv s → Q a s → Q' a s) (hX : ∀ e s, D.inv s → X e s → X' e s) :
    D.Triple t P' p Q' X' := by
  intro s hi hp
  refine (h s hi (hP s hi hp)).mono ?_
  intro r s' hi' hr
  cases r with
  | ok a => exact hQ a s' hi' hr
  | error e => exact hX e s' hi' hr

theorem pre {p : Prog Op Res E α} (h : D.Triple t P p Q X) (hP : ∀ s, D.inv s → P' s → P s) :
    D.Triple t P' p Q X := fun s hi hp => h s hi (hP s hi hp)

theorem exists_pre {ι : Sort*} {P : ι → σ → Prop} {p : Prog Op Res E α}
    (h : ∀ i, D.Triple t (P i) p Q X) : D.Triple t (fun s => ∃ i, P i s) p Q X :=
  fun s hi ⟨i, hp⟩ => h i s hi hp

theorem pure_pre {φ : Prop} {p : Prog Op Res E α} (h : φ → D.Triple t P p Q X) :
    D.Triple t (fun s => φ ∧ P s) p Q X := fun s hi ⟨hφ, hp⟩ => h hφ s hi hp

theorem perform {o : Op} {Q : Res o → σ → Prop} (hP : D.Stable t P)
    (hcall : ∀ s r s', D.inv s → P s → M.perform t o s r s' → D.Allows t s s' ∧ Post Q X r s')
    (hcrash : ∀ s s', D.inv s → P s → M.crash t s s' →
      D.Allows t s s' ∧ ∀ s'', D.Interferes t s' s'' → D.gone t s'')
    (hQ : ∀ a, D.Stable t (Q a)) (hX : ∀ e, D.Stable t (X e)) :
    D.Triple t P (.perform o) Q X := by
  intro s hi hp s' his
  have hp' := hP _ _ hi hp his
  refine ⟨fun r s'' hr => ?_, fun s'' hr => hcrash s' s'' his.inv hp' hr⟩
  obtain ⟨ha, hq⟩ := hcall s' r s'' his.inv hp' hr
  refine ⟨ha, fun s₃ his' => ?_⟩
  cases r with
  | ok a => exact hQ a _ _ ha.inv hq his'
  | error e => exact hX e _ _ ha.inv hq his'

/-- An assertion that every operation of `S` keeps is kept by a program that uses no others. -/
theorem uses {S : Op → Prop} {p : Prog Op Res E α} (hp : p.Uses S) (hP : D.Stable t P)
    (hcall : ∀ o r s s', S o → D.inv s → P s → M.perform t o s r s' → D.Allows t s s' ∧ P s')
    (hcrash : ∀ s s', D.inv s → P s → M.crash t s s' →
      D.Allows t s s' ∧ ∀ s'', D.Interferes t s' s'' → D.gone t s'') :
    D.Triple t P p (fun _ => P) fun _ => P := by
  intro s hi hs
  induction p generalizing s with
  | done r =>
    intro s' his
    have hs' := hP s s' hi hs his
    cases r <;> exact hs'
  | call o next ih =>
    intro s' his
    have hs' := hP s s' hi hs his
    refine ⟨fun r s'' hr => ?_, fun s'' hr => hcrash s' s'' his.inv hs' hr⟩
    obtain ⟨ha, hs''⟩ := hcall o r s' s'' hp.1 his.inv hs' hr
    exact ⟨ha, ih r (hp.2 r) s'' ha.inv hs''⟩

end Triple

theorem Stable.const {φ : Prop} : D.Stable t (fun _ => φ) := fun _ _ _ h _ => h

theorem Stable.and {P P' : σ → Prop} (h : D.Stable t P) (h' : D.Stable t P') :
    D.Stable t (fun s => P s ∧ P' s) := fun _ _ hi hp hs => ⟨h _ _ hi hp.1 hs, h' _ _ hi hp.2 hs⟩

theorem Stable.exists {ι : Sort*} {P : ι → σ → Prop} (h : ∀ i, D.Stable t (P i)) :
    D.Stable t (fun s => ∃ i, P i s) := fun _ _ hi ⟨i, hp⟩ hs => ⟨i, h i _ _ hi hp hs⟩

def Holds (D : Discipline M) (t : T) (Q : Except E α → σ → Prop) (s : σ) :
    Option (Prog Op Res E α) → Prop
  | some p => D.Safe t Q p s
  | none => ∀ s', D.Interferes t s s' → D.gone t s'

theorem Holds.interferes {Q : Except E α → σ → Prop} {p : Option (Prog Op Res E α)} {s s' : σ}
    (h : D.Holds t Q s p) (hi : D.Interferes t s s') : D.Holds t Q s' p := by
  cases p with
  | some p => exact Safe.interferes h hi
  | none => exact fun s'' hi' => h s'' (hi.trans hi')

variable [DecidableEq T]

theorem Holds.update {Q : T → Except E α → σ → Prop} {c : Config T σ Op Res E α} {Q' : Except E α → σ → Prop}
    (hc : ∀ t, D.Holds t (Q t) c.shared (c.prog t)) (ht : D.Holds t Q' c.shared (c.prog t)) (u : T) :
    D.Holds u (Function.update Q t Q' u) c.shared (c.prog u) := by
  by_cases hu : u = t
  · subst hu
    rw [Function.update_self]
    exact ht
  · rw [Function.update_of_ne hu]
    exact hc u

theorem step_holds {Q : T → Except E α → σ → Prop} {c d : Config T σ Op Res E α}
    (hi : D.inv c.shared) (hc : ∀ t, D.Holds t (Q t) c.shared (c.prog t)) (h : M.Step c d) :
    D.inv d.shared ∧ D.always c.shared d.shared ∧ ∀ t, D.Holds t (Q t) d.shared (d.prog t) := by
  cases h with
  | @call t o next r s hp hs =>
    have hsafe := hc t
    rw [hp] at hsafe
    obtain ⟨ha, hn⟩ := (hsafe c.shared (.refl hi)).1 r s hs
    refine ⟨ha.inv, ha.always, fun t' => ?_⟩
    by_cases ht : t' = t
    · subst ht
      simp only [Function.update_self]
      exact hn
    · simp only [Function.update_of_ne ht]
      exact (hc t').interferes (ha.interferes (Ne.symm ht) (M.perform_frame (Ne.symm ht) hs))
  | @crash t o next s hp hs =>
    have hsafe := hc t
    rw [hp] at hsafe
    obtain ⟨ha, hn⟩ := (hsafe c.shared (.refl hi)).2 s hs
    refine ⟨ha.inv, ha.always, fun t' => ?_⟩
    by_cases ht : t' = t
    · subst ht
      simp only [Function.update_self]
      exact hn
    · simp only [Function.update_of_ne ht]
      exact (hc t').interferes (ha.interferes (Ne.symm ht) (M.crash_frame (Ne.symm ht) hs))

/-- If every client's program is safe in the state it starts from, the invariant and every
client's assertions hold in all configurations of all runs. -/
theorem reachable_holds {Q : T → Except E α → σ → Prop} {c d : Config T σ Op Res E α}
    (hi : D.inv c.shared) (hc : ∀ t, D.Holds t (Q t) c.shared (c.prog t)) (h : M.Reachable c d) :
    D.inv d.shared ∧ D.always c.shared d.shared ∧ ∀ t, D.Holds t (Q t) d.shared (d.prog t) := by
  induction h with
  | refl => exact ⟨hi, D.always_refl _, hc⟩
  | tail _ hs ih =>
    obtain ⟨hi', halways, hall⟩ := ih
    obtain ⟨hi'', halways', hall'⟩ := step_holds hi' hall hs
    exact ⟨hi'', D.always_trans halways halways', hall'⟩

theorem run_holds {Q : T → α → σ → Prop} {X : T → E → σ → Prop} {P : T → σ → Prop} {s : σ}
    {code : T → Prog Op Res E α} {d : Config T σ Op Res E α} (hi : D.inv s) (hP : ∀ t, P t s)
    (hc : ∀ t, D.Triple t (P t) (code t) (Q t) (X t)) (h : M.Reachable (.start s code) d) :
    D.inv d.shared ∧ (∀ t r, d.outcome t = some r → Post (Q t) (X t) r d.shared) ∧
      ∀ t, d.prog t = none → D.gone t d.shared := by
  have hsafe : ∀ t, D.Holds t (Post (Q t) (X t)) s (some (code t)) := fun t => hc t s hi (hP t)
  obtain ⟨hinv, -, hall⟩ := reachable_holds hi hsafe h
  refine ⟨hinv, fun t r hr => ?_, fun t ht => ?_⟩
  · have hsafe := hall t
    rw [Config.outcome_eq_some.mp hr] at hsafe
    exact Safe.outcome hsafe hinv
  · have hgone := hall t
    rw [ht] at hgone
    exact hgone d.shared (.refl hinv)

theorem run_always {Q : T → α → σ → Prop} {X : T → E → σ → Prop} {P : T → σ → Prop} {s : σ}
    {code : T → Prog Op Res E α} {c d : Config T σ Op Res E α} (hi : D.inv s) (hP : ∀ t, P t s)
    (hc : ∀ t, D.Triple t (P t) (code t) (Q t) (X t)) (h : M.Reachable (.start s code) c) (hd : M.Reachable c d) :
    D.always c.shared d.shared := by
  have hsafe : ∀ t, D.Holds t (Post (Q t) (X t)) s (some (code t)) := fun t => hc t s hi (hP t)
  obtain ⟨hinv, -, hall⟩ := reachable_holds hi hsafe h
  exact (reachable_holds hinv hall hd).2.1

end Discipline

end Concurrent
