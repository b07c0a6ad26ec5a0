import Marketplace.Concurrent.Machine

namespace Concurrent

/-- A way to compute transitions of a machine: a move resolves what is left open. -/
structure Moves {T σ Op : Type} {Res : Op → Type} {E : Type} (M : Machine T σ Op Res E) where
  Move : Type
  play : T → (o : Op) → Move → σ → Option (Except E (Res o) × σ)
  die : T → σ → Option σ
  play_sound : ∀ {t o m s r s'}, play t o m s = some (r, s') → M.perform t o s r s'
  die_sound : ∀ {t s s'}, die t s = some s' → M.crash t s s'

variable {T σ Op : Type} {Res : Op → Type} {E α : Type} [DecidableEq T]
  {M : Machine T σ Op Res E} (S : Moves M)

@[reducible] def Moves.restrict {allowed : T → (o : Op) → σ → Except E (Res o) → σ → Prop}
    {mayCrash : T → σ → σ → Prop} (S : Moves M) (test : T → (o : Op) → σ → Except E (Res o) → σ → Bool)
    (h : ∀ {t o s r s'}, test t o s r s' → allowed t o s r s') : Moves (M.restrict allowed mayCrash) where
  Move := S.Move
  play t o m s := (S.play t o m s).filter fun (r, s') => test t o s r s'
  die _ _ := none
  play_sound hplay := by
    obtain ⟨hplay, htest⟩ := Option.filter_eq_some_iff.mp hplay
    exact ⟨S.play_sound hplay, h htest⟩
  die_sound hdie := by cases hdie

def isOk : Except E α → Bool
  | .ok _ => true
  | .error _ => false

theorem isOk_iff {r : Except E α} : isOk r = true ↔ ∃ a, r = .ok a := by
  cases r <;> simp [isOk]

def Config.play (c : Config T σ Op Res E α) (t : T) (m : Option S.Move) : Option (Config T σ Op Res E α) :=
  match c.prog t with
  | some (.call o next) =>
    match m with
    | some m => (S.play t o m c.shared).map fun (r, s) => ⟨s, Function.update c.prog t (some (next r))⟩
    | none => (S.die t c.shared).map fun s => ⟨s, Function.update c.prog t none⟩
  | _ => none

def Config.plays : List (T × Option S.Move) → Config T σ Op Res E α → Option (Config T σ Op Res E α)
  | [], c => some c
  | (t, m) :: rest, c => (c.play S t m).bind (plays rest)

variable {S}

theorem play_step {c d : Config T σ Op Res E α} {t : T} {m : Option S.Move} (h : c.play S t m = some d) :
    M.Step c d := by
  unfold Config.play at h
  split at h
  · rename_i o next hp
    cases m with
    | none =>
      simp only [Option.map_eq_some_iff] at h
      obtain ⟨s, hdie, rfl⟩ := h
      exact .crash hp (S.die_sound hdie)
    | some m =>
      simp only [Option.map_eq_some_iff] at h
      obtain ⟨⟨r, s⟩, hplay, rfl⟩ := h
      exact .call hp (S.play_sound hplay)
  · cases h

theorem plays_reachable {moves : List (T × Option S.Move)} {c d : Config T σ Op Res E α}
    (h : c.plays S moves = some d) : M.Reachable c d := by
  induction moves generalizing c with
  | nil =>
    cases h
    exact .refl
  | cons move rest ih =>
    obtain ⟨c', hplay, hrest⟩ := Option.bind_eq_some_iff.mp h
    exact .head (play_step hplay) (ih hrest)

theorem play_prog {c d : Config T σ Op Res E α} {t t' : T} {m : Option S.Move} (h : c.play S t m = some d)
    (ht : t ≠ t') : d.prog t' = c.prog t' := by
  unfold Config.play at h
  split at h
  · cases m with
    | none =>
      simp only [Option.map_eq_some_iff] at h
      obtain ⟨s, -, rfl⟩ := h
      exact Function.update_of_ne (Ne.symm ht) _ _
    | some m =>
      simp only [Option.map_eq_some_iff] at h
      obtain ⟨_, -, rfl⟩ := h
      exact Function.update_of_ne (Ne.symm ht) _ _
  · cases h

theorem plays_prog {moves : List (T × Option S.Move)} {c d : Config T σ Op Res E α} {t : T}
    (h : c.plays S moves = some d) (ht : ∀ move ∈ moves, move.1 ≠ t) : d.prog t = c.prog t := by
  induction moves generalizing c with
  | nil =>
    cases h
    rfl
  | cons move rest ih =>
    obtain ⟨c', hplay, hrest⟩ := Option.bind_eq_some_iff.mp h
    have hstep := play_prog hplay (ht move (by simp))
    exact (ih hrest fun move hmove => ht move (by simp [hmove])).trans hstep

theorem exists_reachable (moves : List (T × Option S.Move)) {c : Config T σ Op Res E α}
    {P : Config T σ Op Res E α → Prop} (h : ∃ d ∈ c.plays S moves, P d) : ∃ d, M.Reachable c d ∧ P d := by
  obtain ⟨d, hd, hp⟩ := h
  exact ⟨d, plays_reachable hd, hp⟩

theorem exists_reachable_twice (first rest : List (T × Option S.Move)) {c : Config T σ Op Res E α}
    {P : Config T σ Op Res E α → Config T σ Op Res E α → Prop}
    (h : ∃ d ∈ c.plays S first, ∃ e ∈ d.plays S rest, P d e) :
    ∃ d e, M.Reachable c d ∧ M.Reachable d e ∧ P d e := by
  obtain ⟨d, hd, e, he, hp⟩ := h
  exact ⟨d, e, plays_reachable hd, plays_reachable he, hp⟩

theorem exists_reachable_later (first rest : List (T × Option S.Move)) {c : Config T σ Op Res E α} {t : T}
    {P : Config T σ Op Res E α → Config T σ Op Res E α → Prop} (ht : ∀ move ∈ first, move.1 ≠ t)
    (h : ∃ d ∈ c.plays S first, ∃ e ∈ d.plays S rest, P d e) :
    ∃ d e, M.Reachable c d ∧ M.Reachable d e ∧ d.prog t = c.prog t ∧ P d e := by
  obtain ⟨d, hd, e, he, hp⟩ := h
  exact ⟨d, e, plays_reachable hd, plays_reachable he, plays_prog hd ht, hp⟩

end Concurrent
