import Marketplace.Concurrent.Schedule

/-!
Runs that take a note of what their clients set out to do.
-/

namespace Concurrent

variable {T σ Op : Type} {Res : Op → Type} {E α N : Type} [DecidableEq T]

/-- `M.Noted note c notes d`: a run from `c` to `d`, with what `note` reads off the programs that came to
perform an operation. -/
inductive Machine.Noted (M : Machine T σ Op Res E) (note : Prog Op Res E α → Option N) (c : Config T σ Op Res E α) :
    List (T × N) → Config T σ Op Res E α → Prop
  | refl : M.Noted note c [] c
  | call {notes : List (T × N)} {d : Config T σ Op Res E α} {t : T} {o : Op} {next : Except E (Res o) → Prog Op Res E α}
      {r : Except E (Res o)} {s : σ} (h : M.Noted note c notes d) (hp : d.prog t = some (.call o next))
      (hs : M.perform t o d.shared r s) : M.Noted note c (notes ++ (note (.call o next)).toList.map (t, ·))
        ⟨s, Function.update d.prog t (some (next r))⟩
  | crash {notes : List (T × N)} {d : Config T σ Op Res E α} {t : T} {o : Op}
    {next : Except E (Res o) → Prog Op Res E α}
      {s : σ} (h : M.Noted note c notes d) (hp : d.prog t = some (.call o next)) (hs : M.crash t d.shared s) :
      M.Noted note c (notes ++ (note (.call o next)).toList.map (t, ·)) ⟨s, Function.update d.prog t none⟩

variable {M : Machine T σ Op Res E} {note : Prog Op Res E α → Option N} {c d : Config T σ Op Res E α}

theorem Machine.Noted.reachable {notes : List (T × N)} (h : M.Noted note c notes d) : M.Reachable c d := by
  induction h with
  | refl => exact .refl
  | call _ hp hs ih => exact ih.tail (.call hp hs)
  | crash _ hp hs ih => exact ih.tail (.crash hp hs)

theorem Machine.Reachable.noted (note : Prog Op Res E α → Option N) (h : M.Reachable c d) :
    ∃ notes, M.Noted note c notes d := by
  induction h with
  | refl => exact ⟨[], .refl⟩
  | tail _ hs ih =>
    obtain ⟨notes, hnotes⟩ := ih
    cases hs with
    | call hp hs => exact ⟨_, .call hnotes hp hs⟩
    | crash hp hs => exact ⟨_, .crash hnotes hp hs⟩

section Counts

variable [DecidableEq N] {notes : List (T × N)} {p : Prog Op Res E α} {t : T} {n : N}

theorem count_noted_self :
    (notes ++ (note p).toList.map (t, ·)).count (t, n) = notes.count (t, n) + if note p = some n then 1 else 0 := by
  cases hn : note p with
  | none => simp
  | some n' => by_cases h : n' = n <;> simp [h]

theorem count_noted_other {t' : T} (ht : t ≠ t') :
    (notes ++ (note p).toList.map (t, ·)).count (t', n) = notes.count (t', n) := by
  cases note p with
  | none => simp
  | some n' => simp [ht]

end Counts

section Schedules

variable (S : Moves M) (note)

def Config.notes (c : Config T σ Op Res E α) (t : T) : List (T × N) :=
  match c.prog t with
  | some p => (note p).toList.map (t, ·)
  | none => []

def Config.playsNoted : List (T × Option S.Move) → List (T × N) → Config T σ Op Res E α →
    Option (List (T × N) × Config T σ Op Res E α)
  | [], notes, c => some (notes, c)
  | (t, m) :: rest, notes, c => (c.play S t m).bind (playsNoted rest (notes ++ c.notes note t))

variable {S note}

theorem playsNoted_noted {moves : List (T × Option S.Move)} {notes notes' : List (T × N)} {e : Config T σ Op Res E α}
    (h : M.Noted note c notes d) (hplays : d.playsNoted note S moves notes = some (notes', e)) :
    M.Noted note c notes' e := by
  induction moves generalizing notes d with
  | nil =>
    cases hplays
    exact h
  | cons move rest ih =>
    obtain ⟨t, m⟩ := move
    obtain ⟨d', hplay, hrest⟩ := Option.bind_eq_some_iff.mp hplays
    refine ih ?_ hrest
    unfold Config.play at hplay
    split at hplay
    · rename_i o next hp
      simp only [Config.notes, hp]
      cases m with
      | none =>
        simp only [Option.map_eq_some_iff] at hplay
        obtain ⟨s, hdie, rfl⟩ := hplay
        exact .crash h hp (S.die_sound hdie)
      | some m =>
        simp only [Option.map_eq_some_iff] at hplay
        obtain ⟨⟨r, s⟩, hplay, rfl⟩ := hplay
        exact .call h hp (S.play_sound hplay)
    · cases hplay

theorem exists_noted (moves : List (T × Option S.Move)) {P : List (T × N) → Config T σ Op Res E α → Prop}
    (h : ∃ x ∈ c.playsNoted note S moves [], P x.1 x.2) : ∃ notes d, M.Noted note c notes d ∧ P notes d := by
  obtain ⟨⟨notes, d⟩, hd, hp⟩ := h
  exact ⟨notes, d, playsNoted_noted .refl hd, hp⟩

end Schedules

end Concurrent
