import Mathlib.Data.List.Sort

/-!
ORDER BY. Rows that are equal in the key keep the order they were listed in.
-/

namespace Relational

variable {α : Type} {r s : α → α → Prop}

section Stable

variable [DecidableRel r] [Std.Total r] [IsTrans α r]

theorem orderedInsert_stable {a : α} {l : List α} (ha : ∀ b ∈ l, s a b)
    (hl : l.Pairwise fun x y => r x y ∧ (r y x → s x y)) :
    (l.orderedInsert r a).Pairwise fun x y => r x y ∧ (r y x → s x y) := by
  induction l with
  | nil => exact List.pairwise_singleton ..
  | cons b l ih =>
    obtain ⟨hb, hrest⟩ := List.pairwise_cons.mp hl
    by_cases hab : r a b
    · rw [List.orderedInsert_cons_of_le r l hab]
      refine List.pairwise_cons.mpr ⟨fun c hc => ⟨?_, fun _ => ha c hc⟩, hl⟩
      rcases List.mem_cons.mp hc with rfl | hc
      · exact hab
      · exact IsTrans.trans _ _ _ hab (hb c hc).1
    · rw [List.orderedInsert_of_not_le r l hab]
      refine List.pairwise_cons.mpr ⟨fun c hc => ?_, ih (fun c hc => ha c (List.mem_cons_of_mem b hc)) hrest⟩
      rcases List.mem_cons.mp ((List.perm_orderedInsert r a l).mem_iff.mp hc) with rfl | hc
      · exact ⟨(Std.Total.total b c).resolve_right hab, fun h => absurd h hab⟩
      · exact hb c hc

theorem insertionSort_stable {l : List α} (hl : l.Pairwise s) :
    (l.insertionSort r).Pairwise fun x y => r x y ∧ (r y x → s x y) := by
  induction l with
  | nil => exact .nil
  | cons a l ih =>
    obtain ⟨ha, hrest⟩ := List.pairwise_cons.mp hl
    exact orderedInsert_stable (fun b hb => ha b ((List.perm_insertionSort r l).mem_iff.mp hb)) (ih hrest)

end Stable

theorem eq_of_strictly_ordered (hasymm : ∀ x y, s x y → ¬s y x) {l l' : List α} (hl : l.Pairwise s)
    (hl' : l'.Pairwise s) (h : ∀ x, x ∈ l ↔ x ∈ l') : l = l' := by
  have hirrefl : ∀ x y, s x y → x ≠ y := fun x y hs hxy => hasymm x y hs (hxy ▸ hs)
  have hperm : l.Perm l' :=
    (List.perm_ext_iff_of_nodup (hl.imp (hirrefl _ _)) (hl'.imp (hirrefl _ _))).mpr h
  exact hperm.eq_of_pairwise (fun x y _ _ hxy hyx => absurd hyx (hasymm x y hxy)) hl hl'

end Relational
