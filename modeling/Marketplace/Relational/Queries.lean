import Mathlib.Algebra.BigOperators.Group.List.Basic
import Mathlib.Data.List.Dedup

namespace Relational

variable {α β κ M : Type}

def innerJoin (on : α → β → Bool) (xs : List α) (ys : List β) : List (α × β) :=
  xs.flatMap fun x => (ys.filter (on x)).map (Prod.mk x)

section Joins

variable {on : α → β → Bool} {xs : List α} {ys : List β}

theorem mem_innerJoin {row : α × β} : row ∈ innerJoin on xs ys ↔ row.1 ∈ xs ∧ row.2 ∈ ys ∧ on row.1 row.2 = true := by
  obtain ⟨x, y⟩ := row
  simp only [innerJoin, List.mem_flatMap, List.mem_map, List.mem_filter, Prod.mk.injEq]
  constructor
  · rintro ⟨_, hx, _, ⟨hy, hon⟩, rfl, rfl⟩
    exact ⟨hx, hy, hon⟩
  · rintro ⟨hx, hy, hon⟩
    exact ⟨x, hx, y, ⟨hy, hon⟩, rfl, rfl⟩

theorem filter_key [DecidableEq κ] {key : β → κ} (hkeys : (ys.map key).Nodup) {y : β} (hy : y ∈ ys) :
    ys.filter (fun y' => key y' = key y) = [y] := by
  induction ys with
  | nil => cases hy
  | cons first rest ih =>
    obtain ⟨hfirst, hrest⟩ := List.nodup_cons.mp hkeys
    rcases List.mem_cons.mp hy with rfl | hy
    · have hnone : rest.filter (fun y' => key y' = key y) = [] := by
        refine List.filter_eq_nil_iff.mpr fun y' hy' => ?_
        intro heq
        exact hfirst (List.mem_map.mpr ⟨y', hy', by simpa using heq⟩)
      simp [hnone]
    · have hne : key first ≠ key y := fun heq => hfirst (heq ▸ List.mem_map_of_mem hy)
      simp [hne, ih hrest hy]

theorem innerJoin_eq_map {partner : α → β} (h : ∀ x ∈ xs, ys.filter (on x) = [partner x]) :
    innerJoin on xs ys = xs.map fun x => (x, partner x) := by
  induction xs with
  | nil => rfl
  | cons x rest ih =>
    have hrest := ih fun x hx => h x (List.mem_cons_of_mem _ hx)
    simp only [innerJoin] at hrest
    simp [innerJoin, h x (List.mem_cons_self ..), hrest]

end Joins

theorem mapM_eq_map {f : α → Option β} {g : α → β} {xs : List α} (h : ∀ x ∈ xs, f x = some (g x)) :
    xs.mapM f = some (xs.map g) := by
  induction xs with
  | nil => rfl
  | cons x rest ih =>
    have hrest := ih fun x hx => h x (List.mem_cons_of_mem _ hx)
    simp [h x (List.mem_cons_self ..), hrest]

variable [DecidableEq κ]

/-- GROUP BY: the rows of every key that occurs. -/
def groupBy (key : α → κ) (rows : List α) : List (κ × List α) :=
  (rows.map key).dedup.map fun k => (k, rows.filter fun row => key row = k)

section Groups

variable {key : α → κ} {rows : List α}

theorem groupBy_keys : (groupBy key rows).map Prod.fst = (rows.map key).dedup := by
  simp [groupBy, Function.comp_def]

theorem mem_groupBy {group : κ × List α} (h : group ∈ groupBy key rows) :
    group.2 = rows.filter fun row => key row = group.1 := by
  obtain ⟨k, -, rfl⟩ := List.mem_map.mp h
  rfl

variable [AddCommMonoid M] {f : α → M}

theorem sum_ite_key {ks : List κ} (hks : ks.Nodup) (k : κ) (a : M) :
    (ks.map fun k' => if k = k' then a else 0).sum = if k ∈ ks then a else 0 := by
  induction ks with
  | nil => rfl
  | cons first rest ih =>
    obtain ⟨hfirst, hrest⟩ := List.nodup_cons.mp hks
    by_cases hk : k = first
    · subst hk
      simp [ih hrest, hfirst]
    · simp [ih hrest, hk]

theorem sum_fibers {ks : List κ} (hks : ks.Nodup) :
    (ks.map fun k => ((rows.filter fun row => key row = k).map f).sum).sum =
      ((rows.filter fun row => key row ∈ ks).map f).sum := by
  induction rows with
  | nil => simp
  | cons row rest ih =>
    have hcons (q : α → Bool) : (((row :: rest).filter q).map f).sum =
        (if q row = true then f row else 0) + ((rest.filter q).map f).sum := by
      cases hq : q row <;> simp [hq]
    simp only [hcons, List.sum_map_add, ih, decide_eq_true_eq, sum_ite_key hks]

theorem sum_groupBy : ((groupBy key rows).map fun group => (group.2.map f).sum).sum = (rows.map f).sum := by
  have hall : rows.filter (fun row => key row ∈ (rows.map key).dedup) = rows :=
    List.filter_eq_self.mpr fun row hrow => by simpa using ⟨row, hrow, rfl⟩
  have hfibers : ((rows.map key).dedup.map fun k => ((rows.filter fun row => key row = k).map f).sum).sum =
      ((rows.filter fun row => key row ∈ (rows.map key).dedup).map f).sum := sum_fibers (List.nodup_dedup _)
  rw [hall] at hfibers
  simpa [groupBy, Function.comp_def] using hfibers

end Groups

end Relational
