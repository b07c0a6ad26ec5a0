import Mathlib.Algebra.Order.Ring.Int

namespace Binary64

/-- The integer nearest to `n / d`, the even one of two. -/
def nearestEven (n d : ℕ) : ℕ :=
  if 2 * (n % d) < d ∨ 2 * (n % d) = d ∧ n / d % 2 = 0 then n / d else n / d + 1

-- the distance of the doubles around `n`
def ulp (n : ℕ) : ℕ := 2 ^ (n.log2 - 52)

def round (n : ℕ) : ℕ := nearestEven n (ulp n) * ulp n

/-- The double nearest to an integer, in the range where none is infinite. -/
def ofInt (n : ℤ) : ℤ := n.sign * round n.natAbs

theorem round_of_lt {n : ℕ} (h : n < 2 ^ 53) : round n = n := by
  have hlog : n.log2 - 52 = 0 := by
    rcases Nat.eq_zero_or_pos n with rfl | hpos
    · rfl
    · have := (Nat.log2_lt hpos.ne').mpr h
      omega
  simp [round, ulp, hlog, nearestEven, Nat.mod_one]

theorem round_of_le {n : ℕ} (h : n ≤ 2 ^ 53) : round n = n := by
  rcases h.lt_or_eq with hlt | rfl
  · exact round_of_lt hlt
  · decide

theorem ofInt_of_le {n : ℤ} (hpos : 0 ≤ n) (h : n ≤ 2 ^ 53) : ofInt n = n := by
  have hround : round n.natAbs = n.natAbs := round_of_le (by omega)
  rw [ofInt, hround, Int.sign_mul_natAbs]

end Binary64
