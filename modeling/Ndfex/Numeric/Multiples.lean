import Mathlib.Algebra.Order.Ring.Int
import Mathlib.Order.Bounds.Defs

/-!
# The multiples next to an integer

The greatest multiple below an integer and the least one above it, from the remainder. A remainder that is
taken modulo a power of the base serves as well, if the divisor divides that power.

## Main results

* `Numeric.isGreatest_multiple`, `Numeric.isLeast_multiple`: the multiples next to an integer
* `Numeric.add_emod_eq_iff`: when a remainder does not see a summand
-/

namespace Numeric

variable {t x : ℤ}

/-- **The greatest multiple** that is not above an integer. -/
theorem isGreatest_multiple (ht : 0 < t) (x : ℤ) : IsGreatest {n | t ∣ n ∧ n ≤ x} (x - x % t) := by
  have hnonneg := Int.emod_nonneg x ht.ne'
  refine ⟨⟨Int.dvd_self_sub_emod, by omega⟩, ?_⟩
  rintro n ⟨⟨k, rfl⟩, hle⟩
  have hsplit := Int.mul_ediv_add_emod x t
  have hk : k ≤ x / t := (Int.le_ediv_iff_mul_le ht).mpr (by rwa [mul_comm])
  have hmul := Int.mul_le_mul_of_nonneg_left hk ht.le
  omega

/-- **The least multiple** that is not below an integer which is none itself. -/
theorem isLeast_multiple (ht : 0 < t) (hx : ¬ t ∣ x) :
    IsLeast {n | t ∣ n ∧ x ≤ n} (x + (t - x % t)) := by
  have hlt := Int.emod_lt_of_pos x ht
  have hsplit := Int.mul_ediv_add_emod x t
  have hnext : x + (t - x % t) = t * (x / t + 1) := by
    rw [mul_add, mul_one]
    omega
  refine ⟨⟨⟨x / t + 1, hnext⟩, by omega⟩, ?_⟩
  rintro n ⟨⟨k, rfl⟩, hle⟩
  rw [hnext]
  refine Int.mul_le_mul_of_nonneg_left ?_ ht.le
  -- a multiple below would be the integer itself
  by_contra hlow
  have hk : k ≤ x / t := by omega
  have hmul := Int.mul_le_mul_of_nonneg_left hk ht.le
  have hnonneg := Int.emod_nonneg x ht.ne'
  have hzero : x % t = 0 := by omega
  exact hx (Int.dvd_of_emod_eq_zero hzero)

/-- A multiple is the least one not below itself. -/
theorem isLeast_self (hx : t ∣ x) : IsLeast {n | t ∣ n ∧ x ≤ n} x :=
  ⟨⟨hx, le_rfl⟩, fun _ hn => hn.2⟩

/-- **A summand that the remainder does not see** is a multiple. -/
theorem add_emod_eq_iff {w : ℤ} : (x + w) % t = x % t ↔ t ∣ w := by
  rw [Int.emod_eq_emod_iff_emod_sub_eq_zero, add_sub_cancel_left, Int.dvd_iff_emod_eq_zero]

end Numeric
