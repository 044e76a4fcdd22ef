import Mathlib.Data.Int.Log
import Mathlib.Data.Rat.Floor
import Mathlib.Tactic.FieldSimp
import Mathlib.Tactic.Linarith
import Mathlib.Tactic.NormNum
import Mathlib.Tactic.Positivity
import Mathlib.Tactic.Ring

/-!
# Rounding to binary64

The rounding of a rational to the nearest number of so many digits to some base, ties to the even
significand. The range of the exponents is not limited. With 53 binary digits it is the arithmetic of
`double`, a `double` being the rational number it is, where no result overflows or is subnormal. With six
decimal digits it is what a stream prints of a number.

## Main definitions

* `Numeric.roundHalfEven`: the nearest integer
* `Numeric.toDigits`: the nearest number of so many digits
* `Numeric.toBinary64`: the nearest number with a significand of 53 bits

## Main results

* `Numeric.abs_toDigits_sub_le`: the relative error is at most half a unit of the last digit
* `Numeric.abs_toBinary64_sub_le`: the relative error is at most `2 ^ (-53)`
* `Numeric.toBinary64_natCast`: the natural numbers below `2 ^ 53` are exact
* `Numeric.floor_toBinary64_div`: the rounded quotient of two such numbers has the integer part of the
  quotient
-/

namespace Numeric

/-- The nearest integer; of two, the even one. -/
def roundHalfEven (x : ℚ) : ℤ :=
  if Int.fract x < 1 / 2 then ⌊x⌋
  else if Int.fract x = 1 / 2 ∧ ⌊x⌋ % 2 = 0 then ⌊x⌋
  else ⌊x⌋ + 1

theorem abs_roundHalfEven_sub_le (x : ℚ) : |(roundHalfEven x : ℚ) - x| ≤ 1 / 2 := by
  have hparts : x = ⌊x⌋ + Int.fract x := (Int.floor_add_fract x).symm
  have hnonneg := Int.fract_nonneg x
  have hlt := Int.fract_lt_one x
  unfold roundHalfEven
  rw [abs_le]
  split_ifs with hless heven
  · constructor <;> linarith
  · constructor <;> linarith [heven.1]
  · push_cast
    constructor <;> linarith [not_lt.mp hless]

theorem roundHalfEven_intCast (n : ℤ) : roundHalfEven (n : ℚ) = n := by
  unfold roundHalfEven
  rw [if_pos (by norm_num), Int.floor_intCast]

/-- The exponent of the last of the digits to the base `b`. -/
def lastPlace (b digits : ℕ) (x : ℚ) : ℤ := Int.log b |x| + 1 - digits

/-- **The nearest number of so many digits** to the base `b`. -/
def toDigits (b digits : ℕ) (x : ℚ) : ℚ :=
  roundHalfEven (x / b ^ lastPlace b digits x) * b ^ lastPlace b digits x

theorem toDigits_zero (b digits : ℕ) : toDigits b digits 0 = 0 := by
  have hzero : roundHalfEven 0 = 0 := roundHalfEven_intCast 0
  rw [toDigits, zero_div, hzero, Int.cast_zero, zero_mul]

/-- **The relative error** of the rounding. -/
theorem abs_toDigits_sub_le {b : ℕ} (hb : 1 < b) (digits : ℕ) (x : ℚ) :
    |toDigits b digits x - x| ≤ |x| * b ^ (1 - digits : ℤ) / 2 := by
  rcases eq_or_ne x 0 with rfl | hx
  · simp [toDigits_zero]
  have hpos : 0 < |x| := abs_pos.mpr hx
  have hbase : (0 : ℚ) < b := by exact_mod_cast hb.pos
  set place : ℚ := b ^ lastPlace b digits x with hplace
  have hplace_pos : 0 < place := zpow_pos hbase _
  have hscaled : toDigits b digits x - x = (roundHalfEven (x / place) - x / place) * place := by
    rw [toDigits, ← hplace]
    field_simp
  -- a unit of the last place is at most the number shifted by the other digits
  have hlog : (b : ℚ) ^ Int.log b |x| ≤ |x| := Int.zpow_log_le_self hb hpos
  have hunit : place ≤ |x| * b ^ (1 - digits : ℤ) := by
    rw [hplace, lastPlace, add_sub_assoc, zpow_add₀ hbase.ne']
    exact mul_le_mul_of_nonneg_right hlog (zpow_pos hbase _).le
  calc |toDigits b digits x - x|
      = |(roundHalfEven (x / place) : ℚ) - x / place| * place := by
        rw [hscaled, abs_mul, abs_of_pos hplace_pos]
    _ ≤ 1 / 2 * place := by
        exact mul_le_mul_of_nonneg_right (abs_roundHalfEven_sub_le _) hplace_pos.le
    _ ≤ 1 / 2 * (|x| * b ^ (1 - digits : ℤ)) := by
        exact mul_le_mul_of_nonneg_left hunit (by norm_num)
    _ = |x| * b ^ (1 - digits : ℤ) / 2 := by
        ring

/-- **The nearest binary64 number**. -/
def toBinary64 (x : ℚ) : ℚ := toDigits 2 53 x

theorem toBinary64_zero : toBinary64 0 = 0 := toDigits_zero 2 53

/-- The relative error of the rounding to 53 bits. -/
theorem abs_toBinary64_sub_le (x : ℚ) : |toBinary64 x - x| ≤ |x| * 2 ^ (-53 : ℤ) := by
  refine (abs_toDigits_sub_le Nat.one_lt_two 53 x).trans_eq ?_
  norm_num
  ring

/-- **Natural numbers below `2 ^ 53`** are exact. -/
theorem toBinary64_natCast {n : ℕ} (hn : n < 2 ^ 53) : toBinary64 n = n := by
  rcases Nat.eq_zero_or_pos n with rfl | hpos
  · exact toBinary64_zero
  -- the last place is no higher than the units, so scaling gives an integer
  have hlog : Int.log 2 |(n : ℚ)| = Nat.log 2 n := by
    rw [Nat.abs_cast, Int.log_natCast]
  have hle : Nat.log 2 n ≤ 52 := Nat.lt_succ_iff.mp (Nat.log_lt_of_lt_pow hpos.ne' hn)
  obtain ⟨k, hk⟩ := Nat.exists_eq_add_of_le hle
  have hplace : lastPlace 2 53 n = -(k : ℤ) := by
    rw [lastPlace, hlog]
    omega
  have hscaled : (n : ℚ) / (2 : ℕ) ^ lastPlace 2 53 n = ((n * 2 ^ k : ℕ) : ℤ) := by
    rw [hplace, zpow_neg, div_inv_eq_mul, zpow_natCast]
    push_cast
    ring
  rw [toBinary64, toDigits, hscaled, roundHalfEven_intCast, hplace, zpow_neg, zpow_natCast]
  push_cast
  field_simp

/-- **The integer part of a rounded quotient** is the one of the quotient. -/
theorem floor_toBinary64_div {a b : ℕ} (ha : a < 2 ^ 53) (hb : 0 < b) :
    ⌊toBinary64 ((a : ℚ) / b)⌋ = ((a / b : ℕ) : ℤ) := by
  have hb' : (0 : ℚ) < b := by exact_mod_cast hb
  have hdiv : (a : ℚ) / b = (a / b : ℕ) + ((a % b : ℕ) : ℚ) / b := by
    have hsplit : ((b * (a / b) + a % b : ℕ) : ℚ) = a := by rw [Nat.div_add_mod]
    push_cast at hsplit
    field_simp
    linarith
  rcases Nat.eq_zero_or_pos (a % b) with hrem | hrem
  · rw [hdiv, hrem, Nat.cast_zero, zero_div, add_zero, toBinary64_natCast, Int.floor_natCast]
    exact (Nat.div_le_self a b).trans_lt ha
  -- the quotient is at least `1 / b` away from the integers around it, and the error is smaller
  have hnonneg : (0 : ℚ) ≤ (a : ℚ) / b := by positivity
  have herror := abs_toBinary64_sub_le ((a : ℚ) / b)
  rw [abs_of_nonneg hnonneg, abs_le] at herror
  have hsmall : (a : ℚ) / b * 2 ^ (-53 : ℤ) < 1 / b := by
    have ha' : (a : ℚ) < 2 ^ 53 := by exact_mod_cast ha
    have hunit : (2 : ℚ) ^ (-53 : ℤ) = 1 / 2 ^ 53 := by norm_num
    rw [div_mul_eq_mul_div, div_lt_div_iff_of_pos_right hb', hunit, mul_one_div,
      div_lt_one (by positivity)]
    exact ha'
  have hlow : (1 : ℚ) / b ≤ ((a % b : ℕ) : ℚ) / b := by
    rw [div_le_div_iff_of_pos_right hb']
    exact_mod_cast hrem
  have hhigh : ((a % b : ℕ) : ℚ) / b ≤ 1 - 1 / b := by
    have hlt : ((a % b : ℕ) : ℚ) + 1 ≤ b := by exact_mod_cast Nat.mod_lt a hb
    rw [div_le_iff₀ hb', sub_mul, one_div, inv_mul_cancel₀ hb'.ne']
    linarith
  rw [Int.floor_eq_iff, Int.cast_natCast]
  constructor <;> linarith

end Numeric
