import Mathlib.Algebra.Ring.Int.Defs
import Mathlib.Algebra.Ring.Nat
import Mathlib.Data.Int.Notation
import Mathlib.Tactic.SplitIfs

/-!
# Integers modulo 2^32

The unsigned and the signed numbers of 32 bits are the integers modulo 2^32: sums, differences and
products of what fits in 32 bits are exact up to multiples of 2^32, however large they are, and so is
the conversion between the two.

## Main results

* `Wire.toInt32_ofInt`, `Wire.toUInt32_ofInt`: the conversions
* `Wire.toInt_ofInt_iff`: the integers that a signed number of 32 bits holds
* `Wire.toNat_toUInt32`: a signed number as an unsigned one
-/

namespace Wire

theorem toBitVec_ofInt (n : ℤ) : (UInt32.ofInt n).toBitVec = BitVec.ofInt 32 n := by
  apply BitVec.eq_of_toNat_eq
  rw [BitVec.toNat_ofInt, UInt32.toNat_toBitVec, UInt32.ofInt, UInt32.toNat_ofNat']
  have hlt : (n % 2 ^ 32).toNat < 2 ^ 32 := by omega
  exact Nat.mod_eq_of_lt hlt

/-- An integer as a signed number. -/
theorem toInt32_ofInt (n : ℤ) : (UInt32.ofInt n).toInt32 = Int32.ofInt n :=
  Int32.toBitVec.inj (toBitVec_ofInt n)

/-- An integer as an unsigned number. -/
theorem toUInt32_ofInt (n : ℤ) : (Int32.ofInt n).toUInt32 = UInt32.ofInt n := by
  rw [← toInt32_ofInt, UInt32.toUInt32_toInt32]

theorem ofInt_toNat (q : UInt32) : UInt32.ofInt (q.toNat : ℤ) = q := by
  have hlt := q.toNat_lt
  apply UInt32.toNat_inj.mp
  rw [UInt32.ofInt, UInt32.toNat_ofNat']
  omega

theorem ofInt_toInt (p : Int32) : UInt32.ofInt p.toInt = p.toUInt32 := by
  rw [← toUInt32_ofInt, Int32.ofInt_toInt]

theorem ofInt_sub (m n : ℤ) : UInt32.ofInt (m - n) = UInt32.ofInt m - UInt32.ofInt n := by
  rw [Int.sub_eq_add_neg, UInt32.ofInt_add, UInt32.ofInt_neg, UInt32.sub_eq_add_neg]

/-- **The integers that fit** in a signed number. -/
theorem toInt_ofInt_iff {n : ℤ} : (Int32.ofInt n).toInt = n ↔ -2 ^ 31 ≤ n ∧ n < 2 ^ 31 := by
  refine ⟨fun h => ?_, fun h => Int32.toInt_ofInt_of_le h.1 h.2⟩
  have hle := (Int32.ofInt n).le_toInt
  have hlt := (Int32.ofInt n).toInt_lt
  omega

theorem toNat_ofInt {n : ℤ} (h : 0 ≤ n) (h' : n < 2 ^ 32) : ((UInt32.ofInt n).toNat : ℤ) = n := by
  rw [UInt32.ofInt, UInt32.toNat_ofNat']
  omega

/-- **A signed number as an unsigned one**: 2^32 are added to a negative number. -/
theorem toNat_toUInt32 (p : Int32) :
    (p.toUInt32.toNat : ℤ) = if 0 ≤ p.toInt then p.toInt else p.toInt + 2 ^ 32 := by
  have hle := p.le_toInt
  have hlt := p.toInt_lt
  rw [← ofInt_toInt, UInt32.ofInt, UInt32.toNat_ofNat']
  split_ifs with hsign <;> omega

end Wire
