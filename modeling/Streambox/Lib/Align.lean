import Mathlib.Algebra.Group.Nat.Defs
import Mathlib.Data.Nat.Bitwise

/-! Rounding up to an alignment, as C code does it on 64-bit sizes.

    `(x + a - 1) & ~(a - 1)` is the least multiple of `a` that is not below `x` if `a` is a power of
    two and the sum does not overflow. -/

namespace Streambox.Lib

/-- Round up by clearing the low bits. -/
def alignUp (x a : UInt64) : UInt64 := (x + a - 1) &&& ~~~(a - 1)

/-- Clearing the low bits rounds down to a multiple of the power of two. -/
theorem toNat_and_not_mask {x m : UInt64} {k : Nat} (hm : m.toNat = 2 ^ k - 1) :
    (x &&& ~~~m).toNat = x.toNat / 2 ^ k * 2 ^ k := by
  have hlt : 2 ^ k - 1 < 2 ^ 64 := hm ▸ m.toNat_lt
  rw [UInt64.toNat_and, UInt64.toNat_not, hm, ← Nat.shiftRight_eq_div_pow, ← Nat.shiftLeft_eq]
  have hsize : UInt64.size - 1 - (2 ^ k - 1) = 2 ^ 64 - (2 ^ k - 1 + 1) := by
    rw [Nat.sub_sub, Nat.add_comm 1]
    rfl
  refine Nat.eq_of_testBit_eq fun i => ?_
  rw [hsize, Nat.testBit_and, Nat.testBit_two_pow_sub_succ hlt, Nat.testBit_two_pow_sub_one,
    Nat.testBit_shiftLeft]
  by_cases hi : i < k
  · simp [hi, Nat.not_le.mpr hi]
  · have hk : k ≤ i := Nat.not_lt.mp hi
    have hx : i < 64 ∨ x.toNat.testBit i = false := by
      refine (Nat.lt_or_ge i 64).imp_right fun h => Nat.testBit_lt_two_pow ?_
      exact Nat.lt_of_lt_of_le x.toNat_lt (Nat.pow_le_pow_right Nat.two_pos h)
    rw [Nat.testBit_shiftRight, Nat.add_sub_cancel' hk]
    rcases hx with hx | hx <;> simp [hi, hk, hx]

variable {x a : UInt64} {k n : Nat}

/-- What rounding up gives, if the sum does not overflow. -/
theorem toNat_alignUp (ha : a.toNat = 2 ^ k) (hsum : x.toNat + a.toNat < 2 ^ 64) :
    (alignUp x a).toNat = (x.toNat + a.toNat - 1) / a.toNat * a.toNat := by
  have hpos : 0 < a.toNat := ha ▸ Nat.two_pow_pos k
  have hone : (1 : UInt64) ≤ a := UInt64.le_iff_toNat_le.mpr hpos
  have hmask : (a - 1).toNat = 2 ^ k - 1 := by
    rw [UInt64.toNat_sub_of_le _ _ hone, ha]
    rfl
  have hadd : (x + a).toNat = x.toNat + a.toNat := by
    rw [UInt64.toNat_add, Nat.mod_eq_of_lt hsum]
  have hle : (1 : UInt64) ≤ x + a := by
    rw [UInt64.le_iff_toNat_le, hadd]
    exact Nat.le_trans hpos (Nat.le_add_left _ _)
  rw [alignUp, toNat_and_not_mask hmask, UInt64.toNat_sub_of_le _ _ hle, hadd, ha]
  rfl

/-- Rounding up a size that is at least `n` gives `n` exactly if the size is `n` and aligned. -/
theorem alignUp_eq_iff (ha : a.toNat = 2 ^ k) (hsum : x.toNat + a.toNat < 2 ^ 64)
    (hn : n ≤ x.toNat) : (alignUp x a).toNat = n ↔ x.toNat = n ∧ a.toNat ∣ n := by
  have hpos : 0 < a.toNat := ha ▸ Nat.two_pow_pos k
  rw [toNat_alignUp ha hsum]
  constructor
  · intro h
    have hmod := Nat.mod_lt (x.toNat + a.toNat - 1) hpos
    have hdiv := Nat.div_add_mod' (x.toNat + a.toNat - 1) a.toNat
    refine ⟨by omega, ?_⟩
    rw [← h]
    exact Nat.dvd_mul_left _ _
  · rintro ⟨rfl, q, hq⟩
    rw [hq, Nat.add_sub_assoc hpos, Nat.mul_add_div hpos,
      Nat.div_eq_of_lt (Nat.sub_lt hpos Nat.one_pos),
      Nat.add_zero, Nat.mul_comm]

end Streambox.Lib
