import Mathlib.Data.Int.Init
import Mathlib.Tactic.Linarith
import Streambox.Lib.BitField

/-! get_bits.h with `ALT_BITSTREAM_READER`: each call gets a cache of 32 bits out of the four bytes that
    the next bit is in, and takes what it wants off the high end of it.

        bytes    b0       b1       b2       b3       b4
                ├──────┬─┴────────┴────────┴───────┤
               index>>3 │index&7
                        └─ cache: 25 bits at least ─┘

    The buffer has no end here, as it has none in the code. Signed arithmetic wraps. -/

namespace Streambox.Flac
open Streambox.Lib.BitField

/-- An `int` out of a number that may be too large for it. -/
def int32 (x : Int) : Int := x.bmod (2 ^ 32)

/-- Why a function does not come to its end: it gives up, and leaves the context so, or what it does
    next has no meaning (a store behind an array, a read that goes on and on). -/
inductive Stop (σ : Type) where
  | error (s : σ)
  | fault
  deriving DecidableEq, Repr

/-- AV_RB32. -/
def be32 (mem : Mem) (k : Nat) : Nat :=
  (((mem k).toNat * 256 + (mem (k + 1)).toNat) * 256 + (mem (k + 2)).toNat) * 256 +
    (mem (k + 3)).toNat

/-- UPDATE_CACHE. -/
def updateCache (mem : Mem) (index : Nat) : Nat := be32 mem (index >>> 3) <<< (index &&& 7) % 2 ^ 32

/-- SHOW_UBITS. -/
def showUbits (cache n : Nat) : Nat := cache >>> (32 - n)

/-- SHOW_SBITS. -/
def showSbits (cache n : Nat) : Int := int32 cache >>> (32 - n)

variable {σ : Type}

/-- A shift by 32 bits has no meaning. -/
def getBits (n : Nat) : Reader (Stop σ) Nat := fun mem index =>
  if n = 0 ∨ 32 < n then .error .fault
  else .ok (showUbits (updateCache mem index) n, index + n)

def getSbits (n : Nat) : Reader (Stop σ) Int := fun mem index =>
  if n = 0 ∨ 32 < n then .error .fault
  else .ok (showSbits (updateCache mem index) n, index + n)

def getBits1 : Reader (Stop σ) Nat := fun mem index =>
  .ok (((mem (index >>> 3)).toNat <<< (index &&& 7) % 2 ^ 8) >>> 7, index + 1)

def skipBits (n : Nat) : Reader (Stop σ) Unit := fun _ index => .ok ((), index + n)

def getBitsLong (n : Nat) : Reader (Stop σ) Nat :=
  if n ≤ 17 then getBits n
  else do
    let ret ← getBits 16
    let low ← getBits (n - 16)
    pure (ret <<< (n - 16) ||| low)

def signExtend (val bits : Nat) : Int := int32 (val <<< (32 - bits) : Nat) >>> (32 - bits)

def getSbitsLong (n : Nat) : Reader (Stop σ) Int := do
  let val ← getBitsLong n
  pure (signExtend val n)

/-- The bits up to the next byte are `(-index) & 7`. -/
def alignGetBits : Reader (Stop σ) Unit := fun _ index => .ok ((), index + (8 - index % 8) % 8)

/-! ### The cache -/

theorem be32_eq (mem : Mem) (k : Nat) : be32 mem k = window mem (8 * k) 32 := by
  have hsplit : window mem (8 * k) 32 = ((window mem (8 * k) 8 * 2 ^ 8 + window mem (8 * (k + 1)) 8) *
      2 ^ 8 + window mem (8 * (k + 2)) 8) * 2 ^ 8 + window mem (8 * (k + 3)) 8 := by
    rw [show 32 = 8 + 8 + 8 + 8 from rfl, window_add, window_add, window_add]
    rfl
  rw [hsplit]
  simp only [window_byte, be32]
  norm_num

/-- The cache has the next bits, and zeros below them. -/
theorem updateCache_eq (mem : Mem) (index : Nat) :
    updateCache mem index = window mem index (32 - index % 8) * 2 ^ (index % 8) := by
  have hmod : index &&& 7 = index % 8 := Nat.and_two_pow_sub_one_eq_mod index 3
  have hdiv : index >>> 3 = index / 8 := Nat.shiftRight_eq_div_pow index 3
  have hpow : 2 ^ (32 - index % 8) * 2 ^ (index % 8) = 2 ^ 32 := by
    rw [← Nat.pow_add, Nat.sub_add_cancel (by omega)]
  have hwindow : window mem (8 * (index / 8)) 32 =
      window mem (8 * (index / 8)) (index % 8) * 2 ^ (32 - index % 8) +
        window mem index (32 - index % 8) := by
    have hadd := window_add mem (8 * (index / 8)) (index % 8) (32 - index % 8)
    rwa [Nat.add_sub_cancel' (by omega), Nat.div_add_mod] at hadd
  have hlt : window mem index (32 - index % 8) * 2 ^ (index % 8) < 2 ^ 32 := by
    rw [← hpow]
    exact Nat.mul_lt_mul_of_pos_right (window_lt mem index _) (Nat.two_pow_pos _)
  rw [updateCache, be32_eq, hmod, hdiv, Nat.shiftLeft_eq, hwindow, Nat.add_mul, Nat.mul_assoc, hpow,
    Nat.mul_add_mod_of_lt hlt]

/-- What is below the bits that are shown. -/
theorem updateCache_split (mem : Mem) (index n : Nat) (hn : n ≤ 32 - index % 8) :
    ∃ low < 2 ^ (32 - n), updateCache mem index = window mem index n * 2 ^ (32 - n) + low := by
  refine ⟨window mem (index + n) (32 - index % 8 - n) * 2 ^ (index % 8), ?_, ?_⟩
  · have hlt := window_lt mem (index + n) (32 - index % 8 - n)
    calc _ < 2 ^ (32 - index % 8 - n) * 2 ^ (index % 8) :=
          Nat.mul_lt_mul_of_pos_right hlt (Nat.two_pow_pos _)
      _ = 2 ^ (32 - n) := by
          rw [← Nat.pow_add]
          congr 1
          omega
  · rw [updateCache_eq]
    conv_lhs => rw [← Nat.add_sub_cancel' hn, window_add, Nat.add_mul, Nat.mul_assoc, ← Nat.pow_add]
    rw [show 32 - index % 8 - n + index % 8 = 32 - n by omega]

theorem showUbits_eq {mem : Mem} {index n : Nat} (hn : n ≤ 32 - index % 8) :
    showUbits (updateCache mem index) n = window mem index n := by
  obtain ⟨low, hlow, heq⟩ := updateCache_split mem index n hn
  rw [showUbits, heq, Nat.shiftRight_eq_div_pow, Nat.mul_comm, Nat.mul_add_div (Nat.two_pow_pos _),
    Nat.div_eq_of_lt hlow, Nat.add_zero]

/-! ### Numbers -/

/-- A number that `n` bits can hold with a sign. -/
def Signed (n : Nat) (v : Int) : Prop := -2 ^ (n - 1) ≤ v ∧ v < 2 ^ (n - 1)

instance (n : Nat) (v : Int) : Decidable (Signed n v) := inferInstanceAs (Decidable (_ ∧ _))

/-- The two's complement of a number, in `n` bits. -/
def sfield (n : Nat) (v : Int) : List Bool := field n (v % 2 ^ n).toNat

@[simp] theorem length_sfield (n : Nat) (v : Int) : (sfield n v).length = n := by
  simp [sfield]

theorem int32_of_signed {v : Int} (h : Signed 32 v) : int32 v = v := by
  have h' : -2 ^ 31 ≤ v ∧ v < 2 ^ 31 := h
  rw [int32, Int.bmod_eq_of_le (by omega) (by omega)]

theorem reads_getBits {n v : Nat} (hpos : 0 < n) (hn : n ≤ 25) (hv : v < 2 ^ n) :
    Reads (getBits n : Reader (Stop σ) Nat) (field n v) v := by
  intro mem index hbits
  rw [getBits, if_neg (by omega), showUbits_eq (by omega), window_of_holds hbits,
    Nat.mod_eq_of_lt hv, length_field]

theorem reads_getBits1 (bit : Bool) :
    Reads (getBits1 : Reader (Stop σ) Nat) [bit] bit.toNat := by
  intro mem index hbits
  have hbit : bitAt mem index = bit := hbits 0 (by simp)
  have hmod : index &&& 7 = index % 8 := Nat.and_two_pow_sub_one_eq_mod index 3
  have hdiv : index >>> 3 = index / 8 := Nat.shiftRight_eq_div_pow index 3
  have hlow : 2 ^ 8 = 2 ^ (8 - index % 8) * 2 ^ (index % 8) := by
    rw [← Nat.pow_add, Nat.sub_add_cancel (by omega)]
  have hhigh : 2 ^ 7 = 2 ^ (7 - index % 8) * 2 ^ (index % 8) := by
    rw [← Nat.pow_add, Nat.sub_add_cancel (by omega)]
  have hvalue : ((mem (index / 8)).toNat <<< (index % 8) % 2 ^ 8) >>> 7 = bit.toNat := by
    rw [← hbit, bitAt, Nat.toNat_testBit, Nat.shiftLeft_eq, Nat.shiftRight_eq_div_pow, hlow, hhigh,
      Nat.mul_mod_mul_right, Nat.mul_div_mul_right _ _ (Nat.two_pow_pos _),
      show 8 - index % 8 = 7 - index % 8 + 1 by omega, Nat.pow_succ, Nat.mod_mul_right_div_self]
  rw [getBits1, hmod, hdiv, hvalue]
  rfl

theorem reads_skipBits (bits : List Bool) :
    Reads (skipBits bits.length : Reader (Stop σ) Unit) bits () :=
  fun _ _ _ => rfl

theorem reads_skipField (n v : Nat) : Reads (skipBits n : Reader (Stop σ) Unit) (field n v) () := by
  have hread := reads_skipBits (σ := σ) (field n v)
  rwa [length_field] at hread

theorem reads_getBitsLong {n v : Nat} (hpos : 0 < n) (hn : n ≤ 32) (hv : v < 2 ^ n) :
    Reads (getBitsLong n : Reader (Stop σ) Nat) (field n v) v := by
  rw [getBitsLong]
  split
  · exact reads_getBits hpos (by omega) hv
  · have hhigh : v >>> (n - 16) < 2 ^ 16 := by
      rw [Nat.shiftRight_eq_div_pow, Nat.div_lt_iff_lt_mul (Nat.two_pow_pos _), ← Nat.pow_add,
        Nat.add_sub_cancel' (by omega)]
      exact hv
    have hlow : v % 2 ^ (n - 16) < 2 ^ (n - 16) := Nat.mod_lt _ (Nat.two_pow_pos _)
    have hvalue : v >>> (n - 16) <<< (n - 16) ||| v % 2 ^ (n - 16) = v := by
      rw [← Nat.shiftLeft_add_eq_or_of_lt hlow, Nat.shiftLeft_eq, Nat.shiftRight_eq_div_pow,
        Nat.div_add_mod']
    have hbits : field n v = field 16 (v >>> (n - 16)) ++ field (n - 16) (v % 2 ^ (n - 16)) := by
      rw [field_mod, ← field_add, Nat.add_sub_cancel' (by omega)]
    rw [hbits]
    refine (reads_getBits (by omega) (by omega) hhigh).bind ?_
    have hread := Reads.map (reads_getBits (σ := σ) (n := n - 16) (by omega) (by omega) hlow)
      fun low => v >>> (n - 16) <<< (n - 16) ||| low
    rwa [hvalue] at hread

/-- The sign is the highest bit; what is below the number does not matter. -/
theorem int32_shiftRight {n m low : Nat} {v : Int} (hpos : 0 < n) (hnm : n + m = 32)
    (hv : Signed n v) (hlow : low < 2 ^ m) :
    int32 (((v % 2 ^ n).toNat * 2 ^ m + low : Nat) : Int) >>> m = v := by
  obtain ⟨hmin, hmax⟩ := hv
  have hm : (0 : Int) < 2 ^ m := Int.pow_pos (by omega)
  have hn : (0 : Int) < 2 ^ n := Int.pow_pos (by omega)
  have hlow' : (low : Int) < 2 ^ m := by exact_mod_cast hlow
  have hfull : (2 : Int) ^ n * 2 ^ m = 2 ^ 32 := by rw [← Int.pow_add, hnm]
  have hhalf : (2 : Int) ^ (n - 1) * 2 ^ m = 2 ^ 31 := by
    rw [← Int.pow_add, show n - 1 + m = 31 by omega]
  have hval : (((v % 2 ^ n).toNat * 2 ^ m + low : Nat) : Int) =
      v * 2 ^ m + low + 2 ^ 32 * -(v / 2 ^ n) := by
    have hmod : v % 2 ^ n = v - 2 ^ n * (v / 2 ^ n) := Int.emod_def v (2 ^ n)
    rw [← hfull]
    push_cast
    rw [Int.toNat_of_nonneg (Int.emod_nonneg v hn.ne'), hmod]
    ring
  have hmin' : -2 ^ 31 ≤ v * 2 ^ m := by
    rw [← hhalf, ← Int.neg_mul]
    exact Int.mul_le_mul_of_nonneg_right hmin hm.le
  have hmax' : (v + 1) * 2 ^ m ≤ 2 ^ 31 := by
    rw [← hhalf]
    exact Int.mul_le_mul_of_nonneg_right hmax hm.le
  rw [Int.add_mul, Int.one_mul] at hmax'
  have hwrap : int32 (v * 2 ^ m + low + 2 ^ 32 * -(v / 2 ^ n)) = int32 (v * 2 ^ m + low) := by
    exact Int.add_mul_bmod_self_left _ _ _
  rw [hval, hwrap, int32_of_signed ⟨by norm_num; omega, by norm_num; omega⟩,
    Int.shiftRight_eq_div_pow]
  push_cast
  rw [Int.add_comm, Int.add_mul_ediv_right _ _ hm.ne',
    Int.ediv_eq_zero_of_lt (Int.natCast_nonneg low) hlow', Int.zero_add]

theorem sfield_lt (n : Nat) (v : Int) : (v % 2 ^ n).toNat < 2 ^ n := by
  have hn : (0 : Int) < 2 ^ n := Int.pow_pos (by omega)
  have hlt := Int.emod_lt_of_pos v hn
  rw [Int.toNat_lt (Int.emod_nonneg v hn.ne')]
  exact_mod_cast hlt

theorem reads_getSbits {n : Nat} {v : Int} (hpos : 0 < n) (hn : n ≤ 25) (hv : Signed n v) :
    Reads (getSbits n : Reader (Stop σ) Int) (sfield n v) v := by
  intro mem index hbits
  obtain ⟨low, hlow, hcache⟩ := updateCache_split mem index n (by omega)
  rw [window_of_holds hbits, Nat.mod_eq_of_lt (sfield_lt n v)] at hcache
  rw [getSbits, if_neg (by omega), showSbits, hcache,
    int32_shiftRight hpos (by omega) hv hlow, length_sfield]

theorem reads_getSbitsLong {n : Nat} {v : Int} (hpos : 0 < n) (hn : n ≤ 32) (hv : Signed n v) :
    Reads (getSbitsLong n : Reader (Stop σ) Int) (sfield n v) v := by
  have hread := Reads.map (reads_getBitsLong (σ := σ) hpos hn (sfield_lt n v))
    fun val => signExtend val n
  have hval : signExtend (v % 2 ^ n).toNat n = v := by
    have hshift := int32_shiftRight (m := 32 - n) hpos (by omega) hv
      (Nat.two_pow_pos _)
    rwa [Nat.add_zero, ← Nat.shiftLeft_eq] at hshift
  rwa [hval] at hread

end Streambox.Flac
