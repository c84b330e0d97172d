import Mathlib.Tactic.IntervalCases
import Streambox.Flac.BitReader

/-! golomb.h: a Rice code is a row of zeros, a one, and the low `k` bits of the number.

        0 0 … 0   1   x x … x
        ├─ q ─┤       ├─ k ─┤        the number is q * 2^k + x

    The reader looks for the one in its cache and takes the whole code out of it. Where the one, or
    what is behind it, is too far down for the bits that are certain to be there, it goes over the
    zeros one at a time. Both give the number, for any `k` up to 24. -/

namespace Streambox.Flac
open Streambox.Lib.BitField

variable {σ : Type}

def ffLog2Tab : List Nat :=
  [0, 0, 1, 1] ++ List.replicate 4 2 ++ List.replicate 8 3 ++ List.replicate 16 4 ++
    List.replicate 32 5 ++ List.replicate 64 6 ++ List.replicate 128 7

def avLog2 (v : Nat) : Nat :=
  let (v, n) := if v &&& 0xffff0000 ≠ 0 then (v >>> 16, 16) else (v, 0)
  let (v, n) := if v &&& 0xff00 ≠ 0 then (v >>> 8, n + 8) else (v, n)
  n + ffLog2Tab.getD v 0

/-- The loop over the zeros. -/
def skipZeros : Nat → Nat → Reader (Stop σ) Nat
  | 0, _ => fun _ _ => .error .fault
  | fuel + 1, i => fun mem index =>
    if showUbits (updateCache mem index) 1 = 0 then skipZeros fuel (i + 1) mem (index + 1)
    else .ok (i, index)

/-- What is behind the one is taken out of the cache that has the one. -/
def getUrGolombJpegls (fuel k limit escLen : Nat) : Reader (Stop σ) Int := fun mem index =>
  let buf := updateCache mem index
  let log := avLog2 buf
  if k + 7 ≤ log ∧ 32 - log < limit then
    .ok (int32 ((buf >>> (log - k) : Nat) + (30 - log) * 2 ^ k), index + (32 + k - log))
  else
    (skipZeros fuel 0 mem index).bind fun (i, index) =>
      let cache := updateCache mem index <<< 1 % 2 ^ 32
      let index := index + 1
      if i < limit - 1 then
        let (buf, index) := if k ≠ 0 then (showUbits cache k, index + k) else (0, index)
        .ok (int32 (buf + i * 2 ^ k), index)
      else if i = limit - 1 then
        if escLen = 0 then .error .fault
        else .ok (int32 (showUbits cache escLen + 1), index + escLen)
      else .ok (-1, index)

def intMax : Nat := 2 ^ 31 - 1

/-- The sign is in the lowest bit. -/
def getSrGolombFlac (fuel k limit escLen : Nat) : Reader (Stop σ) Int := do
  let v ← getUrGolombJpegls fuel k limit escLen
  pure ((BitVec.ofInt 32 v).sshiftRight 1 ^^^ -(BitVec.ofInt 32 v &&& 1#32)).toInt

/-! ### The place of the highest bit -/

theorem ffLog2Tab_spec (v : Fin 256) (hv : v.val ≠ 0) :
    2 ^ ffLog2Tab.getD v.val 0 ≤ v.val ∧ v.val < 2 ^ (ffLog2Tab.getD v.val 0 + 1) := by
  revert v
  decide +kernel

/-- A mask of the upper half of a number's bits. -/
theorem and_upper_eq_zero {v m n : Nat} (hm : m = (2 ^ n - 1) <<< n) (hv : v < 2 ^ (n + n)) :
    v &&& m = 0 ↔ v < 2 ^ n := by
  have hhigh : m >>> n = 2 ^ n - 1 := by rw [hm, Nat.shiftLeft_shiftRight]
  have hlow : m % 2 ^ n = 0 := by rw [hm, Nat.shiftLeft_eq, Nat.mul_mod_left]
  constructor
  · intro h
    have hshift : (v &&& m) >>> n = v >>> n % 2 ^ n := by
      rw [Nat.shiftRight_and_distrib, hhigh, Nat.and_two_pow_sub_one_eq_mod]
    rw [h, Nat.zero_shiftRight, Nat.shiftRight_eq_div_pow, Nat.mod_eq_of_lt
      (Nat.div_lt_of_lt_mul (by rwa [← Nat.pow_add]))] at hshift
    have hdiv := Nat.lt_mul_div_succ v (Nat.two_pow_pos n)
    rwa [← hshift, Nat.zero_add, Nat.mul_one] at hdiv
  · intro h
    have hmod : (v &&& m) % 2 ^ n = 0 := by
      rw [Nat.and_mod_two_pow, hlow, Nat.and_zero]
    rwa [Nat.mod_eq_of_lt (Nat.lt_of_le_of_lt Nat.and_le_left h)] at hmod

/-- One half of the search. -/
theorem log2_shift {v n log : Nat} (hlog : 2 ^ log ≤ v >>> n ∧ v >>> n < 2 ^ (log + 1)) :
    2 ^ (log + n) ≤ v ∧ v < 2 ^ (log + n + 1) := by
  rw [Nat.shiftRight_eq_div_pow, Nat.le_div_iff_mul_le (Nat.two_pow_pos n),
    Nat.div_lt_iff_lt_mul (Nat.two_pow_pos n), ← Nat.pow_add, ← Nat.pow_add] at hlog
  rwa [Nat.add_right_comm log n 1]

theorem avLog2_byte {v n : Nat} (hpos : 0 < v) (hv : v < 2 ^ 16) :
    let r := if v &&& 0xff00 ≠ 0 then (v >>> 8, n + 8) else (v, n)
    ∃ log, r.2 + ffLog2Tab.getD r.1 0 = n + log ∧ 2 ^ log ≤ v ∧ v < 2 ^ (log + 1) := by
  have hmask : v &&& 0xff00 = 0 ↔ v < 2 ^ 8 := and_upper_eq_zero rfl hv
  by_cases hlow : v < 2 ^ 8
  · have hspec := ffLog2Tab_spec ⟨v, hlow⟩ hpos.ne'
    rw [if_neg (by simpa using hmask.mpr hlow)]
    exact ⟨_, rfl, hspec⟩
  · have hbyte : v >>> 8 < 256 := by
      rw [Nat.shiftRight_eq_div_pow]
      omega
    have hne : v >>> 8 ≠ 0 := by
      rw [Nat.shiftRight_eq_div_pow]
      omega
    have hspec := log2_shift (ffLog2Tab_spec ⟨v >>> 8, hbyte⟩ hne)
    rw [if_pos (by rwa [ne_eq, hmask])]
    exact ⟨_, by simp only; omega, hspec⟩

theorem avLog2_spec {v : Nat} (hpos : 0 < v) (hv : v < 2 ^ 32) :
    2 ^ avLog2 v ≤ v ∧ v < 2 ^ (avLog2 v + 1) := by
  have hmask : v &&& 0xffff0000 = 0 ↔ v < 2 ^ 16 := and_upper_eq_zero rfl hv
  by_cases hlow : v < 2 ^ 16
  · obtain ⟨log, hlog, hspec⟩ := avLog2_byte (n := 0) hpos hlow
    have hval : avLog2 v = 0 + log := by
      rw [← hlog, avLog2, if_neg (by simpa using hmask.mpr hlow)]
    rwa [hval, Nat.zero_add]
  · have hpos' : 0 < v >>> 16 := by
      rw [Nat.shiftRight_eq_div_pow]
      omega
    have hhalf : v >>> 16 < 2 ^ 16 := by
      rw [Nat.shiftRight_eq_div_pow]
      omega
    obtain ⟨log, hlog, hspec⟩ := avLog2_byte (n := 16) hpos' hhalf
    have hval : avLog2 v = log + 16 := by
      rw [Nat.add_comm log, ← hlog, avLog2, if_pos (by rwa [ne_eq, hmask])]
    rw [hval]
    exact log2_shift hspec

/-- The highest bit of a cache is where it is. -/
theorem avLog2_eq {v n low : Nat} (hn : n < 32) (hlow : low < 2 ^ n) (hv : v = 2 ^ n + low) :
    avLog2 v = n := by
  have hpow : 2 ^ (n + 1) ≤ 2 ^ 32 := Nat.pow_le_pow_right (by omega) hn
  rw [Nat.pow_succ] at hpow
  obtain ⟨hmin, hmax⟩ := avLog2_spec (v := v) (by have := Nat.two_pow_pos n; omega) (by omega)
  have hle : 2 ^ avLog2 v < 2 ^ (n + 1) := by
    rw [Nat.pow_succ]
    omega
  have hge : 2 ^ n < 2 ^ (avLog2 v + 1) := by omega
  rw [Nat.pow_lt_pow_iff_right (by omega)] at hle hge
  omega

/-! ### Codes -/

/-- The code for `u`. -/
def rice (k u : Nat) : List Bool := List.replicate (u >>> k) false ++ true :: field k u

/-- Numbers with a sign go 0, -1, 1, -2, 2 and so on. -/
def zigzag (r : Int) : Nat := if 0 ≤ r then (2 * r).toNat else (-2 * r - 1).toNat

theorem length_rice (k u : Nat) : (rice k u).length = (u >>> k) + 1 + k := by
  simp only [rice, List.length_append, List.length_replicate, List.length_cons, length_field]
  omega

theorem holds_rice {mem : Mem} {i k u : Nat} :
    Holds mem i (rice k u) ↔ Holds mem i (List.replicate (u >>> k) false) ∧
      bitAt mem (i + (u >>> k)) = true ∧ Holds mem (i + (u >>> k) + 1) (field k u) := by
  rw [rice, holds_append, holds_cons, List.length_replicate]

/-- The zeros and the one. -/
theorem window_unary {mem : Mem} {i q : Nat} (hzeros : Holds mem i (List.replicate q false))
    (hone : bitAt mem (i + q) = true) : window mem i (q + 1) = 1 := by
  rw [window, window_replicate hzeros, hone]
  rfl

theorem skipZeros_eq {mem : Mem} {q : Nat} (fuel i index : Nat) (hfuel : q < fuel)
    (hzeros : Holds mem index (List.replicate q false)) (hone : bitAt mem (index + q) = true) :
    (skipZeros fuel i : Reader (Stop σ) Nat) mem index = .ok (i + q, index + q) := by
  induction q generalizing fuel i index with
  | zero =>
    obtain ⟨fuel, rfl⟩ := Nat.exists_eq_add_one.mpr hfuel
    have hwindow : window mem index 1 = 1 := window_unary hzeros hone
    have hshow : showUbits (updateCache mem index) 1 = 1 := by rw [showUbits_eq (by omega), hwindow]
    simp [skipZeros, hshow]
  | succ q ih =>
    obtain ⟨fuel, rfl⟩ := Nat.exists_eq_add_one.mpr (Nat.zero_lt_of_lt hfuel)
    rw [List.replicate_succ, holds_cons] at hzeros
    have hwindow : window mem index 1 = 0 := by
      rw [window, window, Nat.add_zero, hzeros.1]
      rfl
    have hshow : showUbits (updateCache mem index) 1 = 0 := by rw [showUbits_eq (by omega), hwindow]
    have hrest := ih fuel (i + 1) (index + 1) (by omega) hzeros.2
      (by rwa [Nat.add_assoc, Nat.add_comm 1])
    rw [show i + (q + 1) = i + 1 + q by omega, show index + (q + 1) = index + 1 + q by omega,
      ← hrest]
    simp [skipZeros, hshow]

/-- What stands behind the one. -/
theorem showUbits_behind {mem : Mem} {index k : Nat} (hk : k ≤ 24) :
    showUbits (updateCache mem index <<< 1 % 2 ^ 32) k = window mem (index + 1) k := by
  obtain ⟨low, hlow, hcache⟩ := updateCache_split mem index (1 + k) (by omega)
  have hfull : 2 ^ k * 2 ^ (32 - k) = 2 ^ 32 := by rw [← Nat.pow_add, Nat.add_sub_cancel' (by omega)]
  have hhalf : 2 ^ (32 - k) = 2 ^ (32 - (1 + k)) * 2 := by
    rw [← Nat.pow_succ]
    congr 1
    omega
  have hlt : window mem (index + 1) k * 2 ^ (32 - k) + 2 * low < 2 ^ 32 := by
    have hwindow : (window mem (index + 1) k + 1) * 2 ^ (32 - k) ≤ 2 ^ k * 2 ^ (32 - k) :=
      Nat.mul_le_mul_right _ (window_lt mem (index + 1) k)
    rw [Nat.add_mul, Nat.one_mul, hfull] at hwindow
    omega
  have hshift : updateCache mem index <<< 1 = 2 ^ 32 * window mem index 1 +
      (window mem (index + 1) k * 2 ^ (32 - k) + 2 * low) := by
    rw [hcache, window_add, Nat.shiftLeft_eq, ← hfull, hhalf]
    ring
  rw [hshift, Nat.mul_add_mod, Nat.mod_eq_of_lt hlt, showUbits, Nat.shiftRight_eq_div_pow,
    Nat.mul_comm, Nat.mul_add_div (Nat.two_pow_pos _), Nat.div_eq_of_lt (by omega), Nat.add_zero]

theorem div_add_field (k u : Nat) : u >>> k * 2 ^ k + u % 2 ^ k = u := by
  rw [Nat.shiftRight_eq_div_pow, Nat.div_add_mod']

/-- Where the cache is taken at its word, the one is its highest bit, and the code is all in it. -/
theorem avLog2_of_rice {mem : Mem} {index k q : Nat} (hzeros : Holds mem index (List.replicate q false))
    (hone : bitAt mem (index + q) = true) (hlog : k + 7 ≤ avLog2 (updateCache mem index)) :
    avLog2 (updateCache mem index) + q = 31 := by
  rcases Nat.lt_or_ge 24 q with hq | hq
  · -- Only what is below the bits that are certain can be set, and that is too low.
    obtain ⟨low, hlow, hcache⟩ := updateCache_split mem index 25 (by omega)
    have hfront : Holds mem index (List.replicate 25 false) := by
      rw [show q = 25 + (q - 25) by omega, ← List.replicate_append_replicate, holds_append] at hzeros
      exact hzeros.1
    rw [window_replicate hfront, Nat.zero_mul, Nat.zero_add] at hcache
    rcases Nat.eq_zero_or_pos low with hzero | hpos
    · have hnone : avLog2 0 = 0 := by decide
      rw [hcache, hzero, hnone] at hlog
      omega
    · have hspec := avLog2_spec (v := low) hpos (by omega)
      have hpow : 2 ^ 7 ≤ 2 ^ avLog2 low := Nat.pow_le_pow_right (by omega) (by rw [← hcache]; omega)
      omega
  · obtain ⟨low, hlow, hcache⟩ := updateCache_split mem index (q + 1) (by omega)
    rw [window_unary hzeros hone, Nat.one_mul] at hcache
    have hlast := avLog2_eq (by omega) hlow hcache
    omega

theorem reads_getUrGolombJpegls {fuel k u : Nat} (hk : k ≤ 24) (hu : u < 2 ^ 31 - 2)
    (hfuel : u >>> k < fuel) :
    Reads (getUrGolombJpegls fuel k intMax 0 : Reader (Stop σ) Int) (rice k u) u := by
  intro mem index hbits
  obtain ⟨hzeros, hone, hback⟩ := holds_rice.mp hbits
  have hsigned : Signed 32 (u : Int) := ⟨by norm_num, by norm_num; omega⟩
  have hfield : window mem (index + (u >>> k) + 1) k = u % 2 ^ k := window_of_holds hback
  have hq : u >>> k ≤ u := Nat.shiftRight_le u k
  rw [getUrGolombJpegls, length_rice]
  split
  · rename_i hfast
    have hlog := avLog2_of_rice hzeros hone hfast.1
    have hskip : 32 + k - avLog2 (updateCache mem index) = (u >>> k) + 1 + k := by
      generalize u >>> k = q at hlog ⊢
      omega
    obtain ⟨low, hlow, hcache⟩ := updateCache_split mem index ((u >>> k) + 1 + k)
      (by omega)
    have hshift : updateCache mem index >>> (avLog2 (updateCache mem index) - k) =
        2 ^ k + u % 2 ^ k := by
      rw [show avLog2 (updateCache mem index) - k = 32 - ((u >>> k) + 1 + k) by omega,
        Nat.shiftRight_eq_div_pow, hcache, Nat.mul_comm, Nat.mul_add_div (Nat.two_pow_pos _),
        Nat.div_eq_of_lt hlow, Nat.add_zero, window_add, window_unary hzeros hone, Nat.one_mul,
        ← Nat.add_assoc, hfield]
    have hval : ((2 ^ k + u % 2 ^ k : Nat) : Int) +
        (30 - (avLog2 (updateCache mem index) : Int)) * 2 ^ k = u := by
      have hu' := congrArg (Nat.cast (R := Int)) (div_add_field k u)
      rw [show (30 - (avLog2 (updateCache mem index) : Int)) = (u >>> k : Nat) - 1 by omega]
      push_cast at hu' ⊢
      linarith
    simp only [hshift, hval, int32_of_signed hsigned, hskip]
  · have hzero : k = 0 → u % 2 ^ k = 0 := fun h => by rw [h, Nat.pow_zero, Nat.mod_one]
    have hlow : (if k ≠ 0 then (showUbits (updateCache mem (index + (u >>> k)) <<< 1 % 2 ^ 32) k,
        index + (u >>> k) + 1 + k) else (0, index + (u >>> k) + 1)) =
        (u % 2 ^ k, index + (u >>> k) + 1 + k) := by
      split
      · rw [showUbits_behind hk, hfield]
      · rename_i hk'
        obtain rfl : k = 0 := by omega
        rw [hzero rfl, Nat.add_zero]
    have hval : ((u % 2 ^ k : Nat) : Int) + (u >>> k : Nat) * 2 ^ k = u := by
      have hu' := congrArg (Nat.cast (R := Int)) (div_add_field k u)
      push_cast at hu' ⊢
      linarith
    have hrun := skipZeros_eq (σ := σ) fuel 0 index hfuel hzeros hone
    rw [Nat.zero_add] at hrun
    simp only [hrun, Except.bind, hlow]
    rw [if_pos (by unfold intMax; omega), hval, int32_of_signed hsigned]
    congr 2
    omega

theorem sshiftRight_one {n : Nat} (hn : n < 2 ^ 31) :
    (BitVec.ofNat 32 n).sshiftRight 1 = BitVec.ofNat 32 (n / 2) := by
  have hmsb : (BitVec.ofNat 32 n).msb = false := by
    rw [BitVec.msb_eq_decide, decide_eq_false (by simp; omega)]
  refine BitVec.eq_of_toNat_eq ?_
  rw [BitVec.sshiftRight_eq_of_msb_false hmsb]
  simp only [BitVec.toNat_ushiftRight, BitVec.toNat_ofNat, Nat.shiftRight_eq_div_pow]
  omega

theorem and_one (n : Nat) : BitVec.ofNat 32 n &&& 1#32 = BitVec.ofNat 32 (n % 2) := by
  refine BitVec.eq_of_toNat_eq ?_
  rw [BitVec.toNat_and, BitVec.toNat_ofNat, BitVec.toNat_ofNat, BitVec.toNat_ofNat,
    show 1 % 2 ^ 32 = 1 from rfl, Nat.and_one_is_mod]
  omega

/-- An even number is halved, an odd one is halved and turned over. -/
theorem unfold_zigzag {r : Int} (hu : zigzag r < 2 ^ 31) :
    ((BitVec.ofInt 32 (zigzag r)).sshiftRight 1 ^^^ -(BitVec.ofInt 32 (zigzag r) &&& 1#32)).toInt =
      r := by
  rw [BitVec.ofInt_natCast, sshiftRight_one hu, and_one]
  rcases Int.lt_or_le r 0 with hneg | hnonneg
  · have hodd : zigzag r % 2 = 1 := by
      rw [zigzag, if_neg (by omega)]
      omega
    have hhalf : (zigzag r / 2 : Int) = -r - 1 := by
      rw [zigzag, if_neg (by omega)]
      omega
    have hmod : zigzag r / 2 % 2 ^ 32 = zigzag r / 2 := Nat.mod_eq_of_lt (by omega)
    rw [hodd, BitVec.neg_one_eq_allOnes, BitVec.xor_allOnes, BitVec.toInt_not, BitVec.toNat_ofNat,
      hmod]
    norm_num
    rw [Int.bmod_def]
    omega
  · have heven : zigzag r % 2 = 0 := by
      rw [zigzag, if_pos hnonneg]
      omega
    have hhalf : (zigzag r / 2 : Int) = r := by
      rw [zigzag, if_pos hnonneg]
      omega
    rw [heven, BitVec.neg_zero, BitVec.xor_zero, BitVec.toInt_ofNat',
      Int.bmod_eq_of_le (by omega) (by omega)]
    omega

/-- The code for a number with a sign. -/
def riceSigned (k : Nat) (r : Int) : List Bool := rice k (zigzag r)

theorem reads_getSrGolombFlac {fuel k : Nat} {r : Int} (hk : k ≤ 24) (hr : zigzag r < 2 ^ 31 - 2)
    (hfuel : zigzag r >>> k < fuel) :
    Reads (getSrGolombFlac fuel k intMax 0 : Reader (Stop σ) Int) (riceSigned k r) r := by
  have hread := Reads.map (reads_getUrGolombJpegls (σ := σ) hk hr hfuel) fun v =>
    ((BitVec.ofInt 32 v).sshiftRight 1 ^^^ -(BitVec.ofInt 32 v &&& 1#32)).toInt
  rwa [unfold_zigzag (by omega)] at hread

end Streambox.Flac
