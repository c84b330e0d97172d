import Mathlib.Algebra.BigOperators.Intervals
import Mathlib.Algebra.Order.BigOperators.Group.Finset
import Mathlib.Algebra.Order.Ring.Abs
import Mathlib.Algebra.Order.Ring.Int
import Streambox.Lib.Prediction
import Streambox.Flac.Residuals

/-! Subframes whose samples are predicted from those before them.

    The residuals stand in the array behind the warm-up samples, and the samples are put where the
    residuals were, one after the other:

        ├─ warm-up ─┼─ samples ─┼─ residuals ─┤
                                i

    A fixed prediction makes a difference 0; the code has the lower differences in `a`, `b`, `c` and
    `d` and adds. A linear one is a sum with given factors. Where the samples have 16 bits at most
    its sums are `int`s, and the loop makes two samples at a time: what one sum takes from the array
    the other takes one step later. -/

namespace Streambox.Flac
open Streambox.Lib.BitField Streambox.Lib.Prediction

/-- The differences. What an order does not use is not set in the code. -/
structure Acc where
  a : Int
  b : Int
  c : Int
  d : Int
  deriving DecidableEq, Repr

def fixedStart (d : List Int) (predOrder : Nat) : Decode Acc := do
  let a ← if 0 < predOrder then load d (predOrder - 1) else pure 0
  let b ← if 1 < predOrder then do
      let x ← load d (predOrder - 2)
      pure (int32 (a - x))
    else pure 0
  let c ← if 2 < predOrder then do
      let x ← load d (predOrder - 2)
      let y ← load d (predOrder - 3)
      pure (int32 (b - x + y))
    else pure 0
  let d ← if 3 < predOrder then do
      let x ← load d (predOrder - 2)
      let y ← load d (predOrder - 3)
      let z ← load d (predOrder - 4)
      pure (int32 (c - x + 2 * y - z))
    else pure 0
  pure { a, b, c, d }

/-- `a += b += c += d += decoded[i]`, from the order's own difference on. -/
def fixedStep (predOrder : Nat) (acc : Acc) (r : Int) : Acc :=
  match predOrder with
  | 1 => { acc with a := int32 (acc.a + r) }
  | 2 =>
    let b := int32 (acc.b + r)
    { acc with a := int32 (acc.a + b), b }
  | 3 =>
    let c := int32 (acc.c + r)
    let b := int32 (acc.b + c)
    { acc with a := int32 (acc.a + b), b, c }
  | _ =>
    let d := int32 (acc.d + r)
    let c := int32 (acc.c + d)
    let b := int32 (acc.b + c)
    { a := int32 (acc.a + b), b, c, d }

def fixedLoop (predOrder : Nat) : Nat → Nat → Acc → List Int → Decode (List Int)
  | 0, _, _, d => pure d
  | n + 1, i, acc, d => do
    let r ← load d i
    let acc := fixedStep predOrder acc r
    let d ← store d i acc.a
    fixedLoop predOrder n (i + 1) acc d

/-- A sample of the subframe; a width below 1 has no meaning. -/
def readSample (s : FLACContext) : Decode Int :=
  if 0 < s.currBps then getSbitsLong s.currBps.toNat else throw .fault

def decodeSubframeFixed (fuel : Nat) (s : FLACContext) (channel predOrder : Nat) :
    Decode FLACContext := do
  let d ← fill (readSample s) predOrder 0 (s.decoded channel)
  let s ← decodeResiduals fuel (s.put channel d) channel predOrder
  let acc ← fixedStart (s.decoded channel) predOrder
  if predOrder = 0 then pure s
  else do
    failIf (4 < predOrder) s
    let d ← fixedLoop predOrder (s.blocksize - predOrder).toNat predOrder acc (s.decoded channel)
    pure (s.put channel d)

def int64 (x : Int) : Int := x.bmod (2 ^ 64)

/-- `sum += coeffs[j] * decoded[i - j - 1]`, for `n` values of `j`. -/
def sumLoop (cut : Int → Int) (coeffs d : List Int) (i : Nat) : Nat → Nat → Int → Decode Int
  | 0, _, sum => pure sum
  | n + 1, j, sum => do
    let c ← load coeffs j
    let x ← load d (i - j - 1)
    sumLoop cut coeffs d i n (j + 1) (cut (sum + c * x))

def sumSample (cut : Int → Int) (coeffs : List Int) (predOrder qlevel i : Nat) (d : List Int) :
    Decode (List Int) := do
  let sum ← sumLoop cut coeffs d i predOrder 0 0
  let r ← load d i
  store d i (int32 (r + sum >>> qlevel))

/-- The plain loop, with sums that are cut. -/
def lpcLoopEach (cut : Int → Int) (coeffs : List Int) (predOrder qlevel : Nat) :
    Nat → Nat → List Int → Decode (List Int)
  | 0, _, d => pure d
  | n + 1, i, d => do
    let d ← sumSample cut coeffs predOrder qlevel i d
    lpcLoopEach cut coeffs predOrder qlevel n (i + 1) d

/-- The loop with 64 bits. -/
def lpcLoop64 (coeffs : List Int) (predOrder qlevel n i : Nat) (d : List Int) :
    Decode (List Int) := lpcLoopEach int64 coeffs predOrder qlevel n i d

/-- The inner loop for two samples, from `j` down to 1: `x` goes into both sums. -/
def pairLoop (coeffs d : List Int) (i : Nat) : Nat → Int → Int → Int → Decode (Int × Int × Int)
  | 0, x, s0, s1 => pure (x, s0, s1)
  | j + 1, x, s0, s1 => do
    let c ← load coeffs (j + 1)
    let s0 := int32 (s0 + c * x)
    let x ← load d (i - (j + 1))
    let s1 := int32 (s1 + c * x)
    pairLoop coeffs d i j x s0 s1

/-- Two samples; the second takes the first into its sum. -/
def pairSample (coeffs : List Int) (predOrder qlevel i : Nat) (d : List Int) :
    Decode (List Int) := do
  let x ← load d (i - predOrder)
  let (x, s0, s1) ← pairLoop coeffs d i (predOrder - 1) x 0 0
  let c ← load coeffs 0
  let s0 := int32 (s0 + c * x)
  let r ← load d i
  let x := int32 (r + s0 >>> qlevel)
  let d ← store d i x
  let s1 := int32 (s1 + c * x)
  let r ← load d (i + 1)
  store d (i + 1) (int32 (r + s1 >>> qlevel))

/-- The loop with 32 bits, for what is left of the block; a last sample stands alone. -/
def lpcLoop32 (coeffs : List Int) (predOrder qlevel : Nat) : Nat → Nat → List Int →
    Decode (List Int)
  | 0, _, d => pure d
  | 1, i, d => sumSample int32 coeffs predOrder qlevel i d
  | n + 2, i, d => do
    let d ← pairSample coeffs predOrder qlevel i d
    lpcLoop32 coeffs predOrder qlevel n (i + 2) d

/-- Sums of more than 16 bits times the factors may be too large for an `int`. -/
def lpcLoop (bps : Nat) (coeffs : List Int) (predOrder qlevel n i : Nat) (d : List Int) :
    Decode (List Int) :=
  if 16 < bps then lpcLoop64 coeffs predOrder qlevel n i d
  else lpcLoop32 coeffs predOrder qlevel n i d

def decodeSubframeLpc (fuel : Nat) (s : FLACContext) (channel predOrder : Nat) :
    Decode FLACContext := do
  let d ← fill (readSample s) predOrder 0 (s.decoded channel)
  let s := s.put channel d
  let coeffPrec ← getBits 4
  failIf (coeffPrec + 1 = 16) s
  let qlevel ← getSbits 5
  failIf (qlevel < 0) s
  -- `int coeffs[32]`; what is not read into it is not used.
  let coeffs ← fill (getSbits (coeffPrec + 1)) predOrder 0 (List.replicate 32 0)
  let s ← decodeResiduals fuel s channel predOrder
  let n := (s.blocksize - predOrder).toNat
  let d ← lpcLoop s.bps coeffs predOrder qlevel.toNat n predOrder (s.decoded channel)
  pure (s.put channel d)

/-! ### Numbers that are cut -/

theorem int32_int32_add (x y : Int) : int32 (int32 x + y) = int32 (x + y) :=
  Int.bmod_add_bmod ..

theorem int32_add_int32 (x y : Int) : int32 (x + int32 y) = int32 (x + y) :=
  Int.add_bmod_bmod ..

theorem int32_int32 (x : Int) : int32 (int32 x) = int32 x := by
  have h := int32_int32_add x 0
  rwa [Int.add_zero, Int.add_zero] at h

theorem int64_int64_add (x y : Int) : int64 (int64 x + y) = int64 (x + y) :=
  Int.bmod_add_bmod ..

/-- Only the cut number counts for a difference. -/
theorem int32_diff_cons (k : Nat) (x : Int) (past : List Int) :
    int32 (diff k (int32 x :: past)) = int32 (diff k (x :: past)) := by
  rw [diff_cons, diff_cons k x, int32_int32_add]

/-! ### Fixed prediction -/

/-- The differences are those of the samples. -/
structure Acc.Follows (acc : Acc) (predOrder : Nat) (past : List Int) : Prop where
  a : 0 < predOrder → acc.a = int32 (diff 0 past)
  b : 1 < predOrder → acc.b = int32 (diff 1 past)
  c : 2 < predOrder → acc.c = int32 (diff 2 past)
  d : 3 < predOrder → acc.d = int32 (diff 3 past)

/-- A difference goes on by the next one. -/
theorem int32_diff_step {k : Nat} {past : List Int} {e x r : Int} (he : e = int32 (diff k past))
    (hr : int32 r = int32 (diff (k + 1) (x :: past))) :
    int32 (e + r) = int32 (diff k (x :: past)) := by
  rw [he, int32_int32_add, ← int32_add_int32, hr, int32_add_int32, ← diff_step]

/-- A step of the loop puts the sample where the prediction has it. -/
theorem fixedStep_follows {predOrder : Nat} {acc : Acc} {past : List Int} (r : Int)
    (hpos : 0 < predOrder) (horder : predOrder ≤ 4) (h : acc.Follows predOrder past) :
    (fixedStep predOrder acc r).a = int32 (r + level predOrder past) ∧
      (fixedStep predOrder acc r).Follows predOrder (int32 (r + level predOrder past) :: past) := by
  have hr : int32 r = int32 (diff predOrder ((r + level predOrder past) :: past)) := by
    rw [← sub_level, add_sub_cancel_right]
  have hzero (x : Int) : int32 (diff 0 (x :: past)) = int32 x := rfl
  obtain ⟨ha, hb, hc, hd⟩ := h
  generalize r + level predOrder past = x at hr ⊢
  have hcases : predOrder = 1 ∨ predOrder = 2 ∨ predOrder = 3 ∨ predOrder = 4 := by omega
  rcases hcases with rfl | rfl | rfl | rfl
  · have ha' := int32_diff_step (ha (by omega)) hr
    refine ⟨ha', ⟨fun _ => ?_, by omega, by omega, by omega⟩⟩
    rw [int32_diff_cons]
    exact ha'
  · have hb' := int32_diff_step (hb (by omega)) hr
    have ha' := int32_diff_step (ha (by omega)) ((int32_int32 _).trans hb')
    refine ⟨ha', ⟨fun _ => ?_, fun _ => ?_, by omega, by omega⟩⟩ <;> rw [int32_diff_cons]
    · exact ha'
    · exact hb'
  · have hc' := int32_diff_step (hc (by omega)) hr
    have hb' := int32_diff_step (hb (by omega)) ((int32_int32 _).trans hc')
    have ha' := int32_diff_step (ha (by omega)) ((int32_int32 _).trans hb')
    refine ⟨ha', ⟨fun _ => ?_, fun _ => ?_, fun _ => ?_, by omega⟩⟩ <;> rw [int32_diff_cons]
    · exact ha'
    · exact hb'
    · exact hc'
  · have hd' := int32_diff_step (hd (by omega)) hr
    have hc' := int32_diff_step (hc (by omega)) ((int32_int32 _).trans hd')
    have hb' := int32_diff_step (hb (by omega)) ((int32_int32 _).trans hc')
    have ha' := int32_diff_step (ha (by omega)) ((int32_int32 _).trans hb')
    refine ⟨ha', ⟨fun _ => ?_, fun _ => ?_, fun _ => ?_, fun _ => ?_⟩⟩ <;> rw [int32_diff_cons]
    · exact ha'
    · exact hb'
    · exact hc'
    · exact hd'

theorem load_next (pre rest : List Int) (r : Int) : load (pre ++ r :: rest) pre.length = pure r :=
  load_eq (by simp)

/-- The loop puts the samples where the residuals were, whatever they are. -/
theorem fixedLoop_eq {predOrder : Nat} (hpos : 0 < predOrder) (horder : predOrder ≤ 4)
    {rs pre rest : List Int} {acc : Acc} (hacc : acc.Follows predOrder pre.reverse) :
    fixedLoop predOrder rs.length pre.length acc (pre ++ rs ++ rest) =
      pure (pre ++ restore int32 (level predOrder) pre.reverse rs ++ rest) := by
  induction rs generalizing pre acc with
  | nil => rfl
  | cons r rs ih =>
    obtain ⟨hx, hnext⟩ := fixedStep_follows r hpos horder hacc
    have hnext' : (fixedStep predOrder acc r).Follows predOrder
        (pre ++ [int32 (r + level predOrder pre.reverse)]).reverse := by simpa using hnext
    have hloop := ih hnext'
    rw [List.length_append, List.length_singleton] at hloop
    rw [List.length_cons, fixedLoop, List.append_assoc, List.cons_append, load_next, pure_bind]
    simp only [hx, store_append, pure_bind]
    rw [← List.append_assoc, hloop]
    simp [restore]

/-- The second difference out of the first. -/
theorem second_difference (x y z : Int) (past : List Int) :
    int32 (int32 (z - y) - y + x) = int32 (diff 2 (z :: y :: x :: past)) := by
  rw [show int32 (z - y) - y + x = int32 (z - y) + (x - y) by omega, int32_int32_add]
  simp only [diff, List.headD_cons, List.tail_cons]
  congr 1
  omega

/-- The third difference out of the second. -/
theorem third_difference {c w x y z : Int} {past : List Int}
    (hc : c = int32 (diff 2 (z :: y :: x :: w :: past))) :
    int32 (c - y + 2 * x - w) = int32 (diff 3 (z :: y :: x :: w :: past)) := by
  rw [show c - y + 2 * x - w = c + (2 * x - y - w) by omega, hc, int32_int32_add]
  simp only [diff, List.headD_cons, List.tail_cons]
  congr 1
  omega

/-- What the loop starts with. -/
theorem fixedStart_eq {pre rest : List Int} (horder : pre.length ≤ 4)
    (hpre : ∀ x ∈ pre, int32 x = x) :
    ∃ acc, fixedStart (pre ++ rest) pre.length = pure acc ∧
      acc.Follows pre.length pre.reverse := by
  rcases pre with _ | ⟨w, _ | ⟨x, _ | ⟨y, _ | ⟨z, _ | ⟨_, _⟩⟩⟩⟩⟩
  · exact ⟨_, rfl, by simp, by simp, by simp, by simp⟩
  · have hw := hpre w (by simp)
    exact ⟨_, rfl, fun _ => hw.symm, by simp, by simp, by simp⟩
  · have hx := hpre x (by simp)
    exact ⟨_, rfl, fun _ => hx.symm, fun _ => rfl, by simp, by simp⟩
  · have hy := hpre y (by simp)
    exact ⟨_, rfl, fun _ => hy.symm, fun _ => rfl, fun _ => second_difference w x y [], by simp⟩
  · have hz := hpre z (by simp)
    exact ⟨_, rfl, fun _ => hz.symm, fun _ => rfl, fun _ => second_difference x y z [w],
      fun _ => third_difference (second_difference x y z [w])⟩
  · simp at horder
    omega

/-! ### Linear prediction -/

/-- The factors times the samples before, the latest first. -/
def lpcSum (coeffs past : List Int) : Int :=
  ∑ j ∈ Finset.range coeffs.length, coeffs.getD j 0 * past.getD j 0

/-- What is predicted, with sums that are cut. -/
def lpcPredict (cut : Int → Int) (coeffs : List Int) (qlevel : Nat) (past : List Int) : Int :=
  cut (lpcSum coeffs past) >>> qlevel

theorem load_front {front : List Int} (back : List Int) {j : Nat} (hj : j < front.length) :
    load (front ++ back) j = pure (front.getD j 0) :=
  load_eq (by rw [List.getElem?_append_left hj, List.getD_eq_getElem?_getD,
    List.getElem?_eq_getElem hj, Option.getD_some])

/-- The samples before, from the end of what is done. -/
theorem load_past (pre rest : List Int) {j : Nat} (hj : j < pre.length) :
    load (pre ++ rest) (pre.length - j - 1) = pure (pre.reverse.getD j 0) := by
  rw [load_front rest (by omega), List.getD_eq_getElem?_getD, List.getD_eq_getElem?_getD,
    List.getElem?_reverse hj, show pre.length - 1 - j = pre.length - j - 1 by omega]

/-- The loop adds up. -/
theorem sumLoop_eq {cut : Int → Int} (hcut : ∀ x y, cut (cut x + y) = cut (x + y))
    {coeffs pre : List Int} (junk rest : List Int) (hwarm : coeffs.length ≤ pre.length) {n j : Nat}
    (hn : j + n = coeffs.length) {sum : Int} (hsum : cut sum = sum) :
    sumLoop cut (coeffs ++ junk) (pre ++ rest) pre.length n j sum =
      pure (cut (sum + ∑ k ∈ Finset.range n,
        coeffs.getD (j + k) 0 * pre.reverse.getD (j + k) 0)) := by
  induction n generalizing j sum with
  | zero => simp [sumLoop, hsum]
  | succ n ih =>
    have hidem (x : Int) : cut (cut x) = cut x := by
      have h := hcut x 0
      rwa [Int.add_zero, Int.add_zero] at h
    have hrest := ih (j := j + 1) (by omega) (hidem (sum + coeffs.getD j 0 * pre.reverse.getD j 0))
    rw [sumLoop, load_front junk (by omega), pure_bind, load_past pre rest (by omega), pure_bind,
      hrest, hcut, Finset.sum_range_succ']
    simp only [Nat.add_assoc, Nat.add_comm 1, Nat.add_zero]
    congr 2
    omega

/-- One sample. -/
theorem sumSample_eq {cut : Int → Int} (hcut : ∀ x y, cut (cut x + y) = cut (x + y))
    (hzero : cut 0 = 0) {coeffs pre : List Int} (junk rest : List Int) (qlevel : Nat) (r : Int)
    (hwarm : coeffs.length ≤ pre.length) :
    sumSample cut (coeffs ++ junk) coeffs.length qlevel pre.length (pre ++ r :: rest) =
      pure ((pre ++ [int32 (r + lpcPredict cut coeffs qlevel pre.reverse)]) ++ rest) := by
  have hsum := sumLoop_eq hcut junk (r :: rest) hwarm (Nat.zero_add _) hzero
  simp only [Int.zero_add, Nat.zero_add] at hsum
  rw [sumSample, hsum, pure_bind, load_next, pure_bind, store_append]
  rfl

/-- Both sums of the inner loop; the second is a step behind. -/
theorem pairLoop_eq {coeffs pre : List Int} (junk rest : List Int)
    (hwarm : coeffs.length ≤ pre.length) {j : Nat} (hj : j < coeffs.length) {s0 s1 : Int}
    (hs0 : int32 s0 = s0) (hs1 : int32 s1 = s1) :
    pairLoop (coeffs ++ junk) (pre ++ rest) pre.length j (pre.reverse.getD j 0) s0 s1 =
      pure (pre.reverse.getD 0 0,
        int32 (s0 + ∑ k ∈ Finset.range j, coeffs.getD (k + 1) 0 * pre.reverse.getD (k + 1) 0),
        int32 (s1 + ∑ k ∈ Finset.range j, coeffs.getD (k + 1) 0 * pre.reverse.getD k 0)) := by
  induction j generalizing s0 s1 with
  | zero => simp [pairLoop, hs0, hs1]
  | succ j ih =>
    have hrest := ih (by omega)
      (int32_int32 (s0 + coeffs.getD (j + 1) 0 * pre.reverse.getD (j + 1) 0))
      (int32_int32 (s1 + coeffs.getD (j + 1) 0 * pre.reverse.getD j 0))
    rw [pairLoop, load_front junk hj, pure_bind, Nat.sub_add_eq, load_past pre rest (by omega),
      pure_bind, hrest, int32_int32_add, int32_int32_add, Finset.sum_range_succ,
      Finset.sum_range_succ]
    congr 3
    · congr 1
      omega
    · congr 1
      omega

/-- The sum without its first product. -/
theorem lpcSum_succ {coeffs : List Int} (hpos : 0 < coeffs.length) (past : List Int) :
    lpcSum coeffs past = (∑ k ∈ Finset.range (coeffs.length - 1),
      coeffs.getD (k + 1) 0 * past.getD (k + 1) 0) + coeffs.getD 0 0 * past.getD 0 0 := by
  rw [lpcSum, ← Finset.sum_range_succ' (fun k => coeffs.getD k 0 * past.getD k 0),
    Nat.sub_add_cancel hpos]

/-- The two samples are the same as one after the other. -/
theorem pairSample_eq {coeffs pre : List Int} (junk rest : List Int) (qlevel : Nat) (r r' : Int)
    (hpos : 0 < coeffs.length) (hwarm : coeffs.length ≤ pre.length) :
    pairSample (coeffs ++ junk) coeffs.length qlevel pre.length (pre ++ r :: r' :: rest) =
      pure (pre ++ restore int32 (lpcPredict int32 coeffs qlevel) pre.reverse [r, r'] ++ rest) := by
  have hfirst : int32 (int32 (0 + ∑ k ∈ Finset.range (coeffs.length - 1),
      coeffs.getD (k + 1) 0 * pre.reverse.getD (k + 1) 0) +
        coeffs.getD 0 0 * pre.reverse.getD 0 0) = int32 (lpcSum coeffs pre.reverse) := by
    rw [int32_int32_add, Int.zero_add, lpcSum_succ hpos]
  have hsecond (x : Int) : int32 (int32 (0 + ∑ k ∈ Finset.range (coeffs.length - 1),
      coeffs.getD (k + 1) 0 * pre.reverse.getD k 0) + coeffs.getD 0 0 * x) =
        int32 (lpcSum coeffs (x :: pre.reverse)) := by
    rw [int32_int32_add, Int.zero_add, lpcSum_succ hpos]
    rfl
  have hload := load_past pre (r :: r' :: rest) (j := coeffs.length - 1) (by omega)
  rw [show pre.length - (coeffs.length - 1) - 1 = pre.length - coeffs.length by omega] at hload
  have hpair := pairLoop_eq junk (r :: r' :: rest) hwarm (j := coeffs.length - 1) (by omega)
    (rfl : int32 0 = 0) (rfl : int32 0 = 0)
  have hnext (x : Int) := load_next (pre ++ [x]) rest r'
  have hstore (x y : Int) := store_append (pre ++ [x]) rest r' y
  simp only [List.length_append, List.length_singleton] at hnext hstore
  rw [pairSample, hload, pure_bind, hpair, pure_bind]
  simp only [load_front junk hpos, pure_bind, hfirst, load_next, store_append, hsecond, hnext, hstore]
  simp [restore, lpcPredict]

/-- The plain loop puts the samples where the residuals were. -/
theorem lpcLoopEach_eq {cut : Int → Int} (hcut : ∀ x y, cut (cut x + y) = cut (x + y))
    (hzero : cut 0 = 0) {coeffs rs pre : List Int} (junk rest : List Int) (qlevel : Nat)
    (hwarm : coeffs.length ≤ pre.length) :
    lpcLoopEach cut (coeffs ++ junk) coeffs.length qlevel rs.length pre.length
        (pre ++ rs ++ rest) =
      pure (pre ++ restore int32 (lpcPredict cut coeffs qlevel) pre.reverse rs ++ rest) := by
  induction rs generalizing pre with
  | nil => rfl
  | cons r rs ih =>
    have hwarm' : coeffs.length ≤
        (pre ++ [int32 (r + lpcPredict cut coeffs qlevel pre.reverse)]).length := by
      simp only [List.length_append]
      omega
    have hloop := ih hwarm'
    rw [List.length_append, List.length_singleton] at hloop
    rw [List.length_cons, lpcLoopEach, List.append_assoc, List.cons_append,
      sumSample_eq hcut hzero junk _ qlevel r hwarm, pure_bind, ← List.append_assoc, hloop]
    simp [restore]

/-- So does the loop of 32 bits, two at a time. -/
theorem lpcLoop32_eq {coeffs rs pre : List Int} (junk rest : List Int) (qlevel : Nat)
    (hpos : 0 < coeffs.length) (hwarm : coeffs.length ≤ pre.length) :
    lpcLoop32 (coeffs ++ junk) coeffs.length qlevel rs.length pre.length (pre ++ rs ++ rest) =
      pure (pre ++ restore int32 (lpcPredict int32 coeffs qlevel) pre.reverse rs ++ rest) := by
  induction rs using List.twoStepInduction generalizing pre with
  | nil => rfl
  | singleton r =>
    rw [List.length_singleton, lpcLoop32, List.append_assoc, List.singleton_append,
      sumSample_eq int32_int32_add rfl junk _ qlevel r hwarm]
    rfl
  | cons_cons r r' rs ih _ =>
    have hwarm' : coeffs.length ≤ (pre ++
        restore int32 (lpcPredict int32 coeffs qlevel) pre.reverse [r, r']).length := by
      simp only [List.length_append]
      omega
    have hloop := ih hwarm'
    rw [List.length_append, length_restore] at hloop
    rw [List.length_cons, List.length_cons, lpcLoop32, List.append_assoc, List.cons_append,
      List.cons_append, pairSample_eq junk _ qlevel r r' hpos hwarm, pure_bind, ← List.append_assoc]
    rw [show pre.length + 2 = pre.length + [r, r'].length from rfl, hloop]
    simp [restore]

/-- Two at a time gives what one at a time gives, whatever is in the arrays. -/
theorem lpc_pairs_as_each {coeffs d : List Int} {predOrder i n : Nat} (qlevel : Nat)
    (hpos : 0 < predOrder) (hcoeffs : predOrder ≤ coeffs.length) (hwarm : predOrder ≤ i)
    (hroom : i + n ≤ d.length) :
    lpcLoop32 coeffs predOrder qlevel n i d =
      lpcLoopEach int32 coeffs predOrder qlevel n i d := by
  obtain ⟨front, back, rfl, hfront⟩ : ∃ front back, coeffs = front ++ back ∧
      front.length = predOrder :=
    ⟨coeffs.take predOrder, coeffs.drop predOrder, (List.take_append_drop ..).symm, by simpa⟩
  obtain ⟨pre, rs, rest, rfl, hpre, hrs⟩ : ∃ pre rs rest, d = pre ++ rs ++ rest ∧
      pre.length = i ∧ rs.length = n := by
    refine ⟨d.take i, (d.drop i).take n, (d.drop i).drop n, ?_, ?_, ?_⟩
    · rw [List.append_assoc, List.take_append_drop, List.take_append_drop]
    · rw [List.length_take]
      omega
    · rw [List.length_take, List.length_drop]
      omega
  subst hfront hpre hrs
  rw [lpcLoop32_eq back rest qlevel hpos hwarm,
    lpcLoopEach_eq int32_int32_add rfl back rest qlevel hwarm]

theorem lpc_pairs_as_each_three :
    lpcLoop32 [3, -2] 2 1 3 2 [7, 5, 1, -4, 2, 9] = lpcLoopEach int32 [3, -2] 2 1 3 2
      [7, 5, 1, -4, 2, 9] :=
  lpc_pairs_as_each 1 (by decide) (by decide) (by decide) (by decide)

/-- What the sums are cut to. -/
def lpcCut (bps : Nat) : Int → Int := if 16 < bps then int64 else int32

/-- Either loop. -/
theorem lpcLoop_eq (bps : Nat) {coeffs pre : List Int} (rs junk rest : List Int) (qlevel : Nat)
    (hpos : 0 < coeffs.length) (hwarm : coeffs.length ≤ pre.length) :
    lpcLoop bps (coeffs ++ junk) coeffs.length qlevel rs.length pre.length (pre ++ rs ++ rest) =
      pure (pre ++ restore int32 (lpcPredict (lpcCut bps) coeffs qlevel) pre.reverse rs ++ rest) := by
  rw [lpcLoop, lpcCut]
  split
  · exact lpcLoopEach_eq int64_int64_add rfl junk rest qlevel hwarm
  · exact lpcLoop32_eq junk rest qlevel hpos hwarm

/-! ### Subframes -/

theorem signed_mono {n m : Nat} {x : Int} (hnm : n ≤ m) (hx : Signed n x) : Signed m x := by
  have hpow : (2 : Int) ^ (n - 1) ≤ 2 ^ (m - 1) := by
    exact_mod_cast Nat.pow_le_pow_right (by omega) (by omega)
  obtain ⟨hmin, hmax⟩ := hx
  exact ⟨by omega, by omega⟩

theorem int32_of_fits {n : Nat} {x : Int} (hn : n ≤ 32) (hx : Signed n x) : int32 x = x :=
  int32_of_signed (signed_mono hn hx)

theorem readSample_eq {s : FLACContext} {bps : Nat} (hbps : s.currBps = bps) (hpos : 0 < bps) :
    readSample s = getSbitsLong bps := by
  rw [readSample, if_pos (by omega), hbps, Int.toNat_natCast]

/-- Samples that are read one by one. -/
theorem reads_samples {s : FLACContext} {bps : Nat} (hbps : s.currBps = bps) (hpos : 0 < bps)
    (hmax : bps ≤ 32) {xs : List Int} (hxs : ∀ x ∈ xs, Signed bps x) {old : List Int}
    (hroom : xs.length ≤ old.length) :
    Reads (fill (readSample s) xs.length 0 old) (xs.flatMap (sfield bps))
      (xs ++ old.drop xs.length) := by
  rw [readSample_eq hbps hpos]
  exact reads_fill (fun x hx => reads_getSbitsLong hpos hmax (hxs x hx)) [] hroom

/-- The warm-up samples and what the prediction misses of the others. -/
structure Predicted where
  warm : List Int
  rest : List Int
  residual : Residual
  deriving DecidableEq, Repr

def Predicted.samples (p : Predicted) : List Int := p.warm ++ p.rest

/-- A block that is coded with this prediction. -/
structure Predicted.WellFormed (fuel bps : Nat) (predict : List Int → Int) (p : Predicted) :
    Prop where
  residual : p.residual.WellFormed fuel p.samples.length p.warm.length
  values : p.residual.values = remainders predict p.warm.reverse p.rest
  signed : ∀ x ∈ p.samples, Signed bps x

/-- A sum that `cut` leaves as it is, at each sample. -/
def SumsFit (cut : Int → Int) (coeffs : List Int) (p : Predicted) : Prop :=
  ∀ pre x post, p.rest = pre ++ x :: post →
    cut (lpcSum coeffs (pre.reverse ++ p.warm.reverse)) =
      lpcSum coeffs (pre.reverse ++ p.warm.reverse)

/-- The factors of a linear prediction. -/
structure Factors where
  coeffPrec : Nat
  qlevel : Nat
  coeffs : List Int
  deriving DecidableEq, Repr

def Factors.bits (f : Factors) : List Bool :=
  field 4 (f.coeffPrec - 1) ++ (sfield 5 f.qlevel ++ f.coeffs.flatMap (sfield f.coeffPrec))

def Factors.predict (f : Factors) : List Int → Int := lpcPredict id f.coeffs f.qlevel

structure Factors.WellFormed (f : Factors) : Prop where
  prec : 0 < f.coeffPrec ∧ f.coeffPrec < 16
  qlevel : f.qlevel < 16
  order : 0 < f.coeffs.length ∧ f.coeffs.length ≤ 32
  signed : ∀ c ∈ f.coeffs, Signed f.coeffPrec c

/-- A bound for the factors and one for the samples. -/
theorem abs_lpcSum_le {coeffs past : List Int} {a b : Int} (ha : 0 ≤ a) (hb : 0 ≤ b)
    (hcoeffs : ∀ c ∈ coeffs, |c| ≤ a) (hpast : ∀ x ∈ past, |x| ≤ b) :
    |lpcSum coeffs past| ≤ coeffs.length * (a * b) := by
  have hget {l : List Int} {m : Int} (hm : 0 ≤ m) (hl : ∀ x ∈ l, |x| ≤ m) (j : Nat) :
      |l.getD j 0| ≤ m := by
    rw [List.getD_eq_getElem?_getD]
    rcases hj : l[j]? with _ | x
    · simpa using hm
    · exact hl x (List.mem_of_getElem? hj)
  calc |lpcSum coeffs past|
      ≤ ∑ j ∈ Finset.range coeffs.length, |coeffs.getD j 0 * past.getD j 0| :=
        Finset.abs_sum_le_sum_abs ..
    _ ≤ ∑ _j ∈ Finset.range coeffs.length, a * b := Finset.sum_le_sum fun j _ => by
        rw [abs_mul]
        exact mul_le_mul (hget ha hcoeffs j) (hget hb hpast j) (abs_nonneg _) ha
    _ = coeffs.length * (a * b) := by simp

/-- No sum is too large for 64 bits. -/
theorem sumsFit_int64 {f : Factors} (hf : f.WellFormed) {p : Predicted}
    (hsigned : ∀ x ∈ p.samples, Signed 32 x) : SumsFit int64 f.coeffs p := by
  intro pre x post hrest
  have hcoeffs (c : Int) (hc : c ∈ f.coeffs) : |c| ≤ 2 ^ 14 := by
    obtain ⟨hmin, hmax⟩ : Signed 15 c := signed_mono (by have := hf.prec; omega) (hf.signed c hc)
    exact abs_le.mpr ⟨hmin, hmax.le⟩
  have hpast (y : Int) (hy : y ∈ pre.reverse ++ p.warm.reverse) : |y| ≤ 2 ^ 31 := by
    have hmem : y ∈ p.samples := by
      rw [Predicted.samples, hrest]
      simp only [List.mem_append, List.mem_reverse] at hy ⊢
      tauto
    obtain ⟨hmin, hmax⟩ := hsigned y hmem
    exact abs_le.mpr ⟨hmin, hmax.le⟩
  have hbound := abs_lpcSum_le (by norm_num) (by norm_num) hcoeffs hpast
  have hlen : (f.coeffs.length : Int) ≤ 32 := by exact_mod_cast hf.order.2
  obtain ⟨hmin, hmax⟩ := abs_le.mp hbound
  exact Int.bmod_eq_of_le (by omega) (by omega)

/-- The 0th difference is the sample. -/
theorem remainders_level_zero (past xs : List Int) : remainders (level 0) past xs = xs := by
  induction xs generalizing past with
  | nil => rfl
  | cons x xs ih => rw [remainders, ih, sub_level, diff, List.headD_cons]

section Subframe
variable {fuel bps channel : Nat} {s : FLACContext} {p : Predicted} {predict : List Int → Int}

/-- The warm-up samples and the residuals are in the array, and nothing else has changed. -/
theorem reads_array (hwf : p.WellFormed fuel bps predict) (hblock : s.blocksize = p.samples.length)
    (hroom : p.samples.length ≤ (s.decoded channel).length) :
    Reads (decodeResiduals fuel
        (s.put channel (p.warm ++ (s.decoded channel).drop p.warm.length)) channel p.warm.length)
      p.residual.bits
      (s.put channel (p.warm ++ remainders predict p.warm.reverse p.rest ++
        (s.decoded channel).drop p.samples.length)) := by
  have hlen : p.residual.values.length = p.rest.length := by rw [hwf.values, length_remainders]
  have hsamples : p.samples.length = p.warm.length + p.rest.length := List.length_append
  have harray := FLACContext.put_decoded s channel
    (p.warm ++ (s.decoded channel).drop p.warm.length)
  have hread := reads_decodeResiduals hwf.residual
    (s := s.put channel (p.warm ++ (s.decoded channel).drop p.warm.length)) hblock rfl harray
    (by rw [List.length_drop]; omega)
  rwa [FLACContext.put_put, List.drop_drop, hlen, hwf.values, ← hsamples] at hread

theorem reads_decodeSubframeFixed (hbps : s.currBps = bps) (hpos : 0 < bps) (hmax : bps ≤ 32)
    (horder : p.warm.length ≤ 4) (hwf : p.WellFormed fuel bps (level p.warm.length))
    (hblock : s.blocksize = p.samples.length)
    (hroom : p.samples.length ≤ (s.decoded channel).length) :
    Reads (decodeSubframeFixed fuel s channel p.warm.length)
      (p.warm.flatMap (sfield bps) ++ p.residual.bits)
      (s.put channel (p.samples ++ (s.decoded channel).drop p.samples.length)) := by
  have hsamples : p.samples.length = p.warm.length + p.rest.length := List.length_append
  have hcut (x : Int) (hx : x ∈ p.samples) : int32 x = x := int32_of_fits hmax (hwf.signed x hx)
  have hwarm (x : Int) (hx : x ∈ p.warm) : x ∈ p.samples := List.mem_append_left _ hx
  have hrest (x : Int) (hx : x ∈ p.rest) : x ∈ p.samples := List.mem_append_right _ hx
  rw [decodeSubframeFixed]
  refine (reads_samples hbps hpos hmax (fun x hx => hwf.signed x (hwarm x hx)) (by omega)).bind ?_
  rw [← List.append_nil p.residual.bits]
  refine (reads_array hwf hblock hroom).bind ?_
  obtain ⟨acc, hstart, hacc⟩ := fixedStart_eq horder fun x hx => hcut x (hwarm x hx)
  rw [FLACContext.put_decoded, List.append_assoc, hstart, pure_bind]
  have hcount : (s.blocksize - p.warm.length).toNat =
      (remainders (level p.warm.length) p.warm.reverse p.rest).length := by
    rw [hblock, hsamples, length_remainders]
    omega
  split
  · rename_i hzero
    rw [hzero, remainders_level_zero, ← List.append_assoc]
    exact reads_pure _
  · have hrestore := restore_remainders (level p.warm.length)
      (fun x hx => hcut x (hrest x hx)) p.warm.reverse
    refine (reads_failIf (by omega) _).then ?_
    have hput : (s.put channel (p.warm ++ (remainders (level p.warm.length) p.warm.reverse p.rest ++
      (s.decoded channel).drop p.samples.length))).blocksize = s.blocksize := rfl
    rw [hput, hcount, ← List.append_assoc, fixedLoop_eq (by omega) horder hacc, pure_bind, hrestore,
      FLACContext.put_put]
    exact reads_pure _

theorem reads_decodeSubframeLpc {f : Factors} (hbps : s.currBps = bps) (hpos : 0 < bps)
    (hmax : bps ≤ 32) (hf : f.WellFormed) (horder : f.coeffs.length = p.warm.length)
    (hwf : p.WellFormed fuel bps f.predict) (hsums : SumsFit (lpcCut s.bps) f.coeffs p)
    (hblock : s.blocksize = p.samples.length)
    (hroom : p.samples.length ≤ (s.decoded channel).length) :
    Reads (decodeSubframeLpc fuel s channel p.warm.length)
      (p.warm.flatMap (sfield bps) ++ (f.bits ++ p.residual.bits))
      (s.put channel (p.samples ++ (s.decoded channel).drop p.samples.length)) := by
  have hsamples : p.samples.length = p.warm.length + p.rest.length := List.length_append
  have hcut (x : Int) (hx : x ∈ p.samples) : int32 x = x := int32_of_fits hmax (hwf.signed x hx)
  have hwarm (x : Int) (hx : x ∈ p.warm) : x ∈ p.samples := List.mem_append_left _ hx
  have hrest (x : Int) (hx : x ∈ p.rest) : x ∈ p.samples := List.mem_append_right _ hx
  have hprec := hf.prec
  have hqlevel := hf.qlevel
  have hmiss : remainders f.predict p.warm.reverse p.rest =
      remainders (lpcPredict (lpcCut s.bps) f.coeffs f.qlevel) p.warm.reverse p.rest :=
    remainders_congr fun pre x post hxs => by
      rw [lpcPredict, hsums pre x post hxs]
      rfl
  have hcount : (s.blocksize - p.warm.length).toNat =
      (remainders (lpcPredict (lpcCut s.bps) f.coeffs f.qlevel) p.warm.reverse p.rest).length := by
    rw [hblock, hsamples, length_remainders]
    omega
  have hrestore := restore_remainders (lpcPredict (lpcCut s.bps) f.coeffs f.qlevel)
    (fun x hx => hcut x (hrest x hx)) p.warm.reverse
  rw [decodeSubframeLpc, Factors.bits, List.append_assoc, List.append_assoc]
  refine (reads_samples hbps hpos hmax (fun x hx => hwf.signed x (hwarm x hx)) (by omega)).bind ?_
  refine (reads_getBits (by omega) (by omega) (by omega)).bind ?_
  refine (reads_failIf (by omega) _).then ?_
  refine (reads_getSbits (by omega) (by omega) ⟨by norm_num, by norm_num; omega⟩).bind ?_
  refine (reads_failIf (by omega) _).then ?_
  rw [Nat.sub_add_cancel hprec.1, ← horder]
  have hcoeffs : f.coeffs.length ≤ (List.replicate 32 (0 : Int)).length := by
    rw [List.length_replicate]
    exact hf.order.2
  refine (reads_fill (fun c hc => reads_getSbits hprec.1 (by omega) (hf.signed c hc)) []
    hcoeffs).bind ?_
  rw [horder, ← List.append_nil p.residual.bits]
  refine (reads_array hwf hblock hroom).bind ?_
  have hloop := lpcLoop_eq s.bps
    (remainders (lpcPredict (lpcCut s.bps) f.coeffs f.qlevel) p.warm.reverse p.rest)
    ((List.replicate 32 0).drop p.warm.length) ((s.decoded channel).drop p.samples.length)
    f.qlevel hf.order.1 horder.le
  rw [horder, hrestore, ← hcount] at hloop
  have hput (d : List Int) : (s.put channel d).blocksize = s.blocksize ∧
      (s.put channel d).bps = s.bps := ⟨rfl, rfl⟩
  simp only [hput, FLACContext.put_put, FLACContext.put_decoded, List.nil_append, hmiss,
    Int.toNat_natCast, hloop, pure_bind]
  exact reads_pure _

end Subframe

end Streambox.Flac
