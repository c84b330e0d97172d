import Streambox.Flac.Prediction

/-! A subframe: the samples of one channel.

        0 │ type │ wasted bits │ body
        1 │  6   │  1 or more  │

    Low bits that are 0 in all the samples are not in the body. The side channel of a pair has one
    bit more than the others. -/

namespace Streambox.Flac
open Streambox.Lib.BitField Streambox.Lib.Prediction

def flacChmodeIndependent : Nat := 0
def flacChmodeLeftSide : Nat := 8
def flacChmodeRightSide : Nat := 9
def flacChmodeMidSide : Nat := 10

/-- The width of the channel's samples. -/
def subframeBps (s : FLACContext) (channel : Nat) : Int :=
  if channel = 0 then
    if s.chMode = flacChmodeRightSide then s.bps + 1 else s.bps
  else
    if s.chMode = flacChmodeLeftSide ∨ s.chMode = flacChmodeMidSide then s.bps + 1 else s.bps

/-- `while (!get_bits1(&s->gb)) wasted++;` -/
def countWasted : Nat → Nat → Decode Nat
  | 0, _ => throw .fault
  | fuel + 1, wasted => do
    let bit ← getBits1
    if bit = 0 then countWasted fuel (wasted + 1) else pure wasted

def readWasted (fuel : Nat) : Decode Nat := do
  let flag ← getBits1
  if flag ≠ 0 then countWasted fuel 1 else pure 0

/-- `x << n`, of an `int`. -/
def shiftLeft (x : Int) (n : Nat) : Decode Int :=
  if n < 32 then pure (int32 (x * 2 ^ n)) else throw .fault

/-- `s->decoded[channel][i] <<= wasted` -/
def shiftWasted (wasted : Nat) : Nat → Nat → List Int → Decode (List Int)
  | 0, _, d => pure d
  | n + 1, i, d => do
    let x ← load d i
    let x ← shiftLeft x wasted
    let d ← store d i x
    shiftWasted wasted n (i + 1) d

def decodeBody (fuel : Nat) (s : FLACContext) (channel typ : Nat) : Decode FLACContext :=
  if typ = 0 then do
    let tmp ← readSample s
    let d ← fill (pure tmp) s.blocksize.toNat 0 (s.decoded channel)
    pure (s.put channel d)
  else if typ = 1 then do
    let d ← fill (readSample s) s.blocksize.toNat 0 (s.decoded channel)
    pure (s.put channel d)
  else if 8 ≤ typ ∧ typ ≤ 12 then decodeSubframeFixed fuel s channel (typ - 8)
  else if 32 ≤ typ then decodeSubframeLpc fuel s channel (typ - 32 + 1)
  else throw (.error s)

def decodeSubframe (fuel : Nat) (s : FLACContext) (channel : Nat) : Decode FLACContext := do
  let s := { s with currBps := subframeBps s channel }
  let padding ← getBits1
  failIf (padding ≠ 0) s
  let typ ← getBits 6
  let wasted ← readWasted fuel
  let s := { s with currBps := s.currBps - wasted }
  failIf (32 < s.currBps) s
  let s ← decodeBody fuel s channel typ
  if wasted ≠ 0 then do
    let d ← shiftWasted wasted s.blocksize.toNat 0 (s.decoded channel)
    pure (s.put channel d)
  else pure s

/-! ### Coded subframes -/

/-- The ways to code the samples. -/
inductive Body where
  | constant (v : Int) (n : Nat)
  | verbatim (xs : List Int)
  | fixed (p : Predicted)
  | lpc (f : Factors) (p : Predicted)
  deriving DecidableEq, Repr

def Body.samples : Body → List Int
  | .constant v n => List.replicate n v
  | .verbatim xs => xs
  | .fixed p => p.samples
  | .lpc _ p => p.samples

def Body.typ : Body → Nat
  | .constant _ _ => 0
  | .verbatim _ => 1
  | .fixed p => 8 + p.warm.length
  | .lpc _ p => 31 + p.warm.length

def Body.bits (bps : Nat) : Body → List Bool
  | .constant v _ => sfield bps v
  | .verbatim xs => xs.flatMap (sfield bps)
  | .fixed p => p.warm.flatMap (sfield bps) ++ p.residual.bits
  | .lpc f p => p.warm.flatMap (sfield bps) ++ (f.bits ++ p.residual.bits)

/-- The sums of a linear prediction must not be too large for what `frameBps` makes the code use. -/
def Body.WellFormed (fuel frameBps bps : Nat) : Body → Prop
  | .constant v _ => Signed bps v
  | .verbatim xs => ∀ x ∈ xs, Signed bps x
  | .fixed p => p.warm.length ≤ 4 ∧ p.WellFormed fuel bps (level p.warm.length)
  | .lpc f p => f.WellFormed ∧ f.coeffs.length = p.warm.length ∧ p.WellFormed fuel bps f.predict ∧
      (16 < frameBps ∨ SumsFit int32 f.coeffs p)

structure Subframe where
  wasted : Nat
  body : Body
  deriving DecidableEq, Repr

def Subframe.samples (sub : Subframe) : List Int := sub.body.samples.map (· * 2 ^ sub.wasted)

def wastedBits : Nat → List Bool
  | 0 => [false]
  | wasted + 1 => true :: (List.replicate wasted false ++ [true])

def Subframe.bits (bps : Nat) (sub : Subframe) : List Bool :=
  [false] ++ (field 6 sub.body.typ ++ (wastedBits sub.wasted ++ sub.body.bits (bps - sub.wasted)))

/-- A subframe of samples with `bps` bits. -/
structure Subframe.WellFormed (fuel frameBps bps : Nat) (sub : Subframe) : Prop where
  wasted : sub.wasted < bps ∧ sub.wasted ≤ fuel
  width : bps ≤ 32
  body : sub.body.WellFormed fuel frameBps (bps - sub.wasted)

theorem Subframe.length_samples (sub : Subframe) :
    sub.samples.length = sub.body.samples.length := List.length_map _

section
variable {fuel bps channel : Nat} {s : FLACContext}

theorem reads_countWasted {zeros : Nat} (hfuel : zeros < fuel) (wasted : Nat) :
    Reads (countWasted fuel wasted) (List.replicate zeros false ++ [true]) (wasted + zeros) := by
  induction zeros generalizing fuel wasted with
  | zero =>
    obtain ⟨fuel, rfl⟩ := Nat.exists_eq_add_one.mpr hfuel
    exact (reads_getBits1 true).bind (reads_pure _)
  | succ zeros ih =>
    obtain ⟨fuel, rfl⟩ := Nat.exists_eq_add_one.mpr (Nat.zero_lt_of_lt hfuel)
    have hrest := ih (Nat.lt_of_succ_lt_succ hfuel) (wasted + 1)
    rw [show wasted + 1 + zeros = wasted + (zeros + 1) by omega] at hrest
    exact (reads_getBits1 false).bind hrest

theorem reads_readWasted {wasted : Nat} (hfuel : wasted ≤ fuel) :
    Reads (readWasted fuel) (wastedBits wasted) wasted := by
  rcases wasted with _ | wasted
  · exact (reads_getBits1 false).bind (reads_pure _)
  · have hcount := reads_countWasted (Nat.lt_of_succ_le hfuel) 1
    rw [Nat.add_comm 1] at hcount
    exact (reads_getBits1 true).bind hcount

/-- The loop over the block. -/
theorem shiftWasted_eq {wasted : Nat} (hwasted : wasted < 32) {xs : List Int}
    (hfits : ∀ x ∈ xs, int32 (x * 2 ^ wasted) = x * 2 ^ wasted) (pre rest : List Int) :
    shiftWasted wasted xs.length pre.length (pre ++ xs ++ rest) =
      pure (pre ++ xs.map (· * 2 ^ wasted) ++ rest) := by
  induction xs generalizing pre with
  | nil => simp [shiftWasted]
  | cons x xs ih =>
    have hloop := ih (fun y hy => hfits y (List.mem_cons_of_mem _ hy)) (pre ++ [x * 2 ^ wasted])
    rw [List.length_append, List.length_singleton] at hloop
    rw [List.length_cons, shiftWasted, List.append_assoc, List.cons_append, load_next, pure_bind,
      shiftLeft, if_pos hwasted, pure_bind, store_append, pure_bind, ← List.append_assoc,
      hfits x List.mem_cons_self, hloop]
    simp

theorem signed_shift {wasted : Nat} {x : Int} (hpos : wasted < bps) (hx : Signed (bps - wasted) x) :
    Signed bps (x * 2 ^ wasted) := by
  obtain ⟨hmin, hmax⟩ := hx
  have hpow : (2 : Int) ^ (bps - wasted - 1) * 2 ^ wasted = 2 ^ (bps - 1) := by
    rw [← Int.pow_add]
    congr 1
    omega
  have hwasted : (0 : Int) < 2 ^ wasted := Int.pow_pos (by omega)
  refine ⟨?_, ?_⟩
  · rw [← hpow, ← Int.neg_mul]
    exact Int.mul_le_mul_of_nonneg_right hmin hwasted.le
  · rw [← hpow]
    exact Int.mul_lt_mul_of_pos_right hmax hwasted

theorem Body.signed {frameBps : Nat} {body : Body} (hwf : body.WellFormed fuel frameBps bps) :
    ∀ x ∈ body.samples, Signed bps x := by
  cases body with
  | constant v n =>
    intro x hx
    rw [List.eq_of_mem_replicate hx]
    exact hwf
  | verbatim xs => exact hwf
  | fixed p => exact hwf.2.signed
  | lpc f p => exact hwf.2.2.1.signed

theorem reads_decodeBody {body : Body} (hbps : s.currBps = bps) (hpos : 0 < bps) (hmax : bps ≤ 32)
    (hwf : body.WellFormed fuel s.bps bps) (hblock : s.blocksize = body.samples.length)
    (hroom : body.samples.length ≤ (s.decoded channel).length) :
    Reads (decodeBody fuel s channel body.typ) (body.bits bps)
      (s.put channel (body.samples ++ (s.decoded channel).drop body.samples.length)) := by
  have hcount : s.blocksize.toNat = body.samples.length := by rw [hblock, Int.toNat_natCast]
  rw [decodeBody, hcount]
  cases body with
  | constant v n =>
    have hread (x : Int) (hx : x ∈ List.replicate n v) : Reads (pure v : Decode Int) [] x := by
      rw [List.eq_of_mem_replicate hx]
      exact reads_pure v
    have hfill := reads_fill hread [] hroom
    have hnone : (List.replicate n v).flatMap (fun _ => ([] : List Bool)) = [] := by simp
    rw [hnone] at hfill
    have htyp : (Body.constant v n).typ = 0 := rfl
    rw [if_pos htyp, readSample_eq hbps hpos, Body.bits, ← List.append_nil (sfield bps v)]
    exact (reads_getSbitsLong hpos hmax hwf).bind (Reads.map hfill fun d => s.put channel d)
  | verbatim xs =>
    have htyp : (Body.verbatim xs).typ = 1 := rfl
    rw [if_neg (by omega : ¬(Body.verbatim xs).typ = 0), if_pos htyp]
    exact Reads.map (reads_samples hbps hpos hmax hwf hroom) fun d => s.put channel d
  | fixed p =>
    obtain ⟨horder, hp⟩ := hwf
    have hread := reads_decodeSubframeFixed hbps hpos hmax horder hp hblock hroom
    have htyp : (Body.fixed p).typ = 8 + p.warm.length := rfl
    rw [if_neg (by omega : ¬(Body.fixed p).typ = 0), if_neg (by omega : ¬(Body.fixed p).typ = 1),
      if_pos (by omega : 8 ≤ (Body.fixed p).typ ∧ (Body.fixed p).typ ≤ 12), htyp,
      Nat.add_sub_cancel_left]
    exact hread
  | lpc f p =>
    obtain ⟨hf, horder, hp, hsums⟩ := hwf
    have hlen := hf.order
    have hfits : SumsFit (lpcCut s.bps) f.coeffs p := by
      rw [lpcCut]
      split
      · exact sumsFit_int64 hf fun x hx => signed_mono hmax (hp.signed x hx)
      · exact hsums.resolve_left ‹_›
    have hread := reads_decodeSubframeLpc hbps hpos hmax hf horder hp hfits hblock hroom
    have htyp : (Body.lpc f p).typ = 31 + p.warm.length := rfl
    rw [if_neg (by omega : ¬(Body.lpc f p).typ = 0), if_neg (by omega : ¬(Body.lpc f p).typ = 1),
      if_neg (by omega : ¬(8 ≤ (Body.lpc f p).typ ∧ (Body.lpc f p).typ ≤ 12)),
      if_pos (by omega : 32 ≤ (Body.lpc f p).typ), htyp,
      show 31 + p.warm.length - 32 + 1 = p.warm.length by omega]
    exact hread

theorem reads_decodeSubframe {sub : Subframe} (hbps : subframeBps s channel = bps)
    (hwf : sub.WellFormed fuel s.bps bps) (hblock : s.blocksize = sub.samples.length)
    (hroom : sub.samples.length ≤ (s.decoded channel).length) :
    Reads (decodeSubframe fuel s channel) (sub.bits bps)
      ({ s with currBps := (bps : Int) - sub.wasted }.put channel
        (sub.samples ++ (s.decoded channel).drop sub.samples.length)) := by
  obtain ⟨⟨hwasted, hfuel⟩, hwidth, hbody⟩ := hwf
  rw [Subframe.length_samples] at hblock hroom ⊢
  have htyp : sub.body.typ < 2 ^ 6 := by
    cases hcase : sub.body with
    | constant v n => simp [Body.typ]
    | verbatim xs => simp [Body.typ]
    | fixed p =>
      rw [hcase] at hbody
      have := hbody.1
      simp only [Body.typ]
      omega
    | lpc f p =>
      rw [hcase] at hbody
      have := hbody.1.order
      have := hbody.2.1
      simp only [Body.typ]
      omega
  rw [decodeSubframe, Subframe.bits, hbps]
  refine (reads_getBits1 false).bind ?_
  refine (reads_failIf (by simp) _).then ?_
  refine (reads_getBits (by omega) (by omega) htyp).bind ?_
  refine (reads_readWasted hfuel).bind ?_
  refine (reads_failIf (by simp only; omega) _).then ?_
  rw [← List.append_nil (sub.body.bits (bps - sub.wasted))]
  refine (reads_decodeBody (s := { s with currBps := (bps : Int) - sub.wasted })
    (by simp only; omega) (by omega) (by omega) hbody hblock hroom).bind ?_
  split
  · have hfits (x : Int) (hx : x ∈ sub.body.samples) :
        int32 (x * 2 ^ sub.wasted) = x * 2 ^ sub.wasted :=
      int32_of_fits hwidth (signed_shift hwasted (Body.signed hbody x hx))
    have hshift := shiftWasted_eq (by omega) hfits []
      ((s.decoded channel).drop sub.body.samples.length)
    have hcount : ({ s with currBps := (bps : Int) - sub.wasted }.put channel (sub.body.samples ++
        (s.decoded channel).drop sub.body.samples.length)).blocksize.toNat =
          sub.body.samples.length := by
      rw [← Int.toNat_natCast sub.body.samples.length, ← hblock]
      rfl
    rw [hcount, FLACContext.put_decoded]
    rw [List.nil_append, List.nil_append, List.length_nil] at hshift
    rw [hshift, pure_bind, FLACContext.put_put]
    exact reads_pure _
  · rename_i hzero
    have hsame : sub.samples = sub.body.samples := by
      rw [Subframe.samples, not_not.mp hzero]
      simp
    rw [hsame]
    exact reads_pure _

end

end Streambox.Flac
