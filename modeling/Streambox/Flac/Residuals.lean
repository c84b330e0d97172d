import Mathlib.Logic.Function.Basic
import Streambox.Flac.Golomb

/-! What is left of a subframe when its prediction is taken off, in `2 ^ riceOrder` partitions:

        ├ warm-up ┼─ partition 0 ─┼─ partition 1 ─┼─ … ─┤
        ├───── samples ──────────┼──── samples ───┼─ … ─┤     samples = blocksize >> riceOrder

    Each partition has its own Rice parameter, or the width of its numbers. The numbers go to their
    places in the array of the channel, behind the warm-up samples; nothing else in it changes. -/

namespace Streambox.Flac
open Streambox.Lib.BitField

structure FLACContext where
  samplerate : Nat
  channels : Nat
  bps : Nat
  maxBlocksize : Nat
  maxFramesize : Nat
  samples : Nat
  blocksize : Int
  currBps : Int
  sampleShift : Int
  chMode : Nat
  gotStreaminfo : Bool
  errorNum : Nat
  /-- One array for each channel. -/
  decoded : Nat → List Int

abbrev Decode (α : Type) := Reader (Stop FLACContext) α

/-- `if (…) return -1;` -/
def failIf (bad : Prop) [Decidable bad] (s : FLACContext) : Decode Unit :=
  if bad then throw (.error s) else pure ()

def load (d : List Int) (i : Nat) : Decode Int :=
  match d[i]? with
  | some v => pure v
  | none => throw .fault

def store (d : List Int) (i : Nat) (v : Int) : Decode (List Int) :=
  if i < d.length then pure (d.set i v) else throw .fault

/-- The context with the channel's array so. -/
def FLACContext.put (s : FLACContext) (channel : Nat) (d : List Int) : FLACContext :=
  { s with decoded := Function.update s.decoded channel d }

@[simp] theorem FLACContext.put_decoded (s : FLACContext) (channel : Nat) (d : List Int) :
    (s.put channel d).decoded channel = d := Function.update_self ..

@[simp] theorem FLACContext.put_put (s : FLACContext) (channel : Nat) (d d' : List Int) :
    (s.put channel d).put channel d' = s.put channel d' := by
  simp [put]

/-- `n` numbers into the array, from `sample` on. -/
def fill (read : Decode Int) : Nat → Nat → List Int → Decode (List Int)
  | 0, _, d => pure d
  | n + 1, sample, d => do
    let v ← read
    let d ← store d sample v
    fill read n (sample + 1) d

/-- One round of the loop. -/
def readPartition (fuel methodType n sample : Nat) (d : List Int) : Decode (List Int) := do
  let tmp ← getBits (if methodType = 0 then 4 else 5)
  if tmp = if methodType = 0 then 15 else 31 then do
    let tmp ← getBits 5
    fill (getSbitsLong tmp) n sample d
  else fill (getSrGolombFlac fuel tmp intMax 0) n sample d

/-- `i` is where the samples of the partition start; only for the first it is not 0. -/
def readPartitions (fuel methodType samples : Nat) : Nat → Nat → Nat → List Int → Decode (List Int)
  | 0, _, _, d => pure d
  | n + 1, i, sample, d => do
    let d ← readPartition fuel methodType (samples - i) sample d
    readPartitions fuel methodType samples n 0 (sample + (samples - i)) d

def decodeResiduals (fuel : Nat) (s : FLACContext) (channel predOrder : Nat) :
    Decode FLACContext := do
  let methodType ← getBits 2
  failIf (1 < methodType) s
  let riceOrder ← getBits 4
  let samples := s.blocksize >>> riceOrder
  failIf (samples < predOrder) s
  let d ← readPartitions fuel methodType samples.toNat (2 ^ riceOrder) predOrder predOrder
    (s.decoded channel)
  pure (s.put channel d)

/-! ### Arrays -/

theorem reads_failIf {bad : Prop} [Decidable bad] (hgood : ¬bad) (s : FLACContext) :
    Reads (failIf bad s) [] () := by
  rw [failIf, if_neg hgood]
  exact reads_pure ()

theorem fails_failIf {bad : Prop} [Decidable bad] (hbad : bad) (s : FLACContext) :
    Fails (failIf bad s) [] (.error s) := by
  intro mem i _
  rw [failIf, if_pos hbad]
  rfl

theorem load_eq {d : List Int} {i : Nat} {v : Int} (h : d[i]? = some v) : load d i = pure v := by
  rw [load, h]

theorem store_append (pre rest : List Int) (old v : Int) :
    store (pre ++ old :: rest) pre.length v = pure ((pre ++ [v]) ++ rest) := by
  rw [store, if_pos (by simp)]
  simp

/-- The numbers stand where the array was, and what is behind them stays. -/
theorem reads_fill {read : Decode Int} {code : Int → List Bool} {vs : List Int}
    (hread : ∀ v ∈ vs, Reads read (code v) v) (pre : List Int) {rest : List Int}
    (hroom : vs.length ≤ rest.length) :
    Reads (fill read vs.length pre.length (pre ++ rest)) (vs.flatMap code)
      (pre ++ vs ++ rest.drop vs.length) := by
  induction vs generalizing pre rest with
  | nil => simpa [fill] using reads_pure (pre ++ rest)
  | cons v vs ih =>
    rcases rest with _ | ⟨old, rest⟩
    · simp at hroom
    · have hroom' : vs.length ≤ rest.length := by simpa using hroom
      have hrest := ih (fun v' hv' => hread v' (List.mem_cons_of_mem _ hv')) (pre ++ [v]) hroom'
      rw [List.length_append, List.length_singleton] at hrest
      rw [List.flatMap_cons, List.length_cons, List.drop_succ_cons, fill]
      refine (hread v List.mem_cons_self).bind ?_
      rw [store_append, pure_bind]
      simpa using hrest

/-! ### Coded residuals -/

/-- How the numbers of a partition are coded. -/
inductive Part where
  | rice (k : Nat)
  | raw (width : Nat)
  deriving DecidableEq, Repr

/-- A partition: how it is coded, and its numbers. -/
structure Chunk where
  part : Part
  values : List Int
  deriving DecidableEq, Repr

/-- The width of a Rice parameter. The highest one says that the numbers are not Rice coded. -/
def paramBits (methodType : Nat) : Nat := if methodType = 0 then 4 else 5

def Chunk.bits (methodType : Nat) (chunk : Chunk) : List Bool :=
  match chunk.part with
  | .rice k => field (paramBits methodType) k ++ chunk.values.flatMap (riceSigned k)
  | .raw width => field (paramBits methodType) (2 ^ paramBits methodType - 1) ++
      (field 5 width ++ chunk.values.flatMap (sfield width))

/-- A partition that the decoder gets right. The parameter may be up to 30 where it has five bits;
    above 24 the code may be too long for the cache. A width of 0 is a shift by 32. -/
def Chunk.Fits (fuel methodType : Nat) (chunk : Chunk) : Prop :=
  match chunk.part with
  | .rice k => k < 2 ^ paramBits methodType - 1 ∧ k ≤ 24 ∧
      ∀ r ∈ chunk.values, zigzag r < 2 ^ 31 - 2 ∧ zigzag r >>> k < fuel
  | .raw width => 0 < width ∧ width < 32 ∧ ∀ r ∈ chunk.values, Signed width r

/-- All of what is left, as it is coded. -/
structure Residual where
  methodType : Nat
  riceOrder : Nat
  chunks : List Chunk
  deriving DecidableEq, Repr

def Residual.values (residual : Residual) : List Int := residual.chunks.flatMap Chunk.values

def Residual.bits (residual : Residual) : List Bool :=
  field 2 residual.methodType ++ (field 4 residual.riceOrder ++
    residual.chunks.flatMap (Chunk.bits residual.methodType))

/-- The first partition is shorter by the warm-up samples. -/
def Sized (samples : Nat) : Nat → List Chunk → Prop
  | _, [] => True
  | i, chunk :: chunks => i + chunk.values.length = samples ∧ Sized samples 0 chunks

/-- A residual of a block. -/
structure Residual.WellFormed (fuel blocksize predOrder : Nat) (residual : Residual) : Prop where
  method : residual.methodType ≤ 1
  order : residual.riceOrder < 16
  count : residual.chunks.length = 2 ^ residual.riceOrder
  warm : predOrder ≤ blocksize >>> residual.riceOrder
  sized : Sized (blocksize >>> residual.riceOrder) predOrder residual.chunks
  fits : ∀ chunk ∈ residual.chunks, chunk.Fits fuel residual.methodType

theorem reads_readPartition {fuel methodType : Nat} {chunk : Chunk}
    (hfits : chunk.Fits fuel methodType) {pre rest : List Int}
    (hroom : chunk.values.length ≤ rest.length) :
    Reads (readPartition fuel methodType chunk.values.length pre.length (pre ++ rest))
      (chunk.bits methodType) (pre ++ chunk.values ++ rest.drop chunk.values.length) := by
  obtain ⟨part, values⟩ := chunk
  have hbits : (if methodType = 0 then 4 else 5) = paramBits methodType := rfl
  have hescape : (if methodType = 0 then 15 else 31) = 2 ^ paramBits methodType - 1 := by
    rw [paramBits]
    split <;> rfl
  have hpos : 0 < paramBits methodType ∧ paramBits methodType ≤ 25 := by
    rw [paramBits]
    split <;> omega
  have hpow := Nat.two_pow_pos (paramBits methodType)
  rw [readPartition, hbits, hescape]
  cases part with
  | rice k =>
    obtain ⟨hk, hk', hvalues⟩ := hfits
    refine (reads_getBits hpos.1 hpos.2 (by omega)).bind ?_
    rw [if_neg (by omega)]
    exact reads_fill (fun r hr => reads_getSrGolombFlac hk' (hvalues r hr).1 (hvalues r hr).2) pre
      hroom
  | raw width =>
    obtain ⟨hwidth, hwidth', hvalues⟩ := hfits
    refine (reads_getBits hpos.1 hpos.2 (by omega)).bind ?_
    rw [if_pos rfl]
    refine (reads_getBits (by omega) (by omega) (by omega)).bind ?_
    exact reads_fill (fun r hr => reads_getSbitsLong hwidth (by omega) (hvalues r hr)) pre hroom

/-- Partition by partition; the array fills up behind what is there. -/
theorem reads_readPartitions {fuel methodType samples : Nat} {chunks : List Chunk} {i : Nat}
    (hi : i ≤ samples) (hsized : Sized samples i chunks)
    (hfits : ∀ chunk ∈ chunks, chunk.Fits fuel methodType) (pre : List Int) {rest : List Int}
    (hroom : (chunks.flatMap Chunk.values).length ≤ rest.length) :
    Reads (readPartitions fuel methodType samples chunks.length i pre.length (pre ++ rest))
      (chunks.flatMap (Chunk.bits methodType))
      (pre ++ chunks.flatMap Chunk.values ++ rest.drop (chunks.flatMap Chunk.values).length) := by
  induction chunks generalizing i pre rest with
  | nil => simpa [readPartitions] using reads_pure (pre ++ rest)
  | cons chunk chunks ih =>
    obtain ⟨hlen, hrest⟩ := hsized
    rw [List.flatMap_cons, List.length_append] at hroom
    have hroom' : (chunks.flatMap Chunk.values).length ≤
        (rest.drop chunk.values.length).length := by
      rw [List.length_drop]
      omega
    have hnext := ih (Nat.zero_le samples) hrest
      (fun c hc => hfits c (List.mem_cons_of_mem _ hc)) (pre ++ chunk.values) hroom'
    rw [List.length_append, List.drop_drop] at hnext
    rw [List.length_cons, readPartitions, show samples - i = chunk.values.length by omega,
      List.flatMap_cons, List.flatMap_cons, List.length_append, ← List.append_assoc pre]
    exact (reads_readPartition (hfits chunk List.mem_cons_self) (by omega)).bind hnext

theorem reads_decodeResiduals {fuel blocksize predOrder channel : Nat} {s : FLACContext}
    {residual : Residual} (hwf : residual.WellFormed fuel blocksize predOrder)
    (hblock : s.blocksize = blocksize) {pre rest : List Int} (hpre : pre.length = predOrder)
    (harray : s.decoded channel = pre ++ rest) (hroom : residual.values.length ≤ rest.length) :
    Reads (decodeResiduals fuel s channel predOrder) residual.bits
      (s.put channel (pre ++ residual.values ++ rest.drop residual.values.length)) := by
  have hsamples : (s.blocksize >>> residual.riceOrder : Int) =
      (blocksize >>> residual.riceOrder : Nat) := by
    rw [hblock, Int.natCast_shiftRight]
  have hmethod := hwf.method
  have hwarm := hwf.warm
  rw [decodeResiduals, Residual.bits]
  refine (reads_getBits (by omega) (by omega) (by omega)).bind ?_
  refine (reads_failIf (by omega) s).then ?_
  refine (reads_getBits (by omega) (by omega) hwf.order).bind ?_
  simp only [hsamples, Int.toNat_natCast]
  refine (reads_failIf (by omega) s).then ?_
  rw [harray, ← hwf.count, ← hpre]
  have hparts := reads_readPartitions (hpre ▸ hwarm) (hpre ▸ hwf.sized) hwf.fits pre hroom
  exact hparts.map fun d => s.put channel d

end Streambox.Flac
