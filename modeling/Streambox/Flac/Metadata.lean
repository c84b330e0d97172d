import Streambox.Flac.Residuals

/-! The blocks in front of the frames.

        'fLaC' │ last, type │ size │ data │ last, type │ size │ data │ …
           4   │     1      │  3   │ size │

    The first has the sizes, the rate and the width of the stream; from it the context is set up.
    The others are gone over. -/

namespace Streambox.Flac
open Streambox.Lib.BitField

/-- The buffer from `k` on. -/
def behind (mem : Mem) (k : Nat) : Mem := fun i => mem (k + i)

/-- am_flac_parse_block_header: the last block, the type, the size. -/
def parseBlockHeader (buf : Mem) (k : Nat) : Bool × Nat × Nat :=
  ((buf k).toNat &&& 0x80 ≠ 0, (buf k).toNat &&& 0x7F,
    ((buf (k + 1)).toNat * 256 + (buf (k + 2)).toNat) * 256 + (buf (k + 3)).toNat)

/-- The loop of get_metadata_size. -/
def metadataEnd (buf : Mem) (bufSize k : Nat) : Nat :=
  let (last, _, size) := parseBlockHeader buf k
  if bufSize < k + 4 + size then 0
  else if last then k + 4 + size
  else metadataEnd buf bufSize (k + 4 + size)
termination_by bufSize - k

def getMetadataSize (buf : Mem) (bufSize : Nat) : Nat := metadataEnd buf bufSize 4

def flacStreaminfoSize : Nat := 34

def flacMinBlocksize : Nat := 16

/-- am_flac_parse_streaminfo. -/
def parseStreaminfo (s : FLACContext) : Decode FLACContext := do
  skipBits 16
  let maxBlocksize ← getBits 16
  skipBits 24
  let maxFramesize ← getBitsLong 24
  let samplerate ← getBitsLong 20
  let channels ← getBits 3
  let bps ← getBits 5
  let high ← getBitsLong 32
  let low ← getBits 4
  skipBits 64
  skipBits 64
  pure { s with
    maxBlocksize := if maxBlocksize < flacMinBlocksize then 16 else maxBlocksize
    maxFramesize, samplerate
    channels := channels + 1
    bps := bps + 1
    samples := high <<< 4 % 2 ^ 32 ||| low }

def maxFrameSize (blocksize ch bps : Nat) : Nat :=
  16 + ch * ((7 + bps + 7) / 8) +
    (if ch = 2 then ((2 * bps + 1) * blocksize + 7) / 8 else (ch * bps * blocksize + 7) / 8) + 2

/-- av_realloc; nothing is said of what is in the new cells. -/
def avRealloc (d : List Int) (n : Nat) : List Int := d.take n ++ List.replicate (n - d.length) 0

def allocateBuffers (s : FLACContext) : FLACContext :=
  { s with
    maxFramesize := if s.maxFramesize = 0 ∧ s.maxBlocksize ≠ 0 then
        maxFrameSize s.maxBlocksize s.channels s.bps
      else s.maxFramesize
    decoded := fun i =>
      if i < s.channels then avRealloc (s.decoded i) s.maxBlocksize else s.decoded i }

/-- The reader at the beginning of a block, and what it makes of the context. -/
def streaminfoAt (s : FLACContext) (buf : Mem) : FLACContext :=
  match parseStreaminfo s buf 0 with
  | .ok (s', _) => { allocateBuffers s' with gotStreaminfo := true }
  | .error _ => s

/-- parse_streaminfo: nothing where the block is another one. -/
def inlineStreaminfo (s : FLACContext) (buf : Mem) (bufSize : Nat) : Option FLACContext :=
  if bufSize < flacStreaminfoSize + 8 then some s
  else
    let (_, metadataType, metadataSize) := parseBlockHeader buf 4
    if metadataType ≠ 0 ∨ metadataSize ≠ flacStreaminfoSize then none
    else some (streaminfoAt s (behind buf 8))

/-- 'fLaC' -/
def flacTag : Nat := 0x664C6143

/-- am_flac_is_extradata_valid: where the block with the sizes starts. -/
def streaminfoStart (extradata : Mem) (extradataSize : Nat) : Option Nat :=
  if extradataSize < flacStreaminfoSize then none
  else if be32 extradata 0 ≠ flacTag then some 0
  else if extradataSize < 8 + flacStreaminfoSize then none
  else some 8

/-- `memset(&flactext, 0, sizeof(flactext))` -/
def FLACContext.zero : FLACContext where
  samplerate := 0
  channels := 0
  bps := 0
  maxBlocksize := 0
  maxFramesize := 0
  samples := 0
  blocksize := 0
  currBps := 0
  sampleShift := 0
  chMode := 0
  gotStreaminfo := false
  errorNum := 0
  decoded := fun _ => []

/-- audio_dec_init: 0, or -1, and the context. -/
def audioDecInit (extradata : Mem) (extradataSize : Nat) : Int × FLACContext :=
  if extradataSize = 0 then (0, .zero)
  else
    match streaminfoStart extradata extradataSize with
    | none => (-1, .zero)
    | some k => (0, streaminfoAt .zero (behind extradata k))

/-! ### The first block -/

/-- What the block says; the decoder does not use all of it. -/
structure Streaminfo where
  minBlocksize : Nat
  maxBlocksize : Nat
  minFramesize : Nat
  maxFramesize : Nat
  samplerate : Nat
  channels : Nat
  bps : Nat
  samples : Nat
  md5 : Nat
  deriving DecidableEq, Repr

def Streaminfo.bits (i : Streaminfo) : List Bool :=
  field 16 i.minBlocksize ++ (field 16 i.maxBlocksize ++ (field 24 i.minFramesize ++
    (field 24 i.maxFramesize ++ (field 20 i.samplerate ++ (field 3 (i.channels - 1) ++
      (field 5 (i.bps - 1) ++ (field 32 (i.samples >>> 4) ++ (field 4 (i.samples % 16) ++
        (field 64 (i.md5 >>> 64) ++ field 64 i.md5)))))))))

structure Streaminfo.WellFormed (i : Streaminfo) : Prop where
  maxBlocksize : 16 ≤ i.maxBlocksize ∧ i.maxBlocksize < 2 ^ 16
  maxFramesize : i.maxFramesize < 2 ^ 24
  samplerate : i.samplerate < 2 ^ 20
  channels : 0 < i.channels ∧ i.channels ≤ 8
  bps : 0 < i.bps ∧ i.bps ≤ 32
  samples : i.samples < 2 ^ 36

/-- What the context has of it. The high bits of the number of samples are lost. -/
def FLACContext.withInfo (s : FLACContext) (i : Streaminfo) : FLACContext :=
  { s with
    maxBlocksize := i.maxBlocksize
    maxFramesize := i.maxFramesize
    samplerate := i.samplerate
    channels := i.channels
    bps := i.bps
    samples := i.samples >>> 4 <<< 4 % 2 ^ 32 ||| i.samples % 16 }

theorem reads_parseStreaminfo {i : Streaminfo} (hwf : i.WellFormed) (s : FLACContext) :
    Reads (parseStreaminfo s) i.bits (s.withInfo i) := by
  have hblock := hwf.maxBlocksize
  have hchannels := hwf.channels
  have hbps := hwf.bps
  have hsamples : i.samples >>> 4 < 2 ^ 32 := by
    have := hwf.samples
    rw [Nat.shiftRight_eq_div_pow]
    omega
  rw [parseStreaminfo, Streaminfo.bits]
  refine (reads_skipField 16 i.minBlocksize).bind ?_
  refine (reads_getBits (by omega) (by omega) hblock.2).bind ?_
  refine (reads_skipField 24 i.minFramesize).bind ?_
  refine (reads_getBitsLong (by omega) (by omega) hwf.maxFramesize).bind ?_
  refine (reads_getBitsLong (by omega) (by omega) hwf.samplerate).bind ?_
  refine (reads_getBits (by omega) (by omega) (by omega)).bind ?_
  refine (reads_getBits (by omega) (by omega) (by omega)).bind ?_
  refine (reads_getBitsLong (by omega) (by omega) hsamples).bind ?_
  refine (reads_getBits (by omega) (by omega) (by omega)).bind ?_
  refine (reads_skipField 64 (i.md5 >>> 64)).bind ?_
  have hskip := Reads.map (reads_skipField (σ := FLACContext) 64 i.md5) fun _ => s.withInfo i
  have hinfo : s.withInfo i = { s with
      maxBlocksize := if i.maxBlocksize < flacMinBlocksize then 16 else i.maxBlocksize
      maxFramesize := i.maxFramesize
      samplerate := i.samplerate
      channels := i.channels - 1 + 1
      bps := i.bps - 1 + 1
      samples := i.samples >>> 4 <<< 4 % 2 ^ 32 ||| i.samples % 16 } := by
    rw [FLACContext.withInfo, if_neg (by rw [flacMinBlocksize]; omega), Nat.sub_add_cancel hchannels.1,
      Nat.sub_add_cancel hbps.1]
  rw [hinfo] at hskip ⊢
  exact hskip

/-- The arrays are as long as the largest block. -/
theorem length_avRealloc (d : List Int) (n : Nat) : (avRealloc d n).length = n := by
  rw [avRealloc, List.length_append, List.length_take, List.length_replicate]
  omega

/-- The context is set up for the stream. -/
structure FLACContext.SetUp (s : FLACContext) (i : Streaminfo) : Prop where
  maxBlocksize : s.maxBlocksize = i.maxBlocksize
  samplerate : s.samplerate = i.samplerate
  channels : s.channels = i.channels
  bps : s.bps = i.bps
  gotStreaminfo : s.gotStreaminfo = true
  arrays : ∀ k < s.channels, (s.decoded k).length = s.maxBlocksize

theorem streaminfoAt_setUp {i : Streaminfo} (hwf : i.WellFormed) (s : FLACContext) {buf : Mem}
    (hbits : Holds buf 0 i.bits) : (streaminfoAt s buf).SetUp i := by
  have hread := reads_parseStreaminfo hwf s buf 0 hbits
  rw [streaminfoAt, hread]
  refine ⟨rfl, rfl, rfl, rfl, rfl, fun k hk => ?_⟩
  have hk' : k < (s.withInfo i).channels := hk
  simp only [allocateBuffers, if_pos hk', length_avRealloc]

theorem holds_behind {mem : Mem} {k i : Nat} {bits : List Bool} :
    Holds (behind mem k) i bits ↔ Holds mem (8 * k + i) bits := by
  refine forall_congr' fun j => forall_congr' fun _ => ?_
  rw [bitAt, bitAt, behind, show (8 * k + i + j) / 8 = k + (i + j) / 8 by omega,
    show (8 * k + i + j) % 8 = (i + j) % 8 by omega]

/-- What audio_dec_init is given may start with the tag or not. -/
theorem audioDecInit_setUp {i : Streaminfo} (hwf : i.WellFormed) {extradata : Mem}
    {extradataSize k : Nat} (hstart : streaminfoStart extradata extradataSize = some k)
    (hbits : Holds extradata (8 * k) i.bits) :
    (audioDecInit extradata extradataSize).1 = 0 ∧
      (audioDecInit extradata extradataSize).2.SetUp i := by
  have hsize : extradataSize ≠ 0 := by
    rintro rfl
    simp [streaminfoStart, flacStreaminfoSize] at hstart
  rw [audioDecInit, if_neg hsize, hstart]
  exact ⟨rfl, streaminfoAt_setUp hwf .zero (holds_behind.mpr hbits)⟩

/-! ### The other blocks -/

/-- Blocks one behind the other, from `k` on, up to the last; `stop` is behind it. -/
inductive Blocks (buf : Mem) : Nat → Nat → Prop
  | last {k typ size : Nat} (h : parseBlockHeader buf k = (true, typ, size)) :
    Blocks buf k (k + 4 + size)
  | more {k typ size stop : Nat} (h : parseBlockHeader buf k = (false, typ, size))
    (rest : Blocks buf (k + 4 + size) stop) : Blocks buf k stop

theorem Blocks.lt {buf : Mem} {k stop : Nat} (h : Blocks buf k stop) : k + 4 ≤ stop := by
  induction h with
  | last => omega
  | more _ _ ih => omega

/-- All of the blocks are gone over, or nothing of them. -/
theorem metadataEnd_eq {buf : Mem} {bufSize k stop : Nat} (h : Blocks buf k stop) :
    metadataEnd buf bufSize k = if stop ≤ bufSize then stop else 0 := by
  induction h with
  | last hlast =>
    rw [metadataEnd, hlast]
    simp only [if_true]
    split_ifs <;> omega
  | more hmore hrest ih =>
    have := hrest.lt
    rw [metadataEnd, hmore]
    simp only [ih, Bool.false_eq_true, if_false]
    split_ifs <;> omega

end Streambox.Flac
