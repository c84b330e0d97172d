import Mathlib.Algebra.Group.Nat.Defs
import Mathlib.Data.List.Find

/-! libadpcm, adpcm_decode.c: the sample decoders.

    A-law and u-law bytes are expanded one by one. An IMA block holds a header for each channel and
    then, in turn, four bytes for each; an MS block holds a header and then one byte for each two
    samples. The blocks are read from a buffer that may be longer than they are. -/

namespace Streambox.Adpcm

abbrev Bytes := List UInt8

/-- A byte of a buffer. -/
def byteAt (data : Bytes) (i : Nat) : Nat := (data.getD i 0).toNat

/-- `(short)` of an int. -/
def toShort (x : Int) : Int := x.bmod 65536

/-- Two bytes, low one first, as a short. -/
def shortAt (data : Bytes) (i : Nat) : Int := toShort (byteAt data i + 256 * byteAt data (i + 1))

/-- `Clamp`. -/
def clamp (x min max : Int) : Int := if x > max then max else if x < min then min else x

/-! ### A-law and u-law -/

def alaw2linear (byte : UInt8) : Int :=
  let val := byte.toNat ^^^ 0x55
  let seg := val / 16 % 8
  let t := val % 16 * 16
  let t := if seg = 0 then t + 8 else (t + 0x108) * 2 ^ (seg - 1)
  if val / 128 = 1 then (t : Int) else -(t : Int)

def ulaw2linear (byte : UInt8) : Int :=
  let val := 255 - byte.toNat
  let t := (val % 16 * 8 + 0x84) * 2 ^ (val / 16 % 8)
  if val / 128 = 1 then 0x84 - (t : Int) else (t : Int) - 0x84

/-! ### IMA -/

def adpcmStep : List Int :=
  [7, 8, 9, 10, 11, 12, 13, 14, 16, 17,
   19, 21, 23, 25, 28, 31, 34, 37, 41, 45,
   50, 55, 60, 66, 73, 80, 88, 97, 107, 118,
   130, 143, 157, 173, 190, 209, 230, 253, 279, 307,
   337, 371, 408, 449, 494, 544, 598, 658, 724, 796,
   876, 963, 1060, 1166, 1282, 1411, 1552, 1707, 1878, 2066,
   2272, 2499, 2749, 3024, 3327, 3660, 4026, 4428, 4871, 5358,
   5894, 6484, 7132, 7845, 8630, 9493, 10442, 11487, 12635, 13899,
   15289, 16818, 18500, 20350, 22385, 24623, 27086, 29794, 32767]

def adpcmIndex : List Int := [-1, -1, -1, -1, 2, 4, 6, 8, -1, -1, -1, -1, 2, 4, 6, 8]

/-- One channel of an IMA block: its last sample and its step index. -/
structure ImaChannel where
  sample : Int
  stepindex : Nat
  deriving DecidableEq, Repr

/-- The next sample of a channel. -/
def ImaChannel.next (c : ImaChannel) (bytecode : Nat) : ImaChannel :=
  let step := adpcmStep.getD c.stepindex 0
  let diff := (2 * ((bytecode % 8 : Nat) : Int) * step + step) / 8
  let diff := if bytecode / 8 = 1 then -diff else diff
  { sample := clamp (c.sample + diff) (-32768) 32767
    stepindex := (clamp (c.stepindex + adpcmIndex.getD bytecode 0) 0 88).toNat }

/-- The samples that a channel makes of some nibbles, and the channel after them. -/
def ImaChannel.decode (c : ImaChannel) : List Nat → List Int × ImaChannel
  | [] => ([], c)
  | bytecode :: rest =>
    (((c.next bytecode).sample :: ((c.next bytecode).decode rest).1),
      ((c.next bytecode).decode rest).2)

/-- The eight nibbles of the four bytes from an offset, low ones first. -/
def nibblesAt (data : Bytes) (offset : Nat) : List Nat :=
  (List.range 8).map fun j => byteAt data (offset + j / 2) / (if j % 2 = 0 then 1 else 16) % 16

/-- The header of a channel. -/
def imaHeader (data : Bytes) (channel : Nat) : ImaChannel where
  sample := shortAt data (4 * channel)
  stepindex := min (byteAt data (4 * channel + 2)) 88

/-- One pass of the loop: eight samples of each channel, the channels in turn. -/
def interleave (rows : List (List Int)) : List Int :=
  (List.range 8).flatMap fun j => rows.map (·.getD j 0)

/-- The passes of the loop, from an offset in the data. -/
def imaPasses (data : Bytes) : Nat → List ImaChannel → Nat → List Int
  | 0, _, _ => []
  | passes + 1, channels, offset =>
    let decoded := channels.zipIdx.map fun (c, k) => c.decode (nibblesAt data (offset + 4 * k))
    interleave (decoded.map Prod.fst) ++
      imaPasses data passes (decoded.map Prod.snd) (offset + 4 * channels.length)

/-- How often the loop of a block with a number of samples runs. -/
def imaPassCount (channels : Nat) (nSamples : Int) : Nat :=
  ((nSamples - channels + 8 * channels - 1) / (8 * channels)).toNat

/-- Overwrite the front of a buffer. -/
def overwrite {α : Type} (buffer front : List α) : List α := front ++ buffer.drop front.length

/-- The size check of `adpcmdec_decode_ima_block`. -/
def imaSizeOk (channels : Nat) (nSamples : Int) : Bool := (nSamples - channels).tmod 8 = 0

/-- The first channel whose header has no zero at its end. -/
def imaSyncError (channels : Nat) (data : Bytes) : Option Nat :=
  (List.range channels).find? fun channel => byteAt data (4 * channel + 3) ≠ 0

/-- All that an accepted block writes. -/
def imaSamples (channels : Nat) (nSamples : Int) (data : Bytes) : List Int :=
  let headers := (List.range channels).map (imaHeader data)
  headers.map ImaChannel.sample ++
    imaPasses data (imaPassCount channels nSamples) headers (4 * channels)

/-- `adpcmdec_decode_ima_block`: the sample buffer after it. -/
def adpcmdecDecodeImaBlock (channels : Nat) (nSamples : Int) (data : Bytes) (samples : List Int) :
    List Int :=
  if imaSizeOk channels nSamples then
    match imaSyncError channels data with
    | some channel =>
      overwrite samples ((List.range (channel + 1)).map fun c => (imaHeader data c).sample)
    | none => overwrite samples (imaSamples channels nSamples data)
  else samples

/-! ### MS -/

def adaptationTable : List Int :=
  [230, 230, 230, 230, 307, 409, 512, 614, 768, 614, 512, 409, 307, 230, 230, 230]

def adaptCoeff1 : List Int := [256, 512, 0, 192, 240, 460, 392]

def adaptCoeff2 : List Int := [0, -256, 0, 64, 0, -208, -232]

/-- What an index that is not checked reads from the two tables. -/
def adaptCoeff (beyond : Nat → Int × Int) (i : Nat) : Int × Int :=
  if i < 7 then (adaptCoeff1.getD i 0, adaptCoeff2.getD i 0) else beyond i

/-- The variables of `ms_adpcm_decode_block`, for one or two channels. -/
structure MsState where
  bpred : Nat × Nat
  idelta : Int × Int
  s0 : Int
  s1 : Int
  s2 : Int
  s3 : Int
  s4 : Int
  s5 : Int
  out : List Int
  deriving DecidableEq, Repr

/-- The header of a block. -/
def msHeader (channel : Nat) (buf : Bytes) : MsState :=
  if channel = 1 then
    { bpred := (byteAt buf 0, 0), idelta := (shortAt buf 1, 0), s1 := shortAt buf 3,
      s0 := shortAt buf 5, s2 := 0, s3 := 0, s4 := 0, s5 := 0, out := [] }
  else
    { bpred := (byteAt buf 0, byteAt buf 1), idelta := (shortAt buf 2, shortAt buf 4),
      s2 := shortAt buf 6, s3 := shortAt buf 8, s0 := shortAt buf 10, s1 := shortAt buf 12,
      s4 := 0, s5 := 0, out := [] }

/-- Take a byte apart. -/
def msRead (channel : Nat) (st : MsState) (byte : Nat) : MsState :=
  if channel = 1 then { st with s2 := (byte / 16 : Nat), s3 := (byte % 16 : Nat) }
  else { st with s4 := (byte / 16 : Nat), s5 := (byte % 16 : Nat) }

/-- The scale factor of a channel and the next value of it. -/
def nextDelta (bytecode : Nat) (delta : Int) : Int :=
  max (toShort (adaptationTable.getD bytecode 0 * delta / 256)) 16

/-- The sample that a nibble gives. -/
def msCurrent (bytecode : Nat) (delta predict : Int) : Int :=
  let code : Int := if bytecode / 8 = 1 then (bytecode : Int) - 16 else bytecode
  clamp (code * delta + predict / 256) (-32768) 32767

/-- One pass of the loop. `second` says that it is for the second channel. -/
def msPass (beyond : Nat → Int × Int) (channel : Nat) (second : Bool) (st : MsState) : MsState :=
  let bytecode := ((if channel = 1 then st.s2 else st.s4) % 16).toNat
  let delta := if second then st.idelta.2 else st.idelta.1
  let coeff := adaptCoeff beyond (if second then st.bpred.2 else st.bpred.1)
  let predict := (if channel = 1 then st.s1 else st.s2) * coeff.1 + st.s0 * coeff.2
  let current := msCurrent bytecode delta predict
  let idelta := if second then (st.idelta.1, nextDelta bytecode delta)
    else (nextDelta bytecode delta, st.idelta.2)
  let out := st.out ++ [st.s0]
  if channel = 1 then { st with idelta, out, s0 := st.s1, s1 := current, s2 := st.s3 }
  else { st with idelta, out, s0 := st.s1, s1 := st.s2, s2 := st.s3, s3 := current, s4 := st.s5 }

/-- The loop over the bytes of a block. `sampleindx` is two ahead after a byte is read, so every
    second pass reads one; the last byte gets only the first of its two passes. -/
def msLoop (beyond : Nat → Int × Int) (channel : Nat) : MsState → List Nat → MsState
  | st, [] => st
  | st, [byte] => msPass beyond channel false (msRead channel st byte)
  | st, byte :: next :: rest =>
    msLoop beyond channel
      (msPass beyond channel (channel = 2) (msPass beyond channel false (msRead channel st byte)))
      (next :: rest)

/-- The bytes after the header. -/
def msBody (channel : Nat) (buf : Bytes) (block : Nat) : List Nat :=
  (List.range (block - 7 * channel)).map fun i => byteAt buf (7 * channel + i)

/-- `ms_adpcm_decode_block`: the samples that it writes. -/
def msAdpcmDecodeBlock (beyond : Nat → Int × Int) (channel : Nat) (buf : Bytes) (block : Nat) :
    List Int :=
  let st := msLoop beyond channel (msHeader channel buf) (msBody channel buf block)
  if channel = 1 then st.out ++ [st.s0, st.s1] else st.out ++ [st.s0, st.s1, st.s2, st.s3]

/-! ### What a block stands for -/

/-- The samples of an IMA block, which fills its last group of words and has the zeros that mark its
    headers. -/
def imaExpand (channels : Nat) (payload : Bytes) : Option (List Int) :=
  if 4 * channels ≤ payload.length ∧ (payload.length - 4 * channels) % (4 * channels) = 0 ∧
      imaSyncError channels payload = none then
    some (imaSamples channels (((payload.length : Int) - 4 * channels) * 2 + channels) payload)
  else none

/-- The samples of an MS block, whose predictors are entries of the tables; whole samples of all
    channels. -/
def msExpand (channels : Nat) (payload : Bytes) : Option (List Int) :=
  if 7 * channels ≤ payload.length ∧ byteAt payload 0 < 7 ∧
      (channels = 2 → byteAt payload 1 < 7) then
    let samples := msAdpcmDecodeBlock (fun _ => (0, 0)) channels payload payload.length
    some (samples.take (samples.length - samples.length % channels))
  else none

/-! ### A block does not depend on what follows it -/

section local_
variable {payload rest : Bytes}

theorem byteAt_append {i : Nat} (h : i < payload.length) :
    byteAt (payload ++ rest) i = byteAt payload i := by
  rw [byteAt, byteAt, List.getD_eq_getElem?_getD, List.getD_eq_getElem?_getD,
    List.getElem?_append_left h]

theorem shortAt_append {i : Nat} (h : i + 1 < payload.length) :
    shortAt (payload ++ rest) i = shortAt payload i := by
  rw [shortAt, shortAt, byteAt_append (by omega), byteAt_append h]

theorem nibblesAt_append {offset : Nat} (h : offset + 4 ≤ payload.length) :
    nibblesAt (payload ++ rest) offset = nibblesAt payload offset := by
  refine List.map_congr_left fun j hj => ?_
  have hj : j < 8 := List.mem_range.mp hj
  rw [byteAt_append (by omega)]

theorem imaHeader_append {channel : Nat} (h : 4 * channel + 4 ≤ payload.length) :
    imaHeader (payload ++ rest) channel = imaHeader payload channel := by
  rw [imaHeader, imaHeader, shortAt_append (by omega), byteAt_append (by omega)]

theorem imaPasses_append {passes : Nat} {channels : List ImaChannel} {offset : Nat}
    (h : offset + 4 * channels.length * passes ≤ payload.length) :
    imaPasses (payload ++ rest) passes channels offset =
      imaPasses payload passes channels offset := by
  induction passes generalizing channels offset with
  | zero => rfl
  | succ passes ih =>
    have hpass : offset + 4 * channels.length + 4 * channels.length * passes ≤ payload.length := by
      rw [Nat.mul_succ] at h
      omega
    have hdecoded : (channels.zipIdx.map fun (c, k) =>
        c.decode (nibblesAt (payload ++ rest) (offset + 4 * k))) =
        channels.zipIdx.map fun (c, k) => c.decode (nibblesAt payload (offset + 4 * k)) := by
      refine List.map_congr_left fun ck hck => ?_
      have hk : ck.2 < channels.length := List.snd_lt_of_mem_zipIdx hck
      have hword : offset + 4 * ck.2 + 4 ≤ payload.length := by omega
      simp only [nibblesAt_append hword]
    rw [imaPasses, imaPasses, hdecoded]
    dsimp only
    rw [ih (by simpa using hpass)]

theorem imaSyncError_append {channels : Nat} (h : 4 * channels ≤ payload.length) :
    imaSyncError channels (payload ++ rest) = imaSyncError channels payload := by
  rw [imaSyncError, imaSyncError]
  refine List.find?_congr fun c hc => ?_
  have hc : c < channels := List.mem_range.mp hc
  rw [byteAt_append (by omega)]

theorem imaSamples_append {channels : Nat} {nSamples : Int}
    (h : 4 * channels + 4 * channels * imaPassCount channels nSamples ≤ payload.length) :
    imaSamples channels nSamples (payload ++ rest) = imaSamples channels nSamples payload := by
  have hheaders : (List.range channels).map (imaHeader (payload ++ rest)) =
      (List.range channels).map (imaHeader payload) := by
    refine List.map_congr_left fun c hc => ?_
    have hc : c < channels := List.mem_range.mp hc
    exact imaHeader_append (by omega)
  rw [imaSamples, imaSamples, hheaders, imaPasses_append (by simpa using h)]

theorem msHeader_append {channel : Nat} (hch : channel = 1 ∨ channel = 2)
    (h : 7 * channel ≤ payload.length) :
    msHeader channel (payload ++ rest) = msHeader channel payload := by
  rcases hch with rfl | rfl
  · simp only [msHeader, if_true]
    rw [byteAt_append (by omega), shortAt_append (by omega), shortAt_append (by omega),
      shortAt_append (by omega)]
  · simp only [msHeader, Nat.reduceEqDiff, if_false]
    rw [byteAt_append (by omega), byteAt_append (by omega), shortAt_append (by omega),
      shortAt_append (by omega), shortAt_append (by omega), shortAt_append (by omega),
      shortAt_append (by omega), shortAt_append (by omega)]

theorem msBody_append {channel block : Nat} (h : block ≤ payload.length) :
    msBody channel (payload ++ rest) block = msBody channel payload block := by
  refine List.map_congr_left fun i hi => ?_
  have hi : i < block - 7 * channel := List.mem_range.mp hi
  exact byteAt_append (by omega)

end local_

/-! ### How many samples a block has -/

theorem interleave_length (rows : List (List Int)) : (interleave rows).length = 8 * rows.length := by
  simp [interleave, List.length_flatMap, List.map_const']
  omega

theorem imaPasses_length (data : Bytes) (passes : Nat) (channels : List ImaChannel) (offset : Nat) :
    (imaPasses data passes channels offset).length = 8 * channels.length * passes := by
  induction passes generalizing channels offset with
  | zero => rfl
  | succ passes ih =>
    rw [imaPasses]
    dsimp only
    rw [List.length_append, ih, interleave_length]
    simp only [List.length_map, List.length_zipIdx, Nat.mul_succ]
    omega

theorem imaSamples_length (channels : Nat) (nSamples : Int) (data : Bytes) :
    (imaSamples channels nSamples data).length =
      channels + 8 * channels * imaPassCount channels nSamples := by
  simp [imaSamples, imaPasses_length]

/-- The samples of a block that fills its last group, as the driver counts them. -/
theorem imaSampleCount_eq {channels : Nat} (hch : channels = 1 ∨ channels = 2) (groups : Nat) :
    (((4 * channels + 4 * channels * groups : Nat) : Int) - 4 * channels) * 2 + channels =
      ((channels + 8 * channels * groups : Nat) : Int) := by
  rcases hch with rfl | rfl <;> omega

/-- The passes over such a block. -/
theorem imaPassCount_eq {channels : Nat} (hch : channels = 1 ∨ channels = 2) (groups : Nat) :
    imaPassCount channels ((channels + 8 * channels * groups : Nat) : Int) = groups := by
  rw [imaPassCount]
  rcases hch with rfl | rfl <;> omega

theorem imaSizeOk_eq {channels : Nat} (hch : channels = 1 ∨ channels = 2) (groups : Nat) :
    imaSizeOk channels ((channels + 8 * channels * groups : Nat) : Int) = true := by
  rw [imaSizeOk, decide_eq_true_eq]
  refine Int.tmod_eq_zero_of_dvd ?_
  rcases hch with rfl | rfl
  · exact ⟨groups, by omega⟩
  · exact ⟨2 * groups, by omega⟩

/-- How many samples the loop of a block with some bytes leaves. -/
def msSampleCount (channel block : Nat) : Nat :=
  2 * (block - 7 * channel) - 1 + 2 * channel -
    (2 * (block - 7 * channel) - 1 + 2 * channel) % channel

theorem msPass_out (beyond : Nat → Int × Int) (channel : Nat) (second : Bool) (st : MsState) :
    (msPass beyond channel second st).out = st.out ++ [st.s0] := by
  rw [msPass]
  split_ifs <;> rfl

theorem msRead_out (channel : Nat) (st : MsState) (byte : Nat) :
    (msRead channel st byte).out = st.out := by
  rw [msRead]
  split_ifs <;> rfl

theorem msLoop_length (beyond : Nat → Int × Int) (channel : Nat) (st : MsState)
    (bytes : List Nat) :
    (msLoop beyond channel st bytes).out.length = st.out.length + (2 * bytes.length - 1) := by
  induction st, bytes using msLoop.induct beyond channel with
  | case1 st => simp [msLoop]
  | case2 st byte => simp [msLoop, msPass_out, msRead_out]
  | case3 st byte next rest ih =>
    rw [msLoop, ih, msPass_out, msPass_out, msRead_out]
    simp only [List.length_append, List.length_cons, List.length_nil]
    omega

theorem msHeader_out (channel : Nat) (buf : Bytes) : (msHeader channel buf).out = [] := by
  rw [msHeader]
  split_ifs <;> rfl

theorem msAdpcmDecodeBlock_length (beyond : Nat → Int × Int) {channel : Nat}
    (hch : channel = 1 ∨ channel = 2) (buf : Bytes) (block : Nat) :
    (msAdpcmDecodeBlock beyond channel buf block).length =
      2 * (block - 7 * channel) - 1 + 2 * channel := by
  have hloop := msLoop_length beyond channel (msHeader channel buf) (msBody channel buf block)
  rw [msHeader_out, msBody, List.length_map, List.length_range] at hloop
  rw [msAdpcmDecodeBlock, msBody]
  rcases hch with rfl | rfl
  · simp [hloop]
  · simp [hloop]

/-! ### Predictors from the tables -/

theorem msPass_bpred (beyond : Nat → Int × Int) (channel : Nat) (second : Bool) (st : MsState) :
    (msPass beyond channel second st).bpred = st.bpred := by
  rw [msPass]
  split_ifs <;> rfl

theorem msRead_bpred (channel : Nat) (st : MsState) (byte : Nat) :
    (msRead channel st byte).bpred = st.bpred := by
  rw [msRead]
  split_ifs <;> rfl

/-- A predictor from the tables does not read beyond them. -/
theorem msPass_beyond (beyond beyond' : Nat → Int × Int) (channel : Nat) {second : Bool}
    {st : MsState} (h : (if second then st.bpred.2 else st.bpred.1) < 7) :
    msPass beyond channel second st = msPass beyond' channel second st := by
  have hcoeff : adaptCoeff beyond (if second then st.bpred.2 else st.bpred.1) =
      adaptCoeff beyond' (if second then st.bpred.2 else st.bpred.1) := by
    rw [adaptCoeff, adaptCoeff, if_pos h, if_pos h]
  rw [msPass, msPass, hcoeff]

theorem msLoop_beyond (beyond beyond' : Nat → Int × Int) (channel : Nat) (st : MsState)
    (bytes : List Nat) (hfirst : st.bpred.1 < 7) (hsecond : channel = 2 → st.bpred.2 < 7) :
    msLoop beyond channel st bytes = msLoop beyond' channel st bytes := by
  induction st, bytes using msLoop.induct beyond channel with
  | case1 st => rfl
  | case2 st byte =>
    rw [msLoop, msLoop, msPass_beyond beyond beyond' channel (by rwa [msRead_bpred])]
  | case3 st byte next rest ih =>
    have hpass : msPass beyond channel false (msRead channel st byte) =
        msPass beyond' channel false (msRead channel st byte) :=
      msPass_beyond beyond beyond' channel (by rwa [msRead_bpred])
    have hpasses : msPass beyond channel (channel = 2)
        (msPass beyond channel false (msRead channel st byte)) =
        msPass beyond' channel (channel = 2)
        (msPass beyond channel false (msRead channel st byte)) := by
      refine msPass_beyond beyond beyond' channel ?_
      rw [msPass_bpred, msRead_bpred]
      by_cases hch : channel = 2
      · simpa [hch] using hsecond hch
      · simpa [hch] using hfirst
    rw [msLoop, msLoop, ih (by rwa [msPass_bpred, msPass_bpred, msRead_bpred])
      (by rwa [msPass_bpred, msPass_bpred, msRead_bpred]), hpasses, hpass]

theorem msAdpcmDecodeBlock_beyond (beyond beyond' : Nat → Int × Int) {channel : Nat}
    (hch : channel = 1 ∨ channel = 2) {buf : Bytes} (block : Nat) (hfirst : byteAt buf 0 < 7)
    (hsecond : channel = 2 → byteAt buf 1 < 7) :
    msAdpcmDecodeBlock beyond channel buf block = msAdpcmDecodeBlock beyond' channel buf block := by
  have hbpred : (msHeader channel buf).bpred.1 < 7 ∧
      (channel = 2 → (msHeader channel buf).bpred.2 < 7) := by
    rcases hch with rfl | rfl
    · exact ⟨hfirst, fun h => absurd h (by decide)⟩
    · exact ⟨hfirst, hsecond⟩
  rw [msAdpcmDecodeBlock, msAdpcmDecodeBlock,
    msLoop_beyond beyond beyond' channel _ _ hbpred.1 hbpred.2]

theorem msAdpcmDecodeBlock_append (beyond : Nat → Int × Int) {channel block : Nat}
    {payload rest : Bytes} (hch : channel = 1 ∨ channel = 2) (hheader : 7 * channel ≤ payload.length)
    (h : block ≤ payload.length) :
    msAdpcmDecodeBlock beyond channel (payload ++ rest) block =
      msAdpcmDecodeBlock beyond channel payload block := by
  rw [msAdpcmDecodeBlock, msAdpcmDecodeBlock, msHeader_append hch hheader, msBody_append h]

/-! ### More bytes, more samples -/

/-- The samples so far, with those that the state holds. -/
def MsState.samples (channel : Nat) (st : MsState) : List Int :=
  if channel = 1 then st.out ++ [st.s0, st.s1] else st.out ++ [st.s0, st.s1, st.s2, st.s3]

theorem msPass_samples (beyond : Nat → Int × Int) (channel : Nat) (second : Bool) (st : MsState) :
    st.samples channel <+: (msPass beyond channel second st).samples channel := by
  by_cases hch : channel = 1
  · simp only [MsState.samples, msPass, hch, if_true]
    exact ⟨[_], by simp only [List.append_assoc]; rfl⟩
  · simp only [MsState.samples, msPass, hch, if_false]
    exact ⟨[_], by simp only [List.append_assoc]; rfl⟩

theorem msRead_samples (channel : Nat) (st : MsState) (byte : Nat) :
    (msRead channel st byte).samples channel = st.samples channel := by
  by_cases hch : channel = 1
  · simp only [MsState.samples, msRead, hch, if_true]
  · simp only [MsState.samples, msRead, hch, if_false]

theorem msLoop_samples (beyond : Nat → Int × Int) (channel : Nat) (st : MsState)
    (bytes : List Nat) : st.samples channel <+: (msLoop beyond channel st bytes).samples channel := by
  induction st, bytes using msLoop.induct beyond channel with
  | case1 st => exact List.prefix_refl _
  | case2 st byte =>
    rw [msLoop, ← msRead_samples channel st byte]
    exact msPass_samples ..
  | case3 st byte next rest ih =>
    rw [msLoop, ← msRead_samples channel st byte]
    exact (msPass_samples ..).trans ((msPass_samples ..).trans ih)

theorem msLoop_append (beyond : Nat → Int × Int) (channel : Nat) (st : MsState)
    (bytes more : List Nat) :
    (msLoop beyond channel st bytes).samples channel <+:
      (msLoop beyond channel st (bytes ++ more)).samples channel := by
  induction st, bytes using msLoop.induct beyond channel with
  | case1 st => exact msLoop_samples ..
  | case2 st byte =>
    cases more with
    | nil => exact List.prefix_refl _
    | cons next rest =>
      rw [List.singleton_append, msLoop, msLoop]
      exact (msPass_samples ..).trans (msLoop_samples ..)
  | case3 st byte next rest ih =>
    rw [List.cons_append, List.cons_append, msLoop, msLoop]
    exact ih

/-- A longer block begins with the samples of a shorter one. -/
theorem msAdpcmDecodeBlock_stays (beyond : Nat → Int × Int) (channel : Nat) (buf : Bytes)
    {block block' : Nat} (h : block ≤ block') :
    msAdpcmDecodeBlock beyond channel buf block <+:
      msAdpcmDecodeBlock beyond channel buf block' := by
  obtain ⟨more, hmore⟩ : ∃ more, msBody channel buf block' = msBody channel buf block ++ more := by
    obtain ⟨k, hk⟩ := Nat.exists_eq_add_of_le (Nat.sub_le_sub_right h (7 * channel))
    rw [msBody, msBody, hk, List.range_add, List.map_append]
    exact ⟨_, rfl⟩
  rw [msAdpcmDecodeBlock, msAdpcmDecodeBlock, hmore]
  exact msLoop_append beyond channel (msHeader channel buf) (msBody channel buf block) more

end Streambox.Adpcm
