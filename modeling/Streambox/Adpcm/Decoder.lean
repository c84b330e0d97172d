import Streambox.Lib.Run
import Streambox.Adpcm.Blocks

/-! libadpcm, adpcm_decode.c: the decoder around the blocks.

    A call reads its input through a small reader. `refill` looks for a header ("APTS" with a length,
    or a WAV header) unless an earlier call has found a length, and copies a block into the wave
    buffer; a driver for each codec expands the wave buffer into the sample buffer and copies that
    out. What earlier calls left in the static variables and in the two buffers is the state.

    A call that would leave a buffer has no result: the model is `none` there. -/

namespace Streambox.Adpcm
open Streambox.Lib

/-- `WAVE_BLOCK_SIZE`: the size of the wave buffer. The sample buffer has room for twice as many
    shorts. -/
def waveBlockSize : Nat := 2048
def pcmBufSize : Nat := 4096

/-- `nAudioDecoderType`; every other value is linear PCM. -/
inductive Codec where
  | pcmAlaw
  | pcmMulaw
  | adpcmImaWav
  | adpcmMs
  | pcm
  deriving DecidableEq, Repr

inductive SampleFmt where
  | u8
  | s16
  deriving DecidableEq, Repr

/-- The static variables. `beyond` is the memory behind the MS tables. -/
structure Decoder where
  waveTimestamplen : Nat
  waveTimestamp : Nat
  refillTimestampLen : Nat
  blockAlign : Nat
  ch : Nat
  bps : SampleFmt
  waveBuf : Bytes
  pcmBuf : List Int
  beyond : Nat → Int × Int

/-- `pcm_read_ctl_t`: the data that is left, and `UsedDataLen`. -/
structure Reader where
  data : Bytes
  used : Nat
  deriving DecidableEq, Repr

/-- `ValidDataLen`. -/
def Reader.valid (r : Reader) : Nat := r.data.length

/-- `pcm_read`: all of the bytes or none. -/
def Reader.read (r : Reader) (size : Nat) : Bytes × Reader :=
  if size ≤ r.valid then (r.data.take size, ⟨r.data.drop size, r.used + size⟩) else ([], r)

/-- `CHECK_DATA_ENOUGH_SET` with zero, on its way out. -/
def Reader.reset (r : Reader) : Reader := { r with used := 0 }

/-- Bytes written to the wave buffer at an offset, if they fit. -/
def Decoder.store (s : Decoder) (offset : Nat) (bytes : Bytes) : Option Decoder :=
  if offset + bytes.length ≤ waveBlockSize then
    some { s with waveBuf := s.waveBuf.take offset ++ bytes ++
                             s.waveBuf.drop (offset + bytes.length) }
  else none

/-! ### refill -/

def tagApts : Bytes := [0x41, 0x50, 0x54, 0x53]
def tagRiff : Bytes := [0x52, 0x49, 0x46, 0x46]

/-- Four bytes, high one first. -/
def bigEndian (bytes : Bytes) : Nat := bytes.foldl (fun n b => 256 * n + b.toNat) 0

/-- The search for "data" in a WAV header; `tmp` counts down and may pass zero. The result is the
    data behind the tag, or nothing if less than eight bytes are left. -/
def riffSearch : Int → Bytes → Option Bytes
  | tmp, [] => if tmp = 0 then some [] else none
  | tmp, byte :: rest =>
    if tmp = 0 then some (byte :: rest)
    else if (byte :: rest).length < 8 then none
    else if byte = 0x64 then
      match rest with
      | b :: c :: d :: rest =>
        if b = 0x61 ∧ c = 0x74 ∧ d = 0x61 then some rest else riffSearch (tmp - 4) rest
      | _ => none
    else riffSearch (tmp - 1) rest

/-- How `refill` ends: with the count that it returns, or with -1. -/
inductive Refill where
  | filled (count : Nat)
  | missing
  deriving DecidableEq, Repr

/-- The end of `refill`: the block goes to the wave buffer at an offset. The size is an int to
    `pcm_read`: a length with the top bit set is negative, and is copied whatever there is. -/
def refillCopy (s : Decoder) (r : Reader) (offset len lenBak : Nat) :
    Option (Decoder × Reader × Refill) :=
  if s.waveTimestamplen ≠ 0 then
    if s.refillTimestampLen < 2147483648 then
      (s.store offset (r.read s.refillTimestampLen).1).map fun s =>
        (s, (r.read s.refillTimestampLen).2, .filled s.refillTimestampLen)
    else none
  else
    (s.store offset (r.read len).1).map fun s => (s, (r.read len).2, .filled lenBak)

/-- The four bytes were no tag: they belong to the block. -/
def refillRaw (s : Decoder) (r : Reader) (tag : Bytes) (len : Nat) (mark : Decoder → Decoder) :
    Option (Decoder × Reader × Refill) :=
  match s.store 0 tag with
  | none => none
  | some s =>
    if r.valid < len - 4 then some (s, r.reset, .missing)
    else refillCopy (mark s) r 4 (len - 4) len

/-- No timestamp: `wave_timestamplen = 0; wave_timestamp = 0xffffffff`. -/
def Decoder.unmarked (s : Decoder) : Decoder :=
  { s with waveTimestamplen := 0, waveTimestamp := 0xffffffff }

/-- An "APTS" header. -/
def refillApts (s : Decoder) (r : Reader) (len : Nat) : Option (Decoder × Reader × Refill) :=
  if r.valid < 8 then some (s, r.reset, .missing) else
  let (timestamp, r) := r.read 4
  let (blockLength, r) := r.read 4
  let s := { s with
    waveTimestamp := bigEndian timestamp
    waveTimestamplen := bigEndian blockLength
    refillTimestampLen := bigEndian blockLength }
  if r.valid < s.refillTimestampLen then some (s, r.reset, .missing)
  else refillCopy s r 0 len len

/-- A WAV header, for the two block codecs. -/
def refillRiff (s : Decoder) (r : Reader) (len : Nat) : Option (Decoder × Reader × Refill) :=
  match riffSearch len r.data with
  | none => some (s, r.reset, .missing)
  | some data =>
    let r := (Reader.read ⟨data, r.used + (r.data.length - data.length)⟩ 4).2
    if r.valid < len then some (s.unmarked, r, .missing)
    else refillCopy s.unmarked r 0 len len

def refill (codec : Codec) (s : Decoder) (r : Reader) (len : Nat) :
    Option (Decoder × Reader × Refill) :=
  if s.waveTimestamplen ≠ 0 then refillCopy s r 0 len len
  else if r.valid < 4 then some (s, r.reset, .missing)
  else
    let (tag, r) := r.read 4
    if tag = tagApts then refillApts s r len
    else if tag = tagRiff then
      if codec = .adpcmImaWav ∨ codec = .adpcmMs then refillRiff s r len
      -- here the variables are set before the check
      else refillRaw s.unmarked r tag len id
    else refillRaw s r tag len Decoder.unmarked

/-! ### The drivers -/

/-- A call of `audio_dec_decode`: the state after it, `*outlen`, the bytes used, and the samples
    that were copied to `outbuf`. -/
structure Call where
  decoder : Decoder
  outlen : Int
  used : Nat
  out : List Int

/-- `runalawdecoder` and `runulawdecoder`. -/
def runCompanded (expand : UInt8 → Int) (codec : Codec) (s : Decoder) (r : Reader) :
    Option Call :=
  match refill codec s r waveBlockSize with
  | none => none
  | some (s, r, .missing) => some ⟨s, -1, r.used, []⟩
  | some (s, r, .filled tmp) =>
    if tmp ≤ waveBlockSize then
      let pcmBuf := overwrite s.pcmBuf ((s.waveBuf.take tmp).map expand)
      some ⟨{ s with pcmBuf }, 2 * waveBlockSize, r.used, pcmBuf.take waveBlockSize⟩
    else none

def runalawdecoder : Decoder → Reader → Option Call := runCompanded alaw2linear .pcmAlaw

def runulawdecoder : Decoder → Reader → Option Call := runCompanded ulaw2linear .pcmMulaw

/-- The search for the sync word, from the first byte of the window: what is behind it. -/
def syncSearch : Bytes → Option Bytes
  | [] => none
  | byte :: rest =>
    if (byte :: rest).take 4 = [0x11, 0x22, 0x33, 0x44] then some (rest.drop 3)
    else if rest.length < 4 then none
    else syncSearch rest

/-- The start of both block drivers: the block size, or the bytes used by a call that lacks data. -/
def blockHeader (s : Decoder) (r : Reader) : Except Nat (Nat × Reader) :=
  if s.blockAlign = 0 then
    if r.valid < 4 then .error 0 else
    match syncSearch r.data with
    | none => .error (r.used + r.valid - 3)
    | some data =>
      let used := r.used + (r.valid - data.length)
      if data.length < 2 then .error (used - 4) else
      let blockSize := byteAt data 0 * 256 + byteAt data 1
      if data.length - 2 < blockSize then .error (used + 2 - 6)
      else .ok (blockSize, ⟨data.drop 2, used + 2⟩)
  else if r.valid < s.blockAlign then .error 0
  else .ok (s.blockAlign, r)

/-- The block decoder of the IMA driver stays in its buffers. -/
def imaInBounds (s : Decoder) (samples : Int) : Bool :=
  !imaSizeOk s.ch samples || (imaSyncError s.ch s.waveBuf).isSome ||
    (4 * s.ch + 4 * s.ch * imaPassCount s.ch samples ≤ waveBlockSize &&
      s.ch + 8 * s.ch * imaPassCount s.ch samples ≤ pcmBufSize)

/-- The end of the IMA driver: the block in the wave buffer is expanded and copied out. -/
def imaBlock (s : Decoder) (used : Nat) : Option Call :=
  let samples : Int := ((s.blockAlign : Int) - 4 * s.ch) * 2 + s.ch
  if (s.ch = 1 ∨ s.ch = 2) ∧ imaInBounds s samples ∧ 0 ≤ samples ∧ samples ≤ pcmBufSize then
    let pcmBuf := adpcmdecDecodeImaBlock s.ch samples s.waveBuf s.pcmBuf
    some ⟨{ s with pcmBuf }, samples * 2, used, pcmBuf.take samples.toNat⟩
  else none

def runimaadpcmdecoder (s : Decoder) (r : Reader) : Option Call :=
  match blockHeader s r with
  | .error used => some ⟨s, -1, used, []⟩
  | .ok (blockSize, r) =>
    if blockSize < 4 then some ⟨s, 0, r.used, []⟩ else
    match refill .adpcmImaWav s r blockSize with
    | none => none
    -- `UsedDataLen` is set back to where the block began
    | some (s, _, .missing) => some ⟨s, -1, r.used, []⟩
    | some (s, r, .filled _) => imaBlock s r.used

/-- The end of the MS driver. -/
def msBlock (s : Decoder) (blockSize used : Nat) : Option Call :=
  if (s.ch = 1 ∨ s.ch = 2) ∧ blockSize ≤ waveBlockSize then
    let samples := msAdpcmDecodeBlock s.beyond s.ch s.waveBuf blockSize
    let pcmBuf := overwrite s.pcmBuf samples
    let outputSize := samples.length - samples.length % s.ch
    some ⟨{ s with pcmBuf }, outputSize * 2, used, pcmBuf.take outputSize⟩
  else none

/-- `tmp` is unsigned here, so the test for a negative value never holds. -/
def runmsadpcmdecoder (s : Decoder) (r : Reader) : Option Call :=
  match blockHeader s r with
  | .error used => some ⟨s, -1, used, []⟩
  | .ok (blockSize, r) =>
    if blockSize < 4 then some ⟨s, 0, r.used, []⟩ else
    match refill .adpcmMs s r blockSize with
    | none => none
    | some (s, r, _) => msBlock s blockSize r.used

/-- `runpcmdecoder`: nothing is copied out. -/
def runpcmdecoder (s : Decoder) (r : Reader) : Option Call :=
  match refill .pcm s r waveBlockSize with
  | none => none
  | some (s, r, .missing) => some ⟨s, -1, r.used, []⟩
  | some (s, r, .filled tmp) =>
    match s.bps with
    | .u8 =>
      -- four samples in each pass
      let count := (tmp + 3) / 4 * 4
      if count ≤ waveBlockSize then
        let pcmBuf := overwrite s.pcmBuf
          ((s.waveBuf.take count).map fun b => toShort ((b.toNat - 0x80 : Int) * 256))
        some ⟨{ s with pcmBuf }, 2 * waveBlockSize, r.used, []⟩
      else none
    | .s16 => some ⟨s, waveBlockSize / 2 * 2, r.used, []⟩

/-- `adpcm_decode_frame`. -/
def adpcmDecodeFrame (codec : Codec) (s : Decoder) (r : Reader) : Option Call :=
  match codec with
  | .pcmAlaw => runalawdecoder s r
  | .pcmMulaw => runulawdecoder s r
  | .adpcmImaWav => runimaadpcmdecoder s r
  | .adpcmMs => runmsadpcmdecoder s r
  | .pcm => runpcmdecoder s r

def audioDecDecode (codec : Codec) (s : Decoder) (inbuf : Bytes) : Option Call :=
  adpcmDecodeFrame codec s ⟨inbuf, 0⟩

/-- `audio_dec_init`, with what malloc returns; `refill_timestamp_len` and `wave_timestamp` stay. -/
def audioDecInit (s : Decoder) (channels blockSize : Nat) (wave : Bytes) (pcm : List Int) :
    Decoder :=
  { s with
    waveBuf := wave
    pcmBuf := pcm
    bps := .s16
    ch := channels
    blockAlign := blockSize
    waveTimestamplen := 0 }

/-! ### Runs -/

/-- What can happen to the static variables: another `audio_dec_init`, or a call. -/
inductive Event where
  | init (channels blockSize : Nat) (wave : Bytes) (pcm : List Int)
  | decode (codec : Codec) (inbuf : Bytes)

/-- The buffers are as large as malloc was asked to make them. -/
structure Sized (s : Decoder) : Prop where
  wave : s.waveBuf.length = waveBlockSize
  pcm : s.pcmBuf.length = pcmBufSize
  bps : s.bps = .s16

def step (s : Decoder) : Event → Option Decoder
  | .init channels blockSize wave pcm =>
    if wave.length = waveBlockSize ∧ pcm.length = pcmBufSize then
      some (audioDecInit s channels blockSize wave pcm)
    else none
  | .decode codec inbuf => (audioDecDecode codec s inbuf).map Call.decoder

/-- The static variables when the library is loaded. -/
def loaded (beyond : Nat → Int × Int) : Decoder where
  waveTimestamplen := 0
  waveTimestamp := 0
  refillTimestampLen := 0
  blockAlign := 0
  ch := 0
  bps := .u8
  waveBuf := []
  pcmBuf := []
  beyond := beyond

/-- A state that a first `audio_dec_init` and any further events lead to. -/
def Reachable (s : Decoder) : Prop :=
  ∃ beyond channels blockSize wave pcm events,
    run step (loaded beyond) (.init channels blockSize wave pcm :: events) = some s

end Streambox.Adpcm
