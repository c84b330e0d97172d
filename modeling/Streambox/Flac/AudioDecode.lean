import Streambox.Flac.Frame
import Streambox.Flac.Metadata

/-! audio_dec_decode: what is at the beginning of a buffer.

    Without enough bytes for the largest frame it looks for the header of another frame, and of one
    more. It is at the same place for both, and has cut the buffer off there, so it never comes to
    the second. With enough of them, metadata blocks are gone over, and a frame is decoded; what is
    neither is gone over up to the next sync code. Where a frame is none after all it goes on one
    byte later.

        inbuf     … 0x12 0x34 │ 0xFF 0xF8 … │ 0xFF 0xF8 …
                              buf -->

    The samples come out in 16 bits, left and right in turn. -/

namespace Streambox.Flac
open Streambox.Lib.BitField

/-- AV_RB16. -/
def be16 (mem : Mem) (k : Nat) : Nat := (mem k).toNat * 256 + (mem (k + 1)).toNat

def flacMinFrameSize : Nat := 11

/-- The loop before a buffer with few bytes. -/
def searchNext (inbuf : Mem) (para : UInt8) (inbufindex inlen frameNum : Nat) : Option Nat :=
  if inbufindex + flacMinFrameSize < inlen + 2 then
    if be16 inbuf inbufindex ≠ 0xFFF8 ∨ inbuf (inbufindex + 2) ≠ para then
      searchNext inbuf para (inbufindex + 1) inlen frameNum
    else if 0 < frameNum then some inbufindex
    else searchNext inbuf para inbufindex inbufindex (frameNum + 1)
  else none
termination_by inlen + 2 - (inbufindex + flacMinFrameSize)
decreasing_by
  · omega
  · unfold flacMinFrameSize at *
    omega

/-! ### Samples -/

def int16 (x : Int) : Int := x.bmod (2 ^ 16)

/-- A sample, in the 16 bits of the output. -/
def toWord (s : FLACContext) (x : Int) : Int :=
  int16 (if 0 ≤ s.sampleShift then x * 2 ^ s.sampleShift.toNat
    else x >>> (-1 * s.sampleShift).toNat)

/-- DECORRELATE. -/
def decorrelate (chMode : Nat) (a b : Int) : Int × Int :=
  if chMode = flacChmodeLeftSide then (a, int32 (a - b))
  else if chMode = flacChmodeRightSide then (int32 (a + b), b)
  else
    let a := int32 (a - b >>> (1 : Nat))
    (int32 (a + b), a)

def outputIndependent (s : FLACContext) : Nat → Nat → Option (List Int)
  | 0, _ => some []
  | n + 1, j => do
    let xs ← (List.range s.channels).mapM fun i => (s.decoded i)[j]?
    let rest ← outputIndependent s n (j + 1)
    some (xs.map (toWord s) ++ rest)

def outputPairs (s : FLACContext) : Nat → Nat → Option (List Int)
  | 0, _ => some []
  | n + 1, j => do
    let a ← (s.decoded 0)[j]?
    let b ← (s.decoded 1)[j]?
    let rest ← outputPairs s n (j + 1)
    some (toWord s (decorrelate s.chMode a b).1 :: toWord s (decorrelate s.chMode a b).2 :: rest)

/-- More than two channels are mixed in floating point. -/
def output (s : FLACContext) : Option (List Int) :=
  if s.chMode = flacChmodeIndependent then
    if s.channels ≤ 2 then outputIndependent s s.blocksize.toNat 0 else none
  else outputPairs s s.blocksize.toNat 0

/-! ### audio_dec_decode -/

structure DecodeResult where
  ret : Int
  outlen : Option Int
  out : List Int
  s : FLACContext

def isSync (buf : Mem) (k : Nat) : Bool := be16 buf k &&& 0xFFFE = 0xFFF8

/-- `while (buf + 2 < buf_end && …) buf++;`, with `n` bytes up to `buf_end`. -/
def skipToSync (buf : Mem) : Nat → Nat → Nat
  | 0, k => k
  | n + 1, k => if 2 < n + 1 ∧ !isSync buf k then skipToSync buf n (k + 1) else k

/-- FIND_SYNC_WORD: bytes that are gone over, or a frame. Where a frame is none the search goes on
    behind its first byte; with no byte left `buf_size` would wrap. -/
def findSync (fuel : Nat) (buf : Mem) (bufSize : Nat) (s : FLACContext) (lastSyncPos : Nat) :
    Option (FLACContext × Nat × Bool) :=
  if isSync buf lastSyncPos then
    match decodeFrame fuel s (behind buf lastSyncPos) 0 with
    | .ok (s', index) => some (s', (index + 7) / 8, true)
    | .error .fault => none
    | .error (.error s') =>
      match bufSize with
      | 0 => none
      | n + 1 => findSync fuel buf n { s' with errorNum := s'.errorNum + 1 } (lastSyncPos + 1)
  else some (s, skipToSync buf bufSize lastSyncPos - lastSyncPos, false)

def maxFramesize (s : FLACContext) : Nat := max (17 * s.maxFramesize / 16 + 32) s.maxFramesize

def outputSize (s : FLACContext) : Int :=
  s.blocksize * (if 2 < s.channels then 2 else s.channels : Nat) * 2

def defaultOutBufSize : Int := 1024 * 1024

/-- The label `end`. -/
def finish (s : FLACContext) (inlen bytesRead : Nat) (outlen : Int) (out : List Int) :
    DecodeResult :=
  if inlen < bytesRead then { ret := -1, outlen := none, out, s }
  else { ret := bytesRead, outlen := some outlen, out, s }

/-- The label `decodecontinue`. -/
def decodeContinue (fuel : Nat) (s : FLACContext) (inbuf : Mem) (inlen : Nat) :
    Option DecodeResult :=
  if be32 inbuf 0 = flacTag then
    match if s.gotStreaminfo then some s else inlineStreaminfo s inbuf inlen with
    | none => some { ret := -1, outlen := none, out := [], s }
    | some s => some (finish s inlen (getMetadataSize inbuf inlen) 0 [])
  else
    match findSync fuel inbuf inlen s 0 with
    | none => none
    | some (s, bytesRead, false) => some (finish s inlen bytesRead 0 [])
    | some (s, bytesRead, true) =>
      if defaultOutBufSize < outputSize s then some (finish s inlen bytesRead (outputSize s) [])
      else (output s).map fun out => finish s inlen bytesRead (outputSize s) out

def audioDecDecode (fuel : Nat) (s : FLACContext) (inbuf : Mem) (inlen : Nat) :
    Option DecodeResult :=
  if inlen < maxFramesize s then
    match searchNext inbuf (inbuf 2) 11 inlen 0 with
    | none => some { ret := -1, outlen := none, out := [], s }
    | some inlen => decodeContinue fuel s inbuf inlen
  else decodeContinue fuel s inbuf inlen

/-! ### Few bytes -/

/-- The search is at an end with the first header it finds. -/
theorem searchNext_eq_none (inbuf : Mem) (para : UInt8) (inbufindex inlen : Nat) :
    searchNext inbuf para inbufindex inlen 0 = none := by
  have hstuck (k : Nat) : searchNext inbuf para k k 1 = none := by
    rw [searchNext, if_neg (by unfold flacMinFrameSize; omega)]
  induction hn : inlen - inbufindex generalizing inbufindex with
  | zero => rw [searchNext, if_neg (by unfold flacMinFrameSize; omega)]
  | succ n ih =>
    rw [searchNext]
    split
    · split
      · exact ih (inbufindex + 1) (by omega)
      · exact hstuck inbufindex
    · rfl

/-- Without the bytes of a largest frame nothing is decoded, whatever they are. -/
theorem few_bytes_refused (fuel : Nat) (s : FLACContext) (inbuf : Mem) (inlen : Nat)
    (hfew : inlen < maxFramesize s) :
    audioDecDecode fuel s inbuf inlen = some { ret := -1, outlen := none, out := [], s } := by
  rw [audioDecDecode, if_pos hfew, searchNext_eq_none]

theorem few_bytes_refused_ten :
    audioDecDecode 16 .zero (fun _ => 0xFF) 10 =
      some { ret := -1, outlen := none, out := [], s := .zero } :=
  few_bytes_refused 16 .zero (fun _ => 0xFF) 10 (by decide)

end Streambox.Flac
