import Mathlib.Data.List.Find

/-! libfaad, libaacdec.c: the wrapper around the AAC decoder.

    A call gets some bytes of a stream and hands them to the library. Before that it looks for a
    sync word, of the ADTS or of the LATM format, and takes what is in front of it off the length.
    The pointer stays where it is.

        input    g g g │ FF F1 ..                  offset 3
        meant            └─────────── the library gets this
        done     └─────────── and gets this: as many bytes, from the front

    The library itself is a parameter: how it opens a decoder on some bytes and what it makes of
    others. -/

namespace Streambox.Aac

abbrev Bytes := List UInt8

/-! ### Sync words -/

/-- `for (i = 0; i < limit; i++) if (..) break; return i;` with the turns that are left. -/
def seek (found : Nat → Bool) : Nat → Nat → Nat
  | 0, i => i
  | turns + 1, i => if found i then i else seek found turns (i + 1)

def adtsAt (buf : Bytes) (i : Nat) : Bool :=
  buf.getD i 0 == 0xff && (buf.getD (i + 1) 0 &&& 0xf6) == 0xf0

/-- `i_frame_size`. -/
def latmFrameSize (buf : Bytes) (i : Nat) : Nat :=
  (buf.getD (i + 1) 0 &&& 0x1f).toNat * 256 + (buf.getD (i + 2) 0).toNat

def latmAt (buf : Bytes) (i : Nat) : Bool :=
  buf.getD i 0 == 0x56 && (buf.getD (i + 1) 0 &&& 0xe0) == 0xe0 &&
    decide (0 < latmFrameSize buf i ∧ latmFrameSize buf i < 4608)

def aacFindADTSSyncWord (buf : Bytes) (nBytes : Int) : Nat := seek (adtsAt buf) (nBytes - 1).toNat 0

def aacFindLATMSyncWord (buf : Bytes) (nBytes : Int) : Nat := seek (latmAt buf) (nBytes - 2).toNat 0

/-! ### The library -/

/-- `NeAACDecFrameInfo`, as far as the wrapper reads it. -/
structure FrameInfo where
  bytesconsumed : Nat
  samples : Nat
  channels : Nat
  error : Nat
  samplerate : Nat

/-- What `NeAACDecInit` returns when it succeeds. -/
structure Opened (σ : Type) where
  decoder : σ
  ret : Nat
  skipbytes : Nat
  samplerate : Nat
  channels : Nat

/-- The library: the flags of a decoder, `NeAACDecInit` on some bytes (or how many of them to skip),
    and `NeAACDecDecode` with its sample buffer. -/
structure Library (σ : Type) where
  adtsHeaderPresent : σ → Bool
  latmHeaderPresent : σ → Bool
  sbrPresentFlag : σ → Bool
  init : Bytes → Bool → Except Nat (Opened σ)
  decode : σ → Bytes → σ × FrameInfo × Option (List Int)

/-- `nAudioDecoderType`. -/
inductive DecoderType where
  | aac
  | aacLatm
  | other
  deriving DecidableEq, Repr

/-- `FaadContext`, with the type of the decoder. -/
structure Context (σ : Type) where
  hDecoder : Option σ
  initFlag : Bool
  initStartFlag : Bool
  gSampleRate : Nat
  gChannels : Nat
  decodedNbFrames : Nat
  errorCount : Nat
  errorNum : Nat
  frameLengthHis : List Nat
  mutedSamples : Nat
  mutedCount : Nat
  initCost : Int
  filterHeaac : Bool
  isDetectFormatDisable : Bool
  successCount : Nat
  nAudioDecoderType : DecoderType

variable {σ : Type} (lib : Library σ)

/-! ### audio_decoder_init -/

/-- `latmheader_detected`. -/
def latmheaderDetected (inBuf : Bytes) : Bool :=
  decide ((aacFindLATMSyncWord inBuf inBuf.length : Int) ≠ inBuf.length - 1)

/-- `adtsheader_detected`. -/
def adtsheaderDetected (inBuf : Bytes) : Bool :=
  decide ((aacFindADTSSyncWord inBuf inBuf.length : Int) ≠ inBuf.length - 1)

/-- What the wrapper makes of the formats that it has detected. -/
def Context.detect (ctx : Context σ) (inBuf : Bytes) : Context σ :=
  let latmOnly := latmheaderDetected inBuf && !adtsheaderDetected inBuf
  match ctx.nAudioDecoderType with
  | .aacLatm => { ctx with isDetectFormatDisable := latmOnly }
  | .aac =>
    if latmOnly then { ctx with isDetectFormatDisable := true, nAudioDecoderType := .aacLatm }
    else ctx
  | .other => ctx

/-- The loop at `retry`: the offset of `in_buf` and `inbuf_size`, for at most `fuel` tries. The
    result is the context, `inbuf_size` at the end, and whether a decoder is open; a negative size
    is none. -/
def retry (inbuf : Bytes) : Nat → Context σ → Nat → Int → Option (Context σ × Int × Bool)
  | 0, _, _, _ => none
  | fuel + 1, ctx, offset, size =>
    let islatm := ctx.isDetectFormatDisable && ctx.nAudioDecoderType == .aacLatm
    let size := if islatm then size - aacFindLATMSyncWord (inbuf.drop offset) size else size
    if size < 0 then none
    else
      match lib.init ((inbuf.drop offset).take size.toNat) islatm with
      | .error skipbytes =>
        let size := max (size - skipbytes) 0
        let ctx := { ctx with hDecoder := none, errorNum := 0 }
        if skipbytes = 0 then some (ctx, size, false)
        else retry inbuf fuel ctx (offset + skipbytes) size
      | .ok o =>
        let ctx := { ctx with hDecoder := some o.decoder, errorNum := 0 }
        let opened := { ctx with
          initFlag := true, gChannels := o.channels, gSampleRate := o.samplerate }
        if lib.adtsHeaderPresent o.decoder ∧ ctx.nAudioDecoderType = .aacLatm then
          if ctx.successCount + 1 < 2 then
            retry inbuf fuel { ctx with successCount := ctx.successCount + 1 }
              (offset + o.skipbytes) (size - o.skipbytes)
          else
            some ({ opened with successCount := ctx.successCount + 1 },
              size - o.skipbytes - o.ret, true)
        else some (opened, size - o.ret, true)

/-- `audio_decoder_init`, with `*inbuf_consumed`. -/
def audioDecoderInit (fuel : Nat) (ctx : Context σ) (inbuf : Bytes) :
    Option (Context σ × Int × Bool) :=
  (retry lib inbuf fuel (ctx.detect inbuf) 0 inbuf.length).map fun r =>
    (r.1, inbuf.length - r.2.1, r.2.2)

/-! ### audio_dec_decode -/

/-- `store_frame_size`. -/
def Context.storeFrameSize (ctx : Context σ) (lastFrameLen : Nat) : Context σ :=
  { ctx with frameLengthHis := ctx.frameLengthHis.drop 1 ++ [lastFrameLen] }

/-- A call: what the library got, the context after it, the samples that were copied out, and what
    it returns. -/
structure Call (σ : Type) where
  given : Option Bytes
  ctx : Context σ
  out : List Int
  returned : Int

/-- The sample buffer, unless the number of channels makes no sense. -/
def sampleBuffer (result : σ × FrameInfo × Option (List Int)) : Option (List Int) :=
  if result.2.1.channels > 8 then none else result.2.2

/-- A frame was decoded: it is counted, muted at first (0.2 s of samples), and copied out if there
    is room for it. -/
def Context.frameDone (ctx : Context σ) (info : FrameInfo) (samples : List Int) (outmaxlen : Nat) :
    Context σ × List Int :=
  let ctx := { ctx.storeFrameSize info.bytesconsumed with
    decodedNbFrames := ctx.decodedNbFrames + 1
    gSampleRate := info.samplerate
    gChannels := info.channels
    mutedSamples := if ctx.mutedSamples = 0 then info.samplerate * info.channels / 5
      else ctx.mutedSamples }
  let muted := ctx.mutedCount < ctx.mutedSamples
  let ctx := if muted then { ctx with mutedCount := ctx.mutedCount + info.samples } else ctx
  let samples := if muted then samples.map fun _ => 0 else samples
  if 2 * info.samples ≤ outmaxlen then ({ ctx with errorCount := 0 }, samples) else (ctx, [])

/-- An error: the bytes to skip, and the context, which is closed after too many of them. -/
def Context.frameError (ctx : Context σ) (error : Nat) : Context σ × Nat :=
  let skip := if error = 34 ∧ ctx.errorCount > 5 then 1 else 0
  let ctx := { ctx with errorCount := ctx.errorCount + 1, errorNum := ctx.errorNum + 1 }
  if ctx.errorCount ≥ 40 ∨ error = 34 then
    ({ ctx with hDecoder := none, initFlag := false, initStartFlag := false }, skip)
  else (ctx, skip)

/-- The exit of `audio_dec_decode`, with `dec_bufsize`. -/
def finish (ctx : Context σ) (given : Option Bytes) (out : List Int) (inlen : Nat)
    (decBufsize : Int) : Call σ :=
  let decBufsize := max decBufsize 0
  let ctx := if ctx.initFlag then ctx
    else { ctx with initCost := ctx.initCost + (inlen - decBufsize) }
  let silent := ctx.hDecoder.any lib.sbrPresentFlag && ctx.filterHeaac
  ⟨given, ctx, if silent then out.map fun _ => 0 else out, inlen - decBufsize⟩

/-- What is left of the length in front of the library. -/
def seekBufsize (h : σ) (decBuf : Bytes) (decBufsize : Int) : Int :=
  let size := if lib.adtsHeaderPresent h then
    decBufsize - aacFindADTSSyncWord decBuf decBufsize else decBufsize
  if lib.latmHeaderPresent h then size - aacFindLATMSyncWord decBuf size else size

/-- `audio_dec_decode` from the search for a sync word on, for the bytes at `dec_buf`. -/
def decodeFrame (ctx : Context σ) (h : σ) (outmaxlen inlen : Nat) (decBuf : Bytes)
    (decBufsize : Int) : Call σ :=
  let given := decBuf.take (seekBufsize lib h decBuf decBufsize).toNat
  let result := lib.decode h given
  let info := result.2.1
  let size := seekBufsize lib h decBuf decBufsize - info.bytesconsumed
  let ctx := { ctx with hDecoder := some result.1 }
  if info.error = 0 then
    match sampleBuffer result with
    | none => finish lib ctx given [] inlen
        (if lib.latmHeaderPresent result.1 then size - 3 else size)
    | some samples =>
      if info.samples > 0 then
        let done := ctx.frameDone info samples outmaxlen
        finish lib done.1 given done.2 inlen size
      else finish lib ctx given [] inlen size
  else
    let failed := ctx.frameError info.error
    finish lib failed.1 given [] inlen (size - failed.2)

/-- `audio_dec_decode`: a call with output and input. -/
def audioDecDecode (fuel : Nat) (ctx : Context σ) (outmaxlen : Nat) (inbuf : Bytes) :
    Option (Call σ) :=
  if inbuf = [] then some (finish lib ctx none [] inbuf.length inbuf.length)
  else
    let ctx := { ctx with initStartFlag := true }
    if ctx.initFlag then
      ctx.hDecoder.map fun h => decodeFrame lib ctx h outmaxlen inbuf.length inbuf inbuf.length
    else
      (audioDecoderInit lib fuel { ctx with errorCount := 0, decodedNbFrames := 0 } inbuf).bind
        fun r =>
          if r.2.2 then
            r.1.hDecoder.map fun h =>
              decodeFrame lib { r.1 with initFlag := true, initCost := 0 } h outmaxlen inbuf.length
                (inbuf.drop r.2.1.toNat) (max (inbuf.length - r.2.1) 0)
          else some (finish lib r.1 none [] inbuf.length (inbuf.length - r.2.1))

end Streambox.Aac
