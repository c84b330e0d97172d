import Streambox.Flac.FrameHeader

/-! A frame: a header, a subframe for each channel, bits up to the next byte, and two bytes with a CRC
    that the decoder does not look at.

        header │ subframe 0 │ subframe 1 │ … │ 0 … 0 │ CRC-16
        ├──────────────── whole bytes ───────────────┤

    Each subframe fills the array of its channel up to the block size. What stood behind it there
    stays, and so does everything of the other channels. -/

namespace Streambox.Flac
open Streambox.Lib.BitField

/-- `for (i = 0; i < s->channels; i++)` -/
def decodeSubframes (fuel : Nat) : Nat → Nat → FLACContext → Decode FLACContext
  | 0, _, s => pure s
  | n + 1, i, s => do
    let s ← decodeSubframe fuel s i
    decodeSubframes fuel n (i + 1) s

/-- What is checked and set between the header and the subframes. -/
def startFrame (s : FLACContext) (fi : FLACFrameInfo) : Decode FLACContext := do
  failIf (fi.channels ≠ s.channels) s
  let s := { s with chMode := fi.chMode }
  failIf (fi.bps ≠ 0 ∧ fi.bps ≠ s.bps) s
  let s := { s with sampleShift := 16 - s.bps }
  failIf (s.maxBlocksize < fi.blocksize) s
  pure { s with
    blocksize := fi.blocksize
    samplerate := if fi.samplerate = 0 then s.samplerate else fi.samplerate }

def decodeFrame (fuel : Nat) (s : FLACContext) : Decode FLACContext := do
  let fi ← decodeFrameHeader s
  let s ← startFrame s fi
  let s ← decodeSubframes fuel s.channels 0 s
  alignGetBits
  skipBits 16
  pure s

/-! ### Coded frames -/

/-- The width of a channel; the difference of two needs a bit more. -/
def channelBps (chMode bps i : Nat) : Nat :=
  if i = 0 then if chMode = flacChmodeRightSide then bps + 1 else bps
  else if chMode = flacChmodeLeftSide ∨ chMode = flacChmodeMidSide then bps + 1 else bps

structure Frame where
  header : FrameHeader
  subframes : List Subframe
  /-- What is in the bits up to the next byte, and in the two bytes behind them. -/
  pad : List Bool
  footer : List Bool
  deriving DecidableEq, Repr

/-- The subframes of the channels from `i` on. -/
def subframesBits (chMode bps : Nat) : Nat → List Subframe → List Bool
  | _, [] => []
  | i, sub :: subs => sub.bits (channelBps chMode bps i) ++ subframesBits chMode bps (i + 1) subs

/-- The context when the subframe of a channel has been read. -/
def FLACContext.filled (s : FLACContext) (i : Nat) (sub : Subframe) : FLACContext :=
  { s with currBps := (channelBps s.chMode s.bps i : Int) - sub.wasted }.put i
    (sub.samples ++ (s.decoded i).drop sub.samples.length)

def FLACContext.filledAll (s : FLACContext) : Nat → List Subframe → FLACContext
  | _, [] => s
  | i, sub :: subs => (s.filled i sub).filledAll (i + 1) subs

def Frame.chMode (f : Frame) : Nat := f.header.info.chMode

def Frame.body (bps : Nat) (f : Frame) : List Bool :=
  f.header.bits ++ subframesBits f.chMode bps 0 f.subframes

def Frame.bits (bps : Nat) (f : Frame) : List Bool := f.body bps ++ (f.pad ++ f.footer)

/-- The context when the header has been read. -/
def FLACContext.start (s : FLACContext) (f : Frame) : FLACContext :=
  { s with
    chMode := f.chMode
    sampleShift := 16 - s.bps
    blocksize := f.header.blocksize
    samplerate := if f.header.samplerate = 0 then s.samplerate else f.header.samplerate }

def FLACContext.after (s : FLACContext) (f : Frame) : FLACContext :=
  (s.start f).filledAll 0 f.subframes

/-- A frame of the stream that the context is for. -/
structure Frame.WellFormed (fuel : Nat) (s : FLACContext) (f : Frame) : Prop where
  header : f.header.WellFormed
  channels : f.header.channels = s.channels
  bps : f.header.bps = 0 ∨ f.header.bps = s.bps
  blocksize : f.header.blocksize ≤ s.maxBlocksize
  count : f.subframes.length = f.header.channels
  samples : ∀ sub ∈ f.subframes, sub.samples.length = f.header.blocksize
  fits : ∀ (i : Nat) (sub : Subframe), f.subframes[i]? = some sub →
    sub.WellFormed fuel s.bps (channelBps f.chMode s.bps i)
  pad : f.pad.length = (8 - (f.body s.bps).length % 8) % 8
  footer : f.footer.length = 16

/-- The arrays are there. -/
def FLACContext.Ready (s : FLACContext) : Prop :=
  ∀ i < s.channels, (s.decoded i).length = s.maxBlocksize

theorem subframeBps_eq (s : FLACContext) (i : Nat) :
    subframeBps s i = channelBps s.chMode s.bps i := by
  rw [subframeBps, channelBps]
  split_ifs <;> simp

section
variable {fuel : Nat}

theorem reads_decodeSubframes {s : FLACContext} (subs : List Subframe) {i : Nat}
    (hfits : ∀ (k : Nat) (sub : Subframe), subs[k]? = some sub →
      sub.WellFormed fuel s.bps (channelBps s.chMode s.bps (i + k)))
    (hsamples : ∀ sub ∈ subs, s.blocksize = sub.samples.length)
    (hroom : ∀ k < subs.length, s.blocksize ≤ (s.decoded (i + k)).length) :
    Reads (decodeSubframes fuel subs.length i s) (subframesBits s.chMode s.bps i subs)
      (s.filledAll i subs) := by
  induction subs generalizing s i with
  | nil => exact reads_pure _
  | cons sub subs ih =>
    have hblock := hsamples sub List.mem_cons_self
    have hfirst := hroom 0 (by simp)
    rw [Nat.add_zero] at hfirst
    have hother (k : Nat) : (s.filled i sub).decoded (i + 1 + k) = s.decoded (i + 1 + k) :=
      Function.update_of_ne (by omega) ..
    have hrest := ih (s := s.filled i sub) (i := i + 1)
      (fun k sub' hsub' => by
        have h := hfits (k + 1) sub' (by simpa using hsub')
        rwa [show i + (k + 1) = i + 1 + k by omega] at h)
      (fun sub' hsub' => hsamples sub' (List.mem_cons_of_mem _ hsub'))
      (fun k hk => by
        have h := hroom (k + 1) (by simpa using hk)
        rw [hother, show i + 1 + k = i + (k + 1) by omega]
        exact h)
    exact (reads_decodeSubframe (subframeBps_eq s i) (hfits 0 sub rfl) hblock (by omega)).bind hrest

theorem reads_startFrame {s : FLACContext} {f : Frame} (hwf : f.WellFormed fuel s) :
    Reads (startFrame s f.header.info) [] (s.start f) := by
  have hblock : f.header.info.blocksize = (f.header.blocksize : Int) := rfl
  have hmax := hwf.blocksize
  have hbps : f.header.info.bps = 0 ∨ f.header.info.bps = s.bps := hwf.bps
  refine (reads_failIf (not_not.mpr hwf.channels) s).then ?_
  refine (reads_failIf (by simp only; omega) _).then ?_
  refine (reads_failIf (by simp only; omega) _).then ?_
  exact reads_pure _

/-- At the end of its bits the reader goes on to the next byte. -/
theorem alignGetBits_eq {mem : Mem} {i n : Nat} (hn : n = (8 - i % 8) % 8) :
    (alignGetBits : Decode Unit) mem i = .ok ((), i + n) := by
  rw [alignGetBits, hn]

/-- A frame at the beginning of the buffer, whatever is behind it. -/
theorem decodeFrame_eq {s : FLACContext} {f : Frame} (hwf : f.WellFormed fuel s) (hready : s.Ready)
    {mem : Mem} (hbits : Holds mem 0 (f.bits s.bps)) :
    decodeFrame fuel s mem 0 = .ok (s.after f, (f.bits s.bps).length) := by
  obtain ⟨hbody, hend⟩ := holds_append.mp hbits
  obtain ⟨hheader, hheader_after⟩ := holds_append.mp hbody
  rw [Nat.zero_add] at hheader_after
  have hread := decodeFrameHeader_eq hwf.header s hheader
  have hcount : s.channels = f.subframes.length := by rw [hwf.count, hwf.channels]
  have hsubframes := reads_decodeSubframes (s := s.start f) f.subframes (i := 0)
    (fun k sub hsub => by rw [Nat.zero_add]; exact hwf.fits k sub hsub)
    (fun sub hsub => by rw [hwf.samples sub hsub]; rfl)
    (fun k hk => by
      rw [Nat.zero_add]
      have hlen : ((s.start f).decoded k).length = s.maxBlocksize := hready k (by omega)
      have hblock : (s.start f).blocksize = f.header.blocksize := rfl
      have := hwf.blocksize
      omega)
  have hframe := hsubframes mem f.header.bits.length hheader_after
  rw [← List.length_append] at hframe
  have hstart := reads_startFrame hwf mem f.header.bits.length (holds_nil mem _)
  have halign : (alignGetBits : Decode Unit) mem (f.body s.bps).length =
      .ok ((), (f.body s.bps).length + f.pad.length) := alignGetBits_eq hwf.pad
  have hlen : (f.bits s.bps).length = (f.body s.bps).length + f.pad.length + 16 := by
    rw [Frame.bits, List.length_append, List.length_append, hwf.footer, Nat.add_assoc]
  have hchannels : (s.start f).channels = f.subframes.length := hcount
  rw [decodeFrame, run_bind, hread, Except.bind, run_bind, hstart, Except.bind, run_bind, hlen]
  simp only [List.length_nil, Nat.add_zero, hchannels]
  rw [hframe, Except.bind, run_bind]
  exact (congrArg (Except.bind · _) halign).trans rfl

/-! ### The context behind a frame -/

/-- Only the channels of the subframes change. -/
theorem filledAll_decoded_other {s : FLACContext} {subs : List Subframe} {i j : Nat}
    (hj : j < i ∨ i + subs.length ≤ j) : (s.filledAll i subs).decoded j = s.decoded j := by
  induction subs generalizing s i with
  | nil => rfl
  | cons sub subs ih =>
    rw [List.length_cons] at hj
    have hput : (s.filled i sub).decoded j = s.decoded j := Function.update_of_ne (by omega) ..
    rw [FLACContext.filledAll, ih (by omega), hput]

/-- Each channel has its samples. -/
theorem filledAll_decoded {s : FLACContext} {subs : List Subframe} {i k : Nat} {sub : Subframe}
    (hsub : subs[k]? = some sub) :
    (s.filledAll i subs).decoded (i + k) =
      sub.samples ++ (s.decoded (i + k)).drop sub.samples.length := by
  induction subs generalizing s i k with
  | nil => simp at hsub
  | cons sub' subs ih =>
    rcases k with _ | k
    · obtain rfl : sub' = sub := by simpa using hsub
      rw [FLACContext.filledAll, filledAll_decoded_other (by omega)]
      exact FLACContext.put_decoded ..
    · have hother : (s.filled i sub').decoded (i + 1 + k) = s.decoded (i + 1 + k) :=
        Function.update_of_ne (by omega) ..
      rw [FLACContext.filledAll, show i + (k + 1) = i + 1 + k by omega,
        ih (by simpa using hsub), hother]

/-- The subframes change arrays, and the width of the samples, only. -/
theorem filledAll_fields (s : FLACContext) (subs : List Subframe) (i : Nat) :
    ∃ currBps decoded, s.filledAll i subs = { s with currBps, decoded } := by
  induction subs generalizing s i with
  | nil => exact ⟨_, _, rfl⟩
  | cons sub subs ih =>
    obtain ⟨currBps, decoded, hfields⟩ := ih (s.filled i sub) (i + 1)
    exact ⟨currBps, decoded, hfields⟩

theorem after_decoded {s : FLACContext} {f : Frame} {k : Nat} {sub : Subframe}
    (hsub : f.subframes[k]? = some sub) :
    (s.after f).decoded k = sub.samples ++ (s.decoded k).drop sub.samples.length := by
  have h := filledAll_decoded (s := s.start f) (i := 0) hsub
  rwa [Nat.zero_add] at h

theorem after_fields (s : FLACContext) (f : Frame) :
    ∃ currBps decoded, s.after f = { s.start f with currBps, decoded } :=
  filledAll_fields ..

/-- The arrays stay as long as they are. -/
theorem after_ready {s : FLACContext} {f : Frame} (hwf : f.WellFormed fuel s) (hready : s.Ready) :
    (s.after f).Ready := by
  intro i hi
  obtain ⟨currBps, decoded, hfields⟩ := after_fields s f
  have hchannels : (s.after f).channels = s.channels := by rw [hfields]; rfl
  have hmax : (s.after f).maxBlocksize = s.maxBlocksize := by rw [hfields]; rfl
  have hcount : f.subframes.length = s.channels := by rw [hwf.count, hwf.channels]
  obtain ⟨sub, hsub⟩ : ∃ sub, f.subframes[i]? = some sub :=
    ⟨_, List.getElem?_eq_getElem (by omega)⟩
  have hlen := hwf.samples _ (List.mem_of_getElem? hsub)
  have hblock := hwf.blocksize
  have hold := hready i (by omega)
  rw [after_decoded hsub, List.length_append, List.length_drop, hmax]
  omega

/-- A frame of any number of channels is decoded as it was coded: each channel has its samples in
    front of what was behind them, and nothing is known of the bytes behind the frame. -/
theorem frame_decoded {s : FLACContext} {f : Frame} (hwf : f.WellFormed fuel s) (hready : s.Ready)
    {mem : Mem} (hbits : Holds mem 0 (f.bits s.bps)) :
    ∃ s', decodeFrame fuel s mem 0 = .ok (s', (f.bits s.bps).length) ∧
      s'.blocksize = f.header.blocksize ∧ s'.chMode = f.chMode ∧ s'.Ready ∧
      (∀ k sub, f.subframes[k]? = some sub →
        s'.decoded k = sub.samples ++ (s.decoded k).drop sub.samples.length) ∧
      ∀ k, s.channels ≤ k → s'.decoded k = s.decoded k := by
  obtain ⟨currBps, decoded, hfields⟩ := after_fields s f
  have hblock : (s.after f).blocksize = f.header.blocksize := by rw [hfields]; rfl
  have hmode : (s.after f).chMode = f.chMode := by rw [hfields]; rfl
  have hcount : f.subframes.length = s.channels := by rw [hwf.count, hwf.channels]
  refine ⟨s.after f, decodeFrame_eq hwf hready hbits, hblock, hmode, after_ready hwf hready,
    fun k sub hsub => after_decoded hsub, fun k hk => ?_⟩
  have hother : ((s.start f).filledAll 0 f.subframes).decoded k = (s.start f).decoded k :=
    filledAll_decoded_other (by omega)
  exact hother

end

/-- Three channels of three samples. -/
def surroundFrame : Frame where
  header := {
    variableBlocks := true, bsCode := 6, srCode := 9, chMode := 2, bpsCode := 4
    number := 300, numberTail := 1, bsField := 2, srField := 0 }
  subframes := [
    { wasted := 2, body := .constant 5 3 },
    { wasted := 0, body := .verbatim [1, -2, 3] },
    { wasted := 0
      body := .fixed {
        warm := [7], rest := [9, 8]
        residual := { methodType := 1, riceOrder := 0, chunks := [⟨.rice 1, [2, -1]⟩] } } }]
  pad := List.replicate 7 false
  footer := List.replicate 16 true

def surroundBytes : Mem := fun k =>
  [255, 249, 105, 40, 196, 172, 2, 120, 1, 64, 5, 2, 0, 1, 255, 254, 0, 3, 18, 0, 7, 64, 37, 128,
    255, 255].getD k 0

def surroundContext : FLACContext where
  samplerate := 44100
  channels := 3
  bps := 16
  maxBlocksize := 4
  maxFramesize := 0
  samples := 0
  blocksize := 0
  currBps := 0
  sampleShift := 0
  chMode := 0
  gotStreaminfo := true
  errorNum := 0
  decoded := fun _ => List.replicate 4 0

theorem surroundBytes_holds :
    Holds surroundBytes 0 (surroundFrame.bits 16) ∧ (surroundFrame.bits 16).length = 208 ∧
      surroundFrame.pad.length = (8 - (surroundFrame.body 16).length % 8) % 8 := by
  decide +kernel

theorem surroundFrame_wellFormed : surroundFrame.WellFormed 8 surroundContext := by
  have hbps : surroundContext.bps = 16 := rfl
  obtain ⟨-, -, hpad⟩ := surroundBytes_holds
  refine ⟨⟨by decide, by decide, by decide, by decide, by decide, by decide, by decide⟩, rfl,
    by decide, by decide, rfl, by decide, ?_, by rw [hbps]; exact hpad, rfl⟩
  intro k sub hsub
  rcases k with _ | _ | _ | k
  · obtain rfl : _ = sub := by simpa [surroundFrame] using hsub
    exact ⟨by decide, by decide, (by decide : Signed 14 5)⟩
  · obtain rfl : _ = sub := by simpa [surroundFrame] using hsub
    exact ⟨by decide, by decide, (by decide : ∀ x ∈ [1, -2, 3], Signed 16 x)⟩
  · obtain rfl : _ = sub := by simpa [surroundFrame] using hsub
    refine ⟨by decide, by decide, by decide, ⟨by decide, by decide, rfl, by decide, ⟨rfl, trivial⟩,
      ?_⟩, by decide, by decide⟩
    simp [Chunk.Fits, zigzag, paramBits]
  · simp [surroundFrame] at hsub

theorem frame_decoded_surround :
    ∃ s', decodeFrame 8 surroundContext surroundBytes 0 = .ok (s', 208) ∧
      s'.decoded 0 = [20, 20, 20, 0] ∧ s'.decoded 1 = [1, -2, 3, 0] ∧
      s'.decoded 2 = [7, 9, 8, 0] := by
  obtain ⟨hbits, hsize, -⟩ := surroundBytes_holds
  obtain ⟨s', hrun, -, -, -, hchannels, -⟩ :=
    frame_decoded surroundFrame_wellFormed (fun _ _ => rfl) hbits
  have hrun' : decodeFrame 8 surroundContext surroundBytes 0 =
      .ok (s', (surroundFrame.bits 16).length) := hrun
  rw [hsize] at hrun'
  exact ⟨s', hrun', hchannels 0 _ rfl, hchannels 1 _ rfl, hchannels 2 _ rfl⟩

end Streambox.Flac
