import Mathlib.Logic.Relation
import Streambox.Flac.Pcm

/-! Call after call, over a whole buffer.

    The caller goes on behind what a call says that it has used. In front of a frame there may be
    bytes that are none, and in these there may be what looks like a sync code: what stands there is
    no header then, and its CRC, or something else in it, says so.

        gap          frame             gap   frame
        … FF F8 …  │ FF F8 …         │ …   │ FF F9 …       │ …
        ├─ call ─┤ ├┤
                   ├─── call ────────┤

    Behind a false sync code the call counts from the byte behind it, so it stops one byte short of
    the next one; the next call goes over that byte. -/

namespace Streambox.Flac
open Streambox.Lib.BitField Relation

/-- Where the caller is, and what has come out. -/
structure Player where
  s : FLACContext
  pos : Nat
  out : List Int

/-- A call on the rest of the buffer. -/
def Call (fuel : Nat) (inbuf : Mem) (inlen : Nat) (p q : Player) : Prop :=
  ∃ r, audioDecDecode fuel p.s (behind inbuf p.pos) (inlen - p.pos) = some r ∧ 0 ≤ r.ret ∧
    q = { s := r.s, pos := p.pos + r.ret.toNat, out := p.out ++ r.out }

/-! ### Sync codes -/

theorem behind_zero (mem : Mem) : behind mem 0 = mem := funext fun i => by rw [behind, Nat.zero_add]

theorem isSync_behind (mem : Mem) (pos k : Nat) : isSync (behind mem pos) k = isSync mem (pos + k) :=
  rfl

theorem be16_lt (mem : Mem) (k : Nat) : be16 mem k < 2 ^ 16 := by
  have hhigh := (mem k).toNat_lt
  have hlow := (mem (k + 1)).toNat_lt
  unfold be16
  omega

/-- Everything but the lowest bit. -/
theorem and_fffe {n : Nat} (hn : n < 2 ^ 16) : n &&& 0xFFFE = n / 2 * 2 := by
  have hlow : (n &&& 0xFFFE) % 2 = 0 := by
    have h := Nat.and_mod_two_pow (a := n) (b := 0xFFFE) (n := 1)
    simpa using h
  have hhigh : (n &&& 0xFFFE) / 2 = n / 2 := by
    rw [Nat.and_div_two, show 0xFFFE / 2 = 2 ^ 15 - 1 from rfl, Nat.and_two_pow_sub_one_eq_mod,
      Nat.mod_eq_of_lt (by omega)]
  omega

theorem isSync_iff {mem : Mem} {k : Nat} : isSync mem k = true ↔ be16 mem k / 2 = 0x7FFC := by
  rw [isSync, decide_eq_true_iff, and_fffe (be16_lt mem k)]
  omega

/-- Two of them cannot begin one byte apart. -/
theorem isSync_next {mem : Mem} {k : Nat} (h : isSync mem k = true) :
    isSync mem (k + 1) = false := by
  rw [← Bool.not_eq_true, isSync_iff]
  rw [isSync_iff] at h
  have hlow := (mem (k + 1)).toNat_lt
  have hnext := (mem (k + 1 + 1)).toNat_lt
  unfold be16 at *
  omega

/-- The next one, if there is one. -/
theorem exists_next_sync {mem : Mem} {k start : Nat} (hk : k ≤ start)
    (hstart : isSync mem start = true) :
    ∃ next, k ≤ next ∧ next ≤ start ∧ isSync mem next = true ∧
      ∀ q, k ≤ q → q < next → isSync mem q = false := by
  have hex : ∃ q, k ≤ q ∧ isSync mem q = true := ⟨start, hk, hstart⟩
  refine ⟨Nat.find hex, (Nat.find_spec hex).1, Nat.find_min' hex ⟨hk, hstart⟩, (Nat.find_spec hex).2,
    fun q hq hlt => ?_⟩
  have hmin := Nat.find_min hex hlt
  simpa [hq] using hmin

theorem skipToSync_eq {buf : Mem} {n k next : Nat} (hk : k ≤ next) (hroom : next + 2 < k + n)
    (hsync : isSync buf next = true) (hno : ∀ q, k ≤ q → q < next → isSync buf q = false) :
    skipToSync buf n k = next := by
  induction n generalizing k with
  | zero => omega
  | succ n ih =>
    rw [skipToSync]
    rcases Nat.eq_or_lt_of_le hk with rfl | hlt
    · simp [hsync]
    · have hhere : isSync buf k = false := hno k (Nat.le_refl k) hlt
      rw [if_pos ⟨by omega, by simp [hhere]⟩]
      exact ih (by omega) (by omega) fun q hq => hno q (by omega)

/-! ### Gaps -/

/-- There is no header there. -/
def HeaderFails (inbuf : Mem) (q : Nat) : Prop :=
  ∀ s, decodeFrameHeader s (behind inbuf q) 0 = .error (.error s)

/-- No frame begins in these bytes, and no metadata. -/
def Gap (inbuf : Mem) (pos start : Nat) : Prop :=
  ∀ q, pos ≤ q → q < start →
    be32 inbuf q ≠ flacTag ∧ (isSync inbuf q = true → HeaderFails inbuf q)

theorem decodeFrame_error {fuel : Nat} {s : FLACContext} {inbuf : Mem} {q : Nat}
    (h : HeaderFails inbuf q) :
    decodeFrame fuel s (behind inbuf q) 0 = .error (.error s) := by
  rw [decodeFrame, run_bind, h s]
  rfl

/-- The caller gets on. Only the number of errors in the context may be another. -/
theorem gap_step (fuel : Nat) {s : FLACContext} {inbuf : Mem} {inlen pos start : Nat}
    (hpos : pos < start) (hgap : Gap inbuf pos start) (hstart : isSync inbuf start = true)
    (hroom : start + maxFramesize s ≤ inlen) :
    ∃ n e, 0 < n ∧ pos + n ≤ start ∧
      audioDecDecode fuel s (behind inbuf pos) (inlen - pos) =
        some { ret := n, outlen := some 0, out := [], s := { s with errorNum := e } } := by
  have hmargin : 32 ≤ maxFramesize s := by
    unfold maxFramesize
    omega
  obtain ⟨htag, hfails⟩ := hgap pos (Nat.le_refl pos) hpos
  have hbe32 : be32 (behind inbuf pos) 0 ≠ flacTag := htag
  rw [audioDecDecode, if_neg (by omega), decodeContinue, if_neg hbe32]
  rcases hsync : isSync inbuf pos with _ | _
  · obtain ⟨next, hle, hmax, hnext, hno⟩ := exists_next_sync hpos.le hstart
    have hlt : pos < next := by
      rcases Nat.eq_or_lt_of_le hle with rfl | hlt
      · rw [hsync] at hnext
        exact absurd hnext (by simp)
      · exact hlt
    have hskip : skipToSync (behind inbuf pos) (inlen - pos) 0 = next - pos :=
      skipToSync_eq (Nat.zero_le _) (by omega)
        (by rw [isSync_behind, Nat.add_sub_cancel' hle]; exact hnext)
        fun q _ hq => hno (pos + q) (by omega) (by omega)
    have hhere : isSync (behind inbuf pos) 0 = false := hsync
    refine ⟨next - pos, s.errorNum, by omega, by omega, ?_⟩
    rw [findSync, hhere, if_neg (by simp), hskip]
    simp only [Nat.sub_zero, finish]
    rw [if_neg (by omega)]
  · have hbehind := isSync_next hsync
    have hfar : pos + 1 ≤ start := hpos
    obtain ⟨next, hle, hmax, hnext, hno⟩ := exists_next_sync hfar hstart
    have hlt : pos + 1 < next := by
      rcases Nat.eq_or_lt_of_le hle with rfl | hlt
      · rw [hbehind] at hnext
        exact absurd hnext (by simp)
      · exact hlt
    obtain ⟨n, hn⟩ : ∃ n, inlen - pos = n + 1 := ⟨inlen - pos - 1, by omega⟩
    have hskip : skipToSync (behind inbuf pos) n 1 = next - pos :=
      skipToSync_eq (by omega) (by omega)
        (by rw [isSync_behind, Nat.add_sub_cancel' (by omega)]; exact hnext)
        fun q hq hq' => hno (pos + q) (by omega) (by omega)
    have hhere : isSync (behind inbuf pos) 0 = true := hsync
    have hthere : isSync (behind inbuf pos) 1 = false := hbehind
    have herror : decodeFrame fuel s (behind (behind inbuf pos) 0) 0 = .error (.error s) := by
      rw [behind_zero]
      exact decodeFrame_error (hfails hsync)
    refine ⟨next - pos - 1, s.errorNum + 1, by omega, by omega, ?_⟩
    rw [findSync, hhere, if_pos rfl, herror, hn]
    simp only
    rw [findSync, Nat.zero_add, hthere, if_neg (by simp), hskip]
    simp only [finish]
    rw [if_neg (by omega)]

/-! ### Frames -/

/-- The context is set up, for one channel or two. -/
structure Usable (s : FLACContext) : Prop where
  ready : s.Ready
  channels : s.channels ≤ 2
  bps : 0 < s.bps ∧ s.bps ≤ 32
  maxBlocksize : s.maxBlocksize < 2 ^ 16

/-- The same stream. -/
structure SameStream (s s' : FLACContext) : Prop where
  channels : s'.channels = s.channels
  bps : s'.bps = s.bps
  maxBlocksize : s'.maxBlocksize = s.maxBlocksize
  maxFramesize : s'.maxFramesize = s.maxFramesize

theorem SameStream.trans {s s' s'' : FLACContext} (h : SameStream s s') (h' : SameStream s' s'') :
    SameStream s s'' :=
  ⟨h'.channels.trans h.channels, h'.bps.trans h.bps, h'.maxBlocksize.trans h.maxBlocksize,
    h'.maxFramesize.trans h.maxFramesize⟩

theorem sameStream_after (s : FLACContext) (f : Frame) : SameStream s (s.after f) := by
  obtain ⟨currBps, decoded, hfields⟩ := after_fields s f
  rw [hfields]
  exact ⟨rfl, rfl, rfl, rfl⟩

theorem Frame.WellFormed.of_same {fuel : Nat} {s s' : FLACContext} {f : Frame}
    (hsame : SameStream s s') (hwf : f.WellFormed fuel s) : f.WellFormed fuel s' := by
  obtain ⟨hchannels, hbps, hblock, -⟩ := hsame
  refine ⟨hwf.header, hchannels ▸ hwf.channels, hbps ▸ hwf.bps, hblock ▸ hwf.blocksize, hwf.count,
    hwf.samples, ?_, ?_, hwf.footer⟩
  · rw [hbps]
    exact hwf.fits
  · rw [hbps]
    exact hwf.pad

/-- The bytes of a frame. -/
def Frame.size (bps : Nat) (f : Frame) : Nat := (f.bits bps).length / 8

theorem Frame.length_bits {fuel : Nat} {s : FLACContext} {f : Frame} (hwf : f.WellFormed fuel s) :
    (f.bits s.bps).length = 8 * f.size s.bps := by
  have hpad := hwf.pad
  have hfooter := hwf.footer
  have hlen : (f.bits s.bps).length = (f.body s.bps).length + (f.pad.length + f.footer.length) := by
    rw [Frame.bits, List.length_append, List.length_append]
  unfold Frame.size
  omega

/-- A frame begins with a sync code. -/
theorem isSync_of_frame {inbuf : Mem} {pos bps : Nat} {f : Frame}
    (hbits : Holds inbuf (8 * pos) (f.bits bps)) : isSync inbuf pos = true := by
  rw [isSync_iff]
  have hsync : Holds inbuf (8 * pos) (field 15 0x7FFC) :=
    (holds_append.mp (holds_append.mp (holds_append.mp (holds_append.mp hbits).1).1).1).1
  have hwindow : window inbuf (8 * pos) 15 = 0x7FFC := window_of_holds hsync
  have hword : be16 inbuf pos = window inbuf (8 * pos) 16 := by
    rw [be16, show 16 = 8 + 8 from rfl, window_add, window_byte,
      show 8 * pos + 8 = 8 * (pos + 1) by omega, window_byte]
    norm_num
  have hlast := Bool.toNat_le (bitAt inbuf (8 * pos + 15))
  rw [hword, window, hwindow]
  omega

/-- A sync code is no metadata. -/
theorem be32_ne_of_isSync {mem : Mem} {k : Nat} (h : isSync mem k = true) : be32 mem k ≠ flacTag := by
  rw [isSync_iff] at h
  unfold be16 at h
  unfold be32 flacTag
  have hthird := (mem (k + 2)).toNat_lt
  have hfourth := (mem (k + 3)).toNat_lt
  omega

/-- The output has room for a frame. -/
theorem outputSize_le {fuel : Nat} {s : FLACContext} {f : Frame} (hs : Usable s)
    (hwf : f.WellFormed fuel s) : ¬defaultOutBufSize < outputSize (s.after f) := by
  obtain ⟨currBps, decoded, hfields⟩ := after_fields s f
  have hblock : (s.after f).blocksize = f.header.blocksize := by rw [hfields]; rfl
  have hchannels : (s.after f).channels = s.channels := by rw [hfields]; rfl
  have hmax := hwf.blocksize
  have hlimit := hs.maxBlocksize
  have htwo := hs.channels
  rw [outputSize, hblock, hchannels, if_neg (by omega), defaultOutBufSize]
  have hcases : s.channels = 0 ∨ s.channels = 1 ∨ s.channels = 2 := by omega
  rcases hcases with hc | hc | hc <;> rw [hc] <;> push_cast <;> omega

/-- A call at the beginning of a frame. -/
theorem frame_step {fuel : Nat} {s : FLACContext} {inbuf : Mem} {inlen pos : Nat} {f : Frame}
    {pcm : Pcm} (hs : Usable s) (hwf : f.WellFormed fuel s) (hcarries : f.Carries pcm)
    (hfits : pcm.Fits s.bps) (hbits : Holds inbuf (8 * pos) (f.bits s.bps))
    (hend : pos + f.size s.bps ≤ inlen) (hroom : pos + maxFramesize s ≤ inlen) :
    audioDecDecode fuel s (behind inbuf pos) (inlen - pos) =
      some { ret := f.size s.bps, outlen := some (outputSize (s.after f)),
             out := pcm.words s.bps, s := s.after f } := by
  have hsync : isSync (behind inbuf pos) 0 = true := by
    rw [isSync_behind]
    exact isSync_of_frame hbits
  have hbits' : Holds (behind inbuf pos) 0 (f.bits s.bps) := holds_behind.mpr hbits
  have hframe := decodeFrame_eq hwf hs.ready hbits'
  have hbytes : ((f.bits s.bps).length + 7) / 8 = f.size s.bps := by
    rw [Frame.length_bits hwf]
    omega
  have hsize := outputSize_le hs hwf
  rw [audioDecDecode, if_neg (by omega), decodeContinue, if_neg (be32_ne_of_isSync hsync), findSync,
    if_pos hsync, behind_zero, hframe]
  simp only [hbytes]
  rw [if_neg hsize, output_after hwf hs.bps hcarries hfits, Option.map_some, finish,
    if_neg (by omega)]

/-! ### Streams -/

/-- A frame in the buffer, with what it carries. -/
structure Segment where
  start : Nat
  frame : Frame
  pcm : Pcm
  deriving DecidableEq, Repr

/-- Frames in the buffer from `pos` on, with gaps between them; `stop` is behind the last. -/
def Placed (fuel : Nat) (s : FLACContext) (inbuf : Mem) : Nat → List Segment → Nat → Prop
  | pos, [], stop => pos = stop
  | pos, seg :: segs, stop =>
    pos ≤ seg.start ∧ Gap inbuf pos seg.start ∧
      Holds inbuf (8 * seg.start) (seg.frame.bits s.bps) ∧ seg.frame.WellFormed fuel s ∧
      seg.frame.Carries seg.pcm ∧ seg.pcm.Fits s.bps ∧
      Placed fuel s inbuf (seg.start + seg.frame.size s.bps) segs stop

theorem Placed.le {fuel : Nat} {s : FLACContext} {inbuf : Mem} {segs : List Segment} {pos stop : Nat}
    (h : Placed fuel s inbuf pos segs stop) : pos ≤ stop := by
  induction segs generalizing pos with
  | nil => exact Nat.le_of_eq h
  | cons seg segs ih =>
    obtain ⟨hpos, -, -, -, -, -, hrest⟩ := h
    have := ih hrest
    omega

/-- Only the stream that the context is for counts. -/
theorem Placed.of_same {fuel : Nat} {s s' : FLACContext} {inbuf : Mem} (hsame : SameStream s s')
    {segs : List Segment} {pos stop : Nat} (h : Placed fuel s inbuf pos segs stop) :
    Placed fuel s' inbuf pos segs stop := by
  induction segs generalizing pos with
  | nil => exact h
  | cons seg segs ih =>
    obtain ⟨hpos, hgap, hbits, hwf, hcarries, hfits, hrest⟩ := h
    have hrest' := ih hrest
    rw [← hsame.bps] at hbits hfits hrest'
    exact ⟨hpos, hgap, hbits, hwf.of_same hsame, hcarries, hfits, hrest'⟩

theorem Usable.of_same {s s' : FLACContext} (hs : Usable s) (hsame : SameStream s s')
    (hready : s'.Ready) : Usable s' where
  ready := hready
  channels := hsame.channels ▸ hs.channels
  bps := hsame.bps ▸ hs.bps
  maxBlocksize := hsame.maxBlocksize ▸ hs.maxBlocksize

/-- The calls get over a gap, and nothing comes out. -/
theorem gap_run (fuel : Nat) {inbuf : Mem} {inlen start : Nat} (hstart : isSync inbuf start = true)
    (out : List Int) {s : FLACContext} {pos : Nat} (hpos : pos ≤ start)
    (hgap : Gap inbuf pos start) (hroom : start + maxFramesize s ≤ inlen) :
    ∃ e, ReflTransGen (Call fuel inbuf inlen) { s, pos, out }
      { s := { s with errorNum := e }, pos := start, out } := by
  induction hd : start - pos using Nat.strong_induction_on generalizing s pos with
  | _ d ih =>
    rcases Nat.eq_or_lt_of_le hpos with rfl | hlt
    · exact ⟨s.errorNum, .refl⟩
    · obtain ⟨n, e, hn, hle, hcall⟩ := gap_step fuel hlt hgap hstart hroom
      obtain ⟨e', hrest⟩ := ih (start - (pos + n)) (by omega) (s := { s with errorNum := e })
        hle (fun q hq hq' => hgap q (by omega) hq') hroom rfl
      exact ⟨e', .head ⟨_, hcall, by simp, by simp⟩ hrest⟩

/-- The calls give the frames of the stream, each once and in order, and nothing else. -/
theorem stream_run {fuel : Nat} {inbuf : Mem} {inlen stop : Nat} {segs : List Segment}
    {s : FLACContext} {pos : Nat} (hs : Usable s) (hplaced : Placed fuel s inbuf pos segs stop)
    (hroom : stop + maxFramesize s ≤ inlen) (out : List Int) :
    ∃ s', SameStream s s' ∧ s'.Ready ∧ ReflTransGen (Call fuel inbuf inlen) { s, pos, out }
      { s := s', pos := stop, out := out ++ segs.flatMap fun seg => seg.pcm.words s.bps } := by
  induction segs generalizing s pos out with
  | nil =>
    obtain rfl : pos = stop := hplaced
    exact ⟨s, ⟨rfl, rfl, rfl, rfl⟩, hs.ready, by simpa using .refl⟩
  | cons seg segs ih =>
    obtain ⟨hpos, hgap, hbits, hwf, hcarries, hfits, hrest⟩ := hplaced
    have hend := hrest.le
    obtain ⟨e, hskip⟩ := gap_run fuel (isSync_of_frame hbits) out hpos
      hgap (s := s) (Nat.le_trans (by omega) hroom)
    -- What the gap has left is the same stream, and so is what the frame leaves.
    have hsame : SameStream s { s with errorNum := e } := ⟨rfl, rfl, rfl, rfl⟩
    have hs' : Usable { s with errorNum := e } := hs.of_same hsame hs.ready
    have hframe := frame_step hs' (hwf.of_same hsame) hcarries hfits hbits
      (Nat.le_trans hend (Nat.le_of_add_right_le hroom)) (Nat.le_trans (by
        have hle : seg.start ≤ stop := by omega
        have hmax : maxFramesize { s with errorNum := e } = maxFramesize s := rfl
        omega) hroom)
    have hafter := sameStream_after { s with errorNum := e } seg.frame
    have hready := after_ready (hwf.of_same hsame) hs'.ready
    obtain ⟨s'', hsame'', hready'', hrun⟩ := ih (hs'.of_same hafter hready)
      (hrest.of_same (hsame.trans hafter)) (by
        have hmax : maxFramesize ({ s with errorNum := e }.after seg.frame) = maxFramesize s := by
          rw [maxFramesize, hafter.maxFramesize, maxFramesize]
        omega) (out ++ seg.pcm.words s.bps)
    refine ⟨s'', (hsame.trans hafter).trans hsame'', hready'', hskip.trans ?_⟩
    rw [hafter.bps, List.append_assoc] at hrun
    exact .head ⟨_, hframe, by simp, by simp⟩ hrun

/-! ### Files -/

theorem usable_of_setUp {s : FLACContext} {i : Streaminfo} (hwf : i.WellFormed) (h : s.SetUp i)
    (hchannels : i.channels ≤ 2) : Usable s where
  ready := h.arrays
  channels := h.channels ▸ hchannels
  bps := h.bps ▸ hwf.bps
  maxBlocksize := h.maxBlocksize ▸ hwf.maxBlocksize.2

/-- A file from its first byte; the frames are from `start` on. -/
structure FileHeader (inbuf : Mem) (i : Streaminfo) (start : Nat) : Prop where
  tag : be32 inbuf 0 = flacTag
  first : ∃ last, parseBlockHeader inbuf 4 = (last, 0, flacStreaminfoSize)
  info : Holds inbuf (8 * 8) i.bits
  blocks : Blocks inbuf 4 start

theorem FileHeader.le {inbuf : Mem} {i : Streaminfo} {start : Nat}
    (h : FileHeader inbuf i start) : 42 ≤ start := by
  obtain ⟨last, hfirst⟩ := h.first
  cases h.blocks with
  | last hlast =>
    rw [hfirst] at hlast
    cases hlast
    unfold flacStreaminfoSize
    omega
  | more hmore hrest =>
    rw [hfirst] at hmore
    cases hmore
    have := hrest.lt
    unfold flacStreaminfoSize at this
    omega

/-- The first call takes all that is in front of the frames. -/
theorem header_step (fuel : Nat) {inbuf : Mem} {inlen start : Nat} {i : Streaminfo}
    {s : FLACContext} (hnew : s.gotStreaminfo = false) (hheader : FileHeader inbuf i start)
    (hstart : start ≤ inlen) (hroom : maxFramesize s ≤ inlen) :
    audioDecDecode fuel s inbuf inlen = some {
      ret := start, outlen := some 0, out := [], s := streaminfoAt s (behind inbuf 8) } := by
  obtain ⟨last, hfirst⟩ := hheader.first
  have hlen := hheader.le
  have hinfo : inlineStreaminfo s inbuf inlen = some (streaminfoAt s (behind inbuf 8)) := by
    rw [inlineStreaminfo, if_neg (by unfold flacStreaminfoSize; omega), hfirst]
    simp
  have hblocks : getMetadataSize inbuf inlen = start := by
    rw [getMetadataSize, metadataEnd_eq hheader.blocks, if_pos hstart]
  rw [audioDecDecode, if_neg (by omega), decodeContinue, if_pos hheader.tag, hnew,
    if_neg (by simp), hinfo]
  simp only [hblocks, finish]
  rw [if_neg (by omega)]

/-- A file is played from its first byte: the blocks in front of the frames set the decoder up, and
    then the sound of all its frames comes out, in order and once. -/
theorem file_played {fuel : Nat} {inbuf : Mem} {inlen start stop : Nat} {i : Streaminfo}
    {segs : List Segment} (hwf : i.WellFormed) (hchannels : i.channels ≤ 2)
    (hheader : FileHeader inbuf i start)
    (hplaced : Placed fuel (streaminfoAt .zero (behind inbuf 8)) inbuf start segs stop)
    (hroom : stop + maxFramesize (streaminfoAt .zero (behind inbuf 8)) ≤ inlen) :
    ∃ s, ReflTransGen (Call fuel inbuf inlen) { s := .zero, pos := 0, out := [] }
      { s, pos := stop, out := segs.flatMap fun seg => seg.pcm.words i.bps } := by
  have hinfo : Holds (behind inbuf 8) 0 i.bits := (holds_behind (k := 8) (i := 0)).mpr hheader.info
  have hsetUp := streaminfoAt_setUp hwf .zero hinfo
  have hend := hplaced.le
  have hle := hheader.le
  have hzero : maxFramesize .zero = 32 := rfl
  have hfirst := header_step fuel (s := .zero) rfl hheader
    (Nat.le_trans hend (Nat.le_of_add_right_le hroom)) (by omega)
  obtain ⟨s', -, -, hrun⟩ := stream_run (usable_of_setUp hwf hsetUp hchannels) hplaced hroom []
  rw [hsetUp.bps, List.nil_append] at hrun
  have hcall : Call fuel inbuf inlen { s := .zero, pos := 0, out := [] }
      { s := streaminfoAt .zero (behind inbuf 8), pos := start, out := [] } := by
    rw [← behind_zero inbuf] at hfirst
    exact ⟨_, hfirst, Int.natCast_nonneg start, by simp [behind_zero]⟩
  exact ⟨s', .head hcall hrun⟩

/-- A stream of four samples, in 16 bits. -/
def noteInfo : Streaminfo where
  minBlocksize := 16
  maxBlocksize := 16
  minFramesize := 0
  maxFramesize := 32
  samplerate := 44100
  channels := 2
  bps := 16
  samples := 4
  md5 := 0

def noteFrame : Frame where
  header := {
    variableBlocks := false, bsCode := 6, srCode := 9, chMode := 10, bpsCode := 4
    number := 0, numberTail := 0, bsField := 3, srField := 0 }
  subframes := [
    { wasted := 0
      body := .lpc { coeffPrec := 3, qlevel := 0, coeffs := [2, -1] } {
        warm := [9, 11], rest := [14, 18]
        residual := { methodType := 0, riceOrder := 0, chunks := [⟨.rice 0, [1, 1]⟩] } } },
    { wasted := 0
      body := .fixed {
        warm := [2], rest := [4, 5, 8]
        residual := {
          methodType := 0, riceOrder := 1, chunks := [⟨.raw 4, [2]⟩, ⟨.rice 1, [1, 3]⟩] } } }]
  pad := [false]
  footer := List.replicate 16 false

def noteSound : Pcm := .stereo [(10, 8), (13, 9), (17, 12), (22, 14)]

/-- The tag, the block, four bytes that look like a frame, and the frame. -/
def noteFile : Mem := fun k =>
  [0x66, 0x4C, 0x61, 0x43, 0x80, 0, 0, 34, 0, 16, 0, 16, 0, 0, 0, 0, 0, 32, 0x0A, 0xC4, 0x42, 0xF0,
    0, 0, 0, 4, 0, 0, 0, 0, 0, 0, 0, 0, 0, 0, 0, 0, 0, 0, 0, 0, 0xFF, 0xF8, 0, 0xB0, 0xFF, 0xF8, 105,
    168, 0, 3, 92, 66, 0, 9, 0, 11, 32, 46, 0, 18, 36, 0, 2, 7, 200, 66, 132, 0, 0].getD k 0

theorem noteInfo_wellFormed : noteInfo.WellFormed :=
  ⟨by decide, by decide, by decide, by decide, by decide, by decide⟩

/-- What stands where in the file, and how long it is. -/
theorem noteFile_holds :
    Holds noteFile (8 * 8) noteInfo.bits ∧
      Holds noteFile (8 * 42) (field 15 0x7FFC ++ ([false] ++ (field 4 0 ++ (field 4 0 ++
        (field 4 11 ++ []))))) ∧
      Holds noteFile (8 * 46) (noteFrame.bits 16) ∧
      noteFrame.pad.length = (8 - (noteFrame.body 16).length % 8) % 8 ∧ noteFrame.size 16 = 25 ∧
      71 + maxFramesize (streaminfoAt .zero (behind noteFile 8)) ≤ 200 ∧
      71 + maxFramesize (audioDecInit (behind noteFile 8) 34).2 ≤ 200 := by
  decide +kernel

theorem noteFile_info : Holds (behind noteFile 8) 0 noteInfo.bits :=
  (holds_behind (k := 8) (i := 0)).mpr noteFile_holds.1

theorem noteFile_header : FileHeader noteFile noteInfo 42 where
  tag := by decide
  first := ⟨true, by decide⟩
  info := noteFile_holds.1
  blocks := .last (by decide : parseBlockHeader noteFile 4 = (true, 0, 34))

/-- The bytes in front of the frame are none. -/
theorem noteFile_gap : Gap noteFile 42 46 := by
  intro q hq hlt
  have hcases : q = 42 ∨ q = 43 ∨ q = 44 ∨ q = 45 := by omega
  rcases hcases with rfl | rfl | rfl | rfl
  · refine ⟨by decide, fun _ s => ?_⟩
    obtain ⟨-, hbits, -⟩ := noteFile_holds
    have hfails := readHeader_fails false (by omega : 0 < 16) (by omega : 0 < 16)
      (by omega : 10 < 11 ∧ 11 < 16) s
    exact hfails.bind _ _ 0 (holds_behind.mpr hbits)
  · exact ⟨by decide, fun h => absurd h (by decide)⟩
  · exact ⟨by decide, fun h => absurd h (by decide)⟩
  · exact ⟨by decide, fun h => absurd h (by decide)⟩

theorem noteFrame_lpc : (Body.lpc { coeffPrec := 3, qlevel := 0, coeffs := [2, -1] } {
    warm := [9, 11], rest := [14, 18]
    residual := { methodType := 0, riceOrder := 0, chunks := [⟨.rice 0, [1, 1]⟩] } }).WellFormed
      16 16 16 := by
  refine ⟨⟨by decide, by decide, by decide, by decide⟩, rfl, ⟨⟨by decide, by decide, rfl, by decide,
    ⟨rfl, trivial⟩, ?_⟩, by decide, by decide⟩, .inr ?_⟩
  · simp [Chunk.Fits, zigzag, paramBits]
  · intro pre x post hrest
    rcases pre with _ | ⟨y, _ | ⟨z, pre⟩⟩
    · decide
    · obtain ⟨rfl, -⟩ : 14 = y ∧ _ := by simpa using hrest
      decide
    · simp at hrest

theorem noteFrame_fixed : (Body.fixed {
    warm := [2], rest := [4, 5, 8]
    residual := {
      methodType := 0, riceOrder := 1, chunks := [⟨.raw 4, [2]⟩, ⟨.rice 1, [1, 3]⟩] } }).WellFormed
      16 16 17 := by
  refine ⟨by decide, ⟨by decide, by decide, rfl, by decide, ⟨rfl, rfl, trivial⟩, ?_⟩, by decide,
    by decide⟩
  simp [Chunk.Fits, zigzag, paramBits, Signed]

theorem noteFrame_wellFormed {s : FLACContext} (hs : s.SetUp noteInfo) :
    noteFrame.WellFormed 16 s := by
  have hbps : s.bps = 16 := hs.bps
  have hchannels : s.channels = 2 := hs.channels
  have hblock : s.maxBlocksize = 16 := hs.maxBlocksize
  obtain ⟨-, -, -, hpad, -⟩ := noteFile_holds
  refine ⟨⟨by decide, by decide, by decide, by decide, by decide, by decide, by decide⟩,
    by rw [hchannels]; rfl, by rw [hbps]; decide, by rw [hblock]; decide, rfl, by decide, ?_,
    by rw [hbps]; exact hpad, rfl⟩
  intro k sub hsub
  rw [hbps]
  rcases k with _ | _ | k
  · obtain rfl : _ = sub := by simpa [noteFrame] using hsub
    exact ⟨by decide, by decide, noteFrame_lpc⟩
  · obtain rfl : _ = sub := by simpa [noteFrame] using hsub
    exact ⟨by decide, by decide, noteFrame_fixed⟩
  · simp [noteFrame] at hsub

/-- The frame stands behind what is none. -/
theorem noteFile_placed {s : FLACContext} (hs : s.SetUp noteInfo) :
    Placed 16 s noteFile 42 [⟨46, noteFrame, noteSound⟩] 71 := by
  have hbps : s.bps = 16 := hs.bps
  obtain ⟨-, -, hframe, -, hsize, -⟩ := noteFile_holds
  refine ⟨by decide, noteFile_gap, ?_, noteFrame_wellFormed hs, ⟨rfl, by decide⟩, ?_, ?_⟩
  · rw [hbps]
    exact hframe
  · rw [hbps]
    decide
  · simp only [Placed, hbps, hsize]

theorem file_played_note :
    ∃ s, ReflTransGen (Call 16 noteFile 200) { s := .zero, pos := 0, out := [] }
      { s, pos := 71, out := [10, 8, 13, 9, 17, 12, 22, 14] } := by
  have hs := streaminfoAt_setUp noteInfo_wellFormed .zero noteFile_info
  obtain ⟨-, -, -, -, -, hroom, -⟩ := noteFile_holds
  exact file_played noteInfo_wellFormed (by decide) noteFile_header (noteFile_placed hs) hroom

/-- The same with the sizes from the container, and frames only. -/
theorem frames_played {fuel : Nat} {extradata inbuf : Mem} {extradataSize k inlen pos stop : Nat}
    {i : Streaminfo} {segs : List Segment} (hwf : i.WellFormed) (hchannels : i.channels ≤ 2)
    (hstart : streaminfoStart extradata extradataSize = some k)
    (hinfo : Holds extradata (8 * k) i.bits)
    (hplaced : Placed fuel (audioDecInit extradata extradataSize).2 inbuf pos segs stop)
    (hroom : stop + maxFramesize (audioDecInit extradata extradataSize).2 ≤ inlen) :
    (audioDecInit extradata extradataSize).1 = 0 ∧
      ∃ s, ReflTransGen (Call fuel inbuf inlen)
        { s := (audioDecInit extradata extradataSize).2, pos, out := [] }
        { s, pos := stop, out := segs.flatMap fun seg => seg.pcm.words i.bps } := by
  obtain ⟨hret, hsetUp⟩ := audioDecInit_setUp hwf hstart hinfo
  obtain ⟨s', -, -, hrun⟩ := stream_run (usable_of_setUp hwf hsetUp hchannels) hplaced hroom []
  rw [hsetUp.bps, List.nil_append] at hrun
  exact ⟨hret, s', hrun⟩

theorem frames_played_note :
    (audioDecInit (behind noteFile 8) 34).1 = 0 ∧
      ∃ s, ReflTransGen (Call 16 noteFile 200)
        { s := (audioDecInit (behind noteFile 8) 34).2, pos := 42, out := [] }
        { s, pos := 71, out := [10, 8, 13, 9, 17, 12, 22, 14] } := by
  have hstart : streaminfoStart (behind noteFile 8) 34 = some 0 := by decide
  have hinfo : Holds (behind noteFile 8) (8 * 0) noteInfo.bits := noteFile_info
  have hs := (audioDecInit_setUp noteInfo_wellFormed hstart hinfo).2
  obtain ⟨-, -, -, -, -, -, hroom⟩ := noteFile_holds
  exact frames_played noteInfo_wellFormed (by decide) hstart hinfo (noteFile_placed hs) hroom

end Streambox.Flac
