import Mathlib.Logic.Basic
import Streambox.Aac.Wrapper

/-! libfaad: where the wrapper begins to decode.

    The two searches return their limit when they find nothing, and the limits are not the same:
    one byte before the end for ADTS, two for LATM. A sync word is as long as what the search looks
    at, so it is the first thing in its suffix. -/

namespace Streambox.Aac

/-! ### What the searches find -/

theorem seek_spec (found : Nat → Bool) (turns i : Nat) :
    i ≤ seek found turns i ∧ seek found turns i ≤ i + turns ∧
      (∀ j, i ≤ j → j < seek found turns i → found j = false) ∧
      (seek found turns i < i + turns → found (seek found turns i) = true) := by
  induction turns generalizing i with
  | zero => exact ⟨Nat.le_refl i, Nat.le_refl i, fun j hi hj => by rw [seek] at hj; omega,
      fun h => absurd h (Nat.lt_irrefl i)⟩
  | succ turns ih =>
    rw [seek]
    split
    · next h => exact ⟨Nat.le_refl i, by omega, fun j hi hj => by omega, fun _ => h⟩
    · next h =>
      obtain ⟨hle, hlast, hbefore, hfound⟩ := ih (i + 1)
      refine ⟨by omega, by omega, fun j hi hj => ?_, fun hlt => hfound (by omega)⟩
      rcases Nat.eq_or_lt_of_le hi with rfl | hlater
      · exact Bool.eq_false_iff.mpr h
      · exact hbefore j hlater hj

/-- The two formats. -/
inductive Header where
  | adts
  | latm
  deriving DecidableEq, Repr

/-- The sync word of a format. -/
def Header.syncAt : Header → Bytes → Nat → Bool
  | .adts => adtsAt
  | .latm => latmAt

/-- How many bytes it has. -/
def Header.span : Header → Nat
  | .adts => 2
  | .latm => 3

def Header.find : Header → Bytes → Int → Nat
  | .adts => aacFindADTSSyncWord
  | .latm => aacFindLATMSyncWord

/-- The offset of the first sync word. -/
def Header.firstSync (header : Header) (x : Bytes) : Option Nat :=
  (List.range (x.length - (header.span - 1))).find? (header.syncAt x)

theorem Header.find_eq (header : Header) (x : Bytes) :
    header.find x x.length = seek (header.syncAt x) (x.length - (header.span - 1)) 0 := by
  cases header with
  | adts =>
    have hturns : ((x.length : Int) - 1).toNat = x.length - 1 := by omega
    rw [Header.find, aacFindADTSSyncWord, hturns]
    rfl
  | latm =>
    have hturns : ((x.length : Int) - 2).toNat = x.length - 2 := by omega
    rw [Header.find, aacFindLATMSyncWord, hturns]
    rfl

theorem Header.span_pos (header : Header) : 0 < header.span := by
  cases header with
  | adts => decide
  | latm => decide

section find_
variable {header : Header} {x : Bytes}

/-- A search that finds a sync word finds the first one. -/
theorem find_of_some {o : Nat} (h : header.firstSync x = some o) :
    header.find x x.length = o ∧ o + header.span ≤ x.length ∧ header.syncAt x o = true := by
  obtain ⟨hsync, hmem, hbefore⟩ := List.find?_range_eq_some.mp h
  have hlt := List.mem_range.mp hmem
  obtain ⟨-, hle, hnone, hfound⟩ := seek_spec (header.syncAt x) (x.length - (header.span - 1)) 0
  rw [Header.find_eq]
  have hspan := header.span_pos
  refine ⟨?_, by omega, hsync⟩
  rcases Nat.lt_trichotomy (seek (header.syncAt x) (x.length - (header.span - 1)) 0) o with
    hless | heq | hmore
  · have hthere := hbefore _ hless
    rw [hfound (by omega)] at hthere
    cases hthere
  · exact heq
  · rw [hnone o (Nat.zero_le o) hmore] at hsync
    cases hsync

/-- One that finds none returns its limit. -/
theorem find_of_none (h : header.firstSync x = none) :
    header.find x x.length = x.length - (header.span - 1) := by
  have hnone := List.find?_range_eq_none.mp h
  obtain ⟨-, hle, -, hfound⟩ := seek_spec (header.syncAt x) (x.length - (header.span - 1)) 0
  rw [Header.find_eq]
  by_contra hne
  have hlt : seek (header.syncAt x) (x.length - (header.span - 1)) 0 <
      x.length - (header.span - 1) := by omega
  have hthere := hnone _ hlt
  rw [hfound (by omega)] at hthere
  cases hthere

/-- The search stays in the data. -/
theorem find_le : header.find x x.length ≤ x.length := by
  obtain ⟨-, hle, -, -⟩ := seek_spec (header.syncAt x) (x.length - (header.span - 1)) 0
  rw [Header.find_eq]
  omega

/-- What looks like a sync word there looks like one in a list that begins with the same bytes. -/
theorem syncAt_congr {y : Bytes} {i j : Nat}
    (h : ∀ k < header.span, x.getD (i + k) 0 = y.getD (j + k) 0) :
    header.syncAt x i = header.syncAt y j := by
  cases header with
  | adts =>
    have hfirst := h 0 (by decide)
    have hsecond := h 1 (by decide)
    rw [Nat.add_zero, Nat.add_zero] at hfirst
    simp only [Header.syncAt, adtsAt, hfirst, hsecond]
  | latm =>
    have hfirst := h 0 (by decide)
    have hsecond := h 1 (by decide)
    have hthird := h 2 (by decide)
    have hsize : latmFrameSize x i = latmFrameSize y j := by
      rw [latmFrameSize, latmFrameSize, hsecond, hthird]
    rw [Nat.add_zero, Nat.add_zero] at hfirst
    simp only [Header.syncAt, latmAt, hfirst, hsecond, hsize]

/-- As many bytes from the front are those behind the first sync word only if it is the front. -/
theorem front_eq_suffix_iff {o : Nat} (h : header.firstSync x = some o) :
    x.take (x.length - o) = x.drop o ↔ o = 0 := by
  constructor
  · intro heq
    obtain ⟨-, hle, hsync⟩ := find_of_some h
    obtain ⟨-, -, hbefore⟩ := List.find?_range_eq_some.mp h
    have hspan := header.span_pos
    have hfront : header.syncAt x 0 = header.syncAt x o := by
      refine syncAt_congr fun k hk => ?_
      have hbyte := congrArg (fun l => l.getD k 0) heq
      simp only [List.getD_eq_getElem?_getD, List.getElem?_drop,
        List.getElem?_take_of_lt (by omega : k < x.length - o)] at hbyte
      simpa [List.getD_eq_getElem?_getD] using hbyte
    by_contra hne
    have hthere := hbefore 0 (by omega)
    rw [hfront, hsync] at hthere
    cases hthere
  · rintro rfl
    simp

end find_

/-! ### What a call should do -/

/-- What `audio_decoder_init` says that it has detected. -/
def Header.detected : Header → Bytes → Bool
  | .adts => adtsheaderDetected
  | .latm => latmheaderDetected

section call_
variable {σ : Type} (lib : Library σ)

/-- A decoder for one of the formats. -/
def Header.Present (header : Header) (h : σ) : Prop :=
  lib.adtsHeaderPresent h = decide (header = .adts) ∧
    lib.latmHeaderPresent h = decide (header = .latm)

/-- No error, and no rule that skips bytes. -/
def Plain (result : σ × FrameInfo × Option (List Int)) : Prop :=
  result.2.1.error = 0 ∧ (lib.latmHeaderPresent result.1 = true → (sampleBuffer result).isSome)

/-- The call decodes from the first sync word on and returns what it has used, and bytes without a
    sync word are not taken for the format. -/
structure FromSync (header : Header) (h : σ) (x : Bytes) (call : Call σ) : Prop where
  passed : ∀ o, header.firstSync x = some o → call.given = some (x.drop o)
  returned : 0 ≤ call.returned ∧ call.returned ≤ x.length
  used : ∀ o given, header.firstSync x = some o → call.given = some given →
    Plain lib (lib.decode h given) →
    call.returned = o + (lib.decode h given).2.1.bytesconsumed
  undetected : header.firstSync x = none → header.detected x = false

variable {lib}

theorem finish_returned (ctx : Context σ) (given : Option Bytes) (out : List Int) (inlen : Nat)
    (decBufsize : Int) :
    (finish lib ctx given out inlen decBufsize).returned = inlen - max decBufsize 0 := rfl

/-- The frame goes to the library from the front of the buffer. -/
theorem decodeFrame_given (ctx : Context σ) (h : σ) (outmaxlen inlen : Nat) (decBuf : Bytes)
    (decBufsize : Int) :
    (decodeFrame lib ctx h outmaxlen inlen decBuf decBufsize).given =
      some (decBuf.take (seekBufsize lib h decBuf decBufsize).toNat) := by
  rw [decodeFrame]
  dsimp only
  split
  · split
    · rfl
    · split
      · rfl
      · rfl
  · rfl

/-- What a call returns: everything but what is left behind the frame, or less of that. -/
theorem decodeFrame_returned (ctx : Context σ) (h : σ) (outmaxlen inlen : Nat) (decBuf : Bytes)
    (decBufsize : Int) :
    ∃ skip : Nat, (decodeFrame lib ctx h outmaxlen inlen decBuf decBufsize).returned =
        inlen - max (seekBufsize lib h decBuf decBufsize - (lib.decode h (decBuf.take
          (seekBufsize lib h decBuf decBufsize).toNat)).2.1.bytesconsumed - skip) 0 ∧
      (Plain lib (lib.decode h (decBuf.take (seekBufsize lib h decBuf decBufsize).toNat)) →
        skip = 0) := by
  rw [decodeFrame]
  dsimp only
  split
  · next herror =>
    split
    · next hnone =>
      split
      · next hlatm =>
        refine ⟨3, rfl, fun hplain => ?_⟩
        have hsome := hplain.2 hlatm
        rw [hnone] at hsome
        cases hsome
      · exact ⟨0, by rw [finish_returned]; simp, fun _ => rfl⟩
    · split
      · exact ⟨0, by rw [finish_returned]; simp, fun _ => rfl⟩
      · exact ⟨0, by rw [finish_returned]; simp, fun _ => rfl⟩
  · next herror => exact ⟨_, rfl, fun hplain => absurd hplain.1 herror⟩

/-- The length that is left in front of the library. -/
theorem seekBufsize_eq {header : Header} {h : σ} (hheader : header.Present lib h) (x : Bytes) :
    seekBufsize lib h x x.length = x.length - header.find x x.length := by
  obtain ⟨hadts, hlatm⟩ := hheader
  rw [seekBufsize, hadts, hlatm]
  cases header with
  | adts => rfl
  | latm => rfl

/-- A search that finds nothing is not taken for one that does, but for a search for LATM. -/
theorem undetected_iff {header : Header} {x : Bytes} (hx : x ≠ [])
    (h : header.firstSync x = none) :
    header.detected x = false ↔ (header = .latm → x.length = 1) := by
  have hpos := List.length_pos_iff.mpr hx
  have hfind := find_of_none h
  cases header with
  | adts =>
    have hfind : aacFindADTSSyncWord x x.length = x.length - 1 := hfind
    refine iff_of_true ?_ fun hlatm => by cases hlatm
    rw [Header.detected, adtsheaderDetected, hfind]
    exact decide_eq_false (not_not_intro (by omega))
  | latm =>
    have hfind : aacFindLATMSyncWord x x.length = x.length - 2 := hfind
    rw [Header.detected, latmheaderDetected, hfind, decide_eq_false_iff_not, not_not]
    exact ⟨fun hlen _ => by omega, fun hlen => by have := hlen rfl; omega⟩

/-- A call on an open decoder: what the library gets, and what the call returns. -/
theorem call_open {ctx : Context σ} {h : σ} {header : Header} (hopen : ctx.hDecoder = some h)
    (hinit : ctx.initFlag = true) (hheader : header.Present lib h) {x : Bytes} (hx : x ≠ [])
    (fuel outmaxlen : Nat) :
    ∃ call, audioDecDecode lib fuel ctx outmaxlen x = some call ∧
      call.given = some (x.take (x.length - header.find x x.length)) ∧
      ∃ skip : Nat, call.returned = x.length - max ((x.length : Int) - header.find x x.length -
          (lib.decode h (x.take (x.length - header.find x x.length))).2.1.bytesconsumed - skip) 0 ∧
        (Plain lib (lib.decode h (x.take (x.length - header.find x x.length))) → skip = 0) := by
  have hle : header.find x x.length ≤ x.length := find_le
  have hseek := seekBufsize_eq hheader x
  have hsize : (seekBufsize lib h x x.length).toNat = x.length - header.find x x.length := by
    rw [hseek]
    omega
  refine ⟨decodeFrame lib { ctx with initStartFlag := true } h outmaxlen x.length x x.length,
    ?_, ?_, ?_⟩
  · rw [audioDecDecode, if_neg hx]
    dsimp only
    rw [if_pos hinit, hopen, Option.map_some]
  · rw [decodeFrame_given, hsize]
  · rw [← hsize, ← hseek]
    exact decodeFrame_returned ..

/-- A call on an open decoder decodes from the sync word on exactly when the input begins with it;
    and bytes without one are not taken for LATM only if there is a single one. -/
theorem fromSync_iff_at_front (hconsumed : ∀ h given,
      (lib.decode h given).2.1.bytesconsumed ≤ given.length)
    {ctx : Context σ} {h : σ} {header : Header} (hopen : ctx.hDecoder = some h)
    (hinit : ctx.initFlag = true) (hheader : header.Present lib h) {x : Bytes} (hx : x ≠ [])
    (fuel outmaxlen : Nat) :
    (∃ call, audioDecDecode lib fuel ctx outmaxlen x = some call ∧
      FromSync lib header h x call) ↔
      (∀ o, header.firstSync x = some o → o = 0) ∧
        (header.firstSync x = none → header = .latm → x.length = 1) := by
  have hle : header.find x x.length ≤ x.length := find_le
  obtain ⟨call, hcall, hgiven, skip, hreturned, hskip⟩ :=
    call_open hopen hinit hheader hx fuel outmaxlen
  constructor
  · rintro ⟨call', hcall', hright⟩
    rw [hcall] at hcall'
    cases hcall'
    refine ⟨fun o ho => ?_, fun hnone => ?_⟩
    · have hpassed := hright.passed o ho
      rw [hgiven, (find_of_some ho).1, Option.some_inj] at hpassed
      exact (front_eq_suffix_iff ho).mp hpassed
    · exact (undetected_iff hx hnone).mp (hright.undetected hnone)
  · rintro ⟨hfront, hsingle⟩
    refine ⟨call, hcall, ?_, ?_, ?_, ?_⟩
    · intro o ho
      rw [hgiven, (find_of_some ho).1, (front_eq_suffix_iff ho).mpr (hfront o ho)]
    · rw [hreturned]
      omega
    · intro o given ho hsame hplain
      rw [hgiven, Option.some_inj] at hsame
      subst hsame
      have hbytes := hconsumed h (x.take (x.length - header.find x x.length))
      rw [List.length_take] at hbytes
      have hoffset := (find_of_some ho).1
      rw [hreturned, hskip hplain]
      omega
    · intro hnone
      exact (undetected_iff hx hnone).mpr (hsingle hnone)

end call_

/-! ### Two inputs -/

/-- A library that decodes all that it gets, to one sample. -/
def greedy (header : Header) : Library Unit where
  adtsHeaderPresent _ := header = .adts
  latmHeaderPresent _ := header = .latm
  sbrPresentFlag _ := false
  init _ _ := .error 0
  decode _ given := ((), ⟨given.length, 1, 2, 0, 48000⟩, some [0])

/-- A context with an open decoder. -/
def opened : Context Unit where
  hDecoder := some ()
  initFlag := true
  initStartFlag := true
  gSampleRate := 48000
  gChannels := 2
  decodedNbFrames := 0
  errorCount := 0
  errorNum := 0
  frameLengthHis := List.replicate 40 0
  mutedSamples := 0
  mutedCount := 0
  initCost := 0
  filterHeaac := false
  isDetectFormatDisable := false
  successCount := 0
  nAudioDecoderType := .aac

theorem greedy_at_front : (∃ call, audioDecDecode (greedy .adts) 0 opened 0 [0xff, 0xf1, 0x50] =
      some call ∧ FromSync (greedy .adts) .adts () [0xff, 0xf1, 0x50] call) ↔
    (∀ o, Header.adts.firstSync [0xff, 0xf1, 0x50] = some o → o = 0) ∧
      (Header.adts.firstSync [0xff, 0xf1, 0x50] = none → Header.adts = .latm →
        [0xff, 0xf1, 0x50].length = 1) :=
  fromSync_iff_at_front (fun _ _ => Nat.le_refl _) rfl rfl ⟨rfl, rfl⟩ (by decide) 0 0

/-- One byte in front of the sync word: the library gets that one, and not the last byte. -/
theorem garbage_given : (audioDecDecode (greedy .adts) 0 opened 0 [0, 0xff, 0xf1, 0x50]).map
    (fun call => (call.given, call.returned)) = some (some [0, 0xff, 0xf1], 4) := by
  decide

/-- It is not decoded from its sync word on; and three zeros are taken for LATM. -/
theorem garbage_not_fromSync :
    (¬ ∃ call, audioDecDecode (greedy .adts) 0 opened 0 [0, 0xff, 0xf1, 0x50] = some call ∧
      FromSync (greedy .adts) .adts () [0, 0xff, 0xf1, 0x50] call) ∧
      Header.latm.firstSync [0, 0, 0] = none ∧ latmheaderDetected [0, 0, 0] = true := by
  refine ⟨?_, by decide, by decide⟩
  rintro ⟨call, hcall, hright⟩
  have hgiven := garbage_given
  rw [hcall, Option.map_some, Option.some_inj, Prod.mk.injEq] at hgiven
  have hpassed := hright.passed 1 (by decide)
  rw [hgiven.1] at hpassed
  exact absurd hpassed (by decide)

end Streambox.Aac
