import Mathlib.Algebra.Order.Ring.Int
import Streambox.Adpcm.ImaBlock
import Streambox.Adpcm.Provenance

/-! libadpcm: what a call touches.

    Four sizes meet in a call: that of a block, which the container or a sync word gives, the length
    in a header "APTS", and the constants of the two buffers. `refill` copies as much as the stream
    says; a block decoder reads as much as it was told to, whatever `refill` has copied.

        stream   header length ── refill ──> wave buffer (2048 bytes, the first ones fresh)
        driver   block_align   ── decode ──> sample buffer (4096 shorts)

    `InBounds` follows the calls and looks at every index. `Fits` is about the input and the state
    before the call alone. -/

namespace Streambox.Adpcm
open Streambox.Lib

/-! ### What is touched -/

/-- What a driver touches after `refill`: bytes of the wave buffer, samples, entries of the step
    table, of the coefficient tables and of the two step indices, the entries of `idelta` that it
    reads before they are set, and how many samples it copies out. -/
structure Touched where
  read : List Nat
  written : List Nat
  looked : List Int
  coeffs : List Nat
  opened : List Nat
  unset : List Nat
  copied : Int

/-- Only bytes that `refill` has copied are read, and only samples below a limit are written; the
    tables and the sample buffer are not left, and nothing is read that has no value. -/
structure Touched.Within (t : Touched) (refilled : Nat) (limit : Int) : Prop where
  read : ∀ i ∈ t.read, i < refilled
  written : ∀ p ∈ t.written, (p : Int) < limit ∧ p < pcmBufSize
  looked : ∀ x ∈ t.looked, 0 ≤ x ∧ x < 89
  coeffs : ∀ i ∈ t.coeffs, i < 7
  opened : ∀ c ∈ t.opened, c < 2
  unset : t.unset = []
  copied : 0 ≤ t.copied ∧ t.copied ≤ pcmBufSize

/-- The loop of a driver that makes one sample of a byte. -/
def bytewise (count : Nat) (copied : Int) : Touched :=
  ⟨List.range count, List.range count, [], [], [], [], copied⟩

/-- The variables that `adpcmdec_decode_ima_block` leaves, and the samples that are copied out. -/
def imaTouched (block : ImaBlock.Loop) (samples : Int) : Touched :=
  ⟨block.read, block.written, block.looked, [], block.opened, [], samples⟩

/-- `ms_adpcm_decode_block`: the header and the bytes after it, a coefficient for each pass, and the
    samples. With another number of channels there is no header, and the first pass takes a byte and
    then `idelta[0]`, which nothing has set: the code is undefined from there on. -/
def msTouched (channel : Nat) (buf : Bytes) (block : Nat) : Touched :=
  if channel = 1 ∨ channel = 2 then
    { read := List.range (7 * channel) ++ List.range' (7 * channel) (block - 7 * channel)
      written := List.range (2 * (block - 7 * channel) - 1 + 2 * channel)
      looked := []
      coeffs := (List.range (2 * (block - 7 * channel) - 1)).map fun pass =>
        byteAt buf (pass % channel)
      opened := []
      unset := []
      copied := msSampleCount channel block }
  else ⟨[0], [], [], [], [], [0], 0⟩

/-- The samples that the IMA driver counts with. -/
def imaCount (channels blockAlign : Nat) : Int :=
  ((blockAlign : Int) - 4 * channels) * 2 + channels

/-- `adpcmdec_decode_ima_block` returns, and it and the copy after it stay inside. -/
def ImaStays (channels blockAlign : Nat) (data : Bytes) (pcm : Nat → Int) (refilled : Nat) : Prop :=
  ∃ block accepted,
    ImaBlock.decodeImaBlock channels (imaCount channels blockAlign) data pcm =
      some (block, accepted) ∧
    (imaTouched block (imaCount channels blockAlign)).Within refilled (imaCount channels blockAlign)

/-- The end of a call after `refill`, whose result is the state, or `none` for what leaves the wave
    buffer. `refilled` is the number of bytes that it has copied. -/
def drives (codec : Codec) (bps : SampleFmt) (blockSize refilled : Nat) :
    Option (Decoder × Reader × Refill) → Prop
  | none => False
  | some (s, _, result) =>
    match codec, result with
    | .pcmAlaw, .filled tmp => (bytewise tmp waveBlockSize).Within refilled pcmBufSize
    | .pcmMulaw, .filled tmp => (bytewise tmp waveBlockSize).Within refilled pcmBufSize
    | .adpcmImaWav, .filled _ =>
      ImaStays s.ch s.blockAlign s.waveBuf (s.pcmBuf.getD · 0) refilled
    -- the test for a negative count never holds, so a block that is missing is decoded as well
    | .adpcmMs, _ => (msTouched s.ch s.waveBuf blockSize).Within refilled pcmBufSize
    | .pcm, .filled tmp =>
      bps = .u8 → (bytewise ((tmp + 3) / 4 * 4) 0).Within refilled pcmBufSize
    | _, .missing => True

/-- A call stays inside the buffers and tables. -/
def InBounds (codec : Codec) (s : Decoder) (x : Bytes) : Prop :=
  if codec = .adpcmImaWav ∨ codec = .adpcmMs then
    ∀ n d used, blockHeader s ⟨x, 0⟩ = .ok (n, ⟨d, used⟩) → 4 ≤ n →
      drives codec s.bps n (payloadIn codec s n d).length (refill codec s ⟨d, used⟩ n)
  else
    drives codec s.bps waveBlockSize (payloadIn codec s waveBlockSize x).length
      (refill codec s ⟨x, 0⟩ waveBlockSize)

/-! ### What fits -/

/-- What `refill` copies has room in the wave buffer. -/
def Room (codec : Codec) (s : Decoder) (n : Nat) (d : Bytes) : Prop :=
  (payloadIn codec s n d).length ≤ waveBlockSize ∧
    (s.waveTimestamplen ≠ 0 → s.refillTimestampLen < 2147483648)

/-- There is less data than `refill` says that it has copied: a length from an earlier header, or
    one of zero, is not checked. -/
def Short (s : Decoder) (n : Nat) (d : Bytes) : Prop :=
  if s.waveTimestamplen ≠ 0 then d.length < s.refillTimestampLen
  else d.take 4 = tagApts ∧ 12 ≤ d.length ∧ aptsLength d = 0 ∧ d.length - 12 < n

/-- The header of a block is cut, and `refill` says so. -/
def HeaderCut (s : Decoder) (n : Nat) (d : Bytes) : Prop :=
  s.waveTimestamplen = 0 ∧ (AptsShort d ∨ AptsCut d ∨ RiffShort n d ∨ RiffCut n d)

/-- The payload of an IMA block has what the driver reads of it: nothing if `block_align` is no
    number of words, the headers up to one without its zero, or the whole block, if that ends with
    a group. -/
structure ImaFits (channels blockAlign : Nat) (p : Bytes) : Prop where
  copied : 0 ≤ imaCount channels blockAlign ∧ imaCount channels blockAlign ≤ pcmBufSize
  error : ∀ c, 4 ∣ blockAlign → imaSyncError channels p = some c →
    c < 2 ∧ 4 * (c + 1) ≤ p.length ∧ (c : Int) < imaCount channels blockAlign
  whole : 4 ∣ blockAlign → imaSyncError channels p = none →
    channels ≤ 2 ∧ 4 * channels ∣ blockAlign ∧ blockAlign ≤ p.length

/-- The payload of an MS block has a header and all bytes of the block, with predictors from the
    tables for the channels that get a nibble. -/
structure MsFits (channels n : Nat) (p : Bytes) : Prop where
  count : channels = 1 ∨ channels = 2
  header : 7 * channels ≤ p.length
  body : n ≤ p.length
  first : 7 * channels < n → byteAt p 0 < 7
  second : channels = 2 → 7 * channels + 1 < n → byteAt p 1 < 7

/-- A call whose input has room in the buffers. -/
def Fits (codec : Codec) (s : Decoder) (x : Bytes) : Prop :=
  match codec with
  | .pcmAlaw | .pcmMulaw => Room codec s waveBlockSize x ∧ ¬ Short s waveBlockSize x
  | .adpcmImaWav => ∀ n d, BlockAt s x n d → 4 ≤ n → Room codec s n d ∧
      (¬ HeaderCut s n d → ImaFits s.ch s.blockAlign (payloadIn codec s n d))
  | .adpcmMs => ∀ n d, BlockAt s x n d → 4 ≤ n → Room codec s n d ∧
      MsFits s.ch n (payloadIn codec s n d)
  | .pcm => Room codec s waveBlockSize x ∧
      (s.bps = .u8 → ¬ Short s waveBlockSize x ∧ 4 ∣ (payloadIn codec s waveBlockSize x).length)

/-! ### refill -/

theorem store_isSome {s : Decoder} {offset : Nat} {bytes : Bytes} :
    (s.store offset bytes).isSome ↔ offset + bytes.length ≤ waveBlockSize := by
  rw [Decoder.store]
  split
  · next h => exact iff_of_true rfl h
  · next h => exact iff_of_false Bool.false_ne_true h

/-- The copy of `refill` behind a header. -/
theorem refillCopy_isSome {s : Decoder} {d : Bytes} {used offset len lenBak : Nat} :
    (refillCopy s ⟨d, used⟩ offset len lenBak).isSome ↔
      offset + (whole (if s.waveTimestamplen ≠ 0 then s.refillTimestampLen else len) d).length ≤
          waveBlockSize ∧
        (s.waveTimestamplen ≠ 0 → s.refillTimestampLen < 2147483648) := by
  rw [refillCopy]
  by_cases hmark : s.waveTimestamplen ≠ 0
  · rw [if_pos hmark, if_pos hmark]
    split
    · next hint =>
      rw [Option.isSome_map, store_isSome, (read_eq_whole ..).1]
      exact ⟨fun h => ⟨h, fun _ => hint⟩, And.left⟩
    · next hint => exact iff_of_false Bool.false_ne_true fun h => hint (h.2 hmark)
  · rw [if_neg hmark, if_neg hmark, Option.isSome_map, store_isSome, (read_eq_whole ..).1]
    exact ⟨fun h => ⟨h, fun h' => absurd h' hmark⟩, And.left⟩

/-- A block whose first four bytes are no tag. -/
theorem refillRaw_isSome {s : Decoder} {d : Bytes} {used n : Nat} {mark : Decoder → Decoder}
    (hd : 4 ≤ d.length) (hn : 4 ≤ n)
    (hmark : ∀ buf, (mark { s with waveBuf := buf }).waveTimestamplen = 0) :
    (refillRaw s ⟨d.drop 4, used⟩ (d.take 4) n mark).isSome ↔
      (whole n d).length ≤ waveBlockSize := by
  have htag : (d.take 4).length = 4 := by rw [List.length_take]; omega
  obtain ⟨s', hs'⟩ : ∃ s', s.store 0 (d.take 4) = some s' :=
    Option.isSome_iff_exists.mp (store_isSome.mpr (by rw [htag]; decide))
  rw [refillRaw]
  simp only [hs']
  split
  · next hvalid =>
    rw [Reader.valid, List.length_drop] at hvalid
    rw [whole_of_lt (by omega)]
    exact iff_of_true rfl (Nat.zero_le _)
  · next hvalid =>
    rw [Reader.valid, List.length_drop] at hvalid
    have hzero : ¬ (mark s').waveTimestamplen ≠ 0 := by
      rw [store_keeps hs']
      exact not_not_intro (hmark _)
    rw [refillCopy_isSome, if_neg hzero, whole_of_le (by rw [List.length_drop]; omega),
      whole_of_le (by omega), List.length_take, List.length_take, List.length_drop]
    constructor
    · rintro ⟨h, -⟩
      omega
    · intro h
      exact ⟨by omega, fun h' => absurd h' hzero⟩

/-- `refill` stays in the wave buffer exactly when what it copies has room. -/
theorem refill_isSome {codec : Codec} {s : Decoder} {d : Bytes} {used n : Nat} (hn : 4 ≤ n) :
    (refill codec s ⟨d, used⟩ n).isSome ↔ Room codec s n d := by
  rw [Room, payloadIn]
  by_cases hmark : s.waveTimestamplen ≠ 0
  · rw [refill, if_pos hmark, if_pos hmark, refillCopy_isSome, if_pos hmark, Nat.zero_add]
  · have hzero : s.waveTimestamplen = 0 := by omega
    have hnever : (s.waveTimestamplen ≠ 0 → s.refillTimestampLen < 2147483648) ↔ True :=
      iff_true_intro fun h => absurd h hmark
    rw [if_neg hmark, hnever, and_true]
    by_cases hd : d.length < 4
    · rw [refill, if_neg hmark, if_pos (by simpa [Reader.valid] using hd),
        if_neg fun h => by have := tag_length h rfl; omega,
        if_neg fun h => by have := tag_length h.1 rfl; omega, whole_of_lt (by omega)]
      exact iff_of_true rfl (Nat.zero_le _)
    · rw [refill_tag hzero (by omega)]
      by_cases hapts : d.take 4 = tagApts
      · rw [if_pos hapts, if_pos hapts, refillApts_eq (by omega)]
        by_cases hshort : d.length < 12
        · rw [if_pos hshort, if_neg fun h => by omega]
          exact iff_of_true rfl (Nat.zero_le _)
        · rw [if_neg hshort]
          by_cases hcut : d.length - 12 < aptsLength d
          · rw [if_pos hcut, if_neg fun h => by omega]
            exact iff_of_true rfl (Nat.zero_le _)
          · rw [if_neg hcut, if_pos ⟨by omega, by omega⟩, refillCopy_isSome, Nat.zero_add]
            refine and_iff_left_of_imp fun hroom hlength => ?_
            -- a length that is there and has room is no negative int
            have hlength : aptsLength d ≠ 0 := hlength
            have hroom : (whole (if aptsLength d ≠ 0 then aptsLength d else n)
                (d.drop 12)).length ≤ 2048 := hroom
            rw [if_pos hlength, whole_of_le (by rw [List.length_drop]; omega), List.length_take,
              List.length_drop] at hroom
            have hsmall : aptsLength d < 2147483648 := by omega
            exact hsmall
      · rw [if_neg hapts, if_neg hapts]
        by_cases hriff : d.take 4 = tagRiff
        · rw [if_pos hriff]
          by_cases hblock : codec = .adpcmImaWav ∨ codec = .adpcmMs
          · rw [if_pos hblock, if_pos ⟨hriff, hblock⟩, refillRiff]
            cases hsearch : riffSearch n (d.drop 4) with
            | none =>
              simp only
              exact iff_of_true rfl (Nat.zero_le _)
            | some data =>
              simp only
              split
              · next hcut =>
                rw [read_length _ _ hn] at hcut
                rw [whole_of_lt (by rw [List.length_drop]; omega)]
                exact iff_of_true rfl (Nat.zero_le _)
              · next hcut =>
                rw [read_length _ _ hn] at hcut
                rw [Reader.read_of_le (by simp only [Reader.valid]; omega), refillCopy_isSome,
                  Nat.zero_add]
                exact and_iff_left_of_imp fun _ h => absurd rfl h
          · rw [if_neg hblock, if_neg fun h => hblock h.2]
            exact refillRaw_isSome (by omega) hn fun _ => rfl
        · rw [if_neg hriff, if_neg fun h => hriff h.1]
          exact refillRaw_isSome (by omega) hn fun _ => rfl

/-- A call of `refill` that lacks data does not go on with less. -/
theorem not_short_of_missing {codec : Codec} {s s' : Decoder} {d : Bytes} {used n : Nat}
    {r' : Reader} (hn : 4 ≤ n) (h : refill codec s ⟨d, used⟩ n = some (s', r', .missing)) :
    ¬ Short s n d := by
  obtain ⟨hmark, reset, hmiss, -⟩ := refill_missing hn h
  rw [Short, if_neg (not_not_intro hmark)]
  rintro ⟨htag, hlen, hzero, -⟩
  have hriffTag : ¬ d.take 4 = tagRiff := by
    rw [htag]
    decide
  cases hmiss with
  | short hcut => omega
  | aptsShort hcut => exact absurd hcut.2 (by omega)
  | aptsCut hcut => exact absurd hcut.2.2 (by omega)
  | riffShort hcut => exact hriffTag hcut.1
  | riffCut _ hcut => exact hriffTag hcut.1
  | wav _ htag => exact hriffTag htag
  | raw _ hapts => exact hapts htag

theorem le_whole_length (size : Nat) (d : Bytes) :
    size ≤ (whole size d).length ↔ size ≤ d.length := by
  rw [whole]
  split
  · next h => exact iff_of_true (by rw [List.length_take]; omega) h
  · next h => exact iff_of_false (by rw [List.length_nil]; omega) h

/-- Without a header "APTS" `refill` goes on only with a whole block. -/
theorem refill_payload_pos {codec : Codec} {s s' : Decoder} {d : Bytes} {used n count : Nat}
    {r' : Reader} (hn : 4 ≤ n) (hmark : s.waveTimestamplen = 0) (hapts : ¬ d.take 4 = tagApts)
    (h : refill codec s ⟨d, used⟩ n = some (s', r', .filled count)) :
    0 < (payloadIn codec s n d).length := by
  have hd : 4 ≤ d.length := by
    by_contra hd
    rw [refill, if_neg (not_not_intro hmark),
      if_pos (by simp only [Reader.valid]; omega)] at h
    cases h
  rw [payloadIn, if_neg (not_not_intro hmark), if_neg hapts]
  rw [refill_tag hmark hd, if_neg hapts] at h
  have hraw : n ≤ d.length → 0 < (whole n d).length := by
    intro hlen
    rw [whole_of_le hlen, List.length_take]
    omega
  split at h
  case isTrue hriff =>
    split at h
    case isTrue hblock =>
      rw [if_pos ⟨hriff, hblock⟩]
      rw [refillRiff] at h
      cases hsearch : riffSearch n (d.drop 4) with
      | none =>
        simp only [hsearch] at h
        cases h
      | some data =>
        simp only [hsearch] at h
        split at h
        case isTrue => cases h
        case isFalse hcut =>
          rw [read_length _ _ hn] at hcut
          dsimp only
          rw [whole_of_le (by rw [List.length_drop]; omega), List.length_take, List.length_drop]
          omega
    case isFalse hblock =>
      rw [if_neg fun hb => hblock hb.2]
      exact hraw (refillRaw_filled hd hn (fun buf => rfl) h).1
  case isFalse hriff =>
    rw [if_neg fun hb => hriff hb.1]
    exact hraw (refillRaw_filled hd hn (fun buf => rfl) h).1

theorem plain_missing_payload {codec : Codec} (hcodec : ¬ (codec = .adpcmImaWav ∨ codec = .adpcmMs))
    {s s' : Decoder} {d : Bytes} {used n : Nat} {r' : Reader} (hn : 4 ≤ n)
    (h : refill codec s ⟨d, used⟩ n = some (s', r', .missing)) : payloadIn codec s n d = [] := by
  obtain ⟨hmark, -⟩ := refill_missing hn h
  rw [payloadIn, if_neg (not_not_intro hmark)]
  by_cases hd : d.length < 4
  · rw [if_neg fun htag => by have := tag_length htag rfl; omega,
      if_neg fun htag => hcodec htag.2]
    exact whole_of_lt (by omega)
  · rw [refill_tag hmark (by omega)] at h
    split at h
    case isTrue hapts =>
      rw [if_pos hapts]
      rw [refillApts_eq (by omega)] at h
      split at h
      case isTrue hshort => exact if_neg fun hlen => by omega
      case isFalse hshort =>
        split at h
        case isTrue hcut => exact if_neg fun hlen => by omega
        case isFalse => exact absurd rfl (refillCopy_filled h)
    case isFalse hapts =>
      rw [if_neg hapts, if_neg fun htag => hcodec htag.2]
      refine whole_of_lt ?_
      split at h
      · exact (refillRaw_missing (by omega) h).2.1
      · exact (refillRaw_missing (by omega) h).2.1

/-- The count that `refill` returns, and whether it has copied as much. -/
theorem refill_count {codec : Codec} {s s' : Decoder} {d : Bytes} {used n count : Nat}
    {r' : Reader} (hn : 4 ≤ n) (h : refill codec s ⟨d, used⟩ n = some (s', r', .filled count)) :
    count ≤ (payloadIn codec s n d).length ↔ ¬ Short s n d := by
  by_cases hmark : s.waveTimestamplen ≠ 0
  · rw [refill, if_pos hmark] at h
    obtain ⟨-, hcount, -⟩ := refillCopy_zero (if_pos hmark).symm h
    cases hcount
    rw [payloadIn, if_pos hmark, Short, if_pos hmark, le_whole_length]
    omega
  · have hzero : s.waveTimestamplen = 0 := by omega
    rw [Short, if_neg hmark]
    by_cases hapts : d.take 4 = tagApts
    · have hd := tag_length hapts rfl
      rw [refill_tag hzero hd, if_pos hapts, refillApts_eq hd] at h
      split at h
      case isTrue => cases h
      case isFalse hshort =>
        split at h
        case isTrue => cases h
        case isFalse hcut =>
          have hsize : (if aptsLength d ≠ 0 then aptsLength d else n) =
              if (s.stamped d).waveTimestamplen ≠ 0 then (s.stamped d).refillTimestampLen
              else n := rfl
          obtain ⟨-, hcount, -⟩ := refillCopy_zero hsize h
          cases hcount
          have hthere : 12 ≤ d.length ∧ aptsLength d ≤ d.length - 12 := ⟨by omega, by omega⟩
          rw [payloadIn, if_neg hmark, if_pos hapts, if_pos hthere, le_whole_length,
            List.length_drop]
          by_cases hlength : aptsLength d = 0
          · rw [if_neg (not_not_intro hlength)]
            refine ⟨fun hle hall => ?_, fun hall => ?_⟩
            · have hless := hall.2.2.2
              omega
            · by_contra hless
              exact hall ⟨hapts, by omega, hlength, by omega⟩
          · rw [if_pos hlength]
            exact iff_of_true (by omega) fun hall => hlength hall.2.2.1
    · refine iff_of_true ?_ fun hall => hapts hall.1
      have hpos := refill_payload_pos hn hzero hapts h
      rcases (refill_filled hn h).1.count with hnil | hcount
      · rw [hnil] at hpos
        exact absurd hpos (Nat.lt_irrefl 0)
      · exact Nat.le_of_eq hcount.symm

/-- For the block codecs, `refill` lacks data exactly when a header is cut. -/
theorem missing_iff_cut {codec : Codec} (hblock : codec = .adpcmImaWav ∨ codec = .adpcmMs)
    {s s' : Decoder} {d : Bytes} {used n : Nat} {r' : Reader} {o : Refill} (hn : 4 ≤ n)
    (hd : n ≤ d.length) (h : refill codec s ⟨d, used⟩ n = some (s', r', o)) :
    o = .missing ↔ HeaderCut s n d := by
  constructor
  · rintro rfl
    obtain ⟨hmark, reset, hmiss, -⟩ := refill_missing hn h
    refine ⟨hmark, ?_⟩
    cases hmiss with
    | short hcut => omega
    | aptsShort hcut => exact .inl hcut
    | aptsCut hcut => exact .inr (.inl hcut)
    | riffShort hcut => exact .inr (.inr (.inl hcut))
    | riffCut _ hcut => exact .inr (.inr (.inr hcut))
    | wav hcodec => exact absurd hblock hcodec
    | raw _ _ _ hlen => omega
  · rintro ⟨hmark, hcut⟩
    have hmissing : ∃ s₁ r₁, refill codec s ⟨d, used⟩ n = some (s₁, r₁, .missing) := by
      rcases hcut with hcut | hcut | hcut | hcut
      · exact ⟨_, _, refill_aptsShort hmark hcut⟩
      · exact ⟨_, _, refill_aptsCut hmark hcut⟩
      · exact ⟨_, _, refill_riffShort hmark hblock hcut⟩
      · obtain ⟨r₁, hr₁⟩ : ∃ r, refill codec s ⟨d, used⟩ n = some (s.unmarked, r, .missing) :=
          refill_riffCut hmark hblock hn hcut
        exact ⟨_, _, hr₁⟩
    obtain ⟨s₁, r₁, hmissing⟩ := hmissing
    rw [hmissing] at h
    cases h
    rfl

/-! ### An IMA block -/

theorem imaSyncError_some {channels e : Nat} {p : Bytes} :
    imaSyncError channels p = some e ↔
      e < channels ∧ byteAt p (4 * e + 3) ≠ 0 ∧ ∀ c < e, byteAt p (4 * c + 3) = 0 := by
  rw [imaSyncError, List.find?_range_eq_some]
  simp only [decide_eq_true_eq, List.mem_range, Bool.not_eq_true', decide_eq_false_iff_not,
    not_not]
  exact and_left_comm

theorem imaSyncError_none {channels : Nat} {p : Bytes} :
    imaSyncError channels p = none ↔ ∀ c < channels, byteAt p (4 * c + 3) = 0 := by
  rw [imaSyncError, List.find?_range_eq_none]
  simp only [Bool.not_eq_true', decide_eq_false_iff_not, not_not]

/-- How often the loop runs. -/
theorem exists_passes {channels : Nat} (hch : 0 < channels) (nSamples : Int) :
    ∃ count, (∀ u < count, ((channels + 8 * channels * u : Nat) : Int) < nSamples) ∧
      nSamples ≤ ((channels + 8 * channels * count : Nat) : Int) := by
  have hsome : ∃ count : Nat, nSamples ≤ ((channels + 8 * channels * count : Nat) : Int) := by
    refine ⟨nSamples.toNat, ?_⟩
    have hmul := Nat.mul_le_mul_right nSamples.toNat (by omega : 1 ≤ 8 * channels)
    omega
  refine ⟨Nat.find hsome, fun u hu => ?_, Nat.find_spec hsome⟩
  have hless := Nat.find_min hsome hu
  omega

/-- The size check of the block decoder asks for whole words. -/
theorem size_check {channels blockAlign : Nat} :
    (imaCount channels blockAlign - channels).tmod 8 = 0 ↔ 4 ∣ blockAlign := by
  rw [imaCount, ← Int.dvd_iff_tmod_eq_zero]
  omega

section ima_
variable {channels count refilled : Nat} {data : Bytes} {start : Nat → Int} {r : ImaBlock.Loop}

/-- The whole groups of a block, from the first byte of the headers to the last of the groups. -/
theorem decoded_read_lt (hch : 0 < channels)
    (h : ImaBlock.Decoded data channels start (fun _ => 8 * count) r) :
    (∀ i ∈ r.read, i < refilled) ↔ 4 * channels + 4 * channels * count ≤ refilled := by
  constructor
  · intro hall
    rcases Nat.eq_zero_or_pos count with rfl | hpos
    · have hlast := hall (4 * channels - 1) ((h.read _).mpr (.inl (by omega)))
      omega
    · obtain ⟨k, rfl⟩ : ∃ k, count = k + 1 := ⟨count - 1, by omega⟩
      have hlast := hall (4 * channels + 4 * channels * ((8 * k + 7) / 8) + 4 * (channels - 1) +
        (8 * k + 7) % 8 / 2)
        ((h.read _).mpr (.inr ⟨channels - 1, by omega, 8 * k + 7, by omega, rfl⟩))
      have hgroup : (8 * k + 7) / 8 = k := by omega
      have hplace : (8 * k + 7) % 8 / 2 = 3 := by omega
      rw [hgroup, hplace] at hlast
      rw [Nat.mul_succ]
      omega
  · intro hle i hi
    rcases (h.read i).mp hi with hheader | ⟨c, hc, q, hq, rfl⟩
    · omega
    · have hmul := Nat.mul_le_mul_left (4 * channels) (by omega : q / 8 + 1 ≤ count)
      rw [Nat.mul_succ] at hmul
      omega

theorem decoded_written_lt (hch : 0 < channels) {limit : Int}
    (h : ImaBlock.Decoded data channels start (fun _ => 8 * count) r) :
    (∀ p ∈ r.written, (p : Int) < limit) ↔
      ((channels + 8 * channels * count : Nat) : Int) ≤ limit := by
  constructor
  · intro hall
    have hlast := hall (channels + 8 * channels * count - 1) ((h.mem_written hch _).mpr (by omega))
    omega
  · intro hle p hp
    have hlt := (h.mem_written hch p).mp hp
    omega

/-- A block with whole groups. -/
theorem groups_within (hch : 0 < channels) {n : Int}
    (h : ImaBlock.Decoded data channels start (fun _ => 8 * count) r) :
    (imaTouched r n).Within refilled n ↔
      channels ≤ 2 ∧ 4 * channels + 4 * channels * count ≤ refilled ∧
        ((channels + 8 * channels * count : Nat) : Int) ≤ n ∧ n ≤ pcmBufSize := by
  constructor
  · intro hall
    have hwritten := (decoded_written_lt hch h).mp fun p hp => (hall.written p hp).1
    have hopened : channels - 1 < 2 := by
      refine hall.opened (channels - 1) ?_
      rw [imaTouched, h.opened, List.mem_range]
      omega
    exact ⟨by omega, (decoded_read_lt hch h).mp hall.read, hwritten, hall.copied.2⟩
  · rintro ⟨hle, hread, hwritten, hcopied⟩
    have hpos : 0 ≤ n := by omega
    refine ⟨(decoded_read_lt hch h).mpr hread, ?_, ?_, ?_, ?_, rfl, hpos, hcopied⟩
    · intro p hp
      have hlt := (decoded_written_lt hch h).mpr hwritten p hp
      exact ⟨hlt, by omega⟩
    · intro x hx
      have hbounds := h.looked x hx
      omega
    · intro i hi
      exact absurd hi List.not_mem_nil
    · intro c hc
      rw [imaTouched, h.opened, List.mem_range] at hc
      omega

end ima_

/-- The headers up to one without its zero. -/
theorem error_within {block : ImaBlock.Loop} {e refilled : Nat} {n : Int}
    (hopened : block.opened = List.range (e + 1)) (hwritten : block.written = List.range (e + 1))
    (hread : block.read = List.range (4 * (e + 1))) (hlooked : block.looked = []) :
    (imaTouched block n).Within refilled n ↔
      e < 2 ∧ 4 * (e + 1) ≤ refilled ∧ (e : Int) < n ∧ n ≤ pcmBufSize := by
  constructor
  · intro hall
    refine ⟨hall.opened e ?_, ?_, (hall.written e ?_).1, hall.copied.2⟩
    · rw [imaTouched, hopened, List.mem_range]
      omega
    · have hlast : 4 * e + 3 < refilled := by
        refine hall.read (4 * e + 3) ?_
        rw [imaTouched, hread, List.mem_range]
        omega
      omega
    · rw [imaTouched, hwritten, List.mem_range]
      omega
  · rintro ⟨he, hle, hlt, hcopied⟩
    have hpos : 0 ≤ n := by omega
    refine ⟨?_, ?_, ?_, ?_, ?_, rfl, hpos, hcopied⟩
    · intro i hi
      rw [imaTouched, hread, List.mem_range] at hi
      omega
    · intro p hp
      rw [imaTouched, hwritten, List.mem_range] at hp
      exact ⟨by omega, by omega⟩
    · intro x hx
      rw [imaTouched, hlooked] at hx
      exact absurd hx List.not_mem_nil
    · intro i hi
      exact absurd hi List.not_mem_nil
    · intro c hc
      rw [imaTouched, hopened, List.mem_range] at hc
      omega

/-- No access at all but the copy. -/
theorem start_within {pcm : Nat → Int} {n limit : Int} {refilled : Nat} :
    (imaTouched (.start pcm) n).Within refilled limit ↔ 0 ≤ n ∧ n ≤ pcmBufSize := by
  refine ⟨fun hall => hall.copied, fun hcopied => ⟨?_, ?_, ?_, ?_, ?_, rfl, hcopied⟩⟩
  all_goals
    intro _ h
    exact absurd h List.not_mem_nil

section block_
variable {channels blockAlign : Nat} {data p : Bytes} {pcm : Nat → Int}

/-- A header whose last byte is in the payload is in order there if it is in the buffer. -/
theorem agree_header (hagree : ∀ i < p.length, byteAt data i = byteAt p i) {c : Nat}
    (hc : 4 * (c + 1) ≤ p.length) : byteAt p (4 * c + 3) = byteAt data (4 * c + 3) :=
  (hagree _ (by omega)).symm

/-- Whole groups that count some samples hold at least the headers. -/
theorem headers_le (hcount : 0 ≤ imaCount channels blockAlign) (hch : 0 < channels)
    (hdvd : 4 * channels ∣ blockAlign) : 4 * channels ≤ blockAlign := by
  rw [imaCount] at hcount
  exact Nat.le_of_dvd (by omega) hdvd

/-- What the block decoder returns decides. -/
theorem stays_iff {block : ImaBlock.Loop} {accepted : Bool} {refilled : Nat}
    (h : ImaBlock.decodeImaBlock channels (imaCount channels blockAlign) data pcm =
      some (block, accepted)) :
    ImaStays channels blockAlign data pcm refilled ↔
      (imaTouched block (imaCount channels blockAlign)).Within refilled
        (imaCount channels blockAlign) := by
  rw [ImaStays, h]
  constructor
  · rintro ⟨block', accepted', hsome, hall⟩
    cases hsome
    exact hall
  · intro hall
    exact ⟨_, _, rfl, hall⟩

/-- The block decoder does not accept the size, and nothing is touched but what is copied out. -/
theorem stays_rejected (hsize : ¬ 4 ∣ blockAlign) :
    ImaStays channels blockAlign data pcm p.length ↔ ImaFits channels blockAlign p := by
  rw [stays_iff (if_pos (mt size_check.mp hsize))]
  rw [start_within]
  constructor
  · intro hcopied
    exact ⟨hcopied, fun _ h => absurd h hsize, fun h => absurd h hsize⟩
  · intro hfits
    exact hfits.copied

/-- There is a header without its zero. -/
theorem stays_error (hsize : 4 ∣ blockAlign)
    (hagree : ∀ i < p.length, byteAt data i = byteAt p i) {e : Nat}
    (herror : imaSyncError channels data = some e) :
    ImaStays channels blockAlign data pcm p.length ↔ ImaFits channels blockAlign p := by
  obtain ⟨he, hbad, hzero⟩ := imaSyncError_some.mp herror
  obtain ⟨st, hst, hopened, hwritten, hread, hlooked⟩ := ImaBlock.headers_error pcm he hzero hbad
  have hdecode : ImaBlock.decodeImaBlock channels (imaCount channels blockAlign) data pcm =
      some (st, false) := by
    rw [ImaBlock.decodeImaBlock, if_neg (not_not_intro (size_check.mpr hsize)), hst,
      if_neg Bool.false_ne_true]
  rw [stays_iff hdecode, error_within hopened hwritten hread hlooked]
  constructor
  · rintro ⟨he2, hlen, hlt, hcopied⟩
    have hsync : imaSyncError channels p = some e := by
      refine imaSyncError_some.mpr ⟨he, ?_, fun c hc => ?_⟩
      · rwa [agree_header hagree hlen]
      · rw [agree_header hagree (by omega)]
        exact hzero c hc
    refine ⟨⟨by omega, hcopied⟩, ?_, ?_⟩
    · intro c _ hc
      rw [hsync, Option.some_inj] at hc
      exact hc ▸ ⟨he2, hlen, hlt⟩
    · intro _ hnone
      rw [hsync] at hnone
      cases hnone
  · intro hfits
    cases hsync : imaSyncError channels p with
    | some c =>
      obtain ⟨hc2, hlen, hlt⟩ := hfits.error c hsize hsync
      obtain ⟨hc, hcbad, hczero⟩ := imaSyncError_some.mp hsync
      -- both errors are the first one, and each is seen on the other side
      obtain rfl : c = e := by
        rcases Nat.lt_trichotomy c e with hless | heq | hmore
        · rw [agree_header hagree hlen] at hcbad
          exact absurd (hzero c hless) hcbad
        · exact heq
        · have hthere := hczero e hmore
          rw [agree_header hagree (by omega)] at hthere
          exact absurd hthere hbad
      exact ⟨hc2, hlen, hlt, hfits.copied.2⟩
    | none =>
      obtain ⟨hch2, hdvd, hlen⟩ := hfits.whole hsize hsync
      have hheader := imaSyncError_none.mp hsync e he
      have hheaders := headers_le hfits.copied.1 (by omega) hdvd
      rw [agree_header hagree (by omega)] at hheader
      exact absurd hheader hbad

/-- Without a channel a pass does nothing, and `i` stays where it is. -/
theorem passes_no_channel {n : Int} (hn : 0 < n) (fuel : Nat) (st : ImaBlock.Loop) :
    ImaBlock.passes data 0 n fuel 0 st = none := by
  induction fuel with
  | zero => rfl
  | succ fuel ih =>
    rw [ImaBlock.passes, if_pos (by exact_mod_cast hn)]
    exact ih

/-- A block for no channel at all: the loop does not end, unless there is nothing to do. -/
theorem stays_no_channel (hsize : 4 ∣ blockAlign) :
    ImaStays 0 blockAlign data pcm p.length ↔ ImaFits 0 blockAlign p := by
  rcases Nat.eq_zero_or_pos blockAlign with rfl | hpos
  · have hdecode : ImaBlock.decodeImaBlock 0 (imaCount 0 0) data pcm = some (.start pcm, true) :=
      rfl
    rw [stays_iff hdecode, start_within]
    refine iff_of_true (by decide) ⟨by decide, fun c _ h => ?_, fun _ _ => ?_⟩
    · cases h
    · exact ⟨Nat.zero_le 2, ⟨0, rfl⟩, Nat.zero_le _⟩
  · have hn : 0 < imaCount 0 blockAlign := by
      rw [imaCount]
      omega
    have hdecode : ImaBlock.decodeImaBlock 0 (imaCount 0 blockAlign) data pcm = none := by
      have hheaders : (ImaBlock.headers data 0 (.start pcm)).2 = true := rfl
      rw [ImaBlock.decodeImaBlock, if_neg (not_not_intro (size_check.mpr hsize)), if_pos hheaders,
        passes_no_channel hn]
      rfl
    refine iff_of_false ?_ fun hfits => ?_
    · rintro ⟨block, accepted, hsome, -⟩
      rw [hdecode] at hsome
      cases hsome
    · have hzero := (hfits.whole hsize rfl).2.1
      rw [Nat.mul_zero, Nat.zero_dvd] at hzero
      omega

/-- All headers are in order. -/
theorem stays_groups (hsize : 4 ∣ blockAlign) (hch : 0 < channels)
    (hagree : ∀ i < p.length, byteAt data i = byteAt p i)
    (hnone : imaSyncError channels data = none) :
    ImaStays channels blockAlign data pcm p.length ↔ ImaFits channels blockAlign p := by
  have hzero := imaSyncError_none.mp hnone
  obtain ⟨count, hmore, hlast⟩ := exists_passes hch (imaCount channels blockAlign)
  obtain ⟨r, hr, hdec, -⟩ := ImaBlock.decodeImaBlock_accepted hch (size_check.mpr hsize) hzero count
    hmore hlast pcm
  rw [stays_iff hr, groups_within hch hdec]
  have hcount : imaCount channels blockAlign = ((blockAlign : Int) - 4 * channels) * 2 + channels :=
    rfl
  constructor
  · rintro ⟨hch2, hread, hwritten, hcopied⟩
    have halign : blockAlign = 4 * channels + 4 * channels * count := by
      have hexact := Int.le_antisymm hlast hwritten
      have hdouble : 8 * channels * count = 2 * (4 * channels * count) := by ring
      omega
    have hsync : imaSyncError channels p = none := by
      refine imaSyncError_none.mpr fun c hc => ?_
      rw [agree_header hagree (by omega)]
      exact hzero c hc
    refine ⟨⟨by omega, hcopied⟩, ?_, ?_⟩
    · intro c _ hc
      rw [hsync] at hc
      cases hc
    · intro _ _
      exact ⟨hch2, ⟨1 + count, by rw [halign]; ring⟩, by omega⟩
  · intro hfits
    cases hsync : imaSyncError channels p with
    | some c =>
      obtain ⟨-, hlen, -⟩ := hfits.error c hsize hsync
      obtain ⟨hc, hcbad, -⟩ := imaSyncError_some.mp hsync
      rw [agree_header hagree hlen] at hcbad
      exact absurd (hzero c hc) hcbad
    | none =>
      obtain ⟨hch2, hdvd, hlen⟩ := hfits.whole hsize hsync
      have hheaders := headers_le hfits.copied.1 hch hdvd
      obtain ⟨k, hk⟩ := hdvd
      obtain ⟨groups, rfl⟩ : ∃ groups, k = groups + 1 := by
        refine ⟨k - 1, (Nat.sub_add_cancel (Nat.pos_of_ne_zero ?_)).symm⟩
        rintro rfl
        omega
      have hblock : blockAlign = 4 * channels + 4 * channels * groups := by rw [hk]; ring
      have hdouble : 8 * channels * groups = 2 * (4 * channels * groups) := by ring
      obtain rfl : count = groups := by
        rcases Nat.lt_trichotomy count groups with hless | heq | hbeyond
        · have hmul := Nat.mul_le_mul_left (8 * channels) hless
          rw [Nat.mul_succ] at hmul
          omega
        · exact heq
        · have hlt := hmore groups hbeyond
          omega
      exact ⟨hch2, by omega, by omega, hfits.copied.2⟩

/-- The IMA driver stays inside exactly when its block fits. -/
theorem stays_iff_fits (hagree : ∀ i < p.length, byteAt data i = byteAt p i) :
    ImaStays channels blockAlign data pcm p.length ↔ ImaFits channels blockAlign p := by
  by_cases hsize : 4 ∣ blockAlign
  · cases herror : imaSyncError channels data with
    | some e => exact stays_error hsize hagree herror
    | none =>
      rcases Nat.eq_zero_or_pos channels with rfl | hch
      · exact stays_no_channel hsize
      · exact stays_groups hsize hch hagree herror
  · exact stays_rejected hsize

end block_

/-! ### An MS block -/

theorem ms_read_lt {channel block refilled : Nat} (hch : 0 < channel) :
    (∀ i ∈ List.range (7 * channel) ++ List.range' (7 * channel) (block - 7 * channel),
      i < refilled) ↔ 7 * channel ≤ refilled ∧ block ≤ refilled := by
  constructor
  · intro hall
    have hheader := hall (7 * channel - 1)
      (List.mem_append_left _ (List.mem_range.mpr (by omega)))
    refine ⟨by omega, ?_⟩
    by_contra hlong
    have hbody := hall (block - 1)
      (List.mem_append_right _ (List.mem_range'_1.mpr ⟨by omega, by omega⟩))
    omega
  · rintro ⟨hheader, hbody⟩ i hi
    rcases List.mem_append.mp hi with hi | hi
    · have hlt := List.mem_range.mp hi
      omega
    · have hlt := List.mem_range'_1.mp hi
      omega

/-- The passes of a block use the predictors of the channels in turn. -/
theorem ms_coeffs_lt {channel block : Nat} {buf : Bytes} (hch : channel = 1 ∨ channel = 2) :
    (∀ i ∈ (List.range (2 * (block - 7 * channel) - 1)).map fun pass =>
      byteAt buf (pass % channel), i < 7) ↔
      (7 * channel < block → byteAt buf 0 < 7) ∧
        (channel = 2 → 7 * channel + 1 < block → byteAt buf 1 < 7) := by
  constructor
  · intro hall
    have hat : ∀ pass < 2 * (block - 7 * channel) - 1, byteAt buf (pass % channel) < 7 := by
      intro pass hlt
      exact hall _ (List.mem_map.mpr ⟨pass, List.mem_range.mpr hlt, rfl⟩)
    refine ⟨fun hone => ?_, fun htwo hmore => ?_⟩
    · have hfirst := hat 0 (by omega)
      rwa [Nat.zero_mod] at hfirst
    · subst htwo
      exact hat 1 (by omega)
  · rintro ⟨hfirst, hsecond⟩ i hi
    obtain ⟨pass, hmem, rfl⟩ := List.mem_map.mp hi
    have hlt := List.mem_range.mp hmem
    rcases hch with rfl | rfl
    · rw [Nat.mod_one]
      exact hfirst (by omega)
    · rcases Nat.mod_two_eq_zero_or_one pass with heven | hodd
      · rw [heven]
        exact hfirst (by omega)
      · rw [hodd]
        exact hsecond rfl (by omega)

/-- The MS driver stays inside exactly when its block fits. -/
theorem ms_within_iff {channel block : Nat} {buf p : Bytes} (hroom : p.length ≤ waveBlockSize)
    (hagree : ∀ i < p.length, byteAt buf i = byteAt p i) :
    (msTouched channel buf block).Within p.length pcmBufSize ↔ MsFits channel block p := by
  by_cases hch : channel = 1 ∨ channel = 2
  · have hroom' : p.length ≤ 2048 := hroom
    have hpositive : 0 < channel := by omega
    rw [msTouched, if_pos hch]
    constructor
    · intro hall
      obtain ⟨hheader, hbody⟩ := (ms_read_lt hpositive).mp hall.read
      obtain ⟨hfirst, hsecond⟩ := (ms_coeffs_lt hch).mp hall.coeffs
      rw [hagree 0 (by omega)] at hfirst
      rw [hagree 1 (by omega)] at hsecond
      exact ⟨hch, hheader, hbody, hfirst, hsecond⟩
    · intro hfits
      have hheader := hfits.header
      have hbody := hfits.body
      have hfirst := hfits.first
      have hsecond := hfits.second
      rw [← hagree 0 (by omega)] at hfirst
      rw [← hagree 1 (by omega)] at hsecond
      refine ⟨(ms_read_lt hpositive).mpr ⟨hheader, hbody⟩, ?_, ?_,
        (ms_coeffs_lt hch).mpr ⟨hfirst, hsecond⟩, ?_, rfl, ?_⟩
      · intro q hq
        have hlt := List.mem_range.mp hq
        have hsmall : q < 4096 := by rcases hch with rfl | rfl <;> omega
        exact ⟨Int.ofNat_lt.mpr hsmall, hsmall⟩
      · intro x hx
        exact absurd hx List.not_mem_nil
      · intro c hc
        exact absurd hc List.not_mem_nil
      · have hsmall : msSampleCount channel block ≤ 4096 := by
          rw [msSampleCount]
          rcases hch with rfl | rfl <;> omega
        exact ⟨Int.natCast_nonneg _, Int.ofNat_le.mpr hsmall⟩
  · rw [msTouched, if_neg hch]
    refine iff_of_false (fun hall => ?_) fun hfits => hch hfits.count
    cases hall.unset

/-! ### The drivers -/

theorem bytewise_within {count refilled : Nat} {copied : Int} (hroom : refilled ≤ waveBlockSize)
    (hcopied : 0 ≤ copied ∧ copied ≤ pcmBufSize) :
    (bytewise count copied).Within refilled pcmBufSize ↔ count ≤ refilled := by
  have hroom' : refilled ≤ 2048 := hroom
  constructor
  · intro hall
    by_contra hlong
    have hlast : count - 1 < refilled := hall.read (count - 1) (List.mem_range.mpr (by omega))
    omega
  · intro hle
    refine ⟨?_, ?_, ?_, ?_, ?_, rfl, hcopied⟩
    · intro i hi
      have hlt := List.mem_range.mp hi
      omega
    · intro q hq
      have hlt := List.mem_range.mp hq
      have hsmall : q < 4096 := by omega
      exact ⟨Int.ofNat_lt.mpr hsmall, hsmall⟩
    all_goals
      intro _ h
      exact absurd h List.not_mem_nil

/-- The front of the wave buffer is the payload. -/
theorem Filled.agree {s s' : Decoder} {p : Bytes} {count : Nat} (h : Filled s s' p count) :
    ∀ i < p.length, byteAt s'.waveBuf i = byteAt p i := by
  intro i hi
  rw [h.wave, overwrite, byteAt_append hi]

/-- How `refill` can end. -/
theorem refill_cases (codec : Codec) (s : Decoder) (d : Bytes) (used : Nat) {n : Nat} (hn : 4 ≤ n) :
    (refill codec s ⟨d, used⟩ n = none ∧ ¬ Room codec s n d) ∨
      (∃ s' r', refill codec s ⟨d, used⟩ n = some (s', r', .missing) ∧ Room codec s n d) ∨
      ∃ s' r' count, refill codec s ⟨d, used⟩ n = some (s', r', .filled count) ∧
        Room codec s n d := by
  have hroom : (refill codec s ⟨d, used⟩ n).isSome ↔ Room codec s n d := refill_isSome hn
  cases hrefill : refill codec s ⟨d, used⟩ n with
  | none =>
    rw [hrefill] at hroom
    exact .inl ⟨rfl, fun h => Bool.false_ne_true (hroom.mpr h)⟩
  | some result =>
    rw [hrefill] at hroom
    obtain ⟨s', r', o⟩ := result
    cases o with
    | missing => exact .inr (.inl ⟨s', r', rfl, hroom.mp rfl⟩)
    | filled count => exact .inr (.inr ⟨s', r', count, rfl, hroom.mp rfl⟩)

section call_
variable {s : Decoder} {n used : Nat} {d : Bytes}

theorem companded_drives {codec : Codec} (hcodec : codec = .pcmAlaw ∨ codec = .pcmMulaw)
    (hn : 4 ≤ n) :
    drives codec s.bps n (payloadIn codec s n d).length (refill codec s ⟨d, used⟩ n) ↔
      Room codec s n d ∧ ¬ Short s n d := by
  rcases refill_cases codec s d used hn with
    ⟨hrefill, hroom⟩ | ⟨s', r', hrefill, hroom⟩ | ⟨s', r', count, hrefill, hroom⟩
  · rw [hrefill]
    exact iff_of_false id fun h => hroom h.1
  · have hshort := not_short_of_missing hn hrefill
    rw [hrefill]
    rcases hcodec with rfl | rfl
    · exact iff_of_true trivial ⟨hroom, hshort⟩
    · exact iff_of_true trivial ⟨hroom, hshort⟩
  · have hcopied : 0 ≤ (waveBlockSize : Int) ∧ (waveBlockSize : Int) ≤ pcmBufSize := by decide
    have hwithin : (bytewise count waveBlockSize).Within (payloadIn codec s n d).length pcmBufSize ↔
        Room codec s n d ∧ ¬ Short s n d := by
      rw [bytewise_within hroom.1 hcopied, refill_count hn hrefill]
      exact (and_iff_right hroom).symm
    rw [hrefill]
    rcases hcodec with rfl | rfl
    · exact hwithin
    · exact hwithin

theorem pcm_drives (hn : 4 ≤ n) :
    drives .pcm s.bps n (payloadIn .pcm s n d).length (refill .pcm s ⟨d, used⟩ n) ↔
      Room .pcm s n d ∧ (s.bps = .u8 → ¬ Short s n d ∧ 4 ∣ (payloadIn .pcm s n d).length) := by
  rcases refill_cases .pcm s d used hn with
    ⟨hrefill, hroom⟩ | ⟨s', r', hrefill, hroom⟩ | ⟨s', r', count, hrefill, hroom⟩
  · rw [hrefill]
    exact iff_of_false id fun h => hroom h.1
  · have hnil : payloadIn .pcm s n d = [] := plain_missing_payload (by decide) hn hrefill
    have hshort := not_short_of_missing hn hrefill
    rw [hrefill, hnil]
    exact iff_of_true trivial ⟨hroom, fun _ => ⟨hshort, by decide⟩⟩
  · have hcount := refill_count hn hrefill
    have hfilled := (refill_filled hn hrefill).1.count
    rw [hrefill, and_iff_right hroom]
    refine imp_congr_right fun _ => ?_
    rw [bytewise_within hroom.1 (by decide), ← hcount]
    rcases hfilled with hnil | hlength
    · rw [hnil, List.length_nil]
      omega
    · omega

/-- The IMA driver behind the header of a block. -/
theorem ima_drives (hn : 4 ≤ n) (hd : n ≤ d.length) :
    drives .adpcmImaWav s.bps n (payloadIn .adpcmImaWav s n d).length
        (refill .adpcmImaWav s ⟨d, used⟩ n) ↔
      Room .adpcmImaWav s n d ∧
        (¬ HeaderCut s n d → ImaFits s.ch s.blockAlign (payloadIn .adpcmImaWav s n d)) := by
  rcases refill_cases .adpcmImaWav s d used hn with
    ⟨hrefill, hroom⟩ | ⟨s', r', hrefill, hroom⟩ | ⟨s', r', count, hrefill, hroom⟩
  · rw [hrefill]
    exact iff_of_false id fun h => hroom h.1
  · have hcut := (missing_iff_cut (.inl rfl) hn hd hrefill).mp rfl
    rw [hrefill]
    exact iff_of_true trivial ⟨hroom, fun h => absurd hcut h⟩
  · have hcut : ¬ HeaderCut s n d := by
      intro hcut
      cases (missing_iff_cut (.inl rfl) hn hd hrefill).mpr hcut
    have hfilled := (refill_filled hn hrefill).1
    rw [hrefill, and_iff_right hroom, ← hfilled.ch, ← hfilled.blockAlign]
    exact (stays_iff_fits hfilled.agree).trans
      ⟨fun hfits _ => hfits, fun hfits => hfits hcut⟩

/-- The MS driver, whether the block is there or not. -/
theorem ms_drives (hn : 4 ≤ n) :
    drives .adpcmMs s.bps n (payloadIn .adpcmMs s n d).length (refill .adpcmMs s ⟨d, used⟩ n) ↔
      Room .adpcmMs s n d ∧ MsFits s.ch n (payloadIn .adpcmMs s n d) := by
  rcases refill_cases .adpcmMs s d used hn with
    ⟨hrefill, hroom⟩ | ⟨s', r', hrefill, hroom⟩ | ⟨s', r', count, hrefill, hroom⟩
  · rw [hrefill]
    exact iff_of_false id fun h => hroom h.1
  · obtain ⟨-, reset, hmiss, -⟩ := refill_missing hn hrefill
    have hnil := refill_missing_payload hn hrefill (.inr rfl)
    have hagree : ∀ i < (payloadIn .adpcmMs s n d).length,
        byteAt s'.waveBuf i = byteAt (payloadIn .adpcmMs s n d) i := by
      intro i hi
      rw [hnil] at hi
      exact absurd hi (Nat.not_lt_zero i)
    rw [hrefill, and_iff_right hroom, ← miss_ch hmiss]
    exact ms_within_iff hroom.1 hagree
  · have hfilled := (refill_filled hn hrefill).1
    rw [hrefill, and_iff_right hroom, ← hfilled.ch]
    exact ms_within_iff hroom.1 hfilled.agree

end call_

/-- A call stays inside exactly when it fits. -/
theorem inBounds_iff_fits (codec : Codec) (s : Decoder) (x : Bytes) :
    InBounds codec s x ↔ Fits codec s x := by
  have hwave : 4 ≤ waveBlockSize := by decide
  have hheader : ∀ P : Nat → Bytes → Nat → Prop,
      (∀ n d used, blockHeader s ⟨x, 0⟩ = .ok (n, ⟨d, used⟩) → 4 ≤ n → P n d used) ↔
        ∀ n d, BlockAt s x n d → 4 ≤ n → P n d (x.length - d.length) := by
    intro P
    constructor
    · intro h n d hblock
      exact h n d _ (header_ok.mpr ⟨hblock, rfl⟩)
    · intro h n d used hok
      obtain ⟨hblock, rfl⟩ := header_ok.mp hok
      exact h n d hblock
  cases codec with
  | pcmAlaw => exact companded_drives (.inl rfl) hwave
  | pcmMulaw => exact companded_drives (.inr rfl) hwave
  | adpcmImaWav =>
    rw [InBounds, if_pos (.inl rfl), hheader]
    exact forall₄_congr fun n d hblock hn => ima_drives hn hblock.length_le
  | adpcmMs =>
    rw [InBounds, if_pos (.inr rfl), hheader]
    exact forall₄_congr fun n d _ hn => ms_drives hn
  | pcm => exact pcm_drives hwave

/-! ### Runs -/

/-- A call stays inside the buffers; `audio_dec_init` does not touch them. -/
def InBoundsAt (s : Decoder) : Event → Prop
  | .init .. => True
  | .decode codec inbuf => InBounds codec s inbuf

/-- A call fits. -/
def FitsAt (s : Decoder) : Event → Prop
  | .init .. => True
  | .decode codec inbuf => Fits codec s inbuf

/-- A run from the load of the library on stays inside its buffers exactly when every call of it
    fits, in the state that the calls before it have left. -/
theorem run_inBounds_iff_fits (beyond : Nat → Int × Int) (channels blockSize : Nat) (wave : Bytes)
    (pcm : List Int) (events : List Event) :
    Along step InBoundsAt (loaded beyond) (.init channels blockSize wave pcm :: events) ↔
      Along step FitsAt (loaded beyond) (.init channels blockSize wave pcm :: events) := by
  have hcall : ∀ s e, True → (InBoundsAt s e ↔ FitsAt s e) := by
    intro s e _
    cases e with
    | init => exact Iff.rfl
    | decode codec inbuf => exact inBounds_iff_fits codec s inbuf
  exact along_congr (fun _ _ _ _ _ => trivial) hcall trivial

/-! ### A call that fits has a result -/

section defined_
variable {s : Decoder}

theorem imaBlock_defined {s' : Decoder} {p : Bytes} {count used : Nat}
    (hch : s'.ch = 1 ∨ s'.ch = 2) (hfilled : Filled s s' p count)
    (hfits : ImaFits s'.ch s'.blockAlign p) : ∃ c, imaBlock s' used = some c := by
  have hbounds : imaInBounds s' (imaCount s'.ch s'.blockAlign) = true := by
    by_cases hsize : 4 ∣ s'.blockAlign
    · cases herror : imaSyncError s'.ch s'.waveBuf with
      | some e => simp [imaInBounds, herror]
      | none =>
        cases hsync : imaSyncError s'.ch p with
        | some c =>
          obtain ⟨-, hlen, -⟩ := hfits.error c hsize hsync
          obtain ⟨hc, hbad, -⟩ := imaSyncError_some.mp hsync
          rw [agree_header hfilled.agree hlen] at hbad
          exact absurd (imaSyncError_none.mp herror c hc) hbad
        | none =>
          obtain ⟨-, hdvd, hlen⟩ := hfits.whole hsize hsync
          have hheaders := headers_le hfits.copied.1 (by omega) hdvd
          have hroom : p.length ≤ 2048 := hfilled.fits
          obtain ⟨groups, hgroups⟩ : ∃ groups,
              s'.blockAlign = 4 * s'.ch + 4 * s'.ch * groups := by
            obtain ⟨k, hk⟩ := Nat.dvd_sub hdvd (Nat.dvd_refl (4 * s'.ch))
            exact ⟨k, by omega⟩
          have hcount : imaCount s'.ch s'.blockAlign =
              ((s'.ch + 8 * s'.ch * groups : Nat) : Int) := by
            rw [imaCount, hgroups, imaSampleCount_eq hch]
          have hsmall : 4 * s'.ch + 4 * s'.ch * groups ≤ 2048 ∧
              s'.ch + 8 * s'.ch * groups ≤ 4096 := by
            rcases hch with hch | hch <;> rw [hch] at hgroups ⊢ <;> omega
          rw [imaInBounds, hcount, imaPassCount_eq hch]
          simp [waveBlockSize, pcmBufSize, hsmall.1, hsmall.2]
    · have hreject : imaSizeOk s'.ch (imaCount s'.ch s'.blockAlign) = false :=
        decide_eq_false (mt size_check.mp hsize)
      simp [imaInBounds, hreject]
  exact ⟨_, if_pos ⟨hch, hbounds, hfits.copied⟩⟩

theorem companded_defined {codec : Codec} {expand : UInt8 → Int} {x : Bytes}
    (hroom : Room codec s waveBlockSize x) (hshort : ¬ Short s waveBlockSize x) :
    ∃ c, runCompanded expand codec s ⟨x, 0⟩ = some c := by
  rcases refill_cases codec s x 0 (by decide : 4 ≤ waveBlockSize) with
    ⟨-, hnone⟩ | ⟨s', r', hrefill, -⟩ | ⟨s', r', count, hrefill, -⟩
  · exact absurd hroom hnone
  · simp [runCompanded, hrefill]
  · have hcount := (refill_count (by decide) hrefill).mpr hshort
    have hle : count ≤ waveBlockSize := Nat.le_trans hcount hroom.1
    simp [runCompanded, hrefill, hle]

theorem ima_defined {x : Bytes} (hch : s.ch = 1 ∨ s.ch = 2) (h : Fits .adpcmImaWav s x) :
    ∃ c, runimaadpcmdecoder s ⟨x, 0⟩ = some c := by
  rcases hheader : blockHeader s ⟨x, 0⟩ with u | ⟨n, d, used⟩
  · simp [runimaadpcmdecoder, hheader]
  · obtain ⟨hblock, -⟩ := header_ok.mp hheader
    by_cases hn : n < 4
    · simp [runimaadpcmdecoder, hheader, hn]
    · obtain ⟨hroom, hfits⟩ := h n d hblock (by omega)
      rcases refill_cases .adpcmImaWav s d used (by omega : 4 ≤ n) with
        ⟨-, hnone⟩ | ⟨s', r', hrefill, -⟩ | ⟨s', r', count, hrefill, -⟩
      · exact absurd hroom hnone
      · simp [runimaadpcmdecoder, hheader, hn, hrefill]
      · have hcut : ¬ HeaderCut s n d := by
          intro hcut
          cases (missing_iff_cut (.inl rfl) (by omega) hblock.length_le hrefill).mpr hcut
        have hfilled := (refill_filled (by omega) hrefill).1
        have hpayload := hfits hcut
        rw [← hfilled.ch] at hch
        rw [← hfilled.ch, ← hfilled.blockAlign] at hpayload
        simp only [runimaadpcmdecoder, hheader, hn, if_false, hrefill]
        exact imaBlock_defined hch hfilled hpayload

theorem ms_defined {x : Bytes} (h : Fits .adpcmMs s x) :
    ∃ c, runmsadpcmdecoder s ⟨x, 0⟩ = some c := by
  rcases hheader : blockHeader s ⟨x, 0⟩ with u | ⟨n, d, used⟩
  · simp [runmsadpcmdecoder, hheader]
  · obtain ⟨hblock, -⟩ := header_ok.mp hheader
    by_cases hn : n < 4
    · simp [runmsadpcmdecoder, hheader, hn]
    · obtain ⟨hroom, hfits⟩ := h n d hblock (by omega)
      have hle : n ≤ waveBlockSize := Nat.le_trans hfits.body hroom.1
      rcases refill_cases .adpcmMs s d used (by omega : 4 ≤ n) with
        ⟨-, hnone⟩ | ⟨s', r', hrefill, -⟩ | ⟨s', r', count, hrefill, -⟩
      · exact absurd hroom hnone
      · obtain ⟨-, reset, hmiss, -⟩ := refill_missing (by omega) hrefill
        have hch := hfits.count
        rw [← miss_ch hmiss] at hch
        simp [runmsadpcmdecoder, hheader, hn, hrefill, msBlock, hch, hle]
      · have hch := hfits.count
        rw [← (refill_filled (by omega) hrefill).1.ch] at hch
        simp [runmsadpcmdecoder, hheader, hn, hrefill, msBlock, hch, hle]

theorem refillCopy_bps {s' : Decoder} {r r' : Reader} {offset len lenBak : Nat} {o : Refill}
    (h : refillCopy s r offset len lenBak = some (s', r', o)) : s'.bps = s.bps := by
  rw [refillCopy] at h
  split_ifs at h
  · obtain ⟨s₁, hstore, h⟩ := Option.map_eq_some_iff.mp h
    cases h
    rw [store_keeps hstore]
  · obtain ⟨s₁, hstore, h⟩ := Option.map_eq_some_iff.mp h
    cases h
    rw [store_keeps hstore]

theorem refillRaw_bps {s' : Decoder} {r r' : Reader} {tag : Bytes} {len : Nat}
    {mark : Decoder → Decoder} {o : Refill} (hmark : ∀ s, (mark s).bps = s.bps)
    (h : refillRaw s r tag len mark = some (s', r', o)) : s'.bps = s.bps := by
  rw [refillRaw] at h
  cases hstore : s.store 0 tag with
  | none => simp [hstore] at h
  | some s₁ =>
    simp only [hstore] at h
    have hkeep : s₁.bps = s.bps := by rw [store_keeps hstore]
    split at h
    · cases h
      exact hkeep
    · rw [refillCopy_bps h, hmark, hkeep]

/-- `refill` leaves the sample format alone, for the codecs without blocks. -/
theorem refill_bps {codec : Codec} (hcodec : ¬ (codec = .adpcmImaWav ∨ codec = .adpcmMs))
    {s' : Decoder} {r' : Reader} {d : Bytes} {used n : Nat} {o : Refill}
    (h : refill codec s ⟨d, used⟩ n = some (s', r', o)) : s'.bps = s.bps := by
  by_cases hmark : s.waveTimestamplen = 0
  · by_cases hd : d.length < 4
    · rw [refill, if_neg (not_not_intro hmark),
        if_pos (by simpa [Reader.valid] using hd)] at h
      cases h
      rfl
    · rw [refill_tag hmark (by omega), if_neg hcodec] at h
      split at h
      · rw [refillApts_eq (by omega)] at h
        split_ifs at h
        · cases h
          rfl
        · cases h
          rfl
        · exact (refillCopy_bps h).trans rfl
      · have hid : ∀ s, (id s : Decoder).bps = s.bps := fun _ => rfl
        have hunmarked : ∀ s : Decoder, s.unmarked.bps = s.bps := fun _ => rfl
        split at h
        · exact (refillRaw_bps hid h).trans rfl
        · exact refillRaw_bps hunmarked h
  · rw [refill, if_pos hmark] at h
    exact refillCopy_bps h

/-- After `audio_dec_init` linear PCM is 16 bits wide. -/
theorem pcm_defined {x : Bytes} (hroom : Room .pcm s waveBlockSize x) (hbps : s.bps = .s16) :
    ∃ c, runpcmdecoder s ⟨x, 0⟩ = some c := by
  rcases refill_cases .pcm s x 0 (by decide : 4 ≤ waveBlockSize) with
    ⟨-, hnone⟩ | ⟨s', r', hrefill, -⟩ | ⟨s', r', count, hrefill, -⟩
  · exact absurd hroom hnone
  · simp [runpcmdecoder, hrefill]
  · have hkeep := refill_bps (by decide) hrefill
    simp [runpcmdecoder, hrefill, hkeep, hbps]

/-- A call that fits, for one or two channels, is one that the model goes on after. -/
theorem fits_defined (codec : Codec) {x : Bytes} (hch : s.ch = 1 ∨ s.ch = 2) (hbps : s.bps = .s16)
    (h : Fits codec s x) : ∃ c, audioDecDecode codec s x = some c := by
  cases codec with
  | pcmAlaw => exact companded_defined h.1 h.2
  | pcmMulaw => exact companded_defined h.1 h.2
  | adpcmImaWav => exact ima_defined hch h
  | adpcmMs => exact ms_defined h
  | pcm => exact pcm_defined h.1 hbps

end defined_

/-- Three words for two channels: half a group after the headers. -/
theorem half_group_not_fits {s : Decoder} (hch : s.ch = 2) (halign : s.blockAlign = 12)
    (hmark : s.waveTimestamplen = 0) : ¬ Fits .adpcmImaWav s (List.replicate 12 0) := by
  intro hall
  have hblock : BlockAt s (List.replicate 12 0) 12 (List.replicate 12 0) := by
    rw [BlockAt, if_neg (by omega)]
    exact ⟨halign.symm, rfl, Nat.le_refl 12⟩
  obtain ⟨-, hfits⟩ := hall 12 (List.replicate 12 0) hblock (by decide)
  have hcut : ¬ HeaderCut s 12 (List.replicate 12 0) := by
    rintro ⟨-, htag | htag | htag | htag⟩
    all_goals exact absurd htag.1 (by decide)
  have hpayload : payloadIn .adpcmImaWav s 12 (List.replicate 12 0) = List.replicate 12 0 := by
    rw [payloadIn, if_neg (not_not_intro hmark)]
    decide
  have hwhole := (hfits hcut).whole
  rw [hpayload, hch, halign] at hwhole
  exact absurd (hwhole (by decide) (by decide)).2.1 (by decide)

theorem stereo_half_group_leaves :
    ¬ Along step InBoundsAt (loaded fun _ => (0, 0))
      [.init 2 12 (List.replicate 2048 0) (List.replicate 4096 0),
       .decode .adpcmImaWav (List.replicate 12 0)] := by
  intro h
  have hinit : step (loaded fun _ => (0, 0))
      (.init 2 12 (List.replicate 2048 0) (List.replicate 4096 0)) =
      some (audioDecInit (loaded fun _ => (0, 0)) 2 12 (List.replicate 2048 0)
        (List.replicate 4096 0)) := by
    rw [step, if_pos ⟨List.length_replicate, List.length_replicate⟩]
  have hcall := (inBounds_iff_fits ..).mp (h.2 _ hinit).1
  exact half_group_not_fits rfl rfl rfl hcall

end Streambox.Adpcm
