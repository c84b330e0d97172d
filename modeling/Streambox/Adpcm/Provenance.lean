import Streambox.Adpcm.Headers

/-! libadpcm: where the samples of a call come from.

    Every driver expands the wave buffer into the sample buffer and copies out of that, and the
    counts of the three steps are not the same. What a call should return are the samples of the
    payload that it has consumed:

        consumed   [sync, size] [APTS .. | RIFF .. data size]  payload
        wave       payload  old bytes
        samples    of the wave buffer, as many as the driver has counted  old samples -/

namespace Streambox.Adpcm
open Streambox.Lib

/-! ### The payload -/

/-- The block size, and the data from the block on. -/
def framed (codec : Codec) (s : Decoder) (x : Bytes) : Nat × Bytes :=
  if codec = .adpcmImaWav ∨ codec = .adpcmMs then
    if s.blockAlign = 0 then
      match syncSearch x with
      | some (hi :: lo :: d) => (hi.toNat * 256 + lo.toNat, d)
      | _ => (0, [])
    else (s.blockAlign, x)
  else (waveBlockSize, x)

/-- So many bytes, if there are as many. -/
def whole (size : Nat) (d : Bytes) : Bytes := if size ≤ d.length then d.take size else []

/-- The payload of a block, behind its header. -/
def payloadIn (codec : Codec) (s : Decoder) (n : Nat) (d : Bytes) : Bytes :=
  if s.waveTimestamplen ≠ 0 then whole s.refillTimestampLen d
  else if d.take 4 = tagApts then
    if 12 ≤ d.length ∧ aptsLength d ≤ d.length - 12 then
      whole (if aptsLength d ≠ 0 then aptsLength d else n) (d.drop 12)
    else []
  else if d.take 4 = tagRiff ∧ (codec = .adpcmImaWav ∨ codec = .adpcmMs) then
    match riffSearch n (d.drop 4) with
    | some data => whole n (data.drop 4)
    | none => []
  else whole n d

def payload (codec : Codec) (s : Decoder) (x : Bytes) : Bytes :=
  payloadIn codec s (framed codec s x).1 (framed codec s x).2

/-- The samples of a payload. -/
def expand (codec : Codec) (channels : Nat) (payload : Bytes) : Option (List Int) :=
  match codec with
  | .pcmAlaw => some (payload.map alaw2linear)
  | .pcmMulaw => some (payload.map ulaw2linear)
  | .adpcmImaWav => imaExpand channels payload
  | .adpcmMs => msExpand channels payload
  | .pcm => some ((List.range (payload.length / 2)).map fun i => shortAt payload (2 * i))

/-- All that a call returns was copied out by it, and is the payload that it consumed. -/
structure FromPayload (codec : Codec) (s : Decoder) (x : Bytes) (c : Call) : Prop where
  consumed : payload codec s x <:+ x.take c.used
  outlen : c.outlen = 2 * c.out.length
  samples : expand codec s.ch (payload codec s x) = some c.out

/-- The payload has the size that the driver counts with, and the block decoder takes it. -/
def Matches (codec : Codec) (s : Decoder) (x : Bytes) : Prop :=
  match codec with
  | .pcmAlaw | .pcmMulaw => (payload codec s x).length = waveBlockSize
  | .adpcmImaWav =>
    (payload codec s x).length = s.blockAlign ∧ (imaExpand s.ch (payload codec s x)).isSome
  | .adpcmMs =>
    (msExpand s.ch (payload codec s x)).isSome ∧
      msSampleCount s.ch (payload codec s x).length = msSampleCount s.ch (framed codec s x).1
  -- nothing is copied out
  | .pcm => False

/-! ### What `refill` copies -/

theorem whole_of_le {size : Nat} {d : Bytes} (h : size ≤ d.length) : whole size d = d.take size :=
  if_pos h

theorem whole_of_lt {size : Nat} {d : Bytes} (h : d.length < size) : whole size d = [] :=
  if_neg (by omega)

/-- All or nothing. -/
theorem whole_length (size : Nat) (d : Bytes) : whole size d = [] ∨ (whole size d).length = size := by
  rw [whole]
  split
  · right
    rw [List.length_take]
    omega
  · exact .inl rfl

theorem read_eq_whole (d : Bytes) (used size : Nat) :
    (Reader.read ⟨d, used⟩ size).1 = whole size d ∧
      (Reader.read ⟨d, used⟩ size).2.used = used + (whole size d).length := by
  by_cases h : size ≤ d.length
  · rw [Reader.read_of_le h, whole_of_le h]
    simp [h]
  · rw [Reader.read_of_lt (by simp only [Reader.valid]; omega), whole_of_lt (by omega)]
    simp

/-- A block in the wave buffer: its bytes, what was used, and the count that `refill` returns. -/
structure Filled (s s' : Decoder) (p : Bytes) (count : Nat) : Prop where
  wave : s'.waveBuf = overwrite s.waveBuf p
  fits : p.length ≤ waveBlockSize
  count : p = [] ∨ p.length = count
  ch : s'.ch = s.ch
  blockAlign : s'.blockAlign = s.blockAlign
  beyond : s'.beyond = s.beyond

theorem Filled.congr {s₁ s s' : Decoder} {p : Bytes} {count : Nat} (h : Filled s₁ s' p count)
    (hwave : s₁.waveBuf = s.waveBuf) (hch : s₁.ch = s.ch) (halign : s₁.blockAlign = s.blockAlign)
    (hbeyond : s₁.beyond = s.beyond) : Filled s s' p count :=
  ⟨hwave ▸ h.wave, h.fits, h.count, hch ▸ h.ch, halign ▸ h.blockAlign, hbeyond ▸ h.beyond⟩

/-- The bytes that `refill` copies end where it stops to read. -/
def EndsAt (d p : Bytes) (used : Nat) : Prop := p <:+ d.take used

theorem whole_endsAt (size : Nat) (d : Bytes) (skip : Nat) :
    EndsAt d (whole size (d.drop skip)) (skip + (whole size (d.drop skip)).length) := by
  rw [EndsAt, List.take_add]
  by_cases h : size ≤ (d.drop skip).length
  · rw [whole_of_le h, List.length_take, Nat.min_eq_left h]
    exact List.suffix_append ..
  · rw [whole_of_lt (by omega)]
    exact List.nil_suffix

theorem refillCopy_zero {s s' : Decoder} {d : Bytes} {used n : Nat} {r' : Reader} {o : Refill}
    {size : Nat} (hsize : size = if s.waveTimestamplen ≠ 0 then s.refillTimestampLen else n)
    (h : refillCopy s ⟨d, used⟩ 0 n n = some (s', r', o)) :
    Filled s s' (whole size d) size ∧ o = .filled size ∧
      r'.used = used + (whole size d).length := by
  have hstored : ∀ s', s.store 0 (whole size d) = some s' → Filled s s' (whole size d) size := by
    intro s' hstore
    rw [Decoder.store] at hstore
    split at hstore
    case isTrue hfits =>
      rw [Nat.zero_add] at hfits
      cases hstore
      exact ⟨by simp [overwrite], hfits, whole_length size d, rfl, rfl, rfl⟩
    case isFalse => cases hstore
  rw [refillCopy] at h
  split at h
  case isTrue hmark =>
    rw [if_pos hmark] at hsize
    subst hsize
    split at h
    case isFalse => cases h
    case isTrue =>
      rw [(read_eq_whole ..).1] at h
      obtain ⟨s₁, hstore, h⟩ := Option.map_eq_some_iff.mp h
      have hkeep : s₁.refillTimestampLen = s.refillTimestampLen := by
        rw [Decoder.store] at hstore
        split at hstore
        · cases hstore
          rfl
        · cases hstore
      rw [hkeep] at h
      cases h
      exact ⟨hstored _ hstore, rfl, (read_eq_whole ..).2⟩
  case isFalse hmark =>
    rw [if_neg hmark] at hsize
    subst hsize
    rw [(read_eq_whole ..).1] at h
    obtain ⟨s₁, hstore, h⟩ := Option.map_eq_some_iff.mp h
    cases h
    exact ⟨hstored _ hstore, rfl, (read_eq_whole ..).2⟩

theorem overwrite_take {α : Type} (buffer front : List α) :
    (overwrite buffer front).take front.length = front := by
  rw [overwrite, List.take_left]

/-- Two pieces next to each other. -/
theorem overwrite_twice (buffer a b : Bytes) :
    (overwrite buffer a).take a.length ++ b ++ (overwrite buffer a).drop (a.length + b.length) =
      overwrite buffer (a ++ b) := by
  rw [overwrite, overwrite, List.take_left, ← List.drop_drop, List.drop_left, List.drop_drop,
    List.length_append]

theorem refillRaw_filled {s s' : Decoder} {d : Bytes} {used n : Nat} {r' : Reader} {count : Nat}
    {mark : Decoder → Decoder} (hd : 4 ≤ d.length) (hn : 4 ≤ n)
    (hmark : ∀ buf, mark { s with waveBuf := buf } = { s.unmarked with waveBuf := buf })
    (h : refillRaw s ⟨d.drop 4, used + 4⟩ (d.take 4) n mark = some (s', r', .filled count)) :
    n ≤ d.length ∧ Filled s s' (d.take n) count ∧ r'.used = used + n := by
  have htag : (d.take 4).length = 4 := by
    rw [List.length_take]
    omega
  rw [refillRaw, store_zero (by rw [htag]; decide)] at h
  simp only at h
  split at h
  case isTrue => cases h
  case isFalse hvalid =>
    simp only [Reader.valid, List.length_drop] at hvalid
    have hlen : n ≤ d.length := by omega
    have hsplit : d.take n = d.take 4 ++ (d.drop 4).take (n - 4) := by
      rw [← List.take_add, Nat.add_sub_cancel' hn]
    have hrest : ((d.drop 4).take (n - 4)).length = n - 4 := by
      rw [List.length_take, List.length_drop]
      omega
    rw [hmark, refillCopy, if_neg (by simp [Decoder.unmarked]),
      Reader.read_of_le (by simp only [Reader.valid, List.length_drop]; omega)] at h
    obtain ⟨s₁, hstore, h⟩ := Option.map_eq_some_iff.mp h
    cases h
    rw [Decoder.store, hrest] at hstore
    split at hstore
    case isTrue hfits =>
      cases hstore
      refine ⟨hlen, ⟨?_, ?_, ?_, rfl, rfl, rfl⟩, by simp only; omega⟩
      · -- the tag and the rest lie next to each other
        have htwice := overwrite_twice s.waveBuf (d.take 4) ((d.drop 4).take (n - 4))
        rw [htag, hrest] at htwice
        rw [hsplit]
        exact htwice
      · rw [List.length_take]
        omega
      · right
        rw [List.length_take]
        omega
    case isFalse => cases hstore

/-- `refillCopy` behind a header. -/
theorem refillCopy_behind {s s' : Decoder} {d : Bytes} {used skip n size count : Nat} {r' : Reader}
    (hsize : size = if s.waveTimestamplen ≠ 0 then s.refillTimestampLen else n)
    (h : refillCopy s ⟨d.drop skip, used + skip⟩ 0 n n = some (s', r', .filled count)) :
    Filled s s' (whole size (d.drop skip)) count ∧
      ∃ taken, r'.used = used + taken ∧ EndsAt d (whole size (d.drop skip)) taken := by
  obtain ⟨hfilled, hcount, hused⟩ := refillCopy_zero hsize h
  cases hcount
  exact ⟨hfilled, _, by rw [hused, Nat.add_assoc], whole_endsAt size d skip⟩

theorem refillRiff_filled {s s' : Decoder} {d : Bytes} {used n count : Nat} {r' : Reader}
    (hd : 4 ≤ d.length) (hn : 4 ≤ n)
    (h : refillRiff s ⟨d.drop 4, used + 4⟩ n = some (s', r', .filled count)) :
    ∃ data, riffSearch n (d.drop 4) = some data ∧ Filled s s' (whole n (data.drop 4)) count ∧
      ∃ taken, r'.used = used + taken ∧ EndsAt d (whole n (data.drop 4)) taken := by
  rw [refillRiff] at h
  cases hsearch : riffSearch n (d.drop 4) with
  | none =>
    simp only [hsearch] at h
    cases h
  | some data =>
    simp only [hsearch] at h
    split at h
    case isTrue => cases h
    case isFalse hcut =>
      rw [read_length _ _ hn] at hcut
      obtain ⟨pre, hpre⟩ := riffSearch_suffix hsearch
      have hlen := congrArg List.length hpre
      rw [List.length_append, List.length_drop] at hlen
      have hdata : data.drop 4 = d.drop (pre.length + 8) := by
        rw [show pre.length + 8 = 4 + (pre.length + 4) by omega, ← List.drop_drop, ← hpre,
          ← List.drop_drop, List.drop_left]
      have hread : (Reader.read ⟨data, used + 4 + ((d.drop 4).length - data.length)⟩ 4).2 =
          ⟨d.drop (pre.length + 8), used + (pre.length + 8)⟩ := by
        rw [Reader.read_of_le (by simp only [Reader.valid]; omega), ← hdata, List.length_drop]
        simp only
        congr 1
        omega
      have hsize : n = if s.unmarked.waveTimestamplen ≠ 0 then s.unmarked.refillTimestampLen
          else n := rfl
      rw [hread] at h
      obtain ⟨hfilled, hused⟩ := refillCopy_behind hsize h
      rw [← hdata] at hfilled hused
      exact ⟨data, rfl, hfilled.congr rfl rfl rfl rfl, hused⟩

/-- What a call of `refill` that succeeds has copied. -/
theorem refill_filled {codec : Codec} {s s' : Decoder} {d : Bytes} {used n count : Nat} {r' : Reader}
    (hn : 4 ≤ n) (h : refill codec s ⟨d, used⟩ n = some (s', r', .filled count)) :
    Filled s s' (payloadIn codec s n d) count ∧
      ∃ taken, r'.used = used + taken ∧ EndsAt d (payloadIn codec s n d) taken := by
  by_cases hmark : s.waveTimestamplen ≠ 0
  · rw [refill, if_pos hmark] at h
    rw [payloadIn, if_pos hmark]
    have hcopy : refillCopy s ⟨d.drop 0, used + 0⟩ 0 n n = some (s', r', .filled count) := h
    exact refillCopy_behind (if_pos hmark).symm hcopy
  · have hzero : s.waveTimestamplen = 0 := by omega
    by_cases hd : d.length < 4
    · rw [refill, if_neg hmark, if_pos (by simpa [Reader.valid] using hd)] at h
      cases h
    · have hraw : ∀ {s₁ : Decoder} {mark : Decoder → Decoder},
          s₁ = s ∨ s₁ = s.unmarked →
          (∀ buf, mark { s₁ with waveBuf := buf } = { s₁.unmarked with waveBuf := buf }) →
          refillRaw s₁ ⟨d.drop 4, used + 4⟩ (d.take 4) n mark = some (s', r', .filled count) →
          Filled s s' (whole n d) count ∧ ∃ taken, r'.used = used + taken ∧
            EndsAt d (whole n d) taken := by
        intro s₁ mark hs₁ hkeep h
        obtain ⟨hlen, hfilled, hused⟩ := refillRaw_filled (by omega) hn hkeep h
        rw [whole_of_le hlen]
        refine ⟨?_, n, hused, List.suffix_refl _⟩
        rcases hs₁ with rfl | rfl
        · exact hfilled
        · exact hfilled.congr rfl rfl rfl rfl
      rw [refill_tag hzero (by omega)] at h
      rw [payloadIn, if_neg hmark]
      split at h
      case isTrue hapts =>
        rw [refillApts_eq (by omega)] at h
        split at h
        case isTrue => cases h
        case isFalse hshort =>
          split at h
          case isTrue => cases h
          case isFalse hcut =>
            have hsize : (if aptsLength d ≠ 0 then aptsLength d else n) =
                if (s.stamped d).waveTimestamplen ≠ 0 then (s.stamped d).refillTimestampLen
                else n := rfl
            rw [if_pos hapts, if_pos ⟨by omega, by omega⟩]
            obtain ⟨hfilled, hused⟩ := refillCopy_behind hsize h
            exact ⟨hfilled.congr rfl rfl rfl rfl, hused⟩
      case isFalse hapts =>
        rw [if_neg hapts]
        split at h
        case isTrue hriff =>
          split at h
          case isTrue hblock =>
            obtain ⟨data, hsearch, hfilled⟩ := refillRiff_filled (by omega) hn h
            rw [if_pos ⟨hriff, hblock⟩]
            simp only [hsearch]
            exact hfilled
          case isFalse hblock =>
            rw [if_neg fun hb => hblock hb.2]
            exact hraw (.inr rfl) (fun buf => rfl) h
        case isFalse hriff =>
          rw [if_neg fun hb => hriff hb.1]
          exact hraw (.inl rfl) (fun buf => rfl) h

/-- A call of `refill` that lacks data has copied nothing. -/
theorem refill_missing_payload {codec : Codec} {s s' : Decoder} {d : Bytes} {used n : Nat}
    {r' : Reader} (hn : 4 ≤ n) (hrefill : refill codec s ⟨d, used⟩ n = some (s', r', .missing))
    (hblock : codec = .adpcmImaWav ∨ codec = .adpcmMs) : payloadIn codec s n d = [] := by
  obtain ⟨hmark, reset, hmiss, -⟩ := refill_missing hn hrefill
  have hriffTag : d.take 4 = tagRiff → ¬ d.take 4 = tagApts := by
    intro htag
    rw [htag]
    decide
  rw [payloadIn, if_neg (by omega)]
  cases hmiss with
  | short h =>
    rw [if_neg fun htag => by have := tag_length htag rfl; omega,
      if_neg fun htag => by have := tag_length htag.1 rfl; omega]
    exact whole_of_lt (by omega)
  | aptsShort h => rw [if_pos h.1, if_neg fun hlen => by have := h.2; omega]
  | aptsCut h => rw [if_pos h.1, if_neg fun hlen => by have := h.2.2; omega]
  | riffShort h =>
    rw [if_neg (hriffTag h.1), if_pos ⟨h.1, hblock⟩]
    simp only [h.2]
  | riffCut _ h =>
    obtain ⟨htag, data, hsearch, hlen⟩ := h
    rw [if_neg (hriffTag htag), if_pos ⟨htag, hblock⟩]
    simp only [hsearch]
    exact whole_of_lt (by rw [List.length_drop]; omega)
  | wav hcodec => exact absurd hblock hcodec
  | raw _ hapts hriff hlen =>
    rw [if_neg hapts, if_neg fun htag => hriff htag.1]
    exact whole_of_lt hlen

/-! ### The drivers -/

theorem EndsAt.consumed {x d p : Bytes} {used taken : Nat} (h : EndsAt d p taken)
    (hd : x.drop used = d) : p <:+ x.take (used + taken) := by
  rw [List.take_add, hd]
  exact h.trans (List.suffix_append ..)

theorem framed_eq {codec : Codec} {s : Decoder} {x d : Bytes} {n : Nat}
    (hblock : codec = .adpcmImaWav ∨ codec = .adpcmMs) (h : BlockAt s x n d) :
    framed codec s x = (n, d) := by
  rw [framed, if_pos hblock]
  rw [BlockAt] at h
  split at h
  case isTrue halign =>
    obtain ⟨hi, lo, hsearch, rfl, -⟩ := h
    rw [if_pos halign]
    simp only [hsearch]
  case isFalse halign =>
    obtain ⟨rfl, rfl, -⟩ := h
    rw [if_neg halign]

/-- A-law and µ-law: `WAVE_BLOCK_SIZE` samples, however many there are. -/
theorem companded_iff {toLinear : UInt8 → Int} {codec : Codec} {s : Decoder} {x : Bytes} {c : Call}
    (h : runCompanded toLinear codec s ⟨x, 0⟩ = some c) (hout : 0 < c.outlen) :
    (payloadIn codec s waveBlockSize x <:+ x.take c.used ∧ c.outlen = 2 * c.out.length ∧
      (payloadIn codec s waveBlockSize x).map toLinear = c.out) ↔
      (payloadIn codec s waveBlockSize x).length = waveBlockSize := by
  rw [runCompanded] at h
  rcases hrefill : refill codec s ⟨x, 0⟩ waveBlockSize with _ | ⟨s', r', count | _⟩
  · simp [hrefill] at h
  · obtain ⟨hfilled, taken, hused, hends⟩ := refill_filled (by decide) hrefill
    simp only [hrefill] at h
    generalize payloadIn codec s waveBlockSize x = p at hfilled hends ⊢
    split at h
    case isTrue hcount =>
      cases h
      constructor
      · rintro ⟨-, hlen, hsamples⟩
        have hsame := congrArg List.length hsamples
        rw [List.length_map] at hsame
        rw [← hsame] at hlen
        simp only at hlen
        omega
      · intro hlen
        have hcount : p.length = count := by
          rcases hfilled.count with hempty | hcount
          · rw [hempty] at hlen
            exact absurd hlen (by decide)
          · exact hcount
        have htaken : (overwrite s'.pcmBuf ((s'.waveBuf.take count).map toLinear)).take
            waveBlockSize = p.map toLinear := by
          rw [hfilled.wave, ← hcount, overwrite_take, ← hlen]
          have htake := overwrite_take s'.pcmBuf (p.map toLinear)
          rwa [List.length_map] at htake
        refine ⟨?_, ?_, ?_⟩
        · rw [hused]
          exact hends.consumed rfl
        · simp only [htaken, List.length_map, hlen]
        · exact htaken.symm
    case isFalse => cases h
  · simp only [hrefill] at h
    cases h
    simp at hout

theorem companded_from_payload {toLinear : UInt8 → Int} {codec : Codec} {s : Decoder} {x : Bytes}
    {c : Call} (hcodec : ¬ (codec = .adpcmImaWav ∨ codec = .adpcmMs))
    (hexpand : ∀ p, expand codec s.ch p = some (p.map toLinear))
    (h : runCompanded toLinear codec s ⟨x, 0⟩ = some c) (hout : 0 < c.outlen) :
    FromPayload codec s x c ↔ (payload codec s x).length = waveBlockSize := by
  have hpayload : payload codec s x = payloadIn codec s waveBlockSize x := by
    rw [payload, framed, if_neg hcodec]
  rw [hpayload, ← companded_iff h hout]
  constructor
  · rintro ⟨hconsumed, hlen, hsamples⟩
    rw [hpayload] at hconsumed hsamples
    rw [hexpand] at hsamples
    exact ⟨hconsumed, hlen, Option.some.inj hsamples⟩
  · rintro ⟨hconsumed, hlen, hsamples⟩
    refine ⟨hpayload ▸ hconsumed, hlen, ?_⟩
    rw [hexpand, hpayload, hsamples]

theorem imaExpand_length {channels : Nat} {p : Bytes} {out : List Int}
    (hch : channels = 1 ∨ channels = 2) (h : imaExpand channels p = some out) :
    (out.length : Int) = ((p.length : Int) - 4 * channels) * 2 + channels := by
  rw [imaExpand] at h
  split at h
  case isTrue hvalid =>
    obtain ⟨hheader, hgroups, -⟩ := hvalid
    obtain ⟨groups, hsize⟩ : ∃ groups, p.length = 4 * channels + 4 * channels * groups := by
      obtain ⟨groups, hgroups⟩ := Nat.dvd_of_mod_eq_zero hgroups
      exact ⟨groups, by omega⟩
    have hcount := imaSampleCount_eq hch groups
    rw [← hsize] at hcount
    rw [← Option.some.inj h, imaSamples_length, hcount, imaPassCount_eq hch groups]
  case isFalse => cases h

theorem imaBlock_iff {s s' : Decoder} {p : Bytes} {count used : Nat} {c : Call}
    (hfilled : Filled s s' p count) (h : imaBlock s' used = some c) :
    (c.outlen = 2 * c.out.length ∧ imaExpand s.ch p = some c.out) ↔
      p.length = s.blockAlign ∧ (imaExpand s.ch p).isSome := by
  have hch : s.ch = 1 ∨ s.ch = 2 := by
    rw [imaBlock] at h
    split at h
    case isTrue hbounds => exact hfilled.ch ▸ hbounds.1
    case isFalse => cases h
  constructor
  · rintro ⟨hlen, hsamples⟩
    refine ⟨?_, by rw [hsamples]; rfl⟩
    have hcount := imaExpand_length hch hsamples
    have houtlen : c.outlen = (((s.blockAlign : Int) - 4 * s.ch) * 2 + s.ch) * 2 := by
      rw [imaBlock, hfilled.ch, hfilled.blockAlign] at h
      split at h
      case isTrue =>
        cases h
        rfl
      case isFalse => cases h
    omega
  · rintro ⟨hlen, hsome⟩
    obtain ⟨out, hexpand⟩ := Option.isSome_iff_exists.mp hsome
    rw [← hfilled.ch] at hch hexpand
    have hblock : ∃ pcmBuf, imaBlock s' used =
        some ⟨{ s' with pcmBuf }, 2 * out.length, used, out⟩ :=
      imaBlock_expand hch hfilled.wave (hfilled.blockAlign.trans hlen.symm) hfilled.fits hexpand
    obtain ⟨pcmBuf, hcall⟩ := hblock
    rw [hcall] at h
    cases h
    exact ⟨rfl, hfilled.ch ▸ hexpand⟩

theorem ima_iff {s : Decoder} {x : Bytes} {c : Call}
    (h : audioDecDecode .adpcmImaWav s x = some c) (hout : 0 < c.outlen) :
    FromPayload .adpcmImaWav s x c ↔ Matches .adpcmImaWav s x := by
  have hrun : runimaadpcmdecoder s ⟨x, 0⟩ = some c := h
  rw [runimaadpcmdecoder] at hrun
  rcases hheader : blockHeader s ⟨x, 0⟩ with u | ⟨n, d, used⟩
  · simp only [hheader] at hrun
    cases hrun
    simp at hout
  · obtain ⟨hblock, rfl⟩ := header_ok.mp hheader
    simp only [hheader] at hrun
    split at hrun
    case isTrue =>
      cases hrun
      simp at hout
    case isFalse hn =>
      rcases hrefill : refill .adpcmImaWav s ⟨d, x.length - d.length⟩ n with
        _ | ⟨s', r', count | _⟩
      · simp [hrefill] at hrun
      · obtain ⟨hfilled, taken, hused, hends⟩ := refill_filled (by omega) hrefill
        have hpayload : payload .adpcmImaWav s x = payloadIn .adpcmImaWav s n d := by
          rw [payload, framed_eq (.inl rfl) hblock]
        simp only [hrefill] at hrun
        have hconsumed : payload .adpcmImaWav s x <:+ x.take c.used := by
          rw [(imaBlock_used hrun).1, hused, hpayload]
          exact hends.consumed hblock.drop_eq
        have hiff := imaBlock_iff hfilled hrun
        rw [← hpayload] at hiff
        constructor
        · rintro ⟨-, hlen, hsamples⟩
          exact hiff.mp ⟨hlen, hsamples⟩
        · intro hmatches
          obtain ⟨hlen, hsamples⟩ := hiff.mpr hmatches
          exact ⟨hconsumed, hlen, hsamples⟩
      · simp only [hrefill] at hrun
        cases hrun
        simp at hout

theorem msExpand_length {channels : Nat} {p : Bytes} {out : List Int}
    (hch : channels = 1 ∨ channels = 2) (h : msExpand channels p = some out) :
    out.length = msSampleCount channels p.length := by
  rw [msExpand] at h
  split at h
  case isTrue =>
    rw [← Option.some.inj h, List.length_take, msAdpcmDecodeBlock_length _ hch]
    rw [msSampleCount]
    omega
  case isFalse => cases h

theorem take_of_isPrefix {α : Type} {a b : List α} {k : Nat} (h : a <+: b) (hk : k ≤ a.length) :
    b.take k = a.take k := by
  obtain ⟨rest, rfl⟩ := h
  exact List.take_append_of_le_length hk

/-- A block of another size, but with as many whole samples, has the samples of the payload. -/
theorem msSamples_take (beyond : Nat → Int × Int) {channels : Nat} {p rest : Bytes} {out : List Int}
    (hch : channels = 1 ∨ channels = 2) (h : msExpand channels p = some out) (n : Nat)
    (hsame : msSampleCount channels p.length = msSampleCount channels n) :
    (msAdpcmDecodeBlock beyond channels (p ++ rest) n).take (msSampleCount channels p.length) =
      out := by
  rw [msExpand] at h
  split at h
  case isFalse => cases h
  case isTrue hvalid =>
    obtain ⟨hheader, hfirst, hsecond⟩ := hvalid
    have hpayload : msAdpcmDecodeBlock beyond channels (p ++ rest) p.length =
        msAdpcmDecodeBlock (fun _ => (0, 0)) channels p p.length := by
      rw [msAdpcmDecodeBlock_append beyond hch hheader (Nat.le_refl _)]
      exact msAdpcmDecodeBlock_beyond _ _ hch _ hfirst hsecond
    have hlen := msAdpcmDecodeBlock_length beyond hch (p ++ rest) p.length
    have hlen' := msAdpcmDecodeBlock_length beyond hch (p ++ rest) n
    have hout : (msAdpcmDecodeBlock beyond channels (p ++ rest) p.length).take
        (msSampleCount channels p.length) = out := by
      rw [msSampleCount, ← hlen, hpayload]
      exact Option.some.inj h
    rcases Nat.le_total p.length n with hle | hle
    · rw [take_of_isPrefix (msAdpcmDecodeBlock_stays beyond channels _ hle), hout]
      rw [hlen, msSampleCount]
      omega
    · rw [← take_of_isPrefix (msAdpcmDecodeBlock_stays beyond channels _ hle), hout]
      rw [hlen', hsame, msSampleCount]
      omega

theorem msBlock_iff {s s' : Decoder} {p : Bytes} {n count used : Nat} {c : Call}
    (hfilled : Filled s s' p count) (h : msBlock s' n used = some c) :
    (c.outlen = 2 * c.out.length ∧ msExpand s.ch p = some c.out) ↔
      (msExpand s.ch p).isSome ∧ msSampleCount s.ch p.length = msSampleCount s.ch n := by
  rw [msBlock] at h
  split at h
  case isFalse => cases h
  case isTrue hbounds =>
    have hch : s.ch = 1 ∨ s.ch = 2 := hfilled.ch ▸ hbounds.1
    have hcount := msAdpcmDecodeBlock_length s'.beyond hch s'.waveBuf n
    rw [hfilled.ch] at h
    generalize hsamples : msAdpcmDecodeBlock s'.beyond s.ch s'.waveBuf n = samples at h hcount
    have hsize : samples.length - samples.length % s.ch = msSampleCount s.ch n := by
      rw [hcount, msSampleCount]
    cases h
    simp only [hsize]
    constructor
    · rintro ⟨hlen, hexpand⟩
      have := msExpand_length hch hexpand
      exact ⟨by rw [hexpand]; rfl, by omega⟩
    · rintro ⟨hsome, hsame⟩
      obtain ⟨out, hexpand⟩ := Option.isSome_iff_exists.mp hsome
      have hlength := msExpand_length hch hexpand
      have htake : (overwrite s'.pcmBuf samples).take (msSampleCount s.ch n) = out := by
        rw [overwrite, List.take_append_of_le_length (by omega), ← hsamples, hfilled.wave,
          ← hsame]
        exact msSamples_take s'.beyond hch hexpand n hsame
      rw [htake]
      exact ⟨by omega, hexpand⟩

theorem miss_ch {codec : Codec} {s s' : Decoder} {n : Nat} {d : Bytes} {reset : Bool}
    (h : Miss codec s n d s' reset) : s'.ch = s.ch := by
  cases h with
  | short => rfl
  | aptsShort => rfl
  | aptsCut => rfl
  | riffShort => rfl
  | riffCut => rfl
  | wav _ _ _ _ hstore => rw [store_keeps hstore]; rfl
  | raw _ _ _ _ _ hstore => rw [store_keeps hstore]

theorem ms_iff {s : Decoder} {x : Bytes} {c : Call}
    (h : audioDecDecode .adpcmMs s x = some c) (hout : 0 < c.outlen) :
    FromPayload .adpcmMs s x c ↔ Matches .adpcmMs s x := by
  have hrun : runmsadpcmdecoder s ⟨x, 0⟩ = some c := h
  rw [runmsadpcmdecoder] at hrun
  rcases hheader : blockHeader s ⟨x, 0⟩ with u | ⟨n, d, used⟩
  · simp only [hheader] at hrun
    cases hrun
    simp at hout
  · obtain ⟨hblock, rfl⟩ := header_ok.mp hheader
    have hframed := framed_eq (.inr rfl) hblock
    have hpayload : payload .adpcmMs s x = payloadIn .adpcmMs s n d := by
      rw [payload, hframed]
    simp only [hheader] at hrun
    split at hrun
    case isTrue =>
      cases hrun
      simp at hout
    case isFalse hn =>
      rcases hrefill : refill .adpcmMs s ⟨d, x.length - d.length⟩ n with
        _ | ⟨s', r', count | _⟩
      · simp [hrefill] at hrun
      · obtain ⟨hfilled, taken, hused, hends⟩ := refill_filled (by omega) hrefill
        simp only [hrefill] at hrun
        have hconsumed : payload .adpcmMs s x <:+ x.take c.used := by
          rw [(msBlock_used hrun).1, hused, hpayload]
          exact hends.consumed hblock.drop_eq
        have hiff := msBlock_iff hfilled hrun
        rw [← hpayload] at hiff
        rw [Matches, hframed]
        constructor
        · rintro ⟨-, hlen, hsamples⟩
          exact hiff.mp ⟨hlen, hsamples⟩
        · intro hmatches
          obtain ⟨hlen, hsamples⟩ := hiff.mpr hmatches
          exact ⟨hconsumed, hlen, hsamples⟩
      · -- the driver goes on with what was in the wave buffer
        obtain ⟨-, reset, hmiss, -⟩ := refill_missing (by omega) hrefill
        simp only [hrefill, msBlock] at hrun
        split at hrun
        case isFalse => cases hrun
        case isTrue hbounds =>
          have hnone : msExpand s.ch (payload .adpcmMs s x) = none := by
            rw [hpayload, refill_missing_payload (by omega) hrefill (.inr rfl), msExpand, if_neg]
            have hch := hbounds.1
            rw [miss_ch hmiss] at hch
            rw [List.length_nil]
            omega
          refine iff_of_false ?_ ?_
          · rintro ⟨-, -, hsamples⟩
            rw [expand, hnone] at hsamples
            cases hsamples
          · rintro ⟨hsome, -⟩
            rw [hnone] at hsome
            cases hsome

theorem pcm_iff {s : Decoder} {x : Bytes} {c : Call} (h : audioDecDecode .pcm s x = some c)
    (hout : 0 < c.outlen) : FromPayload .pcm s x c ↔ Matches .pcm s x := by
  refine iff_of_false ?_ id
  have hrun : runpcmdecoder s ⟨x, 0⟩ = some c := h
  have hempty : c.out = [] := by
    rw [runpcmdecoder] at hrun
    split at hrun
    · cases hrun
    · cases hrun
      rfl
    · split at hrun
      · dsimp only at hrun
        split at hrun
        · cases hrun
          rfl
        · cases hrun
      · cases hrun
        rfl
  rintro ⟨-, hlen, -⟩
  rw [hempty, List.length_nil] at hlen
  omega

/-- A call that returns samples returns those of the payload that it has consumed exactly if the
    payload has the size that the driver counts with and the block decoder takes it. -/
theorem from_payload_iff (codec : Codec) (s : Decoder) (x : Bytes) (c : Call)
    (h : audioDecDecode codec s x = some c) (hout : 0 < c.outlen) :
    FromPayload codec s x c ↔ Matches codec s x := by
  cases codec with
  | pcmAlaw => exact companded_from_payload (by simp) (fun _ => rfl) h hout
  | pcmMulaw => exact companded_from_payload (by simp) (fun _ => rfl) h hout
  | adpcmImaWav => exact ima_iff h hout
  | adpcmMs => exact ms_iff h hout
  | pcm => exact pcm_iff h hout

/-- A unit of silence, to a decoder for such blocks. -/
theorem from_payload_iff_silence : ∃ c,
    audioDecDecode .adpcmImaWav monoDecoder silence.bytes = some c ∧ 0 < c.outlen ∧
      FromPayload .adpcmImaWav monoDecoder silence.bytes c := by
  have hcall : (audioDecDecode .adpcmImaWav monoDecoder silence.bytes).map Call.outlen =
      some 18 := by
    decide +kernel
  obtain ⟨c, hc, hout⟩ := Option.map_eq_some_iff.mp hcall
  exact ⟨c, hc, by omega, (from_payload_iff _ _ _ c hc (by omega)).mpr
    ⟨by decide +kernel, by decide +kernel⟩⟩

/-- A unit with half a block. -/
def halfUnit : AptsUnit 4 where
  timestamp := [0, 0, 0, 2]
  payload := [0, 0, 0, 0]
  timestamp_length := rfl
  payload_length := rfl

/-- The decoder after a block without a header. -/
def afterBlock (block : Bytes) : Decoder :=
  ((audioDecDecode .adpcmImaWav monoDecoder block).map Call.decoder).getD monoDecoder

/-- A block that is not silent. -/
def loud : Bytes := [0, 0, 0, 0, 0x77, 0x77, 0x77, 0x77]

/-- A unit of four bytes, which hold one sample: nine samples are returned, and eight of them are
    those of the block before. -/
theorem not_from_payload_half : Reachable (afterBlock loud) ∧ ∃ c,
    audioDecDecode .adpcmImaWav (afterBlock loud) halfUnit.bytes = some c ∧ c.outlen = 18 ∧
      expand .adpcmImaWav 1 (payload .adpcmImaWav (afterBlock loud) halfUnit.bytes) = some [0] ∧
      (audioDecDecode .adpcmImaWav monoDecoder loud).map Call.out = some c.out ∧
      ¬ FromPayload .adpcmImaWav (afterBlock loud) halfUnit.bytes c := by
  have hfirst : (audioDecDecode .adpcmImaWav monoDecoder loud).isSome := by decide +kernel
  obtain ⟨first, hfirst⟩ := Option.isSome_iff_exists.mp hfirst
  have hreachable : Reachable (afterBlock loud) := by
    refine ⟨fun _ => (0, 0), 1, 8, List.replicate waveBlockSize 0, List.replicate pcmBufSize 0,
      [.decode .adpcmImaWav loud], ?_⟩
    have hinit : step (loaded fun _ => (0, 0)) (.init 1 8 (List.replicate waveBlockSize 0)
        (List.replicate pcmBufSize 0)) = some monoDecoder := by
      simp [step, monoDecoder]
    have hdecode : step monoDecoder (.decode .adpcmImaWav loud) = some (afterBlock loud) := by
      simp only [step, afterBlock, hfirst, Option.map_some, Option.getD_some]
    simp only [run, hinit, hdecode, Option.bind_some]
  have hsame : (audioDecDecode .adpcmImaWav (afterBlock loud) halfUnit.bytes).map
      (fun c => (c.outlen, c.out)) = (audioDecDecode .adpcmImaWav monoDecoder loud).map
      (fun c => (c.outlen, c.out)) := by
    decide +kernel
  have hloud : (audioDecDecode .adpcmImaWav monoDecoder loud).map Call.outlen = some 18 := by
    decide +kernel
  have hexpand : expand .adpcmImaWav 1
      (payload .adpcmImaWav (afterBlock loud) halfUnit.bytes) = some [0] := by
    decide +kernel
  rw [hfirst] at hsame hloud ⊢
  obtain ⟨c, hcall, hc⟩ := Option.map_eq_some_iff.mp hsame
  simp only [Prod.mk.injEq] at hc
  have houtlen : c.outlen = 18 := hc.1.trans (Option.some.inj hloud)
  refine ⟨hreachable, c, hcall, houtlen, hexpand, by rw [Option.map_some, hc.2], ?_⟩
  rintro ⟨-, hlen, hsamples⟩
  have hch : (afterBlock loud).ch = 1 := by decide +kernel
  rw [hch, hexpand] at hsamples
  rw [← Option.some.inj hsamples, houtlen] at hlen
  exact absurd hlen (by decide)

end Streambox.Adpcm
