import Streambox.Adpcm.Headers

/-! libadpcm: calls that run out of data.

    Such a call returns -1 and says how much it has used; the caller comes back with the rest and
    more. Most exits leave the static variables alone and stop where the next call can start again.
    Four do not: a header "APTS" is taken over before its payload is there, `wave_timestamp` is set
    before the last check behind a WAV header, the IMA driver steps over the sync word of a block that
    it did not get, and the MS driver, which never notices that `refill` failed, gives back the bytes
    that it had skipped. -/

namespace Streambox.Adpcm
open Streambox.Lib

/-! ### What is to be shown -/

/-- What the caller sees of a call, with the bytes that were used before it. -/
def observe (u : Nat) (c : Call) : Int × Nat × List Int := (c.outlen, u + c.used, c.out)

/-- The call after `c` goes on as if `c` had not been, and `c` has left the timestamps alone. -/
structure GoesOn (codec : Codec) (s : Decoder) (x : Bytes) (c : Call) : Prop where
  next : ∀ y, (audioDecDecode codec c.decoder (x.drop c.used ++ y)).map (observe c.used) =
    (audioDecDecode codec s (x ++ y)).map (observe 0)
  waveTimestamplen : c.decoder.waveTimestamplen = s.waveTimestamplen
  refillTimestampLen : c.decoder.refillTimestampLen = s.refillTimestampLen
  waveTimestamp : c.decoder.waveTimestamp = s.waveTimestamp

/-- A call that lacks data may be taken up again with more. -/
def Resumes (codec : Codec) (s : Decoder) (x : Bytes) : Prop :=
  ∀ c, audioDecDecode codec s x = some c → c.outlen < 0 → GoesOn codec s x c

/-- A-law, µ-law and linear PCM: a payload that is cut, or "RIFF" in front of less than a block. -/
def PlainLoses (s : Decoder) (x : Bytes) : Prop :=
  AptsCut x ∨ (x.take 4 = tagRiff ∧ x.length < waveBlockSize ∧ s.waveTimestamp ≠ 0xffffffff)

/-- IMA: the same for the block that was found; behind a sync word, every header that is cut. -/
def ImaLoses (s : Decoder) (x : Bytes) : Prop :=
  ∃ n d, BlockAt s x n d ∧ 4 ≤ n ∧
    (AptsCut d ∨ (RiffCut n d ∧ s.waveTimestamp ≠ 0xffffffff) ∨
      (s.blockAlign = 0 ∧ (AptsShort d ∨ RiffShort n d ∨ RiffCut n d)))

/-- MS: bytes were skipped on the way to a sync word, and the block that comes may have a header
    that is cut. -/
def MsLoses (s : Decoder) (x : Bytes) : Prop :=
  s.blockAlign = 0 ∧ 4 ≤ x.length ∧ x.take 4 ≠ syncWord ∧ (∀ n d, ¬ BlockAt s x n d) ∧
    (s.ch = 1 ∨ s.ch = 2) ∧
    ∃ y n d, BlockAt s (x ++ y) n d ∧ 4 ≤ n ∧ n ≤ waveBlockSize ∧
      (AptsShort d ∨ AptsCut d ∨ RiffShort n d)

/-- The inputs whose rest is not decoded as it should be. -/
def Loses (codec : Codec) (s : Decoder) (x : Bytes) : Prop :=
  s.waveTimestamplen = 0 ∧
  match codec with
  | .adpcmImaWav => ImaLoses s x
  | .adpcmMs => MsLoses s x
  | .pcmAlaw | .pcmMulaw | .pcm => PlainLoses s x

/-- A call that used nothing and changed nothing. -/
theorem goesOn_unchanged {codec : Codec} {s : Decoder} {x : Bytes} {c : Call}
    (hdecoder : c.decoder = s) (hused : c.used = 0) : GoesOn codec s x c where
  next y := by
    rw [hdecoder, hused]
    rfl
  waveTimestamplen := by rw [hdecoder]
  refillTimestampLen := by rw [hdecoder]
  waveTimestamp := by rw [hdecoder]

theorem unmarked_eq {s : Decoder} (hmark : s.waveTimestamplen = 0)
    (h : s.waveTimestamp = 0xffffffff) : s.unmarked = s := by
  rw [Decoder.unmarked, ← hmark, ← h]

/-! ### A-law, µ-law and linear PCM -/

section plain
variable {codec : Codec} {s : Decoder} {x : Bytes}

theorem plain_missing (hcodec : ¬ (codec = .adpcmImaWav ∨ codec = .adpcmMs)) {s' : Decoder}
    {r' : Reader} (h : refill codec s ⟨x, 0⟩ waveBlockSize = some (s', r', .missing)) :
    audioDecDecode codec s x = some ⟨s', -1, r'.used, []⟩ := by
  cases codec with
  | pcmAlaw => simp only [audioDecDecode, adpcmDecodeFrame, runalawdecoder, runCompanded, h]
  | pcmMulaw => simp only [audioDecDecode, adpcmDecodeFrame, runulawdecoder, runCompanded, h]
  | pcm => simp only [audioDecDecode, adpcmDecodeFrame, runpcmdecoder, h]
  | adpcmImaWav => exact absurd (.inl rfl) hcodec
  | adpcmMs => exact absurd (.inr rfl) hcodec

theorem runCompanded_negative {expand : UInt8 → Int} {r : Reader} {c : Call}
    (h : runCompanded expand codec s r = some c) (hneg : c.outlen < 0) :
    ∃ r', refill codec s r waveBlockSize = some (c.decoder, r', .missing) ∧ c.used = r'.used := by
  rw [runCompanded] at h
  rcases hrefill : refill codec s r waveBlockSize with _ | ⟨s', r', _ | _⟩
  · simp [hrefill] at h
  · simp only [hrefill] at h
    split at h
    · cases h
      simp [waveBlockSize] at hneg
    · cases h
  · simp only [hrefill] at h
    cases h
    exact ⟨r', rfl, rfl⟩

theorem runpcmdecoder_negative {r : Reader} {c : Call} (h : runpcmdecoder s r = some c)
    (hneg : c.outlen < 0) :
    ∃ r', refill .pcm s r waveBlockSize = some (c.decoder, r', .missing) ∧ c.used = r'.used := by
  rw [runpcmdecoder] at h
  rcases hrefill : refill .pcm s r waveBlockSize with _ | ⟨s', r', _ | _⟩
  · simp [hrefill] at h
  · simp only [hrefill] at h
    split at h
    · split at h
      · cases h
        simp [waveBlockSize] at hneg
      · cases h
    · cases h
      simp [waveBlockSize] at hneg
  · simp only [hrefill] at h
    cases h
    exact ⟨r', rfl, rfl⟩

theorem plain_negative (hcodec : ¬ (codec = .adpcmImaWav ∨ codec = .adpcmMs)) {c : Call}
    (h : audioDecDecode codec s x = some c) (hneg : c.outlen < 0) :
    ∃ r', refill codec s ⟨x, 0⟩ waveBlockSize = some (c.decoder, r', .missing) ∧
      c.used = r'.used := by
  cases codec with
  | pcmAlaw => exact runCompanded_negative h hneg
  | pcmMulaw => exact runCompanded_negative h hneg
  | pcm => exact runpcmdecoder_negative h hneg
  | adpcmImaWav => exact absurd (.inl rfl) hcodec
  | adpcmMs => exact absurd (.inr rfl) hcodec

theorem plain_congr (hcodec : ¬ (codec = .adpcmImaWav ∨ codec = .adpcmMs)) {s' : Decoder}
    (h : refill codec s' ⟨x, 0⟩ waveBlockSize = refill codec s ⟨x, 0⟩ waveBlockSize) :
    audioDecDecode codec s' x = audioDecDecode codec s x := by
  cases codec with
  | pcmAlaw => simp only [audioDecDecode, adpcmDecodeFrame, runalawdecoder, runCompanded, h]
  | pcmMulaw => simp only [audioDecDecode, adpcmDecodeFrame, runulawdecoder, runCompanded, h]
  | pcm => simp only [audioDecDecode, adpcmDecodeFrame, runpcmdecoder, h]
  | adpcmImaWav => exact absurd (.inl rfl) hcodec
  | adpcmMs => exact absurd (.inr rfl) hcodec

theorem store_unmarked {s' : Decoder} {bytes : Bytes} (h : s.store 0 bytes = some s') :
    s.unmarked.store 0 bytes = some s'.unmarked := by
  rw [Decoder.store] at h ⊢
  split at h
  · cases h
    rw [if_pos ‹_›]
    rfl
  · cases h

theorem store_again {s' : Decoder} {bytes : Bytes} (h : s.store 0 bytes = some s') :
    s'.store 0 bytes = some s' := by
  rw [Decoder.store] at h ⊢
  split at h
  · cases h
    rw [if_pos ‹_›]
    simp
  · cases h

/-- The tag that a call has stored is stored again by the next. -/
theorem refill_again (hcodec : ¬ (codec = .adpcmImaWav ∨ codec = .adpcmMs)) {s' : Decoder} {n : Nat}
    (hmark : s.waveTimestamplen = 0) (hx : 4 ≤ x.length) (hapts : x.take 4 ≠ tagApts)
    (hstore : s.store 0 (x.take 4) = some s') (y : Bytes) :
    refill codec s' ⟨x ++ y, 0⟩ n = refill codec s ⟨x ++ y, 0⟩ n := by
  have htake : (x ++ y).take 4 = x.take 4 := List.take_append_of_le_length hx
  have hxy : 4 ≤ (x ++ y).length := by
    rw [List.length_append]
    omega
  have hmark' : s'.waveTimestamplen = 0 := by
    rw [store_keeps hstore]
    exact hmark
  have hagain := store_again hstore
  rw [refill_tag hmark' hxy, refill_tag hmark hxy, htake, if_neg hapts, if_neg hapts]
  split_ifs
  · simp only [refillRaw, store_unmarked hagain, store_unmarked hstore]
  · simp only [refillRaw, hagain, hstore]

theorem goesOn_stored (hcodec : ¬ (codec = .adpcmImaWav ∨ codec = .adpcmMs)) {c : Call}
    (hmark : s.waveTimestamplen = 0) (hx : 4 ≤ x.length) (hapts : x.take 4 ≠ tagApts)
    (hstore : s.store 0 (x.take 4) = some c.decoder) (hused : c.used = 0) :
    GoesOn codec s x c where
  next y := by
    rw [hused]
    exact congrArg _ (plain_congr hcodec (refill_again hcodec hmark hx hapts hstore y))
  waveTimestamplen := by rw [store_keeps hstore]
  refillTimestampLen := by rw [store_keeps hstore]
  waveTimestamp := by rw [store_keeps hstore]

end plain

theorem plain_resumes_iff {codec : Codec} (hcodec : ¬ (codec = .adpcmImaWav ∨ codec = .adpcmMs))
    (s : Decoder) (x : Bytes) :
    Resumes codec s x ↔ ¬ (s.waveTimestamplen = 0 ∧ PlainLoses s x) := by
  constructor
  · rintro hresumes ⟨hmark, hcut | ⟨htag, hlen, hstamp⟩⟩
    · have hcall := plain_missing hcodec (refill_aptsCut hmark hcut)
      have hsame := (hresumes _ hcall (by simp)).waveTimestamplen
      have hpos := hcut.2.2
      rw [show aptsLength x = 0 from hsame.trans hmark] at hpos
      omega
    · have hx := tag_length htag rfl
      have hapts : ¬ x.take 4 = tagApts := by
        rw [htag]
        decide
      have hvalid : Reader.valid ⟨x.drop 4, 0 + 4⟩ < waveBlockSize - 4 := by
        simp only [Reader.valid, List.length_drop]
        omega
      have hstore : s.unmarked.store 0 (x.take 4) =
          some { s.unmarked with waveBuf := overwrite s.unmarked.waveBuf (x.take 4) } :=
        store_zero (by rw [htag]; decide)
      have hrefill : refill codec s ⟨x, 0⟩ waveBlockSize =
          some ({ s.unmarked with waveBuf := overwrite s.unmarked.waveBuf (x.take 4) },
            Reader.reset ⟨x.drop 4, 0 + 4⟩, .missing) := by
        rw [refill_tag hmark hx, if_neg hapts, if_pos htag, if_neg hcodec, refillRaw]
        simp only [hstore]
        rw [if_pos hvalid]
      exact hstamp (hresumes _ (plain_missing hcodec hrefill) (by simp)).waveTimestamp.symm
  · intro hkeeps c hcall hneg
    obtain ⟨r', hrefill, hused⟩ := plain_negative hcodec hcall hneg
    obtain ⟨hmark, reset, hmiss, hreset⟩ := refill_missing (by decide) hrefill
    generalize hs' : c.decoder = s' at hmiss
    cases hmiss with
    | short h => exact goesOn_unchanged hs' (hused.trans (hreset.mp rfl))
    | aptsShort h => exact goesOn_unchanged hs' (hused.trans (hreset.mp rfl))
    | aptsCut h => exact absurd ⟨hmark, .inl h⟩ hkeeps
    | riffShort h => exact goesOn_unchanged hs' (hused.trans (hreset.mp rfl))
    | riffCut h _ => exact absurd h hcodec
    | wav _ htag hlen _ hstore =>
      have hstamp : s.waveTimestamp = 0xffffffff := by
        by_contra hne
        exact hkeeps ⟨hmark, .inr ⟨htag, hlen, hne⟩⟩
      have hapts : x.take 4 ≠ tagApts := by
        rw [htag]
        decide
      rw [unmarked_eq hmark hstamp, ← hs'] at hstore
      exact goesOn_stored hcodec hmark (tag_length htag rfl) hapts hstore
        (hused.trans (hreset.mp rfl))
    | raw hx hapts _ _ _ hstore =>
      rw [← hs'] at hstore
      exact goesOn_stored hcodec hmark hx hapts hstore (hused.trans (hreset.mp rfl))

/-! ### IMA -/

theorem imaBlock_observe (s : Decoder) (u used : Nat) :
    (imaBlock s (u + used)).map (observe 0) = (imaBlock s used).map (observe u) := by
  simp only [imaBlock]
  split
  · simp [observe]
  · rfl

theorem msBlock_observe (s : Decoder) (n u used : Nat) :
    (msBlock s n (u + used)).map (observe 0) = (msBlock s n used).map (observe u) := by
  simp only [msBlock]
  split
  · simp [observe]
  · rfl

/-- The IMA driver behind a header that is farther down. -/
theorem ima_shifted {s : Decoder} {r r' : Reader} {u : Nat}
    (h : blockHeader s r = shifted u (blockHeader s r')) :
    (runimaadpcmdecoder s r').map (observe u) = (runimaadpcmdecoder s r).map (observe 0) := by
  rw [runimaadpcmdecoder, runimaadpcmdecoder, h]
  rcases blockHeader s r' with e | ⟨n, d, used⟩
  · simp [shifted, observe]
  · simp only [shifted]
    split
    · simp [observe]
    · have hoffset := refill_offset u .adpcmImaWav s d used n
      generalize refill .adpcmImaWav s ⟨d, used⟩ n = a at hoffset ⊢
      generalize refill .adpcmImaWav s ⟨d, u + used⟩ n = b at hoffset ⊢
      cases hoffset with
      | undefined => rfl
      | ended s' data used' o =>
        cases o with
        | filled count => exact (imaBlock_observe ..).symm
        | missing => simp [observe]
      | reset s' data => simp [observe]

theorem ima_negative {s : Decoder} {x : Bytes} {c : Call}
    (h : runimaadpcmdecoder s ⟨x, 0⟩ = some c) (hneg : c.outlen < 0) :
    (∃ u, blockHeader s ⟨x, 0⟩ = .error u ∧ c.decoder = s ∧ c.used = u) ∨
      ∃ n d r', BlockAt s x n d ∧ 4 ≤ n ∧ c.used = x.length - d.length ∧
        refill .adpcmImaWav s ⟨d, c.used⟩ n = some (c.decoder, r', .missing) := by
  rw [runimaadpcmdecoder] at h
  rcases hheader : blockHeader s ⟨x, 0⟩ with u | ⟨n, d, used⟩
  · simp only [hheader] at h
    cases h
    exact .inl ⟨u, rfl, rfl, rfl⟩
  · obtain ⟨hblock, rfl⟩ := header_ok.mp hheader
    simp only [hheader] at h
    split at h
    case isTrue =>
      cases h
      simp at hneg
    case isFalse hn =>
      rcases hrefill : refill .adpcmImaWav s ⟨d, x.length - d.length⟩ n with _ | ⟨s', r', _ | _⟩
      · simp [hrefill] at h
      · simp only [hrefill, imaBlock] at h
        split at h
        case isTrue hbounds =>
          cases h
          have := hbounds.2.2.1
          simp only at hneg
          omega
        case isFalse => cases h
      · simp only [hrefill] at h
        cases h
        exact .inr ⟨n, d, r', hblock, by omega, rfl, hrefill⟩

theorem ima_missing {s s' : Decoder} {x d : Bytes} {n : Nat} {r' : Reader} (hblock : BlockAt s x n d)
    (hn : 4 ≤ n)
    (h : refill .adpcmImaWav s ⟨d, x.length - d.length⟩ n = some (s', r', .missing)) :
    runimaadpcmdecoder s ⟨x, 0⟩ = some ⟨s', -1, x.length - d.length, []⟩ := by
  rw [runimaadpcmdecoder]
  simp only [header_ok.mpr ⟨hblock, rfl⟩]
  rw [if_neg (by omega), h]

/-- A filled block has used no less than was used before it. -/
theorem refill_used_le {codec : Codec} {s s' : Decoder} {d : Bytes} {used n count : Nat}
    {r' : Reader} (h : refill codec s ⟨d, used⟩ n = some (s', r', .filled count)) :
    used ≤ r'.used := by
  have hoffset := refill_offset used codec s d 0 n
  rw [Nat.add_zero, h] at hoffset
  generalize refill codec s ⟨d, 0⟩ n = a at hoffset
  cases hoffset
  exact Nat.le_add_right ..

/-- Without a sync word at its front, data is used up by every call of the IMA driver. -/
theorem ima_used_pos {s : Decoder} {x : Bytes} {c : Call} (halign : s.blockAlign = 0)
    (hx : 4 ≤ x.length) (hword : x.take 4 ≠ syncWord)
    (h : runimaadpcmdecoder s ⟨x, 0⟩ = some c) : 0 < c.used := by
  rw [runimaadpcmdecoder] at h
  rcases hheader : blockHeader s ⟨x, 0⟩ with u | ⟨n, d, used⟩
  · simp only [hheader] at h
    cases h
    exact header_error_pos halign hx hword hheader
  · have hused : 0 < used := header_used_pos halign hheader
    simp only [hheader] at h
    split at h
    case isTrue =>
      cases h
      exact hused
    case isFalse =>
      rcases hrefill : refill .adpcmImaWav s ⟨d, used⟩ n with _ | ⟨s', r', _ | _⟩
      · simp [hrefill] at h
      · simp only [hrefill] at h
        rw [(imaBlock_used h).1]
        exact Nat.lt_of_lt_of_le hused (refill_used_le hrefill)
      · simp only [hrefill] at h
        cases h
        exact hused

theorem ima_resumes_iff (s : Decoder) (x : Bytes) :
    Resumes .adpcmImaWav s x ↔ ¬ (s.waveTimestamplen = 0 ∧ ImaLoses s x) := by
  constructor
  · rintro hresumes ⟨hmark, n, d, hblock, hn, hcut⟩
    -- the next call would have to use nothing
    have hsync : ∀ s' r', s.blockAlign = 0 → s'.blockAlign = 0 →
        d.take 4 = tagApts ∨ d.take 4 = tagRiff →
        refill .adpcmImaWav s ⟨d, x.length - d.length⟩ n = some (s', r', .missing) → False := by
      intro s' r' halign halign' htag hrefill
      have hgoesOn := hresumes _ (ima_missing hblock hn hrefill) (by simp)
      have hnext := hgoesOn.next []
      have hwhole : audioDecDecode .adpcmImaWav s x = _ := ima_missing hblock hn hrefill
      simp only [List.append_nil, hblock.drop_eq, hwhole, Option.map_some] at hnext
      obtain ⟨c', hc', hobserve⟩ := Option.map_eq_some_iff.mp hnext
      have hword : d.take 4 ≠ syncWord := by
        rcases htag with h | h <;> rw [h] <;> decide
      have hpos := ima_used_pos halign' (by have := hblock.length_le; omega) hword hc'
      have hused : x.length - d.length + c'.used = 0 + (x.length - d.length) :=
        congrArg (fun q => q.2.1) hobserve
      omega
    rcases hcut with hcut | ⟨hcut, hstamp⟩ | ⟨halign, hcut | hcut | hcut⟩
    · have hcall := ima_missing hblock hn (refill_aptsCut hmark hcut)
      have hsame := (hresumes _ hcall (by simp)).waveTimestamplen
      have hpos := hcut.2.2
      rw [show aptsLength d = 0 from hsame.trans hmark] at hpos
      omega
    · obtain ⟨r, hrefill⟩ := refill_riffCut hmark (.inl rfl) hn hcut
      have hcall := ima_missing hblock hn hrefill
      exact hstamp (hresumes _ hcall (by simp)).waveTimestamp.symm
    · exact hsync s _ halign halign (.inl hcut.1) (refill_aptsShort hmark hcut)
    · exact hsync s _ halign halign (.inr hcut.1) (refill_riffShort hmark (.inl rfl) hcut)
    · obtain ⟨r, hrefill⟩ := refill_riffCut hmark (.inl rfl) hn hcut
      exact hsync s.unmarked r halign halign (.inr hcut.1) hrefill
  · intro hkeeps c hcall hneg
    rcases ima_negative hcall hneg with ⟨u, hheader, hdecoder, hused⟩ | ⟨n, d, r', hblock, hn, hused,
      hrefill⟩
    · refine ⟨fun y => ?_, by rw [hdecoder], by rw [hdecoder], by rw [hdecoder]⟩
      rw [hdecoder, hused]
      exact ima_shifted (header_resume hheader y)
    · obtain ⟨hmark, reset, hmiss, -⟩ := refill_missing hn hrefill
      have hle := hblock.length_le
      generalize hs' : c.decoder = s' at hmiss
      cases hmiss with
      | short h => omega
      | aptsShort h =>
        have halign : s.blockAlign ≠ 0 := fun h0 =>
          hkeeps ⟨hmark, n, d, hblock, hn, .inr (.inr ⟨h0, .inl h⟩)⟩
        exact goesOn_unchanged hs' (hused.trans (hblock.used_eq halign))
      | aptsCut h => exact absurd ⟨hmark, n, d, hblock, hn, .inl h⟩ hkeeps
      | riffShort h =>
        have halign : s.blockAlign ≠ 0 := fun h0 =>
          hkeeps ⟨hmark, n, d, hblock, hn, .inr (.inr ⟨h0, .inr (.inl h)⟩)⟩
        exact goesOn_unchanged hs' (hused.trans (hblock.used_eq halign))
      | riffCut _ h =>
        have halign : s.blockAlign ≠ 0 := fun h0 =>
          hkeeps ⟨hmark, n, d, hblock, hn, .inr (.inr ⟨h0, .inr (.inr h)⟩)⟩
        have hstamp : s.waveTimestamp = 0xffffffff := by
          by_contra hne
          exact hkeeps ⟨hmark, n, d, hblock, hn, .inr (.inl ⟨h, hne⟩)⟩
        rw [unmarked_eq hmark hstamp] at hs'
        exact goesOn_unchanged hs' (hused.trans (hblock.used_eq halign))
      | wav hcodec => exact absurd (.inl rfl) hcodec
      | raw _ _ _ hlen => omega

/-! ### MS -/

theorem msBlock_outlen {s : Decoder} {n used : Nat} {c : Call} (h : msBlock s n used = some c) :
    0 ≤ c.outlen := by
  rw [msBlock] at h
  split at h
  · cases h
    exact Int.mul_nonneg (Int.natCast_nonneg _) (by decide)
  · cases h

theorem ms_negative {s : Decoder} {x : Bytes} {c : Call}
    (h : runmsadpcmdecoder s ⟨x, 0⟩ = some c) (hneg : c.outlen < 0) :
    ∃ u, blockHeader s ⟨x, 0⟩ = .error u ∧ c.decoder = s ∧ c.used = u := by
  rw [runmsadpcmdecoder] at h
  rcases hheader : blockHeader s ⟨x, 0⟩ with u | ⟨n, d, used⟩
  · simp only [hheader] at h
    cases h
    exact ⟨u, rfl, rfl, rfl⟩
  · simp only [hheader] at h
    split at h
    case isTrue =>
      cases h
      simp at hneg
    case isFalse =>
      rcases hrefill : refill .adpcmMs s ⟨d, used⟩ n with _ | ⟨s', r', o⟩
      · simp [hrefill] at h
      · simp only [hrefill] at h
        have := msBlock_outlen h
        omega

/-- Where `refill` gives back every byte of the call. -/
def GivesBack (s : Decoder) (n : Nat) (d : Bytes) : Prop :=
  s.waveTimestamplen = 0 ∧ (AptsShort d ∨ AptsCut d ∨ RiffShort n d)

theorem refill_givesBack {s : Decoder} {n : Nat} {d : Bytes} (h : GivesBack s n d) :
    ∃ s' data, (∀ used, refill .adpcmMs s ⟨d, used⟩ n = some (s', ⟨data, 0⟩, .missing)) ∧
      s'.ch = s.ch := by
  rcases h with ⟨hmark, h | h | h⟩
  · exact ⟨_, _, fun _ => refill_aptsShort hmark h, rfl⟩
  · exact ⟨_, _, fun _ => refill_aptsCut hmark h, rfl⟩
  · exact ⟨_, _, fun _ => refill_riffShort hmark (.inr rfl) h, rfl⟩

theorem givesBack_of_refill {s s' : Decoder} {n used : Nat} {d data : Bytes} (hn : 4 ≤ n)
    (hd : n ≤ d.length)
    (hrefill : refill .adpcmMs s ⟨d, used⟩ n = some (s', ⟨data, 0⟩, .missing)) :
    GivesBack s n d ∧ s'.ch = s.ch := by
  obtain ⟨hmark, reset, hmiss, hreset⟩ := refill_missing hn hrefill
  cases hmiss with
  | short h => omega
  | aptsShort h => exact ⟨⟨hmark, .inl h⟩, rfl⟩
  | aptsCut h => exact ⟨⟨hmark, .inr (.inl h)⟩, rfl⟩
  | riffShort h => exact ⟨⟨hmark, .inr (.inr h)⟩, rfl⟩
  | riffCut _ _ => exact absurd (hreset.mpr rfl) (by decide)
  | wav hcodec => exact absurd (.inr rfl) hcodec
  | raw _ _ _ hlen => omega

/-- The MS driver behind a header that is farther down. -/
theorem ms_shifted {s : Decoder} {r r' : Reader} {u : Nat}
    (h : blockHeader s r = shifted u (blockHeader s r'))
    (hkeeps : ∀ n d used, blockHeader s r = .ok (n, ⟨d, used⟩) → 4 ≤ n →
      n ≤ d.length ∧ ¬ ((s.ch = 1 ∨ s.ch = 2) ∧ n ≤ waveBlockSize ∧ GivesBack s n d)) :
    (runmsadpcmdecoder s r').map (observe u) = (runmsadpcmdecoder s r).map (observe 0) := by
  rw [runmsadpcmdecoder, runmsadpcmdecoder, h]
  rcases hheader : blockHeader s r' with e | ⟨n, d, used⟩
  · simp [shifted, observe]
  · rw [hheader] at h
    simp only [shifted]
    split
    · simp [observe]
    · obtain ⟨hd, hback⟩ := hkeeps n d _ h (by omega)
      have hoffset := refill_offset u .adpcmMs s d used n
      have hgive : ∀ s' data, refill .adpcmMs s ⟨d, u + used⟩ n = some (s', ⟨data, 0⟩, .missing) →
          msBlock s' n 0 = none := by
        intro s' data hrefill
        obtain ⟨hgives, hch⟩ := givesBack_of_refill (by omega) hd hrefill
        rw [msBlock, if_neg]
        rintro ⟨hch', hsize⟩
        exact hback ⟨hch ▸ hch', hsize, hgives⟩
      generalize refill .adpcmMs s ⟨d, u + used⟩ n = b at hoffset hgive ⊢
      generalize refill .adpcmMs s ⟨d, used⟩ n = a at hoffset ⊢
      cases hoffset with
      | undefined => rfl
      | ended s' data used' o => exact (msBlock_observe ..).symm
      | reset s' data =>
        simp only [hgive s' data rfl]
        rfl

theorem msBlock_some {s : Decoder} {n : Nat} (hch : s.ch = 1 ∨ s.ch = 2) (hn : n ≤ waveBlockSize)
    (used : Nat) : ∃ c, msBlock s n used = some c := by
  rw [msBlock, if_pos ⟨hch, hn⟩]
  exact ⟨_, rfl⟩

theorem ms_resumes_iff (s : Decoder) (x : Bytes) :
    Resumes .adpcmMs s x ↔ ¬ (s.waveTimestamplen = 0 ∧ MsLoses s x) := by
  constructor
  · rintro hresumes ⟨hmark, halign, hx, hword, hincomplete, hch, y, n, d, hblock, hn, hsize, hcut⟩
    rcases hheader : blockHeader s ⟨x, 0⟩ with u | ⟨m, d', used⟩
    · have hpos := header_error_pos halign hx hword hheader
      have hcall : audioDecDecode .adpcmMs s x = some ⟨s, -1, u, []⟩ := by
        simp only [audioDecDecode, adpcmDecodeFrame, runmsadpcmdecoder, hheader]
      have hnext := (hresumes _ hcall (by simp)).next y
      obtain ⟨s', data, hrefill, hch'⟩ := refill_givesBack ⟨hmark, hcut⟩
      obtain ⟨c, hc⟩ := msBlock_some (hch' ▸ hch) hsize 0
      -- both calls end with nothing used
      have hends : ∀ z used, blockHeader s ⟨z, 0⟩ = .ok (n, ⟨d, used⟩) →
          audioDecDecode .adpcmMs s z = some c := by
        intro z used hz
        simp only [audioDecDecode, adpcmDecodeFrame, runmsadpcmdecoder, hz, hrefill]
        rw [if_neg (by omega)]
        exact hc
      have hwhole := header_ok.mpr ⟨hblock, rfl⟩
      have hrest := header_resume hheader y
      rw [hwhole] at hrest
      rcases hz : blockHeader s ⟨x.drop u ++ y, 0⟩ with e | ⟨m, d', used⟩
      · rw [hz] at hrest
        cases hrest
      · rw [hz] at hrest
        simp only [shifted, Except.ok.injEq, Prod.mk.injEq, Reader.mk.injEq] at hrest
        obtain ⟨rfl, rfl, -⟩ := hrest
        rw [hends _ _ hwhole, hends _ _ hz] at hnext
        have hused : u + c.used = 0 + c.used := congrArg (fun q => q.2.1) (Option.some.inj hnext)
        omega
    · exact hincomplete m d' (header_ok.mp hheader).1
  · intro hkeeps c hcall hneg
    obtain ⟨u, hheader, hdecoder, hused⟩ := ms_negative hcall hneg
    by_cases hu : u = 0
    · exact goesOn_unchanged hdecoder (hused.trans hu)
    · refine ⟨fun y => ?_, by rw [hdecoder], by rw [hdecoder], by rw [hdecoder]⟩
      rw [hdecoder, hused]
      refine ms_shifted (header_resume hheader y) ?_
      intro n d used hok hn
      obtain ⟨hblock, -⟩ := header_ok.mp hok
      refine ⟨hblock.length_le, ?_⟩
      rintro ⟨hch, hsize, hmark, hcut⟩
      obtain ⟨halign, hx, hword⟩ := header_error_skips hheader hu
      refine hkeeps ⟨hmark, halign, hx, hword, ?_, hch, y, n, d, hblock, hn, hsize, hcut⟩
      intro m d' hfound
      rw [header_ok.mpr ⟨hfound, rfl⟩] at hheader
      cases hheader

/-! ### Every codec -/

/-- A call that runs out of data may be taken up again with more, and leaves the timestamps alone,
    exactly if the data that it was given is not of the kinds that `Loses` names. -/
theorem resumes_iff (codec : Codec) (s : Decoder) (x : Bytes) :
    Resumes codec s x ↔ ¬ Loses codec s x := by
  cases codec with
  | pcmAlaw => exact plain_resumes_iff (by simp) s x
  | pcmMulaw => exact plain_resumes_iff (by simp) s x
  | adpcmImaWav => exact ima_resumes_iff s x
  | adpcmMs => exact ms_resumes_iff s x
  | pcm => exact plain_resumes_iff (by simp) s x

theorem reachable_monoDecoder : Reachable monoDecoder :=
  ⟨fun _ => (0, 0), 1, 8, List.replicate waveBlockSize 0, List.replicate pcmBufSize 0, [],
    by simp [run, step, monoDecoder]⟩

/-- A unit with four of its eight bytes: the call takes over the length, and the next call, on the
    whole unit, takes eight bytes of the header for the block. -/
theorem not_resumes_half_unit :
    Reachable monoDecoder ∧
    (audioDecDecode .adpcmImaWav monoDecoder (silence.bytes.take 16)).map
      (fun c => (c.outlen, c.used, c.decoder.waveTimestamplen)) = some (-1, 0, 8) ∧
    (audioDecDecode .adpcmImaWav monoDecoder silence.bytes).map Call.used = some 20 ∧
    ((audioDecDecode .adpcmImaWav monoDecoder (silence.bytes.take 16)).bind
      fun c => audioDecDecode .adpcmImaWav c.decoder silence.bytes).map Call.used = some 8 ∧
    ¬ Resumes .adpcmImaWav monoDecoder (silence.bytes.take 16) := by
  have hfirst : (audioDecDecode .adpcmImaWav monoDecoder (silence.bytes.take 16)).map
      (fun c => (c.outlen, c.used, c.decoder.waveTimestamplen)) = some (-1, 0, 8) := by
    decide +kernel
  have hwhole : (audioDecDecode .adpcmImaWav monoDecoder silence.bytes).map Call.used =
      some 20 := by
    decide +kernel
  have hnext : ((audioDecDecode .adpcmImaWav monoDecoder (silence.bytes.take 16)).bind
      fun c => audioDecDecode .adpcmImaWav c.decoder silence.bytes).map Call.used = some 8 := by
    decide +kernel
  refine ⟨reachable_monoDecoder, hfirst, hwhole, hnext, ?_⟩
  intro hresumes
  obtain ⟨c, hcall, hobserved⟩ := Option.map_eq_some_iff.mp hfirst
  simp only [Prod.mk.injEq] at hobserved
  have hsame := (hresumes c hcall (by omega)).waveTimestamplen
  have hzero : monoDecoder.waveTimestamplen = 0 := rfl
  omega

end Streambox.Adpcm
