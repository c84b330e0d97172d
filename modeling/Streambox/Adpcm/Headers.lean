import Streambox.Adpcm.Framing

/-! libadpcm: the headers that `refill` and the block drivers look for, and where they run out of
    data on the way.

        [.. 11 22 33 44 hi lo]  "APTS" timestamp length  payload
                                "RIFF" ... "data" size   payload
                                                         payload -/

namespace Streambox.Adpcm

/-! ### A reader that has used more -/

/-- Two results of `refill` that differ in the bytes used before it. -/
inductive Offset (u : Nat) : Option (Decoder × Reader × Refill) →
    Option (Decoder × Reader × Refill) → Prop
  | undefined : Offset u none none
  | ended (s : Decoder) (data : Bytes) (used : Nat) (o : Refill) :
      Offset u (some (s, ⟨data, used⟩, o)) (some (s, ⟨data, u + used⟩, o))
  | reset (s : Decoder) (data : Bytes) :
      Offset u (some (s, ⟨data, 0⟩, .missing)) (some (s, ⟨data, 0⟩, .missing))

theorem read_offset (u : Nat) (data : Bytes) (used size : Nat) :
    Reader.read ⟨data, u + used⟩ size =
      ((Reader.read ⟨data, used⟩ size).1,
        ⟨(Reader.read ⟨data, used⟩ size).2.data, u + (Reader.read ⟨data, used⟩ size).2.used⟩) := by
  rw [Reader.read, Reader.read]
  by_cases h : size ≤ data.length
  · simp [Reader.valid, h, Nat.add_assoc]
  · simp [Reader.valid, h]

theorem refillCopy_offset (u : Nat) (s : Decoder) (data : Bytes) (used offset len lenBak : Nat) :
    Offset u (refillCopy s ⟨data, used⟩ offset len lenBak)
      (refillCopy s ⟨data, u + used⟩ offset len lenBak) := by
  rw [refillCopy, refillCopy, read_offset, read_offset]
  split_ifs
  · cases hstore : s.store offset (Reader.read ⟨data, used⟩ s.refillTimestampLen).1 with
    | none => exact .undefined
    | some s' =>
      simp only [Option.map_some, read_offset]
      exact .ended ..
  · exact .undefined
  · cases hstore : s.store offset (Reader.read ⟨data, used⟩ len).1 with
    | none => exact .undefined
    | some s' => exact .ended ..

/-- The same test on two readers with the same data. -/
theorem Offset.ite {u : Nat} {data : Bytes} {used used' size : Nat}
    {a b a' b' : Option (Decoder × Reader × Refill)} (ha : Offset u a a') (hb : Offset u b b') :
    Offset u (if Reader.valid ⟨data, used⟩ < size then a else b)
      (if Reader.valid ⟨data, used'⟩ < size then a' else b') := by
  by_cases h : data.length < size
  · have h₁ : Reader.valid ⟨data, used⟩ < size := h
    have h₂ : Reader.valid ⟨data, used'⟩ < size := h
    rw [if_pos h₁, if_pos h₂]
    exact ha
  · have h₁ : ¬ Reader.valid ⟨data, used⟩ < size := h
    have h₂ : ¬ Reader.valid ⟨data, used'⟩ < size := h
    rw [if_neg h₁, if_neg h₂]
    exact hb

theorem refillRaw_offset (u : Nat) (s : Decoder) (data : Bytes) (used : Nat) (tag : Bytes)
    (len : Nat) (mark : Decoder → Decoder) :
    Offset u (refillRaw s ⟨data, used⟩ tag len mark)
      (refillRaw s ⟨data, u + used⟩ tag len mark) := by
  rw [refillRaw, refillRaw]
  cases s.store 0 tag with
  | none => exact .undefined
  | some s' => exact Offset.ite (.reset ..) (refillCopy_offset ..)

theorem refillApts_offset (u : Nat) (s : Decoder) (data : Bytes) (used len : Nat) :
    Offset u (refillApts s ⟨data, used⟩ len) (refillApts s ⟨data, u + used⟩ len) := by
  rw [refillApts, refillApts]
  simp only [read_offset]
  exact Offset.ite (.reset ..) (Offset.ite (.reset ..) (refillCopy_offset ..))

theorem refillRiff_offset (u : Nat) (s : Decoder) (data : Bytes) (used len : Nat) :
    Offset u (refillRiff s ⟨data, used⟩ len) (refillRiff s ⟨data, u + used⟩ len) := by
  rw [refillRiff, refillRiff]
  cases riffSearch len data with
  | none => exact .reset ..
  | some rest =>
    simp only [Nat.add_assoc, read_offset]
    exact Offset.ite (.ended ..) (refillCopy_offset ..)

/-- How a call of `refill` ends does not depend on what was used before it, but where it sets
    `UsedDataLen` to zero the bytes before it are given back too. -/
theorem refill_offset (u : Nat) (codec : Codec) (s : Decoder) (data : Bytes) (used len : Nat) :
    Offset u (refill codec s ⟨data, used⟩ len) (refill codec s ⟨data, u + used⟩ len) := by
  rw [refill, refill]
  by_cases hmark : s.waveTimestamplen ≠ 0
  · rw [if_pos hmark, if_pos hmark]
    exact refillCopy_offset ..
  · rw [if_neg hmark, if_neg hmark]
    simp only [read_offset]
    refine Offset.ite (.reset ..) ?_
    split_ifs with hapts hriff hblock
    · exact refillApts_offset ..
    · exact refillRiff_offset ..
    · exact refillRaw_offset ..
    · exact refillRaw_offset ..

/-! ### Headers that are cut -/

/-- The length in a header "APTS". -/
def aptsLength (d : Bytes) : Nat := bigEndian ((d.drop 8).take 4)

/-- The header "APTS" itself is not there in full. -/
def AptsShort (d : Bytes) : Prop := d.take 4 = tagApts ∧ d.length < 12

/-- The header is there, its payload is not. -/
def AptsCut (d : Bytes) : Prop :=
  d.take 4 = tagApts ∧ 12 ≤ d.length ∧ d.length - 12 < aptsLength d

/-- No "data" in a WAV header. -/
def RiffShort (n : Nat) (d : Bytes) : Prop := d.take 4 = tagRiff ∧ riffSearch n (d.drop 4) = none

/-- The WAV header is there, but not its length field and a block. -/
def RiffCut (n : Nat) (d : Bytes) : Prop :=
  d.take 4 = tagRiff ∧ ∃ data, riffSearch n (d.drop 4) = some data ∧ data.length < n + 4

/-- What a header "APTS" leaves in the static variables. -/
def Decoder.stamped (s : Decoder) (d : Bytes) : Decoder :=
  { s with
    waveTimestamp := bigEndian ((d.drop 4).take 4)
    waveTimestamplen := aptsLength d
    refillTimestampLen := aptsLength d }

theorem tag_length {d tag : Bytes} (h : d.take 4 = tag) (htag : tag.length = 4) : 4 ≤ d.length := by
  have hlen := congrArg List.length h
  rw [List.length_take] at hlen
  omega

/-- `refill` behind the tag. -/
theorem refill_tag {codec : Codec} {s : Decoder} {d : Bytes} {used n : Nat}
    (hmark : s.waveTimestamplen = 0) (hd : 4 ≤ d.length) :
    refill codec s ⟨d, used⟩ n =
      if d.take 4 = tagApts then refillApts s ⟨d.drop 4, used + 4⟩ n
      else if d.take 4 = tagRiff then
        if codec = .adpcmImaWav ∨ codec = .adpcmMs then refillRiff s ⟨d.drop 4, used + 4⟩ n
        else refillRaw s.unmarked ⟨d.drop 4, used + 4⟩ (d.take 4) n id
      else refillRaw s ⟨d.drop 4, used + 4⟩ (d.take 4) n Decoder.unmarked := by
  have hvalid : ¬ Reader.valid ⟨d, used⟩ < 4 := by
    simp only [Reader.valid]
    omega
  have hread : Reader.read ⟨d, used⟩ 4 = (d.take 4, ⟨d.drop 4, used + 4⟩) :=
    Reader.read_of_le hd
  rw [refill, if_neg (by omega), if_neg hvalid]
  simp only [hread]

theorem refillApts_eq {s : Decoder} {d : Bytes} {used n : Nat} (hd : 4 ≤ d.length) :
    refillApts s ⟨d.drop 4, used⟩ n =
      if d.length < 12 then some (s, ⟨d.drop 4, 0⟩, .missing)
      else if d.length - 12 < aptsLength d then some (s.stamped d, ⟨d.drop 12, 0⟩, .missing)
      else refillCopy (s.stamped d) ⟨d.drop 12, used + 8⟩ 0 n n := by
  rw [refillApts]
  by_cases hshort : d.length < 12
  · have hvalid : Reader.valid ⟨d.drop 4, used⟩ < 8 := by
      simp only [Reader.valid, List.length_drop]
      omega
    rw [if_pos hvalid, if_pos hshort]
    rfl
  · have hvalid : ¬ Reader.valid ⟨d.drop 4, used⟩ < 8 := by
      simp only [Reader.valid, List.length_drop]
      omega
    have hread₁ : Reader.read ⟨d.drop 4, used⟩ 4 = ((d.drop 4).take 4, ⟨d.drop 8, used + 4⟩) := by
      rw [Reader.read_of_le (by simp only [Reader.valid, List.length_drop]; omega)]
      simp
    have hread₂ : Reader.read ⟨d.drop 8, used + 4⟩ 4 =
        ((d.drop 8).take 4, ⟨d.drop 12, used + 8⟩) := by
      rw [Reader.read_of_le (by simp only [Reader.valid, List.length_drop]; omega)]
      simp
    rw [if_neg hvalid, if_neg hshort]
    simp only [hread₁, hread₂, Reader.valid, List.length_drop]
    rfl

theorem refill_aptsShort {codec : Codec} {s : Decoder} {d : Bytes} {used n : Nat}
    (hmark : s.waveTimestamplen = 0) (h : AptsShort d) :
    refill codec s ⟨d, used⟩ n = some (s, ⟨d.drop 4, 0⟩, .missing) := by
  have hd := tag_length h.1 rfl
  rw [refill_tag hmark hd, if_pos h.1, refillApts_eq hd, if_pos h.2]

theorem refill_aptsCut {codec : Codec} {s : Decoder} {d : Bytes} {used n : Nat}
    (hmark : s.waveTimestamplen = 0) (h : AptsCut d) :
    refill codec s ⟨d, used⟩ n = some (s.stamped d, ⟨d.drop 12, 0⟩, .missing) := by
  have hd := tag_length h.1 rfl
  have hlen := h.2.1
  rw [refill_tag hmark hd, if_pos h.1, refillApts_eq hd, if_neg (by omega), if_pos h.2.2]

theorem refill_riff {codec : Codec} {s : Decoder} {d : Bytes} {used n : Nat}
    (hmark : s.waveTimestamplen = 0) (hblock : codec = .adpcmImaWav ∨ codec = .adpcmMs)
    (h : d.take 4 = tagRiff) :
    refill codec s ⟨d, used⟩ n = refillRiff s ⟨d.drop 4, used + 4⟩ n := by
  have happly : ¬ d.take 4 = tagApts := by
    rw [h]
    decide
  rw [refill_tag hmark (tag_length h rfl), if_neg happly, if_pos h, if_pos hblock]

theorem refill_riffShort {codec : Codec} {s : Decoder} {d : Bytes} {used n : Nat}
    (hmark : s.waveTimestamplen = 0) (hblock : codec = .adpcmImaWav ∨ codec = .adpcmMs)
    (h : RiffShort n d) :
    refill codec s ⟨d, used⟩ n = some (s, ⟨d.drop 4, 0⟩, .missing) := by
  rw [refill_riff hmark hblock h.1, refillRiff]
  simp only [h.2]
  rfl

/-- The data behind the length field. -/
theorem read_length (data : Bytes) (used : Nat) {n : Nat} (hn : 4 ≤ n) :
    Reader.valid (Reader.read ⟨data, used⟩ 4).2 < n ↔ data.length < n + 4 := by
  by_cases h : 4 ≤ data.length
  · rw [Reader.read_of_le h]
    simp only [Reader.valid, List.length_drop]
    omega
  · rw [Reader.read_of_lt (by simp only [Reader.valid]; omega)]
    simp only [Reader.valid]
    omega

theorem read_used (data : Bytes) (used size : Nat) :
    used ≤ (Reader.read ⟨data, used⟩ size).2.used := by
  rw [Reader.read]
  split
  · exact Nat.le_add_right ..
  · exact Nat.le_refl _

theorem refill_riffCut {codec : Codec} {s : Decoder} {d : Bytes} {used n : Nat}
    (hmark : s.waveTimestamplen = 0) (hblock : codec = .adpcmImaWav ∨ codec = .adpcmMs)
    (hn : 4 ≤ n) (h : RiffCut n d) :
    ∃ r, refill codec s ⟨d, used⟩ n = some (s.unmarked, r, .missing) := by
  obtain ⟨htag, data, hsearch, hdata⟩ := h
  rw [refill_riff hmark hblock htag, refillRiff]
  simp only [hsearch]
  rw [if_pos ((read_length _ _ hn).mpr hdata)]
  exact ⟨_, rfl⟩

theorem store_keeps {s s' : Decoder} {offset : Nat} {bytes : Bytes}
    (h : s.store offset bytes = some s') : s' = { s with waveBuf := s'.waveBuf } := by
  rw [Decoder.store] at h
  split at h
  · cases h
    rfl
  · cases h

theorem refillCopy_filled {s s' : Decoder} {r r' : Reader} {offset len lenBak : Nat} {o : Refill}
    (h : refillCopy s r offset len lenBak = some (s', r', o)) : o ≠ .missing := by
  rw [refillCopy] at h
  split_ifs at h
  · obtain ⟨_, _, h⟩ := Option.map_eq_some_iff.mp h
    cases h
    simp
  · obtain ⟨_, _, h⟩ := Option.map_eq_some_iff.mp h
    cases h
    simp

/-- The exits of `refill` that lack data: the state that they leave, and whether they set
    `UsedDataLen` to zero. -/
inductive Miss (codec : Codec) (s : Decoder) (n : Nat) (d : Bytes) : Decoder → Bool → Prop
  | short (h : d.length < 4) : Miss codec s n d s true
  | aptsShort (h : AptsShort d) : Miss codec s n d s true
  | aptsCut (h : AptsCut d) : Miss codec s n d (s.stamped d) true
  | riffShort (h : RiffShort n d) : Miss codec s n d s true
  | riffCut (hcodec : codec = .adpcmImaWav ∨ codec = .adpcmMs) (h : RiffCut n d) :
      Miss codec s n d s.unmarked false
  | wav (hcodec : ¬ (codec = .adpcmImaWav ∨ codec = .adpcmMs)) (htag : d.take 4 = tagRiff)
      (hlen : d.length < n) (s' : Decoder) (hstore : s.unmarked.store 0 (d.take 4) = some s') :
      Miss codec s n d s' true
  | raw (htag : 4 ≤ d.length) (hapts : d.take 4 ≠ tagApts) (hriff : d.take 4 ≠ tagRiff)
      (hlen : d.length < n) (s' : Decoder) (hstore : s.store 0 (d.take 4) = some s') :
      Miss codec s n d s' true

theorem refillRaw_missing {s s' : Decoder} {d : Bytes} {used n : Nat} {r' : Reader} {tag : Bytes}
    {mark : Decoder → Decoder} (hd : 4 ≤ d.length)
    (h : refillRaw s ⟨d.drop 4, used⟩ tag n mark = some (s', r', .missing)) :
    s.store 0 tag = some s' ∧ d.length < n ∧ r'.used = 0 := by
  rw [refillRaw] at h
  cases hstore : s.store 0 tag with
  | none => simp [hstore] at h
  | some s₁ =>
    simp only [hstore] at h
    split at h
    case isTrue hvalid =>
      simp only [Reader.valid, List.length_drop] at hvalid
      cases h
      exact ⟨rfl, by omega, rfl⟩
    case isFalse => exact absurd rfl (refillCopy_filled h)

theorem refill_missing {codec : Codec} {s s' : Decoder} {d : Bytes} {used n : Nat} {r' : Reader}
    (hn : 4 ≤ n) (h : refill codec s ⟨d, used⟩ n = some (s', r', .missing)) :
    s.waveTimestamplen = 0 ∧
      ∃ reset, Miss codec s n d s' reset ∧ (reset = true ↔ r'.used = 0) := by
  by_cases hmark : s.waveTimestamplen = 0
  · refine ⟨hmark, ?_⟩
    by_cases hd : d.length < 4
    · rw [refill, if_neg (by omega), if_pos (by simpa [Reader.valid] using hd)] at h
      cases h
      exact ⟨true, .short hd, by simp [Reader.reset]⟩
    · rw [refill_tag hmark (by omega)] at h
      split at h
      case isTrue hapts =>
        rw [refillApts_eq (by omega)] at h
        split at h
        case isTrue hshort =>
          cases h
          exact ⟨true, .aptsShort ⟨hapts, hshort⟩, by simp⟩
        case isFalse hshort =>
          split at h
          case isTrue hcut =>
            cases h
            exact ⟨true, .aptsCut ⟨hapts, by omega, hcut⟩, by simp⟩
          case isFalse => exact absurd rfl (refillCopy_filled h)
      case isFalse hapts =>
        split at h
        case isTrue hriff =>
          split at h
          case isTrue hblock =>
            rw [refillRiff] at h
            cases hsearch : riffSearch n (d.drop 4) with
            | none =>
              simp only [hsearch] at h
              cases h
              exact ⟨true, .riffShort ⟨hriff, hsearch⟩, by simp [Reader.reset]⟩
            | some data =>
              simp only [hsearch] at h
              split at h
              case isTrue hcut =>
                have hused := read_used data (used + 4 + ((d.drop 4).length - data.length)) 4
                cases h
                exact ⟨false, .riffCut hblock ⟨hriff, data, hsearch, (read_length _ _ hn).mp hcut⟩,
                  iff_of_false (by decide) (by omega)⟩
              case isFalse => exact absurd rfl (refillCopy_filled h)
          case isFalse hblock =>
            obtain ⟨hstore, hlen, hused⟩ := refillRaw_missing (by omega) h
            exact ⟨true, .wav hblock hriff hlen s' hstore, by simp [hused]⟩
        case isFalse hriff =>
          obtain ⟨hstore, hlen, hused⟩ := refillRaw_missing (by omega) h
          exact ⟨true, .raw (by omega) hapts hriff hlen s' hstore, by simp [hused]⟩
  · rw [refill, if_pos hmark] at h
    exact absurd rfl (refillCopy_filled h)

/-! ### The search for "data" -/

theorem riffSearch_suffix {tmp : Int} {x data : Bytes} (h : riffSearch tmp x = some data) :
    data <:+ x := by
  fun_induction riffSearch tmp x with
  | case1 => exact (Option.some.inj h) ▸ List.suffix_refl _
  | case2 => cases h
  | case3 => exact (Option.some.inj h) ▸ List.suffix_refl _
  | case4 => cases h
  | case5 tmp _ b c d rest =>
    cases h
    exact ⟨[_, b, c, d], rfl⟩
  | case6 tmp _ b c d rest _ _ ih =>
    obtain ⟨pre, hpre⟩ := ih h
    exact ⟨_ :: b :: c :: d :: pre, by rw [← hpre]; rfl⟩
  | case7 => cases h
  | case8 tmp byte rest _ _ _ ih =>
    obtain ⟨pre, hpre⟩ := ih h
    exact ⟨byte :: pre, by rw [← hpre]; rfl⟩

/-! ### The search for the sync word -/

def syncWord : Bytes := [0x11, 0x22, 0x33, 0x44]

theorem syncSearch_short {x : Bytes} (h : x.length < 4) : syncSearch x = none := by
  cases x with
  | nil => rfl
  | cons byte rest =>
    have hne : ¬ (byte :: rest).take 4 = [0x11, 0x22, 0x33, 0x44] := by
      intro heq
      have := tag_length heq rfl
      omega
    rw [List.length_cons] at h
    rw [syncSearch, if_neg hne, if_pos (by omega)]

theorem syncSearch_cons (byte : UInt8) (rest : Bytes) :
    syncSearch (byte :: rest) =
      if (byte :: rest).take 4 = syncWord then some (rest.drop 3) else syncSearch rest := by
  rw [syncSearch]
  change ite ((byte :: rest).take 4 = syncWord) _ _ = _
  congr 1
  split
  · rw [syncSearch_short ‹_›]
  · rfl

theorem syncSearch_word (x : Bytes) : syncSearch (syncWord ++ x) = some x := rfl

/-- A sync word that was found is found with more data, too. -/
theorem syncSearch_some {x data : Bytes} (h : syncSearch x = some data) :
    ∃ pre, x = pre ++ (syncWord ++ data) ∧
      ∀ y, syncSearch (x ++ y) = some (data ++ y) := by
  induction x with
  | nil => cases h
  | cons byte rest ih =>
    rw [syncSearch_cons] at h
    split at h
    case isTrue hword =>
      have hlen := tag_length hword rfl
      rw [List.length_cons] at hlen
      have hsplit : byte :: rest = syncWord ++ data := by
        rw [← hword, ← Option.some.inj h]
        exact (List.take_append_drop 4 (byte :: rest)).symm
      refine ⟨[], hsplit, fun y => ?_⟩
      rw [hsplit, List.append_assoc, syncSearch_word]
    case isFalse hword =>
      obtain ⟨pre, hpre, happend⟩ := ih h
      refine ⟨byte :: pre, by rw [hpre]; rfl, fun y => ?_⟩
      have htake : (byte :: (rest ++ y)).take 4 = (byte :: rest).take 4 := by
        rw [← List.cons_append, List.take_append_of_le_length]
        rw [hpre]
        simp only [syncWord, List.length_cons, List.length_append]
        omega
      rw [List.cons_append, syncSearch_cons, htake, if_neg hword, happend]

/-- A search that failed may be taken up three bytes before the end. -/
theorem syncSearch_none {x : Bytes} (h : syncSearch x = none) (y : Bytes) :
    syncSearch (x ++ y) = syncSearch (x.drop (x.length - 3) ++ y) := by
  induction x with
  | nil => rfl
  | cons byte rest ih =>
    by_cases hlen : rest.length < 3
    · rw [show (byte :: rest).length - 3 = 0 by simp only [List.length_cons]; omega, List.drop_zero]
    · rw [syncSearch_cons] at h
      split at h
      case isTrue => cases h
      case isFalse hword =>
        have htake : (byte :: (rest ++ y)).take 4 = (byte :: rest).take 4 := by
          rw [← List.cons_append, List.take_append_of_le_length]
          rw [List.length_cons]
          omega
        rw [show (byte :: rest).length - 3 = rest.length - 3 + 1 by
            simp only [List.length_cons]; omega,
          List.drop_succ_cons, List.cons_append, syncSearch_cons, htake, if_neg hword, ih h]

/-! ### The header of a block -/

/-- The block that the drivers find: of `block_align` bytes, or behind a sync word and its size. -/
def BlockAt (s : Decoder) (x : Bytes) (n : Nat) (d : Bytes) : Prop :=
  if s.blockAlign = 0 then
    ∃ hi lo, syncSearch x = some (hi :: lo :: d) ∧ n = hi.toNat * 256 + lo.toNat ∧ n ≤ d.length
  else n = s.blockAlign ∧ d = x ∧ n ≤ x.length

/-- What follows a sync word, with the bytes skipped before it. -/
def syncBlock (skip : Nat) (data : Bytes) : Except Nat (Nat × Reader) :=
  if data.length < 2 then .error skip
  else if data.length - 2 < byteAt data 0 * 256 + byteAt data 1 then .error skip
  else .ok (byteAt data 0 * 256 + byteAt data 1, ⟨data.drop 2, skip + 6⟩)

theorem sync_length {x pre data : Bytes} (hpre : x = pre ++ (syncWord ++ data)) :
    x.length = pre.length + 4 + data.length := by
  rw [hpre]
  simp only [syncWord, List.length_append, List.length_cons, List.length_nil]
  omega

theorem header_none {s : Decoder} {x : Bytes} (halign : s.blockAlign = 0)
    (h : syncSearch x = none) : blockHeader s ⟨x, 0⟩ = .error (x.length - 3) := by
  rw [blockHeader, if_pos halign]
  simp only [Reader.valid, h]
  split
  · rw [Nat.sub_eq_zero_of_le (by omega)]
  · rw [Nat.zero_add]

theorem header_some {s : Decoder} {x pre data : Bytes} (halign : s.blockAlign = 0)
    (h : syncSearch x = some data) (hpre : x = pre ++ (syncWord ++ data)) :
    blockHeader s ⟨x, 0⟩ = syncBlock pre.length data := by
  have hx := sync_length hpre
  have hvalid : ¬ Reader.valid ⟨x, 0⟩ < 4 := by
    simp only [Reader.valid]
    omega
  have hused : 0 + (x.length - data.length) = pre.length + 4 := by omega
  rw [blockHeader, if_pos halign, if_neg hvalid]
  simp only [Reader.valid, h, hused]
  rfl

theorem header_align {s : Decoder} {x : Bytes} (halign : s.blockAlign ≠ 0) :
    blockHeader s ⟨x, 0⟩ =
      if x.length < s.blockAlign then .error 0 else .ok (s.blockAlign, ⟨x, 0⟩) := by
  rw [blockHeader, if_neg halign]
  rfl

theorem syncBlock_error {skip u : Nat} {data : Bytes} (h : syncBlock skip data = .error u) :
    skip = u := by
  rw [syncBlock] at h
  split at h
  · cases h
    rfl
  · split at h
    · cases h
      rfl
    · cases h

theorem syncBlock_ok {skip n : Nat} {data : Bytes} {r : Reader} :
    syncBlock skip data = .ok (n, r) ↔
      ∃ hi lo, data = hi :: lo :: r.data ∧ n = hi.toNat * 256 + lo.toNat ∧ n ≤ r.data.length ∧
        r.used = skip + 6 := by
  obtain ⟨d, used⟩ := r
  constructor
  · intro h
    rcases data with _ | ⟨hi, _ | ⟨lo, rest⟩⟩
    · cases h
    · cases h
    · simp only [syncBlock, List.length_cons, byteAt, List.getD_cons_zero, List.getD_cons_succ,
        List.drop_succ_cons, List.drop_zero] at h
      rw [if_neg (by omega)] at h
      split at h
      case isTrue => cases h
      case isFalse hblock =>
        cases h
        exact ⟨hi, lo, rfl, rfl, by simp only; omega, rfl⟩
  · rintro ⟨hi, lo, rfl, rfl, hle, rfl⟩
    simp only at hle
    rw [syncBlock, if_neg (by simp), if_neg]
    · rfl
    · simp only [List.length_cons, byteAt, List.getD_cons_zero, List.getD_cons_succ]
      omega

theorem header_ok {s : Decoder} {x d : Bytes} {n used : Nat} :
    blockHeader s ⟨x, 0⟩ = .ok (n, ⟨d, used⟩) ↔ BlockAt s x n d ∧ used = x.length - d.length := by
  by_cases halign : s.blockAlign = 0
  · rw [BlockAt, if_pos halign]
    cases hsearch : syncSearch x with
    | none => simp [header_none halign hsearch]
    | some data =>
      obtain ⟨pre, hpre, -⟩ := syncSearch_some hsearch
      have hx := sync_length hpre
      rw [header_some halign hsearch hpre, syncBlock_ok]
      constructor
      · rintro ⟨hi, lo, rfl, rfl, hle, hused⟩
        simp only [List.length_cons] at hx hle hused
        exact ⟨⟨hi, lo, rfl, rfl, hle⟩, by omega⟩
      · rintro ⟨⟨hi, lo, hdata, rfl, hle⟩, rfl⟩
        cases hdata
        simp only [List.length_cons] at hx
        exact ⟨hi, lo, rfl, rfl, hle, by simp only; omega⟩
  · rw [BlockAt, if_neg halign, header_align halign]
    split
    case isTrue hlen =>
      refine iff_of_false (by simp) ?_
      rintro ⟨⟨rfl, -, hle⟩, -⟩
      omega
    case isFalse hlen =>
      constructor
      · intro h
        cases h
        exact ⟨⟨rfl, rfl, by omega⟩, by omega⟩
      · rintro ⟨⟨rfl, rfl, -⟩, rfl⟩
        rw [Nat.sub_self]

theorem BlockAt.length_le {s : Decoder} {x d : Bytes} {n : Nat} (h : BlockAt s x n d) :
    n ≤ d.length := by
  rw [BlockAt] at h
  split at h
  · obtain ⟨-, -, -, -, hle⟩ := h
    exact hle
  · obtain ⟨-, rfl, hle⟩ := h
    exact hle

theorem BlockAt.used_eq {s : Decoder} {x d : Bytes} {n : Nat} (h : BlockAt s x n d)
    (halign : s.blockAlign ≠ 0) : x.length - d.length = 0 := by
  rw [BlockAt, if_neg halign] at h
  rw [h.2.1, Nat.sub_self]

/-- The block is the end of the data. -/
theorem BlockAt.drop_eq {s : Decoder} {x d : Bytes} {n : Nat} (h : BlockAt s x n d) :
    x.drop (x.length - d.length) = d := by
  rw [BlockAt] at h
  split at h
  · obtain ⟨hi, lo, hsearch, -, -⟩ := h
    obtain ⟨pre, hpre, -⟩ := syncSearch_some hsearch
    have hx : x = (pre ++ syncWord ++ [hi, lo]) ++ d := by simp [hpre]
    rw [hx, List.length_append, Nat.add_sub_cancel, List.drop_left]
  · obtain ⟨-, rfl, -⟩ := h
    rw [Nat.sub_self, List.drop_zero]

theorem header_used_pos {s : Decoder} {x d : Bytes} {n used : Nat} (halign : s.blockAlign = 0)
    (h : blockHeader s ⟨x, 0⟩ = .ok (n, ⟨d, used⟩)) : 0 < used := by
  obtain ⟨hblock, rfl⟩ := header_ok.mp h
  rw [BlockAt, if_pos halign] at hblock
  obtain ⟨hi, lo, hsearch, -, -⟩ := hblock
  obtain ⟨pre, hpre, -⟩ := syncSearch_some hsearch
  have hx := sync_length hpre
  rw [List.length_cons, List.length_cons] at hx
  omega

/-- Bytes are skipped unless the sync word is in front. -/
theorem header_error_pos {s : Decoder} {x : Bytes} {u : Nat} (halign : s.blockAlign = 0)
    (hx : 4 ≤ x.length) (hword : x.take 4 ≠ syncWord)
    (h : blockHeader s ⟨x, 0⟩ = .error u) : 0 < u := by
  cases hsearch : syncSearch x with
  | none =>
    rw [header_none halign hsearch] at h
    cases h
    omega
  | some data =>
    obtain ⟨pre, hpre, -⟩ := syncSearch_some hsearch
    rw [header_some halign hsearch hpre] at h
    rw [← syncBlock_error h]
    cases pre with
    | nil => exact absurd (by rw [hpre]; rfl) hword
    | cons _ _ => simp

theorem header_error_skips {s : Decoder} {x : Bytes} {u : Nat}
    (h : blockHeader s ⟨x, 0⟩ = .error u) (hu : u ≠ 0) :
    s.blockAlign = 0 ∧ 4 ≤ x.length ∧ x.take 4 ≠ syncWord := by
  by_cases halign : s.blockAlign = 0
  · refine ⟨halign, ?_⟩
    cases hsearch : syncSearch x with
    | none =>
      rw [header_none halign hsearch] at h
      cases h
      refine ⟨by omega, ?_⟩
      intro hword
      have hx : x = syncWord ++ x.drop 4 := by
        rw [← hword, List.take_append_drop]
      rw [hx, syncSearch_word] at hsearch
      cases hsearch
    | some data =>
      obtain ⟨pre, hpre, -⟩ := syncSearch_some hsearch
      have hlen := sync_length hpre
      rw [header_some halign hsearch hpre] at h
      refine ⟨by omega, ?_⟩
      intro hword
      have hx : x = syncWord ++ x.drop 4 := by
        rw [← hword, List.take_append_drop]
      rw [hx, syncSearch_word] at hsearch
      have hdata := congrArg List.length (Option.some.inj hsearch)
      rw [List.length_drop] at hdata
      have := syncBlock_error h
      omega
  · rw [header_align halign] at h
    split at h
    · cases h
      exact absurd rfl hu
    · cases h

/-- The same header, behind more bytes. -/
def shifted (u : Nat) : Except Nat (Nat × Reader) → Except Nat (Nat × Reader)
  | .error e => .error (u + e)
  | .ok (n, r) => .ok (n, ⟨r.data, u + r.used⟩)

theorem shifted_zero (h : Except Nat (Nat × Reader)) : shifted 0 h = h := by
  cases h with
  | error e => rw [shifted, Nat.zero_add]
  | ok q => rw [shifted, Nat.zero_add]

theorem syncBlock_shifted (u skip : Nat) (data : Bytes) :
    syncBlock (u + skip) data = shifted u (syncBlock skip data) := by
  simp only [syncBlock]
  split
  · rfl
  · split
    · rfl
    · rw [shifted, Nat.add_assoc]

/-- A header that was not complete is found again, with the bytes that the call left. -/
theorem header_resume {s : Decoder} {x : Bytes} {u : Nat}
    (h : blockHeader s ⟨x, 0⟩ = .error u) (y : Bytes) :
    blockHeader s ⟨x ++ y, 0⟩ = shifted u (blockHeader s ⟨x.drop u ++ y, 0⟩) := by
  by_cases halign : s.blockAlign = 0
  · cases hsearch : syncSearch x with
    | none =>
      rw [header_none halign hsearch] at h
      cases h
      have hresume := syncSearch_none hsearch y
      have hlen : (x.drop (x.length - 3) ++ y).length = x.length - (x.length - 3) + y.length := by
        simp
      cases hmore : syncSearch (x ++ y) with
      | none =>
        rw [header_none halign hmore, header_none halign (hresume ▸ hmore), shifted, hlen,
          List.length_append]
        congr 1
        omega
      | some data =>
        have hmore' := hresume ▸ hmore
        obtain ⟨pre, hpre, -⟩ := syncSearch_some hmore
        obtain ⟨pre', hpre', -⟩ := syncSearch_some hmore'
        have hx := sync_length hpre
        have hx' := sync_length hpre'
        rw [List.length_append] at hx
        have hmoved : x.length - 3 + pre'.length = pre.length := by omega
        rw [header_some halign hmore hpre, header_some halign hmore' hpre', ← syncBlock_shifted,
          hmoved]
    | some data =>
      obtain ⟨pre, hpre, happend⟩ := syncSearch_some hsearch
      rw [header_some halign hsearch hpre] at h
      have hu := (syncBlock_error h).symm
      have hdrop : x.drop u ++ y = syncWord ++ (data ++ y) := by
        rw [hu, hpre, List.drop_left, List.append_assoc]
      have hmore : x ++ y = pre ++ (syncWord ++ (data ++ y)) := by
        rw [hpre]
        simp only [List.append_assoc]
      have hword : syncWord ++ (data ++ y) = [] ++ (syncWord ++ (data ++ y)) := rfl
      rw [header_some halign (happend y) hmore, hdrop,
        header_some halign (syncSearch_word _) hword, ← syncBlock_shifted, hu]
      rfl
  · rw [header_align halign] at h
    split at h
    · cases h
      rw [shifted_zero]
      rfl
    · cases h

end Streambox.Adpcm
