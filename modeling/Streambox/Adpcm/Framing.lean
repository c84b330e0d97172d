import Streambox.Adpcm.Decoder

/-! libadpcm: streams of "APTS" units.

    The first call after `audio_dec_init` finds the header of the first unit and decodes its payload.
    It leaves the length behind, and nothing but `audio_dec_init` ever takes it away again, so the
    second call looks for no header: it takes the header of the second unit for audio. -/

namespace Streambox.Adpcm

/-! ### What the reader and the buffers do -/

theorem Reader.read_of_le {r : Reader} {size : Nat} (h : size ≤ r.valid) :
    r.read size = (r.data.take size, ⟨r.data.drop size, r.used + size⟩) := if_pos h

theorem Reader.read_of_lt {r : Reader} {size : Nat} (h : r.valid < size) : r.read size = ([], r) :=
  if_neg (by omega)

theorem store_zero {s : Decoder} {bytes : Bytes} (h : bytes.length ≤ waveBlockSize) :
    s.store 0 bytes = some { s with waveBuf := overwrite s.waveBuf bytes } := by
  rw [Decoder.store, if_pos (by omega)]
  simp [overwrite]

/-- The block drivers after `refill`. -/
def blockEnd (codec : Codec) (s : Decoder) (blockSize used : Nat) : Option Call :=
  if codec = .adpcmImaWav then imaBlock s used else msBlock s blockSize used

/-- A length left by an earlier call: the next block is taken without a look at its first bytes. -/
theorem decode_marked {codec : Codec} {s : Decoder} {x : Bytes}
    (hcodec : codec = .adpcmImaWav ∨ codec = .adpcmMs) (hmark : s.waveTimestamplen ≠ 0)
    (hlen : s.refillTimestampLen = s.blockAlign) (hblock : 4 ≤ s.blockAlign)
    (hfits : s.blockAlign ≤ waveBlockSize) (hx : s.blockAlign ≤ x.length) :
    audioDecDecode codec s x = blockEnd codec
      { s with waveBuf := overwrite s.waveBuf (x.take s.blockAlign) } s.blockAlign s.blockAlign := by
  have hheader : blockHeader s ⟨x, 0⟩ = .ok (s.blockAlign, ⟨x, 0⟩) := by
    rw [blockHeader, if_neg (by omega), if_neg (by simp only [Reader.valid]; omega)]
  have hread : Reader.read ⟨x, 0⟩ s.blockAlign = (x.take s.blockAlign, ⟨x.drop s.blockAlign,
      s.blockAlign⟩) := by
    rw [Reader.read_of_le hx]
    simp
  have hstore : s.store 0 (x.take s.blockAlign) =
      some { s with waveBuf := overwrite s.waveBuf (x.take s.blockAlign) } :=
    store_zero (by simp; omega)
  have hrefill : ∀ codec, refill codec s ⟨x, 0⟩ s.blockAlign =
      some ({ s with waveBuf := overwrite s.waveBuf (x.take s.blockAlign) },
        ⟨x.drop s.blockAlign, s.blockAlign⟩, .filled s.refillTimestampLen) := by
    intro codec
    have hint : s.blockAlign < 2147483648 := Nat.lt_of_le_of_lt hfits (by decide)
    rw [refill, if_pos hmark, refillCopy, if_pos hmark, hlen, if_pos hint, hread, hstore]
    simp only [Option.map_some, hlen, hread]
  rcases hcodec with rfl | rfl
  · simp only [audioDecDecode, adpcmDecodeFrame, runimaadpcmdecoder, hheader, hrefill]
    rw [if_neg (by omega)]
    rfl
  · simp only [audioDecDecode, adpcmDecodeFrame, runmsadpcmdecoder, hheader, hrefill]
    rw [if_neg (by omega)]
    rfl

/-! ### Units -/

/-- Four bytes of a number, high one first. -/
def fourBytes (n : Nat) : Bytes :=
  [UInt8.ofNat (n / 16777216), UInt8.ofNat (n / 65536), UInt8.ofNat (n / 256), UInt8.ofNat n]

theorem bigEndian_fourBytes {n : Nat} (h : n < 4294967296) : bigEndian (fourBytes n) = n := by
  simp only [bigEndian, fourBytes, List.foldl_cons, List.foldl_nil, UInt8.toNat_ofNat']
  omega

/-- A unit of a framed stream, with a payload of a block. -/
structure AptsUnit (size : Nat) where
  timestamp : Bytes
  payload : Bytes
  timestamp_length : timestamp.length = 4
  payload_length : payload.length = size

/-- Tag, timestamp, length, payload. -/
def AptsUnit.bytes {size : Nat} (u : AptsUnit size) : Bytes :=
  tagApts ++ u.timestamp ++ fourBytes size ++ u.payload

def stream {size : Nat} (units : List (AptsUnit size)) : Bytes := units.flatMap AptsUnit.bytes

theorem AptsUnit.bytes_length {size : Nat} (u : AptsUnit size) : u.bytes.length = 12 + size := by
  simp only [AptsUnit.bytes, tagApts, fourBytes, List.length_append, List.length_cons,
    List.length_nil,
    u.timestamp_length, u.payload_length]

/-- What a unit leaves in the static variables. -/
def Decoder.marked (s : Decoder) {size : Nat} (u : AptsUnit size) : Decoder :=
  { s with
    waveTimestamp := bigEndian u.timestamp
    waveTimestamplen := size
    refillTimestampLen := size
    waveBuf := overwrite s.waveBuf u.payload }

theorem refillApts_unit {s : Decoder} {size : Nat} (u : AptsUnit size) {rest : Bytes} {len : Nat}
    (hpos : 0 < size) (hfits : size ≤ waveBlockSize) :
    refillApts s ⟨u.timestamp ++ (fourBytes size ++ (u.payload ++ rest)), 4⟩ len =
      some (s.marked u, ⟨rest, 12 + size⟩, .filled size) := by
  have hfits' : size ≤ 2048 := hfits
  have hts := u.timestamp_length
  have hpayload := u.payload_length
  have hfour : (fourBytes size).length = 4 := rfl
  have hread₁ : Reader.read ⟨u.timestamp ++ (fourBytes size ++ (u.payload ++ rest)), 4⟩ 4 =
      (u.timestamp, ⟨fourBytes size ++ (u.payload ++ rest), 8⟩) := by
    rw [Reader.read_of_le (by simp only [Reader.valid, List.length_append]; omega)]
    simp [List.take_left', List.drop_left', hts]
  have hread₂ : Reader.read ⟨fourBytes size ++ (u.payload ++ rest), 8⟩ 4 =
      (fourBytes size, ⟨u.payload ++ rest, 12⟩) := by
    rw [Reader.read_of_le (by simp only [Reader.valid, List.length_append]; omega)]
    simp [List.take_left', List.drop_left', hfour]
  have hread₃ : Reader.read ⟨u.payload ++ rest, 12⟩ size = (u.payload, ⟨rest, 12 + size⟩) := by
    rw [Reader.read_of_le (by simp only [Reader.valid, List.length_append]; omega)]
    simp [List.take_left', List.drop_left', hpayload]
  have hbe : bigEndian (fourBytes size) = size := bigEndian_fourBytes (by omega)
  rw [refillApts, if_neg (by simp only [Reader.valid, List.length_append]; omega)]
  simp only [hread₁, hread₂, hbe]
  rw [if_neg (by simp only [Reader.valid, List.length_append]; omega), refillCopy,
    if_pos (by simp only; omega), if_pos (by simp only; omega)]
  simp only [hread₃]
  rw [store_zero (by omega)]
  simp only [Option.map_some, hread₃, Decoder.marked]

/-- The header of a unit is found, and its payload goes to the wave buffer. -/
theorem refill_unit {codec : Codec} {s : Decoder} {size : Nat} (u : AptsUnit size) {rest : Bytes}
    {len : Nat} (hmark : s.waveTimestamplen = 0) (hpos : 0 < size) (hfits : size ≤ waveBlockSize) :
    refill codec s ⟨u.bytes ++ rest, 0⟩ len =
      some (s.marked u, ⟨rest, 12 + size⟩, .filled size) := by
  have hbytes : u.bytes ++ rest =
      tagApts ++ (u.timestamp ++ (fourBytes size ++ (u.payload ++ rest))) := by
    simp only [AptsUnit.bytes, List.append_assoc]
  have hread : Reader.read ⟨u.bytes ++ rest, 0⟩ 4 =
      (tagApts, ⟨u.timestamp ++ (fourBytes size ++ (u.payload ++ rest)), 4⟩) := by
    rw [hbytes, Reader.read_of_le (by simp [Reader.valid, tagApts])]
    rfl
  have hvalid : ¬ Reader.valid ⟨u.bytes ++ rest, 0⟩ < 4 := by
    rw [hbytes]
    simp [Reader.valid, tagApts]
  rw [refill, if_neg (by omega), if_neg hvalid, hread]
  dsimp only
  rw [if_pos rfl]
  exact refillApts_unit u hpos hfits

/-- The first call on a unit. -/
theorem decode_unit {codec : Codec} {s : Decoder} {size : Nat} (u : AptsUnit size) {rest : Bytes}
    (hcodec : codec = .adpcmImaWav ∨ codec = .adpcmMs) (hmark : s.waveTimestamplen = 0)
    (halign : s.blockAlign = size) (hblock : 4 ≤ size) (hfits : size ≤ waveBlockSize) :
    audioDecDecode codec s (u.bytes ++ rest) = blockEnd codec (s.marked u) size (12 + size) := by
  have hlength := u.bytes_length
  have hheader : blockHeader s ⟨u.bytes ++ rest, 0⟩ = .ok (size, ⟨u.bytes ++ rest, 0⟩) := by
    rw [blockHeader, if_neg (by omega), if_neg, halign]
    simp only [Reader.valid, List.length_append]
    omega
  have hrefill : ∀ codec, refill codec s ⟨u.bytes ++ rest, 0⟩ size =
      some (s.marked u, ⟨rest, 12 + size⟩, .filled size) :=
    fun codec => refill_unit u hmark (by omega) hfits
  rcases hcodec with rfl | rfl
  · simp only [audioDecDecode, adpcmDecodeFrame, runimaadpcmdecoder, hheader, hrefill]
    rw [if_neg (by omega)]
    rfl
  · simp only [audioDecDecode, adpcmDecodeFrame, runmsadpcmdecoder, hheader, hrefill]
    rw [if_neg (by omega)]
    rfl

/-! ### Calls on the rest -/

/-- Call `audio_dec_decode` a number of times, each time on what is not yet consumed. -/
def decodeAll (codec : Codec) : Nat → Decoder → Bytes → Option (List Call × Bytes)
  | 0, _, x => some ([], x)
  | k + 1, s, x =>
    (audioDecDecode codec s x).bind fun c =>
      (decodeAll codec k c.decoder (x.drop c.used)).map fun (calls, rest) => (c :: calls, rest)

/-- The samples of a payload. -/
def blockSamples (codec : Codec) (channels : Nat) (payload : Bytes) : Option (List Int) :=
  if codec = .adpcmImaWav then imaExpand channels payload else msExpand channels payload

/-- A call takes one unit and returns the samples of its payload. -/
structure Takes (codec : Codec) (channels : Nat) {size : Nat} (u : AptsUnit size) (c : Call) :
    Prop where
  used : c.used = 12 + size
  samples : blockSamples codec channels u.payload = some c.out
  outlen : c.outlen = 2 * c.out.length

/-- The stream is decoded unit by unit, to its end. -/
def BlockByBlock (codec : Codec) (channels : Nat) (s : Decoder) {size : Nat}
    (units : List (AptsUnit size)) : Prop :=
  ∃ calls, decodeAll codec units.length s (stream units) = some (calls, []) ∧
    List.Forall₂ (Takes codec channels) units calls

theorem imaBlock_used {s : Decoder} {used : Nat} {c : Call} (h : imaBlock s used = some c) :
    c.used = used ∧ ∃ pcmBuf, c.decoder = { s with pcmBuf } := by
  rw [imaBlock] at h
  dsimp only at h
  split_ifs at h
  cases h
  exact ⟨rfl, _, rfl⟩

theorem msBlock_used {s : Decoder} {blockSize used : Nat} {c : Call}
    (h : msBlock s blockSize used = some c) :
    c.used = used ∧ ∃ pcmBuf, c.decoder = { s with pcmBuf } := by
  rw [msBlock] at h
  dsimp only at h
  split_ifs at h
  cases h
  exact ⟨rfl, _, rfl⟩

/-- The end of a driver changes the sample buffer only. -/
theorem blockEnd_used {codec : Codec} {s : Decoder} {blockSize used : Nat} {c : Call}
    (h : blockEnd codec s blockSize used = some c) :
    c.used = used ∧ ∃ pcmBuf, c.decoder = { s with pcmBuf } := by
  rw [blockEnd] at h
  split_ifs at h
  · exact imaBlock_used h
  · exact msBlock_used h

/-- The IMA driver returns the samples of a block at the front of the wave buffer. -/
theorem imaBlock_expand {s : Decoder} {payload rest : Bytes} {out : List Int} {used : Nat}
    (hch : s.ch = 1 ∨ s.ch = 2) (hwave : s.waveBuf = payload ++ rest)
    (halign : s.blockAlign = payload.length) (hfits : payload.length ≤ waveBlockSize)
    (hout : imaExpand s.ch payload = some out) :
    ∃ pcmBuf, imaBlock s used = some ⟨{ s with pcmBuf }, 2 * out.length, used, out⟩ := by
  rw [imaExpand] at hout
  split_ifs at hout with hvalid
  obtain ⟨hheader, hgroups, hsync⟩ := hvalid
  obtain ⟨groups, hsize⟩ : ∃ groups, payload.length = 4 * s.ch + 4 * s.ch * groups := by
    obtain ⟨groups, hgroups⟩ := Nat.dvd_of_mod_eq_zero hgroups
    exact ⟨groups, by omega⟩
  -- the samples that the driver counts are those that the block has
  have hcount := imaSampleCount_eq hch groups
  rw [← hsize] at hcount
  rw [hcount, Option.some_inj] at hout
  have hpasses := imaPassCount_eq hch groups
  have hlength : out.length = s.ch + 8 * s.ch * groups := by
    rw [← hout, imaSamples_length, hpasses]
  have hsamples : imaSamples s.ch ((s.ch + 8 * s.ch * groups : Nat) : Int) s.waveBuf = out := by
    rw [hwave, imaSamples_append (by rw [hpasses]; omega), hout]
  have hsync' : imaSyncError s.ch s.waveBuf = none := by
    rw [hwave, imaSyncError_append hheader, hsync]
  have hwaveSize : 4 * s.ch + 4 * s.ch * groups ≤ waveBlockSize := hsize ▸ hfits
  have hpcmSize : s.ch + 8 * s.ch * groups ≤ pcmBufSize := by
    rw [waveBlockSize] at hwaveSize
    rw [pcmBufSize]
    rcases hch with h | h <;> rw [h] at hwaveSize ⊢ <;> omega
  have hbounds : imaInBounds s ((s.ch + 8 * s.ch * groups : Nat) : Int) = true := by
    rw [imaInBounds, hpasses, decide_eq_true hwaveSize, decide_eq_true hpcmSize]
    simp
  have hdecoded : adpcmdecDecodeImaBlock s.ch ((s.ch + 8 * s.ch * groups : Nat) : Int) s.waveBuf
      s.pcmBuf = overwrite s.pcmBuf out := by
    simp only [adpcmdecDecodeImaBlock, imaSizeOk_eq hch groups, if_true, hsync', hsamples]
  refine ⟨overwrite s.pcmBuf out, ?_⟩
  rw [imaBlock]
  simp only [halign, hcount]
  rw [if_pos ⟨hch, hbounds, by omega, by exact_mod_cast hpcmSize⟩, hdecoded]
  have htake : (overwrite s.pcmBuf out).take ((s.ch + 8 * s.ch * groups : Nat) : Int).toNat =
      out := by
    rw [Int.toNat_natCast, ← hlength, overwrite, List.take_left]
  rw [htake, hlength, Int.mul_comm]

/-- The MS driver returns the samples of a block at the front of the wave buffer. -/
theorem msBlock_expand {s : Decoder} {payload rest : Bytes} {out : List Int} {used : Nat}
    (hch : s.ch = 1 ∨ s.ch = 2) (hwave : s.waveBuf = payload ++ rest)
    (hfits : payload.length ≤ waveBlockSize) (hout : msExpand s.ch payload = some out) :
    ∃ pcmBuf, msBlock s payload.length used =
      some ⟨{ s with pcmBuf }, 2 * out.length, used, out⟩ := by
  rw [msExpand] at hout
  split_ifs at hout with hvalid
  obtain ⟨hheader, hfirst, hsecond⟩ := hvalid
  have hdecoded : msAdpcmDecodeBlock s.beyond s.ch s.waveBuf payload.length =
      msAdpcmDecodeBlock (fun _ => (0, 0)) s.ch payload payload.length := by
    rw [hwave, msAdpcmDecodeBlock_append s.beyond hch hheader (Nat.le_refl _)]
    exact msAdpcmDecodeBlock_beyond _ _ hch _ hfirst hsecond
  rw [msBlock, if_pos ⟨hch, hfits⟩, hdecoded]
  generalize msAdpcmDecodeBlock (fun _ => (0, 0)) s.ch payload payload.length = samples at hout
  refine ⟨overwrite s.pcmBuf samples, ?_⟩
  have htake : (overwrite s.pcmBuf samples).take (samples.length - samples.length % s.ch) = out := by
    rw [← Option.some_inj.mp hout, overwrite, List.take_append_of_le_length (by omega)]
  have hlength : out.length = samples.length - samples.length % s.ch := by
    rw [← Option.some_inj.mp hout, List.length_take]
    omega
  dsimp only
  rw [htake, hlength, Int.mul_comm]

theorem blockEnd_expand {codec : Codec} {s : Decoder} {payload rest : Bytes} {out : List Int}
    {used : Nat} (hch : s.ch = 1 ∨ s.ch = 2) (hwave : s.waveBuf = payload ++ rest)
    (halign : s.blockAlign = payload.length) (hfits : payload.length ≤ waveBlockSize)
    (hout : blockSamples codec s.ch payload = some out) :
    ∃ pcmBuf, blockEnd codec s payload.length used =
      some ⟨{ s with pcmBuf }, 2 * out.length, used, out⟩ := by
  rw [blockSamples] at hout
  rw [blockEnd]
  split_ifs at hout ⊢
  · exact imaBlock_expand hch hwave halign hfits hout
  · exact msBlock_expand hch hwave hfits hout

/-- A payload with samples has at least the header of a block. -/
theorem blockSamples_size {codec : Codec} {channels : Nat} {payload : Bytes} {out : List Int}
    (hch : channels = 1 ∨ channels = 2) (h : blockSamples codec channels payload = some out) :
    4 ≤ payload.length := by
  rw [blockSamples, imaExpand, msExpand] at h
  split_ifs at h
  all_goals omega

theorem decodeAll_succ {codec : Codec} {k : Nat} {s : Decoder} {x : Bytes} {calls : List Call}
    {rest : Bytes} (h : decodeAll codec (k + 1) s x = some (calls, rest)) :
    ∃ c tail, calls = c :: tail ∧ audioDecDecode codec s x = some c ∧
      decodeAll codec k c.decoder (x.drop c.used) = some (tail, rest) := by
  rw [decodeAll] at h
  obtain ⟨c, hc, hrest⟩ := Option.bind_eq_some_iff.mp h
  obtain ⟨⟨tail, rest'⟩, htail, heq⟩ := Option.map_eq_some_iff.mp hrest
  cases heq
  exact ⟨c, tail, rfl, hc, htail⟩

theorem stream_drop {size : Nat} (u : AptsUnit size) (units : List (AptsUnit size)) :
    (stream (u :: units)).drop (12 + size) = stream units := by
  rw [stream, List.flatMap_cons, ← u.bytes_length, List.drop_left]
  rfl

/-- A call that takes the first unit leaves its length behind. -/
theorem marked_after_unit {codec : Codec} {s : Decoder} {size : Nat} {u : AptsUnit size}
    {rest : Bytes} {c : Call} (hcodec : codec = .adpcmImaWav ∨ codec = .adpcmMs)
    (hmark : s.waveTimestamplen = 0) (halign : s.blockAlign = size) (hblock : 4 ≤ size)
    (hfits : size ≤ waveBlockSize) (h : audioDecDecode codec s (u.bytes ++ rest) = some c) :
    c.decoder.waveTimestamplen = size ∧ c.decoder.refillTimestampLen = size ∧
      c.decoder.blockAlign = size := by
  rw [decode_unit u hcodec hmark halign hblock hfits] at h
  obtain ⟨-, pcmBuf, hdecoder⟩ := blockEnd_used h
  rw [hdecoder]
  exact ⟨rfl, rfl, halign⟩

/-- No two units are decoded one after the other: the second call consumes too little. -/
theorem not_two_units {codec : Codec} {channels size : Nat} {s : Decoder} {u v : AptsUnit size}
    {units : List (AptsUnit size)} (hcodec : codec = .adpcmImaWav ∨ codec = .adpcmMs)
    (hch : channels = 1 ∨ channels = 2) (hmark : s.waveTimestamplen = 0)
    (halign : s.blockAlign = size) (hfits : size ≤ waveBlockSize) :
    ¬ BlockByBlock codec channels s (u :: v :: units) := by
  rintro ⟨calls, hall, htakes⟩
  obtain ⟨c₁, tail, rfl, hcall₁, hrest⟩ := decodeAll_succ hall
  obtain ⟨c₂, tail, rfl, hcall₂, -⟩ := decodeAll_succ hrest
  obtain ⟨htake₁, htakes⟩ := List.forall₂_cons.mp htakes
  obtain ⟨htake₂, -⟩ := List.forall₂_cons.mp htakes
  have hblock : 4 ≤ size := u.payload_length ▸ blockSamples_size hch htake₁.samples
  rw [htake₁.used, stream_drop] at hcall₂
  obtain ⟨hlen, hrefill, halign₁⟩ := marked_after_unit hcodec hmark halign hblock hfits hcall₁
  have hsize : size ≤ (stream (v :: units)).length := by
    rw [stream, List.flatMap_cons, List.length_append, v.bytes_length]
    omega
  rw [decode_marked hcodec (by omega) (by omega) (by omega) (by omega) (by omega)] at hcall₂
  have hused := (blockEnd_used hcall₂).1
  have htaken := htake₂.used
  omega

/-- One unit is decoded if its payload is a block. -/
theorem one_unit {codec : Codec} {size : Nat} {s : Decoder} {u : AptsUnit size} {out : List Int}
    (hcodec : codec = .adpcmImaWav ∨ codec = .adpcmMs) (hch : s.ch = 1 ∨ s.ch = 2)
    (hmark : s.waveTimestamplen = 0) (halign : s.blockAlign = size) (hfits : size ≤ waveBlockSize)
    (hout : blockSamples codec s.ch u.payload = some out) : BlockByBlock codec s.ch s [u] := by
  have hlength := u.payload_length
  have hblock : 4 ≤ size := hlength ▸ blockSamples_size hch hout
  have hcall : audioDecDecode codec s (u.bytes ++ []) =
      blockEnd codec (s.marked u) size (12 + size) :=
    decode_unit u hcodec hmark halign hblock hfits
  have hsize : (s.marked u).blockAlign = u.payload.length := by rw [hlength]; exact halign
  have hend : ∃ pcmBuf, blockEnd codec (s.marked u) u.payload.length (12 + size) =
      some ⟨{ s.marked u with pcmBuf }, 2 * out.length, 12 + size, out⟩ :=
    blockEnd_expand hch rfl hsize (by omega) hout
  obtain ⟨pcmBuf, hend⟩ := hend
  rw [hlength] at hend
  rw [hend, List.append_nil] at hcall
  refine ⟨[⟨{ s.marked u with pcmBuf }, 2 * out.length, 12 + size, out⟩], ?_,
    List.forall₂_cons.mpr ⟨⟨rfl, hout, rfl⟩, List.Forall₂.nil⟩⟩
  have hstream : stream [u] = u.bytes := by simp [stream]
  rw [List.length_singleton, decodeAll, hstream, hcall]
  simp [decodeAll, ← u.bytes_length]

/-- After `audio_dec_init` a framed stream is decoded unit by unit exactly if it has no more than
    one unit and the payload of that is a block. -/
theorem framed_stream_iff {codec : Codec} (hcodec : codec = .adpcmImaWav ∨ codec = .adpcmMs)
    {channels size : Nat} (hch : channels = 1 ∨ channels = 2) (hfits : size ≤ waveBlockSize)
    (s₀ : Decoder) (wave : Bytes) (pcm : List Int) (units : List (AptsUnit size)) :
    BlockByBlock codec channels (audioDecInit s₀ channels size wave pcm) units ↔
      units = [] ∨ ∃ u, units = [u] ∧ (blockSamples codec channels u.payload).isSome := by
  constructor
  · intro h
    cases units with
    | nil => exact .inl rfl
    | cons u units =>
      cases units with
      | nil =>
        obtain ⟨calls, -, htakes⟩ := h
        cases htakes with
        | cons htake _ => exact .inr ⟨u, rfl, by rw [htake.samples]; rfl⟩
      | cons v units => exact absurd h (not_two_units hcodec hch rfl rfl hfits)
  · rintro (rfl | ⟨u, rfl, hsome⟩)
    · exact ⟨[], rfl, List.Forall₂.nil⟩
    · obtain ⟨out, hout⟩ := Option.isSome_iff_exists.mp hsome
      exact one_unit hcodec hch rfl rfl hfits hout

/-- A mono IMA block of silence, in a unit. -/
def silence : AptsUnit 8 where
  timestamp := [0, 0, 0, 1]
  payload := [0, 0, 0, 0, 0, 0, 0, 0]
  timestamp_length := rfl
  payload_length := rfl

/-- The decoder for such blocks. -/
def monoDecoder : Decoder :=
  audioDecInit (loaded fun _ => (0, 0)) 1 8 (List.replicate waveBlockSize 0)
    (List.replicate pcmBufSize 0)

theorem framed_stream_iff_silence : BlockByBlock .adpcmImaWav 1 monoDecoder [silence] :=
  (framed_stream_iff (.inl rfl) (.inl rfl) (by decide) _ _ _ [silence]).mpr
    (.inr ⟨silence, rfl, by decide⟩)

/-- Two such units: the second call takes eight bytes of the header for a block, and twelve bytes
    are left. -/
theorem framed_stream_two_units :
    (decodeAll .adpcmImaWav 2 monoDecoder (stream [silence, silence])).map
      (fun q => (q.1.map Call.used, q.2.length)) = some ([20, 8], 12) ∧
    ¬ BlockByBlock .adpcmImaWav 1 monoDecoder [silence, silence] := by
  have hcalls : (decodeAll .adpcmImaWav 2 monoDecoder (stream [silence, silence])).map
      (fun q => (q.1.map Call.used, q.2.length)) = some ([20, 8], 12) := by
    decide +kernel
  refine ⟨hcalls, ?_⟩
  rintro ⟨calls, hall, -⟩
  have hend : decodeAll .adpcmImaWav 2 monoDecoder (stream [silence, silence]) =
    some (calls, []) := hall
  rw [hend] at hcalls
  simp at hcalls

end Streambox.Adpcm
