import Mathlib.Data.List.Induction
import Mathlib.Algebra.Order.Group.Nat
import Streambox.V4l2Dec.DemuxPackets
import Streambox.V4l2Dec.OutputPort

/-! vp9.c and the secure mode of `v4l2_dec_frame_done`: VP9 superframes.

    A packet may hold several frames and end in an index of their sizes, between two equal markers.

        frame0 frame1 .. │ marker size0 size1 .. marker
                          ◀────── idx_size ──────▶

    In secure mode the frames are copied to a secure buffer, each behind a header of 16 bytes, from
    the last to the first.

        header0 frame0 header1 frame1 ..

    Where the last byte looks like a marker and the first byte of the index does not match, the
    splitter returns 0 with nothing set. And what is queued as `bytesused` is the packet's size. -/

namespace Streambox.V4l2Dec.Superframe
open Streambox.Lib Streambox.V4l2Dec.DemuxPackets

abbrev Bytes := List UInt8

/-- The fields of `vp9_superframe_split` that are read behind the call; `sizes` has eight. -/
structure Split where
  nbFrames : Int
  size : Int
  sizes : List Int
  deriving DecidableEq, Repr

/-- `1 + ((marker >> 3) & 0x3)`. -/
def lengthSize (marker : UInt8) : Nat := 1 + ((marker >>> 3) &&& 3).toNat

/-- `1 + (marker & 0x7)`. -/
def numFrames (marker : UInt8) : Nat := 1 + (marker &&& 7).toNat

def idxSize (marker : UInt8) : Nat := 2 + numFrames marker * lengthSize marker

/-- A number whose first byte is the least significant. -/
def littleEndian : Bytes → Nat
  | [] => 0
  | b :: bytes => b.toNat + 256 * littleEndian bytes

/-- An `int` as an `unsigned`. -/
def uint32 (n : Int) : Nat := (n % 4294967296).toNat

/-- The loop over the index, for the frames that are left: an `int` for each, and their sum compared
    as `unsigned`. -/
def splitLoop (data : Bytes) (lengthSize limit : Nat) :
    Nat → Nat → Int → List Int → Option (List Int × Int)
  | 0, _, total, sizes => some (sizes, total)
  | k + 1, idx, total, sizes =>
    let frameSize := int32 (littleEndian ((data.drop idx).take lengthSize))
    let total := int32 (total + frameSize)
    if frameSize < 0 ∨ limit < uint32 total then none
    else splitLoop data lengthSize limit k (idx + lengthSize) total (sizes ++ [frameSize])

/-- `vp9_superframe_split_filter`; `none` is -1, and `junk` is what was in the structure. -/
def vp9SuperframeSplitFilter (junk : Split) (data : Bytes) : Option Split :=
  let marker := data.getD (data.length - 1) 0
  if marker &&& 0xe0 = 0xc0 then
    if idxSize marker ≤ data.length ∧ data.getD (data.length - idxSize marker) 0 = marker then
      (splitLoop data (lengthSize marker) (data.length - idxSize marker) (numFrames marker)
        (data.length + 1 - idxSize marker) 0 []).map fun r =>
          ⟨numFrames marker, r.2, r.1 ++ junk.sizes.drop (numFrames marker)⟩
    else some junk
  else some ⟨1, int32 data.length, int32 data.length :: junk.sizes.drop 1⟩

/-- `fill_vp9_header`, for a size plus the four bytes of `AMLV`. -/
def fillVp9Header (len : Nat) : Bytes :=
  let l := len + 4
  let b : Nat → UInt8 := fun k => UInt8.ofNat (l / 256 ^ k)
  [b 3, b 2, b 1, b 0, b 3 ^^^ 0xff, b 2 ^^^ 0xff, b 1 ^^^ 0xff, b 0 ^^^ 0xff, 0, 0, 0, 1,
    65, 77, 76, 86]

/-- `secmem_fill`, if it stays in the secure memory. -/
def secmemFill (smem : Bytes) (offset : Int) (data : Bytes) : Option Bytes :=
  if 0 ≤ offset ∧ offset + data.length ≤ smem.length then
    some (OutputPort.memcpy smem offset.toNat data)
  else none

/-- Bytes of `es_buf`, if they are bytes of the packet. -/
def readEs (es : Bytes) (offset : Int) (n : Nat) : Option Bytes :=
  if 0 ≤ offset ∧ offset + n ≤ es.length then some ((es.drop offset.toNat).take n) else none

/-- The copy loop, from frame `i` down; `none` is a range outside a buffer or `sizes`. -/
def fillLoop (es : Bytes) (sizes : List Int) : Nat → Bytes → Int → Int → Option Bytes
  | 0, smem, _, _ => some smem
  | i + 1, smem, offset, streamOffset =>
    (sizes[i]?).bind fun size =>
      let subSize := uint32 size
      let offset := int32 (offset - subSize)
      let streamOffset := int32 (streamOffset - subSize)
      (readEs es streamOffset subSize).bind fun body =>
        (secmemFill smem offset body).bind fun smem =>
          (secmemFill smem (int32 (offset - 16)) (fillVp9Header subSize)).bind fun smem =>
            fillLoop es sizes i smem (int32 (offset - 16)) streamOffset

/-- What `frame_done` does with a VP9 packet in secure mode: nothing is queued, a range is outside,
    or the secure memory is queued with its length and `bytesused`. -/
inductive Result where
  | notQueued
  | outside
  | queued (smem : Bytes) (length bytesused : Int)
  deriving DecidableEq, Repr

/-- `v4l2_dec_frame_done` in secure mode, where the allocation succeeds; `fresh` is what is in new
    secure memory. -/
def frameDoneSecure (junk : Split) (fresh : Nat → UInt8) (es : Bytes) : Result :=
  match vp9SuperframeSplitFilter junk es with
  | none => .notQueued
  | some s =>
    let frameSize := int32 (s.size + s.nbFrames * 16)
    match fillLoop es s.sizes s.nbFrames.toNat ((List.range frameSize.toNat).map fresh) frameSize
        s.size with
    | none => .outside
    | some smem => .queued smem frameSize es.length

/-! ### What a packet holds -/

/-- The last byte. -/
def marker (data : Bytes) : UInt8 := data.getD (data.length - 1) 0

/-- The packet ends in an index: a marker, and the same byte where the index begins. -/
def HasIndex (data : Bytes) : Prop :=
  marker data &&& 0xe0 = 0xc0 ∧ idxSize (marker data) ≤ data.length ∧
    data.getD (data.length - idxSize (marker data)) 0 = marker data

/-- The last byte is a marker, but there is no index. -/
def Unmatched (data : Bytes) : Prop := marker data &&& 0xe0 = 0xc0 ∧ ¬ HasIndex data

instance (data : Bytes) : Decidable (HasIndex data) :=
  inferInstanceAs (Decidable (_ ∧ _ ∧ _))

/-- Sizes in a row, from a place on. -/
def sizesFrom (data : Bytes) (lengthSize : Nat) : Nat → Nat → List Nat
  | 0, _ => []
  | k + 1, idx =>
    littleEndian ((data.drop idx).take lengthSize) ::
      sizesFrom data lengthSize k (idx + lengthSize)

/-- The sizes that the index lists. -/
def listed (data : Bytes) : List Nat :=
  sizesFrom data (lengthSize (marker data)) (numFrames (marker data))
    (data.length + 1 - idxSize (marker data))

/-- The listed sizes fit before the index. -/
def SizesFit (data : Bytes) : Prop := (listed data).sum ≤ data.length - idxSize (marker data)

instance (data : Bytes) : Decidable (SizesFit data) :=
  inferInstanceAs (Decidable (_ ≤ _))

/-- The sizes of the frames of a packet. -/
def frameSizes (data : Bytes) : List Nat := if HasIndex data then listed data else [data.length]

/-- Frames from an offset on, each behind its header. -/
def packedFrom (data : Bytes) : Nat → List Nat → Bytes
  | _, [] => []
  | offset, f :: fs =>
    fillVp9Header f ++ (data.drop offset).take f ++ packedFrom data (offset + f) fs

/-- The outcome of the split is as it should be: the frames of the packet, if their sizes fit. -/
def SplitRight (data : Bytes) (r : Option Split) : Prop :=
  (HasIndex data ∧ ¬ SizesFit data → r = none) ∧
  (¬ (HasIndex data ∧ ¬ SizesFit data) → ∃ s, r = some s ∧
    s.nbFrames = (frameSizes data).length ∧ s.size = (frameSizes data).sum ∧
    s.sizes.take (frameSizes data).length = (frameSizes data).map Int.ofNat) ∧
  ∀ s, r = some s → 1 ≤ s.nbFrames ∧ s.nbFrames ≤ 8 ∧
    (∀ f ∈ s.sizes.take s.nbFrames.toNat, 0 ≤ f) ∧
    (s.sizes.take s.nbFrames.toNat).sum = s.size ∧ s.size ≤ data.length

/-- The secure buffer is as it should be: the frames of the packet, each behind its header, and as
    many bytes queued. -/
def SecureRight (data : Bytes) (r : Result) : Prop :=
  (HasIndex data ∧ ¬ SizesFit data → r = .notQueued) ∧
  (¬ (HasIndex data ∧ ¬ SizesFit data) →
    r = .queued (packedFrom data 0 (frameSizes data)) (packedFrom data 0 (frameSizes data)).length
      (packedFrom data 0 (frameSizes data)).length)

/-- `ES_BUF_SIZE`: `write_es` takes no more. -/
def esBufSize : Nat := 4194304

/-! ### The split -/

theorem littleEndian_lt (bytes : Bytes) : littleEndian bytes < 256 ^ bytes.length := by
  induction bytes with
  | nil => simp [littleEndian]
  | cons b bytes ih =>
    have hb : b.toNat < 256 := b.toNat_lt
    rw [littleEndian, List.length_cons, Nat.pow_succ]
    omega

theorem lengthSize_le (m : UInt8) : lengthSize m ≤ 4 := by
  have h : ((m >>> 3) &&& 3).toNat ≤ 3 := by
    rw [UInt8.toNat_and]
    exact Nat.and_le_right
  rw [lengthSize]
  omega

theorem numFrames_le (m : UInt8) : 1 ≤ numFrames m ∧ numFrames m ≤ 8 := by
  have h : (m &&& 7).toNat ≤ 7 := by
    rw [UInt8.toNat_and]
    exact Nat.and_le_right
  rw [numFrames]
  omega

theorem littleEndian_take_lt (bytes : Bytes) (m : UInt8) :
    littleEndian (bytes.take (lengthSize m)) < 4294967296 := by
  have hlen : (bytes.take (lengthSize m)).length ≤ 4 :=
    (List.length_take_le _ _).trans (lengthSize_le m)
  calc littleEndian (bytes.take (lengthSize m))
      < 256 ^ (bytes.take (lengthSize m)).length := littleEndian_lt _
    _ ≤ 256 ^ 4 := Nat.pow_le_pow_right (by decide) hlen
    _ = 4294967296 := rfl

theorem uint32_int32 {n : Nat} (h : n < 4294967296) : uint32 (int32 n) = n := by
  rw [uint32, int32, Int.bmod]
  split <;> omega

theorem int32_neg {n : Nat} (hlo : 2147483648 ≤ n) (hhi : n < 4294967296) : int32 n < 0 := by
  rw [int32, Int.bmod]
  split <;> omega

/-- The loop over the index takes the listed sizes exactly if they fit. -/
theorem splitLoop_eq (data : Bytes) (m : UInt8) {limit : Nat} (hlimit : limit < 2147483648)
    (k idx total : Nat) (htotal : total ≤ limit) (sizes : List Int) :
    splitLoop data (lengthSize m) limit k idx total sizes =
      if total + (sizesFrom data (lengthSize m) k idx).sum ≤ limit then
        some (sizes ++ (sizesFrom data (lengthSize m) k idx).map Int.ofNat,
          ((total + (sizesFrom data (lengthSize m) k idx).sum : Nat) : Int))
      else none := by
  induction k generalizing idx total sizes with
  | zero => simp [splitLoop, sizesFrom, htotal]
  | succ k ih =>
    simp only [splitLoop, sizesFrom, List.sum_cons]
    have hlt := littleEndian_take_lt (data.drop idx) m
    obtain ⟨f, hfield⟩ : ∃ f, littleEndian ((data.drop idx).take (lengthSize m)) = f := ⟨_, rfl⟩
    simp only [hfield] at hlt ⊢
    by_cases hneg : 2147483648 ≤ f
    · -- a size that is negative as an `int` is too large as a number
      rw [if_pos (.inl (int32_neg hneg hlt)), if_neg (by omega)]
    · have hf : int32 (f : Int) = f := int32_eq (by omega) (by omega)
      rw [hf, ← Nat.cast_add]
      have hsum := uint32_int32 (by omega : total + f < 4294967296)
      by_cases hover : limit < total + f
      · rw [if_pos (.inr (by rw [hsum]; exact hover)), if_neg (by omega)]
      · rw [if_neg (by rw [hsum]; omega)]
        have htotal' : int32 ((total + f : Nat) : Int) = ((total + f : Nat) : Int) :=
          int32_eq (by omega) (by omega)
        rw [htotal', ih _ _ (by omega), ← Nat.add_assoc]
        simp

theorem length_sizesFrom (data : Bytes) (n k idx : Nat) : (sizesFrom data n k idx).length = k := by
  induction k generalizing idx with
  | zero => rfl
  | succ k ih => rw [sizesFrom, List.length_cons, ih]

theorem length_listed (data : Bytes) : (listed data).length = numFrames (marker data) :=
  length_sizesFrom _ _ _ _

/-- The split, with its tests by name. -/
theorem filter_eq (junk : Split) (data : Bytes) :
    vp9SuperframeSplitFilter junk data =
      if marker data &&& 0xe0 = 0xc0 then
        if idxSize (marker data) ≤ data.length ∧
            data.getD (data.length - idxSize (marker data)) 0 = marker data then
          (splitLoop data (lengthSize (marker data)) (data.length - idxSize (marker data))
            (numFrames (marker data)) (data.length + 1 - idxSize (marker data)) (0 : Nat) []).map
              fun r => ⟨numFrames (marker data), r.2,
                r.1 ++ junk.sizes.drop (numFrames (marker data))⟩
        else some junk
      else some ⟨1, int32 data.length, int32 data.length :: junk.sizes.drop 1⟩ := rfl

/-- The split of a packet with an index. -/
theorem split_of_index (junk : Split) {data : Bytes} (hsize : data.length < 2147483648)
    (h : HasIndex data) :
    (SizesFit data → vp9SuperframeSplitFilter junk data =
      some ⟨(listed data).length, (listed data).sum,
        (listed data).map Int.ofNat ++ junk.sizes.drop (listed data).length⟩) ∧
    (¬ SizesFit data → vp9SuperframeSplitFilter junk data = none) := by
  have hloop := splitLoop_eq data (marker data)
    (by omega : data.length - idxSize (marker data) < 2147483648) (numFrames (marker data))
    (data.length + 1 - idxSize (marker data)) 0 (Nat.zero_le _) []
  rw [← listed, Nat.zero_add, List.nil_append] at hloop
  obtain ⟨hmarker, hroom, hfirst⟩ := h
  rw [filter_eq, if_pos hmarker, if_pos ⟨hroom, hfirst⟩, hloop, length_listed]
  constructor
  · intro hfit
    rw [SizesFit] at hfit
    rw [if_pos hfit]
    rfl
  · intro hfit
    rw [SizesFit] at hfit
    rw [if_neg hfit]
    rfl

theorem split_of_plain (junk : Split) {data : Bytes} (hsize : data.length < 2147483648)
    (h : ¬ marker data &&& 0xe0 = 0xc0) :
    vp9SuperframeSplitFilter junk data =
      some ⟨1, data.length, (data.length : Int) :: junk.sizes.drop 1⟩ := by
  have hint : int32 (data.length : Int) = data.length := int32_eq (by omega) (by omega)
  rw [filter_eq, if_neg h, hint]

theorem split_of_unmatched (junk : Split) {data : Bytes} (h : Unmatched data) :
    vp9SuperframeSplitFilter junk data = some junk := by
  obtain ⟨hmarker, hno⟩ := h
  have hnot : ¬ (idxSize (marker data) ≤ data.length ∧
      data.getD (data.length - idxSize (marker data)) 0 = marker data) :=
    fun hh => hno ⟨hmarker, hh⟩
  rw [filter_eq, if_pos hmarker, if_neg hnot]

/-- Without an unmatched marker the split is that of the packet's frames. -/
theorem split_eq (junk : Split) {data : Bytes} (hsize : data.length < 2147483648)
    (hmatched : ¬ Unmatched data) :
    (HasIndex data ∧ ¬ SizesFit data → vp9SuperframeSplitFilter junk data = none) ∧
    (¬ (HasIndex data ∧ ¬ SizesFit data) → vp9SuperframeSplitFilter junk data =
      some ⟨(frameSizes data).length, (frameSizes data).sum,
        (frameSizes data).map Int.ofNat ++ junk.sizes.drop (frameSizes data).length⟩) := by
  by_cases hindex : HasIndex data
  · obtain ⟨hfit, hover⟩ := split_of_index junk hsize hindex
    rw [frameSizes, if_pos hindex]
    exact ⟨fun h => hover h.2, fun h => hfit (by_contra fun hn => h ⟨hindex, hn⟩)⟩
  · have hplain : ¬ marker data &&& 0xe0 = 0xc0 := fun hm => hmatched ⟨hm, hindex⟩
    rw [frameSizes, if_neg hindex]
    refine ⟨fun h => absurd h.1 hindex, fun _ => ?_⟩
    rw [split_of_plain junk hsize hplain]
    simp

theorem length_frameSizes (data : Bytes) :
    1 ≤ (frameSizes data).length ∧ (frameSizes data).length ≤ 8 := by
  rw [frameSizes]
  split
  · rw [length_listed]
    exact numFrames_le _
  · simp

theorem sum_frameSizes_le {data : Bytes} (h : ¬ (HasIndex data ∧ ¬ SizesFit data)) :
    (frameSizes data).sum ≤ data.length := by
  rw [frameSizes]
  split
  next hindex =>
    have hfit : SizesFit data := by_contra fun hn => h ⟨hindex, hn⟩
    exact Nat.le_trans hfit (Nat.sub_le _ _)
  next => simp

theorem sum_map_ofNat (fs : List Nat) : (fs.map Int.ofNat).sum = (fs.sum : Int) := by
  induction fs with
  | nil => rfl
  | cons f fs ih => simp [ih]

/-- The split is right, whatever was in the structure, exactly if the last byte is not an unmatched
    marker. -/
theorem splitRight_iff {data : Bytes} (hsize : data.length < 2147483648) :
    (∀ junk, SplitRight data (vp9SuperframeSplitFilter junk data)) ↔ ¬ Unmatched data := by
  constructor
  · intro hright hunmatched
    have hjunk := hright ⟨9, 0, []⟩
    rw [split_of_unmatched _ hunmatched] at hjunk
    exact absurd (hjunk.2.2 _ rfl).2.1 (by decide)
  · intro hmatched junk
    obtain ⟨hover, hfit⟩ := split_eq junk hsize hmatched
    have htake : ∀ l : List Int, ((frameSizes data).map Int.ofNat ++ l).take
        (frameSizes data).length = (frameSizes data).map Int.ofNat := by
      intro l
      rw [List.take_left' (by simp)]
    refine ⟨hover, fun h => ⟨_, hfit h, rfl, rfl, htake _⟩, ?_⟩
    intro s hs
    by_cases h : HasIndex data ∧ ¬ SizesFit data
    · rw [hover h] at hs
      cases hs
    · rw [hfit h] at hs
      obtain rfl := Option.some.inj hs
      have hlen := length_frameSizes data
      have hsum := sum_frameSizes_le h
      refine ⟨by simp; omega, by simp; omega, ?_, ?_, Int.ofNat_le.mpr hsum⟩
      · intro f hf
        rw [Int.toNat_natCast, htake] at hf
        obtain ⟨k, -, rfl⟩ := List.mem_map.mp hf
        exact Int.natCast_nonneg k
      · rw [Int.toNat_natCast, htake, sum_map_ofNat]

/-! ### The secure buffer -/

theorem length_fillVp9Header (n : Nat) : (fillVp9Header n).length = 16 := rfl

theorem packedFrom_concat (data : Bytes) (offset : Nat) (fs : List Nat) (f : Nat) :
    packedFrom data offset (fs ++ [f]) =
      packedFrom data offset fs ++
        (fillVp9Header f ++ (data.drop (offset + fs.sum)).take f) := by
  induction fs generalizing offset with
  | nil => simp [packedFrom]
  | cons g fs ih =>
    rw [List.cons_append, packedFrom, ih, packedFrom, List.sum_cons, Nat.add_assoc]
    simp only [List.append_assoc]

theorem length_packedFrom (data : Bytes) (offset : Nat) (fs : List Nat)
    (h : offset + fs.sum ≤ data.length) :
    (packedFrom data offset fs).length = fs.sum + 16 * fs.length := by
  induction fs generalizing offset with
  | nil => rfl
  | cons f fs ih =>
    rw [List.sum_cons] at h
    have hbody : ((data.drop offset).take f).length = f :=
      List.length_take_of_le (by rw [List.length_drop]; omega)
    rw [packedFrom, List.length_append, List.length_append, length_fillVp9Header, hbody,
      ih (offset + f) (by omega), List.sum_cons, List.length_cons]
    omega

/-- Two pieces in a row, the second one first. -/
theorem memcpy_memcpy (smem a b : Bytes) (k : Nat) (h : k + a.length + b.length ≤ smem.length) :
    OutputPort.memcpy (OutputPort.memcpy smem (k + a.length) b) k a =
      smem.take k ++ (a ++ b) ++ smem.drop (k + a.length + b.length) := by
  have htake : (smem.take (k + a.length)).length = k + a.length :=
    List.length_take_of_le (by omega)
  simp only [OutputPort.memcpy]
  rw [List.append_assoc (smem.take (k + a.length)), List.take_append_of_le_length (by omega),
    List.drop_left' htake, List.take_take, Nat.min_eq_left (Nat.le_add_right k _)]
  simp only [List.append_assoc]

/-- The copy loop: both offsets come down together, and what is behind the frames stays. -/
theorem fillLoop_eq (es : Bytes) (hes : es.length ≤ esBufSize) (fs : List Nat)
    (hcount : fs.length ≤ 8) (hsum : fs.sum ≤ es.length) (rest : List Int) (smem : Bytes)
    (hsmem : fs.sum + 16 * fs.length ≤ smem.length) :
    fillLoop es (fs.map Int.ofNat ++ rest) fs.length smem ((fs.sum + 16 * fs.length : Nat) : Int)
        ((fs.sum : Nat) : Int) =
      some (packedFrom es 0 fs ++ smem.drop (fs.sum + 16 * fs.length)) := by
  induction fs using List.reverseRecOn generalizing rest smem with
  | nil => simp [fillLoop, packedFrom]
  | append_singleton fs f ih =>
    simp only [List.sum_append, List.sum_singleton, List.length_append, List.length_singleton]
      at hcount hsum hsmem ⊢
    simp only [esBufSize] at hes
    have hget : ((fs ++ [f]).map Int.ofNat ++ rest)[fs.length]? = some (f : Int) := by
      rw [List.map_append, List.append_assoc, List.getElem?_append_right (by simp)]
      simp
    have hsub : uint32 (f : Int) = f := by
      rw [uint32]
      omega
    have hoffset : int32 (((fs.sum + f + 16 * (fs.length + 1) : Nat) : Int) - f) =
        ((fs.sum + 16 * fs.length + 16 : Nat) : Int) := by
      rw [int32_eq (by omega) (by omega)]
      omega
    have hstream : int32 (((fs.sum + f : Nat) : Int) - f) = (fs.sum : Nat) := by
      rw [int32_eq (by omega) (by omega)]
      omega
    have hdown : int32 (((fs.sum + 16 * fs.length + 16 : Nat) : Int) - 16) =
        ((fs.sum + 16 * fs.length : Nat) : Int) := by
      rw [int32_eq (by omega) (by omega)]
      omega
    have hbody : ((es.drop fs.sum).take f).length = f :=
      List.length_take_of_le (by rw [List.length_drop]; omega)
    have hread : readEs es (fs.sum : Nat) f = some ((es.drop fs.sum).take f) := by
      rw [readEs, if_pos (by omega), Int.toNat_natCast]
    have hfill : secmemFill smem ((fs.sum + 16 * fs.length + 16 : Nat) : Int)
        ((es.drop fs.sum).take f) =
        some (OutputPort.memcpy smem (fs.sum + 16 * fs.length + 16) ((es.drop fs.sum).take f)) := by
      rw [secmemFill, if_pos (by rw [hbody]; omega), Int.toNat_natCast]
    have hlen : (OutputPort.memcpy smem (fs.sum + 16 * fs.length + 16)
        ((es.drop fs.sum).take f)).length = smem.length := by
      simp only [OutputPort.memcpy, List.length_append, List.length_take, List.length_drop]
      omega
    have hheader : secmemFill (OutputPort.memcpy smem (fs.sum + 16 * fs.length + 16)
        ((es.drop fs.sum).take f)) ((fs.sum + 16 * fs.length : Nat) : Int) (fillVp9Header f) =
        some (smem.take (fs.sum + 16 * fs.length) ++
          (fillVp9Header f ++ (es.drop fs.sum).take f) ++
          smem.drop (fs.sum + f + 16 * (fs.length + 1))) := by
      have htwice := memcpy_memcpy smem (fillVp9Header f) ((es.drop fs.sum).take f)
        (fs.sum + 16 * fs.length) (by rw [length_fillVp9Header, hbody]; omega)
      rw [length_fillVp9Header, hbody] at htwice
      rw [secmemFill, if_pos (by rw [hlen, length_fillVp9Header]; omega), Int.toNat_natCast, htwice]
      congr 3
      omega
    have hfront : (smem.take (fs.sum + 16 * fs.length)).length = fs.sum + 16 * fs.length :=
      List.length_take_of_le (by omega)
    have hnext := ih (by omega) (by omega) ((f : Int) :: rest)
      (smem.take (fs.sum + 16 * fs.length) ++ (fillVp9Header f ++ (es.drop fs.sum).take f) ++
        smem.drop (fs.sum + f + 16 * (fs.length + 1)))
      (by rw [List.append_assoc, List.length_append, hfront]; omega)
    have hsizes : (fs ++ [f]).map Int.ofNat ++ rest = fs.map Int.ofNat ++ (f : Int) :: rest := by
      simp
    rw [fillLoop, hget]
    simp only [Option.bind_some, hsub, hoffset, hstream, hread, hfill, hdown, hheader]
    rw [hsizes, hnext, List.append_assoc, List.drop_left' hfront, packedFrom_concat, Nat.zero_add]
    simp only [List.append_assoc]

/-- The secure buffer of a packet whose split is that of its frames. -/
theorem frameDoneSecure_eq (junk : Split) (fresh : Nat → UInt8) {data : Bytes}
    (hsize : data.length ≤ esBufSize) (hmatched : ¬ Unmatched data) :
    (HasIndex data ∧ ¬ SizesFit data → frameDoneSecure junk fresh data = .notQueued) ∧
    (¬ (HasIndex data ∧ ¬ SizesFit data) → frameDoneSecure junk fresh data =
      .queued (packedFrom data 0 (frameSizes data)) (packedFrom data 0 (frameSizes data)).length
        data.length) := by
  have hlt : data.length < 2147483648 := Nat.lt_of_le_of_lt hsize (by decide)
  obtain ⟨hover, hfit⟩ := split_eq junk hlt hmatched
  constructor
  · intro h
    rw [frameDoneSecure, hover h]
  · intro h
    obtain ⟨-, hcount⟩ := length_frameSizes data
    have hsum := sum_frameSizes_le h
    simp only [esBufSize] at hsize
    have hframe : int32 (((frameSizes data).sum : Int) + (frameSizes data).length * 16) =
        (((frameSizes data).sum + 16 * (frameSizes data).length : Nat) : Int) := by
      rw [int32_eq (by omega) (by omega)]
      push_cast
      omega
    have hloop := fillLoop_eq data hsize (frameSizes data) hcount hsum
      (junk.sizes.drop (frameSizes data).length)
      ((List.range ((frameSizes data).sum + 16 * (frameSizes data).length)).map fresh) (by simp)
    have hcovered : ((List.range ((frameSizes data).sum + 16 * (frameSizes data).length)).map
        fresh).drop ((frameSizes data).sum + 16 * (frameSizes data).length) = [] :=
      List.drop_eq_nil_of_le (by simp)
    rw [hcovered, List.append_nil] at hloop
    rw [frameDoneSecure, hfit h]
    simp only [hframe, Int.toNat_natCast, hloop]
    rw [length_packedFrom data 0 _ (by omega)]

/-- The secure buffer of a packet, if its sizes fit. -/
def packed (data : Bytes) : Option Bytes :=
  if HasIndex data ∧ ¬ SizesFit data then none else some (packedFrom data 0 (frameSizes data))

/-- A port that packs like this does with a VP9 frame in secure memory what the code does. -/
theorem frameDoneSecure_secured {cfg : OutputPort.Config} {s : OutputPort.Port} {i : Nat}
    (junk : Split) (fresh : Nat → UInt8) (hmode : cfg.mode = .dmabuf) (hvp9 : cfg.vp9 = true)
    (hpack : cfg.pack = packed) (hsize : (s.esBuf.take (s.buf i).used).length ≤ esBufSize)
    (hmatched : ¬ Unmatched (s.esBuf.take (s.buf i).used)) :
    frameDoneSecure junk fresh (s.esBuf.take (s.buf i).used) =
      match OutputPort.secured cfg s i true with
      | none => .notQueued
      | some smem => .queued smem smem.length (s.esBuf.take (s.buf i).used).length := by
  obtain ⟨hover, hqueued⟩ := frameDoneSecure_eq junk fresh hsize hmatched
  have hsecured : OutputPort.secured cfg s i true = packed (s.esBuf.take (s.buf i).used) := by
    simp [OutputPort.secured, hmode, hvp9, hpack]
  rw [hsecured, packed]
  by_cases hfits : HasIndex (s.esBuf.take (s.buf i).used) ∧ ¬ SizesFit (s.esBuf.take (s.buf i).used)
  · rw [hover hfits, if_pos hfits]
  · rw [hqueued hfits, if_neg hfits]

/-- A packet is handled as it should be, whatever was in the structure and in new secure memory. -/
def Handled (data : Bytes) : Prop :=
  (∀ junk, SplitRight data (vp9SuperframeSplitFilter junk data)) ∧
  ∀ junk fresh, SecureRight data (frameDoneSecure junk fresh data)

/-- The packets that are: they end in an index, and its sizes do not fit or the packet is as much
    longer than its frames as their headers are long. -/
def Served (data : Bytes) : Prop :=
  HasIndex data ∧
    (SizesFit data → data.length = (listed data).sum + 16 * (listed data).length)

theorem handled_iff {data : Bytes} (hsize : data.length ≤ esBufSize) :
    Handled data ↔ Served data := by
  have hlt : data.length < 2147483648 := Nat.lt_of_le_of_lt hsize (by decide)
  constructor
  · rintro ⟨hsplit, hsecure⟩
    have hmatched := (splitRight_iff hlt).mp hsplit
    obtain ⟨-, hqueued⟩ := frameDoneSecure_eq ⟨0, 0, []⟩ (fun _ => 0) hsize hmatched
    obtain ⟨-, hright⟩ := hsecure ⟨0, 0, []⟩ fun _ => 0
    -- what is queued is the packet's size, and should be that of the secure buffer
    have htotal : ¬ (HasIndex data ∧ ¬ SizesFit data) →
        data.length = (frameSizes data).sum + 16 * (frameSizes data).length := by
      intro h
      have hsame := (hqueued h).symm.trans (hright h)
      rw [Result.queued.injEq] at hsame
      rw [length_packedFrom data 0 _ (by have := sum_frameSizes_le h; omega)] at hsame
      exact_mod_cast hsame.2.2
    have hindex : HasIndex data := by
      by_contra hno
      have := htotal fun h => hno h.1
      rw [frameSizes, if_neg hno] at this
      simp at this
    refine ⟨hindex, fun hfit => ?_⟩
    have := htotal fun h => h.2 hfit
    rwa [frameSizes, if_pos hindex] at this
  · rintro ⟨hindex, htotal⟩
    have hmatched : ¬ Unmatched data := fun h => h.2 hindex
    refine ⟨(splitRight_iff hlt).mpr hmatched, fun junk fresh => ?_⟩
    obtain ⟨hover, hqueued⟩ := frameDoneSecure_eq junk fresh hsize hmatched
    refine ⟨hover, fun h => ?_⟩
    have hfit : SizesFit data := by_contra fun hn => h ⟨hindex, hn⟩
    have hlen : (packedFrom data 0 (frameSizes data)).length = data.length := by
      rw [length_packedFrom data 0 _ (by have := sum_frameSizes_le h; omega), frameSizes,
        if_pos hindex]
      exact (htotal hfit).symm
    rw [hqueued h, hlen]

/-- A packet: it is not empty, and its size is an `int`. -/
structure Packet where
  bytes : Bytes
  pos : 0 < bytes.length
  size_lt : bytes.length < 2147483648

/-- For every packet the split is right exactly if its last byte is not an unmatched marker; and
    for every packet that `write_es` takes, split and secure buffer are right exactly if it ends in
    an index whose sizes do not fit, or which is as much longer than its frames as their headers. -/
theorem superframe_handled_iff (p : Packet) :
    ((∀ junk, SplitRight p.bytes (vp9SuperframeSplitFilter junk p.bytes)) ↔
      ¬ Unmatched p.bytes) ∧
    (p.bytes.length ≤ esBufSize → (Handled p.bytes ↔ Served p.bytes)) :=
  ⟨splitRight_iff p.size_lt, handled_iff⟩

/-- Two frames of one byte, and behind them as much as two headers are long. -/
def padded : Packet where
  bytes := [1, 2] ++ List.replicate 26 0 ++ [0xc9, 1, 0, 1, 0, 0xc9]
  pos := by decide
  size_lt := by decide

theorem padded_handled : listed padded.bytes = [1, 1] ∧ Handled padded.bytes := by
  have hindex : HasIndex padded.bytes := by decide +kernel
  have htotal : padded.bytes.length =
      (listed padded.bytes).sum + 16 * (listed padded.bytes).length := by
    decide +kernel
  refine ⟨by decide +kernel, ?_⟩
  exact ((superframe_handled_iff padded).2 (by decide)).mpr ⟨hindex, fun _ => htotal⟩

/-- A frame of one byte. -/
def single : Packet := ⟨[0x49], by decide, by decide⟩

/-- A frame that ends in a byte that looks like a marker. -/
def stray : Packet := ⟨[0x49, 0xc0], by decide, by decide⟩

/-- The secure buffer of a single frame is queued sixteen bytes too short; and behind a stray marker
    the number of frames is what was in the structure. -/
theorem single_and_stray :
    frameDoneSecure ⟨0, 0, []⟩ (fun _ => 0) single.bytes =
      .queued [0, 0, 0, 5, 255, 255, 255, 250, 0, 0, 0, 1, 65, 77, 76, 86, 0x49] 17 1 ∧
    ¬ Handled single.bytes ∧
    vp9SuperframeSplitFilter ⟨9, -1, []⟩ stray.bytes = some ⟨9, -1, []⟩ ∧
    ¬ Handled stray.bytes := by
  have hqueued : frameDoneSecure ⟨0, 0, []⟩ (fun _ => 0) single.bytes =
      .queued [0, 0, 0, 5, 255, 255, 255, 250, 0, 0, 0, 1, 65, 77, 76, 86, 0x49] 17 1 := by
    decide +kernel
  have hstray : vp9SuperframeSplitFilter ⟨9, -1, []⟩ stray.bytes = some ⟨9, -1, []⟩ := by
    decide +kernel
  refine ⟨hqueued, ?_, hstray, ?_⟩
  · rintro ⟨-, hsecure⟩
    have hright := (hsecure ⟨0, 0, []⟩ fun _ => 0).2 (fun h => absurd h.1 (by decide +kernel))
    rw [hqueued, Result.queued.injEq] at hright
    have hlen : ((1 : Int) = 17) := by
      rw [hright.2.2, ← hright.1]
      rfl
    exact absurd hlen (by decide)
  · rintro ⟨hsplit, -⟩
    have hcount := ((hsplit ⟨9, -1, []⟩).2.2 _ hstray).2.1
    exact absurd hcount (by decide)

end Streambox.V4l2Dec.Superframe
