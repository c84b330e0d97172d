import Streambox.Shader.AmlyToNv12

/-! The readers of a 40-bit pixel pair that are not aligned to a word.

    Every AMLY shader reads a pair at byte `5 * p` with a function of its own. They differ in the
    blocks they load again and the ones they re-use; what they gather is the same.

        stream   | b0 b1 b2 b3 b4 b5 b6 b7 | b8 b9 ..        5-byte groups, first byte highest
        buffer   | b7 b6 b5 b4 b3 b2 b1 b0 | .. b9 b8        every 64-bit block byte-reversed
        words    |      w0     |     w1    |

    A group needs two words of the stream. Where it straddles them a third word is shifted in behind
    it and masked off again, so it does not matter which one that is. -/

namespace Streambox.Shader.PairReaders
open Streambox.Lib
open Streambox.Shader.Amly (pick decodePair corrected streamByte group refPair)

/-- `read_pair` of `amly_p010_y.frag`; the other fragment shaders have the same. -/
def readPair (amly : Words) (pairIdx : Word) : Word × Word :=
  let byteOffset := pairIdx * 5#32
  let wordIdx := byteOffset >>> 2
  let shift := (byteOffset &&& 3#32) <<< 3
  let base0 := wordIdx &&& ~~~1#32
  let blk0Lo := amly base0.toNat
  let blk0Hi := amly (base0 + 1#32).toNat
  let cw0 := pick wordIdx blk0Lo blk0Hi
  let p1 := wordIdx + 1#32
  let base1 := p1 &&& ~~~1#32
  let blk1Lo := if base1 ≠ base0 then amly base1.toNat else blk0Lo
  let blk1Hi := if base1 ≠ base0 then amly (base1 + 1#32).toNat else blk0Hi
  let cw1 := pick p1 blk1Lo blk1Hi
  if shift = 0#32 then
    gather cw0 cw1 0#32 shift
  else
    let p2 := wordIdx + 2#32
    let base2 := p2 &&& ~~~1#32
    let cw2 :=
      if base2 = base0 then pick p2 blk0Lo blk0Hi
      else if base2 = base1 then pick p2 blk1Lo blk1Hi
      else pick p2 (amly base2.toNat) (amly (base2 + 1#32).toNat)
    gather cw0 cw1 cw2 shift

/-- `read_pair_global` of `amly_decode.comp`. -/
def readPairGlobal (input : Words) (pairIdx : Word) : Word × Word :=
  let byteOffset := pairIdx * 5#32
  let wordIdx := byteOffset >>> 2
  let shift := (byteOffset &&& 3#32) <<< 3
  let p0 := wordIdx
  let base0 := p0 &&& ~~~1#32
  let raw0a := input base0.toNat
  let raw0b := input (base0 + 1#32).toNat
  let cw0 := pick p0 raw0a raw0b
  let p1 := wordIdx + 1#32
  let base1 := p1 &&& ~~~1#32
  let raw1a := input base1.toNat
  let raw1b := input (base1 + 1#32).toNat
  let cw1 := if base1 = base0 then pick p1 raw0a raw0b else pick p1 raw1a raw1b
  if shift = 0#32 then
    gather cw0 cw1 0#32 shift
  else
    let p2 := wordIdx + 2#32
    let base2 := p2 &&& ~~~1#32
    let cw2 :=
      if base2 = base1 then
        if base1 = base0 then pick p2 raw0a raw0b else pick p2 raw1a raw1b
      else pick p2 (input base2.toNat) (input (base2 + 1#32).toNat)
    gather cw0 cw1 cw2 shift

/-- The readers of `amly_p010_y.frag`, `amly_to_nv12.comp`, `amly_to_p010.comp` and
    `amly_decode.comp`. -/
def readers : List (Words → Word → Word × Word) :=
  [readPair, Nv12.readPairGlobal, Amly.readPairGlobal, readPairGlobal]

/-! ### Buffers -/

/-- A buffer of words, with what a fetch behind its end gives. -/
def held (buf : List Word) (beyond : Words) : Words := fun i => buf.getD i (beyond i)

/-- The 32 bits at bytes `b .. b+3` of a stream, the first byte lowest. -/
def lowWord (s : Nat → Byte) (b : Nat) : Word := s (b + 3) ++ s (b + 2) ++ s (b + 1) ++ s b

/-- A stream of bytes as the words of a buffer whose 64-bit blocks are byte-reversed. -/
def reversed (s : Nat → Byte) : Words := wordOf fun k => s (8 * (k / 8) + (7 - k % 8))

/-- `[Y0 | U0 | Y1 | V0]`, Y0 in the highest ten bits. -/
def pack (q : RawPair) : BitVec 40 := q.y0 ++ q.u0 ++ q.y1 ++ q.v0

/-- The five bytes of a pair, the first one highest. -/
def groupBytes (q : RawPair) : List Byte :=
  (List.range 5).map fun j => (pack q).extractLsb' (8 * (4 - j)) 8

def packed (quads : List RawPair) : List Byte := quads.flatMap groupBytes

/-- A buffer of `size` words with the packed pairs, and padding behind them. -/
def packedBuffer (quads : List RawPair) (pad : Nat → Byte) (size : Nat) : List Word :=
  (List.range size).map (reversed fun k => (packed quads).getD k (pad k))

/-! ### The readers agree -/

theorem readPairGlobal_eq (input : Words) (pairIdx : Word) :
    readPairGlobal input pairIdx = Amly.readPairGlobal input pairIdx := by
  rw [readPairGlobal, Amly.readPairGlobal]
  simp only [ite_not]

/-- The third word does not matter, so neither does the block it comes from. -/
theorem readPair_eq (amly : Words) (pairIdx : Word) :
    readPair amly pairIdx = Amly.readPairGlobal amly pairIdx := by
  have hshift := toNat_shift (pairIdx * 5#32)
  have hblock : ∀ p q q' : Word,
      pick p (if q ≠ q' then amly q.toNat else amly q'.toNat)
          (if q ≠ q' then amly (q + 1#32).toNat else amly (q' + 1#32).toNat)
        = if q = q' then pick p (amly q'.toNat) (amly (q' + 1#32).toNat)
          else pick p (amly q.toNat) (amly (q + 1#32).toNat) := by
    intro p q q'
    by_cases h : q = q' <;> simp [h]
  rw [readPair, Amly.readPairGlobal]
  simp only [hblock]
  split
  next => rfl
  next => exact Nv12.gather_third _ _ _ _ (by omega)

/-- All readers read the group of the reversed stream. -/
theorem read_eq {read : Words → Word → Word × Word} (hread : read ∈ readers) (input : Words)
    {p : Nat} (hp : 5 * p < 2 ^ 32) :
    read input (BitVec.ofNat 32 p) = readGroup (corrected input) (5 * p) := by
  rw [← Amly.readPairGlobal_eq input hp]
  simp only [readers, List.mem_cons, List.not_mem_nil, or_false] at hread
  rcases hread with rfl | rfl | rfl | rfl
  · exact readPair_eq ..
  · exact Nv12.readPairGlobal_eq ..
  · rfl
  · exact readPairGlobal_eq ..

/-! ### What they read -/

theorem getLsbD_lowWord (s : Nat → Byte) (b i : Nat) (hi : i < 32) :
    (lowWord s b).getLsbD i = (s (b + i / 8)).getLsbD (i % 8) := by
  have hcase : i < 8 ∨ (8 ≤ i ∧ i < 16) ∨ (16 ≤ i ∧ i < 24) ∨ (24 ≤ i ∧ i < 32) := by omega
  simp only [lowWord, BitVec.getLsbD_append]
  rcases hcase with h | h | h | h
  · rw [if_pos h]; congr 2 <;> omega
  · rw [if_neg (by omega), if_pos (by omega)]; congr 2 <;> omega
  · rw [if_neg (by omega), if_neg (by omega), if_pos (by omega)]; congr 2 <;> omega
  · rw [if_neg (by omega), if_neg (by omega), if_neg (by omega)]; congr 2 <;> omega

/-- A group is four bytes of the stream and the one behind them. -/
theorem readGroup_corrected (input : Words) (b : Nat) :
    readGroup (corrected input) b =
      (lowWord (streamByte input) b, (streamByte input (b + 4)).setWidth 32) := by
  refine Prod.ext (BitVec.eq_of_getLsbD_eq fun i hi => ?_) (BitVec.eq_of_getLsbD_eq fun i hi => ?_)
  · rw [getLsbD_readGroup_fst _ _ _ hi, Amly.bitAt_corrected, getLsbD_lowWord _ _ _ hi,
      show (8 * b + i) / 8 = b + i / 8 by omega, show (8 * b + i) % 8 = i % 8 by omega]
  · rw [getLsbD_readGroup_snd, BitVec.getLsbD_setWidth]
    by_cases h : i < 8
    · rw [Amly.bitAt_corrected, show (8 * b + 32 + i) / 8 = b + 4 by omega,
        show (8 * b + 32 + i) % 8 = i by omega]
      simp [h, hi]
    · simp [h, BitVec.getLsbD_of_ge (streamByte input (b + 4)) i (by omega)]

/-- A byte of the stream lies in the word that its place in the reversed block says. -/
theorem streamByte_congr {a b : Words} {k : Nat}
    (h : a ((8 * (k / 8) + (7 - k % 8)) / 4) = b ((8 * (k / 8) + (7 - k % 8)) / 4)) :
    streamByte a k = streamByte b k := by
  rw [streamByte, streamByte, byteAt, byteAt, h]

/-- What is behind a buffer does not reach a byte whose block is inside it. -/
theorem streamByte_held {buf : List Word} {k : Nat} (beyond beyond' : Words)
    (hk : k / 8 * 2 + 1 < buf.length) :
    streamByte (held buf beyond) k = streamByte (held buf beyond') k := by
  refine streamByte_congr ?_
  have hword : (8 * (k / 8) + (7 - k % 8)) / 4 < buf.length := by omega
  rw [held, held, List.getD_eq_getElem _ _ hword, List.getD_eq_getElem _ _ hword]

/-! ### Packed pairs -/

/-- Reversing a block twice gives it back. -/
theorem streamByte_reversed (s : Nat → Byte) (k : Nat) : streamByte (reversed s) k = s k := by
  rw [streamByte, reversed, byteAt_wordOf]
  congr 1
  omega

theorem groupBytes_length (q : RawPair) : (groupBytes q).length = 5 := by
  simp [groupBytes]

theorem groupBytes_getD (q : RawPair) {j : Nat} (hj : j < 5) (x : Byte) :
    (groupBytes q).getD j x = (pack q).extractLsb' (8 * (4 - j)) 8 := by
  rw [List.getD_eq_getElem _ _ (by simpa [groupBytes_length] using hj)]
  simp [groupBytes]

/-- Group `p` of the packed pairs is pair `p`. -/
theorem packed_getD {quads : List RawPair} {p j : Nat} (hp : p < quads.length) (hj : j < 5)
    (x : Byte) :
    (packed quads).getD (5 * p + j) x = (pack quads[p]).extractLsb' (8 * (4 - j)) 8 := by
  induction quads generalizing p with
  | nil => simp at hp
  | cons q quads ih =>
    have hlen := groupBytes_length q
    rw [packed, List.flatMap_cons, ← packed]
    cases p with
    | zero =>
      rw [List.getD_append _ _ _ _ (by omega), Nat.mul_zero, Nat.zero_add, groupBytes_getD _ hj]
      rfl
    | succ p =>
      rw [List.getD_append_right _ _ _ _ (by omega), hlen,
        show 5 * (p + 1) + j - 5 = 5 * p + j by omega]
      simpa using ih (by simpa using hp)

section pairs
variable {quads : List RawPair} {p : Nat} {input : Words}

/-- The stream has the packed bytes of pair `p`. -/
def HasPair (input : Words) (p : Nat) (q : RawPair) : Prop :=
  ∀ j < 5, streamByte input (5 * p + j) = (pack q).extractLsb' (8 * (4 - j)) 8

theorem group_eq_pack {q : RawPair} (h : HasPair input p q) : group input (5 * p) = pack q := by
  apply BitVec.eq_of_getLsbD_eq
  intro i hi
  rw [Amly.getLsbD_group _ _ _ hi, h _ (by omega), BitVec.getLsbD_extractLsb',
    show 8 * (4 - (4 - i / 8)) + i % 8 = i by omega]
  simp [Nat.mod_lt]

/-- The fields of the packed 40 bits are the pair. -/
theorem refPair_of_hasPair {q : RawPair} (h : HasPair input p q) : refPair input p = q := by
  have hbits : ∀ i, (pack q).getLsbD i = if i < 10 then q.v0.getLsbD i
      else if i < 20 then q.y1.getLsbD (i - 10) else if i < 30 then q.u0.getLsbD (i - 20)
      else q.y0.getLsbD (i - 30) := by
    intro i
    simp only [pack, BitVec.getLsbD_append]
    split_ifs <;> first | omega | rfl
  have hfield : ∀ (s : Nat) (f : BitVec 10), (∀ i < 10, (pack q).getLsbD (s + i) = f.getLsbD i) →
      (pack q).extractLsb' s 10 = f := by
    intro s f hf
    apply BitVec.eq_of_getLsbD_eq
    intro i hi
    simp [hi, hf i hi]
  have hy0 := hfield 30 q.y0 fun i hi => by
    rw [hbits, if_neg (by omega), if_neg (by omega), if_neg (by omega)]; congr 1; omega
  have hu0 := hfield 20 q.u0 fun i hi => by
    rw [hbits, if_neg (by omega), if_neg (by omega), if_pos (by omega)]; congr 1; omega
  have hy1 := hfield 10 q.y1 fun i hi => by
    rw [hbits, if_neg (by omega), if_pos (by omega)]; congr 1; omega
  have hv0 := hfield 0 q.v0 fun i hi => by
    rw [hbits, if_pos (by omega), Nat.zero_add]
  rw [refPair, group_eq_pack h, hy0, hu0, hy1, hv0]

/-- The bytes of pair `p` are in a buffer that goes on behind them. -/
theorem hasPair_packedBuffer {pad : Nat → Byte} {size : Nat} (beyond : Words)
    (hp : p < quads.length) (hsize : (5 * p + 16) / 4 < size) :
    HasPair (held (packedBuffer quads pad size) beyond) p quads[p] := by
  intro j hj
  have hword : (8 * ((5 * p + j) / 8) + (7 - (5 * p + j) % 8)) / 4 < size := by omega
  have hheld : streamByte (held (packedBuffer quads pad size) beyond) (5 * p + j)
      = streamByte (reversed fun k => (packed quads).getD k (pad k)) (5 * p + j) := by
    refine streamByte_congr ?_
    rw [held, List.getD_eq_getElem _ _ (by simpa [packedBuffer] using hword)]
    simp [packedBuffer]
  rw [hheld, streamByte_reversed, packed_getD hp hj]

end pairs

/-- Every reader returns the five bytes of the reversed stream, the first four in `lo` and the last
    one in `hi`; and of packed pairs it returns what decodes to the pair that was packed. -/
theorem readers_agree {p size : Nat} (hp : 5 * p + 16 < 2 ^ 32) (hsize : (5 * p + 16) / 4 < size)
    (beyond : Words) {read : Words → Word → Word × Word} (hread : read ∈ readers) :
    (∀ buf : List Word, buf.length = size →
      read (held buf beyond) (BitVec.ofNat 32 p) =
        (lowWord (streamByte (held buf fun _ => 0#32)) (5 * p),
          (streamByte (held buf fun _ => 0#32) (5 * p + 4)).setWidth 32)) ∧
    ∀ (quads : List RawPair) (pad : Nat → Byte) (h : p < quads.length),
      decodePair (read (held (packedBuffer quads pad size) beyond) (BitVec.ofNat 32 p)).1
          (read (held (packedBuffer quads pad size) beyond) (BitVec.ofNat 32 p)).2
        = quads[p].toPair := by
  constructor
  · intro buf hbuf
    have hbyte : ∀ j < 5, streamByte (held buf beyond) (5 * p + j)
        = streamByte (held buf fun _ => 0#32) (5 * p + j) :=
      fun j hj => streamByte_held beyond _ (by omega)
    have h0 := hbyte 0 (by omega)
    rw [Nat.add_zero] at h0
    rw [read_eq hread _ (by omega), readGroup_corrected, lowWord, h0, hbyte 1 (by omega),
      hbyte 2 (by omega), hbyte 3 (by omega), hbyte 4 (by omega), lowWord]
  · intro quads pad h
    rw [read_eq hread _ (by omega), Amly.decodePair_corrected,
      refPair_of_hasPair (hasPair_packedBuffer beyond h hsize)]

/-- The second of two pairs, across the end of the first block: here the reader of
    `amly_to_nv12.comp` fetches another third word than the others. -/
theorem readers_agree_two :
    (decodePair
        (Nv12.readPairGlobal (held (packedBuffer [⟨1#10, 2#10, 3#10, 4#10⟩, ⟨5#10, 6#10, 7#10, 8#10⟩]
          (fun _ => 0xFF#8) 6) fun _ => 0#32) 1#32).1
        (Nv12.readPairGlobal (held (packedBuffer [⟨1#10, 2#10, 3#10, 4#10⟩, ⟨5#10, 6#10, 7#10, 8#10⟩]
          (fun _ => 0xFF#8) 6) fun _ => 0#32) 1#32).2)
      = ⟨5#32, 6#32, 7#32, 8#32⟩ :=
  (@readers_agree 1 6 (by decide) (by decide) (fun _ => 0#32) Nv12.readPairGlobal
    (by simp [readers])).2 _ _ (by decide)

end Streambox.Shader.PairReaders
