import Streambox.Shader.P010

/-! `amly_to_p010.comp`: big-endian AMLY to P010.

    The capture hardware stores 64-bit words byte-reversed, so the packed stream is obtained by
    reversing every 8-byte-aligned block, and a pixel pair is 40 big-endian bits
    `[Y0 | U0 | Y1 | V0]` of that stream. The global reader reverses the block that holds each word
    it needs. The tile loader reverses pairs of words counted from the tile's own first word, so it
    sees the stream only when that word opens a block. Tiles advance by 640 bytes, a whole number
    of blocks, so the row start decides for every tile of its row. -/

namespace Streambox.Shader.Amly
open Streambox.Lib

/-- `bswap32`. -/
def bswap32 (v : Word) : Word :=
  ((v &&& 0x000000FF#32) <<< 24) ||| ((v &&& 0x0000FF00#32) <<< 8) |||
    ((v &&& 0x00FF0000#32) >>> 8) ||| ((v &&& 0xFF000000#32) >>> 24)

/-- Body of the `load_tile` loop: two words, swapped and byte-reversed. -/
def loadWords (input : Words) (base : Word) (n : Nat) (t : Tile) (i : Nat) : Tile :=
  if i + 1 < n then
    let w0 := input (base + BitVec.ofNat 32 i).toNat
    let w1 := input (base + BitVec.ofNat 32 i + 1#32).toNat
    (t.set i (bswap32 w1)).set (i + 1) (bswap32 w0)
  else if i < n then
    -- odd trailing word
    t.set i 0#32
  else t

/-- `load_tile`: 128 threads, two words each, stride 256. -/
def loadTile (input : Words) (base n : Word) : Tile :=
  (List.range 128).foldl (fun t lid =>
    (steps (lid * 2) n.toNat (128 * 2)).foldl (loadWords input base n.toNat) t) Tile.empty

/-- The inline field extraction of `main`. -/
def decodePair (lo hi : Word) : Pair :=
  let bs := bswap32 lo
  { y0 := (bs >>> 22) &&& 0x3FF#32
    u0 := (bs >>> 12) &&& 0x3FF#32
    y1 := (bs >>> 2) &&& 0x3FF#32
    v0 := ((bs &&& 3#32) <<< 8) ||| hi }

/-- The corrected word at `p`, from the two raw words `a`, `b` of its block. -/
def pick (p a b : Word) : Word := if p &&& 1#32 = 0#32 then bswap32 b else bswap32 a

/-- `read_pair_global`. -/
def readPairGlobal (input : Words) (pairIdx : Word) : Word × Word :=
  let byteOffset := pairIdx * 5#32
  let wordIdx := byteOffset >>> 2
  let shift := (byteOffset &&& 3#32) <<< 3
  let p0 := wordIdx
  let base0 := p0 &&& ~~~1#32
  let raw0a := input base0.toNat
  let raw0b := input (base0 + 1#32).toNat
  let cw0 := pick p0 raw0a raw0b
  let p1 := wordIdx + 1#32
  let base1 := p1 &&& ~~~1#32
  let raw1a := input base1.toNat
  let raw1b := input (base1 + 1#32).toNat
  let cw1 := if base1 = base0 then pick p1 raw0a raw0b else pick p1 raw1a raw1b
  if shift = 0#32 then
    gather cw0 cw1 0#32 shift
  else
    let p2 := wordIdx + 2#32
    let base2 := p2 &&& ~~~1#32
    let cw2 :=
      if base2 = base1 then
        if base1 ≠ base0 then pick p2 raw1a raw1b else pick p2 raw0a raw0b
      else pick p2 (input base2.toNat) (input (base2 + 1#32).toNat)
    gather cw0 cw1 cw2 shift

def kernel : Kernel := ⟨loadTile, decodePair, readPairGlobal⟩

theorem kernel_loadTile : kernel.loadTile = loadTile := by simp only [kernel]

/-! ### The reference unpacking -/

/-- Byte `k` of the stream with every 8-byte-aligned block reversed. -/
def streamByte (input : Words) (k : Nat) : Byte := byteAt input (8 * (k / 8) + (7 - k % 8))

/-- The 40 bits at byte `b` of the stream, first byte highest. -/
def group (input : Words) (b : Nat) : BitVec 40 :=
  streamByte input b ++ streamByte input (b + 1) ++ streamByte input (b + 2) ++
    streamByte input (b + 3) ++ streamByte input (b + 4)

/-- The four fields of pair `i`. -/
def refPair (input : Words) (i : Nat) : RawPair where
  y0 := (group input (5 * i)).extractLsb' 30 10
  u0 := (group input (5 * i)).extractLsb' 20 10
  y1 := (group input (5 * i)).extractLsb' 10 10
  v0 := (group input (5 * i)).extractLsb' 0 10

/-- The stream as words: word `p` is the other word of its block, byte-reversed. -/
def corrected (input : Words) (p : Nat) : Word :=
  if p % 2 = 0 then bswap32 (input (p + 1)) else bswap32 (input (p - 1))

/-! ### Byte reversal -/

theorem getLsbD_byteMask (s i : Nat) (hs : s ≤ 24) :
    (BitVec.ofNat 32 (255 * 2 ^ s)).getLsbD i = decide (s ≤ i ∧ i < s + 8) := by
  rw [BitVec.getLsbD_ofNat, show (255 : Nat) = 2 ^ 8 - 1 from rfl, Nat.testBit_mul_two_pow,
    Nat.testBit_two_pow_sub_one]
  by_cases h : s ≤ i ∧ i < s + 8
  · simp [h.1, show i < 32 by omega, show i - s < 8 by omega, h.2]
  · by_cases h1 : s ≤ i
    · simp [h1, show ¬ i - s < 8 by omega, show ¬ i < s + 8 by omega]
    · simp [h1]

theorem getLsbD_bswap32 (v : Word) (i : Nat) (hi : i < 32) :
    (bswap32 v).getLsbD i = v.getLsbD (8 * (3 - i / 8) + i % 8) := by
  have m0 := getLsbD_byteMask 0 (i - 24) (by omega)
  have m1 := getLsbD_byteMask 8 (i - 8) (by omega)
  have m2 := getLsbD_byteMask 16 (8 + i) (by omega)
  have m3 := getLsbD_byteMask 24 (24 + i) (by omega)
  simp only [Nat.reducePow, Nat.reduceMul] at m0 m1 m2 m3
  have hcase : i < 8 ∨ (8 ≤ i ∧ i < 16) ∨ (16 ≤ i ∧ i < 24) ∨ (24 ≤ i ∧ i < 32) := by omega
  simp only [bswap32, BitVec.getLsbD_or, BitVec.getLsbD_shiftLeft, BitVec.getLsbD_ushiftRight,
    BitVec.getLsbD_and, m0, m1, m2, m3]
  rcases hcase with h | h | h | h
  · rw [show 8 * (3 - i / 8) + i % 8 = 24 + i by omega]
    simp [hi, h, show i < 24 by omega, show ¬ 16 ≤ 8 + i by omega]
    intro _; omega
  · rw [show 8 * (3 - i / 8) + i % 8 = 8 + i by omega]
    simp [hi, show i < 24 by omega, show ¬ i < 8 by omega, show ¬ 8 ≤ i - 8 by omega,
      show 16 ≤ 8 + i by omega, show 8 + i < 24 by omega, show ¬ 24 + i < 32 by omega]
  · rw [show 8 * (3 - i / 8) + i % 8 = i - 8 by omega]
    simp [hi, show i < 24 by omega, show ¬ i < 8 by omega, show 8 ≤ i - 8 by omega,
      show i - 8 < 16 by omega, show ¬ 8 + i < 24 by omega, show ¬ 24 + i < 32 by omega]
  · rw [show 8 * (3 - i / 8) + i % 8 = i - 24 by omega]
    simp [hi, show ¬ i < 24 by omega, show ¬ i < 8 by omega, show ¬ i - 8 < 16 by omega,
      show i - 24 < 8 by omega, show ¬ 8 + i < 24 by omega, show ¬ 24 + i < 32 by omega]

/-- The corrected words carry the reversed stream. -/
theorem bitAt_corrected (input : Words) (n : Nat) :
    bitAt (corrected input) n = (streamByte input (n / 8)).getLsbD (n % 8) := by
  rw [streamByte, getLsbD_byteAt _ _ _ (by omega), bitAt, bitAt, corrected]
  by_cases h : n / 32 % 2 = 0
  · rw [if_pos h, getLsbD_bswap32 _ _ (by omega)]
    congr 2 <;> omega
  · rw [if_neg h, getLsbD_bswap32 _ _ (by omega)]
    congr 2 <;> omega

theorem getLsbD_group (input : Words) (b i : Nat) (hi : i < 40) :
    (group input b).getLsbD i = (streamByte input (b + (4 - i / 8))).getLsbD (i % 8) := by
  have hcase : i < 8 ∨ (8 ≤ i ∧ i < 16) ∨ (16 ≤ i ∧ i < 24) ∨ (24 ≤ i ∧ i < 32) ∨
      (32 ≤ i ∧ i < 40) := by omega
  simp only [group, BitVec.getLsbD_append]
  rcases hcase with h | h | h | h | h
  · rw [if_pos h]; congr 2 <;> omega
  · rw [if_neg (by omega), if_pos (by omega)]; congr 2 <;> omega
  · rw [if_neg (by omega), if_neg (by omega), if_pos (by omega)]; congr 2 <;> omega
  · rw [if_neg (by omega), if_neg (by omega), if_neg (by omega), if_pos (by omega)]
    congr 2 <;> omega
  · rw [if_neg (by omega), if_neg (by omega), if_neg (by omega), if_neg (by omega)]
    congr 2 <;> omega

/-- The fields extracted from the two halves of a group are the fields of the reference. -/
theorem decodePair_corrected (input : Words) (i : Nat) :
    decodePair (readGroup (corrected input) (5 * i)).1 (readGroup (corrected input) (5 * i)).2
      = (refPair input i).toPair := by
  -- the byte-reversed low half is bits 8..39 of the group, the high half bits 0..7
  have hbs : ∀ j < 32, (bswap32 (readGroup (corrected input) (5 * i)).1).getLsbD j
      = (group input (5 * i)).getLsbD (8 + j) := by
    intro j hj
    rw [getLsbD_bswap32 _ _ hj, getLsbD_readGroup_fst _ _ _ (by omega), bitAt_corrected,
      getLsbD_group _ _ _ (by omega)]
    rw [show (8 * (5 * i) + (8 * (3 - j / 8) + j % 8)) / 8 = 5 * i + (4 - (8 + j) / 8) by omega,
      show (8 * (5 * i) + (8 * (3 - j / 8) + j % 8)) % 8 = (8 + j) % 8 by omega]
  have hhi : ∀ j, (readGroup (corrected input) (5 * i)).2.getLsbD j
      = (decide (j < 8) && (group input (5 * i)).getLsbD j) := by
    intro j
    rw [getLsbD_readGroup_snd]
    by_cases hj : j < 8
    · rw [bitAt_corrected, getLsbD_group _ _ _ (by omega)]
      rw [show (8 * (5 * i) + 32 + j) / 8 = 5 * i + (4 - j / 8) by omega,
        show (8 * (5 * i) + 32 + j) % 8 = j % 8 by omega]
    · simp [hj]
  have hfield : ∀ s, 8 ≤ s → s + 10 ≤ 40 →
      (bswap32 (readGroup (corrected input) (5 * i)).1 >>> (s - 8)) &&& 0x3FF#32
        = ((group input (5 * i)).extractLsb' s 10).setWidth 32 := by
    intro s hs hle
    apply BitVec.eq_of_getLsbD_eq
    intro j hj
    rw [BitVec.getLsbD_and, BitVec.getLsbD_ushiftRight, getLsbD_mask10, BitVec.getLsbD_setWidth,
      BitVec.getLsbD_extractLsb']
    by_cases h : j < 10
    · rw [hbs _ (by omega), show 8 + (s - 8 + j) = s + j by omega]
      simp [h, hj]
    · simp [h]
  have hv : ((bswap32 (readGroup (corrected input) (5 * i)).1 &&& 3#32) <<< 8)
      ||| (readGroup (corrected input) (5 * i)).2
        = ((group input (5 * i)).extractLsb' 0 10).setWidth 32 := by
    apply BitVec.eq_of_getLsbD_eq
    intro j hj
    rw [BitVec.getLsbD_or, BitVec.getLsbD_shiftLeft, BitVec.getLsbD_and, hhi,
      BitVec.getLsbD_setWidth, BitVec.getLsbD_extractLsb', hbs _ (by omega),
      show (3#32).getLsbD (j - 8) = decide (j - 8 < 2) from getLsbD_lowMask 2 _ (by omega)]
    by_cases h8 : j < 8
    · simp [h8, hj, show j < 10 by omega]
    · rw [show 8 + (j - 8) = j by omega]
      by_cases h10 : j < 10
      · simp [h8, hj, h10, show j - 8 < 2 by omega]
      · simp [h8, h10, show ¬ j - 8 < 2 by omega]
  simp only [decodePair, RawPair.toPair, refPair, hv, ← hfield 30 (by omega) (by omega),
    ← hfield 20 (by omega) (by omega), ← hfield 10 (by omega) (by omega)]

/-! ### The global reader -/

theorem toNat_blockBase (p : Word) : (p &&& ~~~1#32).toNat = p.toNat / 2 * 2 := by
  have hshift : p &&& ~~~1#32 = (p >>> 1) <<< 1 := by
    apply BitVec.eq_of_getLsbD_eq
    intro i hi
    rw [BitVec.getLsbD_and, BitVec.getLsbD_not, BitVec.getLsbD_shiftLeft,
      BitVec.getLsbD_ushiftRight, BitVec.getLsbD_one]
    by_cases h : i = 0
    · simp [h]
    · simp [h, hi, show 1 + (i - 1) = i by omega]
  have hp := p.isLt
  rw [hshift, BitVec.toNat_shiftLeft, BitVec.toNat_ushiftRight, Nat.shiftRight_eq_div_pow,
    Nat.shiftLeft_eq]
  omega

theorem pick_eq (input : Words) (p : Word) :
    pick p (input (p &&& ~~~1#32).toNat) (input ((p &&& ~~~1#32) + 1#32).toNat)
      = corrected input p.toNat := by
  have hp := p.isLt
  have hlow : p &&& 1#32 = 0#32 ↔ p.toNat % 2 = 0 := by
    rw [← BitVec.toNat_inj, BitVec.toNat_and, show (1#32).toNat = 2 ^ 1 - 1 from rfl,
      Nat.and_two_pow_sub_one_eq_mod]
    rfl
  rw [pick, corrected, BitVec.toNat_add, toNat_blockBase, show (1#32).toNat = 1 from rfl]
  by_cases h : p.toNat % 2 = 0
  · rw [if_pos (hlow.mpr h), if_pos h]; congr 2; omega
  · rw [if_neg (fun h' => h (hlow.mp h')), if_neg h]; congr 2; omega

/-- Reusing the raw words of an equal block base changes nothing. -/
theorem pick_shared (input : Words) (p q q' : Word) :
    (if q = q' then pick p (input q'.toNat) (input (q' + 1#32).toNat)
      else pick p (input q.toNat) (input (q + 1#32).toNat))
      = pick p (input q.toNat) (input (q + 1#32).toNat) := by
  split
  · rename_i h; rw [h]
  · rfl

theorem pick_shared_twice (input : Words) (p q q' q'' : Word) :
    (if q = q' then
        if q' ≠ q'' then pick p (input q'.toNat) (input (q' + 1#32).toNat)
        else pick p (input q''.toNat) (input (q'' + 1#32).toNat)
      else pick p (input q.toNat) (input (q + 1#32).toNat))
      = pick p (input q.toNat) (input (q + 1#32).toNat) := by
  split
  · rename_i h
    rw [h]
    split
    · rfl
    · rename_i h'; rw [not_not.mp h']
  · rfl

theorem readPairGlobal_eq (input : Words) {i : Nat} (hi : 5 * i < 2 ^ 32) :
    readPairGlobal input (BitVec.ofNat 32 i) = readGroup (corrected input) (5 * i) := by
  have hb : (BitVec.ofNat 32 i * 5#32).toNat = 5 * i := by
    rw [BitVec.toNat_mul, BitVec.toNat_ofNat, show (5#32).toNat = 5 from rfl]; omega
  simp only [readPairGlobal]
  generalize BitVec.ofNat 32 i * 5#32 = b at hb ⊢
  have hw : (b >>> 2).toNat = 5 * i / 4 := by rw [toNat_shift_two, hb]
  have hw1 : (b >>> 2 + 1#32).toNat = 5 * i / 4 + 1 := by
    rw [BitVec.toNat_add, hw, show (1#32).toNat = 1 from rfl]; omega
  have hw2 : (b >>> 2 + 2#32).toNat = 5 * i / 4 + 2 := by
    rw [BitVec.toNat_add, hw, show (2#32).toNat = 2 from rfl]; omega
  have hsh : ((b &&& 3#32) <<< 3).toNat = 8 * (5 * i % 4) := by rw [toNat_shift, hb]
  have c0 := pick_eq input (b >>> 2)
  have c1 := pick_eq input (b >>> 2 + 1#32)
  have c2 := pick_eq input (b >>> 2 + 2#32)
  rw [hw] at c0
  rw [hw1] at c1
  rw [hw2] at c2
  simp only [pick_shared, pick_shared_twice]
  simp only [c0, c1, c2]
  rw [readGroup, ← hsh]
  split
  · rename_i h0
    rw [gather_eq _ _ _ _ (by omega), h0]
    simp [funnelHi]
  · rw [gather_eq _ _ _ _ (by omega)]

/-! ### The tile loader -/

/-- What the loader leaves in cell `j`. -/
def cell (input : Words) (base : Word) (n j : Nat) : Word :=
  if j % 2 = 0 then
    if j + 1 < n then bswap32 (input (base + BitVec.ofNat 32 j + 1#32).toNat) else 0#32
  else bswap32 (input (base + BitVec.ofNat 32 (j - 1)).toNat)

/-- The cells one loop pass stores. -/
def storedCells (n i : Nat) : List Nat :=
  if i + 1 < n then [i, i + 1] else if i < n then [i] else []

theorem loadWords_eq (input : Words) (base : Word) (n : Nat) (t : Tile) {i : Nat} (hi : i % 2 = 0) :
    loadWords input base n t i
      = (storedCells n i).foldl (fun t j => t.set j (cell input base n j)) t := by
  unfold loadWords storedCells
  by_cases h1 : i + 1 < n
  · have hodd : ¬ (i + 1) % 2 = 0 := by omega
    simp [h1, cell, hi, hodd]
  · by_cases h0 : i < n
    · simp [h1, h0, cell, hi]
    · simp [h1, h0]

/-- The threads of a workgroup, however many, visit every pair of cells once. -/
theorem mem_threads {T n j : Nat} (hT : 0 < T) :
    j ∈ (List.range T).flatMap (fun lid => (steps (lid * 2) n (T * 2)).flatMap (storedCells n)) ↔
      j < n := by
  simp only [List.mem_flatMap, List.mem_range, mem_steps (show 0 < T * 2 by omega), storedCells]
  constructor
  · rintro ⟨lid, _, i, _, hj⟩
    split_ifs at hj <;> simp at hj <;> omega
  · intro hlt
    -- the even index of the pair, and the thread that visits it
    have hmod := Nat.div_add_mod (j / 2) T
    have hdist : j / 2 * 2 - j / 2 % T * 2 = T * 2 * (j / 2 / T) := by
      rw [Nat.mul_right_comm]
      omega
    refine ⟨j / 2 % T, Nat.mod_lt _ hT, j / 2 * 2, ⟨by omega, by omega, ?_⟩, ?_⟩
    · rw [hdist, Nat.mul_mod_right]
    · split_ifs <;> simp <;> omega

theorem threads_apply {T : Nat} (hT : 0 < T) (input : Words) (base n : Word) (j : Nat) :
    (List.range T).foldl (fun t lid =>
        (steps (lid * 2) n.toNat (T * 2)).foldl (loadWords input base n.toNat) t) Tile.empty j
      = if j < n.toNat ∧ j < tileWords then some (cell input base n.toNat j) else none := by
  have hloop : ∀ (lid : Nat) (t : Tile),
      (steps (lid * 2) n.toNat (T * 2)).foldl (loadWords input base n.toNat) t
        = ((steps (lid * 2) n.toNat (T * 2)).flatMap (storedCells n.toNat)).foldl
            (fun t i => t.set i (cell input base n.toNat i)) t := by
    intro lid t
    rw [List.foldl_flatMap]
    apply List.foldl_ext
    intro t i hi
    obtain ⟨hle, _, hmod⟩ := (mem_steps (by omega)).mp hi
    have hdvd : 2 ∣ i - lid * 2 :=
      Nat.dvd_trans (Nat.dvd_mul_left 2 T) (Nat.dvd_of_mod_eq_zero hmod)
    exact loadWords_eq _ _ _ _ (by omega)
  simp only [hloop]
  rw [← List.foldl_flatMap, foldl_set (cell input base n.toNat)]
  simp only [mem_threads hT, Tile.empty]

theorem loadTile_apply (input : Words) (base n : Word) (j : Nat) :
    loadTile input base n j
      = if j < n.toNat ∧ j < tileWords then some (cell input base n.toNat j) else none :=
  threads_apply (by decide) input base n j

/-- Away from the trailing word a cell is the byte-reversed neighbour of its own word. -/
theorem cell_eq (input : Words) {base : Word} {n j : Nat} (hfit : base.toNat + n < 2 ^ 32)
    (hj : j + 1 < n) :
    cell input base n j = bswap32 (input
      (if j % 2 = 0 then base.toNat + j + 1 else base.toNat + (j - 1))) := by
  have hadd : ∀ i < n, (base + BitVec.ofNat 32 i).toNat = base.toNat + i := by
    intro i hi
    rw [BitVec.toNat_add, BitVec.toNat_ofNat, Nat.mod_eq_of_lt (show i < 2 ^ 32 by omega),
      Nat.mod_eq_of_lt (by omega)]
  rw [cell]
  by_cases h : j % 2 = 0
  · rw [if_pos h, if_pos h, if_pos hj, BitVec.toNat_add, hadd j (by omega),
      show (1#32).toNat = 1 from rfl, Nat.mod_eq_of_lt (by omega)]
  · rw [if_neg h, if_neg h, hadd (j - 1) (by omega)]

/-- Every row starts in the first word of a 64-bit block. -/
def RowsAligned (ppr h : Nat) : Prop := ∀ r < h, 5 * (r * ppr) % 8 < 4

section frame
variable {W H : Word} {r g l : Nat}

/-- The index space of a tile: its words, trailing word included, are addressable. -/
theorem tile_fits (hr : r < H.toNat) (hg : g * 128 < W.toNat / 2)
    (hb : 5 * (W.toNat / 2) * H.toNat < 2 ^ 32) :
    (baseWordIdx (dispatchParams W H) (BitVec.ofNat 32 r) (BitVec.ofNat 32 g)).toNat
      + (nWords (dispatchParams W H) (BitVec.ofNat 32 r) (BitVec.ofNat 32 g)).toNat < 2 ^ 32 := by
  have hbyte := byte_bound hr hg
  rw [toNat_baseWordIdx hr hg hb, toNat_nWords hr hg hb]
  omega

/-- A row that starts on a block sees the stream in every tile. -/
theorem loadTile_corrected (input : Words) (hr : r < H.toNat) (hg : g * 128 < W.toNat / 2)
    (hb : 5 * (W.toNat / 2) * H.toNat < 2 ^ 32) (hal : 5 * (r * (W.toNat / 2)) % 8 < 4) :
    ∀ i < (nWords (dispatchParams W H) (BitVec.ofNat 32 r) (BitVec.ofNat 32 g)).toNat - 1,
      loadTile input (baseWordIdx (dispatchParams W H) (BitVec.ofNat 32 r) (BitVec.ofNat 32 g))
          (nWords (dispatchParams W H) (BitVec.ofNat 32 r) (BitVec.ofNat 32 g)) i
        = some (corrected input (5 * (r * (W.toNat / 2) + g * 128) / 4 + i)) := by
  intro i hi
  have hfit := tile_fits hr hg hb
  have hbase := toNat_baseWordIdx hr hg hb
  have hn := toNat_nWords hr hg hb
  have htile : i < tileWords := by rw [hn] at hi; rw [tileWords]; omega
  have heven : 5 * (r * (W.toNat / 2) + g * 128) / 4 % 2 = 0 := by
    rw [show 5 * (r * (W.toNat / 2) + g * 128) = 5 * (r * (W.toNat / 2)) + 8 * (80 * g) by omega]
    generalize 5 * (r * (W.toNat / 2)) = k at hal ⊢
    clear * - hal
    omega
  rw [loadTile_apply, if_pos ⟨by omega, htile⟩, cell_eq _ hfit (by omega), hbase, corrected]
  by_cases h : i % 2 = 0
  · rw [if_pos h, if_pos (by omega)]
  · rw [if_neg h, if_neg (by omega)]
    congr 3
    omega

theorem decodes (input : Words) (hb : 5 * (W.toNat / 2) * H.toNat < 2 ^ 32)
    (hal : RowsAligned (W.toNat / 2) H.toNat) : kernel.Decodes W H input (refPair input) := by
  constructor
  · intro r g l hr hc hl
    have hg : g * 128 < W.toNat / 2 := by omega
    have hn := toNat_nWords hr hg hb
    have hoff := toNat_tileByteOffset hr hg hb
    have hlid : (BitVec.ofNat 32 l).toNat = l := by
      rw [BitVec.toNat_ofNat, Nat.mod_eq_of_lt (by omega)]
    rw [kernel_loadTile]
    -- the two guard words keep even the third word of the last pair off the trailing word
    refine ⟨_, extractPair_eq (loadTile_corrected input hr hg hb (hal r hr)) (by omega) (by omega)
      (by omega), ?_⟩
    rw [hoff, hlid, show 4 * (5 * (r * (W.toNat / 2) + g * 128) / 4)
      + 5 * (r * (W.toNat / 2) + g * 128) % 4 + 5 * l = 5 * (r * (W.toNat / 2) + (g * 128 + l)) by
      omega]
    exact decodePair_corrected input _
  · intro i hi
    have hlt : 5 * i < 2 ^ 32 := by
      rw [Nat.mul_assoc, Nat.mul_comm (W.toNat / 2)] at hb; omega
    show decodePair (readPairGlobal _ _).1 (readPairGlobal _ _).2 = _
    rw [readPairGlobal_eq _ hlt]
    exact decodePair_corrected input _

/-! ### A misaligned row -/

/-- A buffer that is zero but for one word. -/
def spike (k : Nat) : Words := fun j => if j = k then 0xFFFFFFFF#32 else 0#32

/-- The first tile of a misaligned row misses the word its first byte comes from. -/
theorem loadTile_spike (hr : r < H.toNat) (hW : 0 < W.toNat / 2)
    (hb : 5 * (W.toNat / 2) * H.toNat < 2 ^ 32) (hmis : 4 ≤ 5 * (r * (W.toNat / 2)) % 8) :
    ∀ i < (nWords (dispatchParams W H) (BitVec.ofNat 32 r) (BitVec.ofNat 32 0)).toNat - 1,
      loadTile (spike (5 * (r * (W.toNat / 2)) / 4 - 1))
          (baseWordIdx (dispatchParams W H) (BitVec.ofNat 32 r) (BitVec.ofNat 32 0))
          (nWords (dispatchParams W H) (BitVec.ofNat 32 r) (BitVec.ofNat 32 0)) i
        = some 0#32 := by
  intro i hi
  have hg : 0 * 128 < W.toNat / 2 := by omega
  have hfit := tile_fits hr hg hb
  have hbase := toNat_baseWordIdx hr hg hb
  have hn := toNat_nWords hr hg hb
  have htile : i < tileWords := by rw [hn] at hi; rw [tileWords]; omega
  rw [loadTile_apply, if_pos ⟨by omega, htile⟩, cell_eq _ hfit (by omega), hbase, spike, if_neg]
  · rfl
  · split <;> omega

/-- … so its first pair decodes to zero. -/
theorem extractPair_spike (hr : r < H.toNat) (hW : 0 < W.toNat / 2)
    (hb : 5 * (W.toNat / 2) * H.toNat < 2 ^ 32) (hmis : 4 ≤ 5 * (r * (W.toNat / 2)) % 8) :
    extractPair (loadTile (spike (5 * (r * (W.toNat / 2)) / 4 - 1))
        (baseWordIdx (dispatchParams W H) (BitVec.ofNat 32 r) (BitVec.ofNat 32 0))
        (nWords (dispatchParams W H) (BitVec.ofNat 32 r) (BitVec.ofNat 32 0)))
      (BitVec.ofNat 32 0)
      (tileByteOffset (dispatchParams W H) (BitVec.ofNat 32 r) (BitVec.ofNat 32 0))
      = some (0#32, 0#32) := by
  have hg : 0 * 128 < W.toNat / 2 := by omega
  have hn := toNat_nWords hr hg hb
  have hoff := toNat_tileByteOffset hr hg hb
  have hzero : ∀ b, readGroup (fun _ => 0#32) b = (0#32, 0#32) := by
    intro b
    simp [readGroup, funnelLo, funnelHi]
  rw [@extractPair_eq _ (fun _ => 0#32) 0 _ _ _ (loadTile_spike hr hW hb hmis) (by omega)
    (by simp) (by rw [hoff]; simp only [BitVec.toNat_ofNat, Nat.zero_mod]; omega), hzero]

/-- The reference sees the spike in the top bit of Y0. -/
theorem refPair_spike {ppr : Nat} (hmis : 4 ≤ 5 * (r * ppr) % 8) :
    (refPair (spike (5 * (r * ppr) / 4 - 1)) (r * ppr)).y0.getLsbD 9 = true := by
  have hword : (8 * (8 * (5 * (r * ppr) / 8) + (7 - 5 * (r * ppr) % 8)) + 7) / 32
      = 5 * (r * ppr) / 4 - 1 := by
    generalize 5 * (r * ppr) = k at *
    omega
  rw [refPair, BitVec.getLsbD_extractLsb', getLsbD_group _ _ _ (by omega), streamByte,
    getLsbD_byteAt _ _ _ (by omega), show 4 - (30 + 9) / 8 = 0 from rfl]
  simp only [Nat.add_zero, bitAt, spike]
  rw [if_pos hword]
  rw [show (0xFFFFFFFF#32) = BitVec.ofNat 32 (2 ^ 32 - 1) from rfl, getLsbD_lowMask 32 _ (by omega)]
  simp [Nat.mod_lt]

theorem refY_spike {ppr : Nat} (hmis : 4 ≤ 5 * (r * ppr) % 8) :
    refY (refPair (spike (5 * (r * ppr) / 4 - 1)) (r * ppr)) ≠ 0#32 := by
  intro hzero
  have hbit : (refY (refPair (spike (5 * (r * ppr) / 4 - 1)) (r * ppr))).getLsbD 15 = true := by
    rw [refY, BitVec.getLsbD_or, BitVec.getLsbD_shiftLeft, BitVec.getLsbD_setWidth,
      refPair_spike hmis]
    rfl
  rw [hzero] at hbit
  exact absurd hbit (by decide)

end frame

/-! ### When the shader is exact -/

/-- The dispatch writes the reference frame, for every buffer and every order of invocations. -/
def Converts (W H : Word) : Prop :=
  ∀ (input : Words) (order : List (Nat × Nat × Nat)), order.Perm (grid W H) →
    ∃ ws, kernel.run W H input order = some ws ∧
      ws.Perm (p010Frame (W.toNat / 2) H.toNat (refPair input))

/-- The tile path and the global path decode every pair alike. -/
def PathsAgree (W H : Word) : Prop :=
  ∀ (input : Words) (r g l : Nat), r < H.toNat → g * 128 + l < W.toNat / 2 → l < 128 →
    ∃ q : Word × Word,
      extractPair (loadTile input
          (baseWordIdx (dispatchParams W H) (BitVec.ofNat 32 r) (BitVec.ofNat 32 g))
          (nWords (dispatchParams W H) (BitVec.ofNat 32 r) (BitVec.ofNat 32 g)))
        (BitVec.ofNat 32 l)
        (tileByteOffset (dispatchParams W H) (BitVec.ofNat 32 r) (BitVec.ofNat 32 g)) = some q ∧
      decodePair q.1 q.2
        = decodePair (readPairGlobal input (BitVec.ofNat 32 (r * (W.toNat / 2) + (g * 128 + l)))).1
            (readPairGlobal input (BitVec.ofNat 32 (r * (W.toNat / 2) + (g * 128 + l)))).2

section exact
variable {W H : Word}

/-- A misaligned row exists only where there are pairs. -/
theorem pairs_pos {ppr r : Nat} (hmis : 4 ≤ 5 * (r * ppr) % 8) : 0 < ppr := by
  rcases Nat.eq_zero_or_pos ppr with h0 | h0
  · rw [h0] at hmis; omega
  · exact h0

/-- The first thread of a misaligned row stores Y word zero, whatever the spike says. -/
theorem spike_not_converted {r : Nat} (hr : r < H.toNat)
    (hb : 5 * (W.toNat / 2) * H.toNat < 2 ^ 32) (hmis : 4 ≤ 5 * (r * (W.toNat / 2)) % 8) :
    ¬ ∃ ws, kernel.run W H (spike (5 * (r * (W.toNat / 2)) / 4 - 1)) (grid W H) = some ws ∧
      ws.Perm (p010Frame (W.toNat / 2) H.toNat
        (refPair (spike (5 * (r * (W.toNat / 2)) / 4 - 1)))) := by
  rintro ⟨ws, hrun, hperm⟩
  have hW := pairs_pos hmis
  have hgrid : (r, 0, 0) ∈ grid W H := by
    refine mem_grid.mpr ⟨hr, ?_, by decide⟩
    rw [toNat_groupsX]; omega
  have hspike := extractPair_spike hr hW hb hmis
  rw [← kernel_loadTile] at hspike
  have hstore := mem_run_y hrun hgrid hr hW hb hspike
  have hmem := hperm.mem_iff.mp hstore
  rw [mem_p010Frame_y] at hmem
  exact refY_spike hmis (hmem.2.trans (by decide))

theorem rowsAligned_of_converts (hb : 5 * (W.toNat / 2) * H.toNat < 2 ^ 32)
    (hc : Converts W H) : RowsAligned (W.toNat / 2) H.toNat := by
  intro r hr
  by_contra hmis
  exact spike_not_converted hr hb (not_lt.mp hmis) (hc _ _ (List.Perm.refl _))

theorem rowsAligned_of_pathsAgree (hb : 5 * (W.toNat / 2) * H.toNat < 2 ^ 32)
    (hp : PathsAgree W H) : RowsAligned (W.toNat / 2) H.toNat := by
  intro r hr
  by_contra hmis
  rw [not_lt] at hmis
  have hW := pairs_pos hmis
  obtain ⟨q, hq, hdec⟩ := hp (spike (5 * (r * (W.toNat / 2)) / 4 - 1)) r 0 0 hr (by omega)
    (by decide)
  rw [extractPair_spike hr hW hb hmis, Option.some_inj] at hq
  have hlt : 5 * (r * (W.toNat / 2)) < 2 ^ 32 := by
    have := pair_lt hr hW
    rw [Nat.mul_assoc, Nat.mul_comm (W.toNat / 2)] at hb
    omega
  rw [← hq, show 0 * 128 + 0 = 0 from rfl, Nat.add_zero, readPairGlobal_eq _ hlt,
    decodePair_corrected] at hdec
  have hy : yWord (decodePair 0#32 0#32) = 0#32 := by decide
  rw [hdec, yWord_toPair] at hy
  exact refY_spike hmis hy

/-- The shader is exact, and its two readers agree, on exactly the frames all of whose rows start
    in the first word of a 64-bit block. -/
theorem converts_iff_rowsAligned (W H : Word) (hW : W.toNat % 2 = 0) (hH : H.toNat % 2 = 0)
    (hsize : W.toNat * H.toNat * 5 / 2 < 2 ^ 32) :
    (Converts W H ↔ RowsAligned (W.toNat / 2) H.toNat) ∧
      (PathsAgree W H ↔ RowsAligned (W.toNat / 2) H.toNat) := by
  have hb := frame_bytes_lt hW hsize
  refine ⟨⟨rowsAligned_of_converts hb, ?_⟩, ⟨rowsAligned_of_pathsAgree hb, ?_⟩⟩
  · intro hal input order ho
    exact run_perm (decodes input hb hal) hH hb ho
  · intro hal input r g l hr hc hl
    have hdec := decodes input hb hal
    obtain ⟨q, hq, heq⟩ := hdec.tile r g l hr hc hl
    exact ⟨q, hq, heq.trans (hdec.global _ (pair_lt hr hc)).symm⟩

/-- 1920×1080 is exact. -/
theorem converts_1080p : Converts 1920#32 1080#32 ∧ PathsAgree 1920#32 1080#32 := by
  have hal : RowsAligned ((1920#32).toNat / 2) (1080#32).toNat := by
    intro r _
    rw [show (1920#32).toNat / 2 = 8 * 120 from rfl]
    omega
  have hiff := converts_iff_rowsAligned 1920#32 1080#32 (by decide) (by decide) (by decide)
  exact ⟨hiff.1.mpr hal, hiff.2.mpr hal⟩

/-- 2×2 is not: the second row starts at byte 5, in the second word of its block. -/
theorem not_converts_two :
    ¬ ∃ ws, kernel.run 2#32 2#32 (spike 0) (grid 2#32 2#32) = some ws ∧
      ws.Perm (p010Frame 1 2 (refPair (spike 0))) :=
  spike_not_converted (W := 2#32) (H := 2#32) (r := 1) (by decide) (by decide) (by decide)

/-- The frame sizes in closed form. -/
theorem rowsAligned_iff {ppr h : Nat} (hh : h % 2 = 0) :
    RowsAligned ppr h ↔
      h = 0 ∨ ppr % 8 = 0 ∨ (h ≤ 4 ∧ ppr % 8 = 5) ∨ (h = 2 ∧ (ppr % 8 = 2 ∨ ppr % 8 = 7)) := by
  constructor
  · intro hal
    by_contra hne
    obtain ⟨k, c, hc, rfl⟩ : ∃ k c, c < 8 ∧ ppr = 8 * k + c :=
      ⟨ppr / 8, ppr % 8, by omega, by omega⟩
    have h1 := hal 1 (by omega)
    have hcase : c = 2 ∨ c = 5 ∨ c = 7 := by interval_cases c <;> omega
    -- rows 2 and 4 rule out the residues that survive row 1
    rcases hcase with rfl | rfl | rfl
    · have h2 := hal 2 (by omega)
      omega
    · have h4 := hal 4 (by omega)
      omega
    · have h2 := hal 2 (by omega)
      omega
  · rintro (h0 | h0 | ⟨h4, h5⟩ | ⟨h2, h2'⟩) r hr
    · omega
    · obtain ⟨k, rfl⟩ := Nat.dvd_of_mod_eq_zero h0
      rw [show 5 * (r * (8 * k)) = 8 * (5 * (r * k)) by ring]
      omega
    · have : r = 0 ∨ r = 1 ∨ r = 2 ∨ r = 3 := by omega
      rcases this with rfl | rfl | rfl | rfl <;> omega
    · have : r = 0 ∨ r = 1 := by omega
      rcases this with rfl | rfl <;> omega

end exact
end Streambox.Shader.Amly
