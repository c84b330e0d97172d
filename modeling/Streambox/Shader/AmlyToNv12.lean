import Streambox.Shader.AmlyToP010

/-! `amly_to_nv12.comp`: big-endian AMLY to NV12.

    The tile and the two readers are those of the P010 shader, with 64 threads instead of 128: a
    thread decodes two neighbouring pairs and stores their four luma bytes, and on even rows their
    four chroma bytes, as one 32-bit word. The word's index is a byte offset shifted right by two,
    so a store hits its four bytes only if the offset is a multiple of four.

        row 0   | p0 p1 | p2 p3 | p4 .. |          width 10: the last thread of a row has one pair,
        row 1       .. | p0 p1 | p2 p3 | p4        its store clears the first pixels of the next
        words   |   0   |   1   |   2   |          row, and that row's stores are two bytes early -/

namespace Streambox.Shader.Nv12
open Streambox.Lib
open Streambox.Shader.Amly (loadWords decodePair pick refPair corrected RowsAligned)

/-- `load_tile`: 64 threads, two words each, stride 128. -/
def loadTile (input : Words) (base n : Word) : Tile :=
  (List.range 64).foldl (fun t lid =>
    (steps (lid * 2) n.toNat (64 * 2)).foldl (loadWords input base n.toNat) t) Tile.empty

/-- `read_pair_global`. -/
def readPairGlobal (input : Words) (pairIdx : Word) : Word × Word :=
  let byteOffset := pairIdx * 5#32
  let wordIdx := byteOffset >>> 2
  let shift := (byteOffset &&& 3#32) <<< 3
  let p0 := wordIdx
  let b0 := p0 &&& ~~~1#32
  let r0a := input b0.toNat
  let r0b := input (b0 + 1#32).toNat
  let cw0 := pick p0 r0a r0b
  let p1 := wordIdx + 1#32
  let b1 := p1 &&& ~~~1#32
  let r1a := input b1.toNat
  let r1b := input (b1 + 1#32).toNat
  let cw1 := if b1 = b0 then pick p1 r0a r0b else pick p1 r1a r1b
  if shift = 0#32 then
    gather cw0 cw1 0#32 shift
  else
    let p2 := wordIdx + 2#32
    let b2 := p2 &&& ~~~1#32
    let cw2 :=
      if b2 = b1 then
        -- the second of these looks at the parity of p1, where the P010 shader looks at p2
        if b1 = b0 then pick p2 r0a r0b else pick p1 r1a r1b
      else pick p2 (input b2.toNat) (input (b2 + 1#32).toNat)
    gather cw0 cw1 cw2 shift

def kernel : Kernel := ⟨loadTile, decodePair, readPairGlobal⟩

/-- Two bytes, or four if the thread has a second pair. -/
def packWord (v0 v1 : Word) : Option (Word × Word) → Word
  | some b => (v0 &&& 0xFF#32) ||| ((v1 &&& 0xFF#32) <<< 8) |||
      ((b.1 &&& 0xFF#32) <<< 16) ||| ((b.2 &&& 0xFF#32) <<< 24)
  | none => (v0 &&& 0xFF#32) ||| ((v1 &&& 0xFF#32) <<< 8)

/-- The 8-bit luma of a pair. -/
def luma8 (d : Pair) : Word × Word := (d.y0 >>> 2, d.y1 >>> 2)

/-- `y_word`. -/
def yWord (a : Pair) (b : Option Pair) : Word := packWord (luma8 a).1 (luma8 a).2 (b.map luma8)

/-- The 8-bit chroma of a pair and the pair below it. -/
def chroma8 (d e : Pair) : Word × Word := (avg d.u0 e.u0 >>> 2, avg d.v0 e.v0 >>> 2)

/-- `main` from the Y plane on. -/
def stores (p : Params) (input : Words) (row globalPairA : Word) (a : Pair) (b : Option Pair) :
    List Write :=
  let yByteOff := row * p.width + globalPairA * 2#32
  let yw := Write.y (yByteOff >>> 2).toNat (yWord a b)
  if row &&& 1#32 ≠ 0#32 ∨ row + 1#32 ≥ p.height then [yw]
  else
    let absPairA := row * p.pairsPerRow + globalPairA
    let na := readPairGlobal input (absPairA + p.pairsPerRow)
    let ca := chroma8 a (decodePair na.1 na.2)
    let cb := b.map fun b =>
      let nb := readPairGlobal input (absPairA + 1#32 + p.pairsPerRow)
      chroma8 b (decodePair nb.1 nb.2)
    let uvByteOff := (row >>> 1) * p.width + globalPairA * 2#32
    [yw, Write.uv (uvByteOff >>> 2).toNat (packWord ca.1 ca.2 cb)]

/-- One invocation of `main`; `none` if it reads a shared-memory cell that was not loaded. -/
def main (p : Params) (input : Words) (row gx lid : Word) : Option (List Write) :=
  let tile := loadTile input (baseWordIdx p row gx) (nWords p row gx)
  if row ≥ p.height then some [] else
  let localPairA := lid * 2#32
  let localPairB := lid * 2#32 + 1#32
  if localPairA ≥ tilePairs p gx then some [] else do
  let qa ← extractPair tile localPairA (tileByteOffset p row gx)
  let b ← if localPairB < tilePairs p gx then
      (extractPair tile localPairB (tileByteOffset p row gx)).map fun q => some (decodePair q.1 q.2)
    else some none
  return stores p input row (tileStart gx + localPairA) (decodePair qa.1 qa.2) b

/-- Every invocation of the dispatch, row by row, as `(row, group, thread)`. -/
def grid (width height : Word) : List (Nat × Nat × Nat) :=
  (List.range height.toNat).flatMap fun r =>
    (List.range (groupsX width).toNat).flatMap fun g => (List.range 64).map fun l => (r, g, l)

/-- An invocation of the dispatch. -/
def invocation (width height : Word) (input : Words) (v : Nat × Nat × Nat) : Option (List Write) :=
  main (dispatchParams width height) input (BitVec.ofNat 32 v.1) (BitVec.ofNat 32 v.2.1)
    (BitVec.ofNat 32 v.2.2)

/-- Run a list of invocations and collect their stores in order. -/
def run (width height : Word) (input : Words) (order : List (Nat × Nat × Nat)) :
    Option (List Write) :=
  (order.mapM (invocation width height input)).map List.flatten

/-! ### The output planes -/

inductive Plane where
  | y
  | uv
  deriving DecidableEq

/-- Where a word is stored, and what. -/
def stored : Write → (Plane × Nat) × Word
  | .y idx val => ((.y, idx), val)
  | .uv idx val => ((.uv, idx), val)

/-- Byte `k` of a plane after stores to `memory`. -/
def byteAfter (memory : Plane × Nat → Word) (ws : List Write) (plane : Plane) (k : Nat) : Byte :=
  byteAt (fun i => storeAll memory (ws.map stored) (plane, i)) k

/-! ### The reference conversion -/

/-- The luma of pixel `x` of row `r`. -/
def luma (input : Words) (ppr x r : Nat) : BitVec 10 :=
  if x % 2 = 0 then (refPair input (r * ppr + x / 2)).y0 else (refPair input (r * ppr + x / 2)).y1

/-- The rounded averages of rows `r` and `r + 1` at chroma site `c`. -/
def uAverage (input : Words) (ppr c r : Nat) : Nat :=
  refAvg (refPair input (r * ppr + c)).u0 (refPair input ((r + 1) * ppr + c)).u0

def vAverage (input : Words) (ppr c r : Nat) : Nat :=
  refAvg (refPair input (r * ppr + c)).v0 (refPair input ((r + 1) * ppr + c)).v0

/-- After the invocations have run in this order, both planes are those of the reference. -/
def PlanesRight (W H : Word) (input : Words) (memory : Plane × Nat → Word) (ws : List Write) :
    Prop :=
  (∀ x r, x < W.toNat → r < H.toNat →
    byteAfter memory ws .y (r * W.toNat + x) = (luma input (W.toNat / 2) x r >>> 2).setWidth 8) ∧
  ∀ c r, c < W.toNat / 2 → r % 2 = 0 → r + 1 < H.toNat →
    byteAfter memory ws .uv (r / 2 * W.toNat + 2 * c)
        = BitVec.ofNat 8 (uAverage input (W.toNat / 2) c r / 2 ^ 2) ∧
      byteAfter memory ws .uv (r / 2 * W.toNat + (2 * c + 1))
        = BitVec.ofNat 8 (vAverage input (W.toNat / 2) c r / 2 ^ 2)

/-- No byte is stored with different values: a store takes all four bytes of its word. -/
def NoConflict (W H : Word) (input : Words) : Prop :=
  ∀ v ∈ grid W H, ∀ w ∈ grid W H, v ≠ w → ∀ ws ws', invocation W H input v = some ws →
    invocation W H input w = some ws' → ∀ a ∈ ws, ∀ b ∈ ws', (stored a).1 = (stored b).1 →
      (stored a).2 = (stored b).2

/-- The conversion of one buffer is exact. -/
def ExactOn (W H : Word) (input : Words) : Prop :=
  (∀ (order : List (Nat × Nat × Nat)) (memory : Plane × Nat → Word), order.Perm (grid W H) →
    ∃ ws, run W H input order = some ws ∧ PlanesRight W H input memory ws) ∧
  NoConflict W H input

def Exact (W H : Word) : Prop := ∀ input, ExactOn W H input

/-! ### The readers -/

/-- Half the threads load the same tile. -/
theorem loadTile_eq (input : Words) (base n : Word) :
    loadTile input base n = Amly.loadTile input base n := by
  funext j
  rw [loadTile, Amly.threads_apply (by decide), Amly.loadTile_apply]

/-- The third word does not matter, so neither does whose parity selects it. -/
theorem gather_third {shift : Word} (w0 w1 w2 w2' : Word) (h : shift.toNat ≤ 24) :
    gather w0 w1 w2 shift = gather w0 w1 w2' shift := by
  rw [gather_eq _ _ _ _ h, gather_eq _ _ _ _ h, funnelHi_third w1 w2 w2' h]

theorem readPairGlobal_eq (input : Words) (pairIdx : Word) :
    readPairGlobal input pairIdx = Amly.readPairGlobal input pairIdx := by
  have hshift := toNat_shift (pairIdx * 5#32)
  rw [readPairGlobal, Amly.readPairGlobal]
  split
  next => rfl
  next => exact gather_third _ _ _ _ (by omega)

section frame
variable {W H : Word} {input : Words} {r g l : Nat}

theorem decodes (input : Words) (hb : 5 * (W.toNat / 2) * H.toNat < 2 ^ 32)
    (hal : RowsAligned (W.toNat / 2) H.toNat) : kernel.Decodes W H input (refPair input) := by
  have hamly := Amly.decodes input hb hal
  constructor
  · intro r g l hr hc hl
    simp only [kernel, loadTile_eq]
    exact hamly.tile r g l hr hc hl
  · intro i hi
    simp only [kernel, readPairGlobal_eq]
    exact hamly.global i hi

end frame

/-! ### Packing -/

/-- Four bytes, as the plane has them. -/
theorem packWord_eq {s : Nat → Byte} {j : Nat} {v0 v1 : Word} {b : Word × Word}
    (h0 : v0.setWidth 8 = s (4 * j)) (h1 : v1.setWidth 8 = s (4 * j + 1))
    (h2 : b.1.setWidth 8 = s (4 * j + 2)) (h3 : b.2.setWidth 8 = s (4 * j + 3)) :
    packWord v0 v1 (some b) = wordOf s j := by
  have hmask : ∀ v : Word, v &&& 0xFF#32 = (v.setWidth 8).setWidth 32 := by
    intro v
    apply BitVec.eq_of_getLsbD_eq
    intro i hi
    rw [BitVec.getLsbD_and, getLsbD_mask8, BitVec.getLsbD_setWidth, BitVec.getLsbD_setWidth]
    simp [hi, Bool.and_comm]
  rw [packWord, wordOf, hmask, hmask, hmask, hmask, h0, h1, h2, h3]

/-- A lone pair leaves zeros behind its two bytes. -/
theorem packWord_none (v0 v1 : Word) : (packWord v0 v1 none).extractLsb' 16 8 = 0#8 := by
  apply BitVec.eq_of_getLsbD_eq
  intro i hi
  rw [BitVec.getLsbD_extractLsb', packWord, BitVec.getLsbD_or, BitVec.getLsbD_shiftLeft,
    BitVec.getLsbD_and, BitVec.getLsbD_and, getLsbD_mask8, getLsbD_mask8]
  simp [show ¬ 16 + i < 8 by omega, show ¬ 16 + i - 8 < 8 by omega]

/-- Byte `k` of the reference's Y plane. -/
def lumaByte (input : Words) (k : Nat) : Byte :=
  ((if k % 2 = 0 then (refPair input (k / 2)).y0 else (refPair input (k / 2)).y1) >>> 2).setWidth 8

/-- Byte `k` of the reference's UV plane. -/
def chromaByte (input : Words) (ppr k : Nat) : Byte :=
  BitVec.ofNat 8 ((if k % 2 = 0 then uAverage input ppr (k / 2 % ppr) (2 * (k / 2 / ppr))
    else vAverage input ppr (k / 2 % ppr) (2 * (k / 2 / ppr))) / 2 ^ 2)

theorem setWidth_shift (f : BitVec 10) :
    (f.setWidth 32 >>> 2).setWidth 8 = (f >>> 2).setWidth 8 := by
  apply BitVec.eq_of_toNat_eq
  have hf := f.isLt
  simp only [BitVec.toNat_setWidth, BitVec.toNat_ushiftRight]
  rw [Nat.mod_eq_of_lt (show f.toNat < 2 ^ 32 by omega)]

theorem setWidth_avg (a b : BitVec 10) :
    (avg (a.setWidth 32) (b.setWidth 32) >>> 2).setWidth 8
      = BitVec.ofNat 8 (refAvg a b / 2 ^ 2) := by
  have ha := a.isLt
  have hb := b.isLt
  have hlt : refAvg a b < 2 ^ 32 := by
    rw [refAvg]
    omega
  apply BitVec.eq_of_toNat_eq
  rw [avg_toPair, BitVec.toNat_setWidth, BitVec.toNat_ushiftRight, BitVec.toNat_ofNat,
    BitVec.toNat_ofNat, Nat.mod_eq_of_lt hlt, Nat.shiftRight_eq_div_pow]

/-- The Y word of two neighbouring pairs. -/
theorem yWord_eq (input : Words) (j : Nat) :
    yWord (refPair input (2 * j)).toPair (some (refPair input (2 * j + 1)).toPair)
      = wordOf (lumaByte input) j := by
  refine packWord_eq ?_ ?_ ?_ ?_
  · rw [lumaByte, if_pos (by omega), show 4 * j / 2 = 2 * j by omega]
    exact setWidth_shift _
  · rw [lumaByte, if_neg (by omega), show (4 * j + 1) / 2 = 2 * j by omega]
    exact setWidth_shift _
  · rw [lumaByte, if_pos (by omega), show (4 * j + 2) / 2 = 2 * j + 1 by omega]
    exact setWidth_shift _
  · rw [lumaByte, if_neg (by omega), show (4 * j + 3) / 2 = 2 * j + 1 by omega]
    exact setWidth_shift _

/-- The UV word of two neighbouring chroma sites. -/
theorem uvWord_eq (input : Words) {ppr q c j : Nat} (hc : c + 1 < ppr) (hj : 2 * j = q * ppr + c) :
    packWord
        (chroma8 (refPair input (2 * q * ppr + c)).toPair
          (refPair input ((2 * q + 1) * ppr + c)).toPair).1
        (chroma8 (refPair input (2 * q * ppr + c)).toPair
          (refPair input ((2 * q + 1) * ppr + c)).toPair).2
        (some (chroma8 (refPair input (2 * q * ppr + (c + 1))).toPair
          (refPair input ((2 * q + 1) * ppr + (c + 1))).toPair))
      = wordOf (chromaByte input ppr) j := by
  have hsite : ∀ c' < ppr, (q * ppr + c') % ppr = c' ∧ (q * ppr + c') / ppr = q := by
    intro c' hc'
    rw [Nat.add_comm, Nat.add_mul_mod_self_right, Nat.mod_eq_of_lt hc',
      Nat.add_mul_div_right _ _ (by omega), Nat.div_eq_of_lt hc', Nat.zero_add]
    exact ⟨rfl, rfl⟩
  have hfirst := hsite c (by omega)
  have hsecond := hsite (c + 1) hc
  rw [← hj] at hfirst
  rw [← Nat.add_assoc, ← hj] at hsecond
  refine packWord_eq ?_ ?_ ?_ ?_
  · rw [chromaByte, if_pos (by omega), show 4 * j / 2 = 2 * j by omega, hfirst.1, hfirst.2]
    exact setWidth_avg _ _
  · rw [chromaByte, if_neg (by omega), show (4 * j + 1) / 2 = 2 * j by omega, hfirst.1, hfirst.2]
    exact setWidth_avg _ _
  · rw [chromaByte, if_pos (by omega), show (4 * j + 2) / 2 = 2 * j + 1 by omega, hsecond.1,
      hsecond.2]
    exact setWidth_avg _ _
  · rw [chromaByte, if_neg (by omega), show (4 * j + 3) / 2 = 2 * j + 1 by omega, hsecond.1,
      hsecond.2]
    exact setWidth_avg _ _

/-! ### One invocation -/

section invocation
variable {W H : Word} {input : Words} {r g l c : Nat}

theorem localPairA_eq (l : Nat) : BitVec.ofNat 32 l * 2#32 = BitVec.ofNat 32 (2 * l) := by
  rw [Nat.mul_comm, BitVec.ofNat_mul]

theorem localPairB_eq (l : Nat) : BitVec.ofNat 32 (2 * l) + 1#32 = BitVec.ofNat 32 (2 * l + 1) := by
  rw [BitVec.ofNat_add]

theorem globalPair_eq (g c : Nat) :
    tileStart (BitVec.ofNat 32 g) + BitVec.ofNat 32 c = BitVec.ofNat 32 (g * 128 + c) := by
  rw [tileStart, tilePairsMax, ← BitVec.ofNat_mul, ← BitVec.ofNat_add]

theorem hasA_iff (hg : g * 128 < W.toNat / 2) (hl : l < 64) :
    BitVec.ofNat 32 (2 * l) ≥ tilePairs (dispatchParams W H) (BitVec.ofNat 32 g) ↔
      ¬ 2 * l < min 128 (W.toNat / 2 - g * 128) := by
  rw [ge_iff_le, BitVec.le_def, toNat_tilePairs hg, BitVec.toNat_ofNat,
    Nat.mod_eq_of_lt (by omega), Nat.not_lt]

theorem hasB_iff (hg : g * 128 < W.toNat / 2) (hl : l < 64) :
    BitVec.ofNat 32 (2 * l + 1) < tilePairs (dispatchParams W H) (BitVec.ofNat 32 g) ↔
      2 * l + 1 < min 128 (W.toNat / 2 - g * 128) := by
  rw [BitVec.lt_def, toNat_tilePairs hg, BitVec.toNat_ofNat, Nat.mod_eq_of_lt (by omega)]

/-- `main` without the word arithmetic: the thread's pairs are `2 * l` and `2 * l + 1` of the tile.
    -/
theorem invocation_eq (hr : r < H.toNat) (hg : g * 128 < W.toNat / 2) (hl : l < 64) :
    invocation W H input (r, g, l) =
      if 2 * l < min 128 (W.toNat / 2 - g * 128) then do
        let tile := loadTile input
          (baseWordIdx (dispatchParams W H) (BitVec.ofNat 32 r) (BitVec.ofNat 32 g))
          (nWords (dispatchParams W H) (BitVec.ofNat 32 r) (BitVec.ofNat 32 g))
        let off := tileByteOffset (dispatchParams W H) (BitVec.ofNat 32 r) (BitVec.ofNat 32 g)
        let qa ← extractPair tile (BitVec.ofNat 32 (2 * l)) off
        let b ← if 2 * l + 1 < min 128 (W.toNat / 2 - g * 128) then
            (extractPair tile (BitVec.ofNat 32 (2 * l + 1)) off).map fun q =>
              some (decodePair q.1 q.2)
          else some none
        return stores (dispatchParams W H) input (BitVec.ofNat 32 r)
          (BitVec.ofNat 32 (g * 128 + 2 * l)) (decodePair qa.1 qa.2) b
      else some [] := by
  rw [invocation, main, if_neg (row_inside W hr)]
  simp only [localPairA_eq, localPairB_eq, globalPair_eq, hasA_iff hg hl, hasB_iff hg hl, ite_not]

/-- The Y word comes first, whatever the row, and only UV words follow. -/
theorem stores_head (p : Params) (row globalPairA : Word) (a : Pair) (b : Option Pair) :
    ∃ rest, stores p input row globalPairA a b
        = Write.y ((row * p.width + globalPairA * 2#32) >>> 2).toNat (yWord a b) :: rest ∧
      ∀ w ∈ rest, (stored w).1.1 = .uv := by
  unfold stores
  split
  next => exact ⟨[], rfl, by simp⟩
  next => exact ⟨[_], rfl, by simp [stored]⟩

/-- The index of a word: the byte offset over four. -/
theorem toNat_offset (hoff : r * W.toNat + 2 * c < 2 ^ 32) :
    ((BitVec.ofNat 32 r * (dispatchParams W H).width + BitVec.ofNat 32 c * 2#32) >>> 2).toNat
      = (r * W.toNat + 2 * c) / 4 := by
  have hwidth : (dispatchParams W H).width = BitVec.ofNat 32 W.toNat := by
    rw [dispatchParams, BitVec.ofNat_toNat, BitVec.setWidth_eq]
  rw [hwidth, ← BitVec.ofNat_mul, ← BitVec.ofNat_mul, ← BitVec.ofNat_add, toNat_shift_two,
    BitVec.toNat_ofNat, Nat.mul_comm c, Nat.mod_eq_of_lt hoff]

/-- The words of the reference that the thread of pairs `c` and `c + 1` of row `r` is to store. -/
def quadWrites (input : Words) (width r c : Nat) : List Write :=
  .y ((r * width + 2 * c) / 4) (wordOf (lumaByte input) ((r * width + 2 * c) / 4)) ::
    if r % 2 = 0 then
      [.uv ((r / 2 * width + 2 * c) / 4)
        (wordOf (chromaByte input (width / 2)) ((r / 2 * width + 2 * c) / 4))]
    else []

/-- Rows of whole words: the word of pairs `c` and `c + 1` begins at pair `c`. -/
theorem word_of_pair {width : Nat} (hwidth : width % 4 = 0) (hc : c % 2 = 0) :
    2 * ((r * width + 2 * c) / 4) = r * (width / 2) + c := by
  obtain ⟨w, rfl⟩ := Nat.dvd_of_mod_eq_zero hwidth
  rw [show r * (4 * w) = 4 * (r * w) by ring, show 4 * w / 2 = 2 * w by omega,
    show r * (2 * w) = 2 * (r * w) by ring]
  omega

theorem stores_eq (hd : kernel.Decodes W H input (refPair input)) (hwidth : W.toNat % 4 = 0)
    (hH : H.toNat % 2 = 0) (hb : 5 * (W.toNat / 2) * H.toNat < 2 ^ 32) (hr : r < H.toNat)
    (hc : c % 2 = 0) (hin : c + 1 < W.toNat / 2) :
    stores (dispatchParams W H) input (BitVec.ofNat 32 r) (BitVec.ofNat 32 c)
        (refPair input (r * (W.toNat / 2) + c)).toPair
        (some (refPair input (r * (W.toNat / 2) + (c + 1))).toPair)
      = quadWrites input W.toNat r c := by
  have hHlt := H.isLt
  have hsmall : H.toNat * (W.toNat / 2) * 5 < 2 ^ 32 := by
    rw [Nat.mul_comm, ← Nat.mul_assoc, Nat.mul_right_comm]
    exact hb
  have hpair := pair_lt hr hin
  have hrow : ∀ a, a * W.toNat = 2 * (a * (W.toNat / 2)) := by
    intro a
    rw [Nat.mul_left_comm]
    congr 1
    omega
  have hoff : r * W.toNat + 2 * c < 2 ^ 32 := by
    rw [hrow]
    omega
  have hy : yWord (refPair input (r * (W.toNat / 2) + c)).toPair
      (some (refPair input (r * (W.toNat / 2) + (c + 1))).toPair)
        = wordOf (lumaByte input) ((r * W.toNat + 2 * c) / 4) := by
    rw [← yWord_eq, word_of_pair hwidth hc, Nat.add_assoc]
  simp only [stores, quadWrites, toNat_offset hoff, hy]
  by_cases heven : r % 2 = 0
  · obtain ⟨q, rfl⟩ := Nat.dvd_of_mod_eq_zero heven
    have hnext : 2 * q + 1 < H.toNat := by omega
    have hbelow := pair_lt hnext hin
    have hcond : ¬ (BitVec.ofNat 32 (2 * q) &&& 1#32 ≠ 0#32 ∨
        BitVec.ofNat 32 (2 * q) + 1#32 ≥ (dispatchParams W H).height) := by
      rw [not_or, not_not, even_row hr, ge_iff_le, BitVec.not_le, next_row_iff W hr]
      exact ⟨heven, hnext⟩
    have hhalf : BitVec.ofNat 32 (2 * q) >>> 1 = BitVec.ofNat 32 q := by
      rw [half_row hr, show 2 * q / 2 = q by omega]
    have hna : BitVec.ofNat 32 (2 * q) * (dispatchParams W H).pairsPerRow + BitVec.ofNat 32 c
          + (dispatchParams W H).pairsPerRow
        = BitVec.ofNat 32 ((2 * q + 1) * (W.toNat / 2) + c) := by
      rw [pairsPerRow_eq, ← BitVec.ofNat_mul, ← BitVec.ofNat_add, ← BitVec.ofNat_add]
      congr 1
      ring
    have hnb : BitVec.ofNat 32 (2 * q) * (dispatchParams W H).pairsPerRow + BitVec.ofNat 32 c
          + 1#32 + (dispatchParams W H).pairsPerRow
        = BitVec.ofNat 32 ((2 * q + 1) * (W.toNat / 2) + (c + 1)) := by
      rw [pairsPerRow_eq, ← BitVec.ofNat_mul, ← BitVec.ofNat_add, ← BitVec.ofNat_add,
        ← BitVec.ofNat_add]
      congr 1
      ring
    have hga := hd.global _ (show (2 * q + 1) * (W.toNat / 2) + c < _ by omega)
    have hgb := hd.global _ hbelow
    simp only [kernel] at hga hgb
    have hoff' : q * W.toNat + 2 * c < 2 ^ 32 := by
      rw [hrow] at hoff ⊢
      rw [Nat.mul_assoc] at hoff
      omega
    have huv := uvWord_eq input hin (word_of_pair (r := q) hwidth hc)
    rw [if_neg hcond, if_pos heven, hna, hnb, hhalf, toNat_offset hoff']
    simp only [Option.map_some, hga, hgb, huv, show 2 * q / 2 = q by omega]
  · have hodd : BitVec.ofNat 32 r &&& 1#32 ≠ 0#32 := fun h => heven ((even_row hr).mp h)
    rw [if_pos (Or.inl hodd), if_neg heven]

/-- The stores of one invocation of the grid. -/
def invocationWrites (input : Words) (width : Nat) (v : Nat × Nat × Nat) : List Write :=
  if 2 * v.2.2 < min 128 (width / 2 - v.2.1 * 128) then
    quadWrites input width v.1 (v.2.1 * 128 + 2 * v.2.2)
  else []

/-- An even number of pairs in a row: no thread is left with one. -/
theorem invocation_aligned (hd : kernel.Decodes W H input (refPair input))
    (hwidth : W.toNat % 4 = 0) (hH : H.toNat % 2 = 0) (hb : 5 * (W.toNat / 2) * H.toNat < 2 ^ 32)
    (hr : r < H.toNat) (hg : g * 128 < W.toNat / 2) (hl : l < 64) :
    invocation W H input (r, g, l) = some (invocationWrites input W.toNat (r, g, l)) := by
  rw [invocation_eq hr hg hl, invocationWrites]
  by_cases hin : 2 * l < min 128 (W.toNat / 2 - g * 128)
  · have hinB : 2 * l + 1 < min 128 (W.toNat / 2 - g * 128) := by omega
    obtain ⟨qa, hqa, hda⟩ := hd.tile r g (2 * l) hr (by omega) (by omega)
    obtain ⟨qb, hqb, hdb⟩ := hd.tile r g (2 * l + 1) hr (by omega) (by omega)
    simp only [kernel] at hqa hda hqb hdb
    simp only [hin, hinB, if_true, hqa, hqb, Option.bind_eq_bind, Option.bind_some,
      Option.map_some, Option.pure_def, hda, hdb]
    rw [← Nat.add_assoc (g * 128), stores_eq hd hwidth hH hb hr (by omega) (by omega)]
  · simp only [hin, if_false]

end invocation

/-! ### The planes -/

/-- The words of both planes of the reference. -/
def refWord (input : Words) (ppr : Nat) : Plane × Nat → Word
  | (.y, i) => wordOf (lumaByte input) i
  | (.uv, i) => wordOf (chromaByte input ppr) i

section planes
variable {W H : Word} {input : Words} {order : List (Nat × Nat × Nat)}

theorem mem_grid {r g l : Nat} :
    (r, g, l) ∈ grid W H ↔ r < H.toNat ∧ g < (groupsX W).toNat ∧ l < 64 := by
  simp only [grid, List.mem_flatMap, List.mem_range, List.mem_map]
  constructor
  · rintro ⟨r', hr, g', hg, l', hl, heq⟩
    cases heq
    exact ⟨hr, hg, hl⟩
  · rintro ⟨hr, hg, hl⟩
    exact ⟨r, hr, g, hg, l, hl, rfl⟩

/-- Every pair of a row belongs to a thread of the grid. -/
theorem thread_mem {r c : Nat} (hr : r < H.toNat) (hc : c < W.toNat / 2) :
    (r, c / 128, c % 128 / 2) ∈ grid W H := by
  refine mem_grid.mpr ⟨hr, ?_, by omega⟩
  rw [toNat_groupsX]
  omega

/-- No store of an invocation differs from the reference. -/
theorem stored_invocationWrites {v : Nat × Nat × Nat} {w : Write}
    (hw : w ∈ invocationWrites input W.toNat v) :
    (stored w).2 = refWord input (W.toNat / 2) (stored w).1 := by
  rw [invocationWrites] at hw
  split at hw
  next =>
    rw [quadWrites] at hw
    rcases List.mem_cons.mp hw with rfl | hw
    · rfl
    · split at hw
      next =>
        rw [List.mem_singleton.mp hw]
        rfl
      next => cases hw
  next => cases hw

/-- The words of the thread of pair `c` are among the stores. -/
theorem quadWrites_mem (ho : order.Perm (grid W H)) {r c : Nat} (hr : r < H.toNat)
    (hc : c < W.toNat / 2) (heven : c % 2 = 0) {w : Write} (hw : w ∈ quadWrites input W.toNat r c) :
    w ∈ (order.map (invocationWrites input W.toNat)).flatten := by
  refine List.mem_flatten.mpr ⟨_, List.mem_map_of_mem (ho.mem_iff.mpr (thread_mem hr hc)), ?_⟩
  have hthread : 2 * (c % 128 / 2) < min 128 (W.toNat / 2 - c / 128 * 128) := by omega
  rw [invocationWrites, if_pos hthread]
  simp only [show c / 128 * 128 + 2 * (c % 128 / 2) = c by omega]
  exact hw

theorem y_mem (input : Words) (ho : order.Perm (grid W H)) {r c : Nat} (hr : r < H.toNat)
    (hc : c < W.toNat / 2) (heven : c % 2 = 0) :
    Write.y ((r * W.toNat + 2 * c) / 4)
        (wordOf (lumaByte input) ((r * W.toNat + 2 * c) / 4))
      ∈ (order.map (invocationWrites input W.toNat)).flatten :=
  quadWrites_mem ho hr hc heven (List.mem_cons_self ..)

theorem uv_mem (input : Words) (ho : order.Perm (grid W H)) {q c : Nat} (hq : 2 * q < H.toNat)
    (hc : c < W.toNat / 2) (heven : c % 2 = 0) :
    Write.uv ((q * W.toNat + 2 * c) / 4)
        (wordOf (chromaByte input (W.toNat / 2)) ((q * W.toNat + 2 * c) / 4))
      ∈ (order.map (invocationWrites input W.toNat)).flatten := by
  refine quadWrites_mem ho hq hc heven ?_
  rw [quadWrites, if_pos (by omega), show 2 * q / 2 = q by omega]
  exact List.mem_cons_of_mem _ (List.mem_singleton_self _)

/-- A byte of a plane, if its word is stored and every store agrees with the reference. -/
theorem byteAfter_eq {memory : Plane × Nat → Word} {ws : List Write} {plane : Plane} {k : Nat}
    {ref : Plane × Nat → Word} (hagree : ∀ w ∈ ws, (stored w).2 = ref (stored w).1)
    (hmem : ∃ w ∈ ws, (stored w).1 = (plane, k / 4)) :
    byteAfter memory ws plane k = byteAt (fun i => ref (plane, i)) k := by
  obtain ⟨w, hw, haddr⟩ := hmem
  have hagree' : ∀ s ∈ ws.map stored, s.2 = ref s.1 := by
    intro s hs
    obtain ⟨w, hw, rfl⟩ := List.mem_map.mp hs
    exact hagree w hw
  have hin : (plane, k / 4) ∈ (ws.map stored).map Prod.fst := by
    rw [← haddr]
    exact List.mem_map_of_mem (List.mem_map_of_mem hw)
  simp only [byteAfter, byteAt]
  rw [storeAll_of_agree memory hagree', if_pos hin]

theorem lumaByte_eq (hW : W.toNat % 2 = 0) (x r : Nat) :
    lumaByte input (r * W.toNat + x) = (luma input (W.toNat / 2) x r >>> 2).setWidth 8 := by
  obtain ⟨w, hw⟩ := Nat.dvd_of_mod_eq_zero hW
  rw [lumaByte, luma, hw, show r * (2 * w) = 2 * (r * w) by ring, show 2 * w / 2 = w by omega,
    show (2 * (r * w) + x) % 2 = x % 2 by omega,
    show (2 * (r * w) + x) / 2 = r * w + x / 2 by omega]

/-- Byte `2 * c + b` of row `q` of the UV plane: U for `b = 0`, V for `b = 1`. -/
theorem chromaByte_eq (hW : W.toNat % 2 = 0) {c : Nat} (hc : c < W.toNat / 2) (q : Nat) {b : Nat}
    (hb : b < 2) :
    chromaByte input (W.toNat / 2) (q * W.toNat + (2 * c + b))
      = BitVec.ofNat 8 ((if b = 0 then uAverage input (W.toNat / 2) c (2 * q)
          else vAverage input (W.toNat / 2) c (2 * q)) / 2 ^ 2) := by
  obtain ⟨w, hw⟩ := Nat.dvd_of_mod_eq_zero hW
  rw [hw, show 2 * w / 2 = w by omega] at hc ⊢
  have hsite : (q * (2 * w) + (2 * c + b)) / 2 = c + q * w := by
    rw [show q * (2 * w) = 2 * (q * w) by ring]
    omega
  have hparity : (q * (2 * w) + (2 * c + b)) % 2 = b := by
    rw [show q * (2 * w) = 2 * (q * w) by ring]
    omega
  rw [chromaByte, hsite, hparity, Nat.add_mul_mod_self_right, Nat.mod_eq_of_lt hc,
    Nat.add_mul_div_right _ _ (by omega), Nat.div_eq_of_lt hc, Nat.zero_add]

theorem planesRight_aligned (hwidth : W.toNat % 4 = 0) (ho : order.Perm (grid W H))
    (memory : Plane × Nat → Word) :
    PlanesRight W H input memory (order.map (invocationWrites input W.toNat)).flatten := by
  have hagree : ∀ w ∈ (order.map (invocationWrites input W.toNat)).flatten,
      (stored w).2 = refWord input (W.toNat / 2) (stored w).1 := by
    intro w hw
    obtain ⟨ws, hws, hw⟩ := List.mem_flatten.mp hw
    obtain ⟨v, -, rfl⟩ := List.mem_map.mp hws
    exact stored_invocationWrites hw
  constructor
  · intro x r hx hr
    have hword : (r * W.toNat + x) / 4 = (r * W.toNat + 2 * (x / 4 * 2)) / 4 := by
      obtain ⟨w, hw⟩ := Nat.dvd_of_mod_eq_zero hwidth
      rw [hw, show r * (4 * w) = 4 * (r * w) by ring]
      omega
    have hmem := y_mem input ho hr (show x / 4 * 2 < W.toNat / 2 by omega) (by omega)
    rw [byteAfter_eq hagree ⟨_, hmem, by rw [hword]; rfl⟩]
    simp only [refWord]
    rw [byteAt_wordOf, lumaByte_eq (by omega)]
  · intro c r hc heven hr
    obtain ⟨q, rfl⟩ := Nat.dvd_of_mod_eq_zero heven
    have hbyte : ∀ b < 2, byteAfter memory (order.map (invocationWrites input W.toNat)).flatten .uv
        (q * W.toNat + (2 * c + b))
          = chromaByte input (W.toNat / 2) (q * W.toNat + (2 * c + b)) := by
      intro b hb
      have hword : (q * W.toNat + (2 * c + b)) / 4 = (q * W.toNat + 2 * (c / 2 * 2)) / 4 := by
        obtain ⟨w, hw⟩ := Nat.dvd_of_mod_eq_zero hwidth
        rw [hw, show q * (4 * w) = 4 * (q * w) by ring]
        omega
      have hmem := uv_mem input ho (show 2 * q < H.toNat by omega)
        (show c / 2 * 2 < W.toNat / 2 by omega) (by omega)
      rw [byteAfter_eq hagree ⟨_, hmem, by rw [hword]; rfl⟩]
      simp only [refWord]
      rw [byteAt_wordOf]
    have hu := (hbyte 0 (by omega)).trans (chromaByte_eq (by omega) hc q (by omega))
    have hv := (hbyte 1 (by omega)).trans (chromaByte_eq (by omega) hc q (by omega))
    rw [if_pos rfl] at hu
    rw [if_neg (by omega)] at hv
    rw [show 2 * q / 2 = q by omega]
    exact ⟨hu, hv⟩

/-- Rows of whole words that start on a block are converted exactly. -/
theorem exact_of_aligned (hwidth : W.toNat % 4 = 0) (hH : H.toNat % 2 = 0)
    (hb : 5 * (W.toNat / 2) * H.toNat < 2 ^ 32) (hal : RowsAligned (W.toNat / 2) H.toNat) :
    Exact W H := by
  intro input
  have hinv : ∀ v ∈ grid W H,
      invocation W H input v = some (invocationWrites input W.toNat v) := by
    rintro ⟨r, g, l⟩ hv
    obtain ⟨hr, hg, hl⟩ := mem_grid.mp hv
    exact invocation_aligned (decodes input hb hal) hwidth hH hb hr (group_start_lt hg) hl
  constructor
  · intro order memory ho
    refine ⟨_, ?_, planesRight_aligned hwidth ho memory⟩
    rw [run, mapM_some fun v hv => hinv v (ho.mem_iff.mp hv), Option.map_some]
  · intro v hv w hw _ ws ws' hws hws' a ha b hb' haddr
    rw [hinv v hv, Option.some_inj] at hws
    rw [hinv w hw, Option.some_inj] at hws'
    subst hws
    subst hws'
    rw [stored_invocationWrites ha, stored_invocationWrites hb', haddr]

/-! ### What an inexact conversion is -/

/-- The invocations can run in an order that ends with `v`, so what `v` stores has to be right. -/
theorem word_right (hexact : ExactOn W H input) {v : Nat × Nat × Nat} (hv : v ∈ grid W H)
    {i : Nat} {val : Word} {rest : List Write}
    (hinv : invocation W H input v = some (Write.y i val :: rest))
    (hrest : ∀ w ∈ rest, (stored w).1.1 = .uv) {x r : Nat} (hx : x < W.toNat) (hr : r < H.toNat)
    (hi : (r * W.toNat + x) / 4 = i) :
    val.extractLsb' (8 * ((r * W.toNat + x) % 4)) 8
      = (luma input (W.toNat / 2) x r >>> 2).setWidth 8 := by
  have hperm : ((grid W H).erase v ++ [v]).Perm (grid W H) :=
    (List.perm_append_singleton v _).trans (List.perm_cons_erase hv).symm
  obtain ⟨ws, hrun, hplanes⟩ := hexact.1 _ (fun _ => 0#32) hperm
  obtain ⟨wss, hwss, rfl⟩ := Option.map_eq_some_iff.mp hrun
  rw [List.mapM_append] at hwss
  obtain ⟨before, -, hwss⟩ := Option.bind_eq_some_iff.mp hwss
  obtain ⟨last, hlast, hwss⟩ := Option.bind_eq_some_iff.mp hwss
  have hlast' : last = [Write.y i val :: rest] := by
    simpa [List.mapM_cons, hinv] using hlast.symm
  have hcat : wss = before ++ last := (Option.some.inj hwss).symm
  have hbyte := hplanes.1 x r hx hr
  rw [hcat, hlast', List.flatten_append, List.flatten_singleton, byteAfter, List.map_append,
    List.map_cons, byteAt, hi] at hbyte
  have hend := storeAll_last (fun _ => 0#32) (before.flatten.map stored) (rest.map stored)
    (stored (Write.y i val)) ?_
  · simp only [stored] at hend hbyte
    rw [hend] at hbyte
    exact hbyte
  · intro t ht heq
    obtain ⟨w, hw, rfl⟩ := List.mem_map.mp ht
    have hplane := hrest w hw
    rw [heq] at hplane
    cases hplane

end planes

/-! ### Rows of odd pairs -/

section inexact
variable {W H : Word} {r : Nat}

/-- A white frame. -/
def ones : Words := fun _ => 0xFFFFFFFF#32

theorem refPair_ones (i : Nat) : (refPair ones i).y0 = 1023#10 := by
  have hbyte : ∀ k, Amly.streamByte ones k = 255#8 := by
    intro k
    apply BitVec.eq_of_getLsbD_eq
    intro b hb
    rw [Amly.streamByte, getLsbD_byteAt _ _ _ hb, bitAt, ones,
      show (0xFFFFFFFF#32) = BitVec.ofNat 32 (2 ^ 32 - 1) from rfl, getLsbD_lowMask 32 _ (by omega),
      show (255#8) = BitVec.ofNat 8 (2 ^ 8 - 1) from rfl, BitVec.getLsbD_ofNat,
      Nat.testBit_two_pow_sub_one]
    simp [hb, Nat.mod_lt]
  simp only [refPair, Amly.group, hbyte]
  decide

/-- The last thread of the first row has a lone pair: the two bytes behind it are cleared, but in a
    row that does not end with a word they are the first pixels of the second row. -/
theorem lone_pair_not_exact (hwidth : W.toNat % 4 = 2) (hH : 1 < H.toNat)
    (hb : 5 * (W.toNat / 2) * H.toNat < 2 ^ 32) : ¬ ExactOn W H ones := by
  intro hexact
  have hWlt := W.isLt
  have hrow : 0 < H.toNat := by omega
  generalize hc : W.toNat / 2 - 1 = c
  have hg : c / 128 * 128 < W.toNat / 2 := by omega
  have hin : 2 * (c % 128 / 2) < min 128 (W.toNat / 2 - c / 128 * 128) := by omega
  have hlone : ¬ 2 * (c % 128 / 2) + 1 < min 128 (W.toNat / 2 - c / 128 * 128) := by omega
  have hthread : c / 128 * 128 + 2 * (c % 128 / 2) = c := by omega
  have hn := toNat_nWords hrow hg hb
  have hoff := toNat_tileByteOffset hrow hg hb
  have hlid : (BitVec.ofNat 32 (2 * (c % 128 / 2))).toNat = 2 * (c % 128 / 2) := by
    rw [BitVec.toNat_ofNat, Nat.mod_eq_of_lt (by omega)]
  have hload := Amly.loadTile_corrected ones hrow hg hb (by omega)
  have hq := @extractPair_eq _ _ _ _ (BitVec.ofNat 32 (2 * (c % 128 / 2)))
    (tileByteOffset (dispatchParams W H) (BitVec.ofNat 32 0) (BitVec.ofNat 32 (c / 128)))
    hload (by omega) (by omega) (by omega)
  have hinv := @invocation_eq W H ones 0 (c / 128) (c % 128 / 2) hrow hg (by omega)
  simp only [loadTile_eq, hin, hlone, if_true, if_false, hq, Option.bind_eq_bind,
    Option.bind_some, Option.pure_def, hthread] at hinv
  obtain ⟨rest, hstores, hrest⟩ := @stores_head ones (dispatchParams W H) (BitVec.ofNat 32 0)
    (BitVec.ofNat 32 c) _ none
  rw [hstores, toNat_offset (by omega)] at hinv
  have hword := word_right hexact (thread_mem hrow (show c < W.toNat / 2 by omega)) hinv hrest
    (show 0 < W.toNat by omega) hH (by omega)
  rw [show 8 * ((1 * W.toNat + 0) % 4) = 16 by omega, yWord, Option.map_none, packWord_none, luma,
    if_pos rfl, refPair_ones] at hword
  exact absurd hword (by decide)

/-! ### Rows that start inside a block -/

/-- The first byte of a word is that of the first pair. -/
theorem packWord_low (v0 v1 : Word) (b : Option (Word × Word)) :
    (packWord v0 v1 b).extractLsb' 0 8 = v0.setWidth 8 := by
  apply BitVec.eq_of_getLsbD_eq
  intro i hi
  have hmask : (v0 &&& 0xFF#32).getLsbD i = v0.getLsbD i := by
    rw [BitVec.getLsbD_and, getLsbD_mask8]
    simp [hi]
  rw [BitVec.getLsbD_extractLsb', BitVec.getLsbD_setWidth, Nat.zero_add]
  cases b with
  | none => simp [packWord, hmask, hi]
  | some b => simp [packWord, hmask, hi, show i < 16 by omega, show i < 24 by omega]

/-- An exact conversion has no invocation that reads a cell that was not loaded. -/
theorem invocation_isSome {input : Words} (hexact : ExactOn W H input) {v : Nat × Nat × Nat}
    (hv : v ∈ grid W H) : ∃ ws, invocation W H input v = some ws := by
  obtain ⟨ws, hrun, -⟩ := hexact.1 (grid W H) (fun _ => 0#32) (List.Perm.refl _)
  obtain ⟨wss, hwss, -⟩ := Option.map_eq_some_iff.mp hrun
  obtain ⟨ws', -, hinv⟩ := mem_of_mapM hwss v hv
  exact ⟨ws', hinv⟩

/-- The first thread of a misaligned row stores a black pixel, whatever the spike says. -/
theorem spike_not_exact (hwidth : W.toNat % 4 = 0) (hr : r < H.toNat)
    (hb : 5 * (W.toNat / 2) * H.toNat < 2 ^ 32) (hmis : 4 ≤ 5 * (r * (W.toNat / 2)) % 8) :
    ¬ ExactOn W H (Amly.spike (5 * (r * (W.toNat / 2)) / 4 - 1)) := by
  intro hexact
  have hpos := Amly.pairs_pos hmis
  have hv : (r, 0, 0) ∈ grid W H := thread_mem hr hpos
  have hq := Amly.extractPair_spike hr hpos hb hmis
  have hpair := pair_lt hr hpos
  have hrow : r * W.toNat = 2 * (r * (W.toNat / 2)) := by
    rw [Nat.mul_left_comm]
    congr 1
    omega
  have hsmall : 5 * (r * (W.toNat / 2)) < 2 ^ 32 := by
    rw [Nat.mul_assoc, Nat.mul_comm (W.toNat / 2)] at hb
    omega
  obtain ⟨ws, hinv⟩ := invocation_isSome hexact hv
  have hstored := hinv
  rw [invocation_eq hr (by omega) (by omega), if_pos (by omega)] at hstored
  simp only [loadTile_eq, Nat.mul_zero, hq, Option.bind_eq_bind, Option.bind_some,
    Option.pure_def] at hstored
  rw [if_pos (by omega)] at hstored
  obtain ⟨b, -, hws⟩ := Option.bind_eq_some_iff.mp hstored
  obtain ⟨rest, hhead, hrest⟩ := @stores_head (Amly.spike (5 * (r * (W.toNat / 2)) / 4 - 1))
    (dispatchParams W H) (BitVec.ofNat 32 r) (BitVec.ofNat 32 (0 * 128 + 0))
    (decodePair 0#32 0#32) b
  rw [hhead, toNat_offset (by omega), Option.some_inj] at hws
  rw [← hws] at hinv
  have hbyte := word_right hexact hv hinv hrest (show 0 < W.toNat by omega) hr (by omega)
  have hzero : 8 * ((r * W.toNat + 0) % 4) = 0 := by
    obtain ⟨w, hw⟩ := Nat.dvd_of_mod_eq_zero hwidth
    rw [hw, show r * (4 * w) = 4 * (r * w) by ring]
    omega
  have hblack : (luma8 (decodePair 0#32 0#32)).1 = 0#32 := by decide
  rw [hzero, yWord, packWord_low, hblack, luma, if_pos rfl, Nat.zero_div, Nat.add_zero] at hbyte
  have hbit := congrArg (fun v => BitVec.getLsbD v 7) hbyte
  simp only [BitVec.getLsbD_setWidth, BitVec.getLsbD_ushiftRight, Amly.refPair_spike hmis] at hbit
  exact absurd hbit (by decide)

end inexact

/-! ### When the conversion is exact -/

theorem exact_no_rows {W H : Word} (hH : H.toNat = 0) : Exact W H := by
  have hgrid : grid W H = [] := by simp [grid, hH]
  intro input
  constructor
  · intro order memory ho
    rw [hgrid, List.perm_nil] at ho
    refine ⟨[], by rw [ho]; rfl, ?_, ?_⟩
    · intro x r _ hr
      omega
    · intro c r _ _ hr
      omega
  · intro v hv
    rw [hgrid] at hv
    cases hv

/-- The shader is exact on exactly the frames whose rows are whole words and start on a block. -/
theorem exact_iff (W H : Word) (hW : W.toNat % 2 = 0) (hH : H.toNat % 2 = 0)
    (hsize : W.toNat * H.toNat * 5 / 2 < 2 ^ 32) :
    Exact W H ↔ H.toNat = 0 ∨ W.toNat % 16 = 0 ∨ (H.toNat = 2 ∧ W.toNat % 16 = 4) := by
  have hb := frame_bytes_lt hW hsize
  constructor
  · intro hexact
    by_cases hrows : H.toNat = 0
    · exact Or.inl hrows
    · have hwidth : W.toNat % 4 = 0 := by
        by_contra hne
        exact lone_pair_not_exact (by omega) (by omega) hb (hexact ones)
      have hal : RowsAligned (W.toNat / 2) H.toNat := by
        intro r hr
        by_contra hmis
        exact spike_not_exact hwidth hr hb (Nat.not_lt.mp hmis) (hexact _)
      have hsizes := (Amly.rowsAligned_iff hH).mp hal
      omega
  · intro hsizes
    by_cases hrows : H.toNat = 0
    · exact exact_no_rows hrows
    · have hal : RowsAligned (W.toNat / 2) H.toNat := (Amly.rowsAligned_iff hH).mpr (by omega)
      exact exact_of_aligned (by omega) hH hb hal

/-- 1920×1080 is exact. -/
theorem exact_1080p : Exact 1920#32 1080#32 :=
  (exact_iff 1920#32 1080#32 (by decide) (by decide) (by decide)).mpr (by decide)

/-- 2×2 is not: the only word of the Y plane is stored by both rows. -/
theorem not_exact_two : ¬ ExactOn 2#32 2#32 ones :=
  lone_pair_not_exact (by decide) (by decide) (by decide)

end Streambox.Shader.Nv12
