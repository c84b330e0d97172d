import Streambox.Lib.BitStream
import Streambox.Lib.Blocks

/-! The P010 unpacking kernels: tile bounds, shared memory, output words, dispatch grid.

    `amly_to_p010.comp` and `vdin1_amly_to_p010.comp` share one `main`: a workgroup of 128 threads
    loads the words of up to 128 pixel pairs of one row into shared memory, each thread cuts its
    40-bit group out of the tile, writes a Y word, and on even rows averages its chroma with the
    pair below, which it reads from global memory. They differ in `load_tile`, `read_pair_global`
    and the field order, so `Kernel` carries those three and `Kernel.main` is written once.

    Shader `uint`s are 32-bit words with wrap-around. Shared memory is `Nat → Option Word`: a cell
    is `none` until the loader writes it, and cells from `TILE_WORDS` on can never be written, so a
    run that returns `some` has read only loaded cells of the tile. -/

namespace Streambox.Shader
open Streambox.Lib

/-- `TILE_PAIRS` and `TILE_WORDS`, the latter `(640 + 3 + 8) / 4 + 1`. -/
def tilePairsMax : Word := 128#32
def tileWords : Nat := (128 * 5 + 3 + 8) / 4 + 1

/-- Push constants. The fourth word is reserved. -/
structure Params where
  width : Word
  height : Word
  pairsPerRow : Word

/-- Shared memory of a workgroup. -/
abbrev Tile := Nat → Option Word

def Tile.empty : Tile := fun _ => none

/-- A store to shared memory; cells outside the tile do not exist. -/
def Tile.set (t : Tile) (i : Nat) (v : Word) : Tile :=
  fun j => if j = i ∧ i < tileWords then some v else t j

/-- Indices visited by `for (uint i = a; i < n; i += s)`. -/
def steps (a n s : Nat) : List Nat := List.range' a ((n - a + (s - 1)) / s) s

/-- The components of one pixel pair, as the shader's `uint`s. -/
structure Pair where
  y0 : Word
  u0 : Word
  y1 : Word
  v0 : Word
  deriving DecidableEq

/-- A store to one of the two output planes. -/
inductive Write where
  | y (idx : Nat) (val : Word)
  | uv (idx : Nat) (val : Word)
  deriving DecidableEq

/-- Gather 40 bits from three neighbouring words. -/
def gather (w0 w1 w2 shift : Word) : Word × Word :=
  if shift = 0#32 then (w0, w1 &&& 0xFF#32)
  else ((w0 >>> shift) ||| (w1 <<< (32#32 - shift)),
        ((w1 >>> shift) ||| (w2 <<< (32#32 - shift))) &&& 0xFF#32)

/-- `extract_pair`: the 40 bits of a local pair, from the tile. -/
def extractPair (tile : Tile) (localPair byteOffsetBase : Word) : Option (Word × Word) := do
  let byteOff := byteOffsetBase + localPair * 5#32
  let widx := byteOff >>> 2
  let shift := (byteOff &&& 3#32) <<< 3
  let w0 ← tile widx.toNat
  let w1 ← tile (widx + 1#32).toNat
  if shift = 0#32 then
    return gather w0 w1 0#32 shift
  else
    -- the third word is fetched only when the group straddles a word boundary
    let w2 ← tile (widx + 2#32).toNat
    return gather w0 w1 w2 shift

/-- Ten bits left-justified in sixteen. -/
def p010Pack (val : Word) : Word := val <<< 6

/-- What distinguishes one P010 kernel from another. -/
structure Kernel where
  loadTile : Words → Word → Word → Tile
  decodePair : Word → Word → Pair
  readPairGlobal : Words → Word → Word × Word

/-- GLSL `min` on `uint`. -/
def umin (a b : Word) : Word := if a ≤ b then a else b

section main
variable (p : Params) (row gx : Word)

def tileStart : Word := gx * tilePairsMax

def tilePairs : Word := umin tilePairsMax (p.pairsPerRow - tileStart gx)

def tileByteStart : Word := row * p.pairsPerRow * 5#32 + tileStart gx * 5#32

def baseWordIdx : Word := tileByteStart p row gx >>> 2

def tileByteOffset : Word := tileByteStart p row gx &&& 3#32

/-- Words loaded by the workgroup: the tile's bytes, rounded up, plus two guard words. -/
def nWords : Word :=
  let n := (tileByteOffset p row gx + tilePairs p gx * 5#32 + 3#32) / 4#32 + 2#32
  if n > BitVec.ofNat 32 tileWords then BitVec.ofNat 32 tileWords else n

end main

/-- Chroma average with rounding. -/
def avg (a b : Word) : Word := (a + b + 1#32) >>> 1

def yWord (d : Pair) : Word := p010Pack d.y0 ||| (p010Pack d.y1 <<< 16)

def uvWord (d e : Pair) : Word :=
  p010Pack (avg d.u0 e.u0) ||| (p010Pack (avg d.v0 e.v0) <<< 16)

/-- One invocation of `main`; `none` if it reads a shared-memory cell that was not loaded. -/
def Kernel.main (k : Kernel) (p : Params) (input : Words) (row gx lid : Word) :
    Option (List Write) :=
  if row ≥ p.height then some [] else
  let tile := k.loadTile input (baseWordIdx p row gx) (nWords p row gx)
  let globalPair := tileStart gx + lid
  if lid ≥ tilePairs p gx then some [] else do
  let (lo, hi) ← extractPair tile lid (tileByteOffset p row gx)
  let d := k.decodePair lo hi
  let pairIdx := row * p.pairsPerRow + globalPair
  let yw := Write.y pairIdx.toNat (yWord d)
  if row &&& 1#32 = 0#32 ∧ row + 1#32 < p.height then
    let (nlo, nhi) := k.readPairGlobal input (pairIdx + p.pairsPerRow)
    let e := k.decodePair nlo nhi
    let uvIdx := (row >>> 1) * p.pairsPerRow + globalPair
    return [yw, Write.uv uvIdx.toNat (uvWord d e)]
  else
    return [yw]

/-- Push constants and grid size of the dispatch: one thread per pair, one row per group. -/
def dispatchParams (width height : Word) : Params := ⟨width, height, width / 2#32⟩

def groupsX (width : Word) : Word := (width / 2#32 + 127#32) / 128#32

/-- Every invocation of the dispatch, row by row, as `(row, group, thread)`. -/
def grid (width height : Word) : List (Nat × Nat × Nat) :=
  (List.range height.toNat).flatMap fun r =>
    (List.range (groupsX width).toNat).flatMap fun g => (List.range 128).map fun l => (r, g, l)

/-- Run a list of invocations and collect their stores in order. -/
def Kernel.run (k : Kernel) (width height : Word) (input : Words)
    (order : List (Nat × Nat × Nat)) : Option (List Write) :=
  (order.mapM fun v => k.main (dispatchParams width height) input
    (BitVec.ofNat 32 v.1) (BitVec.ofNat 32 v.2.1) (BitVec.ofNat 32 v.2.2)).map List.flatten

/-! ### The reference conversion -/

/-- One pixel pair of a 4:2:2 10-bit frame. -/
structure RawPair where
  y0 : BitVec 10
  u0 : BitVec 10
  y1 : BitVec 10
  v0 : BitVec 10

def RawPair.toPair (p : RawPair) : Pair :=
  ⟨p.y0.setWidth 32, p.u0.setWidth 32, p.y1.setWidth 32, p.v0.setWidth 32⟩

/-- `(y0 << 6) | (y1 << 22)`. -/
def refY (p : RawPair) : Word := (p.y0.setWidth 32 <<< 6) ||| (p.y1.setWidth 32 <<< 22)

/-- The rounded average of two chroma samples. -/
def refAvg (a b : BitVec 10) : Nat := (a.toNat + b.toNat + 1) / 2

/-- `(u << 6) | (v << 22)` of the vertically averaged chroma. -/
def refUV (p q : RawPair) : Word :=
  (BitVec.ofNat 32 (refAvg p.u0 q.u0) <<< 6) ||| (BitVec.ofNat 32 (refAvg p.v0 q.v0) <<< 22)

/-- The P010 frame of a 4:2:2 frame of `h` rows of `ppr` pairs: every Y word, then every UV word,
    each with its index in its plane. -/
def p010Frame (ppr h : Nat) (d : Nat → RawPair) : List Write :=
  (List.range (h * ppr)).map (fun i => .y i (refY (d i))) ++
    (List.range (h / 2)).flatMap (fun q => (List.range ppr).map fun c =>
      .uv (q * ppr + c) (refUV (d (2 * q * ppr + c)) (d ((2 * q + 1) * ppr + c))))

theorem yWord_toPair (p : RawPair) : yWord p.toPair = refY p := by
  rw [yWord, refY, p010Pack, p010Pack, ← BitVec.shiftLeft_add]; rfl

theorem avg_toPair (a b : BitVec 10) :
    avg (a.setWidth 32) (b.setWidth 32) = BitVec.ofNat 32 (refAvg a b) := by
  have ha := a.isLt
  have hb := b.isLt
  apply BitVec.eq_of_toNat_eq
  rw [avg, BitVec.toNat_ushiftRight, Nat.shiftRight_eq_div_pow, BitVec.toNat_add, BitVec.toNat_add,
    BitVec.toNat_setWidth, BitVec.toNat_setWidth, BitVec.toNat_ofNat, BitVec.toNat_ofNat, refAvg]
  omega

theorem uvWord_toPair (p q : RawPair) : uvWord p.toPair q.toPair = refUV p q := by
  rw [uvWord, refUV, p010Pack, p010Pack, ← BitVec.shiftLeft_add]
  simp only [RawPair.toPair, avg_toPair]

/-! ### `uint` arithmetic of the tile bounds -/

theorem toNat_umin (a b : Word) : (umin a b).toNat = min a.toNat b.toNat := by
  unfold umin
  split <;> rename_i h <;> rw [BitVec.le_def] at h <;> omega

theorem toNat_and_three (a : Word) : (a &&& 3#32).toNat = a.toNat % 4 := by
  rw [BitVec.toNat_and, show (3#32).toNat = 2 ^ 2 - 1 from rfl,
    Nat.and_two_pow_sub_one_eq_mod]

theorem toNat_shift_two (a : Word) : (a >>> 2).toNat = a.toNat / 4 := by
  rw [BitVec.toNat_ushiftRight, Nat.shiftRight_eq_div_pow]

section bounds
variable {W H : Word} {r g : Nat}

theorem toNat_pairsPerRow (W H : Word) : (dispatchParams W H).pairsPerRow.toNat = W.toNat / 2 := by
  simp [dispatchParams, BitVec.toNat_udiv]

theorem toNat_tileStart (hg : g * 128 < W.toNat / 2) :
    (tileStart (BitVec.ofNat 32 g)).toNat = g * 128 := by
  have hW := W.isLt
  simp [tileStart, tilePairsMax, BitVec.toNat_mul]
  omega

theorem toNat_tilePairs (hg : g * 128 < W.toNat / 2) :
    (tilePairs (dispatchParams W H) (BitVec.ofNat 32 g)).toNat = min 128 (W.toNat / 2 - g * 128) := by
  have hW := W.isLt
  rw [tilePairs, toNat_umin, BitVec.toNat_sub, toNat_pairsPerRow, toNat_tileStart hg]
  simp [tilePairsMax]
  omega

/-- The last byte of row `r`'s tile `g` is a byte of the frame. -/
theorem byte_bound (hr : r < H.toNat) (hg : g * 128 < W.toNat / 2) :
    5 * (r * (W.toNat / 2) + g * 128 + min 128 (W.toNat / 2 - g * 128))
      ≤ 5 * (W.toNat / 2) * H.toNat := by
  have h1 : (r + 1) * (W.toNat / 2) ≤ H.toNat * (W.toNat / 2) := Nat.mul_le_mul_right _ hr
  have h2 : g * 128 + min 128 (W.toNat / 2 - g * 128) ≤ W.toNat / 2 := by omega
  rw [Nat.succ_mul] at h1
  rw [Nat.mul_assoc, Nat.mul_comm (W.toNat / 2)]
  omega

theorem toNat_tileByteStart (hr : r < H.toNat) (hg : g * 128 < W.toNat / 2)
    (hb : 5 * (W.toNat / 2) * H.toNat < 2 ^ 32) :
    (tileByteStart (dispatchParams W H) (BitVec.ofNat 32 r) (BitVec.ofNat 32 g)).toNat
      = 5 * (r * (W.toNat / 2) + g * 128) := by
  have hbyte := byte_bound hr hg
  have hH := H.isLt
  have hrow : r * (W.toNat / 2) < 2 ^ 32 := by omega
  rw [tileByteStart, BitVec.toNat_add, BitVec.toNat_mul, BitVec.toNat_mul, BitVec.toNat_mul,
    toNat_pairsPerRow, toNat_tileStart hg, BitVec.toNat_ofNat, Nat.mod_eq_of_lt (by omega : r < 2 ^ 32),
    show (5#32).toNat = 5 from rfl, Nat.mod_eq_of_lt hrow]
  omega

theorem toNat_baseWordIdx (hr : r < H.toNat) (hg : g * 128 < W.toNat / 2)
    (hb : 5 * (W.toNat / 2) * H.toNat < 2 ^ 32) :
    (baseWordIdx (dispatchParams W H) (BitVec.ofNat 32 r) (BitVec.ofNat 32 g)).toNat
      = 5 * (r * (W.toNat / 2) + g * 128) / 4 := by
  rw [baseWordIdx, toNat_shift_two, toNat_tileByteStart hr hg hb]

theorem toNat_tileByteOffset (hr : r < H.toNat) (hg : g * 128 < W.toNat / 2)
    (hb : 5 * (W.toNat / 2) * H.toNat < 2 ^ 32) :
    (tileByteOffset (dispatchParams W H) (BitVec.ofNat 32 r) (BitVec.ofNat 32 g)).toNat
      = 5 * (r * (W.toNat / 2) + g * 128) % 4 := by
  rw [tileByteOffset, toNat_and_three, toNat_tileByteStart hr hg hb]

theorem toNat_words {a b : Word} (ha : a.toNat < 4) (hb : b.toNat ≤ 128) :
    ((a + b * 5#32 + 3#32) / 4#32 + 2#32).toNat = (a.toNat + 5 * b.toNat + 3) / 4 + 2 := by
  simp only [BitVec.toNat_add, BitVec.toNat_udiv, BitVec.toNat_mul, BitVec.toNat_ofNat,
    Nat.reducePow, Nat.reduceMod]
  rw [Nat.mod_eq_of_lt (show b.toNat * 5 < 4294967296 by omega),
    Nat.mod_eq_of_lt (show a.toNat + b.toNat * 5 < 4294967296 by omega),
    Nat.mod_eq_of_lt (show a.toNat + b.toNat * 5 + 3 < 4294967296 by omega)]
  omega

/-- The word count is never clipped: at most 643 bytes are needed. -/
theorem toNat_nWords (hr : r < H.toNat) (hg : g * 128 < W.toNat / 2)
    (hb : 5 * (W.toNat / 2) * H.toNat < 2 ^ 32) :
    (nWords (dispatchParams W H) (BitVec.ofNat 32 r) (BitVec.ofNat 32 g)).toNat
      = (5 * (r * (W.toNat / 2) + g * 128) % 4 + 5 * min 128 (W.toNat / 2 - g * 128) + 3) / 4 + 2 := by
  have hoff := toNat_tileByteOffset hr hg hb
  have htp := toNat_tilePairs (H := H) hg
  have hraw := toNat_words (a := tileByteOffset (dispatchParams W H) (BitVec.ofNat 32 r)
    (BitVec.ofNat 32 g)) (b := tilePairs (dispatchParams W H) (BitVec.ofNat 32 g))
    (by omega) (by omega)
  rw [hoff, htp] at hraw
  rw [nWords, if_neg, hraw]
  rw [gt_iff_lt, BitVec.lt_def, hraw, BitVec.toNat_ofNat, tileWords]
  omega

end bounds

/-! ### Reading a pair -/

theorem mem_steps {a n s j : Nat} (hs : 0 < s) :
    j ∈ steps a n s ↔ a ≤ j ∧ j < n ∧ (j - a) % s = 0 := by
  rw [steps, List.mem_range']
  constructor
  · rintro ⟨i, hi, rfl⟩
    have hmul : s * i < n - a := by
      have := block_start_lt hs hi
      rwa [Nat.mul_comm]
    refine ⟨by omega, by omega, ?_⟩
    rw [Nat.add_sub_cancel_left, Nat.mul_mod_right]
  · rintro ⟨hle, hlt, hmod⟩
    have hdiv : s * ((j - a) / s) = j - a := Nat.mul_div_cancel' (Nat.dvd_of_mod_eq_zero hmod)
    refine ⟨(j - a) / s, ?_, by omega⟩
    rw [Nat.div_lt_iff_lt_mul hs]
    exact lt_of_lt_of_le (by omega) (le_ceil_blocks (n - a) hs)

/-- Storing `f i` at every index of a list. -/
theorem foldl_set (f : Nat → Word) (j : Nat) : ∀ (L : List Nat) (t : Tile),
    (L.foldl (fun t i => t.set i (f i)) t) j
      = if j ∈ L ∧ j < tileWords then some (f j) else t j
  | [], t => by simp
  | i :: L, t => by
    rw [List.foldl_cons, foldl_set f j L, Tile.set]
    by_cases hL : j ∈ L ∧ j < tileWords
    · rw [if_pos hL, if_pos ⟨List.mem_cons_of_mem _ hL.1, hL.2⟩]
    · rw [if_neg hL]
      by_cases hi : j = i
      · subst hi
        by_cases hlt : j < tileWords
        · simp [hlt]
        · simp [hlt]
      · have : ¬ (j ∈ i :: L ∧ j < tileWords) := by
          rintro ⟨hm, hlt⟩
          exact hL ⟨(List.mem_cons.mp hm).resolve_left hi, hlt⟩
        rw [if_neg this, if_neg (fun h => hi h.1)]

theorem gather_eq (w0 w1 w2 shift : Word) (h : shift.toNat ≤ 24) :
    gather w0 w1 w2 shift = (funnelLo w0 w1 shift.toNat, funnelHi w1 w2 shift.toNat) := by
  have hsub : (32#32 - shift).toNat = 32 - shift.toNat := by
    rw [BitVec.toNat_sub, show (32#32).toNat = 32 from rfl]; omega
  unfold gather funnelLo funnelHi
  by_cases h0 : shift = 0#32
  · subst h0; rfl
  · have hne : shift.toNat ≠ 0 := fun hz => h0 (BitVec.eq_of_toNat_eq hz)
    rw [if_neg h0, if_neg hne, if_neg hne, BitVec.ushiftRight_eq', BitVec.shiftLeft_eq',
      BitVec.ushiftRight_eq', BitVec.shiftLeft_eq', hsub]

theorem toNat_shift (b : Word) : ((b &&& 3#32) <<< 3).toNat = 8 * (b.toNat % 4) := by
  rw [BitVec.toNat_shiftLeft, toNat_and_three, Nat.shiftLeft_eq]
  omega

/-- A pair cut out of a tile that holds the words `cw base, cw (base+1), …` is the group of `cw`. -/
theorem extractPair_eq {tile : Tile} {cw : Words} {base n : Nat} {l off : Word}
    (hload : ∀ i < n, tile i = some (cw (base + i))) (hoff : off.toNat < 4) (hl : l.toNat < 128)
    (hn : (off.toNat + 5 * l.toNat) / 4 + 2 < n) :
    extractPair tile l off = some (readGroup cw (4 * base + off.toNat + 5 * l.toNat)) := by
  have hb : (off + l * 5#32).toNat = off.toNat + 5 * l.toNat := by
    rw [BitVec.toNat_add, BitVec.toNat_mul, show (5#32).toNat = 5 from rfl]; omega
  have hw : ((off + l * 5#32) >>> 2).toNat = (off.toNat + 5 * l.toNat) / 4 := by
    rw [toNat_shift_two, hb]
  have hw1 : ((off + l * 5#32) >>> 2 + 1#32).toNat = (off.toNat + 5 * l.toNat) / 4 + 1 := by
    rw [BitVec.toNat_add, hw, show (1#32).toNat = 1 from rfl]; omega
  have hw2 : ((off + l * 5#32) >>> 2 + 2#32).toNat = (off.toNat + 5 * l.toNat) / 4 + 2 := by
    rw [BitVec.toNat_add, hw, show (2#32).toNat = 2 from rfl]; omega
  have hsh : (((off + l * 5#32) &&& 3#32) <<< 3).toNat = 8 * ((off.toNat + 5 * l.toNat) % 4) := by
    rw [toNat_shift, hb]
  have hle : (((off + l * 5#32) &&& 3#32) <<< 3).toNat ≤ 24 := by omega
  have hdiv : (4 * base + off.toNat + 5 * l.toNat) / 4 = base + (off.toNat + 5 * l.toNat) / 4 := by
    omega
  have hmod : (4 * base + off.toNat + 5 * l.toNat) % 4 = (off.toNat + 5 * l.toNat) % 4 := by omega
  simp only [extractPair, hw, hw1, hw2, hload _ (show (off.toNat + 5 * l.toNat) / 4 < n by omega),
    hload _ (show (off.toNat + 5 * l.toNat) / 4 + 1 < n by omega), hload _ hn,
    Option.bind_eq_bind, Option.bind_some, Option.pure_def]
  rw [readGroup, hdiv, hmod, ← hsh]
  by_cases h0 : ((off + l * 5#32) &&& 3#32) <<< 3 = 0#32
  · rw [if_pos h0, gather_eq _ _ _ _ hle, h0]
    simp only [funnelHi, BitVec.toNat_ofNat, Nat.zero_mod, if_true, Nat.add_assoc]
  · rw [if_neg h0, gather_eq _ _ _ _ hle]
    simp only [Nat.add_assoc]

/-! ### From decoded pairs to the written frame -/

/-- The stores of the thread at row `r`, column `c`. -/
def pairWrites (ppr : Nat) (d : Nat → RawPair) (r c : Nat) : List Write :=
  .y (r * ppr + c) (refY (d (r * ppr + c))) ::
    if r % 2 = 0 then
      [.uv (r / 2 * ppr + c) (refUV (d (r * ppr + c)) (d ((r + 1) * ppr + c)))]
    else []

/-- Both readers of a kernel decode pair `i` of the frame as `d i`. -/
structure Kernel.Decodes (k : Kernel) (W H : Word) (input : Words) (d : Nat → RawPair) : Prop where
  tile : ∀ r g l, r < H.toNat → g * 128 + l < W.toNat / 2 → l < 128 →
    ∃ q : Word × Word,
      extractPair (k.loadTile input
          (baseWordIdx (dispatchParams W H) (BitVec.ofNat 32 r) (BitVec.ofNat 32 g))
          (nWords (dispatchParams W H) (BitVec.ofNat 32 r) (BitVec.ofNat 32 g)))
        (BitVec.ofNat 32 l)
        (tileByteOffset (dispatchParams W H) (BitVec.ofNat 32 r) (BitVec.ofNat 32 g)) = some q ∧
      k.decodePair q.1 q.2 = (d (r * (W.toNat / 2) + (g * 128 + l))).toPair
  global : ∀ i < H.toNat * (W.toNat / 2),
    k.decodePair (k.readPairGlobal input (BitVec.ofNat 32 i)).1
      (k.readPairGlobal input (BitVec.ofNat 32 i)).2 = (d i).toPair

section main
variable {k : Kernel} {W H : Word} {input : Words} {d : Nat → RawPair} {r g l : Nat}

/-- A column below `ppr` of a row below `h` is a pair below `h * ppr`. -/
theorem pair_lt {ppr h c : Nat} (hr : r < h) (hc : c < ppr) : r * ppr + c < h * ppr := by
  have := Nat.mul_le_mul_right ppr (Nat.succ_le_of_lt hr)
  rw [Nat.succ_mul] at this
  omega

theorem even_row (hr : r < H.toNat) :
    (BitVec.ofNat 32 r &&& 1#32 = 0#32) ↔ r % 2 = 0 := by
  have hH := H.isLt
  rw [← BitVec.toNat_inj, BitVec.toNat_and, BitVec.toNat_ofNat, BitVec.toNat_ofNat,
    BitVec.toNat_ofNat, Nat.mod_eq_of_lt (show r < 2 ^ 32 by omega)]
  rw [show 1 % 2 ^ 32 = 2 ^ 1 - 1 from rfl, Nat.and_two_pow_sub_one_eq_mod]

/-- No row of the grid is behind the frame. -/
theorem row_inside (W : Word) (hr : r < H.toNat) :
    ¬ BitVec.ofNat 32 r ≥ (dispatchParams W H).height := by
  have hH := H.isLt
  rw [ge_iff_le, BitVec.le_def, BitVec.toNat_ofNat, Nat.mod_eq_of_lt (by omega)]
  exact Nat.not_le_of_lt hr

/-- Whether there is a row below. -/
theorem next_row_iff (W : Word) (hr : r < H.toNat) :
    BitVec.ofNat 32 r + 1#32 < (dispatchParams W H).height ↔ r + 1 < H.toNat := by
  have hH := H.isLt
  rw [BitVec.lt_def, BitVec.toNat_add, BitVec.toNat_ofNat, BitVec.toNat_ofNat,
    Nat.mod_eq_of_lt (show r < 2 ^ 32 by omega), Nat.mod_eq_of_lt (show 1 < 2 ^ 32 by decide),
    Nat.mod_eq_of_lt (show r + 1 < 2 ^ 32 by omega), dispatchParams]

theorem half_row (hr : r < H.toNat) : BitVec.ofNat 32 r >>> 1 = BitVec.ofNat 32 (r / 2) := by
  have hH := H.isLt
  apply BitVec.eq_of_toNat_eq
  rw [BitVec.toNat_ushiftRight, BitVec.toNat_ofNat, BitVec.toNat_ofNat, Nat.shiftRight_eq_div_pow]
  omega

theorem pairsPerRow_eq (W H : Word) :
    (dispatchParams W H).pairsPerRow = BitVec.ofNat 32 (W.toNat / 2) := by
  apply BitVec.eq_of_toNat_eq
  rw [toNat_pairsPerRow, BitVec.toNat_ofNat, Nat.mod_eq_of_lt (by omega)]

/-- Index arithmetic of one thread: exact modulo 2^32 because wrapping is a ring homomorphism. -/
theorem index_eq (W H : Word) (a g l : Nat) :
    BitVec.ofNat 32 a * (dispatchParams W H).pairsPerRow
        + (tileStart (BitVec.ofNat 32 g) + BitVec.ofNat 32 l)
      = BitVec.ofNat 32 (a * (W.toNat / 2) + (g * 128 + l)) := by
  rw [BitVec.ofNat_add, BitVec.ofNat_mul, BitVec.ofNat_add, pairsPerRow_eq, tileStart,
    tilePairsMax, BitVec.ofNat_mul]

/-- One invocation, given that both readers decode the frame. -/
theorem main_eq (hd : k.Decodes W H input d) (hH : H.toNat % 2 = 0)
    (hb : 5 * (W.toNat / 2) * H.toNat < 2 ^ 32) (hr : r < H.toNat) (hg : g * 128 < W.toNat / 2)
    (hl : l < 128) :
    k.main (dispatchParams W H) input (BitVec.ofNat 32 r) (BitVec.ofNat 32 g) (BitVec.ofNat 32 l)
      = some (if l < min 128 (W.toNat / 2 - g * 128) then
          pairWrites (W.toNat / 2) d r (g * 128 + l) else []) := by
  have hlid : BitVec.ofNat 32 l ≥ tilePairs (dispatchParams W H) (BitVec.ofNat 32 g) ↔
      ¬ l < min 128 (W.toNat / 2 - g * 128) := by
    rw [ge_iff_le, BitVec.le_def, toNat_tilePairs hg, BitVec.toNat_ofNat,
      Nat.mod_eq_of_lt (by omega)]
    omega
  rw [Kernel.main, if_neg (row_inside W hr)]
  by_cases hin : l < min 128 (W.toNat / 2 - g * 128)
  · have hc : g * 128 + l < W.toNat / 2 := by omega
    obtain ⟨q, hq, hdq⟩ := hd.tile r g l hr hc hl
    have hidx := index_eq W H r g l
    have hlt := pair_lt hr hc
    have hsmall : H.toNat * (W.toNat / 2) < 2 ^ 32 := by
      rw [Nat.mul_assoc, Nat.mul_comm (W.toNat / 2)] at hb; omega
    simp only [hlid, hin, not_true_eq_false, if_false, if_true, hq, Option.bind_eq_bind,
      Option.bind_some, Option.pure_def, hdq, hidx, pairWrites, even_row hr, yWord_toPair]
    by_cases heven : r % 2 = 0
    · -- even row of an even number of rows: the row below exists
      have hnext : r + 1 < H.toNat := by omega
      have hlt' := pair_lt hnext hc
      have hcond := (next_row_iff W hr).mpr hnext
      have hbelow : BitVec.ofNat 32 (r * (W.toNat / 2) + (g * 128 + l))
            + (dispatchParams W H).pairsPerRow
          = BitVec.ofNat 32 ((r + 1) * (W.toNat / 2) + (g * 128 + l)) := by
        rw [pairsPerRow_eq, ← BitVec.ofNat_add, Nat.succ_mul, Nat.add_right_comm]
      have huv : (BitVec.ofNat 32 r >>> 1 * (dispatchParams W H).pairsPerRow
            + (tileStart (BitVec.ofNat 32 g) + BitVec.ofNat 32 l)).toNat
          = r / 2 * (W.toNat / 2) + (g * 128 + l) := by
        have hlt2 := pair_lt (show r / 2 < H.toNat by omega) hc
        rw [half_row hr, index_eq, BitVec.toNat_ofNat, Nat.mod_eq_of_lt (by omega)]
      rw [if_pos ⟨heven, hcond⟩, if_pos heven, hbelow, hd.global _ hlt', uvWord_toPair, huv,
        BitVec.toNat_ofNat, Nat.mod_eq_of_lt (by omega)]
    · rw [if_neg (fun h => heven h.1), if_neg heven, BitVec.toNat_ofNat,
        Nat.mod_eq_of_lt (by omega)]
  · simp only [hlid, hin, not_false_eq_true, if_true, if_false]

/-- Running invocations that all succeed collects their stores. -/
theorem mapM_some {α β : Type} {f : α → Option β} {h : α → β} : ∀ {l : List α},
    (∀ a ∈ l, f a = some (h a)) → l.mapM f = some (l.map h)
  | [], _ => rfl
  | a :: l, hl => by
    rw [List.mapM_cons, hl a (List.mem_cons_self ..),
      mapM_some (fun b hb => hl b (List.mem_cons_of_mem _ hb))]
    rfl

theorem toNat_groupsX (W : Word) : (groupsX W).toNat = (W.toNat / 2 + (128 - 1)) / 128 := by
  have hW := W.isLt
  rw [groupsX, BitVec.toNat_udiv, BitVec.toNat_add, BitVec.toNat_udiv]
  simp only [BitVec.toNat_ofNat, Nat.reducePow, Nat.reduceMod]
  rw [Nat.mod_eq_of_lt (by omega)]

/-- An invocation of the grid is in a row of the frame and a group that starts inside the row. -/
theorem mem_grid {W H : Word} {r g l : Nat} :
    (r, g, l) ∈ grid W H ↔ r < H.toNat ∧ g < (groupsX W).toNat ∧ l < 128 := by
  simp only [grid, List.mem_flatMap, List.mem_range, List.mem_map]
  constructor
  · rintro ⟨r', hr, g', hg, l', hl, heq⟩
    cases heq
    exact ⟨hr, hg, hl⟩
  · rintro ⟨hr, hg, hl⟩
    exact ⟨r, hr, g, hg, l, hl, rfl⟩

theorem group_start_lt {W : Word} {g : Nat} (hg : g < (groupsX W).toNat) :
    g * 128 < W.toNat / 2 := by
  rw [toNat_groupsX] at hg
  exact block_start_lt (by decide) hg

/-- The stores of one invocation of the grid. -/
def invocationWrites (W : Word) (d : Nat → RawPair) (v : Nat × Nat × Nat) : List Write :=
  if v.2.2 < min 128 (W.toNat / 2 - v.2.1 * 128) then
    pairWrites (W.toNat / 2) d v.1 (v.2.1 * 128 + v.2.2) else []

/-- The threads of one row, group by group, store the pairs of the row in order. -/
theorem row_writes (W : Word) (d : Nat → RawPair) (r : Nat) :
    ((List.range (groupsX W).toNat).flatMap fun g => (List.range 128).flatMap fun l =>
        invocationWrites W d (r, g, l))
      = (List.range (W.toNat / 2)).flatMap (pairWrites (W.toNat / 2) d r) := by
  rw [← flatMap_blocks (b := 128) (le_ceil_blocks (W.toNat / 2) (by decide)), toNat_groupsX,
    List.flatMap_assoc]
  congr 1
  funext g
  simp only [invocationWrites]
  rw [flatMap_clip (by omega) fun l => pairWrites (W.toNat / 2) d r (g * 128 + l), List.flatMap_map]

theorem grid_writes (W H : Word) (d : Nat → RawPair) :
    (grid W H).flatMap (invocationWrites W d)
      = (List.range H.toNat).flatMap fun r =>
          (List.range (W.toNat / 2)).flatMap (pairWrites (W.toNat / 2) d r) := by
  rw [grid, List.flatMap_assoc]
  congr 1
  funext r
  rw [← row_writes, List.flatMap_assoc]
  congr 1

/-- Row-major stores, with the Y plane sorted before the UV plane, are the frame. -/
theorem writes_perm_frame (ppr h : Nat) (d : Nat → RawPair) (heven : h % 2 = 0) :
    ((List.range h).flatMap fun r => (List.range ppr).flatMap (pairWrites ppr d r)).Perm
      (p010Frame ppr h d) := by
  let yAt : Nat → Write := fun i => .y i (refY (d i))
  let uvAt : Nat → Nat → Write := fun r c =>
    .uv (r / 2 * ppr + c) (refUV (d (r * ppr + c)) (d ((r + 1) * ppr + c)))
  have hrow : ∀ r ∈ List.range h, ((List.range ppr).flatMap (pairWrites ppr d r)).Perm
      (((List.range ppr).map (r * ppr + ·)).map yAt ++
        if r % 2 = 0 then (List.range ppr).map (uvAt r) else []) := by
    intro r _
    have hcons : pairWrites ppr d r = fun c => [yAt (r * ppr + c)] ++
        if r % 2 = 0 then [uvAt r c] else [] := rfl
    rw [hcons]
    refine (List.flatMap_append_perm _ _ _).symm.trans (List.Perm.of_eq ?_)
    congr 1
    · rw [List.map_map, List.map_eq_flatMap]; rfl
    · split <;> simp [List.map_eq_flatMap]
  refine (List.Perm.flatMap_left _ hrow).trans ?_
  refine (List.flatMap_append_perm _ _ _).symm.trans (List.Perm.of_eq ?_)
  rw [p010Frame]
  congr 1
  · rw [← List.map_flatMap, flatMap_rows]
  · rw [show h = 2 * (h / 2) by omega, flatMap_even_rows ppr uvAt,
      show 2 * (h / 2) / 2 = h / 2 by omega]
    simp only [uvAt, show ∀ q, 2 * q / 2 = q by intro q; omega]

/-- Whatever the order of the invocations, the dispatch stores every Y word and every UV word of
    the decoded frame exactly once, and nothing else. -/
theorem run_perm (hd : k.Decodes W H input d) (hH : H.toNat % 2 = 0)
    (hb : 5 * (W.toNat / 2) * H.toNat < 2 ^ 32) {order : List (Nat × Nat × Nat)}
    (ho : order.Perm (grid W H)) :
    ∃ ws, k.run W H input order = some ws ∧ ws.Perm (p010Frame (W.toNat / 2) H.toNat d) := by
  refine ⟨(order.map (invocationWrites W d)).flatten, ?_, ?_⟩
  · rw [Kernel.run, mapM_some (h := invocationWrites W d), Option.map_some]
    rintro ⟨r, g, l⟩ hv
    obtain ⟨hr, hg, hl⟩ := mem_grid.mp (ho.mem_iff.mp hv)
    exact main_eq hd hH hb hr (group_start_lt hg) hl
  · refine ((ho.map _).flatten).trans ?_
    rw [← List.flatMap_def, grid_writes]
    exact writes_perm_frame _ _ _ hH

/-- The frame size in bytes, as the tile arithmetic needs it. -/
theorem frame_bytes_lt (hW : W.toNat % 2 = 0) (hsize : W.toNat * H.toNat * 5 / 2 < 2 ^ 32) :
    5 * (W.toNat / 2) * H.toNat < 2 ^ 32 := by
  have hmul : W.toNat * H.toNat * 5 = 2 * (5 * (W.toNat / 2) * H.toNat) := by
    conv_lhs => rw [show W.toNat = 2 * (W.toNat / 2) by omega]
    ring
  omega

/-- What a run collects includes the stores of each of its invocations. -/
theorem mem_of_mapM {α β : Type} {f : α → Option β} : ∀ {l : List α} {bs : List β},
    l.mapM f = some bs → ∀ a ∈ l, ∃ b ∈ bs, f a = some b
  | [], _, _, _, ha => absurd ha (List.not_mem_nil)
  | x :: l, bs, hrun, a, ha => by
    rw [List.mapM_cons] at hrun
    simp only [Option.bind_eq_bind, Option.bind_eq_some_iff, Option.pure_def,
      Option.some.injEq] at hrun
    obtain ⟨b, hb, bs', hbs', rfl⟩ := hrun
    rcases List.mem_cons.mp ha with rfl | ha
    · exact ⟨b, List.mem_cons_self .., hb⟩
    · obtain ⟨c, hc, hfc⟩ := mem_of_mapM hbs' a ha
      exact ⟨c, List.mem_cons_of_mem _ hc, hfc⟩

/-- The Y word of a row's first thread comes from the pair it cut out of its tile. -/
theorem mem_run_y {order : List (Nat × Nat × Nat)} {ws : List Write} {q : Word × Word}
    (hrun : k.run W H input order = some ws) (hv : (r, 0, 0) ∈ order) (hr : r < H.toNat)
    (hW : 0 < W.toNat / 2) (hb : 5 * (W.toNat / 2) * H.toNat < 2 ^ 32)
    (hq : extractPair (k.loadTile input
          (baseWordIdx (dispatchParams W H) (BitVec.ofNat 32 r) (BitVec.ofNat 32 0))
          (nWords (dispatchParams W H) (BitVec.ofNat 32 r) (BitVec.ofNat 32 0)))
        (BitVec.ofNat 32 0)
        (tileByteOffset (dispatchParams W H) (BitVec.ofNat 32 r) (BitVec.ofNat 32 0)) = some q) :
    Write.y (r * (W.toNat / 2)) (yWord (k.decodePair q.1 q.2)) ∈ ws := by
  rw [Kernel.run, Option.map_eq_some_iff] at hrun
  obtain ⟨bs, hbs, rfl⟩ := hrun
  obtain ⟨b, hbmem, hmain⟩ := mem_of_mapM hbs _ hv
  refine List.mem_flatten.mpr ⟨b, hbmem, ?_⟩
  have hrow := row_inside W hr
  have hlid : ¬ BitVec.ofNat 32 0 ≥ tilePairs (dispatchParams W H) (BitVec.ofNat 32 0) := by
    rw [ge_iff_le, BitVec.le_def, toNat_tilePairs (by omega)]
    simp only [BitVec.toNat_ofNat, Nat.zero_mod]
    omega
  have hlt := pair_lt hr hW
  have hsmall : H.toNat * (W.toNat / 2) < 2 ^ 32 := by
    rw [Nat.mul_assoc, Nat.mul_comm (W.toNat / 2)] at hb; omega
  have hidx := index_eq W H r 0 0
  rw [Nat.zero_mul, Nat.add_zero] at hidx
  simp only [Kernel.main, hrow, hlid, if_false, hq, Option.bind_eq_bind, Option.bind_some, hidx,
    Option.pure_def, BitVec.toNat_ofNat] at hmain
  rw [Nat.mod_eq_of_lt (show r * (W.toNat / 2) < 2 ^ 32 by omega)] at hmain
  split at hmain <;> (rw [Option.some_inj] at hmain; rw [← hmain]; exact List.mem_cons_self ..)

theorem mem_p010Frame_y {ppr h i : Nat} {v : Word} :
    Write.y i v ∈ p010Frame ppr h d ↔ i < h * ppr ∧ refY (d i) = v := by
  simp only [p010Frame, List.mem_append, List.mem_map, List.mem_range, List.mem_flatMap,
    Write.y.injEq, reduceCtorEq, and_false, exists_false, or_false]
  constructor
  · rintro ⟨j, hj, rfl, rfl⟩; exact ⟨hj, rfl⟩
  · rintro ⟨hi, rfl⟩; exact ⟨i, hi, rfl, rfl⟩

end main
end Streambox.Shader
