import Streambox.Shader.P010

/-! `vdin1_amly_to_p010.comp`: little-endian AMLY to P010.

    vdin1 writes each pixel pair as 40 bits `[U0 | Y0 | V0 | Y1]`, lowest field first, in native
    byte order, so the tile loader is a plain copy and the fields come straight out of the gathered
    halves. Both readers therefore see the packed stream itself, at every byte residue a row or a
    tile can start at, and the dispatch writes exactly the P010 frame of the packed 4:2:2 frame. -/

namespace Streambox.Shader.Vdin1
open Streambox.Lib

/-- `load_tile`: 128 threads copy words with stride 128. -/
def loadTile (input : Words) (base n : Word) : Tile :=
  (List.range 128).foldl (fun t lid => (steps lid n.toNat 128).foldl
    (fun t i => t.set i (input (base + BitVec.ofNat 32 i).toNat)) t) Tile.empty

/-- `decode_pair`. -/
def decodePair (lo hi : Word) : Pair where
  u0 := lo &&& 0x3FF#32
  y0 := (lo >>> 10) &&& 0x3FF#32
  v0 := (lo >>> 20) &&& 0x3FF#32
  y1 := (lo >>> 30) ||| (hi <<< 2)

/-- `read_pair_global`. -/
def readPairGlobal (input : Words) (pairIdx : Word) : Word × Word :=
  let byteOffset := pairIdx * 5#32
  let wordIdx := byteOffset >>> 2
  let shift := (byteOffset &&& 3#32) <<< 3
  gather (input wordIdx.toNat) (input (wordIdx + 1#32).toNat) (input (wordIdx + 2#32).toNat) shift

def kernel : Kernel := ⟨loadTile, decodePair, readPairGlobal⟩

/-! ### The packed input -/

/-- `[U0 | Y0 | V0 | Y1]`, U0 in the lowest ten bits. -/
def pack (p : RawPair) : BitVec 40 := p.y1 ++ p.v0 ++ p.y0 ++ p.u0

/-- Byte `k` of the packed frame; past its `n` pairs the buffer holds arbitrary padding. -/
def packedByte (frame : Nat → RawPair) (pad : Nat → Byte) (n k : Nat) : Byte :=
  if k < 5 * n then (pack (frame (k / 5))).extractLsb' (8 * (k % 5)) 8 else pad k

/-- The word buffer handed to the shader. -/
def packedWords (frame : Nat → RawPair) (pad : Nat → Byte) (n : Nat) : Words :=
  wordOf (packedByte frame pad n)

theorem bitAt_packedWords {frame : Nat → RawPair} {pad : Nat → Byte} {n i j : Nat} (hi : i < n)
    (hj : j < 40) :
    bitAt (packedWords frame pad n) (8 * (5 * i) + j) = (pack (frame i)).getLsbD j := by
  rw [packedWords, bitAt_wordOf, packedByte, if_pos (by omega), BitVec.getLsbD_extractLsb']
  rw [show (8 * (5 * i) + j) / 8 / 5 = i by omega,
    show 8 * ((8 * (5 * i) + j) / 8 % 5) + (8 * (5 * i) + j) % 8 = j by omega]
  simp [Nat.mod_lt]

theorem getLsbD_pack (p : RawPair) (i : Nat) :
    (pack p).getLsbD i = if i < 10 then p.u0.getLsbD i else if i < 20 then p.y0.getLsbD (i - 10)
      else if i < 30 then p.v0.getLsbD (i - 20) else p.y1.getLsbD (i - 30) := by
  simp only [pack, BitVec.getLsbD_append]
  split_ifs <;> first | omega | rfl

/-- The fields of a gathered group are the packed components. -/
theorem decodePair_pack {p : RawPair} {q : Word × Word}
    (hlo : ∀ i < 32, q.1.getLsbD i = (pack p).getLsbD i)
    (hhi : ∀ i, q.2.getLsbD i = (decide (i < 8) && (pack p).getLsbD (32 + i))) :
    decodePair q.1 q.2 = p.toPair := by
  have hfield : ∀ (s : Nat) (f : BitVec 10), s + 10 ≤ 32 →
      (∀ i < 10, (pack p).getLsbD (s + i) = f.getLsbD i) →
      (q.1 >>> s) &&& 0x3FF#32 = f.setWidth 32 := by
    intro s f hs hf
    apply BitVec.eq_of_getLsbD_eq
    intro i hi
    rw [BitVec.getLsbD_and, BitVec.getLsbD_ushiftRight, getLsbD_mask10, BitVec.getLsbD_setWidth]
    by_cases h : i < 10
    · simp [h, hi, hlo (s + i) (by omega), hf i h]
    · simp [h, BitVec.getLsbD_of_ge f i (by omega)]
  have hu := hfield 0 p.u0 (by omega) fun i hi => by
    rw [getLsbD_pack, if_pos (by omega)]; congr 1; omega
  have hy := hfield 10 p.y0 (by omega) fun i hi => by
    rw [getLsbD_pack, if_neg (by omega), if_pos (by omega)]; congr 1; omega
  have hv := hfield 20 p.v0 (by omega) fun i hi => by
    rw [getLsbD_pack, if_neg (by omega), if_neg (by omega), if_pos (by omega)]; congr 1; omega
  -- Y1 has its two low bits at the top of `lo` and the rest in `hi`
  have hy1 : (q.1 >>> 30) ||| (q.2 <<< 2) = p.y1.setWidth 32 := by
    apply BitVec.eq_of_getLsbD_eq
    intro i hi
    rw [BitVec.getLsbD_or, BitVec.getLsbD_ushiftRight, BitVec.getLsbD_shiftLeft, hhi,
      BitVec.getLsbD_setWidth]
    by_cases h2 : i < 2
    · rw [hlo (30 + i) (by omega), getLsbD_pack, if_neg (by omega), if_neg (by omega),
        if_neg (by omega), show 30 + i - 30 = i by omega]
      simp [h2, hi]
    · rw [BitVec.getLsbD_of_ge q.1 (30 + i) (by omega), getLsbD_pack, if_neg (by omega),
        if_neg (by omega), if_neg (by omega), show 32 + (i - 2) - 30 = i by omega]
      by_cases h10 : i < 10
      · simp [h2, hi, show i - 2 < 8 by omega]
      · simp [show ¬ i - 2 < 8 by omega, BitVec.getLsbD_of_ge p.y1 i (by omega)]
  rw [decodePair, RawPair.toPair]
  rw [BitVec.ushiftRight_zero] at hu
  rw [hu, hy, hv, hy1]

/-! ### The two readers -/

theorem loadTile_apply (input : Words) (base n : Word) (j : Nat) :
    loadTile input base n j
      = if j < n.toNat ∧ j < tileWords then some (input (base + BitVec.ofNat 32 j).toNat)
        else none := by
  have hmem : j ∈ (List.range 128).flatMap (fun lid => steps lid n.toNat 128) ↔ j < n.toNat := by
    simp only [List.mem_flatMap, List.mem_range, mem_steps (show 0 < 128 by decide)]
    constructor
    · rintro ⟨lid, _, _, hlt, _⟩; exact hlt
    · intro hlt; exact ⟨j % 128, by omega, by omega, hlt, by omega⟩
  rw [loadTile, ← List.foldl_flatMap, foldl_set (fun i => input (base + BitVec.ofNat 32 i).toNat)]
  simp only [hmem, Tile.empty]

theorem readPairGlobal_eq (input : Words) {i : Nat} (hi : 5 * i < 2 ^ 32) :
    readPairGlobal input (BitVec.ofNat 32 i) = readGroup input (5 * i) := by
  have hb : (BitVec.ofNat 32 i * 5#32).toNat = 5 * i := by
    rw [BitVec.toNat_mul, BitVec.toNat_ofNat, show (5#32).toNat = 5 from rfl]; omega
  have hw : ((BitVec.ofNat 32 i * 5#32) >>> 2).toNat = 5 * i / 4 := by
    rw [toNat_shift_two, hb]
  have hw1 : ((BitVec.ofNat 32 i * 5#32) >>> 2 + 1#32).toNat = 5 * i / 4 + 1 := by
    rw [BitVec.toNat_add, hw, show (1#32).toNat = 1 from rfl]; omega
  have hw2 : ((BitVec.ofNat 32 i * 5#32) >>> 2 + 2#32).toNat = 5 * i / 4 + 2 := by
    rw [BitVec.toNat_add, hw, show (2#32).toNat = 2 from rfl]; omega
  have hsh : (((BitVec.ofNat 32 i * 5#32) &&& 3#32) <<< 3).toNat = 8 * (5 * i % 4) := by
    rw [toNat_shift, hb]
  simp only [readPairGlobal, hw, hw1, hw2]
  rw [gather_eq _ _ _ _ (by omega), hsh, readGroup]

/-- A group read off the packed stream decodes to the pair packed there. -/
theorem decodePair_readGroup {frame : Nat → RawPair} {pad : Nat → Byte} {n i : Nat} (hi : i < n) :
    decodePair (readGroup (packedWords frame pad n) (5 * i)).1
      (readGroup (packedWords frame pad n) (5 * i)).2 = (frame i).toPair := by
  refine decodePair_pack (fun j hj => ?_) (fun j => ?_)
  · rw [getLsbD_readGroup_fst _ _ _ hj, bitAt_packedWords hi (by omega)]
  · rw [getLsbD_readGroup_snd]
    by_cases hj : j < 8
    · rw [Nat.add_assoc, bitAt_packedWords hi (by omega)]
    · simp [hj]

section frame
variable {W H : Word} (frame : Nat → RawPair) (pad : Nat → Byte)

/-- The words a workgroup loads, and that every index it needs is one of them. -/
theorem loadTile_words (input : Words) {r g : Nat} (hr : r < H.toNat)
    (hg : g * 128 < W.toNat / 2) (hb : 5 * (W.toNat / 2) * H.toNat < 2 ^ 32) :
    ∀ i < (nWords (dispatchParams W H) (BitVec.ofNat 32 r) (BitVec.ofNat 32 g)).toNat,
      loadTile input (baseWordIdx (dispatchParams W H) (BitVec.ofNat 32 r) (BitVec.ofNat 32 g))
          (nWords (dispatchParams W H) (BitVec.ofNat 32 r) (BitVec.ofNat 32 g)) i
        = some (input (5 * (r * (W.toNat / 2) + g * 128) / 4 + i)) := by
  intro i hi
  have hn := toNat_nWords hr hg hb
  have hbase := toNat_baseWordIdx hr hg hb
  have hbyte := byte_bound hr hg
  have htile : i < tileWords := by
    rw [hn] at hi
    simp only [tileWords]
    omega
  rw [loadTile_apply, if_pos ⟨hi, htile⟩, BitVec.toNat_add, hbase, BitVec.toNat_ofNat]
  rw [hn] at hi
  rw [Nat.mod_eq_of_lt (show i < 2 ^ 32 by omega), Nat.mod_eq_of_lt (by omega)]

theorem decodes (hb : 5 * (W.toNat / 2) * H.toNat < 2 ^ 32) :
    kernel.Decodes W H (packedWords frame pad (H.toNat * (W.toNat / 2))) frame := by
  constructor
  · intro r g l hr hc hl
    have hg : g * 128 < W.toNat / 2 := by omega
    have hn := toNat_nWords hr hg hb
    have hoff := toNat_tileByteOffset hr hg hb
    have hlid : (BitVec.ofNat 32 l).toNat = l := by
      rw [BitVec.toNat_ofNat, Nat.mod_eq_of_lt (by omega)]
    refine ⟨_, extractPair_eq (loadTile_words _ hr hg hb) (by omega) (by omega) (by omega), ?_⟩
    rw [hoff, hlid, show 4 * (5 * (r * (W.toNat / 2) + g * 128) / 4)
      + 5 * (r * (W.toNat / 2) + g * 128) % 4 + 5 * l = 5 * (r * (W.toNat / 2) + (g * 128 + l)) by
      omega]
    exact decodePair_readGroup (pair_lt hr hc)
  · intro i hi
    have hlt : 5 * i < 2 ^ 32 := by
      rw [Nat.mul_assoc, Nat.mul_comm (W.toNat / 2)] at hb; omega
    show decodePair (readPairGlobal _ _).1 (readPairGlobal _ _).2 = _
    rw [readPairGlobal_eq _ hlt]
    exact decodePair_readGroup hi

end frame

/-- Words the loader of workgroup `(r, g)` fills, as the shader computes the count. -/
def loadedWords (W H : Word) (r g : Nat) : Nat :=
  (nWords (dispatchParams W H) (BitVec.ofNat 32 r) (BitVec.ofNat 32 g)).toNat

/-- The dispatch stores every word of the P010 frame exactly once, in whatever order its
    invocations run. That the run returns at all says every shared-memory read hit a loaded cell;
    the second part says which cells those are, all of them cells of `tile`. -/
theorem run_packed_frame (W H : Word) (hW : W.toNat % 2 = 0) (hH : H.toNat % 2 = 0)
    (hsize : W.toNat * H.toNat * 5 / 2 < 2 ^ 32) (frame : Nat → RawPair) (pad : Nat → Byte)
    (order : List (Nat × Nat × Nat)) (ho : order.Perm (grid W H)) :
    (∃ ws, kernel.run W H (packedWords frame pad (H.toNat * (W.toNat / 2))) order = some ws ∧
      ws.Perm (p010Frame (W.toNat / 2) H.toNat frame)) ∧
    ∀ r g l, (r, g, l) ∈ grid W H → loadedWords W H r g ≤ tileWords ∧
      ∀ j, (loadTile (packedWords frame pad (H.toNat * (W.toNat / 2)))
        (baseWordIdx (dispatchParams W H) (BitVec.ofNat 32 r) (BitVec.ofNat 32 g))
        (nWords (dispatchParams W H) (BitVec.ofNat 32 r) (BitVec.ofNat 32 g)) j).isSome ↔
          j < loadedWords W H r g := by
  have hb := frame_bytes_lt hW hsize
  refine ⟨run_perm (decodes frame pad hb) hH hb ho, ?_⟩
  intro r g l hmem
  obtain ⟨hr, hg, -⟩ := mem_grid.mp hmem
  have hn := toNat_nWords hr (group_start_lt hg) hb
  have hle : loadedWords W H r g ≤ tileWords := by
    rw [loadedWords, hn, tileWords]; omega
  refine ⟨hle, fun j => ?_⟩
  rw [loadTile_apply]
  by_cases hj : j < loadedWords W H r g
  · rw [if_pos ⟨hj, by omega⟩]; simp [hj]
  · rw [if_neg (fun h => hj h.1)]; simp [hj]

/-- A 2×2 frame whose second row starts at byte 5. -/
theorem run_packed_frame_two :
    ∃ ws, kernel.run 2#32 2#32
        (packedWords (fun i => ⟨BitVec.ofNat 10 (700 + i), 1#10, 2#10, 3#10⟩) (fun _ => 0xFF#8) 2)
        (grid 2#32 2#32) = some ws ∧
      ws.Perm (p010Frame 1 2 fun i => ⟨BitVec.ofNat 10 (700 + i), 1#10, 2#10, 3#10⟩) :=
  (run_packed_frame 2#32 2#32 (by decide) (by decide) (by decide) _ _ _ (List.Perm.refl _)).1

end Streambox.Shader.Vdin1
