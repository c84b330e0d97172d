import Streambox.Shader.AmlyToNv12
import Streambox.Shader.Vdin1Amly

/-! The unpacking shaders: which words and cells an invocation touches, and are they there?

    No address depends on the data, so the accesses of an invocation are a list that is computed
    from its place in the grid alone. The input is bound with exactly the bytes of the frame.

        |  .. tile of the last row | g g        the loaders round the tile up to words and read two
        |  frame, W*H*5/2 bytes  |              guard words, also behind the last tile

    Shared memory has room for the guard words. The input range has not. -/

namespace Streambox.Shader.Bounds
open Streambox.Lib

/-- A word or a cell that an invocation reads or writes. -/
inductive Access where
  | input (idx : Nat)
  | shared (idx : Nat)
  | y (idx : Nat)
  | uv (idx : Nat)
  deriving DecidableEq

/-! ### `load_tile` -/

/-- One pass of the AMLY loaders: two words, or the odd trailing cell. -/
def loadWordsAccesses (base : Word) (n i : Nat) : List Access :=
  if i + 1 < n then
    [.input (base + BitVec.ofNat 32 i).toNat, .input (base + BitVec.ofNat 32 i + 1#32).toNat,
      .shared i, .shared (i + 1)]
  else if i < n then [.shared i]
  else []

/-- `load_tile` of the AMLY shaders, by thread `lid` of `threads`. -/
def amlyLoad (threads : Nat) (base n lid : Word) : List Access :=
  (steps (lid.toNat * 2) n.toNat (threads * 2)).flatMap (loadWordsAccesses base n.toNat)

/-- `load_tile` of `vdin1_amly_to_p010.comp`. -/
def vdin1Load (base n lid : Word) : List Access :=
  (steps lid.toNat n.toNat 128).flatMap fun i =>
    [.input (base + BitVec.ofNat 32 i).toNat, .shared i]

/-! ### The readers -/

/-- `extract_pair`. -/
def extractAccesses (localPair byteOffsetBase : Word) : List Access :=
  let byteOff := byteOffsetBase + localPair * 5#32
  let widx := byteOff >>> 2
  let shift := (byteOff &&& 3#32) <<< 3
  [.shared widx.toNat, .shared (widx + 1#32).toNat] ++
    if shift = 0#32 then [] else [.shared (widx + 2#32).toNat]

/-- Both words of a block. -/
def blockAccesses (b : Word) : List Access := [.input b.toNat, .input (b + 1#32).toNat]

/-- `read_pair_global` of the AMLY shaders. -/
def amlyGlobal (pairIdx : Word) : List Access :=
  let byteOffset := pairIdx * 5#32
  let wordIdx := byteOffset >>> 2
  let shift := (byteOffset &&& 3#32) <<< 3
  let b0 := wordIdx &&& ~~~1#32
  let b1 := (wordIdx + 1#32) &&& ~~~1#32
  let b2 := (wordIdx + 2#32) &&& ~~~1#32
  blockAccesses b0 ++ (if b1 = b0 then [] else blockAccesses b1) ++
    if shift = 0#32 then []
    else if b2 = b1 then if b1 = b0 then [] else blockAccesses b1
    else blockAccesses b2

/-- `read_pair_global` of `vdin1_amly_to_p010.comp`. -/
def vdin1Global (pairIdx : Word) : List Access :=
  let byteOffset := pairIdx * 5#32
  let wordIdx := byteOffset >>> 2
  let shift := (byteOffset &&& 3#32) <<< 3
  [.input wordIdx.toNat, .input (wordIdx + 1#32).toNat] ++
    if shift = 0#32 then [] else [.input (wordIdx + 2#32).toNat]

/-! ### `main` -/

/-- What a shader's own functions touch. -/
structure Footprint where
  load : Word → Word → Word → List Access
  global : Word → List Access

def amlyP010 : Footprint := ⟨amlyLoad 128, amlyGlobal⟩

def amlyNv12 : Footprint := ⟨amlyLoad 64, amlyGlobal⟩

def vdin1P010 : Footprint := ⟨vdin1Load, vdin1Global⟩

/-- An invocation of a P010 shader. -/
def p010Accesses (f : Footprint) (p : Params) (row gx lid : Word) : List Access :=
  if row ≥ p.height then [] else
  let globalPair := tileStart gx + lid
  let pairIdx := row * p.pairsPerRow + globalPair
  f.load (baseWordIdx p row gx) (nWords p row gx) lid ++
    if lid ≥ tilePairs p gx then [] else
    extractAccesses lid (tileByteOffset p row gx) ++ [.y pairIdx.toNat] ++
      if row &&& 1#32 = 0#32 ∧ row + 1#32 < p.height then
        f.global (pairIdx + p.pairsPerRow) ++
          [.uv ((row >>> 1) * p.pairsPerRow + globalPair).toNat]
      else []

/-- An invocation of `amly_to_nv12.comp`. -/
def nv12Accesses (f : Footprint) (p : Params) (row gx lid : Word) : List Access :=
  let localPairA := lid * 2#32
  let localPairB := lid * 2#32 + 1#32
  let hasB := localPairB < tilePairs p gx
  let globalPairA := tileStart gx + localPairA
  let absPairA := row * p.pairsPerRow + globalPairA
  f.load (baseWordIdx p row gx) (nWords p row gx) lid ++
    if row ≥ p.height then [] else
    if localPairA ≥ tilePairs p gx then [] else
    extractAccesses localPairA (tileByteOffset p row gx) ++
      (if hasB then extractAccesses localPairB (tileByteOffset p row gx) else []) ++
      [.y ((row * p.width + globalPairA * 2#32) >>> 2).toNat] ++
      if row &&& 1#32 ≠ 0#32 ∨ row + 1#32 ≥ p.height then []
      else
        f.global (absPairA + p.pairsPerRow) ++
          (if hasB then f.global (absPairA + 1#32 + p.pairsPerRow) else []) ++
          [.uv (((row >>> 1) * p.width + globalPairA * 2#32) >>> 2).toNat]

/-! ### The bound ranges -/

/-- The bytes that the descriptors bind. -/
structure Ranges where
  input : Nat
  y : Nat
  uv : Nat

def p010Ranges (W H : Word) : Ranges :=
  ⟨W.toNat * H.toNat * 5 / 2, W.toNat * H.toNat * 2, W.toNat * H.toNat⟩

def nv12Ranges (W H : Word) : Ranges :=
  ⟨W.toNat * H.toNat * 5 / 2, W.toNat * H.toNat, W.toNat * H.toNat / 2⟩

/-- All four bytes of the word are bound; the cell is one of `tile`. -/
def Inside (ranges : Ranges) : Access → Prop
  | .input i => 4 * (i + 1) ≤ ranges.input
  | .shared i => i < tileWords
  | .y i => 4 * (i + 1) ≤ ranges.y
  | .uv i => 4 * (i + 1) ≤ ranges.uv

/-- The accesses of invocation `v`, as a dispatch of a `W`×`H` frame numbers them. -/
def accessesAt (accesses : Params → Word → Word → Word → List Access) (W H : Word)
    (v : Nat × Nat × Nat) : List Access :=
  accesses (dispatchParams W H) (BitVec.ofNat 32 v.1) (BitVec.ofNat 32 v.2.1)
    (BitVec.ofNat 32 v.2.2)

/-- No invocation of a dispatch leaves the ranges. -/
def StaysInside (accesses : Params → Word → Word → Word → List Access)
    (grid : Word → Word → List (Nat × Nat × Nat)) (ranges : Word → Word → Ranges) (W H : Word) :
    Prop :=
  ∀ v ∈ grid W H, ∀ x ∈ accessesAt accesses W H v, Inside (ranges W H) x

/-! ### The lists and the shaders

    A list that leaves out a word would be worth nothing: what a shader computes does not depend on
    any word that is not listed, and what it stores is listed. -/

/-- Words that are not listed do not matter. -/
structure Footprint.Covers (f : Footprint) (k : Kernel) (threads : Nat) : Prop where
  load : ∀ (a b : Words) (base n : Word),
    (∀ l < threads, ∀ i, Access.input i ∈ f.load base n (BitVec.ofNat 32 l) → a i = b i) →
      k.loadTile a base n = k.loadTile b base n
  global : ∀ (a b : Words) (pairIdx : Word),
    (∀ i, Access.input i ∈ f.global pairIdx → a i = b i) →
      k.readPairGlobal a pairIdx = k.readPairGlobal b pairIdx

section covers
variable {a b : Words}

theorem loadWords_congr {base : Word} {n i : Nat} (t : Tile)
    (h : ∀ j, Access.input j ∈ loadWordsAccesses base n i → a j = b j) :
    Amly.loadWords a base n t i = Amly.loadWords b base n t i := by
  unfold Amly.loadWords
  split
  next hi =>
    have h0 := h (base + BitVec.ofNat 32 i).toNat (by simp [loadWordsAccesses, hi])
    have h1 := h (base + BitVec.ofNat 32 i + 1#32).toNat (by simp [loadWordsAccesses, hi])
    simp only [h0, h1]
  next => rfl

theorem amlyLoad_congr {threads : Nat} (hthreads : threads < 2 ^ 32) {base n : Word}
    (h : ∀ l < threads, ∀ i, Access.input i ∈ amlyLoad threads base n (BitVec.ofNat 32 l) →
      a i = b i) :
    (List.range threads).foldl (fun t lid =>
        (steps (lid * 2) n.toNat (threads * 2)).foldl (Amly.loadWords a base n.toNat) t) Tile.empty
      = (List.range threads).foldl (fun t lid =>
        (steps (lid * 2) n.toNat (threads * 2)).foldl (Amly.loadWords b base n.toNat) t)
          Tile.empty := by
  apply List.foldl_ext
  intro t lid hlid
  rw [List.mem_range] at hlid
  apply List.foldl_ext
  intro t i hi
  refine loadWords_congr t fun j hj => h lid hlid j ?_
  rw [amlyLoad, BitVec.toNat_ofNat, Nat.mod_eq_of_lt (by omega)]
  exact List.mem_flatMap.mpr ⟨i, hi, hj⟩

theorem pick_congr {p c : Word}
    (h : ∀ i, Access.input i ∈ blockAccesses c → a i = b i) :
    Amly.pick p (a c.toNat) (a (c + 1#32).toNat)
      = Amly.pick p (b c.toNat) (b (c + 1#32).toNat) := by
  rw [h c.toNat (by simp [blockAccesses]), h (c + 1#32).toNat (by simp [blockAccesses])]

/-- The blocks of the words that are needed are all read, the second and the third if they are not
    the one before. -/
theorem blocks_subset (b0 b1 b2 shift : Word) :
    let reads := blockAccesses b0 ++ (if b1 = b0 then [] else blockAccesses b1) ++
      if shift = 0#32 then []
      else if b2 = b1 then if b1 = b0 then [] else blockAccesses b1
      else blockAccesses b2
    blockAccesses b0 ⊆ reads ∧ blockAccesses b1 ⊆ reads ∧
      (shift ≠ 0#32 → blockAccesses b2 ⊆ reads) := by
  intro reads
  have h0 : blockAccesses b0 ⊆ reads := by
    intro x hx
    exact List.mem_append_left _ (List.mem_append_left _ hx)
  have h1 : blockAccesses b1 ⊆ reads := by
    by_cases h : b1 = b0
    · rw [h]
      exact h0
    · intro x hx
      refine List.mem_append_left _ (List.mem_append_right _ ?_)
      rw [if_neg h]
      exact hx
  refine ⟨h0, h1, fun hshift => ?_⟩
  by_cases h : b2 = b1
  · rw [h]
    exact h1
  · intro x hx
    refine List.mem_append_right _ ?_
    rw [if_neg hshift, if_neg h]
    exact hx

theorem amlyGlobal_congr {pairIdx : Word}
    (h : ∀ i, Access.input i ∈ amlyGlobal pairIdx → a i = b i) :
    Amly.readPairGlobal a pairIdx = Amly.readPairGlobal b pairIdx := by
  obtain ⟨h0, h1, h2⟩ := blocks_subset ((pairIdx * 5#32) >>> 2 &&& ~~~1#32)
    (((pairIdx * 5#32) >>> 2 + 1#32) &&& ~~~1#32) (((pairIdx * 5#32) >>> 2 + 2#32) &&& ~~~1#32)
    ((pairIdx * 5#32 &&& 3#32) <<< 3)
  have hblock : ∀ p c : Word, blockAccesses c ⊆ amlyGlobal pairIdx →
      Amly.pick p (a c.toNat) (a (c + 1#32).toNat)
        = Amly.pick p (b c.toNat) (b (c + 1#32).toNat) :=
    fun p c hc => pick_congr fun i hi => h i (hc hi)
  simp only [Amly.readPairGlobal, Amly.pick_shared, Amly.pick_shared_twice]
  rw [hblock _ _ h0, hblock _ _ h1]
  split
  next => rfl
  next hshift => rw [hblock _ _ (h2 hshift)]

theorem amlyP010_covers : amlyP010.Covers Amly.kernel 128 where
  load _ _ _ _ h := amlyLoad_congr (by decide) h
  global _ _ _ h := amlyGlobal_congr h

theorem amlyNv12_covers : amlyNv12.Covers Nv12.kernel 64 where
  load _ _ _ _ h := amlyLoad_congr (by decide) h
  global a b pairIdx h := by
    simp only [Nv12.kernel, Nv12.readPairGlobal_eq]
    exact amlyGlobal_congr h

theorem vdin1P010_covers : vdin1P010.Covers Vdin1.kernel 128 where
  load a b base n h := by
    simp only [Vdin1.kernel, Vdin1.loadTile]
    apply List.foldl_ext
    intro t lid hlid
    rw [List.mem_range] at hlid
    apply List.foldl_ext
    intro t i hi
    rw [h lid hlid]
    simp only [vdin1P010, vdin1Load, BitVec.toNat_ofNat]
    rw [Nat.mod_eq_of_lt (by omega)]
    exact List.mem_flatMap.mpr ⟨i, hi, List.mem_cons_self ..⟩
  global a b pairIdx h := by
    simp only [Vdin1.kernel, Vdin1.readPairGlobal]
    rw [h _ (by simp [vdin1P010, vdin1Global]),
      h (_ + 1#32).toNat (by simp [vdin1P010, vdin1Global])]
    by_cases hshift : (pairIdx * 5#32 &&& 3#32) <<< 3 = 0#32
    · rw [hshift, gather, gather, if_pos rfl, if_pos rfl]
    · rw [h (_ + 2#32).toNat (by simp [vdin1P010, vdin1Global, hshift])]

/-- The access that a store is. -/
def storeAccess : Write → Access
  | .y idx _ => .y idx
  | .uv idx _ => .uv idx

variable {f : Footprint} {k : Kernel} {p : Params} {row gx : Word} {threads l : Nat}

/-- An invocation computes the same from buffers that agree on what its workgroup lists. -/
theorem p010_congr (hf : f.Covers k threads) (hl : l < threads)
    (h : ∀ m < threads, ∀ i, Access.input i ∈ p010Accesses f p row gx (BitVec.ofNat 32 m) →
      a i = b i) :
    k.main p a row gx (BitVec.ofNat 32 l) = k.main p b row gx (BitVec.ofNat 32 l) := by
  have hlist := h l hl
  obtain ⟨loadTile, decodePair, readPairGlobal⟩ := k
  unfold Kernel.main
  split
  next => rfl
  next hrow =>
    have htile := hf.load a b (baseWordIdx p row gx) (nWords p row gx) fun m hm i hi =>
      h m hm i (by simp [p010Accesses, hrow, hi])
    simp only at htile ⊢
    rw [htile]
    split
    next => rfl
    next hlid =>
      congr 1
      funext q
      split
      next heven =>
        have hglobal := hf.global a b
          (row * p.pairsPerRow + (tileStart gx + BitVec.ofNat 32 l) + p.pairsPerRow) fun i hi =>
            hlist i (by simp [p010Accesses, hrow, hlid, heven, hi])
        simp only at hglobal
        rw [hglobal]
      next => rfl

/-- What an invocation stores is listed. -/
theorem p010_stores {lid : Word} {ws : List Write} (h : k.main p a row gx lid = some ws) :
    ∀ w ∈ ws, storeAccess w ∈ p010Accesses f p row gx lid := by
  unfold Kernel.main at h
  split at h
  next =>
    cases h
    simp
  next hrow =>
    simp only at h
    split at h
    next =>
      cases h
      simp
    next hlid =>
      obtain ⟨q, -, h⟩ := Option.bind_eq_some_iff.mp h
      split at h
      next heven =>
        cases h
        simp [p010Accesses, hrow, hlid, heven, storeAccess]
      next heven =>
        cases h
        simp [p010Accesses, hrow, hlid, heven, storeAccess]

theorem nv12_congr (hl : l < 64)
    (h : ∀ m < 64, ∀ i, Access.input i ∈ nv12Accesses amlyNv12 p row gx (BitVec.ofNat 32 m) →
      a i = b i) :
    Nv12.main p a row gx (BitVec.ofNat 32 l) = Nv12.main p b row gx (BitVec.ofNat 32 l) := by
  have hlist := h l hl
  have htile := amlyNv12_covers.load a b (baseWordIdx p row gx) (nWords p row gx) fun m hm i hi =>
    h m hm i (List.mem_append_left _ hi)
  have hglobal := amlyNv12_covers.global a b
  simp only [Nv12.kernel] at htile hglobal
  simp only [Nv12.main, htile]
  split
  next => rfl
  next hrow =>
    split
    next => rfl
    next hlid =>
      have hstores : ∀ d e, (e ≠ none → BitVec.ofNat 32 l * 2#32 + 1#32 < tilePairs p gx) →
          Nv12.stores p a row (tileStart gx + BitVec.ofNat 32 l * 2#32) d e
            = Nv12.stores p b row (tileStart gx + BitVec.ofNat 32 l * 2#32) d e := by
        intro d e hsecond
        unfold Nv12.stores
        split
        next => rfl
        next heven =>
          have hA := hglobal _ fun i hi => hlist i (by
            simp only [nv12Accesses, hrow, hlid, heven, if_false, List.mem_append]
            exact Or.inr (Or.inr (Or.inl (Or.inl hi))))
          cases e with
          | none => simp only [hA, Option.map_none]
          | some e =>
            have hB := hglobal _ fun i hi => hlist i (by
              simp only [nv12Accesses, hrow, hlid, heven, if_false, List.mem_append,
                hsecond (by simp), if_true]
              exact Or.inr (Or.inr (Or.inl (Or.inr hi))))
            simp only [hA, hB, Option.map_some]
      refine bind_congr fun q => ?_
      split
      next hB =>
        refine bind_congr fun e => ?_
        rw [hstores _ e fun _ => hB]
      next =>
        exact congrArg some (hstores _ none fun hne => absurd rfl hne)

theorem nv12_stores {lid : Word} {ws : List Write} (h : Nv12.main p a row gx lid = some ws) :
    ∀ w ∈ ws, storeAccess w ∈ nv12Accesses f p row gx lid := by
  have hstores : ¬ row ≥ p.height → ¬ lid * 2#32 ≥ tilePairs p gx → ∀ d e,
      ∀ w ∈ Nv12.stores p a row (tileStart gx + lid * 2#32) d e,
        storeAccess w ∈ nv12Accesses f p row gx lid := by
    intro hrow hlid d e w hw
    unfold Nv12.stores at hw
    split at hw
    next hodd =>
      rw [List.mem_singleton.mp hw]
      simp [nv12Accesses, hrow, hlid, hodd, storeAccess]
    next heven =>
      rcases List.mem_cons.mp hw with rfl | hw
      · simp [nv12Accesses, hrow, hlid, storeAccess]
      · rw [List.mem_singleton.mp hw]
        simp only [nv12Accesses, hrow, hlid, heven, if_false, List.mem_append, storeAccess]
        exact Or.inr (Or.inr (Or.inr (List.mem_singleton_self _)))
  simp only [Nv12.main] at h
  split at h
  next =>
    cases h
    simp
  next hrow =>
    split at h
    next =>
      cases h
      simp
    next hlid =>
      obtain ⟨q, -, h⟩ := Option.bind_eq_some_iff.mp h
      split at h
      next =>
        obtain ⟨e, -, h⟩ := Option.bind_eq_some_iff.mp h
        cases h
        exact hstores hrow hlid _ _
      next =>
        cases h
        exact hstores hrow hlid _ _

end covers

/-! ### How far the functions reach -/

/-- The loader touches `n` cells and words from `base` on, and really reads one of the last two
    words; the reader touches words up to three behind the one its pair begins in. -/
structure Footprint.Reach (f : Footprint) (threads : Nat) : Prop where
  load : ∀ {base n lid : Word} {x : Access}, base.toNat + n.toNat < 2 ^ 32 → x ∈ f.load base n lid →
    ∃ i < n.toNat, x = .shared i ∨ x = .input (base.toNat + i)
  reaches : ∀ {base n : Word}, base.toNat + n.toNat < 2 ^ 32 → 2 ≤ n.toNat →
    ∃ l < threads, ∃ j, base.toNat + n.toNat ≤ j + 2 ∧
      .input j ∈ f.load base n (BitVec.ofNat 32 l)
  global : ∀ {i : Nat} {x : Access}, 5 * i < 2 ^ 32 → x ∈ f.global (BitVec.ofNat 32 i) →
    ∃ j ≤ 5 * i / 4 + 3, x = .input j

section reach
variable {base n lid : Word} {x : Access} {i : Nat}

theorem toNat_loadIdx (hfit : base.toNat + n.toNat < 2 ^ 32) (hi : i < n.toNat) :
    (base + BitVec.ofNat 32 i).toNat = base.toNat + i := by
  rw [BitVec.toNat_add, BitVec.toNat_ofNat, Nat.mod_eq_of_lt (show i < 2 ^ 32 by omega),
    Nat.mod_eq_of_lt (by omega)]

theorem loadWordsAccesses_eq (hfit : base.toNat + n.toNat < 2 ^ 32) (hi : i + 1 < n.toNat) :
    loadWordsAccesses base n.toNat i
      = [.input (base.toNat + i), .input (base.toNat + (i + 1)), .shared i, .shared (i + 1)] := by
  have hnext : (base + BitVec.ofNat 32 i + 1#32).toNat = base.toNat + (i + 1) := by
    rw [BitVec.toNat_add, toNat_loadIdx hfit (by omega), show (1#32).toNat = 1 from rfl,
      Nat.mod_eq_of_lt (by omega), Nat.add_assoc]
  rw [loadWordsAccesses, if_pos hi, toNat_loadIdx hfit (by omega), hnext]

theorem amlyLoad_mem {threads : Nat} (hfit : base.toNat + n.toNat < 2 ^ 32)
    (hx : x ∈ amlyLoad threads base n lid) :
    ∃ i < n.toNat, x = .shared i ∨ x = .input (base.toNat + i) := by
  obtain ⟨i, -, hx⟩ := List.mem_flatMap.mp hx
  by_cases hi : i + 1 < n.toNat
  · rw [loadWordsAccesses_eq hfit hi] at hx
    simp only [List.mem_cons, List.not_mem_nil, or_false] at hx
    rcases hx with rfl | rfl | rfl | rfl
    · exact ⟨i, by omega, Or.inr rfl⟩
    · exact ⟨i + 1, hi, Or.inr rfl⟩
    · exact ⟨i, by omega, Or.inl rfl⟩
    · exact ⟨i + 1, hi, Or.inl rfl⟩
  · rw [loadWordsAccesses, if_neg hi] at hx
    split at hx
    next hlast => exact ⟨i, hlast, Or.inl (List.mem_singleton.mp hx)⟩
    next => cases hx

/-- The last full pair of words belongs to some thread. -/
theorem amlyLoad_reaches {threads : Nat} (hpos : 0 < threads) (hthreads : threads < 2 ^ 32)
    (hfit : base.toNat + n.toNat < 2 ^ 32) (hn : 2 ≤ n.toNat) :
    ∃ l < threads, ∃ j, base.toNat + n.toNat ≤ j + 2 ∧
      .input j ∈ amlyLoad threads base n (BitVec.ofNat 32 l) := by
  generalize hh : n.toNat / 2 - 1 = h
  have hmod := Nat.div_add_mod h threads
  have hlt := Nat.mod_lt h hpos
  have hdist : h * 2 - h % threads * 2 = threads * 2 * (h / threads) := by
    rw [Nat.mul_right_comm]
    omega
  refine ⟨h % threads, hlt, base.toNat + (h * 2 + 1), by omega, ?_⟩
  rw [amlyLoad, BitVec.toNat_ofNat, Nat.mod_eq_of_lt (show h % threads < 2 ^ 32 by omega)]
  refine List.mem_flatMap.mpr ⟨h * 2, (mem_steps (by omega)).mpr ⟨by omega, by omega, ?_⟩, ?_⟩
  · rw [hdist, Nat.mul_mod_right]
  · rw [loadWordsAccesses_eq hfit (by omega)]
    simp

theorem vdin1Load_mem (hfit : base.toNat + n.toNat < 2 ^ 32) (hx : x ∈ vdin1Load base n lid) :
    ∃ i < n.toNat, x = .shared i ∨ x = .input (base.toNat + i) := by
  obtain ⟨i, hi, hx⟩ := List.mem_flatMap.mp hx
  have hlt := ((mem_steps (by decide)).mp hi).2.1
  rw [toNat_loadIdx hfit hlt] at hx
  simp only [List.mem_cons, List.not_mem_nil, or_false] at hx
  exact ⟨i, hlt, hx.symm⟩

theorem vdin1Load_reaches (hfit : base.toNat + n.toNat < 2 ^ 32) (hn : 2 ≤ n.toNat) :
    ∃ l < 128, ∃ j, base.toNat + n.toNat ≤ j + 2 ∧
      .input j ∈ vdin1Load base n (BitVec.ofNat 32 l) := by
  refine ⟨(n.toNat - 1) % 128, by omega, base.toNat + (n.toNat - 1), by omega, ?_⟩
  rw [vdin1Load, BitVec.toNat_ofNat, Nat.mod_eq_of_lt (show (n.toNat - 1) % 128 < 2 ^ 32 by omega)]
  have hstep := (mem_steps (show 0 < 128 by decide)).mpr
    (show (n.toNat - 1) % 128 ≤ n.toNat - 1 ∧ n.toNat - 1 < n.toNat ∧
      (n.toNat - 1 - (n.toNat - 1) % 128) % 128 = 0 by omega)
  refine List.mem_flatMap.mpr ⟨n.toNat - 1, hstep, ?_⟩
  rw [toNat_loadIdx hfit (by omega)]
  exact List.mem_cons_self ..

theorem toNat_pairByte (hi : 5 * i < 2 ^ 32) : (BitVec.ofNat 32 i * 5#32).toNat = 5 * i := by
  rw [BitVec.toNat_mul, BitVec.toNat_ofNat, show (5#32).toNat = 5 from rfl]
  omega

theorem toNat_pairWord (hi : 5 * i < 2 ^ 32) {c : Nat} (hc : c ≤ 2) :
    ((BitVec.ofNat 32 i * 5#32) >>> 2 + BitVec.ofNat 32 c).toNat = 5 * i / 4 + c := by
  rw [BitVec.toNat_add, toNat_shift_two, toNat_pairByte hi, BitVec.toNat_ofNat]
  omega

/-- Both words of the block of word `p`. -/
theorem blockAccesses_mem {p : Word} (hx : x ∈ blockAccesses (p &&& ~~~1#32)) :
    ∃ j ≤ p.toNat + 1, x = .input j := by
  have hbase := Amly.toNat_blockBase p
  have hnext : ((p &&& ~~~1#32) + 1#32).toNat = p.toNat / 2 * 2 + 1 := by
    rw [BitVec.toNat_add, hbase, show (1#32).toNat = 1 from rfl, Nat.mod_eq_of_lt (by omega)]
  simp only [blockAccesses, List.mem_cons, List.not_mem_nil, or_false] at hx
  rcases hx with rfl | rfl
  · exact ⟨_, by omega, rfl⟩
  · exact ⟨_, by omega, rfl⟩

theorem amlyGlobal_mem (hi : 5 * i < 2 ^ 32) (hx : x ∈ amlyGlobal (BitVec.ofNat 32 i)) :
    ∃ j ≤ 5 * i / 4 + 3, x = .input j := by
  have hw0 : ((BitVec.ofNat 32 i * 5#32) >>> 2).toNat = 5 * i / 4 := by
    rw [toNat_shift_two, toNat_pairByte hi]
  have hw1 := toNat_pairWord hi (show 1 ≤ 2 by decide)
  have hw2 := toNat_pairWord hi (show 2 ≤ 2 by decide)
  simp only [amlyGlobal, List.mem_append] at hx
  have hblock : ∀ p : Word, p.toNat ≤ 5 * i / 4 + 2 → x ∈ blockAccesses (p &&& ~~~1#32) →
      ∃ j ≤ 5 * i / 4 + 3, x = .input j := by
    intro p hp hx
    obtain ⟨j, hj, rfl⟩ := blockAccesses_mem hx
    exact ⟨j, by omega, rfl⟩
  rcases hx with (hx | hx) | hx
  · exact hblock _ (by omega) hx
  · split at hx
    next => cases hx
    next => exact hblock _ (by omega) hx
  · split at hx
    next => cases hx
    next =>
      split at hx
      next =>
        split at hx
        next => cases hx
        next => exact hblock _ (by omega) hx
      next => exact hblock _ (by omega) hx

theorem vdin1Global_mem (hi : 5 * i < 2 ^ 32) (hx : x ∈ vdin1Global (BitVec.ofNat 32 i)) :
    ∃ j ≤ 5 * i / 4 + 3, x = .input j := by
  have hw0 : ((BitVec.ofNat 32 i * 5#32) >>> 2).toNat = 5 * i / 4 := by
    rw [toNat_shift_two, toNat_pairByte hi]
  have hw1 := toNat_pairWord hi (show 1 ≤ 2 by decide)
  have hw2 := toNat_pairWord hi (show 2 ≤ 2 by decide)
  simp only [vdin1Global, List.mem_append, List.mem_cons, List.not_mem_nil, or_false] at hx
  rcases hx with (rfl | rfl) | hx
  · exact ⟨_, by omega, rfl⟩
  · exact ⟨_, by omega, rfl⟩
  · split at hx
    next => cases hx
    next => exact ⟨_, by omega, List.mem_singleton.mp hx⟩

end reach

theorem amlyP010_reach : amlyP010.Reach 128 :=
  ⟨amlyLoad_mem, amlyLoad_reaches (by decide) (by decide), amlyGlobal_mem⟩

theorem amlyNv12_reach : amlyNv12.Reach 64 :=
  ⟨amlyLoad_mem, amlyLoad_reaches (by decide) (by decide), amlyGlobal_mem⟩

theorem vdin1P010_reach : vdin1P010.Reach 128 :=
  ⟨vdin1Load_mem, vdin1Load_reaches, vdin1Global_mem⟩

/-! ### Inside, but for the guard words -/

/-- The ranges, with the input rounded up to words and two words more. -/
def Ranges.guarded (ranges : Ranges) : Ranges :=
  { ranges with input := 4 * ((ranges.input + 3) / 4 + 2) }

section inside
variable {W H : Word} {f : Footprint} {threads r g l c : Nat} {x : Access}

/-- The input range in pairs. -/
theorem input_bytes (hW : W.toNat % 2 = 0) :
    W.toNat * H.toNat * 5 / 2 = 5 * (H.toNat * (W.toNat / 2)) := by
  obtain ⟨w, hw⟩ := Nat.dvd_of_mod_eq_zero hW
  rw [hw, show 2 * w * H.toNat * 5 = 2 * (5 * (H.toNat * w)) by ring, show 2 * w / 2 = w by omega]
  omega

/-- Where the words of a tile end: its bytes rounded up, and two words. -/
theorem tile_end (hr : r < H.toNat) (hg : g * 128 < W.toNat / 2)
    (hb : 5 * (W.toNat / 2) * H.toNat < 2 ^ 32) :
    (baseWordIdx (dispatchParams W H) (BitVec.ofNat 32 r) (BitVec.ofNat 32 g)).toNat
        + (nWords (dispatchParams W H) (BitVec.ofNat 32 r) (BitVec.ofNat 32 g)).toNat
      = (5 * (r * (W.toNat / 2) + g * 128 + min 128 (W.toNat / 2 - g * 128)) + 3) / 4 + 2 := by
  rw [toNat_baseWordIdx hr hg hb, toNat_nWords hr hg hb]
  omega

/-- What a tile's loader touches. -/
theorem load_inside (hf : f.Reach threads) (hW : W.toNat % 2 = 0) (ranges : Ranges)
    (hinput : ranges.input = W.toNat * H.toNat * 5 / 2) (hb : 5 * (W.toNat / 2) * H.toNat < 2 ^ 32)
    (hr : r < H.toNat) (hg : g * 128 < W.toNat / 2) {lid : Word}
    (hx : x ∈ f.load (baseWordIdx (dispatchParams W H) (BitVec.ofNat 32 r) (BitVec.ofNat 32 g))
      (nWords (dispatchParams W H) (BitVec.ofNat 32 r) (BitVec.ofNat 32 g)) lid) :
    Inside ranges.guarded x := by
  have hend := tile_end hr hg hb
  have hbyte := byte_bound hr hg
  have hn := toNat_nWords hr hg hb
  have hframe := input_bytes (H := H) hW
  rw [Nat.mul_assoc, Nat.mul_comm (W.toNat / 2)] at hbyte
  obtain ⟨i, hi, rfl | rfl⟩ := hf.load (Amly.tile_fits hr hg hb) hx
  · simp only [Inside, tileWords]
    omega
  · simp only [Inside, Ranges.guarded, hinput]
    omega

/-- What a pair's cells are. -/
theorem extract_inside (ranges : Ranges) {off : Word} (hoff : off.toNat < 4) (hl : l < 128)
    (hx : x ∈ extractAccesses (BitVec.ofNat 32 l) off) : Inside ranges x := by
  have hlid : (BitVec.ofNat 32 l).toNat = l := by
    rw [BitVec.toNat_ofNat, Nat.mod_eq_of_lt (by omega)]
  have hbyte : (off + BitVec.ofNat 32 l * 5#32).toNat = off.toNat + 5 * l := by
    rw [BitVec.toNat_add, BitVec.toNat_mul, hlid, show (5#32).toNat = 5 from rfl]
    omega
  have hword : ∀ c ≤ 2, ((off + BitVec.ofNat 32 l * 5#32) >>> 2 + BitVec.ofNat 32 c).toNat
      < tileWords := by
    intro c hc
    rw [BitVec.toNat_add, toNat_shift_two, hbyte, BitVec.toNat_ofNat,
      Nat.mod_eq_of_lt (show c < 2 ^ 32 by omega), Nat.mod_eq_of_lt (by omega), tileWords]
    omega
  have h0 := hword 0 (by decide)
  have h1 := hword 1 (by decide)
  have h2 := hword 2 (by decide)
  rw [show BitVec.ofNat 32 0 = 0#32 from rfl, BitVec.add_zero] at h0
  simp only [extractAccesses, List.mem_append, List.mem_cons, List.not_mem_nil, or_false] at hx
  rcases hx with (rfl | rfl) | hx
  · exact h0
  · exact h1
  · split at hx
    next => cases hx
    next =>
      rw [List.mem_singleton.mp hx]
      exact h2

/-- What the reader of a pair below touches. -/
theorem global_inside (hf : f.Reach threads) (hW : W.toNat % 2 = 0) (ranges : Ranges)
    (hinput : ranges.input = W.toNat * H.toNat * 5 / 2) (hb : 5 * (W.toNat / 2) * H.toNat < 2 ^ 32)
    {i : Nat} (hi : i < H.toNat * (W.toNat / 2)) (hx : x ∈ f.global (BitVec.ofNat 32 i)) :
    Inside ranges.guarded x := by
  have hframe := input_bytes (H := H) hW
  rw [Nat.mul_assoc, Nat.mul_comm (W.toNat / 2)] at hb
  obtain ⟨j, hj, rfl⟩ := hf.global (by omega) hx
  simp only [Inside, Ranges.guarded, hinput]
  omega

/-- A pair of the frame has a number that fits. -/
theorem toNat_pair (hb : 5 * (W.toNat / 2) * H.toNat < 2 ^ 32) {i : Nat}
    (hi : i < H.toNat * (W.toNat / 2)) : (BitVec.ofNat 32 i).toNat = i := by
  rw [Nat.mul_assoc, Nat.mul_comm (W.toNat / 2)] at hb
  rw [BitVec.toNat_ofNat, Nat.mod_eq_of_lt (by omega)]

theorem p010_inside (hf : f.Reach 128) (hW : W.toNat % 2 = 0) (hH : H.toNat % 2 = 0)
    (hb : 5 * (W.toNat / 2) * H.toNat < 2 ^ 32) (hr : r < H.toNat) (hg : g * 128 < W.toNat / 2)
    (hl : l < 128) (hx : x ∈ accessesAt (p010Accesses f) W H (r, g, l)) :
    Inside (p010Ranges W H).guarded x := by
  have hlid : BitVec.ofNat 32 l ≥ tilePairs (dispatchParams W H) (BitVec.ofNat 32 g) ↔
      ¬ l < min 128 (W.toNat / 2 - g * 128) := by
    rw [ge_iff_le, BitVec.le_def, toNat_tilePairs hg, BitVec.toNat_ofNat,
      Nat.mod_eq_of_lt (by omega), Nat.not_lt]
  have hoff := toNat_tileByteOffset hr hg hb
  have hframe : W.toNat * H.toNat = 2 * (H.toNat * (W.toNat / 2)) := by
    rw [Nat.mul_comm, Nat.mul_left_comm]
    congr 1
    omega
  replace hx : x ∈ p010Accesses f (dispatchParams W H) (BitVec.ofNat 32 r) (BitVec.ofNat 32 g)
    (BitVec.ofNat 32 l) := hx
  rw [p010Accesses] at hx
  split at hx
  next => cases hx
  next =>
    rcases List.mem_append.mp hx with hx | hx
    · exact load_inside hf hW _ rfl hb hr hg hx
    split at hx
    next => cases hx
    next hin =>
      rw [hlid, not_not] at hin
      have hc : g * 128 + l < W.toNat / 2 := by omega
      have hpair := pair_lt hr hc
      rw [index_eq] at hx
      rcases List.mem_append.mp hx with hx | hx
      · rcases List.mem_append.mp hx with hx | hx
        · exact extract_inside _ (by omega) hl hx
        · rw [List.mem_singleton.mp hx]
          simp only [Inside, Ranges.guarded, p010Ranges, toNat_pair hb hpair]
          omega
      · split at hx
        next heven =>
          have hnext := (next_row_iff W hr).mp heven.2
          have hbelow := pair_lt hnext hc
          rcases List.mem_append.mp hx with hx | hx
          · rw [pairsPerRow_eq, ← BitVec.ofNat_add, show r * (W.toNat / 2) + (g * 128 + l)
              + W.toNat / 2 = (r + 1) * (W.toNat / 2) + (g * 128 + l) by ring] at hx
            exact global_inside hf hW _ rfl hb hbelow hx
          · have hhalfPair := pair_lt (show r / 2 < H.toNat / 2 by omega) hc
            have hplane : H.toNat * (W.toNat / 2) = 2 * (H.toNat / 2 * (W.toNat / 2)) := by
              rw [← Nat.mul_assoc]
              congr 1
              omega
            rw [List.mem_singleton.mp hx, half_row hr, index_eq]
            simp only [Inside, Ranges.guarded, p010Ranges]
            rw [toNat_pair hb (by omega)]
            omega
        next => cases hx

/-- The frame in pairs, and a row in pairs. -/
theorem pixels_eq (hW : W.toNat % 2 = 0) (a : Nat) : a * W.toNat = 2 * (a * (W.toNat / 2)) := by
  rw [Nat.mul_left_comm]
  congr 1
  omega

theorem toNat_nv12Index (hW : W.toNat % 2 = 0) (hb : 5 * (W.toNat / 2) * H.toNat < 2 ^ 32)
    (hr : r < H.toNat) (hc : c < W.toNat / 2) :
    ((BitVec.ofNat 32 r * (dispatchParams W H).width + BitVec.ofNat 32 (2 * c)) >>> 2).toNat
      = (r * (W.toNat / 2) + c) / 2 := by
  have hpair := pair_lt hr hc
  rw [Nat.mul_assoc, Nat.mul_comm (W.toNat / 2)] at hb
  rw [← Nv12.localPairA_eq, Nv12.toNat_offset (by rw [pixels_eq hW]; omega), pixels_eq hW]
  omega

theorem nv12_inside (hW : W.toNat % 2 = 0) (hH : H.toNat % 2 = 0)
    (hb : 5 * (W.toNat / 2) * H.toNat < 2 ^ 32) (hr : r < H.toNat) (hg : g * 128 < W.toNat / 2)
    (hl : l < 64) (hx : x ∈ accessesAt (nv12Accesses amlyNv12) W H (r, g, l))
    (huv : H.toNat * (W.toNat / 2) % 4 = 0 ∨ ∀ j, x ≠ .uv j) :
    Inside (nv12Ranges W H).guarded x := by
  have hoff := toNat_tileByteOffset hr hg hb
  have hframe : W.toNat * H.toNat = 2 * (H.toNat * (W.toNat / 2)) := by
    rw [Nat.mul_comm, pixels_eq hW]
  have hplane : H.toNat * (W.toNat / 2) = 2 * (H.toNat / 2 * (W.toNat / 2)) := by
    rw [← Nat.mul_assoc]
    congr 1
    omega
  replace hx : x ∈ nv12Accesses amlyNv12 (dispatchParams W H) (BitVec.ofNat 32 r)
    (BitVec.ofNat 32 g) (BitVec.ofNat 32 l) := hx
  simp only [nv12Accesses, Nv12.localPairA_eq, Nv12.localPairB_eq, Nv12.globalPair_eq,
    Nv12.hasA_iff hg hl, Nv12.hasB_iff hg hl, if_neg (row_inside W hr)] at hx
  rcases List.mem_append.mp hx with hx | hx
  · exact load_inside amlyNv12_reach hW _ rfl hb hr hg hx
  split at hx
  next => cases hx
  next hin =>
    rw [not_not] at hin
    have hc : g * 128 + 2 * l < W.toNat / 2 := by omega
    have hpair := pair_lt hr hc
    rcases List.mem_append.mp hx with hx | hx
    · rcases List.mem_append.mp hx with hx | hx
      · rcases List.mem_append.mp hx with hx | hx
        · exact extract_inside _ (by omega) (by omega) hx
        · split at hx
          next => exact extract_inside _ (by omega) (by omega) hx
          next => cases hx
      · rw [List.mem_singleton.mp hx]
        simp only [Inside, Ranges.guarded, nv12Ranges, toNat_nv12Index hW hb hr hc]
        omega
    · split at hx
      next => cases hx
      next heven =>
        rw [not_or, ge_iff_le, BitVec.not_le, next_row_iff W hr] at heven
        rw [pairsPerRow_eq, ← BitVec.ofNat_mul, ← BitVec.ofNat_add, ← BitVec.ofNat_add] at hx
        rcases List.mem_append.mp hx with hx | hx
        · rcases List.mem_append.mp hx with hx | hx
          · have hbelow := pair_lt heven.2 hc
            rw [show r * (W.toNat / 2) + (g * 128 + 2 * l) + W.toNat / 2
              = (r + 1) * (W.toNat / 2) + (g * 128 + 2 * l) by ring] at hx
            exact global_inside amlyNv12_reach hW _ rfl hb hbelow hx
          · split at hx
            next hinB =>
              have hbelow := pair_lt heven.2 (show g * 128 + 2 * l + 1 < W.toNat / 2 by omega)
              rw [← BitVec.ofNat_add, ← BitVec.ofNat_add, show r * (W.toNat / 2)
                + (g * 128 + 2 * l) + 1 + W.toNat / 2
                = (r + 1) * (W.toNat / 2) + (g * 128 + 2 * l + 1) by ring] at hx
              exact global_inside amlyNv12_reach hW _ rfl hb hbelow hx
            next => cases hx
        · have hhalf := pair_lt (show r / 2 < H.toNat / 2 by omega) hc
          rw [half_row hr, List.mem_singleton] at hx
          have hmult := huv.resolve_right fun hne => hne _ hx
          rw [hx]
          simp only [Inside, Ranges.guarded, nv12Ranges,
            toNat_nv12Index hW hb (show r / 2 < H.toNat by omega) hc]
          omega

end inside

/-! ### Dispatches -/

section dispatch
variable {W H : Word} {f : Footprint}

/-- With two words behind the frame bound too, the P010 shaders stay inside. -/
theorem p010_staysInside_guarded (hf : f.Reach 128) (hW : W.toNat % 2 = 0) (hH : H.toNat % 2 = 0)
    (hsize : W.toNat * H.toNat * 5 / 2 < 2 ^ 32) :
    StaysInside (p010Accesses f) grid (fun W H => (p010Ranges W H).guarded) W H := by
  rintro ⟨r, g, l⟩ hv x hx
  obtain ⟨hr, hg, hl⟩ := mem_grid.mp hv
  exact p010_inside hf hW hH (frame_bytes_lt hW hsize) hr (group_start_lt hg) hl hx

/-- The last UV word of a plane that is not made of words. -/
theorem nv12_last_uv (hW : W.toNat % 2 = 0) (hH : H.toNat % 2 = 0)
    (hb : 5 * (W.toNat / 2) * H.toNat < 2 ^ 32) (hplane : H.toNat * (W.toNat / 2) % 4 ≠ 0) :
    ∃ v ∈ Nv12.grid W H, ∃ x ∈ accessesAt (nv12Accesses amlyNv12) W H v,
      ¬ Inside (nv12Ranges W H).guarded x := by
  have hhalf : H.toNat * (W.toNat / 2) = 2 * (H.toNat / 2 * (W.toNat / 2)) := by
    rw [← Nat.mul_assoc]
    congr 1
    omega
  have hodd : H.toNat / 2 * (W.toNat / 2) % 2 = 1 := by omega
  obtain ⟨hrows, hpairs⟩ := Nat.odd_mul.mp (Nat.odd_iff.mpr hodd)
  rw [Nat.odd_iff] at hrows hpairs
  have hframe : W.toNat * H.toNat = 2 * (H.toNat * (W.toNat / 2)) := by
    rw [Nat.mul_comm, pixels_eq hW]
  generalize hc : W.toNat / 2 - 1 = c
  have hr : H.toNat - 2 < H.toNat := by omega
  have hcw : c < W.toNat / 2 := by omega
  have hg : c / 128 * 128 < W.toNat / 2 := by omega
  have hin : 2 * (c % 128 / 2) < min 128 (W.toNat / 2 - c / 128 * 128) := by omega
  have hlast : (H.toNat / 2 - 1) * (W.toNat / 2) + c + 1 = H.toNat / 2 * (W.toNat / 2) := by
    rw [← hc, Nat.sub_mul]
    have hle : W.toNat / 2 ≤ H.toNat / 2 * (W.toNat / 2) :=
      Nat.le_mul_of_pos_left _ (by omega)
    omega
  have heven : ¬ (BitVec.ofNat 32 (H.toNat - 2) &&& 1#32 ≠ 0#32 ∨
      BitVec.ofNat 32 (H.toNat - 2) + 1#32 ≥ (dispatchParams W H).height) := by
    rw [not_or, not_not, even_row hr, ge_iff_le, BitVec.not_le, next_row_iff W hr]
    omega
  refine ⟨_, Nv12.thread_mem hr hcw,
    Access.uv (((H.toNat / 2 - 1) * (W.toNat / 2) + c) / 2), ?_, ?_⟩
  · have hidx := toNat_nv12Index (H := H) (r := H.toNat / 2 - 1) hW hb (by omega) hcw
    simp only [accessesAt, nv12Accesses, Nv12.localPairA_eq, Nv12.localPairB_eq,
      Nv12.globalPair_eq, Nv12.hasA_iff hg (show c % 128 / 2 < 64 by omega),
      if_neg (row_inside W hr), hin, not_true_eq_false, if_false, if_neg heven, half_row hr,
      List.mem_append]
    refine Or.inr (Or.inr (Or.inr (List.mem_singleton.mpr ?_)))
    rw [← hidx, show c / 128 * 128 + 2 * (c % 128 / 2) = c by omega,
      show (H.toNat - 2) / 2 = H.toNat / 2 - 1 by omega]
  · simp only [Inside, Ranges.guarded, nv12Ranges]
    omega

/-- With two words behind the frame bound too, the NV12 shader stays inside exactly if its UV plane
    is made of words. -/
theorem nv12_staysInside_guarded_iff (hW : W.toNat % 2 = 0) (hH : H.toNat % 2 = 0)
    (hsize : W.toNat * H.toNat * 5 / 2 < 2 ^ 32) :
    StaysInside (nv12Accesses amlyNv12) Nv12.grid (fun W H => (nv12Ranges W H).guarded) W H ↔
      H.toNat * (W.toNat / 2) % 4 = 0 := by
  have hb := frame_bytes_lt hW hsize
  constructor
  · intro hin
    by_contra hplane
    obtain ⟨v, hv, x, hx, hout⟩ := nv12_last_uv hW hH hb hplane
    exact hout (hin v hv x hx)
  · rintro hplane ⟨r, g, l⟩ hv x hx
    obtain ⟨hr, hg, hl⟩ := Nv12.mem_grid.mp hv
    exact nv12_inside hW hH hb hr (group_start_lt hg) hl hx (Or.inl hplane)

/-- The loader of the last tile reads a word behind the frame. -/
theorem last_tile_overreads {threads : Nat} (hf : f.Reach threads) (hW : W.toNat % 2 = 0)
    (hb : 5 * (W.toNat / 2) * H.toNat < 2 ^ 32) (hpairs : 0 < W.toNat / 2) (hrows : 0 < H.toNat) :
    ∃ r < H.toNat, ∃ g < (groupsX W).toNat, ∃ l < threads, ∃ j,
      ¬ 4 * (j + 1) ≤ W.toNat * H.toNat * 5 / 2 ∧
        .input j ∈ f.load
          (baseWordIdx (dispatchParams W H) (BitVec.ofNat 32 r) (BitVec.ofNat 32 g))
          (nWords (dispatchParams W H) (BitVec.ofNat 32 r) (BitVec.ofNat 32 g))
          (BitVec.ofNat 32 l) := by
  have hr : H.toNat - 1 < H.toNat := by omega
  have hg : (W.toNat / 2 - 1) / 128 * 128 < W.toNat / 2 := by omega
  have hgroup : (W.toNat / 2 - 1) / 128 < (groupsX W).toNat := by
    rw [toNat_groupsX]
    omega
  have hend := tile_end hr hg hb
  have hlast : (H.toNat - 1) * (W.toNat / 2) + (W.toNat / 2 - 1) / 128 * 128
      + min 128 (W.toNat / 2 - (W.toNat / 2 - 1) / 128 * 128) = H.toNat * (W.toNat / 2) := by
    have hle : W.toNat / 2 ≤ H.toNat * (W.toNat / 2) := Nat.le_mul_of_pos_left _ hrows
    rw [Nat.sub_mul]
    omega
  have hn := toNat_nWords hr hg hb
  obtain ⟨l, hl, j, hj, hmem⟩ := hf.reaches (Amly.tile_fits hr hg hb) (by omega)
  refine ⟨_, hr, _, hgroup, l, hl, j, ?_, hmem⟩
  rw [hend, hlast] at hj
  rw [input_bytes hW]
  omega

theorem p010_staysInside_iff (hf : f.Reach 128) (hW : W.toNat % 2 = 0)
    (hsize : W.toNat * H.toNat * 5 / 2 < 2 ^ 32) :
    StaysInside (p010Accesses f) grid p010Ranges W H ↔ W.toNat = 0 ∨ H.toNat = 0 := by
  constructor
  · intro hin
    by_contra hne
    obtain ⟨r, hr, g, hg, l, hl, j, hout, hmem⟩ :=
      last_tile_overreads hf hW (frame_bytes_lt hW hsize) (by omega) (show 0 < H.toNat by omega)
    refine hout (hin (r, g, l) (mem_grid.mpr ⟨hr, hg, hl⟩) (.input j) ?_)
    simp only [accessesAt, p010Accesses, if_neg (row_inside W hr)]
    exact List.mem_append_left _ hmem
  · rintro hempty ⟨r, g, l⟩ hv
    obtain ⟨hr, hg, -⟩ := mem_grid.mp hv
    have hstart := group_start_lt hg
    omega

theorem nv12_staysInside_iff (hW : W.toNat % 2 = 0) (hsize : W.toNat * H.toNat * 5 / 2 < 2 ^ 32) :
    StaysInside (nv12Accesses amlyNv12) Nv12.grid nv12Ranges W H ↔
      W.toNat = 0 ∨ H.toNat = 0 := by
  constructor
  · intro hin
    by_contra hne
    obtain ⟨r, hr, g, hg, l, hl, j, hout, hmem⟩ := last_tile_overreads amlyNv12_reach hW
      (frame_bytes_lt hW hsize) (by omega) (show 0 < H.toNat by omega)
    refine hout (hin (r, g, l) (Nv12.mem_grid.mpr ⟨hr, hg, hl⟩) (.input j) ?_)
    exact List.mem_append_left _ hmem
  · rintro hempty ⟨r, g, l⟩ hv
    obtain ⟨hr, hg, -⟩ := Nv12.mem_grid.mp hv
    have hstart := group_start_lt hg
    omega

end dispatch

/-- The shaders stay inside their ranges exactly if there is no frame to convert. It is the guard
    words that are outside, and of an NV12 frame the last UV word if the plane is not made of words.
    -/
theorem shaders_stay_inside_iff (W H : Word) (hW : W.toNat % 2 = 0) (hH : H.toNat % 2 = 0)
    (hsize : W.toNat * H.toNat * 5 / 2 < 2 ^ 32) :
    ((StaysInside (p010Accesses amlyP010) grid p010Ranges W H ∧
      StaysInside (nv12Accesses amlyNv12) Nv12.grid nv12Ranges W H ∧
      StaysInside (p010Accesses vdin1P010) grid p010Ranges W H) ↔
        W.toNat = 0 ∨ H.toNat = 0) ∧
    StaysInside (p010Accesses amlyP010) grid (fun W H => (p010Ranges W H).guarded) W H ∧
    (StaysInside (nv12Accesses amlyNv12) Nv12.grid (fun W H => (nv12Ranges W H).guarded) W H ↔
      H.toNat * (W.toNat / 2) % 4 = 0) ∧
    StaysInside (p010Accesses vdin1P010) grid (fun W H => (p010Ranges W H).guarded) W H := by
  refine ⟨?_, p010_staysInside_guarded amlyP010_reach hW hH hsize,
    nv12_staysInside_guarded_iff hW hH hsize, p010_staysInside_guarded vdin1P010_reach hW hH hsize⟩
  rw [p010_staysInside_iff amlyP010_reach hW hsize, nv12_staysInside_iff hW hsize,
    p010_staysInside_iff vdin1P010_reach hW hsize, and_self, and_self]

/-- Not at 1920×1080. -/
theorem not_inside_1080p :
    ¬ (StaysInside (p010Accesses amlyP010) grid p010Ranges 1920#32 1080#32 ∧
      StaysInside (nv12Accesses amlyNv12) Nv12.grid nv12Ranges 1920#32 1080#32 ∧
      StaysInside (p010Accesses vdin1P010) grid p010Ranges 1920#32 1080#32) := by
  have hiff := shaders_stay_inside_iff 1920#32 1080#32 (by decide) (by decide) (by decide)
  intro hin
  exact absurd (hiff.1.mp hin) (by decide)

/-- Thread 40 of the last tile there reads the first word behind the frame. -/
theorem overread_1080p :
    (1079, 7, 40) ∈ grid 1920#32 1080#32 ∧
      Access.input 1296000 ∈ accessesAt (p010Accesses amlyP010) 1920#32 1080#32 (1079, 7, 40) ∧
      ¬ Inside (p010Ranges 1920#32 1080#32) (.input 1296000) := by
  refine ⟨mem_grid.mpr (by decide), by decide +kernel, ?_⟩
  simp only [Inside, p010Ranges]
  decide

end Streambox.Shader.Bounds
