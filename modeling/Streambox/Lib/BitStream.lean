import Mathlib

/-! Unaligned reads from a buffer of 32-bit little-endian words.

    A buffer is a function from word index to word, and it is also one long stream of bits: bit `n`
    of the stream is bit `n % 32` of word `n / 32`. A funnel shift — the low part of one word glued
    to the high part of the one before it — is a window on that stream, so a reader that gathers a
    40-bit group from two or three neighbouring words reads the 40 stream bits at the group's byte
    offset, whatever the third word holds. Every packed-pixel reader is compared with the stream
    through `getLsbD_funnelLo` and `getLsbD_funnelHi`. -/

namespace Streambox.Lib

abbrev Byte := BitVec 8
abbrev Word := BitVec 32

/-- A word buffer. Indices past the end of the real buffer hold arbitrary padding. -/
abbrev Words := Nat → Word

/-- Bit `n` of the stream a word buffer stands for. -/
def bitAt (w : Words) (n : Nat) : Bool := (w (n / 32)).getLsbD (n % 32)

/-- Byte `k` of the stream a word buffer stands for. -/
def byteAt (w : Words) (k : Nat) : Byte := (w (k / 4)).extractLsb' (8 * (k % 4)) 8

/-- The four bytes at positions `4j .. 4j+3`, byte `4j` lowest. -/
def wordOf (s : Nat → Byte) (j : Nat) : Word :=
  (s (4 * j)).setWidth 32 ||| ((s (4 * j + 1)).setWidth 32 <<< 8) |||
    ((s (4 * j + 2)).setWidth 32 <<< 16) ||| ((s (4 * j + 3)).setWidth 32 <<< 24)

theorem getLsbD_byteAt (w : Words) (k i : Nat) (hi : i < 8) :
    (byteAt w k).getLsbD i = bitAt w (8 * k + i) := by
  have hdiv : (8 * k + i) / 32 = k / 4 := by omega
  have hmod : (8 * k + i) % 32 = 8 * (k % 4) + i := by omega
  simp [byteAt, bitAt, hi, hdiv, hmod]

/-- A word assembled from bytes has the bytes' bits. -/
theorem getLsbD_wordOf (s : Nat → Byte) (j i : Nat) (hi : i < 32) :
    (wordOf s j).getLsbD i = (s (4 * j + i / 8)).getLsbD (i % 8) := by
  have hcase : i < 8 ∨ (8 ≤ i ∧ i < 16) ∨ (16 ≤ i ∧ i < 24) ∨ (24 ≤ i ∧ i < 32) := by omega
  simp only [wordOf, BitVec.getLsbD_or, BitVec.getLsbD_shiftLeft, BitVec.getLsbD_setWidth]
  rcases hcase with h | h | h | h
  · rw [show i / 8 = 0 by omega, show i % 8 = i by omega]
    simp [hi, show i < 16 by omega, show i < 24 by omega, h]
  · rw [show i / 8 = 1 by omega, show i % 8 = i - 8 by omega]
    simp [hi, show ¬ i < 8 by omega, show i < 16 by omega, show i < 24 by omega,
      show i - 8 < 32 by omega, BitVec.getLsbD_of_ge (s (4 * j)) i (by omega)]
  · rw [show i / 8 = 2 by omega, show i % 8 = i - 16 by omega]
    simp [hi, show ¬ i < 8 by omega, show ¬ i < 16 by omega, show i < 24 by omega,
      show i - 8 < 32 by omega, show i - 16 < 32 by omega,
      BitVec.getLsbD_of_ge (s (4 * j)) i (by omega),
      BitVec.getLsbD_of_ge (s (4 * j + 1)) (i - 8) (by omega)]
  · rw [show i / 8 = 3 by omega, show i % 8 = i - 24 by omega]
    simp [hi, show ¬ i < 8 by omega, show ¬ i < 16 by omega, show ¬ i < 24 by omega,
      show i - 8 < 32 by omega, show i - 16 < 32 by omega, show i - 24 < 32 by omega,
      BitVec.getLsbD_of_ge (s (4 * j)) i (by omega),
      BitVec.getLsbD_of_ge (s (4 * j + 1)) (i - 8) (by omega),
      BitVec.getLsbD_of_ge (s (4 * j + 2)) (i - 16) (by omega)]

/-- The stream of a buffer assembled from bytes is the stream of the bytes. -/
theorem bitAt_wordOf (s : Nat → Byte) (n : Nat) :
    bitAt (wordOf s) n = (s (n / 8)).getLsbD (n % 8) := by
  rw [bitAt, getLsbD_wordOf _ _ _ (by omega)]
  rw [show 4 * (n / 32) + n % 32 / 8 = n / 8 by omega, show n % 32 % 8 = n % 8 by omega]

/-- Assembling bytes and taking them apart again. -/
theorem byteAt_wordOf (s : Nat → Byte) (k : Nat) : byteAt (wordOf s) k = s k := by
  apply BitVec.eq_of_getLsbD_eq
  intro i hi
  rw [getLsbD_byteAt _ _ _ hi, bitAt_wordOf, show (8 * k + i) / 8 = k by omega,
    show (8 * k + i) % 8 = i by omega]

/-! ### Funnel shifts -/

/-- The low 32 bits of the group at bit offset `sh` of `w0`, continued in `w1`. -/
def funnelLo (w0 w1 : Word) (sh : Nat) : Word :=
  if sh = 0 then w0 else (w0 >>> sh) ||| (w1 <<< (32 - sh))

/-- The eight bits after `funnelLo`. -/
def funnelHi (w1 w2 : Word) (sh : Nat) : Word :=
  if sh = 0 then w1 &&& 0xFF#32 else ((w1 >>> sh) ||| (w2 <<< (32 - sh))) &&& 0xFF#32

/-- Bits of a mask of `n` low ones. -/
theorem getLsbD_lowMask (n i : Nat) (hn : n ≤ 32) :
    (BitVec.ofNat 32 (2 ^ n - 1)).getLsbD i = decide (i < n) := by
  rw [BitVec.getLsbD_ofNat, Nat.testBit_two_pow_sub_one]
  by_cases h : i < n
  · simp [h, show i < 32 by omega]
  · simp [h]

theorem getLsbD_mask8 (i : Nat) : (0xFF#32).getLsbD i = decide (i < 8) :=
  getLsbD_lowMask 8 i (by omega)

theorem getLsbD_mask10 (i : Nat) : (0x3FF#32).getLsbD i = decide (i < 10) :=
  getLsbD_lowMask 10 i (by omega)

theorem getLsbD_funnelLo (w0 w1 : Word) (sh i : Nat) (hsh : sh < 32) (hi : i < 32) :
    (funnelLo w0 w1 sh).getLsbD i =
      if sh + i < 32 then w0.getLsbD (sh + i) else w1.getLsbD (sh + i - 32) := by
  unfold funnelLo
  by_cases h0 : sh = 0
  · simp [h0, hi]
  · rw [if_neg h0, BitVec.getLsbD_or, BitVec.getLsbD_ushiftRight, BitVec.getLsbD_shiftLeft]
    by_cases hlt : sh + i < 32
    · simp [hlt, hi, show i < 32 - sh by omega]
    · rw [if_neg hlt, BitVec.getLsbD_of_ge w0 (sh + i) (by omega)]
      simp [hi, show ¬ i < 32 - sh by omega, show i - (32 - sh) = sh + i - 32 by omega]

/-- The third word never contributes: a shift is at most 24, so its bits land above bit 7. -/
theorem getLsbD_funnelHi (w1 w2 : Word) (sh i : Nat) (hsh : sh ≤ 24) :
    (funnelHi w1 w2 sh).getLsbD i = (decide (i < 8) && w1.getLsbD (sh + i)) := by
  unfold funnelHi
  by_cases h0 : sh = 0
  · rw [if_pos h0, BitVec.getLsbD_and, getLsbD_mask8, h0, Nat.zero_add, Bool.and_comm]
  · rw [if_neg h0, BitVec.getLsbD_and, getLsbD_mask8, BitVec.getLsbD_or,
      BitVec.getLsbD_ushiftRight, BitVec.getLsbD_shiftLeft]
    by_cases hi : i < 8
    · simp [hi, show i < 32 - sh by omega]
    · simp [hi]

/-- The two halves of the group at byte `b`, from the words that hold it. -/
def readGroup (w : Words) (b : Nat) : Word × Word :=
  (funnelLo (w (b / 4)) (w (b / 4 + 1)) (8 * (b % 4)),
   funnelHi (w (b / 4 + 1)) (w (b / 4 + 2)) (8 * (b % 4)))

theorem getLsbD_readGroup_fst (w : Words) (b i : Nat) (hi : i < 32) :
    (readGroup w b).1.getLsbD i = bitAt w (8 * b + i) := by
  rw [readGroup, getLsbD_funnelLo _ _ _ _ (by omega) hi, bitAt]
  by_cases h : 8 * (b % 4) + i < 32
  · rw [if_pos h, show (8 * b + i) / 32 = b / 4 by omega,
      show (8 * b + i) % 32 = 8 * (b % 4) + i by omega]
  · rw [if_neg h, show (8 * b + i) / 32 = b / 4 + 1 by omega,
      show (8 * b + i) % 32 = 8 * (b % 4) + i - 32 by omega]

theorem getLsbD_readGroup_snd (w : Words) (b i : Nat) :
    (readGroup w b).2.getLsbD i = (decide (i < 8) && bitAt w (8 * b + 32 + i)) := by
  rw [readGroup, getLsbD_funnelHi _ _ _ _ (by omega), bitAt]
  by_cases h : i < 8
  · rw [show (8 * b + 32 + i) / 32 = b / 4 + 1 by omega,
      show (8 * b + 32 + i) % 32 = 8 * (b % 4) + i by omega]
  · simp [h]

/-- The third word never contributes. -/
theorem funnelHi_third (w1 w2 w2' : Word) {sh : Nat} (hsh : sh ≤ 24) :
    funnelHi w1 w2 sh = funnelHi w1 w2' sh := by
  apply BitVec.eq_of_getLsbD_eq
  intro i _
  rw [getLsbD_funnelHi _ _ _ _ hsh, getLsbD_funnelHi _ _ _ _ hsh]

/-! ### Stores

    Stores that do not contradict each other leave the same memory in whatever order they are
    made. -/

section Stores
variable {α β : Type} [DecidableEq α]

/-- A memory after stores, the first one made first. -/
def storeAll (m : α → β) (stores : List (α × β)) : α → β :=
  stores.foldl (fun m s => Function.update m s.1 s.2) m

theorem storeAll_append (m : α → β) (a b : List (α × β)) :
    storeAll m (a ++ b) = storeAll (storeAll m a) b :=
  List.foldl_append

/-- If every store to an address stores what `f` says, the memory is `f` where it was stored to. -/
theorem storeAll_of_agree {f : α → β} {stores : List (α × β)} (m : α → β)
    (h : ∀ s ∈ stores, s.2 = f s.1) (x : α) :
    storeAll m stores x = if x ∈ stores.map Prod.fst then f x else m x := by
  induction stores generalizing m with
  | nil => rfl
  | cons s stores ih =>
    have hs := h s (List.mem_cons_self ..)
    have hrest := ih (Function.update m s.1 s.2) fun t ht => h t (List.mem_cons_of_mem _ ht)
    rw [storeAll, List.foldl_cons, ← storeAll, hrest, List.map_cons]
    by_cases hx : x = s.1
    · subst hx
      simp [hs]
    · rw [Function.update_of_ne hx]
      exact if_congr (by rw [List.mem_cons, or_iff_right hx]) rfl rfl

/-- Stores to other addresses leave an address alone. -/
theorem storeAll_of_notMem {stores : List (α × β)} (m : α → β) {x : α}
    (h : ∀ s ∈ stores, s.1 ≠ x) : storeAll m stores x = m x := by
  induction stores generalizing m with
  | nil => rfl
  | cons s stores ih =>
    have hs := h s (List.mem_cons_self ..)
    rw [storeAll, List.foldl_cons, ← storeAll, ih _ fun t ht => h t (List.mem_cons_of_mem _ ht),
      Function.update_of_ne hs.symm]

/-- The last store to an address is what is found there. -/
theorem storeAll_last (m : α → β) (before after : List (α × β)) (s : α × β)
    (h : ∀ t ∈ after, t.1 ≠ s.1) : storeAll m (before ++ s :: after) s.1 = s.2 := by
  rw [storeAll_append, storeAll, List.foldl_cons, ← storeAll, storeAll_of_notMem _ h,
    Function.update_self]

end Stores

end Streambox.Lib
