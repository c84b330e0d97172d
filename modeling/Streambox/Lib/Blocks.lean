import Mathlib

/-! Cutting an index range into blocks, the way a dispatch grid cuts an image into tiles and rows.

    A grid of blocks of size `b` covers `0 .. n-1` once: walking the blocks in order and, inside
    each, the part that still lies below `n`, walks `List.range n`. The row-major walk of an image
    is the same fact with full blocks. -/

namespace Streambox.Lib

/-- Walking `g` blocks of size `b`, each clipped to `n`, is walking the first `g * b` indices. -/
theorem flatMap_clipped_blocks (b n : Nat) : ∀ g : Nat,
    (List.range g).flatMap (fun t => (List.range (min b (n - t * b))).map (t * b + ·))
      = List.range (min n (g * b))
  | 0 => by simp
  | g + 1 => by
    rw [List.range_succ, List.flatMap_append, flatMap_clipped_blocks b n g, List.flatMap_singleton]
    by_cases h : n ≤ g * b
    · have hge : n ≤ (g + 1) * b := le_trans h (Nat.mul_le_mul_right b (Nat.le_succ g))
      simp [Nat.min_eq_left h, Nat.min_eq_left hge, Nat.sub_eq_zero_of_le h]
    · rw [Nat.min_eq_right (by omega), ← List.range_add]
      congr 1
      rw [Nat.succ_mul]; omega

/-- Enough blocks of size `b` cover the whole range. -/
theorem flatMap_blocks {b n g : Nat} (hg : n ≤ g * b) :
    (List.range g).flatMap (fun t => (List.range (min b (n - t * b))).map (t * b + ·))
      = List.range n := by
  rw [flatMap_clipped_blocks, Nat.min_eq_left hg]

/-- Row-major walk: `h` rows of `p` columns. -/
theorem flatMap_rows (p : Nat) : ∀ h : Nat,
    (List.range h).flatMap (fun r => (List.range p).map (r * p + ·)) = List.range (h * p)
  | 0 => by simp
  | h + 1 => by
    rw [List.range_succ, List.flatMap_append, flatMap_rows p h, List.flatMap_singleton,
      ← List.range_add, Nat.succ_mul]

/-- A row-major walk that visits only the even rows of `2 * m` rows. -/
theorem flatMap_even_rows {α : Type} (p : Nat) (f : Nat → Nat → α) : ∀ m : Nat,
    (List.range (2 * m)).flatMap
        (fun r => if r % 2 = 0 then (List.range p).map (fun c => f r c) else [])
      = (List.range m).flatMap (fun q => (List.range p).map (fun c => f (2 * q) c))
  | 0 => by simp
  | m + 1 => by
    rw [show 2 * (m + 1) = 2 * m + 1 + 1 by ring, List.range_succ, List.range_succ,
      List.range_succ (n := m)]
    simp only [List.flatMap_append, List.flatMap_singleton, flatMap_even_rows p f m]
    simp [show (2 * m + 1) % 2 = 1 by omega]

/-- A walk of `n` indices that acts only below `m` is a walk of `m` indices. -/
theorem flatMap_clip {α : Type} {m n : Nat} (h : m ≤ n) (f : Nat → List α) :
    ((List.range n).flatMap fun l => if l < m then f l else []) = (List.range m).flatMap f := by
  obtain ⟨e, he⟩ := Nat.exists_eq_add_of_le h
  subst he
  rw [List.range_add, List.flatMap_append, List.flatMap_map]
  have hlow : ((List.range m).flatMap fun l => if l < m then f l else [])
      = (List.range m).flatMap f :=
    List.flatMap_congr fun l hl => if_pos (List.mem_range.mp hl)
  rw [hlow]
  simp

/-- Ceiling division gives enough blocks. -/
theorem le_ceil_blocks (n : Nat) {b : Nat} (hb : 0 < b) : n ≤ (n + (b - 1)) / b * b := by
  have hdm := Nat.div_add_mod (n + (b - 1)) b
  have hlt := Nat.mod_lt (n + (b - 1)) hb
  rw [Nat.mul_comm] at hdm
  omega

/-- A block that starts below `n` in a ceiling division grid. -/
theorem block_start_lt {n b t : Nat} (hb : 0 < b) (ht : t < (n + (b - 1)) / b) : t * b < n := by
  have h := (Nat.le_div_iff_mul_le hb).mp (Nat.succ_le_of_lt ht)
  rw [Nat.succ_mul] at h
  omega

end Streambox.Lib
