import Mathlib.Data.List.Basic
import Mathlib.Algebra.Order.Group.Nat

/-! Points on a line that keep a distance.

    Each point comes with the place it was meant for. If the places are a step apart and no point is
    off its place by more than a step altogether, then a window of the line holds one point per step
    and two more. -/

namespace Streambox.Lib

/-- A point and its place. -/
structure Placed where
  place : Nat
  point : Nat
  deriving DecidableEq, Repr

/-- Every place is a step behind the ones before it. -/
def Spaced (distance : Nat) (L : List Placed) : Prop :=
  L.Pairwise fun p q => p.place + distance ≤ q.place

variable {distance early late : Nat} {L : List Placed}

theorem Spaced.place_le {p q : Placed} (h : Spaced distance (p :: L)) (hq : q ∈ (p :: L).getLast?) :
    p.place + L.length * distance ≤ q.place := by
  induction L generalizing p with
  | nil =>
    cases hq
    simp
  | cons r L ih =>
    obtain ⟨hall, htail⟩ := List.pairwise_cons.mp h
    have hnext := hall r (by simp)
    have hlast := ih htail (by simpa using hq)
    rw [List.length_cons, Nat.succ_mul]
    omega

/-- The points of a window: one for each step, and two more. -/
theorem Spaced.count_window (h : Spaced distance L) (hpos : 0 < distance)
    (hearly : ∀ p ∈ L, p.place ≤ p.point + early) (hlate : ∀ p ∈ L, p.point ≤ p.place + late)
    (hoff : early + late ≤ distance) (a b : Nat) :
    L.countP (fun p => a ≤ p.point ∧ p.point ≤ b) ≤ (b - a) / distance + 2 := by
  rw [List.countP_eq_length_filter]
  have hsub := List.filter_sublist (p := fun p : Placed => decide (a ≤ p.point ∧ p.point ≤ b))
    (l := L)
  have hwindow : ∀ p ∈ L.filter (fun p => decide (a ≤ p.point ∧ p.point ≤ b)),
      p ∈ L ∧ a ≤ p.point ∧ p.point ≤ b := by
    intro p hp
    simpa using List.mem_filter.mp hp
  have hspaced : Spaced distance (L.filter fun p => decide (a ≤ p.point ∧ p.point ≤ b)) :=
    List.Pairwise.sublist hsub h
  generalize L.filter (fun p => decide (a ≤ p.point ∧ p.point ≤ b)) = F at hwindow hspaced
  cases F with
  | nil => simp
  | cons p F =>
    obtain ⟨q, hq⟩ : ∃ q, q ∈ (p :: F).getLast? := ⟨_, List.getLast?_cons ..⟩
    have hfar := hspaced.place_le hq
    obtain ⟨hpL, hpa, -⟩ := hwindow p (by simp)
    obtain ⟨hqL, -, hqb⟩ := hwindow q (List.mem_of_getLast? hq)
    have hp := hlate p hpL
    have hq := hearly q hqL
    -- from the first place to the last, both inside the window up to their offsets
    have hsteps : F.length * distance ≤ (b - a) + distance := by omega
    have hle : F.length ≤ (b - a) / distance + 1 := by
      rw [← Nat.add_div_right _ hpos]
      exact (Nat.le_div_iff_mul_le hpos).mpr hsteps
    rw [List.length_cons]
    omega

end Streambox.Lib
