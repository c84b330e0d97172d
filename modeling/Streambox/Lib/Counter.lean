import Mathlib.Data.List.Nodup
import Mathlib.Logic.Function.Iterate

/-! Numbers from a counter of 32 bits with a sign.

    Who wants a number gets the counter's, and the counter goes on by one. Behind the last number
    comes the first negative one, and after all of them they come again: numbers that are handed out
    are different as long as there are no more than there are values. -/

namespace Streambox.Lib

/-- The counter goes on. -/
def countUp (n : Int) : Int := (n + 1).bmod 4294967296

/-- The counter that began at `first`, after so many numbers. -/
def counted (first : Int) (k : Nat) : Int := (first + k).bmod 4294967296

/-- What has been handed out, from the first number on. -/
def Numbered (first : Int) (numbers : List Int) : Prop :=
  numbers = (List.range numbers.length).map (counted first)

variable {first : Int}

theorem countUp_counted (k : Nat) : countUp (counted first k) = counted first (k + 1) := by
  rw [countUp, counted, counted, Int.bmod_add_bmod]
  congr 1
  push_cast
  omega

theorem countUp_iterate (i k : Nat) : countUp^[k] (counted first i) = counted first (i + k) := by
  induction k generalizing i with
  | zero => rfl
  | succ k ih =>
    rw [Function.iterate_succ_apply, countUp_counted, ih]
    congr 1
    omega

theorem counted_of_lt {k : Nat} (hfirst : -2147483648 ≤ first) (hk : first + k < 2147483648) :
    counted first k = first + k :=
  Int.bmod_eq_of_le (by omega) (by omega)

theorem counted_inj {i j : Nat} (hi : i < 4294967296) (hj : j < 4294967296)
    (h : counted first i = counted first j) : i = j := by
  rw [counted, counted, Int.bmod_add_cancel_left] at h
  have hmod : (i : Int) % (4294967296 : Nat) = j % (4294967296 : Nat) := by
    rw [← Int.bmod_emod, h, Int.bmod_emod]
  omega

theorem numbered_nil : Numbered first [] := rfl

theorem Numbered.concat {numbers : List Int} (h : Numbered first numbers) :
    Numbered first (numbers ++ [counted first numbers.length]) := by
  rw [Numbered, List.length_append, List.length_singleton, List.range_succ, List.map_append, ← h]
  rfl

/-- No number is handed out twice. -/
theorem Numbered.nodup {numbers : List Int} (h : Numbered first numbers)
    (hle : numbers.length ≤ 4294967296) : numbers.Nodup := by
  rw [h]
  refine List.Nodup.map_on (fun i hi j hj heq => ?_) List.nodup_range
  rw [List.mem_range] at hi hj
  exact counted_inj (by omega) (by omega) heq

/-- The next number is a new one. -/
theorem Numbered.fresh {numbers : List Int} (h : Numbered first numbers)
    (hlt : numbers.length < 4294967296) : counted first numbers.length ∉ numbers := by
  have hnodup := h.concat.nodup (by rw [List.length_append, List.length_singleton]; omega)
  exact fun hmem => List.disjoint_of_nodup_append hnodup hmem (List.mem_singleton_self _)

/-- While the counter has not come to its end the next number is the greatest. -/
theorem Numbered.lt {numbers : List Int} (h : Numbered first numbers)
    (hfirst : -2147483648 ≤ first) (hfew : first + numbers.length < 2147483648) {n : Int}
    (hn : n ∈ numbers) : n < counted first numbers.length := by
  rw [h] at hn
  obtain ⟨k, hk, rfl⟩ := List.mem_map.mp hn
  rw [List.mem_range] at hk
  rw [counted_of_lt hfirst (by omega), counted_of_lt hfirst hfew]
  omega

end Streambox.Lib
