import Mathlib.Data.List.Basic
import Mathlib.Data.List.Count

/-! Brackets of several kinds.

    A log of brackets that are opened and closed, each under a key. It is balanced if under each key
    as many are closed as are opened, and none is closed before it is opened. Brackets under different
    keys need not be nested. -/

namespace Streambox.Lib

/-- A bracket under a key, opened or closed. -/
inductive Bracket (κ : Type*)
  | start (k : κ)
  | stop (k : κ)
  deriving DecidableEq, Repr

namespace Bracket
variable {κ : Type*}

/-- A prefix of two logs ends in the first or in the second. -/
theorem ends_in {l m p : List (Bracket κ)} (h : p <+: l ++ m) :
    p <+: l ∨ ∃ q, p = l ++ q ∧ q <+: m := by
  rcases Nat.le_total p.length l.length with hle | hle
  · exact .inl (List.prefix_of_prefix_length_le h (List.prefix_append l m) hle)
  · obtain ⟨q, rfl⟩ := List.prefix_of_prefix_length_le (List.prefix_append l m) h hle
    exact .inr ⟨q, rfl, (List.prefix_append_right_inj l).mp h⟩

variable [DecidableEq κ] {l m : List (Bracket κ)} {k : κ}

/-- Every bracket that is opened is closed, and after it was opened. -/
structure Balanced (l : List (Bracket κ)) : Prop where
  even : ∀ k, l.count (.stop k) = l.count (.start k)
  follows : ∀ before, before <+: l → ∀ k, before.count (.stop k) ≤ before.count (.start k)

theorem balanced_nil : Balanced ([] : List (Bracket κ)) := by
  refine ⟨fun _ => rfl, fun before h k => ?_⟩
  rw [List.prefix_nil.mp h]
  exact Nat.le_refl 0

/-- After a balanced log only what follows matters. -/
theorem Balanced.append_iff (h : Balanced l) : Balanced (l ++ m) ↔ Balanced m := by
  constructor
  · intro hlm
    refine ⟨fun k => ?_, fun before hbefore k => ?_⟩
    · have hk := hlm.even k
      rw [List.count_append, List.count_append, h.even k] at hk
      exact Nat.add_left_cancel hk
    · have hk := hlm.follows (l ++ before) ((List.prefix_append_right_inj l).mpr hbefore) k
      rw [List.count_append, List.count_append, h.even k] at hk
      exact Nat.le_of_add_le_add_left hk
  · intro hm
    refine ⟨fun k => ?_, fun before hbefore k => ?_⟩
    · rw [List.count_append, List.count_append, h.even k, hm.even k]
    · rcases ends_in hbefore with hl | ⟨q, rfl, hq⟩
      · exact h.follows before hl k
      · rw [List.count_append, List.count_append, h.even k]
        exact Nat.add_le_add_left (hm.follows q hq k) _

theorem count_start_starts (ks : List κ) : (ks.map start).count (start k) = ks.count k :=
  List.count_map_of_injective ks start (fun _ _ h => by cases h; rfl) k

theorem count_stop_stops (ks : List κ) : (ks.map stop).count (stop k) = ks.count k :=
  List.count_map_of_injective ks stop (fun _ _ h => by cases h; rfl) k

theorem count_stop_starts (ks : List κ) : (ks.map start).count (stop k) = 0 := by
  refine List.count_eq_zero.mpr fun h => ?_
  obtain ⟨k', -, hk'⟩ := List.mem_map.mp h
  cases hk'

theorem count_start_stops (ks : List κ) : (ks.map stop).count (start k) = 0 := by
  refine List.count_eq_zero.mpr fun h => ?_
  obtain ⟨k', -, hk'⟩ := List.mem_map.mp h
  cases hk'

/-- Some brackets are opened, and then the same are closed. -/
theorem balanced_starts_stops (ks : List κ) : Balanced (ks.map start ++ ks.map stop) := by
  refine ⟨fun k => ?_, fun before hbefore k => ?_⟩
  · rw [List.count_append, List.count_append, count_stop_starts, count_stop_stops,
      count_start_starts, count_start_stops, Nat.zero_add, Nat.add_zero]
  · rcases ends_in hbefore with hstarts | ⟨q, rfl, hq⟩
    · have hle := hstarts.sublist.count_le (stop k)
      rw [count_stop_starts] at hle
      exact Nat.le_trans hle (Nat.zero_le _)
    · rw [List.count_append, List.count_append, count_stop_starts, count_start_starts, Nat.zero_add]
      have hle := hq.sublist.count_le (stop k)
      rw [count_stop_stops] at hle
      exact Nat.le_trans hle (Nat.le_add_right _ _)

/-- Brackets that are opened and not closed. -/
theorem not_balanced_starts (k : κ) (ks : List κ) : ¬ Balanced ((k :: ks).map start) := by
  intro h
  have hk := h.even k
  rw [count_stop_starts, count_start_starts, List.count_cons_self] at hk
  exact Nat.succ_ne_zero _ hk.symm

/-- A bracket that is opened and not closed before a balanced log. -/
theorem Balanced.not_start_cons (h : Balanced l) (k : κ) : ¬ Balanced (start k :: l) := by
  intro hk
  have heven := hk.even k
  rw [List.count_cons_self, List.count_cons_of_ne (fun h => by cases h), h.even k] at heven
  exact Nat.succ_ne_self _ heven.symm

end Bracket
end Streambox.Lib
