import Mathlib.Data.List.Basic
import Mathlib.Data.List.Perm.Basic
import Mathlib.Order.Lattice

/-! Queues in the order of a due time.

    What comes in goes behind everything that is due no later. `Arranges posted l` is what such a
    queue is for: `l` is `posted` in the order of the due times, and where these are equal in the
    order of `posted`.

        posted    c@7  a@3  d@7  b@5
        l         a@3  b@5  c@7  d@7  -/

namespace Streambox.Lib

variable {α τ : Type*} [LinearOrder τ] {due : α → τ}

/-- Behind everything that is due no later. -/
def insertDue (due : α → τ) (a : α) : List α → List α
  | [] => [a]
  | b :: l => if due b ≤ due a then b :: insertDue due a l else a :: b :: l

/-- The stable order of the due times. -/
structure Arranges (due : α → τ) (posted l : List α) : Prop where
  sorted : l.Pairwise fun a b => due a ≤ due b
  stable : ∀ t, (l.filter fun a => due a = t) = posted.filter fun a => due a = t

theorem arranges_nil : Arranges due [] [] := ⟨.nil, fun _ => rfl⟩

theorem mem_insertDue {a b : α} {l : List α} : b ∈ insertDue due a l ↔ b = a ∨ b ∈ l := by
  induction l with
  | nil => simp [insertDue]
  | cons c l ih =>
    rw [insertDue]
    split
    · rw [List.mem_cons, ih, List.mem_cons]
      tauto
    · simp

/-- The new one is not put into what is due no later. -/
theorem insertDue_append {a : α} {l l' : List α} (h : ∀ b ∈ l, due b ≤ due a) :
    insertDue due a (l ++ l') = l ++ insertDue due a l' := by
  induction l with
  | nil => rfl
  | cons b l ih =>
    rw [List.cons_append, insertDue, if_pos (h b (by simp)), ih fun c hc => h c (by simp [hc]),
      List.cons_append]

theorem sorted_insertDue {a : α} {l : List α} (h : l.Pairwise fun b c => due b ≤ due c) :
    (insertDue due a l).Pairwise fun b c => due b ≤ due c := by
  induction l with
  | nil => simp [insertDue]
  | cons b l ih =>
    obtain ⟨hb, hl⟩ := List.pairwise_cons.mp h
    rw [insertDue]
    split
    case isTrue hle =>
      refine List.pairwise_cons.mpr ⟨fun c hc => ?_, ih hl⟩
      rcases mem_insertDue.mp hc with rfl | hc
      · exact hle
      · exact hb c hc
    case isFalse hle =>
      refine List.pairwise_cons.mpr ⟨fun c hc => ?_, h⟩
      rcases List.mem_cons.mp hc with rfl | hc
      · exact le_of_not_ge hle
      · exact (le_of_not_ge hle).trans (hb c hc)

/-- Of those with its own due time the new one is the last, if the queue is sorted. -/
theorem filter_insertDue {a : α} {l : List α} (h : l.Pairwise fun b c => due b ≤ due c) (t : τ) :
    ((insertDue due a l).filter fun b => due b = t) = (l ++ [a]).filter fun b => due b = t := by
  induction l with
  | nil => rfl
  | cons b l ih =>
    obtain ⟨hb, hl⟩ := List.pairwise_cons.mp h
    rw [insertDue]
    split
    case isTrue hle => rw [List.filter_cons, ih hl, List.cons_append, List.filter_cons]
    case isFalse hle =>
      rw [List.filter_append, List.filter_cons]
      by_cases hat : due a = t
      · -- everything behind the new one is due later
        have hlater : ((b :: l).filter fun c => due c = t) = [] := by
          refine List.filter_eq_nil_iff.mpr fun c hc => ?_
          have hac : due a < due c := by
            rcases List.mem_cons.mp hc with rfl | hc
            · exact lt_of_not_ge hle
            · exact (lt_of_not_ge hle).trans_le (hb c hc)
          simpa using fun hct : due c = t => absurd (hct.trans hat.symm) hac.ne'
        simp [hat, hlater]
      · simp [hat]

/-- What is posted last is inserted. -/
theorem Arranges.insert {posted l : List α} (h : Arranges due posted l) (a : α) :
    Arranges due (posted ++ [a]) (insertDue due a l) := by
  refine ⟨sorted_insertDue h.sorted, fun t => ?_⟩
  rw [filter_insertDue h.sorted, List.filter_append, List.filter_append, h.stable]

/-- A queue whose front has been taken goes on as if it had not. -/
theorem Arranges.insert_behind {posted taken l : List α} (h : Arranges due posted (taken ++ l))
    {a : α} (hpast : ∀ b ∈ taken, due b ≤ due a) :
    Arranges due (posted ++ [a]) (taken ++ insertDue due a l) :=
  insertDue_append hpast ▸ h.insert a

theorem Arranges.mem_iff {posted l : List α} (h : Arranges due posted l) {a : α} :
    a ∈ l ↔ a ∈ posted := by
  have hmem := congrArg (a ∈ ·) (h.stable (due a))
  simpa using hmem

open Classical in
/-- Nothing is lost and nothing doubled. -/
theorem Arranges.perm {posted l : List α} (h : Arranges due posted l) : l.Perm posted := by
  refine List.perm_iff_count.mpr fun a => ?_
  have hcount := congrArg (List.count a) (h.stable (due a))
  rwa [List.count_filter (by simp), List.count_filter (by simp)] at hcount

/-- Nothing overtakes what was posted before it and is due no later. -/
theorem Arranges.keeps_order {posted l : List α} (h : Arranges due posted l) {a b : α}
    (hposted : [a, b].Sublist posted) (hle : due a ≤ due b) : [a, b].Sublist l := by
  rcases hle.eq_or_lt with heq | hlt
  · have hsub := hposted.filter fun c => due c = due b
    rw [← h.stable] at hsub
    simpa [heq] using hsub.trans List.filter_sublist
  · have ha : a ∈ l := h.mem_iff.mpr (hposted.subset (by simp))
    have hb : b ∈ l := h.mem_iff.mpr (hposted.subset (by simp))
    obtain ⟨l₁, l₂, rfl⟩ := List.append_of_mem ha
    have hbehind : b ∈ l₂ := by
      rcases List.mem_append.mp hb with hb | hb
      · exact absurd ((List.pairwise_append.mp h.sorted).2.2 b hb a (by simp)) (not_le_of_gt hlt)
      · rcases List.mem_cons.mp hb with rfl | hb
        · exact absurd hlt (lt_irrefl _)
        · exact hb
    exact ((List.singleton_sublist.mpr hbehind).cons_cons a).trans (List.sublist_append_right l₁ _)

end Streambox.Lib
