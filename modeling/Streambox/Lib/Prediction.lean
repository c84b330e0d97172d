import Mathlib.Algebra.Group.Basic

/-! Samples that are predicted from those before them.

    Only what the prediction misses is kept; the samples come back one at a time, each from what is
    already there. The samples before, the latest first, are the past. Where the numbers are cut to
    a width, they come back if the samples fit.

    The difference of a sample and the one before it is the first difference; the difference of two
    such differences is the second. Taking a sample to make the next difference 0 is a prediction. -/

namespace Streambox.Lib.Prediction

variable {α : Type} [AddCommGroup α]

/-- What the prediction misses. -/
def remainders (predict : List α → α) : List α → List α → List α
  | _, [] => []
  | past, x :: xs => (x - predict past) :: remainders predict (x :: past) xs

/-- The samples, out of what the prediction misses. -/
def restore (cut : α → α) (predict : List α → α) : List α → List α → List α
  | _, [] => []
  | past, r :: rs =>
    let x := cut (r + predict past)
    x :: restore cut predict (x :: past) rs

@[simp] theorem length_remainders (predict : List α → α) (past xs : List α) :
    (remainders predict past xs).length = xs.length := by
  induction xs generalizing past with
  | nil => rfl
  | cons x xs ih => simp [remainders, ih]

@[simp] theorem length_restore (cut : α → α) (predict : List α → α) (past rs : List α) :
    (restore cut predict past rs).length = rs.length := by
  induction rs generalizing past with
  | nil => rfl
  | cons r rs ih => simp [restore, ih]

theorem restore_remainders {cut : α → α} (predict : List α → α) {xs : List α}
    (hcut : ∀ x ∈ xs, cut x = x) (past : List α) :
    restore cut predict past (remainders predict past xs) = xs := by
  induction xs generalizing past with
  | nil => rfl
  | cons x xs ih =>
    have hx : cut x = x := hcut x List.mem_cons_self
    rw [remainders, restore, sub_add_cancel, hx,
      ih (fun x' hx' => hcut x' (List.mem_cons_of_mem _ hx'))]

/-- A prediction that is the same at each of the samples. -/
theorem remainders_congr {predict predict' : List α → α} {past xs : List α}
    (h : ∀ pre x post, xs = pre ++ x :: post →
      predict (pre.reverse ++ past) = predict' (pre.reverse ++ past)) :
    remainders predict past xs = remainders predict' past xs := by
  induction xs generalizing past with
  | nil => rfl
  | cons x xs ih =>
    have hhead : predict past = predict' past := h [] x xs rfl
    have htail (pre : List α) (y : α) (post : List α) (hxs : xs = pre ++ y :: post) :
        predict (pre.reverse ++ x :: past) = predict' (pre.reverse ++ x :: past) := by
      have hstep := h (x :: pre) y post (by rw [hxs, List.cons_append])
      simpa using hstep
    rw [remainders, remainders, hhead, ih htail]

/-! ### Differences -/

/-- The `k`-th difference, at the latest sample. -/
def diff : Nat → List α → α
  | 0, past => past.headD 0
  | k + 1, past => diff k past - diff k past.tail

/-- The next sample, if its `k`-th difference were 0. -/
def level (k : Nat) (past : List α) : α := -diff k (0 :: past)

theorem diff_cons (k : Nat) (x : α) (past : List α) :
    diff k (x :: past) = x + diff k (0 :: past) := by
  induction k with
  | zero => simp [diff]
  | succ k ih =>
    rw [diff, diff, ih, List.tail_cons, List.tail_cons, add_sub_assoc]

/-- What the prediction misses is the difference. -/
theorem sub_level (k : Nat) (x : α) (past : List α) : x - level k past = diff k (x :: past) := by
  rw [level, sub_neg_eq_add, ← diff_cons]

/-- A difference from the one before it. -/
theorem diff_step (k : Nat) (x : α) (past : List α) :
    diff k (x :: past) = diff k past + diff (k + 1) (x :: past) := by
  rw [diff, List.tail_cons, add_sub_cancel]

end Streambox.Lib.Prediction
