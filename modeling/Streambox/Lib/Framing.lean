import Mathlib.Data.List.Basic

/-! Messages taken off the front of a buffer.

    A receiver appends what it gets to a buffer and takes messages off it, as long as there is one:

        buffer ──consume──▶ message, rest ──consume──▶ message, rest ──▶ .. ──▶ no message

    If a message that is found does not depend on what comes behind it, it does not matter in which
    pieces a stream arrives. `guarded` turns away the buffers for which this is not so; a receiver
    that never meets one of them is as good as one that waits. -/

namespace Streambox.Lib

variable {α β : Type*}

/-- Take messages off, no more than a number of them. -/
def drain (consume : List α → Option (β × List α)) : Nat → List α → List β × List α
  | 0, b => ([], b)
  | fuel + 1, b =>
    match consume b with
    | none => ([], b)
    | some (m, rest) => (m :: (drain consume fuel rest).1, (drain consume fuel rest).2)

/-- The messages of a buffer, and what is left when there is no other. -/
inductive Frames (consume : List α → Option (β × List α)) : List α → List β → List α → Prop
  | stop {b : List α} (h : consume b = none) : Frames consume b [] b
  | more {b rest left : List α} {m : β} {ms : List β} (h : consume b = some (m, rest))
      (hrest : Frames consume rest ms left) : Frames consume b (m :: ms) left

/-- The buffers that are looked at on the way. -/
inductive Meets (consume : List α → Option (β × List α)) : List α → List α → Prop
  | here (b : List α) : Meets consume b b
  | after {b rest b' : List α} {m : β} (h : consume b = some (m, rest))
      (hrest : Meets consume rest b') : Meets consume b b'

/-- Every message takes something off. -/
def Shortens (consume : List α → Option (β × List α)) : Prop :=
  ∀ b m rest, consume b = some (m, rest) → rest.length < b.length

/-- A message does not depend on what comes behind it. -/
def Stable (consume : List α → Option (β × List α)) : Prop :=
  ∀ b m rest, consume b = some (m, rest) → ∀ y, consume (b ++ y) = some (m, rest ++ y)

/-- Turn away the buffers of a kind. -/
def guarded (consume : List α → Option (β × List α)) (cut : List α → Bool) (b : List α) :
    Option (β × List α) :=
  if cut b then none else consume b

variable {consume : List α → Option (β × List α)}

/-- As many rounds as there are elements are enough. -/
theorem frames_drain (hshort : Shortens consume) {fuel : Nat} {b : List α} (h : b.length ≤ fuel) :
    Frames consume b (drain consume fuel b).1 (drain consume fuel b).2 := by
  induction fuel generalizing b with
  | zero =>
    refine .stop ?_
    cases hb : consume b with
    | none => rfl
    | some q =>
      have := hshort b q.1 q.2 hb
      omega
  | succ fuel ih =>
    rw [drain]
    cases hb : consume b with
    | none => exact .stop hb
    | some q =>
      have := hshort b q.1 q.2 hb
      exact .more hb (ih (by omega))

theorem Frames.unique {b left left' : List α} {ms ms' : List β} (h : Frames consume b ms left)
    (h' : Frames consume b ms' left') : ms = ms' ∧ left = left' := by
  induction h generalizing ms' left' with
  | stop hnone =>
    cases h' with
    | stop => exact ⟨rfl, rfl⟩
    | more hsome =>
      rw [hnone] at hsome
      cases hsome
  | more hsome hrest ih =>
    cases h' with
    | stop hnone =>
      rw [hnone] at hsome
      cases hsome
    | more hsome' hrest' =>
      rw [hsome] at hsome'
      cases hsome'
      obtain ⟨rfl, rfl⟩ := ih hrest'
      exact ⟨rfl, rfl⟩

theorem Frames.settled {b left : List α} {ms : List β} (h : Frames consume b ms left) :
    consume left = none := by
  induction h with
  | stop h => exact h
  | more _ _ ih => exact ih

/-- What is left goes in front of what comes. -/
theorem Frames.append (hstable : Stable consume) {b rest left y : List α} {ms ms' : List β}
    (h : Frames consume b ms rest) (h' : Frames consume (rest ++ y) ms' left) :
    Frames consume (b ++ y) (ms ++ ms') left := by
  induction h with
  | stop => exact h'
  | more hsome _ ih => exact .more (hstable _ _ _ hsome y) (ih h')

theorem Meets.of_none {b b' : List α} (h : consume b = none) (hmeets : Meets consume b b') :
    b' = b := by
  cases hmeets with
  | here => rfl
  | after hsome =>
    rw [h] at hsome
    cases hsome

theorem Meets.of_some {b rest b' : List α} {m : β} (h : consume b = some (m, rest))
    (hmeets : Meets consume b b') : b' = b ∨ Meets consume rest b' := by
  cases hmeets with
  | here => exact .inl rfl
  | after hsome hrest =>
    rw [h] at hsome
    cases hsome
    exact .inr hrest

theorem guarded_of_not {cut : List α → Bool} {b : List α} (h : ¬ cut b = true) :
    guarded consume cut b = consume b := if_neg h

theorem guarded_some {cut : List α → Bool} {b rest : List α} {m : β}
    (h : guarded consume cut b = some (m, rest)) :
    ¬ cut b = true ∧ consume b = some (m, rest) := by
  rw [guarded] at h
  split at h
  case isTrue => cases h
  case isFalse hcut => exact ⟨hcut, h⟩

/-- A receiver that meets no buffer of the kind takes the same messages. -/
theorem Frames.guard {cut : List α → Bool} {b left : List α} {ms : List β}
    (h : Frames consume b ms left) (hcut : ∀ b', Meets consume b b' → ¬ cut b' = true) :
    Frames (guarded consume cut) b ms left := by
  induction h with
  | @stop b hnone =>
    refine .stop ?_
    rw [guarded_of_not (hcut b (.here b)), hnone]
  | @more b rest left m ms hsome _ ih =>
    have hsome' : guarded consume cut b = some (m, rest) := by
      rw [guarded_of_not (hcut b (.here b)), hsome]
    exact .more hsome' (ih fun b' hmeets => hcut b' (.after hsome hmeets))

end Streambox.Lib
