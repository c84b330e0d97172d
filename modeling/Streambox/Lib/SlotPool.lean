import Mathlib.Data.List.Nodup
import Mathlib.Data.List.Perm.Subperm
import Mathlib.Data.List.Range

/-! Pools of keyed entries with an in-use mark.

    An entry is handed out by marking the first unmarked one, and taken back either by its index or
    by its key. With distinct keys the second way finds the entry the key was handed out for, as
    long as it is still the same pool. Keys that a kernel allocates as the lowest free number are
    distinct as long as they are held at the same time. -/

namespace Streambox.Lib.SlotPool

/-- One entry: the key it is known by outside, and whether it is handed out. -/
structure Entry (κ : Type*) where
  key : κ
  inUse : Bool
  deriving DecidableEq, Repr

variable {κ : Type*} {p q : List (Entry κ)} {i j : Nat} {k : κ}

/-- Entry `i` exists and is marked. -/
def Used (p : List (Entry κ)) (i : Nat) : Prop := p[i]?.map Entry.inUse = some true

instance : Decidable (Used p i) := inferInstanceAs (Decidable (_ = _))

/-- The key of entry `i`, if there is one. -/
def keyAt (p : List (Entry κ)) (i : Nat) : Option κ := p[i]?.map Entry.key

/-- Mark the first unmarked entry. -/
def acquire : List (Entry κ) → Option (Nat × List (Entry κ))
  | [] => none
  | e :: es =>
    if e.inUse then (acquire es).map fun r => (r.1 + 1, e :: r.2)
    else some (0, { e with inUse := true } :: es)

/-- Unmark entry `i`. -/
def clear (i : Nat) (p : List (Entry κ)) : List (Entry κ) := p.modify i ({ · with inUse := false })

/-- Unmark the first marked entry with key `k`. -/
def releaseBy [DecidableEq κ] (k : κ) : List (Entry κ) → List (Entry κ)
  | [] => []
  | e :: es => if e.key = k ∧ e.inUse then { e with inUse := false } :: es else e :: releaseBy k es

@[simp] theorem not_used_nil : ¬ Used ([] : List (Entry κ)) i := by simp [Used]

@[simp] theorem used_cons_zero {e : Entry κ} : Used (e :: p) 0 ↔ e.inUse = true := by simp [Used]

@[simp] theorem used_cons_succ {e : Entry κ} : Used (e :: p) (i + 1) ↔ Used p i := by simp [Used]

@[simp] theorem keyAt_cons_zero {e : Entry κ} : keyAt (e :: p) 0 = some e.key := rfl

@[simp] theorem keyAt_cons_succ {e : Entry κ} : keyAt (e :: p) (i + 1) = keyAt p i := rfl

@[simp] theorem keyAt_nil : keyAt ([] : List (Entry κ)) i = none := rfl

/-- What acquiring does: entry `i` was unmarked and is marked, and nothing else changes. -/
structure Acquired (p : List (Entry κ)) (i : Nat) (q : List (Entry κ)) : Prop where
  fresh : ¬ Used p i
  used : ∀ j, Used q j ↔ j = i ∨ Used p j
  key : ∀ j, keyAt q j = keyAt p j
  keyed : ∃ k, keyAt p i = some k
  back : clear i q = p

theorem acquire_spec : ∀ {p : List (Entry κ)} {i : Nat} {q : List (Entry κ)},
    acquire p = some (i, q) → Acquired p i q
  | [], _, _, h => nomatch h
  | e :: es, i, q, h => by
    rw [acquire] at h
    split at h
    · next he =>
      obtain ⟨⟨n, r⟩, hr, heq⟩ := Option.map_eq_some_iff.mp h
      obtain ⟨rfl, rfl⟩ := Prod.mk.inj heq
      have ih := acquire_spec hr
      refine ⟨?_, ?_, ?_, ?_, ?_⟩
      · rw [used_cons_succ]
        exact ih.fresh
      · rintro (_ | j)
        · simp [he]
        · simpa using ih.used j
      · rintro (_ | j)
        · rfl
        · exact ih.key j
      · exact ih.keyed
      · exact congrArg (e :: ·) ih.back
    · next he =>
      obtain ⟨rfl, rfl⟩ := Prod.mk.inj (Option.some_inj.mp h)
      refine ⟨?_, ?_, ?_, ⟨e.key, rfl⟩, ?_⟩
      · simpa using he
      · rintro (_ | j)
        · simp
        · simp
      · rintro (_ | j)
        · rfl
        · rfl
      · have hmark : e.inUse = false := by simpa using he
        obtain ⟨k, b⟩ := e
        cases hmark
        rfl

/-- No two entries share a key. -/
def Keyed (p : List (Entry κ)) : Prop := ∀ i j k, keyAt p i = some k → keyAt p j = some k → i = j

theorem keyed_nil : Keyed ([] : List (Entry κ)) := nofun

theorem Keyed.congr (h : Keyed p) (hkey : ∀ i, keyAt q i = keyAt p i) : Keyed q := by
  intro i j k hi hj
  rw [hkey] at hi hj
  exact h i j k hi hj

theorem Keyed.tail {e : Entry κ} (h : Keyed (e :: p)) : Keyed p := fun i j k hi hj =>
  Nat.succ_inj.mp (h (i + 1) (j + 1) k hi hj)

theorem keyed_cons {e : Entry κ} (h : Keyed p) (hnew : ∀ i, keyAt p i ≠ some e.key) :
    Keyed (e :: p) := by
  rintro (_ | i) (_ | j) k hi hj
  · rfl
  · cases hi
    exact absurd hj (hnew j)
  · cases hj
    exact absurd hi (hnew i)
  · exact congrArg (· + 1) (h i j k hi hj)

section Release

variable [DecidableEq κ]

theorem keyAt_releaseBy : ∀ {p : List (Entry κ)} {i : Nat}, keyAt (releaseBy k p) i = keyAt p i
  | [], _ => rfl
  | e :: es, i => by
    rw [releaseBy]
    split
    · cases i <;> rfl
    · cases i with
      | zero => rfl
      | succ i => exact keyAt_releaseBy

/-- With distinct keys, giving a key back unmarks the entry of that key and no other. -/
theorem used_releaseBy : ∀ {p : List (Entry κ)} {i : Nat}, Keyed p →
    (Used (releaseBy k p) i ↔ Used p i ∧ keyAt p i ≠ some k)
  | [], _, _ => by simp [releaseBy]
  | e :: es, i, h => by
    rw [releaseBy]
    split
    · next he =>
      cases i with
      | zero => simp [he.1]
      | succ i =>
        -- the key is taken by the head, so no later entry has it
        have hne : keyAt es i ≠ some k := fun hi =>
          absurd (h 0 (i + 1) k (by rw [keyAt_cons_zero, he.1]) hi) (Nat.succ_ne_zero i).symm
        simp [hne]
    · next he =>
      cases i with
      | zero =>
        rw [used_cons_zero, used_cons_zero, keyAt_cons_zero, Ne, Option.some_inj]
        exact ⟨fun hu => ⟨hu, fun hk => he ⟨hk, hu⟩⟩, And.left⟩
      | succ i =>
        rw [used_cons_succ, used_cons_succ, keyAt_cons_succ]
        exact used_releaseBy h.tail

end Release

/-! ### Numbers from the kernel -/

/-- The lowest number that is not taken. -/
def lowestFree (taken : List Nat) : Nat :=
  ((List.range (taken.length + 1)).find? (· ∉ taken)).getD 0

theorem exists_free (taken : List Nat) : ∃ n ∈ List.range (taken.length + 1), n ∉ taken := by
  by_contra hall
  push Not at hall
  have hle := (List.nodup_range.subperm hall).length_le
  rw [List.length_range] at hle
  omega

theorem lowestFree_notMem (taken : List Nat) : lowestFree taken ∉ taken := by
  obtain ⟨n, hn, hfree⟩ := exists_free taken
  cases hfind : (List.range (taken.length + 1)).find? (· ∉ taken) with
  | none => exact absurd hfree (by simpa using List.find?_eq_none.mp hfind n hn)
  | some m =>
    rw [lowestFree, hfind]
    simpa using List.find?_some hfind

end Streambox.Lib.SlotPool
