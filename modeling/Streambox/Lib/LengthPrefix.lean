import Mathlib.Tactic.Ring
import Mathlib.Data.List.Basic
import Mathlib.Algebra.Group.Nat.Defs

/-! Byte strings that are units, each behind a field of `L` bytes that gives its length.

        field u field u .. field u

    How a field is read is a parameter: it may depend on the length of the unit before, as in a
    reader that does not clear its accumulator. `Cut` is the relation between a string and its
    units. -/

namespace Streambox.Lib

/-- The number that bytes are, the first one the most significant. -/
def bigEndian (field : List UInt8) : Nat := field.foldl (fun v b => 256 * v + b.toNat) 0

theorem foldl_bigEndian (field : List UInt8) (v : Nat) :
    field.foldl (fun v b => 256 * v + b.toNat) v = 256 ^ field.length * v + bigEndian field := by
  induction field generalizing v with
  | nil => simp [bigEndian]
  | cons b field ih =>
    simp only [bigEndian, List.foldl_cons, List.length_cons]
    rw [ih, ih (256 * 0 + b.toNat)]
    ring

theorem bigEndian_cons (b : UInt8) (field : List UInt8) :
    bigEndian (b :: field) = 256 ^ field.length * b.toNat + bigEndian field := by
  have h := foldl_bigEndian field (256 * 0 + b.toNat)
  rw [bigEndian, List.foldl_cons, h, Nat.mul_zero, Nat.zero_add]

theorem bigEndian_lt (field : List UInt8) : bigEndian field < 256 ^ field.length := by
  induction field with
  | nil => simp [bigEndian]
  | cons b field ih =>
    have hb : b.toNat + 1 ≤ 256 := b.toNat_lt
    calc bigEndian (b :: field)
        = 256 ^ field.length * b.toNat + bigEndian field := bigEndian_cons b field
      _ < 256 ^ field.length * b.toNat + 256 ^ field.length := by omega
      _ = 256 ^ field.length * (b.toNat + 1) := by ring
      _ ≤ 256 ^ field.length * 256 := Nat.mul_le_mul_left _ hb
      _ = 256 ^ (b :: field).length := by rw [List.length_cons, Nat.pow_succ]

/-- The bytes are units behind fields of `L` bytes. `len` gives the length that a field stands for,
    from the one before it, which is `prev` for the first. -/
inductive Cut (L : Nat) (len : Int → List UInt8 → Int) :
    Int → List UInt8 → List (List UInt8) → Prop
  | nil (prev : Int) : Cut L len prev [] []
  | unit (prev : Int) (field u rest : List UInt8) (us : List (List UInt8)) :
      field.length = L → len prev field = u.length → field ++ (u ++ rest) ≠ [] →
      Cut L len u.length rest us → Cut L len prev (field ++ (u ++ rest)) (u :: us)

section cut
variable {L : Nat} {len : Int → List UInt8 → Int} {prev : Int} {bytes : List UInt8}
  {us : List (List UInt8)}

/-- The parts of a string that is not empty. -/
theorem Cut.inv (h : Cut L len prev bytes us) (hne : bytes ≠ []) :
    ∃ field u rest us', bytes = field ++ (u ++ rest) ∧ us = u :: us' ∧ field.length = L ∧
      len prev field = u.length ∧ Cut L len u.length rest us' := by
  cases h with
  | nil => exact absurd rfl hne
  | unit _ field u rest us hfield hlen _ hrest =>
    exact ⟨field, u, rest, us, rfl, rfl, hfield, hlen, hrest⟩

/-- With no field at all no string but the empty one has units. -/
theorem Cut.eq_nil_of_zero (h : Cut 0 len prev bytes us) (hlen : ∀ p, len p [] = p)
    (hprev : prev = 0) : bytes = [] := by
  induction h with
  | nil => rfl
  | unit prev field u rest us hfield hu hne _ ih =>
    have hnil : field = [] := List.length_eq_zero_iff.mp hfield
    rw [hnil, hlen, hprev] at hu
    have hunil : u = [] := List.length_eq_zero_iff.mp (by exact_mod_cast hu.symm)
    have hrest := ih (by rw [hunil]; rfl)
    rw [hnil, hunil, hrest] at hne
    exact absurd rfl hne

end cut

end Streambox.Lib
