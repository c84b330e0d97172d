import Mathlib.Data.Nat.Notation

/-! A cyclic redundancy check, one bit at a time.

    The register goes up by one place, and where the bit that leaves it is not the bit that comes in
    the polynomial is added. A whole word can be added first and the register moved then; that is
    what a table has. Behind a message its own check leaves nothing. -/

namespace Streambox.Lib.Crc

variable {w : Nat}

def crcBit (poly c : BitVec w) (bit : Bool) : BitVec w :=
  c <<< 1 ^^^ if (c.msb ^^ bit) then poly else 0

def crcBits (poly c : BitVec w) (bits : List Bool) : BitVec w := bits.foldl (crcBit poly) c

/-- The bits of a word, from the highest. -/
def wordBits (v : BitVec w) : List Bool := (List.range w).map v.getMsbD

theorem crcBits_append (poly c : BitVec w) (bits bits' : List Bool) :
    crcBits poly c (bits ++ bits') = crcBits poly (crcBits poly c bits) bits' := List.foldl_append

/-- What a word's bits do to the register is what the word does that is added to it. -/
theorem crcBit_add (poly c v : BitVec w) (n : Nat) :
    crcBit poly c (v.getMsbD n) ^^^ v <<< (n + 1) = crcBit poly (c ^^^ v <<< n) false := by
  have hmsb : (v <<< n).msb = v.getMsbD n := by
    rw [BitVec.msb_eq_getMsbD_zero, BitVec.getMsbD_shiftLeft, Nat.zero_add]
  rw [crcBit, crcBit, BitVec.shiftLeft_xor_distrib, BitVec.msb_xor, hmsb, Bool.xor_false,
    BitVec.shiftLeft_add, BitVec.xor_assoc, BitVec.xor_assoc]
  congr 1
  exact BitVec.xor_comm ..

theorem crcBits_take (poly c v : BitVec w) (n : Nat) :
    crcBits poly c ((List.range n).map v.getMsbD) ^^^ v <<< n =
      crcBits poly (c ^^^ v) (List.replicate n false) := by
  induction n with
  | zero => simp [crcBits]
  | succ n ih =>
    rw [List.range_succ, List.map_append, List.map_singleton, crcBits_append,
      List.replicate_succ', crcBits_append, ← ih]
    exact crcBit_add ..

/-- A word at a time. -/
theorem crcBits_word (poly c v : BitVec w) :
    crcBits poly c (wordBits v) = crcBits poly (c ^^^ v) (List.replicate w false) := by
  rw [← crcBits_take, wordBits, BitVec.shiftLeft_eq_zero (Nat.le_refl w), BitVec.xor_zero]

theorem crcBits_zero (poly : BitVec w) (n : Nat) :
    crcBits poly 0 (List.replicate n false) = 0 := by
  induction n with
  | zero => rfl
  | succ n ih =>
    rw [List.replicate_succ', crcBits_append, ih]
    simp [crcBits, crcBit]

/-- Behind its own check nothing is left. -/
theorem crcBits_self (poly c : BitVec w) : crcBits poly c (wordBits c) = 0 := by
  rw [crcBits_word, BitVec.xor_self, ← BitVec.ofNat_eq_ofNat, crcBits_zero]

end Streambox.Lib.Crc
