import Mathlib.Tactic.Ring

/-! Fields of bits in a memory of bytes, the highest bit first.

    A memory is a function, so that a reader may look at what stands behind the data; what it returns
    does not depend on it. `window mem i n` is the number in the `n` bits at `i`. A reader is a
    partial function of the memory and the position, and `Reads read bits a` says that it takes
    exactly `bits` for `a`, wherever they stand. Such facts are put together field by field. -/

namespace Streambox.Lib.BitField

/-- A memory; nothing is known of the bytes that are no data. -/
abbrev Mem := Nat → UInt8

/-- The bits of a byte stand in it from the highest. -/
def bitAt (mem : Mem) (i : Nat) : Bool := (mem (i / 8)).toNat.testBit (7 - i % 8)

/-- The number in `n` bits. -/
def window (mem : Mem) (i : Nat) : Nat → Nat
  | 0 => 0
  | n + 1 => 2 * window mem i n + (bitAt mem (i + n)).toNat

/-- A number in `n` bits. -/
def field (n v : Nat) : List Bool := (List.range n).map fun k => v.testBit (n - 1 - k)

@[simp] theorem length_field (n v : Nat) : (field n v).length = n := by
  simp [field]

/-- Only the bits that fit stand there. -/
theorem field_mod (n v : Nat) : field n (v % 2 ^ n) = field n v := by
  refine List.map_congr_left fun k hk => ?_
  have hk' : k < n := List.mem_range.mp hk
  rw [Nat.testBit_mod_two_pow, decide_eq_true (by omega), Bool.true_and]

/-- The high bits stand before the low ones. -/
theorem field_add (m n v : Nat) : field (m + n) v = field m (v >>> n) ++ field n v := by
  rw [field, List.range_add, List.map_append, List.map_map]
  congr 1
  · refine List.map_congr_left fun k hk => ?_
    have hk' : k < m := List.mem_range.mp hk
    rw [Nat.testBit_shiftRight]
    congr 1
    omega
  · refine List.map_congr_left fun k hk => ?_
    simp only [Function.comp_apply]
    congr 1
    omega

/-- The bits stand at `i`. -/
def Holds (mem : Mem) (i : Nat) (bits : List Bool) : Prop :=
  ∀ k (hk : k < bits.length), bitAt mem (i + k) = bits[k]

theorem holds_nil (mem : Mem) (i : Nat) : Holds mem i [] := fun _ hk => absurd hk (Nat.not_lt_zero _)

theorem holds_append {mem : Mem} {i : Nat} {bits bits' : List Bool} :
    Holds mem i (bits ++ bits') ↔ Holds mem i bits ∧ Holds mem (i + bits.length) bits' := by
  constructor
  · intro h
    refine ⟨fun k hk => ?_, fun k hk => ?_⟩
    · rw [h k (by rw [List.length_append]; omega), List.getElem_append_left hk]
    · rw [Nat.add_assoc, h (bits.length + k) (by rw [List.length_append]; omega),
        List.getElem_append_right (Nat.le_add_right _ _)]
      simp
  · rintro ⟨hfront, hback⟩ k hk
    by_cases hlt : k < bits.length
    · rw [List.getElem_append_left hlt]
      exact hfront k hlt
    · rw [List.length_append] at hk
      have hk' := hback (k - bits.length) (by omega)
      rw [List.getElem_append_right (by omega), ← hk']
      congr 1
      omega

theorem holds_cons {mem : Mem} {i : Nat} {bit : Bool} {bits : List Bool} :
    Holds mem i (bit :: bits) ↔ bitAt mem i = bit ∧ Holds mem (i + 1) bits := by
  rw [← List.singleton_append, holds_append]
  refine and_congr_left fun _ => ⟨fun h => h 0 (by simp), fun h k hk => ?_⟩
  obtain rfl : k = 0 := by simpa using hk
  exact h

instance Holds.decidable (mem : Mem) : ∀ (i : Nat) (bits : List Bool), Decidable (Holds mem i bits)
  | i, [] => .isTrue (holds_nil mem i)
  | i, bit :: bits =>
    have := Holds.decidable mem (i + 1) bits
    decidable_of_iff' (bitAt mem i = bit ∧ Holds mem (i + 1) bits) holds_cons

theorem window_lt (mem : Mem) (i n : Nat) : window mem i n < 2 ^ n := by
  induction n with
  | zero => exact Nat.one_pos
  | succ n ih =>
    have hbit := Bool.toNat_le (bitAt mem (i + n))
    rw [window, Nat.pow_succ]
    omega

theorem window_add (mem : Mem) (i m n : Nat) :
    window mem i (m + n) = window mem i m * 2 ^ n + window mem (i + m) n := by
  induction n with
  | zero => simp [window]
  | succ n ih =>
    rw [← Nat.add_assoc, window, ih, window, Nat.pow_succ, ← Nat.add_assoc]
    ring

/-- The bits of a number are the number. -/
theorem window_eq_mod {mem : Mem} {i n v : Nat}
    (h : ∀ k < n, bitAt mem (i + k) = v.testBit (n - 1 - k)) : window mem i n = v % 2 ^ n := by
  induction n generalizing v with
  | zero => simp [window, Nat.mod_one]
  | succ n ih =>
    have hhalf : window mem i n = v / 2 % 2 ^ n := ih fun k hk => by
      rw [h k (by omega), ← Nat.testBit_succ]
      congr 1
      omega
    have hlast := h n (by omega)
    rw [show n + 1 - 1 - n = 0 by omega, Nat.testBit_zero] at hlast
    have hpow : v % 2 ^ (n + 1) = 2 * (v / 2 % 2 ^ n) + v % 2 := by
      rw [Nat.pow_succ, Nat.mul_comm, Nat.mod_mul, Nat.add_comm]
    rw [window, hhalf, hlast, hpow]
    rcases Nat.mod_two_eq_zero_or_one v with hv | hv <;> simp [hv]

/-- A byte is the number in its bits. -/
theorem window_byte (mem : Mem) (k : Nat) : window mem (8 * k) 8 = (mem k).toNat := by
  rw [window_eq_mod (v := (mem k).toNat), Nat.mod_eq_of_lt (UInt8.toNat_lt _)]
  intro j hj
  rw [bitAt, show (8 * k + j) / 8 = k by omega, show 7 - (8 * k + j) % 8 = 8 - 1 - j by omega]

theorem window_of_holds {mem : Mem} {i n v : Nat} (h : Holds mem i (field n v)) :
    window mem i n = v % 2 ^ n :=
  window_eq_mod fun k hk => by
    rw [h k (by simpa using hk)]
    simp [field]

/-- Bits that are not set. -/
theorem window_replicate {mem : Mem} {i n : Nat} (h : Holds mem i (List.replicate n false)) :
    window mem i n = 0 := by
  rw [window_eq_mod (v := 0), Nat.zero_mod]
  intro k hk
  rw [h k (by simpa using hk)]
  simp

theorem field_of_holds {mem : Mem} {k : Nat} {bits : List Bool} (h : Holds mem (8 * k) bits)
    (hlen : bits.length = 8) : field 8 (mem k).toNat = bits := by
  refine List.ext_getElem (by simp [hlen]) fun j _ hj => ?_
  rw [← h j hj, bitAt, show (8 * k + j) / 8 = k by omega, show (8 * k + j) % 8 = j by omega]
  simp [field]

/-- The bits of the bytes are those that stand there. -/
theorem flatMap_bytes {mem : Mem} {n k : Nat} {bits : List Bool} (h : Holds mem (8 * k) bits)
    (hlen : bits.length = 8 * n) :
    ((List.range' k n).map mem).flatMap (fun byte => field 8 byte.toNat) = bits := by
  induction n generalizing k bits with
  | zero => exact (List.length_eq_zero_iff.mp hlen).symm
  | succ n ih =>
    have hsplit : (bits.take 8).length = 8 := by
      rw [List.length_take]
      omega
    rw [← List.take_append_drop 8 bits, holds_append, hsplit] at h
    have hback : Holds mem (8 * (k + 1)) (bits.drop 8) := by
      rw [Nat.mul_add]
      exact h.2
    have hrest := ih hback (by rw [List.length_drop]; omega)
    rw [List.range'_succ, List.map_cons, List.flatMap_cons, hrest, field_of_holds h.1 hsplit,
      List.take_append_drop]

/-! ### Readers -/

/-- A reader: why it stopped, or what was read and the position behind it. -/
abbrev Reader (ε α : Type) := ReaderT Mem (StateT Nat (Except ε)) α

variable {ε α β : Type}

/-- The reader takes the bits, and nothing else, for `a`. -/
def Reads (read : Reader ε α) (bits : List Bool) (a : α) : Prop :=
  ∀ mem i, Holds mem i bits → read mem i = .ok (a, i + bits.length)

theorem reads_pure (a : α) : Reads (pure a : Reader ε α) [] a := fun _ _ _ => rfl

/-- One reader after another. -/
theorem run_bind (read : Reader ε α) (next : α → Reader ε β) (mem : Mem) (i : Nat) :
    (read >>= next) mem i = (read mem i).bind fun q => next q.1 mem q.2 := rfl

theorem Reads.bind {read : Reader ε α} {next : α → Reader ε β} {bits bits' : List Bool} {a : α}
    {b : β} (h : Reads read bits a) (h' : Reads (next a) bits' b) :
    Reads (read >>= next) (bits ++ bits') b := by
  intro mem i hbits
  obtain ⟨hfront, hback⟩ := holds_append.mp hbits
  rw [run_bind, h mem i hfront]
  have hnext := h' mem (i + bits.length) hback
  rw [Nat.add_assoc, ← List.length_append] at hnext
  exact hnext

/-- What is made of the value takes no bits. -/
theorem Reads.map {read : Reader ε α} {bits : List Bool} {a : α} (h : Reads read bits a)
    (f : α → β) : Reads (read >>= fun a => pure (f a)) bits (f a) := by
  rw [← List.append_nil bits]
  exact h.bind (reads_pure (f a))

/-- A reader that takes no bits. -/
theorem Reads.then {next : α → Reader ε β} {bits : List Bool} {read : Reader ε α} {a : α} {b : β}
    (h : Reads read [] a) (h' : Reads (next a) bits b) : Reads (read >>= next) bits b :=
  h.bind h'

/-- The reader stops on the bits. -/
def Fails (read : Reader ε α) (bits : List Bool) (e : ε) : Prop :=
  ∀ mem i, Holds mem i bits → read mem i = .error e

theorem Reads.fails {read : Reader ε α} {next : α → Reader ε β} {bits bits' : List Bool} {a : α}
    {e : ε} (h : Reads read bits a) (h' : Fails (next a) bits' e) :
    Fails (read >>= next) (bits ++ bits') e := by
  intro mem i hbits
  obtain ⟨hfront, hback⟩ := holds_append.mp hbits
  rw [run_bind, h mem i hfront]
  exact h' mem _ hback

/-- A reader that takes no bits, and one that stops. -/
theorem Reads.thenFails {next : α → Reader ε β} {bits : List Bool} {read : Reader ε α} {a : α}
    {e : ε} (h : Reads read [] a) (h' : Fails (next a) bits e) : Fails (read >>= next) bits e :=
  h.fails h'

theorem Fails.bind {read : Reader ε α} {bits : List Bool} {e : ε} (h : Fails read bits e)
    (next : α → Reader ε β) : Fails (read >>= next) bits e := by
  intro mem i hbits
  rw [run_bind, h mem i hbits]
  rfl

end Streambox.Lib.BitField
