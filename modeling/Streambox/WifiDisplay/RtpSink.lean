import Mathlib.Algebra.Group.Nat.Defs
import Mathlib.Data.Nat.Bitwise

/-! wifi-display, RTPSink.cpp: extended sequence numbers.

    The packets of a sender carry the low 16 bits of their number. `Source` counts how often they
    wrapped around and hands a packet on with the count above its 16 bits. A source starts on
    probation and counts only after two packets in sequence. -/

namespace Streambox.WifiDisplay.RtpSink

/-- RTPSink::Source. The counters of the receiver reports that nothing here reads are left out. -/
structure Source where
  maxSeq : UInt16
  cycles : UInt32
  baseSeq : UInt32
  badSeq : UInt32
  probation : UInt32
  received : UInt32
  deriving DecidableEq, Repr

def kMinSequential : UInt32 := 2
def kMaxDropout : UInt32 := 3000
def kMaxMisorder : UInt32 := 100
def kRTPSeqMod : UInt32 := 65536

/-- initSeq, which leaves the probation as it is. -/
def initSeq (probation : UInt32) (seq : UInt16) : Source :=
  ⟨seq, 0, seq.toUInt32, kRTPSeqMod + 1, probation, 0⟩

/-- What a packet is handed on with. -/
def extended (s : Source) (seq : UInt16) : UInt32 := s.cycles ||| seq.toUInt32

/-- The constructor, with what the first packet is handed on with. -/
def construct (seq : UInt16) : Source × UInt32 :=
  let s := { initSeq kMinSequential seq with maxSeq := seq - 1 }
  (s, extended s seq)

/-- updateSeq, with what the packet is handed on with, if it is. -/
def updateSeq (s : Source) (seq : UInt16) : Source × Option UInt32 :=
  let udelta := (seq - s.maxSeq).toUInt32
  if s.probation ≠ 0 then
    -- start-up; `mMaxSeq + 1` is an int and does not wrap around
    if seq.toNat = s.maxSeq.toNat + 1 then
      let probation := s.probation - 1
      if probation = 0 then
        ({ initSeq probation seq with received := 1 }, some (extended s seq))
      else ({ s with probation := probation, maxSeq := seq }, some (extended s seq))
    else ({ s with probation := kMinSequential - 1, maxSeq := seq }, some (extended s seq))
  else if udelta < kMaxDropout then
    -- in order, with a permissible gap
    let cycles := if seq < s.maxSeq then s.cycles + kRTPSeqMod else s.cycles
    let s' := { s with cycles := cycles, maxSeq := seq, received := s.received + 1 }
    (s', some (extended s' seq))
  else if udelta ≤ kRTPSeqMod - kMaxMisorder then
    -- a very large jump
    if seq.toUInt32 = s.badSeq then
      let s' := { initSeq s.probation seq with received := 1 }
      (s', some (extended s' seq))
    else ({ s with badSeq := (seq.toUInt32 + 1) &&& (kRTPSeqMod - 1) }, none)
  else
    -- a duplicate or a reordered packet
    ({ s with received := s.received + 1 }, some (extended s seq))

/-! ### True numbers -/

/-- What a packet carries of its number. -/
def wire (t : Nat) : UInt16 := UInt16.ofNat t

/-- The source has left the start-up. It counts from block `b` of 65536 numbers, and the packet of
    `mMaxSeq` has number `m`. -/
structure Counts (s : Source) (b m : Nat) : Prop where
  settled : s.probation = 0
  started : b ≤ m / 65536
  maxSeq : s.maxSeq.toNat = m % 65536
  cycles : s.cycles.toNat = 65536 * (m / 65536 - b) % 2 ^ 32

theorem toNat_wire (t : Nat) : (wire t).toNat = t % 65536 := UInt16.toNat_ofNat ..

/-- The count is put above the 16 bits. -/
theorem toNat_extended {s : Source} {k : Nat} (hk : s.cycles.toNat = 65536 * k % 2 ^ 32) (t : Nat) :
    (extended s (wire t)).toNat = (65536 * k + t % 65536) % 2 ^ 32 := by
  have hlow : t % 65536 < 2 ^ 16 := Nat.mod_lt t (by decide)
  have hhigh : 65536 * k % 2 ^ 32 = 2 ^ 16 * (k % 65536) := by omega
  rw [extended, UInt32.toNat_or, UInt16.toNat_toUInt32, toNat_wire, hk, hhigh,
    ← Nat.two_pow_add_eq_or_of_lt hlow]
  omega

/-- How far a packet is ahead of that of `mMaxSeq`, in 16 bits. -/
theorem toNat_udelta {s : Source} {m : Nat} (hm : s.maxSeq.toNat = m % 65536) (t : Nat) :
    (wire t - s.maxSeq).toUInt32.toNat = (65536 - m % 65536 + t % 65536) % 65536 := by
  rw [UInt16.toNat_toUInt32, UInt16.toNat_sub, hm, toNat_wire]

/-- A packet that is not behind and not too far ahead is counted. -/
theorem updateSeq_ahead {s : Source} {b m t : Nat} (h : Counts s b m) (hm : m ≤ t)
    (ht : t < m + 3000) :
    Counts (updateSeq s (wire t)).1 b t ∧
      ∃ d, (updateSeq s (wire t)).2 = some d ∧ d.toNat = (t - 65536 * b) % 2 ^ 32 := by
  have hb := h.started
  have hdelta : (wire t - s.maxSeq).toUInt32 < kMaxDropout := by
    rw [UInt32.lt_iff_toNat_lt, toNat_udelta h.maxSeq]
    have hdropout : kMaxDropout.toNat = 3000 := rfl
    omega
  set s' : Source := { s with
    cycles := if wire t < s.maxSeq then s.cycles + kRTPSeqMod else s.cycles
    maxSeq := wire t
    received := s.received + 1 } with hs'
  have hupdate : updateSeq s (wire t) = (s', some (extended s' (wire t))) := by
    rw [updateSeq, if_neg (not_not.mpr h.settled), if_pos hdelta]
  have hcycles : s'.cycles.toNat = 65536 * (t / 65536 - b) % 2 ^ 32 := by
    have hwrap : wire t < s.maxSeq ↔ t % 65536 < m % 65536 := by
      rw [UInt16.lt_iff_toNat_lt, toNat_wire, h.maxSeq]
    by_cases hlt : wire t < s.maxSeq
    · have hmod := hwrap.mp hlt
      have hnext : s'.cycles = s.cycles + kRTPSeqMod := if_pos hlt
      have hseqMod : kRTPSeqMod.toNat = 65536 := rfl
      rw [hnext, UInt32.toNat_add, h.cycles, hseqMod]
      omega
    · have hmod := mt hwrap.mpr hlt
      have hsame : s'.cycles = s.cycles := if_neg hlt
      rw [hsame, h.cycles]
      congr 2
      omega
  rw [hupdate]
  refine ⟨⟨h.settled, by omega, toNat_wire t, hcycles⟩, _, rfl, ?_⟩
  rw [toNat_extended hcycles]
  congr 1
  omega

/-- A packet that is a little behind gets the count of the packet of `mMaxSeq`. -/
theorem updateSeq_behind {s : Source} {b m t : Nat} (h : Counts s b m) (hm : t < m)
    (ht : m ≤ t + 99) :
    Counts (updateSeq s (wire t)).1 b m ∧ ∃ d, (updateSeq s (wire t)).2 = some d ∧
      d.toNat = (65536 * (m / 65536 - b) + t % 65536) % 2 ^ 32 := by
  have hdropout : kMaxDropout.toNat = 3000 := rfl
  have hmisorder : (kRTPSeqMod - kMaxMisorder).toNat = 65436 := rfl
  have hnear : ¬ (wire t - s.maxSeq).toUInt32 < kMaxDropout := by
    rw [UInt32.lt_iff_toNat_lt, toNat_udelta h.maxSeq]
    omega
  have hfar : ¬ (wire t - s.maxSeq).toUInt32 ≤ kRTPSeqMod - kMaxMisorder := by
    rw [UInt32.le_iff_toNat_le, toNat_udelta h.maxSeq]
    omega
  have hupdate : updateSeq s (wire t) =
      ({ s with received := s.received + 1 }, some (extended s (wire t))) := by
    rw [updateSeq, if_neg (not_not.mpr h.settled), if_neg hnear, if_neg hfar]
  rw [hupdate]
  exact ⟨⟨h.settled, h.started, h.maxSeq, h.cycles⟩, _, rfl, toNat_extended h.cycles t⟩

/-- In the start-up a packet is handed on with its 16 bits. The packet that ends the start-up is the
    one to count from. -/
theorem updateSeq_startup {s : Source} (hprob : s.probation ≠ 0) (hcycles : s.cycles = 0)
    (t : Nat) :
    (∃ d, (updateSeq s (wire t)).2 = some d ∧ d.toNat = t % 65536) ∧
      ((updateSeq s (wire t)).1.probation ≠ 0 ∧ (updateSeq s (wire t)).1.cycles = 0 ∨
        Counts (updateSeq s (wire t)).1 (t / 65536) t) := by
  have hdata : (extended s (wire t)).toNat = t % 65536 := by
    have hzero : s.cycles.toNat = 65536 * 0 % 2 ^ 32 := by rw [hcycles]; rfl
    rw [toNat_extended hzero]
    omega
  have hrestart : kMinSequential - 1 ≠ 0 := by decide
  by_cases hnext : (wire t).toNat = s.maxSeq.toNat + 1
  · rw [updateSeq, if_pos hprob, if_pos hnext]
    by_cases hend : s.probation - 1 = 0
    · simp only [if_pos hend]
      refine ⟨⟨_, rfl, hdata⟩, .inr ⟨hend, Nat.le_refl _, toNat_wire t, ?_⟩⟩
      rw [Nat.sub_self]
      rfl
    · simp only [if_neg hend]
      exact ⟨⟨_, rfl, hdata⟩, .inl ⟨hend, hcycles⟩⟩
  · rw [updateSeq, if_pos hprob, if_neg hnext]
    exact ⟨⟨_, rfl, hdata⟩, .inl ⟨hrestart, hcycles⟩⟩

/-- The first packet is handed on with its 16 bits, and the start-up begins. -/
theorem construct_startup (t : Nat) :
    (construct (wire t)).2.toNat = t % 65536 ∧ (construct (wire t)).1.probation ≠ 0 ∧
      (construct (wire t)).1.cycles = 0 := by
  have hmin : kMinSequential ≠ 0 := by decide
  refine ⟨?_, hmin, rfl⟩
  have hzero : (construct (wire t)).1.cycles.toNat = 65536 * 0 % 2 ^ 32 := rfl
  have hdata := toNat_extended hzero t
  rw [Nat.mul_zero, Nat.zero_add, Nat.mod_eq_of_lt (by omega)] at hdata
  exact hdata

end Streambox.WifiDisplay.RtpSink
