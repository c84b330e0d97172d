import Mathlib.Data.List.Perm.Basic
import Streambox.PathB.Pipeline

/-! Path B: who holds which buffer.

    Each vdin1 buffer and each P010 slot has one holder at any time. The places are counted: how
    often a buffer stands in the driver's queue, in the hands of the running call, in a job, in a
    `GstBuffer` or with nobody, how often a slot is free, in the hands of the call, in a job or in a
    `GstBuffer`. The count is one for every index in range and zero for every other. Each operation
    moves one index from one place to another, so a call is a chain of moves, and what a call holds
    (`hand`, `grab`) is empty when it returns. -/

namespace Streambox.PathB
open Streambox.Lib

/-! ### Places -/

/-- How often buffer `i` is held, a running call holding `hand`. -/
def Pipe.bufPlaces (s : Pipe) (hand : List Nat) (i : Nat) : Nat :=
  s.queued.count i + hand.count i + (s.jobs.map Job.vdin1).count i +
    (s.live.filterMap fun b => b.hold.buf?).count i + s.idle.count i

/-- One if `i` is a free slot of a pool of `n`. -/
def freeCount (n : Nat) (free : Nat → Bool) (i : Nat) : Nat := if i < n ∧ free i then 1 else 0

/-- How often slot `i` is held, a running call holding `grab`. -/
def Pipe.slotPlaces (s : Pipe) (grab : List Nat) (i : Nat) : Nat :=
  freeCount s.outCount s.outFree i + grab.count i +
    (s.jobs.map Job.out).count i + (s.live.filterMap fun b => b.hold.slot?).count i

/-- Every buffer and slot is held once, and no buffer downstream has lost its pixels. In 10-bit mode
    downstream holds slots only. `L` says that the driver accepts every `QBUF` of a 10-bit session:
    then no buffer is left with nobody while the stream is on. -/
structure Owned (L : Prop) (s : Pipe) (hand grab : List Nat) : Prop where
  bufs : ∀ i, s.bufPlaces hand i = if i < s.nBufs then 1 else 0
  slots : ∀ i, s.slotPlaces grab i = if i < s.outCount then 1 else 0
  shown : ∀ b ∈ s.live, ∀ o, b.hold = .p010 o → s.out o = b.frame
  tenBit : s.vdin1TenBit = true → ∀ b ∈ s.live, b.hold.buf? = none
  idle : L → s.vdin1TenBit = true ∧ (s.streaming = true → s.idle = [])

variable {L : Prop} {s t : Pipe} {hand grab : List Nat} {i o : Nat}

/-- A buffer in hand is one of the session's and not in the queue, so `QBUF` takes it. -/
theorem Owned.fresh (h : Owned L s (i :: hand) grab) : i < s.nBufs ∧ i ∉ s.queued := by
  have hi := h.bufs i
  simp only [Pipe.bufPlaces, List.count_cons_self] at hi
  split at hi
  · next hlt =>
    refine ⟨hlt, fun hq => ?_⟩
    have := List.count_pos_iff.mpr hq
    omega
  · omega

theorem Owned.qbuf {a : Bool} (h : Owned L s (i :: hand) grab) (ha : L → a = true) :
    Owned L (qbuf s i a) hand grab := by
  unfold PathB.qbuf
  split
  · refine ⟨fun j => .trans ?_ (h.bufs j), h.slots, h.shown, h.tenBit, h.idle⟩
    simp only [Pipe.bufPlaces, List.count_append, List.count_cons, List.count_nil]
    omega
  · next hno =>
    have hL : ¬ L := fun hL => hno ⟨ha hL, h.fresh⟩
    refine ⟨fun j => .trans ?_ (h.bufs j), h.slots, h.shown, h.tenBit, fun hl => absurd hl hL⟩
    simp only [Pipe.bufPlaces, List.count_cons]
    omega

theorem Owned.dqbuf (h : Owned L s hand grab) (hs : dqbuf s i = some t) :
    Owned L t (i :: hand) grab := by
  unfold PathB.dqbuf at hs
  split at hs
  · next hq =>
    cases hs
    refine ⟨fun j => .trans ?_ (h.bufs j), h.slots, h.shown, h.tenBit, h.idle⟩
    have hpos := List.count_pos_iff.mpr hq.2
    simp only [Pipe.bufPlaces, List.count_erase, List.count_cons]
    by_cases hij : i = j
    · subst hij
      simp only [beq_self_eq_true, if_true]
      omega
    · simp only [beq_iff_eq, hij, if_false]
      omega
  · cases hs

theorem Owned.acquire (h : Owned L s hand grab) (hs : p010PoolAcquire s = some (o, t)) :
    Owned L t hand (o :: grab) := by
  simp only [p010PoolAcquire, Option.map_eq_some_iff, Prod.mk.injEq] at hs
  obtain ⟨o, hfind, rfl, rfl⟩ := hs
  have hfree := List.find?_some hfind
  have hlt := List.mem_range.mp (List.mem_of_find?_eq_some hfind)
  refine ⟨h.bufs, fun j => .trans ?_ (h.slots j), h.shown, h.tenBit, h.idle⟩
  simp only [Pipe.slotPlaces, List.count_cons]
  by_cases hoj : j = o
  · subst hoj
    simp [freeCount, hlt, hfree]
    omega
  · simp [freeCount, Function.update_of_ne hoj, Ne.symm hoj]

theorem Owned.putOut (h : Owned L s hand (o :: grab)) : Owned L (putOut s o) hand grab := by
  refine ⟨h.bufs, fun j => .trans ?_ (h.slots j), h.shown, h.tenBit, h.idle⟩
  have ho := h.slots o
  simp only [Pipe.slotPlaces, PathB.putOut, List.count_cons] at ho ⊢
  by_cases hoj : j = o
  · subst hoj
    by_cases hlt : j < s.outCount
    · cases hf : s.outFree j <;> simp [freeCount, hlt, hf] at ho ⊢ <;> omega
    · simp [freeCount, hlt] at ho
  · simp [freeCount, Function.update_of_ne hoj, Ne.symm hoj]

theorem Owned.slot_lt (h : Owned L s hand (o :: grab)) : o < s.outCount := by
  have ho := h.slots o
  simp only [Pipe.slotPlaces, List.count_cons_self] at ho
  by_contra hlt
  rw [if_neg hlt] at ho
  omega

/-- What a live buffer holds is in the caller's hands once the buffer is off the list. -/
theorem Owned.drop {b : GstBuffer} {k : Nat} (h : Owned L s hand grab) (hk : s.live[k]? = some b) :
    Owned L { s with live := s.live.eraseIdx k } (b.hold.buf?.toList ++ hand)
      (b.hold.slot?.toList ++ grab) := by
  obtain ⟨hlt, rfl⟩ := List.getElem?_eq_some_iff.mp hk
  have hperm := List.getElem_cons_eraseIdx_perm hlt
  refine ⟨fun j => .trans ?_ (h.bufs j), fun j => .trans ?_ (h.slots j),
    fun b hb => h.shown b (List.mem_of_mem_eraseIdx hb),
    fun hten b hb => h.tenBit hten b (List.mem_of_mem_eraseIdx hb), h.idle⟩
  · have hc := (hperm.filterMap fun b => b.hold.buf?).count_eq j
    rw [List.filterMap_cons] at hc
    simp only [Pipe.bufPlaces, ← hc]
    cases s.live[k].hold.buf? with
    | none => simp
    | some i =>
      simp [List.count_cons]
      omega
  · have hc := (hperm.filterMap fun b => b.hold.slot?).count_eq j
    rw [List.filterMap_cons] at hc
    simp only [Pipe.slotPlaces, ← hc]
    cases s.live[k].hold.slot? with
    | none => simp
    | some i =>
      simp [List.count_cons]
      omega

theorem Owned.dispose (u : Unref) (h : Owned L s hand grab) :
    Owned L (dispose s u) hand grab := by
  unfold PathB.dispose
  split
  · exact h
  · next b hb =>
    have hd := h.drop hb
    cases hh : b.hold with
    | p010 o =>
      rw [hh] at hd
      simp only [release, p010BufRelease]
      rw [if_pos (show o < s.outCount from hd.slot_lt)]
      exact hd.putOut
    | vdin1 i =>
      rw [hh] at hd
      simp only [release, pathBBufRelease]
      rw [if_pos (show i < s.nBufs from hd.fresh.1)]
      refine hd.qbuf fun hL => ?_
      have hno := h.tenBit (h.idle hL).1 b (List.mem_of_getElem? hb)
      rw [hh] at hno
      cases hno

theorem Owned.deliver (hold : Hold) {f : Option Nat}
    (h : Owned L s (hold.buf?.toList ++ hand) (hold.slot?.toList ++ grab))
    (hten : s.vdin1TenBit = true → hold.buf? = none) (hf : ∀ o, hold = .p010 o → s.out o = f) :
    Owned L (deliver s hold f) hand grab := by
  refine ⟨fun j => .trans ?_ (h.bufs j), fun j => .trans ?_ (h.slots j), fun b hb => ?_,
    fun ht b hb => ?_, h.idle⟩
  · simp only [Pipe.bufPlaces, PathB.deliver, List.filterMap_append, List.count_append]
    cases hold with
    | p010 o => simp [Hold.buf?]
    | vdin1 i =>
      simp [Hold.buf?, List.count_cons]
      omega
  · simp only [Pipe.slotPlaces, PathB.deliver, List.filterMap_append, List.count_append]
    cases hold with
    | p010 o =>
      simp [Hold.slot?, List.count_cons]
      omega
    | vdin1 i => simp [Hold.slot?]
  · rcases List.mem_append.mp hb with hb | hb
    · exact h.shown b hb
    · rw [List.mem_singleton] at hb
      exact hb ▸ hf
  · rcases List.mem_append.mp hb with hb | hb
    · exact h.tenBit ht b hb
    · rw [List.mem_singleton] at hb
      exact hb ▸ hten ht

theorem Owned.streamoff (h : Owned L s hand grab) : Owned L (vdin1Streamoff s) hand grab := by
  refine ⟨fun j => .trans ?_ (h.bufs j), h.slots, h.shown, h.tenBit,
    fun hL => ⟨(h.idle hL).1, nofun⟩⟩
  simp only [Pipe.bufPlaces, vdin1Streamoff, List.count_append, List.count_nil]
  omega

/-- Nothing downstream shows a slot that the call or a job holds, so writing it changes nothing
    there. -/
theorem Owned.write {x : Option Nat} (h : Owned L s hand grab)
    (ho : 0 < grab.count o + (s.jobs.map Job.out).count o) :
    ∀ b ∈ s.live, ∀ o', b.hold = .p010 o' → Function.update s.out o x o' = b.frame := by
  intro b hb o' hh
  have hlive : 0 < (s.live.filterMap fun b => b.hold.slot?).count o' :=
    List.count_pos_iff.mpr (List.mem_filterMap.mpr ⟨b, hb, by rw [hh]; rfl⟩)
  have hne : o' ≠ o := by
    rintro rfl
    have hc := h.slots o'
    simp only [Pipe.slotPlaces] at hc
    split at hc <;> omega
  rw [Function.update_of_ne hne]
  exact h.shown b hb o' hh

/-- A job takes its buffer and its slot. -/
theorem Owned.push {k : Nat} (h : Owned L s (i :: hand) (o :: grab)) :
    Owned L { s with
      jobs := s.jobs ++ [⟨k, i, o⟩]
      out := Function.update s.out o none } hand grab := by
  refine ⟨fun j => .trans ?_ (h.bufs j), fun j => .trans ?_ (h.slots j), h.write ?_, h.tenBit,
    h.idle⟩
  all_goals simp [Pipe.bufPlaces, Pipe.slotPlaces, List.count_cons]
  all_goals omega

/-- A job that is over gives both back. -/
theorem Owned.pop {j : Job} {x : Option Nat} (h : Owned L s hand grab) (hj : s.jobs = [j]) :
    Owned L { s with
      jobs := []
      out := Function.update s.out j.out x } (j.vdin1 :: hand) (j.out :: grab) := by
  refine ⟨fun i => .trans ?_ (h.bufs i), fun i => .trans ?_ (h.slots i), h.write (by simp [hj]),
    h.tenBit, h.idle⟩ <;> simp [Pipe.bufPlaces, Pipe.slotPlaces, hj, List.count_cons] <;> omega

/-- In 10-bit mode dropping a buffer does not touch the driver. -/
theorem Owned.dispose_driver (h : Owned L s hand grab) (hten : s.vdin1TenBit = true) (u : Unref) :
    (PathB.dispose s u).vdin1 = s.vdin1 ∧ (PathB.dispose s u).queued = s.queued := by
  unfold PathB.dispose
  split
  · exact ⟨rfl, rfl⟩
  · next b hb =>
    have hno := h.tenBit hten b (List.mem_of_getElem? hb)
    cases hh : b.hold with
    | p010 o =>
      simp only [release, p010BufRelease]
      split <;> exact ⟨rfl, rfl⟩
    | vdin1 i =>
      rw [hh] at hno
      cases hno

theorem Owned.grab_ne (h : Owned L s hand (o :: grab)) : o ∉ grab := by
  intro hmem
  have ho := h.slots o
  have hpos := List.count_pos_iff.mpr hmem
  simp only [Pipe.slotPlaces, List.count_cons_self] at ho
  split at ho <;> omega

theorem Owned.hand_ne (h : Owned L s (i :: hand) grab) : i ∉ hand := by
  intro hmem
  have hi := h.bufs i
  have hpos := List.count_pos_iff.mpr hmem
  simp only [Pipe.bufPlaces, List.count_cons_self] at hi
  split at hi <;> omega

theorem Owned.hand_jobs (h : Owned L s (i :: hand) grab) : ∀ j ∈ s.jobs, j.vdin1 ≠ i := by
  rintro j hj rfl
  have hi := h.bufs j.vdin1
  have hpos := List.count_pos_iff.mpr (List.mem_map_of_mem (f := Job.vdin1) hj)
  simp only [Pipe.bufPlaces, List.count_cons_self] at hi
  split at hi <;> omega

/-- What is recorded of a call has no part in the places. -/
theorem Owned.record (h : Owned L s hand grab) (p : Bool) (xs : List Trouble) (ns : List Note) :
    Owned L { s with asyncPending := p, troubles := xs, notes := ns } hand grab :=
  ⟨h.bufs, h.slots, h.shown, h.tenBit, h.idle⟩

theorem Owned.note (h : Owned L s hand grab) (n : Note) : Owned L (s.note n) hand grab :=
  h.record s.asyncPending s.troubles (s.notes ++ [n])

end Streambox.PathB
