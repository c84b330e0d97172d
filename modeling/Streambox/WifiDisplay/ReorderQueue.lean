import Streambox.Lib.Run
import Streambox.WifiDisplay.TunnelRenderer
import Mathlib.Tactic.SplitIfs

/-! wifi-display, TunnelRenderer.cpp: the packets between queueBuffer and dequeueBuffer.

    The two are called in any order. The queue stays strictly sorted, what leaves it is strictly
    increasing, and every buffer that arrived is still there, was returned, or was discarded for a
    reason that the record of the discard shows.

        arrived  ──▶  duplicate of a number in the queue       (queueBuffer)
                 ──▶  in the queue  ──▶  not above the last    (dequeueBuffer)
                                    ──▶  returned -/

namespace Streambox.WifiDisplay.ReorderQueue
open Streambox.Lib Streambox.WifiDisplay.TunnelRenderer

/-- A buffer that was discarded: by queueBuffer, with the queue that it found, or by dequeueBuffer,
    with the buffer that was returned last. -/
inductive Drop where
  | atArrival (buffer : Packet) (queue : List Packet)
  | atDequeue (buffer : Packet) (lastReturned : Option Packet)
  deriving DecidableEq, Repr

def Drop.buffer : Drop → Packet
  | .atArrival buffer _ => buffer
  | .atDequeue buffer _ => buffer

/-- An equal number was in the queue, or the number is not larger than the last one returned. -/
def Drop.Justified : Drop → Prop
  | .atArrival buffer queue => ∃ q ∈ queue, q.extSeqNo = buffer.extSeqNo
  | .atDequeue buffer lastReturned => ∃ q ∈ lastReturned, buffer.extSeqNo ≤ q.extSeqNo

/-- The renderer, the time of its last call, and what became of the buffers. -/
structure State where
  renderer : Renderer
  clock : Int
  arrived : List Packet
  returned : List Packet
  dropped : List Drop
  deriving DecidableEq, Repr

def start : State := ⟨initial, 0, [], [], []⟩

/-- The calls: queueBuffer with a buffer, dequeueBuffer at a time. -/
inductive Call where
  | queue (buffer : Packet)
  | dequeue (now : Int)
  deriving DecidableEq, Repr

/-- The record of queueBuffer's early return, which leaves the queue as it is. -/
def refused (r : Renderer) (buffer : Packet) : List Drop :=
  if (queueBuffer r buffer).packets = r.packets then [.atArrival buffer r.packets] else []

/-- One call: `int32Data` is not negative, and the clock does not go back. -/
def step (s : State) : Call → Option State
  | .queue buffer =>
    if 0 ≤ buffer.extSeqNo ∧ buffer.extSeqNo < 2147483648 then
      some { s with
        renderer := queueBuffer s.renderer buffer
        arrived := s.arrived ++ [buffer]
        dropped := s.dropped ++ refused s.renderer buffer }
    else none
  | .dequeue now =>
    if s.clock ≤ now then
      some { s with
        renderer := (dequeueBuffer s.renderer now).1
        clock := now
        returned := s.returned ++ (dequeueBuffer s.renderer now).2.buffer.toList
        dropped := s.dropped ++ (dequeueBuffer s.renderer now).2.discarded.map
          (Drop.atDequeue · s.returned.getLast?) }
    else none

/-! ### The walk from the tail -/

/-- Strictly decreasing, as the loop meets the packets. -/
def Descending (ps : List Packet) : Prop := ps.Pairwise fun p q => q.extSeqNo < p.extSeqNo

/-- The walk keeps the order. -/
theorem insertBack_descending {buffer : Packet} {ps : List Packet} (h : Descending ps) :
    Descending (insertBack buffer ps) := by
  induction ps with
  | nil => exact List.pairwise_singleton ..
  | cons p ps ih =>
    obtain ⟨hp, hps⟩ := List.pairwise_cons.mp h
    rw [insertBack]
    split_ifs with heq hlt
    · exact h
    · refine List.pairwise_cons.mpr ⟨fun q hq => ?_, h⟩
      rcases List.mem_cons.mp hq with rfl | hq
      · exact hlt
      · exact Int.lt_trans (hp q hq) hlt
    · refine List.pairwise_cons.mpr ⟨fun q hq => ?_, ih hps⟩
      rcases mem_insertBack hq with rfl | hq
      · omega
      · exact hp q hq

/-- The walk adds the buffer, or meets its number and changes nothing. -/
theorem insertBack_cases (buffer : Packet) (ps : List Packet) :
    ((∃ q ∈ ps, q.extSeqNo = buffer.extSeqNo) ∧ insertBack buffer ps = ps) ∨
      (insertBack buffer ps).Perm (buffer :: ps) := by
  induction ps with
  | nil => exact .inr (List.Perm.refl _)
  | cons p ps ih =>
    rw [insertBack]
    split_ifs with heq hlt
    · exact .inl ⟨⟨p, List.mem_cons_self .., heq⟩, rfl⟩
    · exact .inr (List.Perm.refl _)
    · rcases ih with ⟨⟨q, hq, hnum⟩, hsame⟩ | hperm
      · exact .inl ⟨⟨q, List.mem_cons_of_mem p hq, hnum⟩, congrArg (p :: ·) hsame⟩
      · exact .inr ((hperm.cons p).trans (List.Perm.swap ..))

/-- queueBuffer adds the buffer, or finds its number and changes nothing. -/
theorem queueBuffer_cases (r : Renderer) (buffer : Packet) :
    ((∃ q ∈ r.packets, q.extSeqNo = buffer.extSeqNo) ∧
      (queueBuffer r buffer).packets = r.packets) ∨
    (queueBuffer r buffer).packets.Perm (buffer :: r.packets) := by
  rcases insertBack_cases buffer r.packets.reverse with ⟨⟨q, hq, hnum⟩, hsame⟩ | hperm
  · exact .inl ⟨⟨q, List.mem_reverse.mp hq, hnum⟩, by simp [queueBuffer, hsame]⟩
  · refine .inr ?_
    calc (queueBuffer r buffer).packets
      _ |>.Perm (insertBack buffer r.packets.reverse) := List.reverse_perm _
      _ |>.Perm (buffer :: r.packets.reverse) := hperm
      _ |>.Perm (buffer :: r.packets) := (List.reverse_perm _).cons buffer

/-! ### The invariant -/

/-- Strictly increasing numbers. -/
def Increasing (ps : List Packet) : Prop := ps.Pairwise fun p q => p.extSeqNo < q.extSeqNo

/-- What holds between two calls. `last` links the renderer's counter to what was returned. -/
structure Inv (s : State) : Prop where
  sorted : Increasing s.renderer.packets
  nonneg : ∀ p ∈ s.renderer.packets, 0 ≤ p.extSeqNo
  last : s.renderer.lastDequeuedExtSeqNo = (s.returned.getLast?.map Packet.extSeqNo).getD (-1)
  increasing : Increasing s.returned
  bounded : ∀ p ∈ s.returned, 0 ≤ p.extSeqNo ∧ p.extSeqNo ≤ s.renderer.lastDequeuedExtSeqNo
  accounted : s.arrived.Perm
    (s.renderer.packets ++ s.returned ++ s.dropped.map Drop.buffer)
  justified : ∀ d ∈ s.dropped, d.Justified

theorem inv_start : Inv start where
  sorted := List.Pairwise.nil
  nonneg := fun _ h => absurd h List.not_mem_nil
  last := rfl
  increasing := List.Pairwise.nil
  bounded := fun _ h => absurd h List.not_mem_nil
  accounted := List.Perm.refl _
  justified := fun _ h => absurd h List.not_mem_nil

theorem queueBuffer_increasing {r : Renderer} {buffer : Packet} (h : Increasing r.packets) :
    Increasing (queueBuffer r buffer).packets := by
  have hdesc : Descending r.packets.reverse := List.pairwise_reverse.mpr h
  exact List.pairwise_reverse.mpr (insertBack_descending hdesc)

/-- queueBuffer accounts for the buffer: it is in the queue, or its discard is recorded. -/
theorem queueBuffer_accounted (r : Renderer) (buffer : Packet) :
    (r.packets ++ [buffer]).Perm
      ((queueBuffer r buffer).packets ++ (refused r buffer).map Drop.buffer) := by
  rcases queueBuffer_cases r buffer with ⟨-, hsame⟩ | hperm
  · simp [refused, hsame, Drop.buffer]
  · have hnot : (queueBuffer r buffer).packets ≠ r.packets := by
      intro hsame
      have hlength := hperm.length_eq
      simp [hsame] at hlength
    simp only [refused, hnot, if_false, List.map_nil, List.append_nil]
    exact (List.perm_append_singleton ..).trans hperm.symm

theorem refused_justified {r : Renderer} {buffer : Packet} {d : Drop} (h : d ∈ refused r buffer) :
    d.Justified := by
  rw [refused] at h
  split_ifs at h with hsame
  · rw [List.mem_singleton.mp h]
    rcases queueBuffer_cases r buffer with ⟨hdup, -⟩ | hperm
    · exact hdup
    · have hlength := hperm.length_eq
      simp [hsame] at hlength
  · exact absurd h List.not_mem_nil

theorem queue_inv {s : State} {buffer : Packet} (hs : Inv s) (hnum : 0 ≤ buffer.extSeqNo) :
    Inv { s with
      renderer := queueBuffer s.renderer buffer
      arrived := s.arrived ++ [buffer]
      dropped := s.dropped ++ refused s.renderer buffer } where
  sorted := queueBuffer_increasing hs.sorted
  nonneg := by
    intro p hp
    rcases mem_queueBuffer hp with rfl | hp
    · exact hnum
    · exact hs.nonneg p hp
  last := hs.last
  increasing := hs.increasing
  bounded := hs.bounded
  accounted := by
    have hnew := queueBuffer_accounted s.renderer buffer
    have hold := hs.accounted
    rw [List.perm_iff_count] at hnew hold ⊢
    intro p
    have hnewp := hnew p
    have holdp := hold p
    simp only [List.map_append, List.count_append] at hnewp holdp ⊢
    omega
  justified := by
    intro d hd
    rcases List.mem_append.mp hd with hd | hd
    · exact hs.justified d hd
    · exact refused_justified hd

/-- A packet that dequeueBuffer returns is above all those it returned before. -/
theorem returned_below {s : State} {now : Int} {p q : Packet} (hs : Inv s)
    (hp : (dequeueBuffer s.renderer now).2.buffer = some p) (hq : q ∈ s.returned) :
    q.extSeqNo < p.extSeqNo := by
  obtain ⟨hnonneg, hle⟩ := hs.bounded q hq
  rcases dequeueBuffer_fresh hp with hnone | hfresh
  · omega
  · omega

/-- What dequeueBuffer discards is not above the buffer that was returned last. -/
theorem discarded_justified {s : State} {now : Int} {p : Packet} (hs : Inv s)
    (hp : p ∈ (dequeueBuffer s.renderer now).2.discarded) :
    (Drop.atDequeue p s.returned.getLast?).Justified := by
  obtain ⟨hnonneg, hle⟩ := (dequeueBuffer_dequeues s.renderer now).discarded p hp
  have hlast := hs.last
  cases hreturned : s.returned.getLast? with
  | none =>
    simp only [hreturned, Option.map_none, Option.getD_none] at hlast
    omega
  | some q =>
    simp only [hreturned, Option.map_some, Option.getD_some] at hlast
    exact ⟨q, rfl, hlast ▸ hle⟩

theorem dequeue_inv {s : State} {now : Int} (hs : Inv s) :
    Inv { s with
      renderer := (dequeueBuffer s.renderer now).1
      clock := now
      returned := s.returned ++ (dequeueBuffer s.renderer now).2.buffer.toList
      dropped := s.dropped ++ (dequeueBuffer s.renderer now).2.discarded.map
        (Drop.atDequeue · s.returned.getLast?) } := by
  have hdeq := dequeueBuffer_dequeues s.renderer now
  have hsplit := hdeq.packets
  have hsorted := hs.sorted
  have hnonneg := hs.nonneg
  rw [hsplit] at hsorted hnonneg
  constructor
  case sorted => exact (List.pairwise_append.mp hsorted).2.1
  case nonneg => exact fun p hp => hnonneg p (List.mem_append_right _ hp)
  case last =>
    rw [hdeq.last]
    cases hbuffer : (dequeueBuffer s.renderer now).2.buffer with
    | none => simpa using hs.last
    | some p => simp
  case increasing =>
    refine List.pairwise_append.mpr ⟨hs.increasing, ?_, fun q hq p hp => ?_⟩
    · exact (List.pairwise_append.mp (List.pairwise_append.mp hsorted).1).2.1
    · exact returned_below hs (Option.mem_toList.mp hp) hq
  case bounded =>
    intro q hq
    rw [hdeq.last]
    rcases List.mem_append.mp hq with hq | hq
    · obtain ⟨hq0, hqlast⟩ := hs.bounded q hq
      refine ⟨hq0, ?_⟩
      cases hbuffer : (dequeueBuffer s.renderer now).2.buffer with
      | none => exact hqlast
      | some p => exact Int.le_of_lt (returned_below hs hbuffer hq)
    · refine ⟨hnonneg q (List.mem_append_left _ (List.mem_append_right _ hq)), ?_⟩
      rw [Option.mem_toList.mp hq]
      exact Int.le_refl _
  case accounted =>
    have hold := hs.accounted
    rw [List.perm_iff_count] at hold ⊢
    intro p
    have holdp := hold p
    have hbuffers : ((dequeueBuffer s.renderer now).2.discarded.map
        (Drop.atDequeue · s.returned.getLast?)).map Drop.buffer =
        (dequeueBuffer s.renderer now).2.discarded := by
      simp [Function.comp_def, Drop.buffer]
    simp only [List.map_append, List.count_append, hbuffers] at holdp ⊢
    rw [hsplit] at holdp
    simp only [List.count_append] at holdp
    omega
  case justified =>
    intro d hd
    rcases List.mem_append.mp hd with hd | hd
    · exact hs.justified d hd
    · obtain ⟨p, hp, rfl⟩ := List.mem_map.mp hd
      exact discarded_justified hs hp

theorem step_inv (s : State) (c : Call) (s' : State) (hs : Inv s) (h : step s c = some s') :
    Inv s' := by
  cases c with
  | queue buffer =>
    simp only [step] at h
    split_ifs at h with hnum
    cases h
    exact queue_inv hs hnum.1
  | dequeue now =>
    simp only [step] at h
    split_ifs at h
    cases h
    exact dequeue_inv hs

/-- After any calls the queue and what was returned are strictly increasing, every buffer is
    accounted for, and none was discarded without a reason. -/
theorem reorder_queue_ordered (calls : List Call) (s : State)
    (hrun : run step start calls = some s) :
    s.renderer.packets.Pairwise (fun p q => p.extSeqNo < q.extSeqNo) ∧
    (s.returned.map Packet.extSeqNo).Pairwise (· < ·) ∧
    s.arrived.Perm (s.renderer.packets ++ s.returned ++ s.dropped.map Drop.buffer) ∧
    ∀ d ∈ s.dropped, d.Justified := by
  have hs : Inv s := run_preserves step_inv hrun inv_start
  exact ⟨hs.sorted, List.pairwise_map.mpr hs.increasing, hs.accounted, hs.justified⟩

/-- Numbers 5, 3, 3 and 7, with a wait for 4 and 6, and then a late 4. -/
def lateCalls : List Call :=
  [.queue ⟨0, 5⟩, .queue ⟨1, 3⟩, .queue ⟨2, 3⟩, .dequeue 0, .dequeue 1, .dequeue 50001,
    .queue ⟨3, 4⟩, .queue ⟨4, 7⟩, .dequeue 50002, .dequeue 100002]

theorem reorder_queue_ordered_late :
    ∃ s, run step start lateCalls = some s ∧
      s.returned.map Packet.number = [1, 0, 4] ∧
      s.dropped.map (Packet.number ∘ Drop.buffer) = [2, 3] ∧
      (s.returned.map Packet.extSeqNo).Pairwise (· < ·) :=
  ⟨_, rfl, rfl, rfl, (reorder_queue_ordered lateCalls _ rfl).2.1⟩

end Streambox.WifiDisplay.ReorderQueue
