import Mathlib.Data.List.Basic

/-! wifi-display, TunnelRenderer.cpp: the packets on their way to the player.

    `queueBuffer` keeps the packets sorted by their extended sequence numbers. `dequeueBuffer`
    returns them in that order, waits a while for a number that is missing, and discards numbers
    that are not above the last one it returned. -/

namespace Streambox.WifiDisplay.TunnelRenderer

/-- A buffer: the number that the sender gave the packet, and `int32Data`. The code knows only the
    latter. -/
structure Packet where
  number : Nat
  extSeqNo : Int
  deriving DecidableEq, Repr

/-- TunnelRenderer, without its statistics. -/
structure Renderer where
  packets : List Packet
  lastDequeuedExtSeqNo : Int
  firstFailedAttemptUs : Int
  requestedRetry : Bool
  requestedRetransmission : Bool
  deriving DecidableEq, Repr

def initial : Renderer := ⟨[], -1, -1, false, false⟩

/-- The loop of queueBuffer from the last packet to the first; the packets are in that order. -/
def insertBack (buffer : Packet) : List Packet → List Packet
  | [] => [buffer]
  | p :: ps =>
    if p.extSeqNo = buffer.extSeqNo then p :: ps
    else if p.extSeqNo < buffer.extSeqNo then buffer :: p :: ps
    else p :: insertBack buffer ps

def queueBuffer (r : Renderer) (buffer : Packet) : Renderer :=
  { r with packets := (insertBack buffer r.packets.reverse).reverse }

/-- The loop of dequeueBuffer: the packets that it discards, and those that it leaves. -/
def skipReturned (last : Int) : List Packet → List Packet × List Packet
  | [] => ([], [])
  | p :: ps =>
    if last < 0 ∨ p.extSeqNo > last then ([], p :: ps)
    else (p :: (skipReturned last ps).1, (skipReturned last ps).2)

/-- What a call of dequeueBuffer gives: the packets that it discarded, the number whose
    retransmission it asked for, and the packet that it returned. -/
structure Dequeued where
  discarded : List Packet
  lost : Option Int
  buffer : Option Packet
  deriving DecidableEq, Repr

/-- The packet is returned, and nothing is missing any more. -/
def returnBuffer (p : Packet) (rest : List Packet) : Renderer :=
  ⟨rest, p.extSeqNo, -1, false, false⟩

/-- dequeueBuffer at a time. -/
def dequeueBuffer (r : Renderer) (now : Int) : Renderer × Dequeued :=
  let old := (skipReturned r.lastDequeuedExtSeqNo r.packets).1
  match (skipReturned r.lastDequeuedExtSeqNo r.packets).2 with
  | [] =>
    if r.firstFailedAttemptUs < 0 then
      (⟨[], r.lastDequeuedExtSeqNo, now, false, false⟩, ⟨old, none, none⟩)
    else ({ r with packets := [] }, ⟨old, none, none⟩)
  | p :: rest =>
    if r.lastDequeuedExtSeqNo < 0 ∨ p.extSeqNo = r.lastDequeuedExtSeqNo + 1 then
      (returnBuffer p rest, ⟨old, none, some p⟩)
    else if r.firstFailedAttemptUs < 0 then
      ({ r with packets := p :: rest, firstFailedAttemptUs := now }, ⟨old, none, none⟩)
    else if r.firstFailedAttemptUs + 50000 > now then
      if r.requestedRetransmission then ({ r with packets := p :: rest }, ⟨old, none, none⟩)
      else
        ({ r with packets := p :: rest, requestedRetry := true, requestedRetransmission := true },
        ⟨old, some ((r.lastDequeuedExtSeqNo + 1) % 65536), none⟩)
    else (returnBuffer p rest, ⟨old, none, some p⟩)

/-! ### What the calls do -/

theorem mem_insertBack {buffer p : Packet} {ps : List Packet} (h : p ∈ insertBack buffer ps) :
    p = buffer ∨ p ∈ ps := by
  induction ps with
  | nil => exact .inl (List.mem_singleton.mp h)
  | cons q ps ih =>
    simp only [insertBack] at h
    split_ifs at h
    · exact .inr h
    · exact List.mem_cons.mp h
    · rcases List.mem_cons.mp h with rfl | h
      · exact .inr (List.mem_cons_self ..)
      · exact (ih h).imp_right (List.mem_cons_of_mem q)

/-- Only the new packet is added. -/
theorem mem_queueBuffer {r : Renderer} {buffer p : Packet}
    (h : p ∈ (queueBuffer r buffer).packets) : p = buffer ∨ p ∈ r.packets := by
  rw [queueBuffer, List.mem_reverse] at h
  exact (mem_insertBack h).imp_right List.mem_reverse.mp

/-- The loop takes the packets apart. -/
theorem skipReturned_append (last : Int) (ps : List Packet) :
    (skipReturned last ps).1 ++ (skipReturned last ps).2 = ps := by
  induction ps with
  | nil => rfl
  | cons p ps ih =>
    rw [skipReturned]
    split_ifs
    · rfl
    · simpa using ih

/-- What the loop discards is not above the last number. -/
theorem skipReturned_old {last : Int} {ps : List Packet} {p : Packet}
    (h : p ∈ (skipReturned last ps).1) : 0 ≤ last ∧ p.extSeqNo ≤ last := by
  induction ps with
  | nil => exact absurd h List.not_mem_nil
  | cons q ps ih =>
    rw [skipReturned] at h
    split_ifs at h with hfresh
    · exact absurd h List.not_mem_nil
    · rcases List.mem_cons.mp h with rfl | h
      · omega
      · exact ih h

/-- What the loop stops at is above the last number, if there is one. -/
theorem skipReturned_fresh {last : Int} {ps rest : List Packet} {p : Packet}
    (h : (skipReturned last ps).2 = p :: rest) : last < 0 ∨ last < p.extSeqNo := by
  induction ps with
  | nil => cases h
  | cons q ps ih =>
    rw [skipReturned] at h
    split_ifs at h with hfresh
    · cases h
      exact hfresh
    · exact ih h

/-- What one call of dequeueBuffer does. -/
structure Dequeues (r r' : Renderer) (d : Dequeued) : Prop where
  packets : r.packets = d.discarded ++ d.buffer.toList ++ r'.packets
  discarded : ∀ p ∈ d.discarded,
    0 ≤ r.lastDequeuedExtSeqNo ∧ p.extSeqNo ≤ r.lastDequeuedExtSeqNo
  last : r'.lastDequeuedExtSeqNo = (d.buffer.map Packet.extSeqNo).getD r.lastDequeuedExtSeqNo

theorem dequeueBuffer_dequeues (r : Renderer) (now : Int) :
    Dequeues r (dequeueBuffer r now).1 (dequeueBuffer r now).2 := by
  have happend := skipReturned_append r.lastDequeuedExtSeqNo r.packets
  have hold : ∀ p ∈ (skipReturned r.lastDequeuedExtSeqNo r.packets).1,
      0 ≤ r.lastDequeuedExtSeqNo ∧ p.extSeqNo ≤ r.lastDequeuedExtSeqNo := fun _ => skipReturned_old
  rw [dequeueBuffer]
  cases hleft : (skipReturned r.lastDequeuedExtSeqNo r.packets).2 with
  | nil =>
    rw [hleft] at happend
    dsimp only
    split_ifs
    · exact ⟨by simpa using happend.symm, hold, rfl⟩
    · exact ⟨by simpa using happend.symm, hold, rfl⟩
  | cons p rest =>
    rw [hleft] at happend
    dsimp only
    split_ifs
    all_goals exact ⟨by simpa [returnBuffer] using happend.symm, hold, rfl⟩

/-- A packet is returned only above the last number. -/
theorem dequeueBuffer_fresh {r : Renderer} {now : Int} {p : Packet}
    (h : (dequeueBuffer r now).2.buffer = some p) :
    r.lastDequeuedExtSeqNo < 0 ∨ r.lastDequeuedExtSeqNo < p.extSeqNo := by
  rw [dequeueBuffer] at h
  cases hleft : (skipReturned r.lastDequeuedExtSeqNo r.packets).2 with
  | nil =>
    simp only [hleft] at h
    split_ifs at h
  | cons q rest =>
    simp only [hleft] at h
    split_ifs at h
    all_goals
      cases h
      exact skipReturned_fresh hleft

end Streambox.WifiDisplay.TunnelRenderer
