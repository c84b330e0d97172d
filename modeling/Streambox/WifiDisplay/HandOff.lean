import Streambox.WifiDisplay.StreamSource
import Mathlib.Data.List.Perm.Basic
import Mathlib.Data.List.Nodup

/-! wifi-display: nothing is lost, repeated or reordered between the renderer and the player.

    Three facts hold between any two steps of the two threads. Every index is in exactly one place;
    this alone keeps a buffer that is queued from being written again. And the bytes that were read,
    the bytes that are queued and the packet that `doSomeWork` has in its hands are, one after the
    other, the packets that were dequeued. -/

namespace Streambox.WifiDisplay.StreamSource
open Streambox.Lib

/-! ### Where the indices and the bytes are -/

/-- The index that a message gives back; the request for more data has none. -/
def bufferIndex (value : Int) : Option Nat :=
  if toSizeT value ≥ 0x80000000 then none else some (toSizeT value)

def Entry.index? : Entry → Option Nat
  | .data index _ _ => some index
  | .command _ => none

/-- The index that `doSomeWork` has taken and not yet queued. -/
def Phase.index? : Phase → Option Nat
  | .claimed index _ => some index
  | .copied index _ => some index
  | _ => none

/-- Every place of an index. -/
def places (s : State) : List Nat :=
  s.inFlight.filterMap bufferIndex ++ s.indicesAvailable ++ s.queue.filterMap Entry.index? ++
    s.phase.index?.toList

/-- What an entry holds. -/
def Entry.bytes (buffers : Nat → Bytes) : Entry → Bytes
  | .data index size offset => ((buffers index).drop offset).take size
  | .command _ => []

def held (buffers : Nat → Bytes) (queue : List Entry) : Bytes := queue.flatMap (Entry.bytes buffers)

/-- The packet that `doSomeWork` has in its hands. -/
def Phase.pending (buffers : Nat → Bytes) : Phase → Bytes
  | .dequeued srcBuffer => srcBuffer
  | .announced srcBuffer => srcBuffer
  | .claimed _ srcBuffer => srcBuffer
  | .copied index size => (buffers index).take size
  | _ => []

def ReadResult.bytes : ReadResult → Bytes
  | .data bytes => bytes
  | _ => []

/-- All that `read` has returned. -/
def output (s : State) : Bytes := s.reads.flatMap ReadResult.bytes

/-! ### The invariant -/

/-- A packet that passes the CHECKs and is not empty. -/
def Fits (packet : Bytes) : Prop :=
  packet ≠ [] ∧ packet.length % 188 = 0 ∧ packet.length ≤ bufferSize

/-- What the environment does: packets fit, reads ask for something, and no EOS is issued. -/
def Permitted : Action → Prop
  | .work (some packet) => Fits packet
  | .work none => True
  | .deliver _ => True
  | .read size => 0 < size
  | .issue cmd => cmd ≠ .eos

instance (packet : Bytes) : Decidable (Fits packet) :=
  inferInstanceAs (Decidable (packet ≠ [] ∧ packet.length % 188 = 0 ∧ packet.length ≤ bufferSize))

instance : DecidablePred Permitted
  | .work (some packet) => inferInstanceAs (Decidable (Fits packet))
  | .work none => isTrue trivial
  | .deliver _ => isTrue trivial
  | .read size => inferInstanceAs (Decidable (0 < size))
  | .issue cmd => inferInstanceAs (Decidable (cmd ≠ .eos))

/-- What `doSomeWork` relies on from one piece to the next. -/
def Phase.Ready (indicesAvailable : List Nat) : Phase → Prop
  | .idle => True
  | .loop => True
  | .dequeued srcBuffer => Fits srcBuffer ∧ indicesAvailable ≠ []
  | .announced srcBuffer => Fits srcBuffer ∧ indicesAvailable ≠ []
  | .claimed _ srcBuffer => Fits srcBuffer
  | .copied _ size => 0 < size ∧ size ≤ bufferSize

/-- A data entry lies in its buffer and has something left. -/
def Entry.Valid : Entry → Prop
  | .data _ size offset => 0 < size ∧ offset + size ≤ bufferSize
  | .command cmd => cmd ≠ .eos

structure Inv (s : State) : Prop where
  alive : s.aborted = false
  playing : s.eos = false
  sized : ∀ i < numBuffers, (s.buffers i).length = bufferSize
  circulates : (places s).Perm (List.range numBuffers)
  valid : ∀ e ∈ s.queue, e.Valid
  ready : s.phase.Ready s.indicesAvailable
  stream : output s ++ held s.buffers s.queue ++ s.phase.pending s.buffers = s.packets.flatten

section places
variable {s : State} {i : Nat}

theorem Inv.nodup (hs : Inv s) : (places s).Nodup := hs.circulates.nodup_iff.mpr List.nodup_range

theorem Inv.lt_of_mem (hs : Inv s) (h : i ∈ places s) : i < numBuffers :=
  List.mem_range.mp (hs.circulates.mem_iff.mp h)

theorem mem_places_of_phase (h : s.phase.index? = some i) : i ∈ places s := by
  simp [places, h]

theorem mem_places_of_queue {size offset : Nat} (h : .data i size offset ∈ s.queue) :
    i ∈ places s := by
  have hmem : i ∈ s.queue.filterMap Entry.index? := List.mem_filterMap.mpr ⟨_, h, rfl⟩
  simp only [places, List.mem_append]
  exact .inl (.inr hmem)

/-- The index in the hands of `doSomeWork` is not queued. -/
theorem Inv.claimed_not_queued (hs : Inv s) (h : s.phase.index? = some i) {size offset : Nat} :
    .data i size offset ∉ s.queue := by
  intro hq
  have hmem : i ∈ s.queue.filterMap Entry.index? := List.mem_filterMap.mpr ⟨_, hq, rfl⟩
  have hnodup := hs.nodup
  rw [places, h, List.nodup_append] at hnodup
  exact hnodup.2.2 i (List.mem_append_right _ hmem) i (List.mem_singleton.mpr rfl) rfl

theorem bufferIndex_toInt32 : ∀ i < numBuffers, bufferIndex (toInt32 i) = some i := by decide

/-- The request for data is no index. -/
theorem bufferIndex_require : bufferIndex (toInt32 0x80000001) = none := by decide

end places

/-- The bytes of a queue do not depend on the buffers that it does not use. -/
theorem held_congr {buffers buffers' : Nat → Bytes} {queue : List Entry}
    (h : ∀ i size offset, .data i size offset ∈ queue → buffers' i = buffers i) :
    held buffers' queue = held buffers queue := by
  induction queue with
  | nil => rfl
  | cons e queue ih =>
    have hrest := ih fun i size offset hmem => h i size offset (List.mem_cons_of_mem e hmem)
    cases e with
    | command cmd => simpa [held, Entry.bytes] using hrest
    | data i size offset =>
      have hsame := h i size offset (List.mem_cons_self ..)
      simpa [held, Entry.bytes, hsame] using hrest

/-! ### One step of each thread -/

section steps
variable {s : State}

/-- Only the phase moves on, with the packet that it brings. -/
theorem Inv.rephase (hs : Inv s) {phase : Phase} {n : Nat} {packets : List Bytes}
    (hindex : phase.index? = s.phase.index?) (hready : phase.Ready s.indicesAvailable)
    (hstream : output s ++ held s.buffers s.queue ++ phase.pending s.buffers = packets.flatten) :
    Inv { s with phase := phase, numDequeued := n, packets := packets } where
  alive := hs.alive
  playing := hs.playing
  sized := hs.sized
  circulates := by
    have hsame : places { s with phase := phase, numDequeued := n, packets := packets } =
        places s := by
      simp only [places, hindex]
    rw [hsame]
    exact hs.circulates
  valid := hs.valid
  ready := hready
  stream := hstream

theorem issueCommand_inv (hs : Inv s) {cmd : Command} (hcmd : cmd ≠ .eos) :
    Inv (issueCommand s cmd) where
  alive := hs.alive
  playing := hs.playing
  sized := hs.sized
  circulates := by
    have hsame : places (issueCommand s cmd) = places s := by
      simp [places, issueCommand, Entry.index?]
    rw [hsame]
    exact hs.circulates
  valid := by
    intro e he
    rcases List.mem_append.mp he with he | he
    · exact hs.valid e he
    · rw [List.mem_singleton.mp he]
      exact hcmd
  ready := hs.ready
  stream := by
    have hstream := hs.stream
    simpa [output, held, issueCommand, Entry.bytes] using hstream

/-- The loop head: leave, or take a packet. -/
theorem loop_inv (hs : Inv s) (hphase : s.phase = .loop) {answer : Option Bytes}
    (ha : Permitted (.work answer)) : Inv (doSomeWork s answer) := by
  have hstream : output s ++ held s.buffers s.queue = s.packets.flatten := by
    simpa [hphase, Phase.pending] using hs.stream
  have hleave : Inv { s with phase := .idle } :=
    hs.rephase (by rw [hphase]; rfl) trivial (by simpa [Phase.pending] using hstream)
  rw [doSomeWork.eq_def, hphase]
  dsimp only
  split_ifs with hempty
  · exact hleave
  · cases answer with
    | none => exact hleave
    | some srcBuffer =>
      refine hs.rephase (by rw [hphase]; rfl) ⟨ha, hempty⟩ ?_
      rw [Phase.pending, hstream, List.flatten_append]
      simp

/-- The first packet is announced with a command. -/
theorem dequeued_inv (hs : Inv s) {srcBuffer : Bytes} (hphase : s.phase = .dequeued srcBuffer)
    (answer : Option Bytes) : Inv (doSomeWork s answer) := by
  have hannounced : ∀ {t : State}, Inv t → t.phase = .dequeued srcBuffer →
      Inv { t with phase := .announced srcBuffer } := by
    intro t ht htphase
    have hready := ht.ready
    have hstream := ht.stream
    rw [htphase] at hready hstream
    exact ht.rephase (by rw [htphase]; rfl) hready hstream
  rw [doSomeWork.eq_def, hphase]
  dsimp only
  split_ifs
  · exact hannounced (issueCommand_inv hs (by decide)) hphase
  · exact hannounced hs hphase

/-- A packet that fits passes the CHECKs, and takes the first index. -/
theorem announced_inv (hs : Inv s) {srcBuffer : Bytes} (hphase : s.phase = .announced srcBuffer)
    (answer : Option Bytes) : Inv (doSomeWork s answer) := by
  have hready := hs.ready
  have hstream := hs.stream
  have hcirculates := hs.circulates
  rw [hphase] at hready hstream
  obtain ⟨hfits, hsome⟩ := hready
  rw [doSomeWork.eq_def, hphase]
  cases havailable : s.indicesAvailable with
  | nil => exact absurd havailable hsome
  | cons index rest =>
    dsimp only
    rw [if_pos ⟨hfits.2.2, hfits.2.1⟩]
    refine ⟨hs.alive, hs.playing, hs.sized, ?_, hs.valid, hfits, hstream⟩
    rw [List.perm_iff_count] at hcirculates ⊢
    intro i
    have hcount := hcirculates i
    simp only [places, hphase, havailable, Phase.index?, Option.toList_none, Option.toList_some,
      List.count_append, List.count_cons, List.count_nil] at hcount ⊢
    omega

/-- The copy goes to a buffer that is not queued. -/
theorem claimed_inv (hs : Inv s) {index : Nat} {srcBuffer : Bytes}
    (hphase : s.phase = .claimed index srcBuffer) (answer : Option Bytes) :
    Inv (doSomeWork s answer) := by
  have hindex : s.phase.index? = some index := by rw [hphase]; rfl
  have hready := hs.ready
  have hstream := hs.stream
  rw [hphase] at hready hstream
  obtain ⟨hne, -, hle⟩ := hready
  have hsize : (s.buffers index).length = bufferSize :=
    hs.sized index (hs.lt_of_mem (mem_places_of_phase hindex))
  have hheld : held (memcpy s.buffers index srcBuffer) s.queue = held s.buffers s.queue := by
    refine held_congr fun i size offset hmem => Function.update_of_ne ?_ _ _
    rintro rfl
    exact hs.claimed_not_queued hindex hmem
  rw [doSomeWork.eq_def, hphase]
  refine ⟨hs.alive, hs.playing, ?_, ?_, hs.valid, ⟨List.length_pos_of_ne_nil hne, hle⟩, ?_⟩
  · intro i hi
    rcases eq_or_ne i index with rfl | hother
    · simp [memcpy, hsize]
      omega
    · simpa [memcpy, Function.update_of_ne hother] using hs.sized i hi
  · simpa [places, hphase, Phase.index?] using hs.circulates
  · have hpending : Phase.pending (memcpy s.buffers index srcBuffer)
        (.copied index srcBuffer.length) = srcBuffer := by
      simp [Phase.pending, memcpy]
    dsimp only
    rw [hheld, hpending]
    exact hstream

/-- The buffer is queued with what was copied. -/
theorem copied_inv (hs : Inv s) {index size : Nat} (hphase : s.phase = .copied index size)
    (answer : Option Bytes) : Inv (doSomeWork s answer) := by
  have hready := hs.ready
  have hstream := hs.stream
  have hcirculates := hs.circulates
  rw [hphase] at hready hstream
  obtain ⟨hpos, hle⟩ := hready
  rw [doSomeWork.eq_def, hphase]
  refine ⟨hs.alive, hs.playing, hs.sized, ?_, ?_, trivial, ?_⟩
  · simpa [places, hphase, Phase.index?, queueBuffer, Entry.index?] using hcirculates
  · intro e he
    rcases List.mem_append.mp he with he | he
    · exact hs.valid e he
    · rw [List.mem_singleton.mp he]
      exact ⟨hpos, by simpa using hle⟩
  · simpa [output, held, queueBuffer, Phase.pending, Entry.bytes] using hstream

theorem work_inv (hs : Inv s) {answer : Option Bytes} (ha : Permitted (.work answer)) :
    Inv (doSomeWork s answer) := by
  cases hphase : s.phase with
  | idle =>
    have hstream := hs.stream
    rw [hphase] at hstream
    rw [doSomeWork.eq_def, hphase]
    exact hs.rephase (by rw [hphase]; rfl) trivial hstream
  | loop => exact loop_inv hs hphase ha
  | dequeued srcBuffer => exact dequeued_inv hs hphase answer
  | announced srcBuffer => exact announced_inv hs hphase answer
  | claimed index srcBuffer => exact claimed_inv hs hphase answer
  | copied index size => exact copied_inv hs hphase answer

/-- A message brings its index back; the check of the index passes. -/
theorem deliver_inv (hs : Inv s) (hidle : s.phase = .idle) {k : Nat} {value : Int}
    (hk : s.inFlight[k]? = some value) :
    Inv (onBufferAvailable { s with inFlight := s.inFlight.eraseIdx k } (toSizeT value)) := by
  obtain ⟨hlt, hget⟩ := List.getElem?_eq_some_iff.mp hk
  have hperm : s.inFlight.Perm (value :: s.inFlight.eraseIdx k) := by
    rw [← hget]
    exact (List.getElem_cons_eraseIdx_perm hlt).symm
  have hcirculates := hs.circulates
  have hmessages := hperm.filterMap bufferIndex
  rw [onBufferAvailable]
  split_ifs with hrequire hindex
  · -- the request for data
    have hnone : bufferIndex value = none := if_pos hrequire
    rw [List.filterMap_cons_none hnone] at hmessages
    refine ⟨hs.alive, hs.playing, hs.sized, ?_, hs.valid, hs.ready, hs.stream⟩
    refine List.Perm.trans ?_ hcirculates
    exact ((hmessages.symm.append_right _).append_right _).append_right _
  · have hsome : bufferIndex value = some (toSizeT value) := if_neg hrequire
    rw [List.filterMap_cons_some hsome] at hmessages
    refine ⟨hs.alive, hs.playing, hs.sized, ?_, hs.valid, ?_, hs.stream⟩
    · rw [List.perm_iff_count] at hcirculates hmessages ⊢
      intro i
      have hcount := hcirculates i
      have hmessage := hmessages i
      simp only [places, List.count_append, List.count_cons, List.count_nil] at hcount hmessage ⊢
      omega
    · simp only [hidle]
      trivial
  · -- every index in flight is one of the buffers
    have hsome : bufferIndex value = some (toSizeT value) := if_neg hrequire
    have hmem : toSizeT value ∈ places s := by
      simp only [places, List.mem_append]
      exact .inl (.inl (.inl (List.mem_filterMap.mpr ⟨value, List.mem_of_getElem? hk, hsome⟩)))
    exact absurd (hs.lt_of_mem hmem) hindex

/-- The bytes of an entry are what is read of it and what is left. -/
theorem take_split (bytes : Bytes) (offset : Nat) {copy size : Nat} (h : copy ≤ size) :
    (bytes.drop offset).take copy ++ (bytes.drop (offset + copy)).take (size - copy) =
      (bytes.drop offset).take size := by
  conv_rhs => rw [← Nat.add_sub_cancel' h, List.take_add, List.drop_drop]

/-- `read` moves bytes from the front of the queue to the output. -/
theorem readData_inv (hs : Inv s) {index entrySize offset size : Nat} {rest : List Entry}
    (hqueue : s.queue = .data index entrySize offset :: rest) :
    Inv { (readData s index entrySize offset size rest).1 with
      reads := s.reads ++ [(readData s index entrySize offset size rest).2] } := by
  have hmem : .data index entrySize offset ∈ s.queue := by
    rw [hqueue]
    exact List.mem_cons_self ..
  have hvalid : ∀ e ∈ rest, e.Valid := fun e he =>
    hs.valid e (by rw [hqueue]; exact List.mem_cons_of_mem _ he)
  obtain ⟨hpos, hfits⟩ : 0 < entrySize ∧ offset + entrySize ≤ bufferSize := hs.valid _ hmem
  have hindex := bufferIndex_toInt32 index (hs.lt_of_mem (mem_places_of_queue hmem))
  have hmessages : (s.inFlight ++ [toInt32 index]).filterMap bufferIndex =
      s.inFlight.filterMap bufferIndex ++ [index] := by
    rw [List.filterMap_append, List.filterMap_cons_some hindex, List.filterMap_nil]
  have hentries : s.queue.filterMap Entry.index? = index :: rest.filterMap Entry.index? := by
    rw [hqueue]
    rfl
  have hcirculates := hs.circulates
  have hstream := hs.stream
  have hsplit := take_split (s.buffers index) offset (Nat.min_le_left entrySize size)
  simp only [output, held, hqueue, List.flatMap_cons, Entry.bytes] at hstream
  rw [← hsplit] at hstream
  rw [readData]
  split_ifs with hempty
  · refine ⟨hs.alive, hs.playing, hs.sized, ?_, hvalid, hs.ready, ?_⟩
    · rw [List.perm_iff_count] at hcirculates ⊢
      intro i
      have hcount := hcirculates i
      simp only [places, sendBufferAvailable, hmessages, hentries, List.count_append,
        List.count_cons, List.count_nil] at hcount ⊢
      omega
    · rw [hempty, List.take_zero, List.append_nil] at hstream
      simpa [output, held, sendBufferAvailable, ReadResult.bytes] using hstream
  · refine ⟨hs.alive, hs.playing, hs.sized, ?_, ?_, hs.ready, ?_⟩
    · simp only [places, hentries] at hcirculates
      simpa [places, Entry.index?] using hcirculates
    · intro e he
      rcases List.mem_cons.mp he with rfl | he
      · exact ⟨by omega, by omega⟩
      · exact hvalid e he
    · simpa [output, held, Entry.bytes, ReadResult.bytes] using hstream

theorem read_inv (hs : Inv s) (size : Nat) :
    Inv { (read s size).1 with reads := s.reads ++ [(read s size).2] } := by
  have hstream := hs.stream
  have hcirculates := hs.circulates
  have hplaying : ¬ s.eos = true := by simp [hs.playing]
  cases hqueue : s.queue with
  | nil =>
    have hread : read s size = (sendBufferAvailable s 0x80000001, .wouldBlock) := by
      rw [read, if_neg hplaying, hqueue]
    have hmessages : (s.inFlight ++ [toInt32 0x80000001]).filterMap bufferIndex =
        s.inFlight.filterMap bufferIndex := by
      rw [List.filterMap_append, List.filterMap_cons_none bufferIndex_require, List.filterMap_nil,
        List.append_nil]
    rw [hread]
    refine ⟨hs.alive, hs.playing, hs.sized, ?_, hs.valid, hs.ready, ?_⟩
    · simp only [places, sendBufferAvailable, hmessages] at hcirculates ⊢
      exact hcirculates
    · simpa [output, sendBufferAvailable, ReadResult.bytes] using hstream
  | cons e rest =>
    cases e with
    | data index entrySize offset =>
      have hread : read s size = readData s index entrySize offset size rest := by
        rw [read, if_neg hplaying, hqueue]
      rw [hread]
      exact readData_inv hs hqueue
    | command cmd =>
      have hvalid : ∀ e ∈ Entry.command cmd :: rest, e.Valid := hqueue ▸ hs.valid
      cases cmd with
      | eos => exact absurd rfl (hvalid _ (List.mem_cons_self ..))
      | discontinuity =>
        have hread : read s size = ({ s with queue := rest }, .discontinuity) := by
          rw [read, if_neg hplaying, hqueue]
        rw [hread]
        refine ⟨hs.alive, hs.playing, hs.sized, ?_,
          fun e he => hvalid e (List.mem_cons_of_mem _ he), hs.ready, ?_⟩
        · have hentries : s.queue.filterMap Entry.index? = rest.filterMap Entry.index? := by
            rw [hqueue]
            rfl
          simp only [places, hentries] at hcirculates ⊢
          exact hcirculates
        · simpa [output, held, hqueue, Entry.bytes, ReadResult.bytes] using hstream

theorem step_inv (hs : Inv s) {a : Action} (ha : Permitted a) {s' : State}
    (h : step s a = some s') : Inv s' := by
  have halive : ¬ s.aborted = true := by simp [hs.alive]
  rw [step.eq_def, if_neg halive] at h
  cases a with
  | work answer =>
    cases h
    exact work_inv hs ha
  | deliver k =>
    simp only at h
    split_ifs at h with hidle
    obtain ⟨value, hk, rfl⟩ := Option.map_eq_some_iff.mp h
    exact deliver_inv hs hidle hk
  | read size =>
    have hsize : 0 < size := ha
    simp only [if_pos hsize] at h
    cases h
    exact read_inv hs size
  | issue cmd =>
    cases h
    exact issueCommand_inv hs ha

theorem read_buffers (s : State) (size : Nat) : (read s size).1.buffers = s.buffers := by
  rw [read]
  split_ifs
  · rfl
  · cases s.queue with
    | nil => rfl
    | cons e rest =>
      cases e with
      | data index entrySize offset =>
        dsimp only
        rw [readData]
        split_ifs <;> rfl
      | command cmd => cases cmd <;> rfl

/-- No step writes to a buffer that is queued: the only write is to the claimed index. -/
theorem step_keeps_queued (hs : Inv s) {a : Action} {s' : State} (h : step s a = some s')
    {i size offset : Nat} (hq : .data i size offset ∈ s.queue) : s'.buffers i = s.buffers i := by
  have halive : ¬ s.aborted = true := by simp [hs.alive]
  rw [step.eq_def, if_neg halive] at h
  cases a with
  | work answer =>
    cases h
    cases hphase : s.phase with
    | claimed index srcBuffer =>
      have hindex : s.phase.index? = some index := by rw [hphase]; rfl
      rw [doSomeWork.eq_def, hphase]
      refine Function.update_of_ne ?_ _ _
      rintro rfl
      exact hs.claimed_not_queued hindex hq
    | announced srcBuffer =>
      rw [doSomeWork.eq_def, hphase]
      cases s.indicesAvailable with
      | nil => rfl
      | cons index rest =>
        dsimp only
        split_ifs <;> rfl
    | loop =>
      rw [doSomeWork.eq_def, hphase]
      dsimp only
      split_ifs
      · rfl
      · cases answer <;> rfl
    | dequeued srcBuffer =>
      rw [doSomeWork.eq_def, hphase]
      dsimp only
      split_ifs <;> rfl
    | idle =>
      rw [doSomeWork.eq_def, hphase]
    | copied index size =>
      rw [doSomeWork.eq_def, hphase]
      rfl
  | deliver k =>
    simp only at h
    split_ifs at h
    obtain ⟨value, -, rfl⟩ := Option.map_eq_some_iff.mp h
    rw [onBufferAvailable]
    split_ifs <;> rfl
  | read size =>
    simp only at h
    split_ifs at h
    · cases h
      exact congrFun (read_buffers s size) i
    · cases h
      rfl
  | issue cmd =>
    cases h
    rfl

end steps

/-- After `start` the indices are all in flight. -/
theorem inv_start {buffers : Nat → Bytes}
    (hbuffers : ∀ i < numBuffers, (buffers i).length = bufferSize) : Inv (start buffers) where
  alive := rfl
  playing := rfl
  sized := hbuffers
  circulates := by
    have hplaces : places (start buffers) = List.range numBuffers := by
      have hall : ((List.range numBuffers).map toInt32).filterMap bufferIndex =
        List.range numBuffers := by decide
      simp only [places, start, hall, Phase.index?]
      rfl
    rw [hplaces]
  valid := fun _ h => absurd h List.not_mem_nil
  ready := trivial
  stream := rfl

/-- In every state of both threads each index is in one place, a queued buffer is not written, and
    what was read, what is queued and what `doSomeWork` has in its hands are the packets in order.
    Between two calls of `doSomeWork` nothing is in its hands. -/
theorem hand_off_exact {buffers : Nat → Bytes} {actions : List Action} {s : State}
    (hbuffers : ∀ i < numBuffers, (buffers i).length = bufferSize)
    (hactions : ∀ a ∈ actions, Permitted a)
    (hrun : run step (start buffers) actions = some s) :
    s.aborted = false ∧
    (∀ i < numBuffers, (s.inFlight.filterMap bufferIndex).count i + s.indicesAvailable.count i +
      (s.queue.filterMap Entry.index?).count i + s.phase.index?.toList.count i = 1) ∧
    (s.phase = .idle → ∀ i < numBuffers, (s.inFlight.filterMap bufferIndex).count i +
      s.indicesAvailable.count i + (s.queue.filterMap Entry.index?).count i = 1) ∧
    (∀ a s', step s a = some s' → ∀ i size offset, .data i size offset ∈ s.queue →
      s'.buffers i = s.buffers i) ∧
    output s <+: s.packets.flatten ∧
    output s ++ held s.buffers s.queue ++ s.phase.pending s.buffers = s.packets.flatten ∧
    (s.phase = .idle → output s ++ held s.buffers s.queue = s.packets.flatten) := by
  have hs : Inv s := run_invariant (fun _ _ _ hs ha h => step_inv hs ha h) hrun
    (along_of_forall hactions) (inv_start hbuffers)
  have hcount : ∀ i < numBuffers, (s.inFlight.filterMap bufferIndex).count i +
      s.indicesAvailable.count i + (s.queue.filterMap Entry.index?).count i +
      s.phase.index?.toList.count i = 1 := by
    intro i hi
    have hone : (places s).count i = 1 :=
      List.count_eq_one_of_mem hs.nodup (hs.circulates.mem_iff.mpr (List.mem_range.mpr hi))
    simpa only [places, List.count_append] using hone
  refine ⟨hs.alive, hcount, ?_, fun a s' h i size offset hq => step_keeps_queued hs h hq, ?_,
    hs.stream, ?_⟩
  · intro hidle i hi
    simpa [hidle, Phase.index?] using hcount i hi
  · rw [← hs.stream, List.append_assoc]
    exact List.prefix_append ..
  · intro hidle
    simpa [hidle, Phase.pending] using hs.stream

/-- Buffers of zeros. -/
def zeros : Nat → Bytes := fun _ => List.replicate bufferSize 0

/-- One packet through the first index, read in two pieces while its message waits. -/
def onePacket : List Action :=
  [.deliver 1, .deliver 0, .work none, .work (some (List.replicate 188 7)), .work none, .work none,
    .read 10, .work none, .work none, .read 100, .work none, .read 100]

theorem hand_off_exact_onePacket :
    ∃ s, run step (start zeros) onePacket = some s ∧ s.phase = .idle ∧ s.indicesAvailable = [0] ∧
      s.inFlight.getLast? = some 1 ∧ output s = List.replicate 188 7 ∧
      output s ++ held s.buffers s.queue = s.packets.flatten := by
  have hactions : ∀ a ∈ onePacket, Permitted a := by decide +kernel
  have hend : (run step (start zeros) onePacket).map
      (fun s => (s.phase, s.indicesAvailable, s.inFlight.getLast?, output s)) =
      some (.idle, [0], some 1, List.replicate 188 7) := by decide +kernel
  obtain ⟨s, hrun, hs⟩ := Option.map_eq_some_iff.mp hend
  simp only [Prod.mk.injEq] at hs
  obtain ⟨hidle, havailable, hlast, houtput⟩ := hs
  have hexact := hand_off_exact (fun i _ => List.length_replicate ..) hactions hrun
  exact ⟨s, hrun, hidle, havailable, hlast, houtput, hexact.2.2.2.2.2.2 hidle⟩

end Streambox.WifiDisplay.StreamSource
