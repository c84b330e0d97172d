import Streambox.Lib.Run
import Streambox.WifiDisplay.RtpSink
import Streambox.WifiDisplay.TunnelRenderer

/-! wifi-display: packets from the network to the player.

    Packets of one sender arrive with loss, duplication and reordering. `RTPSink::Source` hands them
    on as messages to the looper of `TunnelRenderer`, which queues them; the player dequeues them at
    times of its own. The three go on in any order.

    The state also has what the code does not know: the true numbers of the packets, and what
    happened so far. -/

namespace Streambox.WifiDisplay.Reception
open Streambox.Lib Streambox.WifiDisplay.RtpSink Streambox.WifiDisplay.TunnelRenderer

/-- A packet was handed on by the source, or discarded or returned by dequeueBuffer. -/
inductive Event
  | handed (p : Packet)
  | discarded (p : Packet)
  | returned (p : Packet)
  deriving DecidableEq, Repr

/-- The source, the messages to the renderer and the renderer; the number of the first packet and
    the largest number that arrived, the newest number since the start-up ended (in the start-up,
    that of the last packet), and what happened. -/
structure State where
  source : Option Source
  posted : List Packet
  renderer : Renderer
  first : Nat
  largest : Nat
  newest : Nat
  log : List Event
  deriving DecidableEq, Repr

def idle : State := ⟨none, [], initial, 0, 0, 0, []⟩

/-- A packet arrives, the renderer gets the next message, or the player dequeues at a time. -/
inductive Act
  | arrive (number : Nat)
  | deliver
  | dequeue (now : Int)
  deriving DecidableEq, Repr

/-- setInt32Data takes the 32 bits as a signed number. -/
def int32 (x : UInt32) : Int := x.toInt32.toInt

/-- queuePacket. -/
def queuePacket (s : State) (p : Packet) : State :=
  { s with posted := s.posted ++ [p], log := s.log ++ [.handed p] }

/-- The first packet makes the source. -/
def firstPacket (s : State) (t : Nat) : State :=
  queuePacket
    { s with source := some (construct (wire t)).1, first := t, largest := t, newest := t }
    ⟨t, int32 (construct (wire t)).2⟩

/-- A later packet. -/
def nextPacket (s : State) (source : Source) (t : Nat) : State :=
  let s' := { s with
    source := some (updateSeq source (wire t)).1
    largest := max s.largest t
    newest := if source.probation ≠ 0 then t else max s.newest t }
  match (updateSeq source (wire t)).2 with
  | some d => queuePacket s' ⟨t, int32 d⟩
  | none => s'

/-- The numbers of the sender begin at `start`. A packet is at most 99 behind and less than 3000
    ahead of the largest number that arrived. -/
def step (start : UInt16) (s : State) : Act → Option State
  | .arrive t =>
    match s.source with
    | none => if start.toNat ≤ t then some (firstPacket s t) else none
    | some source =>
      if start.toNat ≤ t ∧ s.largest ≤ t + 99 ∧ t < s.largest + 3000 then
        some (nextPacket s source t)
      else none
  | .deliver =>
    match s.posted with
    | [] => none
    | p :: rest => some { s with posted := rest, renderer := queueBuffer s.renderer p }
  | .dequeue now =>
    let (renderer, d) := dequeueBuffer s.renderer now
    some { s with
      renderer := renderer
      log := s.log ++ (d.discarded.map .discarded ++ d.buffer.toList.map .returned) }

/-- In the start-up a packet is of the same block of 65536 numbers as the first. After it, a packet
    is less than 3000 ahead of the newest since then, and if it is older, of the same block. -/
def InBlock (s : State) (source : Source) (t : Nat) : Prop :=
  if source.probation ≠ 0 then t / 65536 = s.first / 65536
  else t < s.newest + 3000 ∧ (t < s.newest → t / 65536 = s.newest / 65536)

instance (s : State) (source : Source) (t : Nat) : Decidable (InBlock s source t) :=
  inferInstanceAs (Decidable (if source.probation ≠ 0 then t / 65536 = s.first / 65536
    else t < s.newest + 3000 ∧ (t < s.newest → t / 65536 = s.newest / 65536)))

/-- A packet that arrives at a source arrives in its block. -/
def ArrivesInBlock (s : State) : Act → Prop
  | .arrive t => ∀ source ∈ s.source, InBlock s source t
  | .deliver => True
  | .dequeue _ => True

/-- Every packet that was handed on carries its number less `c`, if that is below `2 ^ 31`. -/
def Carries (c : Nat) (log : List Event) : Prop :=
  ∀ p, .handed p ∈ log → p.number < c + 2 ^ 31 → p.extSeqNo = (p.number : Int) - c

/-- No packet was discarded that is newer than all that were returned before. -/
def Kept (log : List Event) : Prop :=
  ∀ before p after, log = before ++ .discarded p :: after →
    ∃ r, .returned r ∈ before ∧ p.number ≤ r.number

/-! ### The numbers -/

/-- A packet carries its number less `c`, in 32 bits. -/
def Right (c : Nat) (p : Packet) : Prop :=
  c ≤ p.number ∧ ∃ d : UInt32, d.toNat = (p.number - c) % 2 ^ 32 ∧ p.extSeqNo = int32 d

/-- The source knows the number of its newest packet up to the block of the first, and so do the
    packets that it handed on. -/
structure Numbered (s : State) : Prop where
  tracks : ∀ source, s.source = some source → s.newest ≤ s.largest ∧
    (source.probation ≠ 0 ∧ source.cycles = 0 ∨ Counts source (s.first / 65536) s.newest)
  fresh : s.source = none → ∀ p, .handed p ∉ s.log
  right : ∀ p, .handed p ∈ s.log → Right (65536 * (s.first / 65536)) p

theorem numbered_idle : Numbered idle := by
  refine ⟨?_, fun _ _ => List.not_mem_nil, fun _ h => absurd h List.not_mem_nil⟩
  intro _ h
  cases h

theorem right_of {c t : Nat} {d : UInt32} (hc : c ≤ t) (hd : d.toNat = (t - c) % 2 ^ 32) :
    Right c ⟨t, int32 d⟩ := ⟨hc, d, hd, rfl⟩

theorem mem_queuePacket {s : State} {p q : Packet} :
    .handed p ∈ (queuePacket s q).log ↔ .handed p ∈ s.log ∨ p = q := by
  simp [queuePacket]

theorem firstPacket_numbered {s : State} (h : Numbered s) (hsource : s.source = none) (t : Nat) :
    Numbered (firstPacket s t) := by
  obtain ⟨hdata, hprob, hcycles⟩ := construct_startup t
  refine ⟨?_, ?_, ?_⟩
  · intro source hs
    cases hs
    exact ⟨Nat.le_refl t, .inl ⟨hprob, hcycles⟩⟩
  · intro hnone
    cases hnone
  · intro p hp
    rcases mem_queuePacket.mp hp with hp | rfl
    · exact absurd hp (h.fresh hsource p)
    · have hfirst : (firstPacket s t).first = t := rfl
      refine right_of (Nat.mul_div_le t 65536) ?_
      rw [hdata, hfirst]
      omega

/-- A packet of the right block is handed on with its number, and the source stays right. -/
theorem updateSeq_numbered {s : State} {source : Source} {t : Nat} (h : Numbered s)
    (hsource : s.source = some source) (hlargest : s.largest ≤ t + 99)
    (hblock : InBlock s source t) :
    ((updateSeq source (wire t)).1.probation ≠ 0 ∧ (updateSeq source (wire t)).1.cycles = 0 ∨
      Counts (updateSeq source (wire t)).1 (s.first / 65536)
        (if source.probation ≠ 0 then t else max s.newest t)) ∧
      ∃ d, (updateSeq source (wire t)).2 = some d ∧
        Right (65536 * (s.first / 65536)) ⟨t, int32 d⟩ := by
  obtain ⟨hnewest, htrack⟩ := h.tracks source hsource
  have hin := hblock
  rw [InBlock] at hin
  rcases htrack with ⟨hprob, hcycles⟩ | hcounts
  · rw [if_pos hprob] at hin ⊢
    obtain ⟨⟨d, hd, hdata⟩, hnext⟩ := updateSeq_startup hprob hcycles t
    rw [hin] at hnext
    refine ⟨hnext, d, hd, right_of ?_ ?_⟩
    · omega
    · rw [hdata]
      omega
  · have hstarted := hcounts.started
    rw [if_neg (not_not.mpr hcounts.settled)] at hin ⊢
    rcases Nat.lt_or_ge t s.newest with hlt | hge
    · have hsame := hin.2 hlt
      obtain ⟨hcounts', d, hd, hdata⟩ := updateSeq_behind hcounts hlt (by omega)
      rw [Nat.max_eq_left (Nat.le_of_lt hlt)]
      refine ⟨.inr hcounts', d, hd, right_of ?_ ?_⟩
      · omega
      · rw [hdata]
        congr 1
        omega
    · obtain ⟨hcounts', d, hd, hdata⟩ := updateSeq_ahead hcounts hge hin.1
      rw [Nat.max_eq_right hge]
      exact ⟨.inr hcounts', d, hd, right_of (by omega) hdata⟩

theorem nextPacket_numbered {s : State} {source : Source} {t : Nat} (h : Numbered s)
    (hsource : s.source = some source) (hlargest : s.largest ≤ t + 99)
    (hblock : InBlock s source t) : Numbered (nextPacket s source t) := by
  have hnewest := (h.tracks source hsource).1
  obtain ⟨htrack, d, hd, hright⟩ := updateSeq_numbered h hsource hlargest hblock
  simp only [nextPacket, hd]
  refine ⟨?_, ?_, ?_⟩
  · intro source' hs
    cases hs
    refine ⟨?_, htrack⟩
    simp only [queuePacket]
    split_ifs <;> omega
  · intro hnone
    cases hnone
  · intro p hp
    rcases mem_queuePacket.mp hp with hp | rfl
    · exact h.right p hp
    · exact hright

/-- The renderer hands nothing on. -/
theorem dequeue_handed {log : List Event} {d : Dequeued} {p : Packet}
    (h : .handed p ∈ log ++ (d.discarded.map .discarded ++ d.buffer.toList.map .returned)) :
    .handed p ∈ log := by
  simpa using h

theorem step_numbered {start : UInt16} {s s' : State} {a : Act} (h : Numbered s)
    (hblock : ArrivesInBlock s a) (hstep : step start s a = some s') : Numbered s' := by
  cases a with
  | arrive t =>
    simp only [step] at hstep
    split at hstep
    · next hsource =>
      split_ifs at hstep
      cases hstep
      exact firstPacket_numbered h hsource t
    · next source hsource =>
      split_ifs at hstep with hnear
      cases hstep
      exact nextPacket_numbered h hsource hnear.2.1 (hblock source hsource)
  | deliver =>
    simp only [step] at hstep
    split at hstep
    · cases hstep
    · cases hstep
      exact ⟨h.tracks, h.fresh, h.right⟩
  | dequeue now =>
    cases hstep
    refine ⟨h.tracks, ?_, ?_⟩
    · intro hnone p hp
      exact h.fresh hnone p (dequeue_handed hp)
    · intro p hp
      exact h.right p (dequeue_handed hp)

/-! ### The packets that are discarded -/

/-- The packets of the renderer were handed on, and one that was discarded is not above one that was
    returned before. -/
def Justified (log : List Event) : Prop :=
  ∀ before p after, log = before ++ .discarded p :: after →
    .handed p ∈ before ∧
      ∃ r, .returned r ∈ before ∧ .handed r ∈ before ∧ p.extSeqNo ≤ r.extSeqNo

theorem justified_append {log new : List Event} (h : Justified log)
    (hnew : ∀ p, .discarded p ∈ new → .handed p ∈ log ∧
      ∃ r, .returned r ∈ log ∧ .handed r ∈ log ∧ p.extSeqNo ≤ r.extSeqNo) :
    Justified (log ++ new) := by
  intro before p after heq
  rcases List.append_eq_append_iff.mp heq with ⟨mid, rfl, hmid⟩ | ⟨mid, rfl, hmid⟩
  · have hp : .discarded p ∈ new := by
      rw [hmid]
      exact List.mem_append_right mid (List.mem_cons_self ..)
    obtain ⟨hhanded, r, hr, hrh, hle⟩ := hnew p hp
    exact ⟨List.mem_append_left mid hhanded, r, List.mem_append_left mid hr,
      List.mem_append_left mid hrh, hle⟩
  · cases mid with
    | nil =>
      have hp : .discarded p ∈ new := by
        rw [List.nil_append] at hmid
        rw [← hmid]
        exact List.mem_cons_self ..
      rw [List.append_nil] at hnew
      exact hnew p hp
    | cons e mid =>
      rw [List.cons_append, List.cons.injEq] at hmid
      obtain ⟨rfl, -⟩ := hmid
      exact h before p mid rfl

/-- What holds of the renderer in any case. -/
structure Queued (s : State) : Prop where
  posted : ∀ p ∈ s.posted, .handed p ∈ s.log
  packets : ∀ p ∈ s.renderer.packets, .handed p ∈ s.log
  last : 0 ≤ s.renderer.lastDequeuedExtSeqNo →
    ∃ r, .returned r ∈ s.log ∧ .handed r ∈ s.log ∧
      r.extSeqNo = s.renderer.lastDequeuedExtSeqNo
  justified : Justified s.log

theorem queued_idle : Queued idle := by
  refine ⟨fun _ h => absurd h List.not_mem_nil, fun _ h => absurd h List.not_mem_nil, ?_, ?_⟩
  · intro h
    exact absurd h (by decide)
  · intro before p after heq
    exact absurd heq.symm (List.append_ne_nil_of_right_ne_nil before (List.cons_ne_nil _ _))

theorem queuePacket_queued {s : State} (h : Queued s) (p : Packet) : Queued (queuePacket s p) := by
  refine ⟨?_, ?_, ?_, ?_⟩
  · intro q hq
    rw [mem_queuePacket]
    exact (List.mem_append.mp hq).imp (h.posted q) List.mem_singleton.mp
  · intro q hq
    exact List.mem_append_left _ (h.packets q hq)
  · intro hlast
    obtain ⟨r, hr, hrh, heq⟩ := h.last hlast
    exact ⟨r, List.mem_append_left _ hr, List.mem_append_left _ hrh, heq⟩
  · refine justified_append h.justified fun q hq => ?_
    cases List.mem_singleton.mp hq

theorem nextPacket_queued {s : State} (h : Queued s) (source : Source) (t : Nat) :
    Queued (nextPacket s source t) := by
  rw [nextPacket]
  split
  · refine queuePacket_queued ?_ _
    exact ⟨h.posted, h.packets, h.last, h.justified⟩
  · exact ⟨h.posted, h.packets, h.last, h.justified⟩

theorem dequeue_queued {s : State} {r' : Renderer} {d : Dequeued} (h : Queued s)
    (hd : Dequeues s.renderer r' d) :
    Queued { s with
      renderer := r'
      log := s.log ++ (d.discarded.map .discarded ++ d.buffer.toList.map .returned) } := by
  have hhanded : ∀ p ∈ d.discarded ++ d.buffer.toList ++ r'.packets, .handed p ∈ s.log := by
    intro p hp
    exact h.packets p (hd.packets ▸ hp)
  refine ⟨?_, ?_, ?_, ?_⟩
  · intro p hp
    exact List.mem_append_left _ (h.posted p hp)
  · intro p hp
    exact List.mem_append_left _ (hhanded p (List.mem_append_right _ hp))
  · intro hlast
    have hnew := hd.last
    rcases hbuffer : d.buffer with _ | p
    · have hsame : r'.lastDequeuedExtSeqNo = s.renderer.lastDequeuedExtSeqNo := by
        rw [hnew, hbuffer]
        rfl
      obtain ⟨r, hr, hrh, heq⟩ := h.last (hsame ▸ hlast)
      exact ⟨r, List.mem_append_left _ hr, List.mem_append_left _ hrh, heq.trans hsame.symm⟩
    · rw [hbuffer] at hnew
      refine ⟨p, by simp, List.mem_append_left _ (hhanded p ?_), hnew.symm⟩
      simp [hbuffer]
  · refine justified_append h.justified fun p hp => ?_
    have hp' : p ∈ d.discarded := by simpa using hp
    obtain ⟨hpos, hle⟩ := hd.discarded p hp'
    obtain ⟨r, hr, hrh, heq⟩ := h.last hpos
    exact ⟨hhanded p (by simp [hp']), r, hr, hrh, heq ▸ hle⟩

theorem step_queued {start : UInt16} {s s' : State} {a : Act} (h : Queued s)
    (hstep : step start s a = some s') : Queued s' := by
  cases a with
  | arrive t =>
    simp only [step] at hstep
    split at hstep
    · split_ifs at hstep
      cases hstep
      refine queuePacket_queued ?_ _
      exact ⟨h.posted, h.packets, h.last, h.justified⟩
    · split_ifs at hstep
      cases hstep
      exact nextPacket_queued h _ t
  | deliver =>
    simp only [step] at hstep
    split at hstep
    · cases hstep
    · next p rest hposted =>
      cases hstep
      have hmem : ∀ q ∈ p :: rest, .handed q ∈ s.log := hposted ▸ h.posted
      refine ⟨fun q hq => hmem q (List.mem_cons_of_mem p hq), ?_, h.last, h.justified⟩
      intro q hq
      rcases mem_queueBuffer hq with rfl | hq
      · exact hmem q (List.mem_cons_self ..)
      · exact h.packets q hq
  | dequeue now =>
    cases hstep
    exact dequeue_queued h (dequeueBuffer_dequeues s.renderer now)

/-! ### All receptions -/

theorem int32_of_lt {d : UInt32} (h : d.toNat < 2 ^ 31) : int32 d = d.toNat := by
  have hbits : int32 d = d.toBitVec.toInt := rfl
  rw [hbits, BitVec.toInt_eq_toNat_of_lt, UInt32.toNat_toBitVec]
  rw [UInt32.toNat_toBitVec]
  omega

/-- A number below `2 ^ 31` is carried as it is. -/
theorem Right.eq {c : Nat} {p : Packet} (h : Right c p) (hlt : p.number < c + 2 ^ 31) :
    p.extSeqNo = (p.number : Int) - c := by
  obtain ⟨hc, d, hd, heq⟩ := h
  rw [heq, int32_of_lt (by omega)]
  omega

/-- If every packet arrives in its block, then the packets are handed on with their true numbers up
    to one multiple of 65536, and while these are below `2 ^ 31`, no packet is discarded that is
    newer than all returned before. -/
theorem numbers_right {start : UInt16} {as : List Act} {s : State}
    (hrun : run (step start) idle as = some s)
    (hblock : Along (step start) ArrivesInBlock idle as) :
    ∃ c, 65536 ∣ c ∧ Carries c s.log ∧
      ((∀ p, .handed p ∈ s.log → p.number < c + 2 ^ 31) → Kept s.log) := by
  have hnum : Numbered s :=
    run_invariant (fun _ _ _ h hok hstep => step_numbered h hok hstep) hrun hblock numbered_idle
  have hqueued : Queued s :=
    run_preserves (fun _ _ _ h hstep => step_queued h hstep) hrun queued_idle
  refine ⟨65536 * (s.first / 65536), Nat.dvd_mul_right _ _, ?_, ?_⟩
  · intro p hp hlt
    exact (hnum.right p hp).eq hlt
  · intro hsmall before p after heq
    have hsub : ∀ e, e ∈ before → e ∈ s.log := fun e he => heq ▸ List.mem_append_left _ he
    obtain ⟨hp, r, hr, hrh, hle⟩ := hqueued.justified before p after heq
    have hpnum := (hnum.right p (hsub _ hp)).eq (hsmall p (hsub _ hp))
    have hrnum := (hnum.right r (hsub _ hrh)).eq (hsmall r (hsub _ hrh))
    exact ⟨r, hr, by omega⟩

/-- The numbers wrap around after the start-up, and two packets change places. -/
def wrapAfterStartup : List Act :=
  [.arrive 65533, .arrive 65534, .arrive 65535, .arrive 65537, .arrive 65536, .deliver, .dequeue 0]

theorem wrap_after_startup_right : ∃ s, run (step 65533) idle wrapAfterStartup = some s ∧
    ∃ c, 65536 ∣ c ∧ Carries c s.log ∧
      ((∀ p, .handed p ∈ s.log → p.number < c + 2 ^ 31) → Kept s.log) := by
  have hblock : Along (step 65533) ArrivesInBlock idle wrapAfterStartup := by
    refine (along_cons rfl).mpr ⟨fun source h => ?_, ?_⟩
    · cases h
    refine (along_cons rfl).mpr ⟨fun source h => ?_, ?_⟩
    · cases h
      decide
    refine (along_cons rfl).mpr ⟨fun source h => ?_, ?_⟩
    · cases h
      decide
    refine (along_cons rfl).mpr ⟨fun source h => ?_, ?_⟩
    · cases h
      decide
    refine (along_cons rfl).mpr ⟨fun source h => ?_, ?_⟩
    · cases h
      decide
    exact (along_cons rfl).mpr ⟨trivial, (along_cons rfl).mpr ⟨trivial, trivial⟩⟩
  exact ⟨_, rfl, numbers_right rfl hblock⟩

/-- The numbers wrap around in the start-up. -/
def wrapInStartup : List Act :=
  [.arrive 65535, .deliver, .dequeue 0, .arrive 65536, .deliver, .dequeue 1]

/-- The second packet is handed on with 0, and discarded as older than the first. -/
theorem wrap_in_startup_wrong : ∃ s, run (step 65535) idle wrapInStartup = some s ∧
    (¬ ∃ c, 65536 ∣ c ∧ Carries c s.log) ∧ ¬ Kept s.log := by
  refine ⟨_, rfl, ?_, ?_⟩
  · rintro ⟨c, hc, hcarries⟩
    have hfirst := hcarries ⟨65535, 65535⟩ (by decide)
    have hsecond := hcarries ⟨65536, 0⟩ (by decide)
    dsimp only at hfirst hsecond
    omega
  · intro hkept
    obtain ⟨r, hr, hle⟩ := hkept [.handed ⟨65535, 65535⟩, .returned ⟨65535, 65535⟩,
      .handed ⟨65536, 0⟩] ⟨65536, 0⟩ [] (by decide)
    simp only [List.mem_cons, List.not_mem_nil, or_false, reduceCtorEq, false_or,
      Event.returned.injEq] at hr
    subst hr
    exact absurd hle (by decide)

end Streambox.WifiDisplay.Reception
