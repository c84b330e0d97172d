import Streambox.PathB.CallSpec

/-! Path B: whole sessions.

    A session is any sequence of calls and of buffers dropped downstream between two calls. The
    invariants of one call hold along every session, and the views of its states form a run of the
    converter with one frame of lookahead. -/

namespace Streambox.PathB
open Streambox.Lib

variable {L : Prop} {monitor : Bool} {nBufs : Nat} {fmt : Format} {calls : List Call}
  {s t : Session}

/-- How many calls have returned a buffer. -/
def Session.oks (s : Session) : Nat := (s.history.filter fun d => d.flow = .ok).length

/-! ### Invariants of a session -/

/-- What holds in every state of a session, with the view of its pipeline. -/
structure Ledger (L : Prop) (s : Session) (v : Lookahead.View) : Prop where
  between : Between L s.pipe
  tenBit : s.pipe.vdin1TenBit = true
  eos : s.pipe.streaming = false ↔ ∃ d ∈ s.history, d.flow = .eos
  view : s.pipe.view = v
  length : v.delivered.length = s.oks
  ordered : Lookahead.Ordered v
  complete : v.failed = false → Lookahead.Complete v

theorem started_between {tenBit : Bool} (hL : L → tenBit = true) :
    Between L (started tenBit monitor nBufs fmt) := by
  refine ⟨⟨⟨fun i => ?_, fun i => ?_, nofun, fun _ => nofun, fun hl => ⟨hL hl, fun _ => rfl⟩⟩,
    Nat.zero_le _, rfl, rfl, id, nofun⟩, fun _ => nofun, fun _ => nofun, nofun⟩
  · simp only [Pipe.bufPlaces, started, List.count_nil, List.map_nil, List.filterMap_nil,
      Nat.add_zero]
    exact List.count_range
  · cases tenBit <;> simp [Pipe.slotPlaces, freeCount, started]

theorem ledger_open (L : Prop) : Ledger L (openSession true monitor nBufs fmt) Lookahead.start where
  between := started_between fun _ => rfl
  tenBit := rfl
  eos := ⟨nofun, nofun⟩
  view := rfl
  length := rfl
  ordered := Lookahead.ordered_start
  complete := fun _ => Lookahead.complete_start

theorem Ledger.step {c : Call} {v : Lookahead.View} (h : Ledger L s v)
    (ha : L → c.qbufsAccepted = true) (hs : step s c = some t) :
    ∃ w, Ledger L t w := by
  cases c with
  | unref u =>
    cases hs
    have hcalm := h.between.calm.dispose u
    exact ⟨v, h.between.dispose u, hcalm.kept.vdin1TenBit.trans h.tenBit,
      by rw [hcalm.kept.streaming]; exact h.eos, (hcalm.view h.tenBit).trans h.view, h.length,
      h.ordered, h.complete⟩
  | create e =>
    obtain ⟨⟨p, f⟩, hcreate, rfl⟩ := Option.map_eq_some_iff.mp hs
    have hc := createPathB_spec h.between ha hcreate
    have hm := hc.move h.tenBit
    rw [h.view] at hm
    refine ⟨p.view, hc.between, hc.tenBit.trans h.tenBit, ?_, rfl, ?_, h.ordered.step hm,
      Lookahead.Complete.step h.complete hm⟩
    · rw [hc.streaming, h.eos]
      constructor
      · rintro (⟨d, hd, he⟩ | rfl)
        · exact ⟨d, List.mem_append_left _ hd, he⟩
        · exact ⟨_, List.mem_append_right _ (List.mem_singleton_self _), rfl⟩
      · rintro ⟨d, hd, he⟩
        rcases List.mem_append.mp hd with hd | hd
        · exact .inl ⟨d, hd, he⟩
        · rw [List.mem_singleton.mp hd] at he
          exact .inr he
    · rw [hm.length, h.length, Session.oks, Session.oks, List.filter_append, List.length_append]
      cases f <;> simp

theorem run_ledger (hrun : run step (openSession true monitor nBufs fmt) calls = some s)
    (ha : L → ∀ c ∈ calls, c.qbufsAccepted = true) : ∃ v, Ledger L s v := by
  have hstep : ∀ s c t, (∃ v, Ledger L s v) → (L → c.qbufsAccepted = true) → step s c = some t →
      ∃ v, Ledger L t v := by
    rintro s c t ⟨v, hv⟩ hok hs
    exact hv.step hok hs
  exact run_invariant hstep hrun (along_of_forall fun c hc hL => ha hL c hc) ⟨_, ledger_open L⟩

/-! ### Custody -/

/-- How many buffers downstream give slot `o` back when they are dropped. -/
def Pipe.holders (s : Pipe) (o : Nat) : Nat := (s.live.map (·.hold)).count (.p010 o)

/-- Slot `o` is free, the target of the job in flight, or held by one buffer downstream: one of the
    three, and no two. -/
def OneHolder (s : Pipe) (o : Nat) : Prop :=
  (s.outFree o = true ∧ ¬ (s.asyncPending = true ∧ s.asyncOut = o) ∧ s.holders o = 0) ∨
    (s.outFree o = false ∧ (s.asyncPending = true ∧ s.asyncOut = o) ∧ s.holders o = 0) ∨
    (s.outFree o = false ∧ ¬ (s.asyncPending = true ∧ s.asyncOut = o) ∧ s.holders o = 1)

/-- The buffers that are not queued are those of the job in flight. -/
def QueuedButOne (s : Pipe) : Prop :=
  ∀ i < s.nBufs, i ∉ s.queued ↔ s.asyncPending = true ∧ s.asyncVdin1 = i

theorem holders_eq (s : Pipe) (o : Nat) :
    s.holders o = (s.live.filterMap fun b => b.hold.slot?).count o := by
  unfold Pipe.holders
  induction s.live with
  | nil => rfl
  | cons b bs ih =>
    rw [List.map_cons, List.count_cons, List.filterMap_cons, ih]
    cases b.hold with
    | p010 i => simp [Hold.slot?, List.count_cons]
    | vdin1 i => simp [Hold.slot?]

theorem Running.oneHolder {s : Pipe} (h : Running L s [] []) {o : Nat} (ho : o < s.outCount) :
    OneHolder s o := by
  have hc := h.owned.slots o
  rw [if_pos ho] at hc
  simp only [Pipe.slotPlaces, freeCount, ho, true_and, List.count_nil, h.jobs, Pipe.asyncJobs,
    ← holders_eq] at hc
  unfold OneHolder
  cases hf : s.outFree o <;> cases hp : s.asyncPending <;> by_cases hio : s.asyncOut = o <;>
    simp [hf, hp, hio] at hc ⊢ <;> omega

theorem Running.queuedButOne {s : Pipe} (h : Running L s [] []) (hten : s.vdin1TenBit = true)
    (hidle : s.idle = []) : QueuedButOne s := by
  intro i hi
  have hlive : (s.live.filterMap fun b => b.hold.buf?) = [] :=
    List.filterMap_eq_nil_iff.mpr (h.owned.tenBit hten)
  have hc := h.owned.bufs i
  rw [if_pos hi] at hc
  simp only [Pipe.bufPlaces, List.count_nil, h.jobs, Pipe.asyncJobs, hlive, hidle] at hc
  rw [← List.count_eq_zero]
  cases hp : s.asyncPending <;> by_cases hio : s.asyncVdin1 = i <;>
    simp [hp, hio] at hc ⊢ <;> omega

/-- In every state of a 10-bit session, for any answers of the driver, the GPU and the allocator
    and any order of drops downstream, as long as `QBUF` succeeds: the GPU has exactly the job the
    element remembers, no submit has found its slot busy, and every pool slot has one holder. Until
    a call returns `EOS` the driver has every buffer but the one being converted; afterwards, with
    the stream stopped, it has none and nothing is in flight. -/
theorem session_custody (hrun : run step (openSession true monitor nBufs fmt) calls = some s)
    (hacc : ∀ c ∈ calls, c.qbufsAccepted = true) :
    s.pipe.jobs = s.pipe.asyncJobs ∧ s.pipe.slotsClear = true ∧
      (∀ o < s.pipe.outCount, OneHolder s.pipe o) ∧
      ((∀ d ∈ s.history, d.flow ≠ .eos) → QueuedButOne s.pipe) ∧
      ((∃ d ∈ s.history, d.flow = .eos) →
        s.pipe.queued = [] ∧ s.pipe.asyncPending = false) := by
  obtain ⟨v, h⟩ := run_ledger (L := True) hrun fun _ => hacc
  have hr := h.between.running
  refine ⟨hr.jobs, hr.clear, fun o ho => hr.oneHolder ho, fun hno => ?_, fun heos => ?_⟩
  · have hon : s.pipe.streaming = true := by
      rw [← Bool.not_eq_false, h.eos]
      rintro ⟨d, hd, he⟩
      exact hno d hd he
    exact hr.queuedButOne h.tenBit ((hr.owned.idle trivial).2 hon)
  · exact h.between.offline h.tenBit (h.eos.mpr heos)

/-! ### Sample answers -/

/-- A pass that finds a frame in buffer `i`. -/
def framePass (i : Nat) : Pass := ⟨false, [], .ready false none, false, .buffer i⟩

def timeoutPass : Pass := ⟨false, [], .timeout, false, .again⟩

/-- A pass that finds an event on the monitor. -/
def eventPass (ev : Event) : Pass := ⟨false, [], .ready false (some [ev]), false, .again⟩

/-- `SOURCE_CHANGE` with `changes = 0`: the signal is gone. -/
def signalLostEvent : Event := ⟨true, 0⟩

def plainFormat : Format := ⟨3840, 2160, 0⟩

/-- Nothing fails; the loops see `passes` and `primePasses`. -/
def plainEnv (passes primePasses : List Pass) : Env where
  fmt := some plainFormat
  passes := passes
  unrefsSync := []
  submitSync := true
  waitSync := true
  waitAsync := true
  dup := true
  alloc := true
  primePasses := primePasses
  unrefsAsync := []
  submitAsync := true
  qbufPrev := true
  qbufCur := true
  qbufSecond := true

/-- Prime the pipeline and return one more frame. -/
def primedCalls : List Call :=
  [.create (plainEnv [framePass 0] [framePass 1]), .create (plainEnv [framePass 2] [])]

/-- Two frames out of four buffers: buffer 2 is being converted, buffers 3, 0 and 1 are queued. -/
theorem session_custody_primed : ∃ s, run step (openSession true true 4 plainFormat) primedCalls
    = some s ∧ s.pipe.asyncJobs = [⟨1, 2, 2⟩] ∧ QueuedButOne s.pipe := by
  have hrun := session_custody (s := ⟨_, _⟩) (show run step (openSession true true 4 plainFormat)
    primedCalls = some _ from rfl) (by decide)
  exact ⟨_, rfl, rfl, hrun.2.2.2.1 (by decide)⟩

/-- The monitor reports that the signal is lost before any frame arrives. -/
def exitCalls : List Call := [.create (plainEnv [eventPass signalLostEvent] [])]

/-- A clean exit stops the stream before it returns `EOS`, so after it no buffer is queued, though
    none is being converted. -/
theorem not_queuedButOne_after_exit : ∃ s, run step (openSession true true 4 plainFormat) exitCalls
    = some s ∧ (∀ c ∈ exitCalls, c.qbufsAccepted = true) ∧
      ¬ QueuedButOne s.pipe := by
  refine ⟨_, rfl, by decide, fun h => ?_⟩
  have h0 := (h 0 (by decide)).mp (by decide)
  exact absurd h0.1 (by decide)

/-! ### Order -/

theorem eq_map_some : ∀ {l : List (Option Nat)}, (∀ d ∈ l, d ≠ none) →
    l = (l.filterMap id).map some
  | [], _ => rfl
  | none :: _, h => absurd rfl (h none (List.mem_cons_self ..))
  | some f :: l, h => by
    have ih := eq_map_some (l := l) fun d hd => h d (List.mem_cons_of_mem _ hd)
    simpa using ih

theorem Ledger.delivered {v : Lookahead.View} (h : Ledger L s v) :
    s.pipe.delivered = v.delivered.map some := by
  rw [← h.view]
  exact eq_map_some (h.between.known h.tenBit)

/-- In every state of a 10-bit session, for any answers at all: the frames delivered are strictly
    increasing in the order `DQBUF` returned them, one for each call that returned a buffer, and a
    buffer downstream keeps its pixels. As long as no slot was missing and no submit, wait, `dup` or
    allocation failed, none is left out. If moreover every priming call has found its second frame
    and no call has left through `clean_exit`, the next frame is the one in flight. -/
theorem delivered_in_order (hrun : run step (openSession true monitor nBufs fmt) calls = some s) :
    ∃ fs : List Nat, s.pipe.delivered = fs.map some ∧ fs.Pairwise (· < ·) ∧
      (∀ f ∈ fs, f < s.pipe.frames) ∧ fs.length = s.oks ∧
      (∀ b ∈ s.pipe.live, ∀ o, b.hold = .p010 o → s.pipe.out o = b.frame) ∧
      ((∀ x ∈ s.pipe.troubles, x.isFailure = false) → fs = List.range s.oks) ∧
      (s.pipe.troubles = [] → 1 ≤ s.oks →
        s.pipe.jobs = [⟨1 - s.pipe.vkSlot, s.pipe.asyncVdin1, s.pipe.asyncOut⟩] ∧
        s.pipe.vdin1 s.pipe.asyncVdin1 = some s.oks ∧ s.pipe.frames = s.oks + 1) := by
  obtain ⟨v, h⟩ := run_ledger (L := False) hrun nofun
  have hframes : v.frames = s.pipe.frames := h.view ▸ rfl
  have hfailed : v.failed = s.pipe.troubles.any fun x => x.isFailure := h.view ▸ rfl
  have hcut : v.cut = s.pipe.troubles.any fun x => !x.isFailure := h.view ▸ rfl
  refine ⟨v.delivered, h.delivered, h.ordered.increasing, hframes ▸ h.ordered.captured, h.length,
    h.between.running.owned.shown, fun hno => ?_, fun hno hn => ?_⟩
  · have hc := h.complete (by rw [hfailed, List.any_eq_false]; simpa using hno)
    rw [hc.all, h.length]
  · have hc := h.complete (by rw [hfailed, hno]; rfl)
    have hne : v.delivered ≠ [] := fun hnil => by
      rw [← h.length, hnil] at hn
      cases hn
    obtain ⟨m, hm⟩ := Option.isSome_iff_exists.mp (hc.looking (by rw [hcut, hno]; rfl) hne)
    obtain ⟨hlen, hnext⟩ := hc.next m hm
    rw [h.length] at hlen
    have hflight : (if s.pipe.asyncPending then s.pipe.vdin1 s.pipe.asyncVdin1 else none)
        = some m := by
      rw [← hm, ← h.view]
      rfl
    cases hp : s.pipe.asyncPending with
    | false =>
      rw [hp] at hflight
      cases hflight
    | true =>
      rw [hp] at hflight
      refine ⟨?_, hlen ▸ hflight, ?_⟩
      · rw [h.between.running.jobs, Pipe.asyncJobs, if_pos hp]
      · rw [← hframes, hnext, hlen]

/-- Two calls have delivered frames 0 and 1; frame 2 is in flight. -/
theorem delivered_in_order_primed : ∃ s, run step (openSession true true 4 plainFormat) primedCalls
    = some s ∧ s.pipe.troubles = [] ∧ s.oks = 2 ∧ s.pipe.vdin1 s.pipe.asyncVdin1 = some 2 := by
  obtain ⟨fs, -, -, -, -, -, -, hnext⟩ := delivered_in_order (s := ⟨_, _⟩)
    (show run step (openSession true true 4 plainFormat) primedCalls = some _ from rfl)
  exact ⟨_, rfl, rfl, rfl, (hnext rfl (by decide)).2.1⟩

/-- The poll for the second frame of a priming call times out three times. -/
def lateSecondCalls : List Call :=
  [.create (plainEnv [framePass 0] [timeoutPass, timeoutPass, timeoutPass])]

/-- Nothing fails and no event is read, yet the priming call returns with nothing in flight. -/
theorem nothing_in_flight_after_timeouts :
    ∃ s, run step (openSession true true 4 plainFormat) lateSecondCalls = some s ∧
      (∀ x ∈ s.pipe.troubles, x.isFailure = false) ∧ (∀ d ∈ s.history, d.notes = []) ∧
      s.oks = 1 ∧ s.pipe.jobs = [] :=
  ⟨_, rfl, by decide, by decide, rfl, rfl⟩

end Streambox.PathB
