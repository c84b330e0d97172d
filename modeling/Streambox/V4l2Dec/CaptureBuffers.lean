import Streambox.Lib.Run
import Mathlib.Data.List.Nodup
import Mathlib.Logic.Function.Basic

/-! v4l2-dec.c, the capture port: decoded frames on their way to the display and back.

    The decoder thread takes frames from the kernel and shows them; the display gives each one back
    through `capture_buffer_recycle`. When the resolution changes, the decoder thread frees the
    frames that are marked as queued, and leaves the others to be freed when they come back.

        decoder   DQBUF ─▶ queued = false ─▶ show              res_lock: queued ? free : free later
                    ▲                          │
        display     └─ queued = true ◀─ QBUF ◀─┘               under res_lock

    The mark is set behind QBUF, under a lock that the decoder thread does not take when it removes
    the mark. So the kernel may have given the buffer back, and the decoder thread may have shown
    it, before the mark is set. -/

namespace Streambox.V4l2Dec.CaptureBuffers
open Streambox.Lib

/-- `frame_buffer`; `frees` counts how often it was freed. -/
structure Frame where
  queued : Bool
  freeOnRecycle : Bool
  index : Nat
  frees : Nat
  deriving DecidableEq, Repr

/-- `V4L2_EVENT_SOURCE_CHANGE`, `V4L2_EVENT_EOS`, or neither of them. -/
inductive Event where
  | sourceChange
  | eos
  | none
  deriving DecidableEq, Repr

/-- Where the decoder thread is: `setup_capture_port`, the loop of `dec_thread_func`, and
    `handle_res_change`. `last` is `V4L2_BUF_FLAG_LAST`. -/
inductive DecoderPhase where
  | requesting
  | queuing (i : Nat)
  | marking (i : Nat)
  | polling
  | dequeued (i : Nat) (last : Bool)
  | unmarked (i : Nat) (last : Bool)
  | ending
  | leaving
  | changing
  | stopped
  | locked
  | sweeping (i : Nat)
  | halted
  deriving DecidableEq, Repr

/-- Where the display is in `capture_buffer_recycle`; it has `res_lock` unless it is idle. -/
inductive DisplayPhase where
  | idle
  | recycling (id : Nat)
  | requeued (id : Nat)
  | leaving
  deriving DecidableEq, Repr

/-- The frames are numbered as they are allocated; `capture_p.buf[i]` is frame `base + i`. `kernel`
    tells which buffers the kernel has, and `shown` are the frames that the display has. -/
structure Port where
  frame : Nat → Frame
  base : Nat
  bufNum : Nat
  reserved : Nat
  kernel : Nat → Bool
  decoder : DecoderPhase
  display : DisplayPhase
  shown : List Nat
  eosReceived : Bool

inductive Action where
  | request (count : Nat)
  | queueFirst
  | markFirst
  | streamOn
  | dequeue (i : Nat) (last : Bool)
  | unmark
  | show
  | last (event : Event)
  | endStream
  | quit
  | exit
  | streamOff
  | lock
  | release
  | sweep
  | unlock
  | fail
  | recycle (id : Nat)
  | handle (ok : Bool)
  | mark
  | leave
  deriving DecidableEq, Repr

/-- `calloc` of the frames of a new port. -/
@[grind =]
def allocated (s : Port) (count : Nat) (id : Nat) : Frame :=
  if s.base ≤ id ∧ id < s.base + count then ⟨false, false, id - s.base, 0⟩ else s.frame id

/-- The frames after one of them was written. -/
def Port.write (s : Port) (id : Nat) (f : Frame → Frame) : Nat → Frame :=
  Function.update s.frame id (f (s.frame id))

@[grind =]
def Frame.setQueued (queued : Bool) (f : Frame) : Frame := { f with queued }
@[grind =]
def Frame.free (f : Frame) : Frame := { f with frees := f.frees + 1 }
@[grind =]
def Frame.delay (f : Frame) : Frame := { f with freeOnRecycle := true }

/-- The phases whose ioctl may fail; then the decoder thread sleeps for ever. -/
def mayFail : DecoderPhase → Bool
  | .requesting => true
  | .queuing _ => true
  | .changing => true
  | .locked => true
  | _ => false

/-- The phases in which the decoder thread has `res_lock`. -/
@[grind =]
def hasLock : DecoderPhase → Bool
  | .locked => true
  | .sweeping _ => true
  | _ => false

/-- One step of either thread. -/
def step (s : Port) : Action → Option Port
  -- `setup_capture_port`
  | .request count =>
    if s.decoder = .requesting then
      some { s with
        frame := allocated s count
        bufNum := count
        reserved := count
        decoder := .queuing 0 }
    else none
  | .queueFirst =>
    match s.decoder with
    | .queuing i =>
      if i < s.bufNum then
        some { s with kernel := Function.update s.kernel i true, decoder := .marking i }
      else none
    | _ => none
  | .markFirst =>
    match s.decoder with
    | .marking i =>
      some { s with frame := s.write (s.base + i) (.setQueued true), decoder := .queuing (i + 1) }
    | _ => none
  | .streamOn => if s.decoder = .queuing s.bufNum then some { s with decoder := .polling } else none
  -- `dec_thread_func`
  | .dequeue i last =>
    if s.decoder = .polling ∧ s.kernel i = true then
      some { s with kernel := Function.update s.kernel i false, decoder := .dequeued i last }
    else none
  | .unmark =>
    match s.decoder with
    | .dequeued i last =>
      some { s with frame := s.write (s.base + i) (.setQueued false), decoder := .unmarked i last }
    | _ => none
  | .show =>
    match s.decoder with
    | .unmarked i false => some { s with shown := (s.base + i) :: s.shown, decoder := .polling }
    | _ => none
  | .last event =>
    match s.decoder with
    | .unmarked i true =>
      match event with
      | .sourceChange =>
        some { s with frame := s.write (s.base + i) (.setQueued true), decoder := .changing }
      -- with `last_flag` the display gets no frame
      | .eos => some { s with decoder := .ending }
      | .none => some { s with decoder := .polling }
    | _ => none
  | .endStream =>
    if s.decoder = .ending then some { s with eosReceived := true, decoder := .leaving } else none
  | .quit => if s.decoder = .polling then some { s with decoder := .leaving } else none
  | .exit =>
    if s.decoder = .leaving then some { s with kernel := fun _ => false, decoder := .halted }
    else none
  -- `handle_res_change`
  | .streamOff =>
    if s.decoder = .changing then some { s with kernel := fun _ => false, decoder := .stopped }
    else none
  | .lock =>
    if s.decoder = .stopped ∧ s.display = .idle then some { s with decoder := .locked } else none
  | .release =>
    if s.decoder = .locked then
      some { s with reserved := 0, kernel := fun _ => false, decoder := .sweeping 0 }
    else none
  | .sweep =>
    match s.decoder with
    | .sweeping i =>
      if i < s.bufNum then
        some { s with
          frame := s.write (s.base + i)
            (if (s.frame (s.base + i)).queued then .free else .delay)
          decoder := .sweeping (i + 1) }
      else none
    | _ => none
  | .unlock =>
    if s.decoder = .sweeping s.bufNum then
      some { s with base := s.base + s.bufNum, bufNum := 0, decoder := .requesting }
    else none
  | .fail => if mayFail s.decoder then some { s with decoder := .halted } else none
  -- `capture_buffer_recycle`
  | .recycle id =>
    if s.display = .idle ∧ hasLock s.decoder = false ∧ id ∈ s.shown then
      some { s with shown := s.shown.erase id, display := .recycling id }
    else none
  | .handle ok =>
    match s.display with
    | .recycling id =>
      if (s.frame id).freeOnRecycle then
        some { s with frame := s.write id .free, display := .leaving }
      else if s.eosReceived then some { s with display := .leaving }
      else if ok then
        if (s.frame id).index < s.reserved ∧ s.kernel (s.frame id).index = false then
          some { s with
            kernel := Function.update s.kernel (s.frame id).index true
            display := .requeued id }
        else none
      else some { s with display := .leaving }
    | _ => none
  | .mark =>
    match s.display with
    | .requeued id => some { s with frame := s.write id (.setQueued true), display := .leaving }
    | _ => none
  | .leave => if s.display = .leaving then some { s with display := .idle } else none

/-- Before the first frame. -/
def start : Port where
  frame _ := ⟨false, false, 0, 0⟩
  base := 0
  bufNum := 0
  reserved := 0
  kernel _ := false
  decoder := .requesting
  display := .idle
  shown := []
  eosReceived := false

/-! ### What is asked of a step -/

/-- The frame that a step reads or writes. -/
def touched (s : Port) : Action → Option Nat
  | .queueFirst | .markFirst | .unmark | .show | .last _ | .sweep =>
    match s.decoder with
    | .queuing i | .marking i | .dequeued i _ | .unmarked i _ | .sweeping i => some (s.base + i)
    | _ => none
  | .handle _ | .mark =>
    match s.display with
    | .recycling id | .requeued id => some id
    | _ => none
  | _ => none

/-- The display has the frame: it was shown, and is not yet given back. -/
@[grind =]
def Held (s : Port) (id : Nat) : Prop :=
  id ∈ s.shown ∨ s.display = .recycling id

/-- Frames that are touched are not freed; `handle_res_change` frees none that the display has. -/
def Conforms (s : Port) (a : Action) : Prop :=
  (∀ id, touched s a = some id → (s.frame id).frees = 0) ∧
    (a = .sweep → ∀ i, s.decoder = .sweeping i → (s.frame (s.base + i)).queued = true →
      ¬ Held s (s.base + i))

/-- The steps that keep the frames safe: the decoder thread does not remove the mark of a frame that
    it will show between QBUF and the mark that the display then sets. -/
def permitted (s : Port) : Action → Bool
  | .unmark =>
    match s.decoder with
    | .dequeued i false => s.display ≠ .requeued (s.base + i)
    | _ => true
  | _ => true

/-! ### The invariant -/

/-- How many frames of the port are given up. -/
@[grind =]
def swept : DecoderPhase → Nat
  | .sweeping i => i
  | _ => 0

/-- A frame of the port that is not given up. -/
@[grind =]
def Live (s : Port) (id : Nat) : Prop :=
  s.base + swept s.decoder ≤ id ∧ id < s.base + s.bufNum

/-- The decoder thread has this buffer. -/
@[grind =]
def Taken (s : Port) (i : Nat) : Prop :=
  ∃ last, s.decoder = .dequeued i last ∨ s.decoder = .unmarked i last

/-- The port is set up. -/
@[grind =]
def settingUp : DecoderPhase → Bool
  | .requesting => true
  | .queuing _ => true
  | .marking _ => true
  | _ => false

structure Inv (s : Port) : Prop where
  live : ∀ id, Live s id →
    (s.frame id).frees = 0 ∧ (s.frame id).freeOnRecycle = false ∧ (s.frame id).index = id - s.base
  once : ∀ id, (s.frame id).frees ≤ 1
  held : ∀ id, Held s id → (s.frame id).frees = 0 ∧
    (Live s id ∧ (s.frame id).queued = false ∨
      id < s.base + swept s.decoder ∧ (s.frame id).freeOnRecycle = true)
  distinct : s.shown.Nodup ∧ ∀ id, s.display = .recycling id → id ∉ s.shown
  kernel : ∀ i, s.kernel i = true → i < s.bufNum ∧ ¬ Held s (s.base + i)
  taken : ∀ i, Taken s i → i < s.bufNum ∧ ¬ Held s (s.base + i) ∧ s.kernel i = false
  requeued : ∀ id, s.display = .requeued id → Live s id ∧ ¬ Held s id
  unmarked : ∀ i, s.decoder = .unmarked i false →
    (s.frame (s.base + i)).queued = false ∧ s.display ≠ .requeued (s.base + i)
  exclusive : hasLock s.decoder = true → s.display = .idle
  setup : settingUp s.decoder = true →
    (∀ id, Held s id → id < s.base) ∧ ∀ id, s.display ≠ .requeued id
  marking : ∀ i, s.decoder = .marking i → i < s.bufNum
  empty : ∀ k, s.decoder = .sweeping k → ∀ i, s.kernel i = false
  requesting : s.decoder = .requesting → s.bufNum = 0

theorem start_inv : Inv start := by
  constructor <;> simp [start, Held, Live, Taken]

/-! ### What each step keeps -/

section steps
variable {s s' : Port}

@[grind =]
theorem write_apply (s : Port) (id : Nat) (f : Frame → Frame) (j : Nat) :
    s.write id f j = if j = id then f (s.frame j) else s.frame j := by
  rw [Port.write, Function.update_apply]
  split
  case isTrue h => rw [h]
  case isFalse => rfl

/-- The phases in which the decoder thread has neither a buffer nor the lock, behind the setup. -/
def quiet : DecoderPhase → Bool
  | .polling | .ending | .leaving | .changing | .stopped | .halted => true
  | _ => false

theorem Live.congr {d : DecoderPhase} {id : Nat} (hswept : swept d = swept s.decoder) :
    Live { s with decoder := d } id ↔ Live s id := by
  simp only [Live, hswept]

/-- The decoder thread goes on; the kernel may give up buffers with that. -/
theorem quiet_inv {d : DecoderPhase} {k : Nat → Bool} {eos : Bool} (h : Inv s)
    (hquiet : quiet d = true) (hswept : swept s.decoder = 0)
    (hkernel : ∀ i, k i = true → s.kernel i = true) :
    Inv { s with decoder := d, kernel := k, eosReceived := eos } := by
  have hd : swept d = swept s.decoder := by
    rw [hswept]
    cases d <;> first | rfl | cases hquiet
  constructor
  case live => exact fun id hid => h.live id ((Live.congr hd).mp hid)
  case once => exact h.once
  case held =>
    intro id hid
    obtain ⟨hfrees, hwhere⟩ := h.held id hid
    refine ⟨hfrees, ?_⟩
    rcases hwhere with ⟨hlive, hqueued⟩ | hold
    · exact .inl ⟨(Live.congr hd).mpr hlive, hqueued⟩
    · refine .inr ?_
      simpa only [hd] using hold
  case distinct => exact h.distinct
  case kernel => exact fun i hi => h.kernel i (hkernel i hi)
  case requeued =>
    intro id hid
    obtain ⟨hlive, hheld⟩ := h.requeued id hid
    exact ⟨(Live.congr hd).mpr hlive, hheld⟩
  all_goals cases d <;> simp_all [quiet, Taken, hasLock, settingUp]

theorem request_inv {count : Nat} (h : Inv s) (hstep : step s (.request count) = some s') :
    Inv s' := by
  rw [step] at hstep
  split at hstep
  case isFalse => cases hstep
  case isTrue hdecoder =>
    cases hstep
    have hempty := h.requesting hdecoder
    obtain ⟨hbehind, hnone⟩ := h.setup (by rw [hdecoder]; rfl)
    -- the frames of the display are older
    have hold : ∀ id, Held s id → allocated s count id = s.frame id ∧
        (s.frame id).freeOnRecycle = true := by
      intro id hid
      have := hbehind id hid
      grind [h.held id hid]
    obtain ⟨-, once, held, distinct, kernel, -, -, -, -, -, -, -, -⟩ := h
    constructor
    all_goals grind

theorem queueFirst_inv (h : Inv s) (hstep : step s .queueFirst = some s') : Inv s' := by
  rw [step] at hstep
  split at hstep
  case h_2 => cases hstep
  case h_1 i hdecoder =>
    split at hstep
    case isFalse => cases hstep
    case isTrue hi =>
      cases hstep
      obtain ⟨hbehind, hnone⟩ := h.setup (by rw [hdecoder]; rfl)
      have hout : ¬ Held s (s.base + i) := fun hheld => absurd (hbehind _ hheld) (by omega)
      obtain ⟨live, once, held, distinct, kernel, -, -, -, -, -, -, -, -⟩ := h
      constructor
      all_goals grind [Function.update_apply]

theorem markFirst_inv (h : Inv s) (hstep : step s .markFirst = some s') : Inv s' := by
  rw [step] at hstep
  split at hstep
  case h_2 => cases hstep
  case h_1 i hdecoder =>
    cases hstep
    obtain ⟨hbehind, hnone⟩ := h.setup (by rw [hdecoder]; rfl)
    have hout : ¬ Held s (s.base + i) := fun hheld => absurd (hbehind _ hheld) (by omega)
    obtain ⟨live, once, held, distinct, kernel, -, -, -, -, -, -, -, -⟩ := h
    constructor
    all_goals grind

theorem dequeue_inv {i : Nat} {last : Bool} (h : Inv s)
    (hstep : step s (.dequeue i last) = some s') : Inv s' := by
  rw [step] at hstep
  split at hstep
  case isFalse => cases hstep
  case isTrue hdecoder =>
    cases hstep
    obtain ⟨hdecoder, hkernel⟩ := hdecoder
    obtain ⟨live, once, held, distinct, kernel, -, requeued, -, -, -, -, -, -⟩ := h
    constructor
    all_goals grind [Function.update_apply]

theorem unmark_inv (h : Inv s) (hok : permitted s .unmark = true)
    (hstep : step s .unmark = some s') : Inv s' := by
  rw [step] at hstep
  split at hstep
  case h_2 => cases hstep
  case h_1 i last hdecoder =>
    cases hstep
    have hfree : last = false → s.display ≠ .requeued (s.base + i) := by
      rintro rfl
      simpa [permitted, hdecoder] using hok
    obtain ⟨hi, hout, hkernel⟩ := h.taken i ⟨last, .inl hdecoder⟩
    obtain ⟨live, once, held, distinct, kernel, -, requeued, -, -, -, -, -, -⟩ := h
    constructor
    all_goals grind

theorem show_inv (h : Inv s) (hstep : step s .show = some s') : Inv s' := by
  rw [step] at hstep
  split at hstep
  case h_2 => cases hstep
  case h_1 i hdecoder =>
    cases hstep
    obtain ⟨hi, hout, hkernel⟩ := h.taken i ⟨false, .inr hdecoder⟩
    obtain ⟨hqueued, hfree⟩ := h.unmarked i hdecoder
    obtain ⟨live, once, held, distinct, kernel, -, requeued, -, -, -, -, -, -⟩ := h
    constructor
    all_goals grind

/-- The buffer that the decoder thread has is marked again, to be freed. -/
theorem sourceChange_inv {i : Nat} (h : Inv s) (hdecoder : s.decoder = .unmarked i true) :
    Inv { s with frame := s.write (s.base + i) (.setQueued true), decoder := .changing } := by
  obtain ⟨hi, hout, hkernel⟩ := h.taken i ⟨true, .inr hdecoder⟩
  obtain ⟨live, once, held, distinct, kernel, -, requeued, -, -, -, -, -, -⟩ := h
  constructor
  all_goals grind

theorem last_inv {event : Event} (h : Inv s) (hstep : step s (.last event) = some s') :
    Inv s' := by
  rw [step] at hstep
  split at hstep
  case h_2 => cases hstep
  case h_1 i hdecoder =>
    cases event with
    | sourceChange =>
      cases hstep
      exact sourceChange_inv h hdecoder
    | eos =>
      cases hstep
      exact quiet_inv h rfl (by rw [hdecoder]; rfl) fun _ hi => hi
    | none =>
      cases hstep
      exact quiet_inv h rfl (by rw [hdecoder]; rfl) fun _ hi => hi

theorem lock_inv (h : Inv s) (hstep : step s .lock = some s') : Inv s' := by
  rw [step] at hstep
  split at hstep
  case isFalse => cases hstep
  case isTrue hdecoder =>
    cases hstep
    obtain ⟨hdecoder, hdisplay⟩ := hdecoder
    obtain ⟨live, once, held, distinct, kernel, -, -, -, -, -, -, -, -⟩ := h
    constructor
    all_goals grind

theorem release_inv (h : Inv s) (hstep : step s .release = some s') : Inv s' := by
  rw [step] at hstep
  split at hstep
  case isFalse => cases hstep
  case isTrue hdecoder =>
    cases hstep
    have hdisplay := h.exclusive (by rw [hdecoder]; rfl)
    obtain ⟨live, once, held, distinct, -, -, -, -, -, -, -, -, -⟩ := h
    constructor
    all_goals grind

theorem sweep_inv (h : Inv s) (hstep : step s .sweep = some s') : Inv s' := by
  rw [step] at hstep
  split at hstep
  case h_2 => cases hstep
  case h_1 i hdecoder =>
    split at hstep
    case isFalse => cases hstep
    case isTrue hi =>
      cases hstep
      have hdisplay := h.exclusive (by rw [hdecoder]; rfl)
      have hkernel := h.empty i hdecoder
      obtain ⟨live, once, held, distinct, -, -, -, -, -, -, -, -, -⟩ := h
      constructor
      all_goals grind

theorem unlock_inv (h : Inv s) (hstep : step s .unlock = some s') : Inv s' := by
  rw [step] at hstep
  split at hstep
  case isFalse => cases hstep
  case isTrue hdecoder =>
    cases hstep
    have hdisplay := h.exclusive (by rw [hdecoder]; rfl)
    have hkernel := h.empty _ hdecoder
    obtain ⟨live, once, held, distinct, -, -, -, -, -, -, -, -, -⟩ := h
    constructor
    all_goals grind

theorem recycle_inv {id : Nat} (h : Inv s) (hstep : step s (.recycle id) = some s') :
    Inv s' := by
  rw [step] at hstep
  split at hstep
  case isFalse => cases hstep
  case isTrue hpossible =>
    cases hstep
    obtain ⟨hdisplay, hlock, hid⟩ := hpossible
    have hrest : ∀ j, j ∈ s.shown.erase id ↔ j ≠ id ∧ j ∈ s.shown :=
      fun j => h.distinct.1.mem_erase_iff
    have hnodup := h.distinct.1.erase id
    obtain ⟨live, once, held, -, kernel, taken, -, unmarked, -, setup, marking, empty,
      requesting⟩ := h
    constructor
    all_goals grind

theorem recycling_unlocked {id : Nat} (h : Inv s) (hdisplay : s.display = .recycling id) :
    hasLock s.decoder = false := by
  rw [← Bool.not_eq_true]
  intro hlock
  rw [h.exclusive hlock] at hdisplay
  cases hdisplay

/-- The display gives up a frame that no longer belongs to the port. -/
theorem freed_inv {id : Nat} (h : Inv s) (hdisplay : s.display = .recycling id)
    (hdelay : (s.frame id).freeOnRecycle = true) :
    Inv { s with frame := s.write id .free, display := .leaving } := by
  have hlock := recycling_unlocked h hdisplay
  obtain ⟨hfrees, ⟨hlive, -⟩ | ⟨hold, -⟩⟩ := h.held id (.inr hdisplay)
  · rw [(h.live id hlive).2.1] at hdelay
    cases hdelay
  · obtain ⟨live, once, held, distinct, kernel, taken, -, unmarked, -, setup, marking, empty,
      requesting⟩ := h
    constructor
    all_goals grind

/-- The frame stays where it is, with nobody. -/
theorem dropped_inv {id : Nat} (h : Inv s) (hdisplay : s.display = .recycling id) :
    Inv { s with display := .leaving } := by
  have hlock := recycling_unlocked h hdisplay
  have hheld : ∀ j, Held { s with display := .leaving } j → Held s j := by
    rintro j (hj | hj)
    · exact .inl hj
    · cases hj
  constructor
  case live => exact h.live
  case once => exact h.once
  case held => exact fun j hj => h.held j (hheld j hj)
  case distinct =>
    refine ⟨h.distinct.1, ?_⟩
    intro j hj
    cases hj
  case kernel => exact fun i hi => ⟨(h.kernel i hi).1, fun hj => (h.kernel i hi).2 (hheld _ hj)⟩
  case taken =>
    intro i hi
    obtain ⟨hlt, hout, hkernel⟩ := h.taken i hi
    exact ⟨hlt, fun hj => hout (hheld _ hj), hkernel⟩
  case unmarked => exact fun i hi => ⟨(h.unmarked i hi).1, by simp⟩
  case setup => exact fun hd => ⟨fun j hj => (h.setup hd).1 j (hheld j hj), by simp⟩
  case marking => exact h.marking
  case empty => exact h.empty
  case requesting => exact h.requesting
  all_goals simp [hlock]

/-- The kernel gets the buffer of a frame that belongs to the port. -/
theorem requeued_inv {id : Nat} (h : Inv s) (hdisplay : s.display = .recycling id)
    (hdelay : ¬ (s.frame id).freeOnRecycle = true) :
    Inv { s with
      kernel := Function.update s.kernel (s.frame id).index true
      display := .requeued id } := by
  have hlock := recycling_unlocked h hdisplay
  obtain ⟨hfrees, ⟨hlive, hunmarked⟩ | ⟨-, hold⟩⟩ := h.held id (.inr hdisplay)
  case inr => exact absurd hold hdelay
  have hindex : s.base + (s.frame id).index = id := by
    have := hlive.1
    rw [(h.live id hlive).2.2]
    omega
  have hout := h.distinct.2 id hdisplay
  have hheld : ∀ j, Held { s with display := .requeued id } j → Held s j ∧ j ≠ id := by
    rintro j (hj | hj)
    · refine ⟨.inl hj, ?_⟩
      rintro rfl
      exact hout hj
    · cases hj
  have hset : ¬ settingUp s.decoder = true := by
    intro hset
    have := (h.setup hset).1 id (.inr hdisplay)
    have := hlive.1
    omega
  constructor
  case live => exact h.live
  case once => exact h.once
  case held => exact fun j hj => h.held j (hheld j hj).1
  case distinct =>
    refine ⟨h.distinct.1, ?_⟩
    intro j hj
    cases hj
  case kernel =>
    intro i hi
    by_cases hii : i = (s.frame id).index
    · subst hii
      refine ⟨?_, fun hj => (hheld _ hj).2 hindex⟩
      have := hlive.2
      simp only
      omega
    · simp only [Function.update_of_ne hii] at hi
      exact ⟨(h.kernel i hi).1, fun hj => (h.kernel i hi).2 (hheld _ hj).1⟩
  case taken =>
    intro i hi
    obtain ⟨hlt, hother, hkernel⟩ := h.taken i hi
    have hii : i ≠ (s.frame id).index := by
      rintro rfl
      rw [hindex] at hother
      exact hother (.inr hdisplay)
    refine ⟨hlt, fun hj => hother (hheld _ hj).1, ?_⟩
    simpa only [Function.update_of_ne hii] using hkernel
  case requeued =>
    rintro j hj
    cases hj
    exact ⟨hlive, fun hj => (hheld _ hj).2 rfl⟩
  case unmarked =>
    intro i hi
    refine ⟨(h.unmarked i hi).1, ?_⟩
    intro hj
    have hid : id = s.base + i := by simpa using hj
    rw [hid] at hdisplay
    exact (h.taken i ⟨false, .inr hi⟩).2.1 (.inr hdisplay)
  case setup => exact fun hd => absurd hd hset
  case marking => exact h.marking
  case empty =>
    intro k hk
    have hk' : s.decoder = .sweeping k := hk
    rw [hk'] at hlock
    cases hlock
  case requesting => exact h.requesting
  case exclusive => simp [hlock]

theorem handle_inv {ok : Bool} (h : Inv s) (hstep : step s (.handle ok) = some s') : Inv s' := by
  rw [step] at hstep
  split at hstep
  case h_2 => cases hstep
  case h_1 id hdisplay =>
    split at hstep
    case isTrue hdelay =>
      cases hstep
      exact freed_inv h hdisplay hdelay
    case isFalse hdelay =>
      split at hstep
      case isTrue =>
        cases hstep
        exact dropped_inv h hdisplay
      case isFalse =>
        split at hstep
        case isTrue =>
          split at hstep
          case isFalse => cases hstep
          case isTrue =>
            cases hstep
            exact requeued_inv h hdisplay hdelay
        case isFalse =>
          cases hstep
          exact dropped_inv h hdisplay

theorem mark_inv (h : Inv s) (hstep : step s .mark = some s') : Inv s' := by
  rw [step] at hstep
  split at hstep
  case h_2 => cases hstep
  case h_1 id hdisplay =>
    cases hstep
    obtain ⟨hlive, hout⟩ := h.requeued id hdisplay
    obtain ⟨live, once, held, distinct, kernel, taken, -, unmarked, exclusive, setup, marking,
      empty, requesting⟩ := h
    constructor
    all_goals grind

theorem leave_inv (h : Inv s) (hstep : step s .leave = some s') : Inv s' := by
  rw [step] at hstep
  split at hstep
  case isFalse => cases hstep
  case isTrue hdisplay =>
    cases hstep
    obtain ⟨live, once, held, distinct, kernel, taken, -, unmarked, -, setup, marking, empty,
      requesting⟩ := h
    constructor
    all_goals grind

/-- A permitted step keeps the invariant. -/
theorem step_inv {a : Action} (h : Inv s) (hok : permitted s a = true)
    (hstep : step s a = some s') : Inv s' := by
  cases a with
  | request count => exact request_inv h hstep
  | queueFirst => exact queueFirst_inv h hstep
  | markFirst => exact markFirst_inv h hstep
  | streamOn =>
    rw [step] at hstep
    split at hstep
    case isFalse => cases hstep
    case isTrue hdecoder =>
      cases hstep
      exact quiet_inv h rfl (by rw [hdecoder]; rfl) fun _ hi => hi
  | dequeue i last => exact dequeue_inv h hstep
  | unmark => exact unmark_inv h hok hstep
  | «show» => exact show_inv h hstep
  | last event => exact last_inv h hstep
  | endStream =>
    rw [step] at hstep
    split at hstep
    case isFalse => cases hstep
    case isTrue hdecoder =>
      cases hstep
      exact quiet_inv h rfl (by rw [hdecoder]; rfl) fun _ hi => hi
  | quit =>
    rw [step] at hstep
    split at hstep
    case isFalse => cases hstep
    case isTrue hdecoder =>
      cases hstep
      exact quiet_inv h rfl (by rw [hdecoder]; rfl) fun _ hi => hi
  | exit =>
    rw [step] at hstep
    split at hstep
    case isFalse => cases hstep
    case isTrue hdecoder =>
      cases hstep
      exact quiet_inv h rfl (by rw [hdecoder]; rfl) fun _ hi => by cases hi
  | streamOff =>
    rw [step] at hstep
    split at hstep
    case isFalse => cases hstep
    case isTrue hdecoder =>
      cases hstep
      exact quiet_inv h rfl (by rw [hdecoder]; rfl) fun _ hi => by cases hi
  | lock => exact lock_inv h hstep
  | release => exact release_inv h hstep
  | sweep => exact sweep_inv h hstep
  | unlock => exact unlock_inv h hstep
  | fail =>
    rw [step] at hstep
    split at hstep
    case isFalse => cases hstep
    case isTrue hfail =>
      cases hstep
      refine quiet_inv h rfl ?_ fun _ hi => hi
      cases hd : s.decoder <;> first | rfl | (rw [hd] at hfail; cases hfail)
  | recycle id => exact recycle_inv h hstep
  | handle ok => exact handle_inv h hstep
  | mark => exact mark_inv h hstep
  | leave => exact leave_inv h hstep

theorem Inv.port_frees (h : Inv s) {i : Nat} (hswept : swept s.decoder ≤ i) (hi : i < s.bufNum) :
    (s.frame (s.base + i)).frees = 0 :=
  (h.live _ ⟨by omega, by omega⟩).1

theorem Inv.taken_frees (h : Inv s) {i : Nat} (hi : Taken s i) :
    (s.frame (s.base + i)).frees = 0 := by
  have hlt := (h.taken i hi).1
  obtain ⟨last, hdecoder | hdecoder⟩ := hi
  · exact h.port_frees (by simp [hdecoder, swept]) hlt
  · exact h.port_frees (by simp [hdecoder, swept]) hlt

/-- A step that is possible touches only frames that are not freed. -/
theorem Inv.touched_frees {a : Action} {id : Nat} (h : Inv s) (hstep : step s a = some s')
    (hid : touched s a = some id) : (s.frame id).frees = 0 := by
  cases a with
  | queueFirst =>
    rw [step] at hstep
    split at hstep
    case h_2 => cases hstep
    case h_1 i hdecoder =>
      split at hstep
      case isFalse => cases hstep
      case isTrue hi =>
        simp only [touched, hdecoder, Option.some.injEq] at hid
        rw [← hid]
        exact h.port_frees (by simp [hdecoder, swept]) hi
  | markFirst =>
    rw [step] at hstep
    split at hstep
    case h_2 => cases hstep
    case h_1 i hdecoder =>
      have hi := h.marking i hdecoder
      simp only [touched, hdecoder, Option.some.injEq] at hid
      rw [← hid]
      exact h.port_frees (by simp [hdecoder, swept]) hi
  | unmark =>
    rw [step] at hstep
    split at hstep
    case h_2 => cases hstep
    case h_1 i last hdecoder =>
      simp only [touched, hdecoder, Option.some.injEq] at hid
      rw [← hid]
      exact h.taken_frees ⟨last, .inl hdecoder⟩
  | «show» =>
    rw [step] at hstep
    split at hstep
    case h_2 => cases hstep
    case h_1 i hdecoder =>
      simp only [touched, hdecoder, Option.some.injEq] at hid
      rw [← hid]
      exact h.taken_frees ⟨false, .inr hdecoder⟩
  | last event =>
    rw [step] at hstep
    split at hstep
    case h_2 => cases hstep
    case h_1 i hdecoder =>
      simp only [touched, hdecoder, Option.some.injEq] at hid
      rw [← hid]
      exact h.taken_frees ⟨true, .inr hdecoder⟩
  | sweep =>
    rw [step] at hstep
    split at hstep
    case h_2 => cases hstep
    case h_1 i hdecoder =>
      split at hstep
      case isFalse => cases hstep
      case isTrue hi =>
        simp only [touched, hdecoder, Option.some.injEq] at hid
        rw [← hid]
        exact h.port_frees (by simp [hdecoder, swept]) hi
  | handle ok =>
    rw [step] at hstep
    split at hstep
    case h_2 => cases hstep
    case h_1 j hdisplay =>
      simp only [touched, hdisplay, Option.some.injEq] at hid
      rw [← hid]
      exact (h.held j (.inr hdisplay)).1
  | mark =>
    rw [step] at hstep
    split at hstep
    case h_2 => cases hstep
    case h_1 j hdisplay =>
      simp only [touched, hdisplay, Option.some.injEq] at hid
      rw [← hid]
      exact (h.live j (h.requeued j hdisplay).1).1
  | request count => cases hid
  | streamOn => cases hid
  | dequeue i last => cases hid
  | endStream => cases hid
  | quit => cases hid
  | exit => cases hid
  | streamOff => cases hid
  | lock => cases hid
  | release => cases hid
  | unlock => cases hid
  | fail => cases hid
  | recycle id => cases hid
  | leave => cases hid

/-- A frame that is marked when its turn comes is not with the display. -/
theorem Inv.sweep_not_held {i : Nat} (h : Inv s) (hdecoder : s.decoder = .sweeping i)
    (hqueued : (s.frame (s.base + i)).queued = true) : ¬ Held s (s.base + i) := by
  intro hheld
  obtain ⟨-, ⟨-, hunmarked⟩ | ⟨hswept, -⟩⟩ := h.held _ hheld
  · rw [hunmarked] at hqueued
    cases hqueued
  · rw [hdecoder, swept] at hswept
    omega

theorem Inv.conforms {a : Action} (h : Inv s) (hstep : step s a = some s') : Conforms s a :=
  ⟨fun _ hid => h.touched_frees hstep hid, fun _ _ hdecoder hqueued =>
    h.sweep_not_held hdecoder hqueued⟩

end steps

/-! ### Runs -/

/-- In every run in which the decoder thread never removes the mark of a frame it is about to show
    between the QBUF and the mark of the display, whatever the number of resolution changes, a frame
    is freed at most once, a freed frame is never touched, and `handle_res_change` frees no frame
    that the display has. -/
theorem frames_freed_once (actions : List Action)
    (h : Along step (fun s a => permitted s a = true) start actions) :
    Along step (fun s a => (step s a).isSome → Conforms s a) start actions ∧
      ∀ s, run step start actions = some s → ∀ id, (s.frame id).frees ≤ 1 := by
  have hstart := start_inv
  generalize start = s at h hstart
  refine ⟨?_, fun s' hrun => (run_invariant (fun _ _ _ => step_inv) hrun h hstart).once⟩
  induction actions generalizing s with
  | nil => trivial
  | cons a actions ih =>
    obtain ⟨hok, hrest⟩ := h
    refine ⟨?_, fun s' hstep => ih s' (hrest s' hstep) (step_inv hstart hok hstep)⟩
    intro hsome
    obtain ⟨s', hstep⟩ := Option.isSome_iff_exists.mp hsome
    exact hstart.conforms hstep

/-- Two buffers are queued, the first is shown and given back. -/
def firstFrame : List Action :=
  [.request 2, .queueFirst, .markFirst, .queueFirst, .markFirst, .streamOn, .dequeue 0 false,
    .unmark, .show, .recycle 0, .handle true]

/-- The resolution changes at the other buffer. -/
def resChange : List Action :=
  [.dequeue 1 true, .unmark, .last .sourceChange, .streamOff, .lock, .release, .sweep, .sweep,
    .unlock]

/-- The frame is marked before the kernel gives it back; it is with the display when the resolution
    changes, and freed when it comes back. -/
def inOrder : List Action :=
  firstFrame ++ [.mark, .leave, .dequeue 0 false, .unmark, .show] ++ resChange ++
    [.recycle 0, .handle true]

theorem frames_freed_once_inOrder :
    ∃ s, run step start inOrder = some s ∧ (s.frame 0).frees = 1 ∧
      ∀ id, (s.frame id).frees ≤ 1 := by
  have hend : (run step start inOrder).map (fun s => (s.frame 0).frees) = some 1 := by
    decide +kernel
  obtain ⟨s, hrun, hfrees⟩ := Option.map_eq_some_iff.mp hend
  have hcheck : alongCheck step permitted start inOrder = true := by decide +kernel
  exact ⟨s, hrun, hfrees, (frames_freed_once inOrder (along_of_check hcheck)).2 s hrun⟩

/-- The kernel gives the frame back, and it is shown again, before the mark is set. -/
def lateMark : List Action :=
  firstFrame ++ [.dequeue 0 false, .unmark, .show, .mark, .leave]

/-- The frame that the display has is marked as queued; `handle_res_change` frees it, and when it
    comes back it is read after the free. -/
theorem frames_freed_once_late_mark :
    (run step start lateMark).map (fun s => (s.shown, (s.frame 0).queued)) = some ([0], true) ∧
    (run step start (lateMark ++ resChange)).map (fun s => (s.shown, (s.frame 0).frees)) =
      some ([0], 1) ∧
    (run step start (lateMark ++ resChange ++ [.recycle 0])).map
      (fun s => (touched s (.handle false), (s.frame 0).frees)) = some (some 0, 1) ∧
    ¬ ∀ actions, Along step (fun s a => (step s a).isSome → Conforms s a) start actions := by
  refine ⟨by decide +kernel, by decide +kernel, by decide +kernel, fun hall => ?_⟩
  have hback : (run step start (lateMark ++ resChange ++ [.recycle 0])).map
      (fun s => (touched s (.handle false), (s.frame 0).frees, (step s (.handle false)).isSome)) =
      some (some 0, 1, true) := by
    decide +kernel
  obtain ⟨s, hrun, hs⟩ := Option.map_eq_some_iff.mp hback
  simp only [Prod.mk.injEq] at hs
  obtain ⟨htouched, hfreed, hpossible⟩ := hs
  have hconforms :=
    (hall (lateMark ++ resChange ++ [.recycle 0] ++ [.handle false])).at_reached hrun
  have hfrees := (hconforms hpossible).1 0 htouched
  rw [hfreed] at hfrees
  cases hfrees

end Streambox.V4l2Dec.CaptureBuffers
