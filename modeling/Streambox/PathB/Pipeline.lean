import Mathlib.Algebra.Group.Nat.Defs
import Streambox.Lib.Run

/-! streamboxsrc, Path B: one session of `create_path_b` between start and stop.

    Three parties share the vdin1 capture buffers and the P010 output slots: the driver, which owns
    the buffers that are queued to it; the GPU, which reads one buffer and writes one slot for each
    job in flight; and downstream, which owns the `GstBuffer`s it has received. In 10-bit mode a
    call converts one frame behind the capture: it returns the frame whose job the previous call
    submitted and submits a job for the frame it has just dequeued.

    Every answer of the driver, the GPU and the allocator is an input. The polling loops take a list
    of passes, and a list that runs out means that the call has not returned. The driver refuses
    what V4L2 refuses: a `QBUF` of a buffer that is queued, a `DQBUF` when nothing is streaming.
    Downstream may drop buffers while a call runs; the drops are visible to the call only through
    the driver's queue and through the pool lock, so they are placed before each poll and before
    each look into the pool.

    Pixels are tracked as frame numbers, counted in the order `DQBUF` returns them. -/

namespace Streambox.PathB
open Streambox.Lib

inductive Flow where
  | ok
  | flushing
  | eos
  | error
  deriving DecidableEq, Repr

/-! ### Signal events -/

/-- A `v4l2_event`: its type is `SOURCE_CHANGE` or another, `changes` is `u.src_change.changes`. -/
structure Event where
  sourceChange : Bool
  changes : Nat
  deriving DecidableEq, Repr

inductive SignalEventAction where
  | none
  | changed
  | lost
  deriving DecidableEq, Repr

/-- `V4L2_EVENT_SRC_CH_RESOLUTION` is bit 0 of `changes`. -/
def Event.resolution (ev : Event) : Bool := ev.changes % 2 = 1

/-- One turn of the drain loop. -/
def signalStep (action : SignalEventAction) (ev : Event) : SignalEventAction :=
  if ev.sourceChange then
    if ev.resolution then .changed
    else if ev.changes = 0 then if action ≠ .changed then .lost else action
    else action
  else action

/-- Drain everything the monitor has queued. -/
def handleSignalEvent (evs : List Event) : SignalEventAction := evs.foldl signalStep .none

/-! ### State -/

/-- A conversion the GPU has not been waited for. -/
structure Job where
  slot : Nat
  vdin1 : Nat
  out : Nat
  deriving DecidableEq, Repr

/-- What the dispose callback of a `GstBuffer` gives back: a P010 pool slot (`P010BufContext`) or a
    vdin1 buffer (`PathBBufContext`). -/
inductive Hold where
  | p010 (poolIndex : Nat)
  | vdin1 (bufIndex : Nat)
  deriving DecidableEq, Repr

def Hold.slot? : Hold → Option Nat
  | .p010 i => some i
  | .vdin1 _ => none

def Hold.buf? : Hold → Option Nat
  | .p010 _ => none
  | .vdin1 i => some i

/-- A buffer downstream holds, with the frame whose pixels it showed when it was returned. -/
structure GstBuffer where
  hold : Hold
  frame : Option Nat
  deriving DecidableEq, Repr

/-- What went wrong in a call, or cut it short. -/
inductive Trouble where
  | poolExhausted
  | submitFailed
  | waitFailed
  | dupFailed
  | allocFailed
  | noSecondFrame
  | cleanExit
  deriving DecidableEq, Repr

/-- The failures that cost a frame; the other two only cut the lookahead. -/
def Trouble.isFailure : Trouble → Bool
  | .noSecondFrame | .cleanExit => false
  | _ => true

/-- What a call does on the signal side. -/
inductive Note where
  | drained (action : SignalEventAction)
  | posted (reason : String)
  deriving DecidableEq, Repr

/-- Width, height and pixel format, as `G_FMT` reports them. -/
structure Format where
  width : Nat
  height : Nat
  pixfmt : Nat
  deriving DecidableEq, Repr

/-- The element's Path B fields, the driver's queue and the GPU's jobs. The last block is ghost:
    `idle` are the buffers that are with nobody (refused by `QBUF`, or taken off the queue by
    `STREAMOFF`), `slotsClear` says that no submit has found its slot busy, `delivered` are the
    frames shown by the buffers returned so far, and `notes` belong to the current call. -/
structure Pipe where
  vdin1TenBit : Bool
  nBufs : Nat
  outCount : Nat
  vkInitialized : Bool
  monitor : Bool
  prevFormat : Format
  fmtPollCounter : Nat
  vkSlot : Nat
  asyncPending : Bool
  asyncOut : Nat
  asyncVdin1 : Nat
  outFree : Nat → Bool
  queued : List Nat
  streaming : Bool
  jobs : List Job
  vdin1 : Nat → Option Nat
  out : Nat → Option Nat
  frames : Nat
  live : List GstBuffer
  idle : List Nat
  slotsClear : Bool
  delivered : List (Option Nat)
  troubles : List Trouble
  notes : List Note

def Pipe.trouble (s : Pipe) (t : Trouble) : Pipe := { s with troubles := s.troubles ++ [t] }

def Pipe.note (s : Pipe) (n : Note) : Pipe := { s with notes := s.notes ++ [n] }

/-! ### The driver -/

/-- `VIDIOC_QBUF`. The driver may overwrite a buffer as soon as it has it. -/
def qbuf (s : Pipe) (i : Nat) (accepts : Bool) : Pipe :=
  if accepts ∧ i < s.nBufs ∧ i ∉ s.queued then
    { s with queued := s.queued ++ [i], vdin1 := Function.update s.vdin1 i none }
  else { s with idle := i :: s.idle }

/-- `VIDIOC_DQBUF` that returns buffer `i`. -/
def dqbuf (s : Pipe) (i : Nat) : Option Pipe :=
  if s.streaming ∧ i ∈ s.queued then
    some { s with
      queued := s.queued.erase i
      vdin1 := Function.update s.vdin1 i (some s.frames)
      frames := s.frames + 1 }
  else none

/-- `VIDIOC_STREAMOFF` empties the queue. -/
def vdin1Streamoff (s : Pipe) : Pipe :=
  { s with queued := [], idle := s.queued ++ s.idle, streaming := false }

/-! ### The P010 output pool -/

/-- The first free slot, now taken. -/
def p010PoolAcquire (s : Pipe) : Option (Nat × Pipe) :=
  ((List.range s.outCount).find? s.outFree).map fun i =>
    (i, { s with outFree := Function.update s.outFree i false })

/-- `p010_out_free[i] = TRUE` under the lock. -/
def putOut (s : Pipe) (i : Nat) : Pipe := { s with outFree := Function.update s.outFree i true }

/-! ### The GPU -/

/-- Record and submit a conversion on `slot`; the output slot is being written from then on. -/
def vdin1VkSubmitAsync (s : Pipe) (inBuf outPoolIdx slot : Nat) (ok : Bool) : Pipe × Bool :=
  let s := { s with slotsClear := s.slotsClear && s.jobs.all fun j => j.slot ≠ slot }
  if s.vkInitialized ∧ outPoolIdx < s.outCount ∧ ok then
    ({ s with
       jobs := s.jobs ++ [⟨slot, inBuf, outPoolIdx⟩]
       out := Function.update s.out outPoolIdx none }, true)
  else (s, false)

/-- Wait for the fence of `slot`. The work is over in either case; the pixels are there only if the
    wait succeeds. -/
def vdin1VkWaitAsync (s : Pipe) (slot : Nat) (ok : Bool) : Pipe :=
  match s.jobs.find? fun j => j.slot = slot with
  | none => s
  | some j => { s with
      jobs := s.jobs.erase j
      out := Function.update s.out j.out (if ok then s.vdin1 j.vdin1 else none) }

/-! ### Buffers downstream -/

def p010BufRelease (s : Pipe) (idx : Nat) : Pipe := if idx < s.outCount then putOut s idx else s

def pathBBufRelease (s : Pipe) (idx : Nat) (accepts : Bool) : Pipe :=
  if idx < s.nBufs then qbuf s idx accepts else s

/-- Downstream drops the buffer at `pos`; `accepts` is the driver's answer if that means a `QBUF`.
    -/
structure Unref where
  pos : Nat
  accepts : Bool
  deriving DecidableEq, Repr

/-- The dispose callback of a buffer. -/
def release (s : Pipe) (accepts : Bool) : Hold → Pipe
  | .p010 i => p010BufRelease s i
  | .vdin1 i => pathBBufRelease s i accepts

def dispose (s : Pipe) (u : Unref) : Pipe :=
  match s.live[u.pos]? with
  | none => s
  | some b => release { s with live := s.live.eraseIdx u.pos } u.accepts b.hold

def disposeAll (s : Pipe) (us : List Unref) : Pipe := us.foldl dispose s

/-- Return a buffer downstream. -/
def deliver (s : Pipe) (hold : Hold) (frame : Option Nat) : Pipe :=
  { s with live := s.live ++ [⟨hold, frame⟩], delivered := s.delivered ++ [frame] }

/-! ### The polling loops -/

/-- What `poll` reports. `ready` carries `POLLIN` of the flush pipe and, if the monitor shows
    `POLLPRI`, the events queued there. -/
inductive Poll where
  | interrupted
  | failed
  | timeout
  | ready (flushPipe : Bool) (pri : Option (List Event))
  deriving DecidableEq, Repr

inductive Dequeue where
  | again
  | failed
  | buffer (i : Nat)
  deriving DecidableEq, Repr

/-- One turn of a polling loop: `flushing` before and after the poll, buffers dropped meanwhile. -/
structure Pass where
  flushBefore : Bool
  unrefs : List Unref
  poll : Poll
  flushAfter : Bool
  dequeue : Dequeue
  deriving DecidableEq, Repr

/-- How a polling loop ends. -/
inductive Got where
  | frame (idx : Nat)
  | flushing
  | pollFailed
  | signal (action : SignalEventAction)
  | timedOut
  | dequeueFailed
  deriving DecidableEq, Repr

/-- The events behind a `POLLPRI`; without a monitor there are only two descriptors to poll. -/
def monitored (s : Pipe) (pri : Option (List Event)) : Option (List Event) :=
  if s.monitor then pri else none

/-- A drained batch is noted. -/
def noteDrained (s : Pipe) : Option (List Event) → Pipe
  | none => s
  | some evs => s.note (.drained (handleSignalEvent evs))

/-- The poll and `DQBUF` loop. `create_path_b` has it twice, for the current frame (five timeouts
    in all) and for the second frame of a priming call (three). -/
def pollFrame (maxTimeouts : Nat) (s : Pipe) : List Pass → Nat → Option (Pipe × Got)
  | [], _ => none
  | p :: ps, timeouts =>
    if p.flushBefore then some (s, .flushing)
    else
      let s := disposeAll s p.unrefs
      match p.poll with
      | .interrupted => pollFrame maxTimeouts s ps timeouts
      | .failed => some (s, .pollFailed)
      | .timeout =>
        if p.flushAfter then some (s, .flushing)
        else if maxTimeouts ≤ timeouts + 1 then some (s, .timedOut)
        else pollFrame maxTimeouts s ps (timeouts + 1)
      | .ready flushPipe pri =>
        if p.flushAfter || flushPipe then some (s, .flushing)
        else
          let evs := monitored s pri
          let s := noteDrained s evs
          let action := handleSignalEvent (evs.getD [])
          if action ≠ .none then some (s, .signal action)
          else match p.dequeue with
            | .again => pollFrame maxTimeouts s ps timeouts
            | .failed => some (s, .dequeueFailed)
            | .buffer i => (dqbuf s i).map fun s' => (s', .frame i)

/-! ### `create_path_b` -/

/-- The answers one call gets. `submitSync` and `waitSync` belong to the synchronous conversion of a
    priming call, `waitAsync` to the job in flight, `submitAsync` to the next job. The `QBUF`
    answers are for the buffer of the job in flight, for the current frame and for the second frame
    of a priming call. -/
structure Env where
  fmt : Option Format
  passes : List Pass
  unrefsSync : List Unref
  submitSync : Bool
  waitSync : Bool
  waitAsync : Bool
  dup : Bool
  alloc : Bool
  primePasses : List Pass
  unrefsAsync : List Unref
  submitAsync : Bool
  qbufPrev : Bool
  qbufCur : Bool
  qbufSecond : Bool
  deriving DecidableEq, Repr

/-- The driver accepts every `QBUF` that V4L2 allows. -/
def Env.qbufsAccepted (e : Env) : Bool := e.qbufPrev && e.qbufCur && e.qbufSecond

def fmtPollInterval : Nat := 60

/-- Every 60th call compares `G_FMT` with the format the session started with. The counter is a
    `guint64`. -/
def vdin1CheckFormatChange (s : Pipe) (fmt : Option Format) : Pipe × Bool :=
  let s := { s with fmtPollCounter := (s.fmtPollCounter + 1) % 2 ^ 64 }
  if s.fmtPollCounter % fmtPollInterval ≠ 0 then (s, false)
  else match fmt with
    | none => (s, false)
    | some f => (s, f ≠ s.prevFormat)

/-- Drain the job in flight: wait for it, whatever comes of it, and give back what it holds. -/
def drainAsync (s : Pipe) (waited accepts : Bool) : Pipe :=
  let s := vdin1VkWaitAsync s (1 - s.vkSlot) waited
  let s := if s.asyncVdin1 < s.nBufs then qbuf s s.asyncVdin1 accepts else s
  let s := if s.asyncOut < s.outCount then putOut s s.asyncOut else s
  { s with asyncPending := false }

/-- The label `clean_exit`: drain the GPU, post `hdmi-signal-change`, stop the stream. -/
def cleanExit (s : Pipe) (reason : String) (e : Env) : Pipe × Flow :=
  let s := s.trouble .cleanExit
  let s := if s.vdin1TenBit && s.asyncPending && s.vkInitialized then
    drainAsync s e.waitAsync e.qbufPrev else s
  (vdin1Streamoff (s.note (.posted reason)), .eos)

/-- The label `qbuf_return`. -/
def qbufReturn (s : Pipe) (idx : Nat) (e : Env) : Pipe × Flow := (qbuf s idx e.qbufCur, .error)

/-- `dup` and `gst_dmabuf_allocator_alloc`, the two steps of wrapping a slot that can fail. -/
def wrapFailure (e : Env) : Option Trouble :=
  if !e.dup then some .dupFailed else if !e.alloc then some .allocFailed else none

/-- Submit on the current slot and wait for it; what failed, if something did. -/
def vdin1VkConvertSync (s : Pipe) (inBuf outPoolIdx : Nat) (e : Env) : Pipe × Option Trouble :=
  match vdin1VkSubmitAsync s inBuf outPoolIdx s.vkSlot e.submitSync with
  | (s, false) => (s, some .submitFailed)
  | (s, true) =>
    (vdin1VkWaitAsync s s.vkSlot e.waitSync, if e.waitSync then none else some .waitFailed)

/-- Take a slot and submit the job for frame `idx`, or give the frame up. In a priming call
    `vk_async_pending` is already `FALSE`. -/
def submitNext (s : Pipe) (idx : Nat) (e : Env) (accepts : Bool) : Pipe :=
  let s := disposeAll s e.unrefsAsync
  match p010PoolAcquire s with
  | none => qbuf ({ s with asyncPending := false }.trouble .poolExhausted) idx accepts
  | some (o, s) =>
    match vdin1VkSubmitAsync s idx o s.vkSlot e.submitAsync with
    | (s, false) =>
      qbuf ({ putOut s o with asyncPending := false }.trouble .submitFailed) idx accepts
    | (s, true) => { s with
        asyncPending := true
        asyncOut := o
        asyncVdin1 := idx
        vkSlot := 1 - s.vkSlot }

/-- The second half of a priming call: frame 0 is in slot `o`, look for frame 1. -/
def primeSecond (s : Pipe) (e : Env) : Option Pipe :=
  (pollFrame 3 s e.primePasses 0).map fun r =>
    match r with
    | (s, .frame idx2) =>
      if s.nBufs ≤ idx2 then s.trouble .noSecondFrame else submitNext s idx2 e e.qbufSecond
    | (s, _) => s.trouble .noSecondFrame

/-- A call with nothing in flight: convert the frame at once, then start the lookahead. -/
def prime (s : Pipe) (idx : Nat) (e : Env) : Option (Pipe × Flow) :=
  let s := disposeAll s e.unrefsSync
  match p010PoolAcquire s with
  | none => some (qbufReturn (s.trouble .poolExhausted) idx e)
  | some (o, s) =>
    match vdin1VkConvertSync s idx o e with
    | (s, some t) => some (qbufReturn (putOut (s.trouble t) o) idx e)
    | (s, none) =>
      let s := qbuf s idx e.qbufCur
      match wrapFailure e with
      | some t => some (putOut (s.trouble t) o, .error)
      | none => (primeSecond s e).map fun s => (deliver s (.p010 o) (s.out o), .ok)

/-- A call with a job in flight: return its frame and submit the current one. -/
def steady (s : Pipe) (idx : Nat) (e : Env) : Pipe × Flow :=
  let prevOut := s.asyncOut
  let pidx := s.asyncVdin1
  let s := vdin1VkWaitAsync s (1 - s.vkSlot) e.waitAsync
  if !e.waitAsync then
    let s := qbuf (putOut (s.trouble .waitFailed) prevOut) pidx e.qbufPrev
    qbufReturn { s with asyncPending := false } idx e
  else
    let s := qbuf s pidx e.qbufPrev
    match wrapFailure e with
    | some t => qbufReturn { putOut (s.trouble t) prevOut with asyncPending := false } idx e
    | none =>
      let s := submitNext s idx e e.qbufCur
      (deliver s (.p010 prevOut) (s.out prevOut), .ok)

/-- 8-bit mode: the captured buffer itself goes downstream. -/
def eightBit (s : Pipe) (idx : Nat) (e : Env) : Pipe × Flow :=
  match wrapFailure e with
  | some t => qbufReturn (s.trouble t) idx e
  | none => (deliver s (.vdin1 idx) (s.vdin1 idx), .ok)

/-- What a call does with the frame it has dequeued. -/
def convert (s : Pipe) (idx : Nat) (e : Env) : Option (Pipe × Flow) :=
  if s.nBufs ≤ idx then some (s, .error)
  else if s.vdin1TenBit then
    if s.asyncPending then some (steady s idx e) else prime s idx e
  else some (eightBit s idx e)

def createPathB (s : Pipe) (e : Env) : Option (Pipe × Flow) :=
  match vdin1CheckFormatChange { s with notes := [] } e.fmt with
  | (s, true) => some (cleanExit s "format-changed" e)
  | (s, false) =>
    match pollFrame 5 s e.passes 0 with
    | none => none
    | some (s, .flushing) => some (s, .flushing)
    | some (s, .pollFailed) => some (s, .error)
    | some (s, .signal action) =>
      some (cleanExit s (if action = .lost then "signal-lost" else "signal-changed") e)
    | some (s, .timedOut) => some (cleanExit s "signal-timeout" e)
    | some (s, .dequeueFailed) => some (s, .error)
    | some (s, .frame idx) => convert s idx e

/-! ### Sessions -/

def p010OutPoolSize : Nat := 4

/-- The state `start_path_b` leaves: every buffer queued, every slot free, nothing in flight. -/
def started (tenBit monitor : Bool) (nBufs : Nat) (fmt : Format) : Pipe where
  vdin1TenBit := tenBit
  nBufs := nBufs
  outCount := if tenBit then p010OutPoolSize else 0
  vkInitialized := tenBit
  monitor := monitor
  prevFormat := fmt
  fmtPollCounter := 0
  vkSlot := 0
  asyncPending := false
  asyncOut := 0
  asyncVdin1 := 0
  outFree := fun i => tenBit && decide (i < p010OutPoolSize)
  queued := List.range nBufs
  streaming := true
  jobs := []
  vdin1 := fun _ => none
  out := fun _ => none
  frames := 0
  live := []
  idle := []
  slotsClear := true
  delivered := []
  troubles := []
  notes := []

/-- What a call leaves in the history: how it returned and what it did about the signal. -/
structure Done where
  flow : Flow
  notes : List Note
  deriving DecidableEq, Repr

structure Session where
  pipe : Pipe
  history : List Done

inductive Call where
  | create (e : Env)
  | unref (u : Unref)
  deriving DecidableEq, Repr

def Call.qbufsAccepted : Call → Bool
  | .create e => e.qbufsAccepted
  | .unref _ => true

def step (s : Session) : Call → Option Session
  | .create e => (createPathB s.pipe e).map fun r =>
      ⟨r.1, s.history ++ [⟨r.2, r.1.notes⟩]⟩
  | .unref u => some ⟨dispose s.pipe u, s.history⟩

def openSession (tenBit monitor : Bool) (nBufs : Nat) (fmt : Format) : Session :=
  ⟨started tenBit monitor nBufs fmt, []⟩

end Streambox.PathB
