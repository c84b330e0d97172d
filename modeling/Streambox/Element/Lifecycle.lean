import Streambox.PathB.Sessions
import Streambox.Vfmcap.Calls

/-! streamboxsrc over several sessions: start, create, stop and the buffers that outlive them.

    The element is started on one of its two paths, creates buffers and is stopped; it may then be
    started again. Each `GstBuffer` carries a callback that downstream runs once, at any time. The
    callback holds a reference on the element and finds what to give back by an index (Path B) or
    through the capture context of the moment (Path A), so a buffer that is dropped late acts on
    whatever session is open by then. `late` are the buffers of earlier sessions that downstream
    still has. Start and stop are single steps, and the path is not switched while the element
    runs. -/

namespace Streambox.Element
open Streambox.Lib
open Streambox.PathB (Pipe Hold Flow Unref)
open Streambox.Vfmcap (World Frame Errno)

/-! ### State -/

/-- Path A while `cap_ctx` is set: the library's world, the frames that `GstBuffer`s hold, and the
    size the session was started with. -/
structure PathA where
  world : World
  bufs : List Frame
  width : Nat
  height : Nat

/-- A buffer of an earlier session, with what its callback will try to give back. -/
inductive Late where
  | frame (f : Frame)
  | hold (h : Hold)
  deriving DecidableEq

structure GstStreamboxSrc where
  capCtx : Option PathA
  vdin1Open : Bool
  streaming : Bool
  pipe : Pipe
  late : List Late

/-- `gst_streambox_src_init`: nothing is open and the pool is empty. -/
def init : GstStreamboxSrc where
  capCtx := none
  vdin1Open := false
  streaming := false
  pipe := PathB.started false false 0 ⟨0, 0, 0⟩
  late := []

/-! ### Path A -/

/-- `vfmcap_release_frame` for a frame the session holds. -/
def PathA.giveBack (a : PathA) (f : Frame) (answer : Option Errno) : PathA :=
  { a with world := Vfmcap.releaseFrame { a.world with frames := a.world.frames.erase f } f answer }

/-- The answers `start_path_a` gets. -/
structure StartA where
  opened : Bool
  cfg : Vfmcap.Config
  fmt : Option Vfmcap.Fmt
  events : List Vfmcap.Event
  numBuffers : Nat
  start : Vfmcap.StartEnv
  attempts : List Vfmcap.Attempt
  requeue : Option Errno

/-- `start_path_a`: open, start, and take a test frame for the size. Every failure closes the
    context again. -/
def startPathA (e : GstStreamboxSrc) (a : StartA) : Option GstStreamboxSrc :=
  if !a.opened then some e
  else match Vfmcap.start (Vfmcap.openWorld a.cfg a.fmt a.events) a.numBuffers a.start with
    | none => none
    | some (w, r) =>
      if r ≠ .ok then some e
      else match Vfmcap.acquireFrame w 3000 a.attempts with
        | none => none
        | some (w, .ok, some f) =>
          some { e with
            capCtx := some ⟨Vfmcap.releaseFrame w f a.requeue, [], f.width, f.height⟩
            streaming := true }
        | some _ => some e

/-- The answers `create_path_a` gets; `flushing` is read after the frame was acquired. -/
structure CreateA where
  attempts : List Vfmcap.Attempt
  flushing : Bool
  dup : Bool
  alloc : Bool
  dup2 : Bool
  alloc2 : Bool
  requeue : Option Errno

/-- Both planes of the frame can be wrapped. -/
def CreateA.wraps (c : CreateA) (f : Frame) : Bool :=
  c.dup && c.alloc && (f.dmabufFd2 < 0 || c.dup2 && c.alloc2)

def createPathA (a : PathA) (c : CreateA) : Option (PathA × Flow) :=
  match Vfmcap.acquireFrame a.world 1000 c.attempts with
  | none => none
  | some (w, r, f) =>
    let a := { a with world := { w with frames := w.frames ++ f.toList } }
    -- a frame acquired while flushing is neither returned nor released
    if c.flushing then some (a, .flushing)
    else match r, f with
      | .errNosig, _ => some (a, .eos)
      | .reconfigured, some f => some (a.giveBack f c.requeue, .eos)
      | .ok, some f =>
        if f.width ≠ a.width ∨ f.height ≠ a.height then some (a.giveBack f c.requeue, .eos)
        else if c.wraps f then some ({ a with bufs := a.bufs ++ [f] }, .ok)
        else some (a.giveBack f c.requeue, .error)
      | _, _ => some (a, .error)

/-! ### Path B -/

/-- What `start_path_b` settles on if it succeeds. -/
structure StartB where
  tenBit : Bool
  monitor : Bool
  nBufs : Nat
  fmt : PathB.Format
  deriving DecidableEq

/-- `start_path_b`; a failure cleans up whatever was there. -/
def startPathB (e : GstStreamboxSrc) : Option StartB → GstStreamboxSrc
  | none => e
  | some b => { e with
      vdin1Open := true
      streaming := true
      pipe := PathB.started b.tenBit b.monitor b.nBufs b.fmt }

def p010PoolCleanup (s : Pipe) : Pipe := { s with outCount := 0, outFree := fun _ => false }

/-- `stop_path_b`: drain the GPU, free the pool, stop the stream and free the buffers. -/
def stopPathB (s : Pipe) (waited accepts : Bool) : Pipe :=
  let s := if s.asyncPending && s.vkInitialized then PathB.drainAsync s waited accepts else s
  let s := PathB.vdin1Streamoff
    { p010PoolCleanup s with vkInitialized := false, asyncPending := false }
  { s with nBufs := 0, idle := [], live := [] }

/-! ### Callbacks of earlier sessions -/

/-- What a callback asks of the session that is open when it runs. -/
inductive Act where
  | qbuf (i : Nat)
  | releaseFrame (f : Frame)
  deriving DecidableEq

/-- `p010_buf_release`, `path_b_buf_release` and `patha_frame_release` of a buffer that does not
    belong to the open session. A refused `QBUF` leaves the driver as it was. -/
def lateRelease (e : GstStreamboxSrc) (accepts : Bool) (answer : Option Errno) :
    Late → GstStreamboxSrc × List Act
  | .hold (.p010 i) => ({ e with pipe := PathB.p010BufRelease e.pipe i }, [])
  | .hold (.vdin1 i) =>
    if e.vdin1Open ∧ e.streaming ∧ i < e.pipe.nBufs then
      ({ e with pipe := { PathB.qbuf e.pipe i accepts with idle := e.pipe.idle } }, [.qbuf i])
    else (e, [])
  | .frame f =>
    match e.capCtx with
    | none => (e, [])
    | some a =>
      ({ e with capCtx := some { a with world := Vfmcap.releaseFrame a.world f answer } },
        [.releaseFrame f])

/-! ### Runs -/

inductive Call where
  | startA (a : StartA)
  | startB (b : Option StartB)
  | stop (waited accepts : Bool)
  | createA (c : CreateA)
  | createB (c : PathB.Env)
  | unrefA (pos : Nat) (answer : Option Errno)
  | unrefB (u : Unref)
  | unrefLate (pos : Nat) (accepts : Bool) (answer : Option Errno)

/-- `gst_streambox_src_stop`; the buffers downstream still has become late. -/
def stop (e : GstStreamboxSrc) (waited accepts : Bool) : GstStreamboxSrc :=
  match e.capCtx with
  | some a => { e with
      capCtx := none
      streaming := false
      late := e.late ++ a.bufs.map .frame }
  | none => { e with
      vdin1Open := false
      streaming := false
      pipe := stopPathB e.pipe waited accepts
      late := e.late ++ e.pipe.live.map fun b => .hold b.hold }

/-- Start and stop alternate; a call for a path that is not open does not happen. -/
def step (e : GstStreamboxSrc) : Call → Option GstStreamboxSrc
  | .startA a => if e.streaming then none else startPathA e a
  | .startB b => if e.streaming then none else some (startPathB e b)
  | .stop waited accepts => if e.streaming then some (stop e waited accepts) else none
  | .createA c => e.capCtx.bind fun a =>
      (createPathA a c).map fun r => { e with capCtx := some r.1 }
  | .createB c => if e.vdin1Open then
      (PathB.createPathB e.pipe c).map fun r => { e with pipe := r.1 } else none
  | .unrefA pos answer => e.capCtx.bind fun a => a.bufs[pos]?.map fun f =>
      { e with capCtx := some ({ a with bufs := a.bufs.eraseIdx pos }.giveBack f answer) }
  | .unrefB u => if e.vdin1Open then some { e with pipe := PathB.dispose e.pipe u } else none
  | .unrefLate pos accepts answer => e.late[pos]?.map fun l =>
      (lateRelease { e with late := e.late.eraseIdx pos } accepts answer l).1

end Streambox.Element
