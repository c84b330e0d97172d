import Mathlib.Algebra.Group.Nat.Defs
import Streambox.Lib.Run

/-! libvfmcap: the capture context and the V4L2 device behind it.

    The device owns a set of buffer tokens (`REQBUFS`), a queue of them (`QBUF`/`DQBUF`) and a queue
    of events. The library owns a context; the caller owns the frames it has acquired and not yet
    released. Every answer the device, the GPU or the allocator gives is an input: a call takes a
    record of answers, its loops take lists of them (one element per pass), and a list that runs out
    means that the call has not returned. The device refuses what V4L2 refuses: a `QBUF` of a token
    that is queued or not allocated fails whatever the input says, and a `DQBUF` answer that names a
    token not in the queue is no behaviour at all.

    `log` is a ghost trace of the calls the library makes, newest first. -/

namespace Streambox.Vfmcap
open Streambox.Lib

abbrev Errno := Nat

def EINTR : Errno := 4
def EIO : Errno := 5
def EAGAIN : Errno := 11
def ENODEV : Errno := 19
def EINVAL : Errno := 22
def ENOTTY : Errno := 25
def EPIPE : Errno := 32

/-- Results of the capture calls. -/
inductive Ret where
  | ok
  | reconfigured
  | errIoctl
  | errTimeout
  | errNosig
  | errVulkan
  | errNomem
  | errInval
  | errState
  deriving DecidableEq, Repr

/-- Results of `vfmcap_poll_event`. -/
inductive EventRet where
  | sourceChange
  | nosig
  | timeout
  | error
  deriving DecidableEq, Repr

inductive Event where
  | sourceChange
  | other
  deriving DecidableEq, Repr

/-- The library call that takes an event off the queue. -/
inductive Entry where
  | start
  | acquire
  | pollEvent
  deriving DecidableEq, Repr

/-! ### Formats and configuration -/

inductive OutputFmt where
  | raw
  | nv12
  | nv21
  | p010
  | nv12Afbc
  | a2b10g10r10Afbc
  | vyuy10bit
  deriving DecidableEq, Repr

inductive VkFmt where
  | nv12
  | nv21
  | p010
  | nv12Afbc
  | a2b10g10r10Afbc
  deriving DecidableEq, Repr

/-- `v4l2_fourcc`. -/
def fourcc (a b c d : Char) : Nat :=
  a.toNat + b.toNat * 2 ^ 8 + c.toNat * 2 ^ 16 + d.toNat * 2 ^ 24

def pixAmly : Nat := fourcc 'A' 'M' 'L' 'Y'
def pixNv12 : Nat := fourcc 'N' 'V' '1' '2'
def pixNv21 : Nat := fourcc 'N' 'V' '2' '1'
def pixYuv420 : Nat := fourcc 'Y' 'U' '1' '2'
def pixYvu420 : Nat := fourcc 'Y' 'V' '1' '2'
def pixP010 : Nat := fourcc 'P' '0' '1' '0'
def pixAb30 : Nat := fourcc 'A' 'B' '3' '0'

/-- What `VIDIOC_G_FMT` fills in. -/
structure Fmt where
  width : Nat
  height : Nat
  pixelformat : Nat
  bytesperline : Nat
  sizeimage : Nat
  deriving DecidableEq, Repr

/-- `vfmcap_config_t`. `frameInterval` stands for `target_fps`: the decimation interval in
    microseconds if a rate above zero is set. -/
structure Config where
  outputFormat : OutputFmt
  targetWidth : Nat
  targetHeight : Nat
  frameInterval : Option Nat
  deriving DecidableEq, Repr

def needsVulkan (cfg : Config) : Bool :=
  match cfg.outputFormat with
  | .raw | .vyuy10bit => false
  | _ => true

def toVkFmt : OutputFmt → VkFmt
  | .nv12 => .nv12
  | .nv21 => .nv21
  | .p010 => .p010
  | .nv12Afbc => .nv12Afbc
  | .a2b10g10r10Afbc => .a2b10g10r10Afbc
  | _ => .nv12

/-- `vfmcap_output_size`, in `uint32_t`. -/
def outputSize (width height : Nat) : OutputFmt → Nat
  | .p010 => width * height * 3 % 2 ^ 32
  | .nv12 | .nv21 => width * height * 3 % 2 ^ 32 / 2
  | .raw | .vyuy10bit => width * height * 3 % 2 ^ 32
  | .nv12Afbc | .a2b10g10r10Afbc => width * height * 2 % 2 ^ 32

def isSignalLostErrno (err : Errno) : Bool :=
  err = ENOTTY || err = ENODEV || err = EIO || err = EPIPE

/-- `last_error`: a fixed text, a text followed by `strerror`, or a text followed by the GPU
    module's own message. -/
inductive Diag where
  | none
  | msg (text : String)
  | sys (text : String) (err : Errno)
  | vk (text : String)
  deriving DecidableEq, Repr

/-- `struct vfmcap_ctx`; `vk` says whether the pipeline pointer is set. -/
structure Ctx where
  streaming : Bool
  config : Config
  width : Nat
  height : Nat
  pixelformat : Nat
  bytesperline : Nat
  sizeimage : Nat
  bitdepth : Nat
  numBuffers : Nat
  vk : Bool
  tsAccum : Nat
  reconfigPending : Bool
  signalLost : Bool
  prevWidth : Nat
  prevHeight : Nat
  lastError : Diag
  deriving DecidableEq, Repr

/-- The bit depth inferred by `vfmcap_open` and `vfmcap_start`. -/
def bitdepthAtStart (pixelformat : Nat) : Nat :=
  if pixelformat = pixAmly then 10
  else if pixelformat = pixNv12 ∨ pixelformat = pixNv21 ∨ pixelformat = pixYuv420 ∨
      pixelformat = pixYvu420 then 8
  else if pixelformat = pixP010 then 10
  else 8

/-- The bit depth inferred when a restored signal is taken over. -/
def bitdepthAtReconfig (pixelformat : Nat) : Nat :=
  if pixelformat = pixAmly then 10
  else if pixelformat = pixNv12 ∨ pixelformat = pixNv21 then 8
  else if pixelformat = pixP010 then 10
  else 8

def Ctx.setFmt (c : Ctx) (f : Fmt) (bitdepth : Nat) : Ctx :=
  { c with width := f.width, height := f.height, pixelformat := f.pixelformat,
           bytesperline := f.bytesperline, sizeimage := f.sizeimage, bitdepth := bitdepth }

def Ctx.dstWidth (c : Ctx) : Nat :=
  if c.config.targetWidth ≠ 0 then c.config.targetWidth else c.width

def Ctx.dstHeight (c : Ctx) : Nat :=
  if c.config.targetHeight ≠ 0 then c.config.targetHeight else c.height

/-! ### The device and the world -/

/-- Calls the library makes, as the ghost trace records them. -/
inductive Sys where
  | qbuf (index : Nat) (legal accepted : Bool)
  | dqbuf (index : Nat)
  | streamoff (accepted : Bool)
  | freebufs (accepted : Bool)
  | reqbufs (asked granted : Nat)
  | streamon
  | poll (timeout : Int)
  | dqevent (e : Event) (by_ : Entry) (lost : Bool)
  | started
  | signalLost
  | doReconfig (lost : Bool)
  | getDmabuf (fd : Int)
  | close (fd : Int)
  | render (y uv : Int)
  | releaseOutput (y uv : Int)
  | reconfigPools (ok : Bool)
  | ret (r : Ret)
  deriving DecidableEq, Repr

/-- The V4L2 side: tokens allocated, tokens queued, events pending; `gen` numbers the
    allocations. -/
structure Device where
  count : Nat
  queued : List Nat
  gen : Nat
  events : List Event
  deriving DecidableEq, Repr

/-- `vfmcap_frame_priv_t`. -/
structure Priv where
  vdinFd : Int
  outYFd : Int
  outUvFd : Int
  vkFmt : VkFmt
  deriving DecidableEq, Repr

/-- `vfmcap_frame_t`; `gen` is the allocation its token was dequeued from. -/
structure Frame where
  dmabufFd : Int
  dmabufFd2 : Int
  index : Nat
  width : Nat
  height : Nat
  bytesperline : Nat
  size : Nat
  pixelformat : Nat
  bitdepth : Nat
  sequence : Nat
  timestampUs : Nat
  drmModifier : Nat
  priv : Option Priv
  gen : Nat
  deriving DecidableEq, Repr

/-- Context, device, the frames the caller holds, and the trace. -/
structure World where
  ctx : Ctx
  dev : Device
  frames : List Frame
  log : List Sys
  deriving DecidableEq, Repr

def World.trace (w : World) (e : Sys) : World := { w with log := e :: w.log }

theorem World.trace_dev (w : World) (e : Sys) : (w.trace e).dev = w.dev := rfl

def World.setCtx (w : World) (c : Ctx) : World := { w with ctx := c }

def World.diag (w : World) (d : Diag) : World := w.setCtx { w.ctx with lastError := d }

/-- `ctx->signal_lost = 1`, traced when it was clear. -/
def World.loseSignal (w : World) : World :=
  { w with ctx := { w.ctx with signalLost := true },
           log := if w.ctx.signalLost then w.log else .signalLost :: w.log }

/-- `VIDIOC_QBUF`; `answer` is an error of the driver's own. -/
def qbuf (w : World) (i : Nat) (answer : Option Errno) : World × Option Errno :=
  if i < w.dev.count ∧ i ∉ w.dev.queued then
    match answer with
    | none =>
      ({ w with dev := { w.dev with queued := w.dev.queued ++ [i] } }.trace (.qbuf i true true), none)
    | some e => (w.trace (.qbuf i true false), some e)
  else (w.trace (.qbuf i false false), some EINVAL)

/-- `VIDIOC_DQBUF` answering with token `i`. -/
def dqbuf (w : World) (i : Nat) : Option World :=
  if i ∈ w.dev.queued then
    some ({ w with dev := { w.dev with queued := w.dev.queued.erase i } }.trace (.dqbuf i))
  else none

/-- The old tokens are gone and `n` new ones exist, none of them queued. -/
def World.allocate (w : World) (n : Nat) : World :=
  { w with dev := { w.dev with count := n, queued := [], gen := w.dev.gen + 1 } }

/-- Answers to `VIDIOC_STREAMOFF` and to `VIDIOC_REQBUFS` with count zero; nobody looks at them. -/
structure FreeEnv where
  streamoff : Option Errno
  reqbufs : Option Errno

/-- `VIDIOC_STREAMOFF`: no token is queued any more. -/
def streamoff (w : World) : Option Errno → World
  | none => { w with dev := { w.dev with queued := [] } }.trace (.streamoff true)
  | some _ => w.trace (.streamoff false)

/-- `VIDIOC_REQBUFS` with count zero: the device takes every token back. -/
def freebufs (w : World) : Option Errno → World
  | none => (w.allocate 0).trace (.freebufs true)
  | some _ => w.trace (.freebufs false)

/-- The two in a row, as `vfmcap_do_reconfig` and `vfmcap_stop` make them. -/
def freeBuffers (w : World) (env : FreeEnv) : World := freebufs (streamoff w env.streamoff) env.reqbufs

@[simp] theorem freeBuffers_ctx (w : World) (env : FreeEnv) : (freeBuffers w env).ctx = w.ctx := by
  rcases env with ⟨_ | _, _ | _⟩ <;> rfl

/-- Answer to `VIDIOC_REQBUFS` with a nonzero count: tokens granted, or an error that may already
    have freed the old ones. -/
inductive ReqbufsRet where
  | granted (count : Nat)
  | failed (err : Errno) (freed : Bool)

def reqbufs (w : World) (asked : Nat) : ReqbufsRet → World × Except Errno Nat
  | .granted n => ((w.allocate n).trace (.reqbufs asked n), .ok n)
  | .failed e true => ((w.allocate 0).trace (.reqbufs asked 0), .error e)
  | .failed e false => (w, .error e)

/-- One `VIDIOC_DQEVENT`: events that have arrived by then, and whether the driver refuses. -/
structure DqStep where
  arrived : List Event
  fails : Bool

def dqevent (w : World) (by_ : Entry) (s : DqStep) : World × Option Event :=
  if s.fails then
    ({ w with dev := { w.dev with events := w.dev.events ++ s.arrived } }, none)
  else
    match w.dev.events ++ s.arrived with
    | [] => ({ w with dev := { w.dev with events := [] } }, none)
    | e :: rest =>
      ({ w with dev := { w.dev with events := rest } }.trace (.dqevent e by_ w.ctx.signalLost),
        some e)

/-- `while (DQEVENT == 0)` up to the first source change; `true` if one was found. -/
def drainToSourceChange (by_ : Entry) : World → List DqStep → Option (World × Bool)
  | _, [] => none
  | w, s :: rest =>
    match dqevent w by_ s with
    | (w, none) => some (w, false)
    | (w, some .sourceChange) => some (w, true)
    | (w, some .other) => drainToSourceChange by_ w rest

/-- `while (DQEVENT == 0)` to the end of the queue. -/
def drainAll (by_ : Entry) : World → List DqStep → Option World
  | _, [] => none
  | w, s :: rest =>
    match dqevent w by_ s with
    | (w, none) => some w
    | (w, some _) => drainAll by_ w rest

/-- Queue the tokens of a list, stopping at the first refusal. -/
def qbufAll (answer : Nat → Option Errno) : World → List Nat → World × Option (Nat × Errno)
  | w, [] => (w, none)
  | w, i :: rest =>
    match qbuf w i (answer i) with
    | (w, none) => qbufAll answer w rest
    | (w, some e) => (w, some (i, e))

/-! ### What the device leaves of the context -/

section ctx
variable {w w' : World}

theorem qbuf_ctx (w : World) (i : Nat) (answer : Option Errno) :
    (qbuf w i answer).1.ctx = w.ctx ∧ (qbuf w i answer).1.frames = w.frames := by
  unfold qbuf
  split
  · cases answer <;> exact ⟨rfl, rfl⟩
  · exact ⟨rfl, rfl⟩

theorem dqbuf_ctx {i : Nat} (h : dqbuf w i = some w') : w'.ctx = w.ctx := by
  unfold dqbuf at h
  split at h
  · cases h
    rfl
  · cases h

theorem reqbufs_ctx {asked : Nat} {answer : ReqbufsRet} {r : Except Errno Nat}
    (h : reqbufs w asked answer = (w', r)) : w'.ctx = w.ctx := by
  cases answer with
  | granted n =>
    cases h
    rfl
  | failed e freed =>
    cases freed <;> cases h <;> rfl

theorem qbufAll_ctx {answer : Nat → Option Errno} {l : List Nat} {r : Option (Nat × Errno)}
    (h : qbufAll answer w l = (w', r)) : w'.ctx = w.ctx := by
  induction l generalizing w with
  | nil =>
    cases h
    rfl
  | cons i l ih =>
    have hone := (qbuf_ctx w i (answer i)).1
    rw [qbufAll] at h
    split at h
    · next heq =>
      rw [heq] at hone
      exact (ih h).trans hone
    · next heq =>
      rw [heq] at hone
      cases h
      exact hone

theorem dqevent_ctx {by_ : Entry} {s : DqStep} {r : Option Event}
    (h : dqevent w by_ s = (w', r)) : w'.ctx = w.ctx := by
  unfold dqevent at h
  split at h
  · cases h
    rfl
  split at h
  · cases h
    rfl
  · cases h
    rfl

theorem drainToSourceChange_ctx {by_ : Entry} : ∀ {steps : List DqStep} {w w' : World}
    {found : Bool}, drainToSourceChange by_ w steps = some (w', found) → w'.ctx = w.ctx
  | [], _, _, _, h => by cases h
  | s :: steps, w, w', found, h => by
    unfold drainToSourceChange at h
    split at h
    · next heq => cases h; exact dqevent_ctx heq
    · next heq => cases h; exact dqevent_ctx heq
    · next heq => exact (drainToSourceChange_ctx h).trans (dqevent_ctx heq)

theorem drainAll_ctx {by_ : Entry} : ∀ {steps : List DqStep} {w w' : World},
    drainAll by_ w steps = some w' → w'.ctx = w.ctx
  | [], _, _, h => by cases h
  | s :: steps, w, w', h => by
    unfold drainAll at h
    split at h
    · next heq => cases h; exact dqevent_ctx heq
    · next heq => exact (drainAll_ctx h).trans (dqevent_ctx heq)

end ctx

end Streambox.Vfmcap
