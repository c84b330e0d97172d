import Streambox.Vfmcap.Capture

/-! libvfmcap: the capture calls.

    `vfmcap_acquire_frame` is cut where its control flow is cut. From the label `again:` it first
    waits for a lost signal to come back (`recoverSignal`), then for a buffer (`waitBuffer`), then
    dequeues one, exports it, decimates and converts it (`takeFrame`); decimation and a restored
    signal go back to the label. An `Attempt` holds the answers for one pass from the label. -/

namespace Streambox.Vfmcap
open Streambox.Lib

/-! ### Reconfiguration -/

/-- Answers to the calls of `vfmcap_do_reconfig`. -/
structure ReconfigEnv where
  free : FreeEnv
  gfmt : Option Fmt
  reqbufs : ReqbufsRet
  qbuf : Nat → Option Errno
  streamon : Option Errno
  pools : Bool

/-- A failed `VIDIOC_G_FMT` leaves the zeroed structure. -/
def Fmt.zero : Fmt := ⟨0, 0, 0, 0, 0⟩

/-- `vfmcap_do_reconfig`. -/
def doReconfig (w : World) (env : ReconfigEnv) : World × Ret :=
  let w := freeBuffers (w.trace (.doReconfig w.ctx.signalLost)) env.free
  let f := env.gfmt.getD Fmt.zero
  let w := w.setCtx (w.ctx.setFmt f (bitdepthAtReconfig f.pixelformat))
  match reqbufs w (if w.ctx.numBuffers ≠ 0 then w.ctx.numBuffers else 6) env.reqbufs with
  | (w, .error e) => (w.diag (.sys "REQBUFS after reconfig failed" e), .errIoctl)
  | (w, .ok n) =>
    let w := w.setCtx { w.ctx with numBuffers := n }
    match qbufAll env.qbuf w (List.range n) with
    | (w, some (i, e)) => (w.diag (.sys s!"QBUF({i}) after reconfig failed" e), .errIoctl)
    | (w, none) =>
      match env.streamon with
      | some e => (w.diag (.sys "STREAMON after reconfig failed" e), .errIoctl)
      | none =>
        let w := w.trace .streamon
        -- a pool that cannot be rebuilt is only warned about
        let w := if needsVulkan w.ctx.config && w.ctx.vk then w.trace (.reconfigPools env.pools)
          else w
        (w.setCtx { w.ctx with tsAccum := 0 }, .ok)

/-! ### Start and stop -/

/-- Answers to the calls of `vfmcap_start`. -/
structure StartEnv where
  gfmt : Option Fmt
  drain : List DqStep
  reqbufs : ReqbufsRet
  qbuf : Nat → Option Errno
  streamon : Option Errno
  vkInit : Bool

/-- `VFMCAP_MIN_BUFFERS` and `VFMCAP_MAX_BUFFERS`. -/
def minBuffers : Nat := 4
def maxBuffers : Nat := 16

/-- The end of `vfmcap_start`: streaming, and the pipeline if the format needs one. -/
def startVulkan (w : World) (env : StartEnv) : World × Ret :=
  let w := (w.setCtx { w.ctx with streaming := true, signalLost := false }).trace .started
  if needsVulkan w.ctx.config && !w.ctx.vk && w.ctx.width > 0 && w.ctx.height > 0 then
    if env.vkInit then (w.setCtx { w.ctx with vk := true }, .ok)
    else (w.diag (.vk "Vulkan init failed"), .errVulkan)
  else (w, .ok)

/-- `vfmcap_start`. -/
def start (w : World) (numBuffers : Nat) (env : StartEnv) : Option (World × Ret) :=
  if w.ctx.streaming then some (w, .ok) else
  let numBuffers := min (max numBuffers minBuffers) maxBuffers
  if w.ctx.config.outputFormat = .vyuy10bit ∧ w.ctx.bitdepth ≠ 10 then
    some (w.diag (.msg "VYUY 10-bit passthrough requires 10-bit input"), .errInval)
  else
    let w := match env.gfmt with
      | some f => w.setCtx (w.ctx.setFmt f (bitdepthAtStart f.pixelformat))
      | none => w
    match drainAll .start w env.drain with
    | none => none
    | some w =>
      match reqbufs w numBuffers env.reqbufs with
      | (w, .error e) => some (w.diag (.sys "VIDIOC_REQBUFS failed" e), .errIoctl)
      | (w, .ok n) =>
        let w := w.setCtx { w.ctx with numBuffers := n }
        match qbufAll env.qbuf w (List.range n) with
        | (w, some (i, e)) => some (w.diag (.sys s!"VIDIOC_QBUF({i}) failed" e), .errIoctl)
        | (w, none) =>
          match env.streamon with
          | some e => some (w.diag (.sys "VIDIOC_STREAMON failed" e), .errIoctl)
          | none => some (startVulkan (w.trace .streamon) env)

/-- What `vfmcap_start` takes over from G_FMT. -/
def readFmt (w : World) (gfmt : Option Fmt) : World :=
  match gfmt with
  | some f => w.setCtx (w.ctx.setFmt f (bitdepthAtStart f.pixelformat))
  | none => w

/-- `vfmcap_stop`. -/
def stop (w : World) (env : FreeEnv) : World :=
  if w.ctx.streaming then
    let w := freeBuffers w env
    w.setCtx { w.ctx with streaming := false, numBuffers := 0 }
  else w

/-! ### Waiting -/

structure Revents where
  pri : Bool
  input : Bool
  err : Bool

inductive PollRet where
  | timeout
  | error (err : Errno)
  | ready (revents : Revents)

/-- Answers to the calls made when a restored signal is seen. -/
structure RestoreEnv where
  gfmt : Option Fmt
  reconfig : ReconfigEnv

/-- One pass of the signal-recovery loop. -/
structure RecoverPass where
  poll : PollRet
  drain : List DqStep
  restore : RestoreEnv

/-- `vfmcap_report_signal_lost_ioctl`. -/
def reportSignalLost (w : World) (op : String) (err : Errno) : World × Option Ret :=
  (w.loseSignal.diag (.sys (op ++ " failed") err), some .errNosig)

/-- A source change seen while the signal was lost: take the new format over. -/
def restoreSignal (w : World) (env : RestoreEnv) : World :=
  let w := w.setCtx { w.ctx with signalLost := false, prevWidth := w.ctx.width,
                                 prevHeight := w.ctx.height }
  let w := match env.gfmt with
    | some f => w.setCtx (w.ctx.setFmt f (bitdepthAtReconfig f.pixelformat))
    | none => w
  let w := (doReconfig w env.reconfig).1
  w.setCtx { w.ctx with reconfigPending := true }

/-- The recovery loop of `vfmcap_acquire_frame`; a result ends the call. -/
def recoverSignal (timeout : Int) : World → List RecoverPass → Option (World × Option Ret)
  | _, [] => none
  | w, p :: rest =>
    let w := w.trace (.poll (if timeout > 0 then timeout else 1000))
    match p.poll with
    | .timeout => some (w, some .errNosig)
    | .error e =>
      if e = EINTR then recoverSignal timeout w rest
      else some (w.diag (.sys "poll() during signal recovery failed" e), some .errIoctl)
    | .ready ev =>
      if ev.pri then
        match drainToSourceChange .acquire w p.drain with
        | none => none
        | some (w, true) => some (restoreSignal w p.restore, none)
        | some (w, false) => recoverSignal timeout w rest
      else recoverSignal timeout w rest

/-- One pass of the buffer-wait loop; `now` is the clock it reads. -/
structure WaitPass where
  now : Int
  poll : PollRet
  drain : List DqStep

/-- Events are looked at only when `POLLPRI` is set. -/
def handleEvents (w : World) (ev : Revents) (drain : List DqStep) : Option (World × Bool) :=
  if ev.pri then drainToSourceChange .acquire w drain else some (w, false)

/-- The buffer-wait loop of `vfmcap_acquire_frame`; a result ends the call. -/
def waitBuffer (deadline : Int) : World → List WaitPass → Option (World × Option Ret)
  | _, [] => none
  | w, p :: rest =>
    -- `(int)` of a 64-bit difference
    let remaining := (deadline - p.now).bmod (2 ^ 32)
    if remaining ≤ 0 then some (w, some .errTimeout) else
    let w := w.trace (.poll remaining)
    match p.poll with
    | .timeout => some (w, some .errTimeout)
    | .error e =>
      if e = EINTR then waitBuffer deadline w rest
      else if isSignalLostErrno e then some (reportSignalLost w "poll()" e)
      else some (w.diag (.sys "poll() failed" e), some .errIoctl)
    | .ready ev =>
      if ev.err then some (reportSignalLost w "poll()" ENODEV) else
      match handleEvents w ev p.drain with
      | none => none
      | some (w, true) => some (w.loseSignal, some .errNosig)
      | some (w, false) => if ev.input then some (w, none) else waitBuffer deadline w rest

/-! ### Taking a frame -/

structure DqBuf where
  index : Nat
  sequence : Nat
  timestampUs : Nat

/-- What a render call hands out: one or two descriptors and, for AFBC, a modifier. -/
structure RenderOut where
  fd : Int
  fd2 : Int
  modifier : Nat

/-- Answers for one pass from `again:`. -/
structure Attempt where
  recover : List RecoverPass
  now : Int
  wait : List WaitPass
  dqbuf : Except Errno DqBuf
  dmabuf : Except Errno (Int × Nat)
  requeue : Option Errno
  render : Option RenderOut
  calloc : Bool

/-- A pass returns from the call or goes back to `again:`. -/
inductive Outcome where
  | done (r : Ret) (f : Option Frame)
  | again

/-- The five conversion branches. -/
inductive RenderPath where
  | linear8
  | afbc8
  | linear10
  | afbc10
  | a2b10
  deriving DecidableEq

def renderPath (bitdepth : Nat) (f : VkFmt) : Option RenderPath :=
  if bitdepth = 8 ∧ (f = .nv12 ∨ f = .p010) then some .linear8
  else if bitdepth = 8 ∧ f = .nv12Afbc then some .afbc8
  else if bitdepth = 10 ∧ (f = .nv12 ∨ f = .p010) then some .linear10
  else if bitdepth = 10 ∧ f = .nv12Afbc then some .afbc10
  else if bitdepth = 10 ∧ f = .a2b10g10r10Afbc then some .a2b10
  else none

def RenderPath.failText : RenderPath → String
  | .linear8 => "Vulkan render failed"
  | .afbc8 => "Vulkan AFBC NV12 render failed"
  | .linear10 => "Vulkan 10-bit render failed"
  | .afbc10 => "Vulkan 10-bit AFBC NV12 render failed"
  | .a2b10 => "Vulkan 10-bit AFBC A2B10G10R10 render failed"

def RenderPath.isAfbc : RenderPath → Bool
  | .linear8 | .linear10 => false
  | .afbc8 | .afbc10 | .a2b10 => true

def RenderPath.bytesperline (p : RenderPath) (f : VkFmt) (dstW : Nat) : Nat :=
  match p with
  | .linear8 | .linear10 => if f = .nv12 then dstW else dstW * 2 % 2 ^ 32
  | .afbc8 | .afbc10 => dstW
  | .a2b10 => dstW * 4 % 2 ^ 32

def RenderPath.pixelformat (p : RenderPath) (f : VkFmt) : Nat :=
  match p with
  | .linear8 | .linear10 => if f = .nv12 then pixNv12 else pixP010
  | .afbc8 | .afbc10 => pixNv12
  | .a2b10 => pixAb30

/-- The second output descriptor: AFBC outputs have none. -/
def RenderPath.outFd2 (p : RenderPath) (out : RenderOut) : Int := if p.isAfbc then -1 else out.fd2

/-- Close the exported buffer and queue the token again. -/
def giveBack (w : World) (fd : Int) (i : Nat) (answer : Option Errno) : World :=
  (qbuf (w.trace (.close fd)) i answer).1

/-- Framerate decimation: the new accumulator, and whether this frame is dropped. -/
def decimate (c : Ctx) (timestampUs : Nat) : Ctx × Bool :=
  match c.config.frameInterval with
  | none => (c, false)
  | some interval =>
    if c.reconfigPending then (c, false) else
    let accum := if c.tsAccum = 0 then timestampUs else c.tsAccum
    let ahead := (accum : Int).bmod (2 ^ 64) - (timestampUs : Int).bmod (2 ^ 64)
    if ahead > ((interval / 2 : Nat) : Int) then ({ c with tsAccum := accum }, true)
    else ({ c with tsAccum := (accum + interval) % 2 ^ 64 }, false)

/-- The reconfiguration notice at the end of a successful call. -/
def finish (w : World) (f : Frame) : World × Outcome :=
  if w.ctx.reconfigPending then
    (w.setCtx { w.ctx with reconfigPending := false }, .done .reconfigured (some f))
  else (w, .done .ok (some f))

/-- The converted frame of one branch. -/
def convertedFrame (c : Ctx) (p : RenderPath) (f : Frame) (out : RenderOut) : Frame :=
  let vkFmt := toVkFmt c.config.outputFormat
  { f with
    dmabufFd := out.fd, dmabufFd2 := p.outFd2 out,
    width := c.dstWidth, height := c.dstHeight,
    bytesperline := p.bytesperline vkFmt c.dstWidth,
    size := outputSize c.dstWidth c.dstHeight c.config.outputFormat,
    pixelformat := p.pixelformat vkFmt,
    drmModifier := if p.isAfbc then out.modifier else f.drmModifier,
    priv := some ⟨f.dmabufFd, out.fd, p.outFd2 out, vkFmt⟩ }

/-- The GPU conversion of an exported frame. -/
def convert (w : World) (a : Attempt) (f : Frame) : World × Outcome :=
  if needsVulkan w.ctx.config && w.ctx.vk then
    match renderPath w.ctx.bitdepth (toVkFmt w.ctx.config.outputFormat) with
    | none => finish w f
    | some p =>
      match a.render with
      | none =>
        (giveBack (w.diag (.vk p.failText)) f.dmabufFd f.index a.requeue, .done .errVulkan none)
      | some out =>
        let w := w.trace (.render out.fd (p.outFd2 out))
        if a.calloc then finish w (convertedFrame w.ctx p f out)
        else
          (giveBack (w.trace (.releaseOutput out.fd (p.outFd2 out))) f.dmabufFd f.index a.requeue,
            .done .errNomem none)
  else finish w f

/-- The frame descriptor filled from a dequeued, exported buffer. -/
def rawFrame (w : World) (b : DqBuf) (fd : Int) (size : Nat) : Frame where
  dmabufFd := fd
  dmabufFd2 := -1
  index := b.index
  width := w.ctx.width
  height := w.ctx.height
  bytesperline := w.ctx.bytesperline
  size := size
  pixelformat := w.ctx.pixelformat
  bitdepth := w.ctx.bitdepth
  sequence := b.sequence
  timestampUs := b.timestampUs
  drmModifier := 0
  priv := none
  gen := w.dev.gen

/-- From `VIDIOC_DQBUF` to the end of the pass. -/
def takeFrame (w : World) (a : Attempt) : Option (World × Outcome) :=
  match a.dqbuf with
  | .error e =>
    if e = EAGAIN then some (w, .done .errTimeout none)
    else if isSignalLostErrno e then
      some ((reportSignalLost w "VIDIOC_DQBUF" e).1, .done .errNosig none)
    else some (w.diag (.sys "VIDIOC_DQBUF failed" e), .done .errIoctl none)
  | .ok b =>
    match dqbuf w b.index with
    | none => none
    | some w =>
      match a.dmabuf with
      | .error e =>
        let w := (qbuf (w.diag (.sys "VFM_CAP_IOC_GET_DMABUF failed" e)) b.index a.requeue).1
        if isSignalLostErrno e then some (w.loseSignal, .done .errNosig none)
        else some (w, .done .errIoctl none)
      | .ok (fd, size) =>
        let f := rawFrame w b fd size
        let w := w.trace (.getDmabuf fd)
        let (c, drop) := decimate w.ctx b.timestampUs
        let w := w.setCtx c
        if drop then some (giveBack w fd b.index a.requeue, .again)
        else some (convert w a f)

/-- Both waits of a pass: for the signal if it is lost, for a buffer unless the call is
    non-blocking. -/
def waitSignal (w : World) (timeout : Int) (a : Attempt) : Option (World × Option Ret) :=
  if w.ctx.signalLost then recoverSignal timeout w a.recover else some (w, none)

def waitFrame (w : World) (timeout : Int) (a : Attempt) : Option (World × Option Ret) :=
  if timeout ≠ 0 then waitBuffer (a.now + timeout) w a.wait else some (w, none)

/-- One pass from `again:`. -/
def attempt (w : World) (timeout : Int) (a : Attempt) : Option (World × Outcome) :=
  match waitSignal w timeout a with
  | none => none
  | some (w, some r) => some (w, .done r none)
  | some (w, none) =>
    match waitFrame w timeout a with
    | none => none
    | some (w, some r) => some (w, .done r none)
    | some (w, none) => takeFrame w a

/-- Passes until one of them returns. -/
def attempts (timeout : Int) : World → List Attempt → Option (World × Ret × Option Frame)
  | _, [] => none
  | w, a :: rest =>
    match attempt w timeout a with
    | none => none
    | some (w, .done r f) => some (w, r, f)
    | some (w, .again) => attempts timeout w rest

/-- `vfmcap_acquire_frame`. -/
def acquireFrame (w : World) (timeout : Int) (env : List Attempt) :
    Option (World × Ret × Option Frame) :=
  if w.ctx.streaming then attempts timeout w env
  else some (w.diag (.msg "Not streaming (call vfmcap_start first)"), .errState, none)

/-! ### Release and events -/

/-- `vfmcap_release_frame`. -/
def releaseFrame (w : World) (f : Frame) (answer : Option Errno) : World :=
  let w := match f.priv with
    | some p =>
      let w := if w.ctx.vk then w.trace (.releaseOutput p.outYFd p.outUvFd) else w
      if p.vdinFd ≥ 0 then w.trace (.close p.vdinFd) else w
    | none => if f.dmabufFd ≥ 0 then w.trace (.close f.dmabufFd) else w
  (qbuf w f.index answer).1

structure PollEnv where
  poll : PollRet
  dqevent : DqStep

/-- `vfmcap_poll_event`. -/
def pollEvent (w : World) (timeout : Int) (env : PollEnv) : World × EventRet :=
  let w := w.trace (.poll timeout)
  match env.poll with
  | .timeout => (w, .timeout)
  | .error _ => (w, .error)
  | .ready ev =>
    if ev.err then (w.loseSignal, .nosig)
    else if ev.pri then
      match dqevent w .pollEvent env.dqevent with
      | (w, some .sourceChange) =>
        let w := w.loseSignal
        (w.setCtx { w.ctx with reconfigPending := true }, .sourceChange)
      | (w, _) => (w, .timeout)
    else (w, .timeout)

/-! ### Runs -/

/-- What can happen next: a call of the library with the answers it gets, or an event that the
    device queues on its own. `release k` releases the `k`-th frame the caller holds. -/
inductive Call where
  | start (numBuffers : Nat) (env : StartEnv)
  | stop (env : FreeEnv)
  | acquire (timeout : Int) (env : List Attempt)
  | release (k : Nat) (answer : Option Errno)
  | pollEvent (timeout : Int) (env : PollEnv)
  | emit (e : Event)

def step (w : World) : Call → Option World
  | .start n env => (start w n env).map Prod.fst
  | .stop env => some (stop w env)
  | .acquire timeout env =>
    (acquireFrame w timeout env).map fun (w, r, f) =>
      { w with frames := w.frames ++ f.toList }.trace (.ret r)
  | .release k answer =>
    w.frames[k]?.map fun f => releaseFrame { w with frames := w.frames.eraseIdx k } f answer
  | .pollEvent timeout env => some (pollEvent w timeout env).1
  | .emit e => some { w with dev := { w.dev with events := w.dev.events ++ [e] } }

/-- `vfmcap_open`: a zeroed context with the caller's configuration and the format read, if any. -/
def openCtx (cfg : Config) (fmt : Option Fmt) : Ctx :=
  let c : Ctx :=
    { streaming := false, config := cfg, width := 0, height := 0, pixelformat := 0,
      bytesperline := 0, sizeimage := 0, bitdepth := 0, numBuffers := 0, vk := false, tsAccum := 0,
      reconfigPending := false, signalLost := false, prevWidth := 0, prevHeight := 0,
      lastError := .none }
  match fmt with
  | some f => c.setFmt f (bitdepthAtStart f.pixelformat)
  | none => c

/-- The world right after `vfmcap_open`; events may already be queued. -/
def openWorld (cfg : Config) (fmt : Option Fmt) (events : List Event) : World where
  ctx := openCtx cfg fmt
  dev := ⟨0, [], 0, events⟩
  frames := []
  log := []

/-! ### Answers of a well-behaved device -/

/-- Answers of a device that grants four tokens and accepts everything. -/
def plainFree : FreeEnv := ⟨none, none⟩

def plainReconfig : ReconfigEnv := ⟨plainFree, none, .granted 4, fun _ => none, none, true⟩

def plainStart : StartEnv := ⟨none, [⟨[], false⟩], .granted 4, fun _ => none, none, true⟩

/-- A non-blocking pass that dequeues token `i`. -/
def takeToken (i : Nat) : Attempt :=
  { recover := [], now := 0, wait := [], dqbuf := .ok ⟨i, 0, 0⟩, dmabuf := .ok (10, 100),
    requeue := none, render := none, calloc := true }

/-- The same, after a source change has brought the signal back. -/
def recoverAndTake (i : Nat) : Attempt :=
  { takeToken i with
    recover := [⟨.ready ⟨true, false, false⟩, [⟨[.sourceChange], false⟩], ⟨none, plainReconfig⟩⟩] }

def seeSourceChange : PollEnv := ⟨.ready ⟨true, false, false⟩, ⟨[.sourceChange], false⟩⟩

def rawConfig : Config := ⟨.raw, 0, 0, none⟩

end Streambox.Vfmcap
