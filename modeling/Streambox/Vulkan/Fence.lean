import Mathlib.Algebra.Group.Nat.Defs
import Streambox.Lib.Run

/-! libvfmcap, vfmcap_vulkan.c: the fence and the command buffer of the converter.

    All conversions but the 10-bit one record into `command_buffer` and submit with `fence`. The fence
    is created signaled; whoever submits resets it first if `frame_count` is zero, and otherwise
    relies on the last wait to have reset it. What breaks this is a job submitted before the last one
    has been waited for, a wait that fails (it does not reset the fence), and a 10-bit render, which
    has fences of its own but counts its frame here as well.

    The GPU finishes a job on its own. Between calls that is an event; inside a call it matters only
    whether it has happened by the time the command pool is reset, and by the time of the submit. -/

namespace Streambox.Vulkan.Fence
open Streambox.Lib

/-- What is observed: `vkResetCommandPool` with the job that uses the buffer in flight or not,
    `vkQueueSubmit` with the fence signaled or not and in use or not, and a new pending job with one
    pending or not. -/
inductive Obs
  | resetCommandPool (inFlight : Bool)
  | queueSubmit (signaled inFlight : Bool)
  | pend (hasPending : Bool)
  deriving DecidableEq, Repr

/-- The converter, its fence, whether a job that names the fence is in flight, and what was
    observed, newest first. -/
structure State where
  initialized : Bool
  signaled : Bool
  inFlight : Bool
  frameCount : Nat
  hasPending : Bool
  log : List Obs
  deriving DecidableEq, Repr

/-- The observation is as the protocol wants it. -/
def Obs.ok : Obs → Bool
  | .resetCommandPool inFlight => !inFlight
  | .queueSubmit signaled inFlight => !signaled && !inFlight
  | .pend hasPending => !hasPending

/-- Every submit names an unsignaled fence that is not in use, the command buffer is not reset under
    a job, and no pending job is overwritten. -/
def Lawful (s : State) : Prop := ∀ o ∈ s.log, o.ok = true

instance (s : State) : Decidable (Lawful s) := inferInstanceAs (Decidable (∀ o ∈ s.log, _))

def State.observe (s : State) (o : Obs) : State := { s with log := o :: s.log }

/-! ### What the device does -/

/-- The job in flight is done. -/
def gpuFinish (s : State) : State :=
  if s.inFlight then { s with inFlight := false, signaled := true } else s

/-- The job in flight is done by now, or it is not. -/
def finishedBy (s : State) (done : Bool) : State := if done then gpuFinish s else s

/-- `vkResetFences`; it may fail. -/
def resetFences (s : State) (ok : Bool) : State := if ok then { s with signaled := false } else s

/-- `vkWaitForFences`: it can succeed only if the fence is signaled or going to be. -/
def waitForFences (s : State) (ok : Bool) : State × Bool :=
  if ok && (s.signaled || s.inFlight) then (gpuFinish s, true) else (s, false)

/-- `vkDeviceWaitIdle`; it may fail. -/
def deviceWaitIdle (s : State) (ok : Bool) : State := finishedBy s ok

/-! ### The calls -/

/-- Answers for a call that submits a job. `caches` says whether everything that is looked up before
    the recording is there, `doneByReset` and `doneBySubmit` whether the job in flight is done. -/
structure SubmitEnv where
  caches : Bool
  resetFences : Bool
  doneByReset : Bool
  resetCommandPool : Bool
  beginCommandBuffer : Bool
  endCommandBuffer : Bool
  doneBySubmit : Bool
  queueSubmit : Bool

/-- The fence is reset only for the first frame. -/
def firstFrame (s : State) (env : SubmitEnv) : State :=
  if s.frameCount = 0 then resetFences s env.resetFences else s

/-- From `vkResetCommandPool` to the new pending job. -/
def recordAndSubmit (s : State) (env : SubmitEnv) : State × Bool :=
  let s := finishedBy s env.doneByReset
  let s := s.observe (.resetCommandPool s.inFlight)
  if !env.resetCommandPool || !env.beginCommandBuffer || !env.endCommandBuffer then (s, false)
  else
    let s := finishedBy s env.doneBySubmit
    let s := s.observe (.queueSubmit s.signaled s.inFlight)
    if !env.queueSubmit then (s, false)
    else ({ s with inFlight := true, hasPending := true }.observe (.pend s.hasPending), true)

/-- vfmcap_vk_convert_submit: the fence comes before the caches. -/
def vfmcapVkConvertSubmit (s : State) (env : SubmitEnv) : State × Bool :=
  if !s.initialized then (s, false)
  else
    let s := firstFrame s env
    if !env.caches then (s, false) else recordAndSubmit s env

/-- vfmcap_vk_render_submit, and the same part of vfmcap_vk_render_and_wait: the caches come first.
    -/
def vfmcapVkRenderSubmit (s : State) (env : SubmitEnv) : State × Bool :=
  if !s.initialized then (s, false)
  else if !env.caches then (s, false)
  else recordAndSubmit (firstFrame s env) env

/-- Answers for a wait. -/
structure WaitEnv where
  waitForFences : Bool
  deviceWaitIdle : Bool
  resetFences : Bool

/-- vfmcap_vk_convert_wait. -/
def vfmcapVkConvertWait (s : State) (env : WaitEnv) : State × Bool :=
  if !s.initialized then (s, false)
  else if !s.hasPending then (s, true)
  else
    let (s, ok) := waitForFences s env.waitForFences
    let s := deviceWaitIdle s env.deviceWaitIdle
    let s := { s with hasPending := false }
    if !ok then (s, false)
    else
      let s := resetFences s env.resetFences
      ({ s with frameCount := (s.frameCount + 1) % 2 ^ 64 }, true)

/-- A submit and, if it succeeds, the wait for it. -/
def submitAndWait (submitted : State × Bool) (env : WaitEnv) : State × Bool :=
  match submitted with
  | (s, false) => (s, false)
  | (s, true) => vfmcapVkConvertWait s env

/-- vfmcap_vk_convert. -/
def vfmcapVkConvert (s : State) (env : SubmitEnv) (wait : WaitEnv) : State × Bool :=
  submitAndWait (vfmcapVkConvertSubmit s env) wait

/-- vfmcap_vk_render_and_wait; `entries` says whether it gets its entries of the output pools. -/
def vfmcapVkRenderAndWait (s : State) (entries : Bool) (env : SubmitEnv) (wait : WaitEnv) :
    State × Bool :=
  if !s.initialized || !entries then (s, false)
  else submitAndWait (vfmcapVkRenderSubmit s env) wait

/-- vfmcap_vk_render_10bit_and_wait: a command buffer and a fence per slot, but the frame is
    counted. `ok` says whether its own calls succeed. -/
def vfmcapVkRender10bitAndWait (s : State) (ok idle : Bool) : State × Bool :=
  if !s.initialized || !ok then (s, false)
  else
    let s := deviceWaitIdle s idle
    ({ s with frameCount := (s.frameCount + 1) % 2 ^ 64 }, true)

/-- vfmcap_vk_reconfig_pools: `has_pending` stays, and `frame_count` too if it fails. -/
def vfmcapVkReconfigPools (s : State) (idle ok : Bool) : State × Bool :=
  if !s.initialized then (s, false)
  else
    let s := deviceWaitIdle s idle
    if !ok then (s, false) else ({ s with frameCount := 0 }, true)

/-- Answers for vfmcap_vk_init: what comes before the 3D LUT is uploaded, the upload, what comes
    after. -/
structure InitEnv where
  before : Bool
  resetFences : Bool
  resetCommandPool : Bool
  beginCommandBuffer : Bool
  endCommandBuffer : Bool
  queueSubmit : Bool
  waitForFences : Bool
  after : Bool

/-- A new context: the fence is created signaled. -/
def created (log : List Obs) : State := ⟨false, true, false, 0, false, log⟩

/-- vfmcap_vk_init, with the upload of the 3D LUT. -/
def vfmcapVkInit (s : State) (env : InitEnv) : State × Bool :=
  let s := created s.log
  if !env.before then (s, false)
  else
    let s := resetFences s env.resetFences
    let s := s.observe (.resetCommandPool s.inFlight)
    if !env.resetCommandPool || !env.beginCommandBuffer || !env.endCommandBuffer then (s, false)
    else
      let s := s.observe (.queueSubmit s.signaled s.inFlight)
      if !env.queueSubmit then (s, false)
      else
        let (s, ok) := waitForFences { s with inFlight := true } env.waitForFences
        if !ok || !env.after then (s, false)
        else ({ s with initialized := true, frameCount := 0 }, true)

/-! ### Runs -/

/-- A call with the answers it gets, or the GPU finishing a job. -/
inductive Call
  | init (env : InitEnv)
  | convertSubmit (env : SubmitEnv)
  | convertWait (env : WaitEnv)
  | convert (env : SubmitEnv) (wait : WaitEnv)
  | renderAndWait (entries : Bool) (env : SubmitEnv) (wait : WaitEnv)
  | render10bitAndWait (ok idle : Bool)
  | reconfigPools (idle ok : Bool)
  | gpuFinishes

def step (s : State) : Call → Option State
  | .init env => some (vfmcapVkInit s env).1
  | .convertSubmit env => some (vfmcapVkConvertSubmit s env).1
  | .convertWait env => some (vfmcapVkConvertWait s env).1
  | .convert env wait => some (vfmcapVkConvert s env wait).1
  | .renderAndWait entries env wait => some (vfmcapVkRenderAndWait s entries env wait).1
  | .render10bitAndWait ok idle => some (vfmcapVkRender10bitAndWait s ok idle).1
  | .reconfigPools idle ok => some (vfmcapVkReconfigPools s idle ok).1
  | .gpuFinishes => some (gpuFinish s)

/-- Before vfmcap_vk_init there is no context. -/
def absent : State := created []

/-! ### When a call keeps the protocol -/

/-- The recording gets as far as `vkQueueSubmit`. -/
def SubmitEnv.recorded (env : SubmitEnv) : Bool :=
  env.resetCommandPool && env.beginCommandBuffer && env.endCommandBuffer

/-- If the command pool is reset, the job in flight is done by then. If the call submits, there is
    no job in flight when it is made, the fence is not signaled or it is the first frame and the
    reset works, and if the submit succeeds no job is pending. -/
def SubmitEnv.Fair (env : SubmitEnv) (s : State) : Prop :=
  s.initialized = true → env.caches = true →
    (s.inFlight = true → env.doneByReset = true) ∧
    (env.recorded = true → s.inFlight = false ∧
      (s.signaled = true → s.frameCount = 0 ∧ env.resetFences = true) ∧
      (env.queueSubmit = true → s.hasPending = false))

/-- If the LUT is submitted, the reset of the new fence works. -/
def InitEnv.Fair (env : InitEnv) : Prop :=
  env.before = true → env.resetCommandPool = true → env.beginCommandBuffer = true →
    env.endCommandBuffer = true → env.resetFences = true

instance (env : SubmitEnv) (s : State) : Decidable (env.Fair s) :=
  inferInstanceAs (Decidable (_ → _ → _ ∧ _))

instance (env : InitEnv) : Decidable env.Fair := inferInstanceAs (Decidable (_ → _ → _ → _ → _))

def Fair (s : State) : Call → Prop
  | .init env => env.Fair
  | .convertSubmit env | .convert env _ => env.Fair s
  | .renderAndWait entries env _ => entries = true → env.Fair s
  | _ => True

section laws
variable {s t : State}

@[simp] theorem lawful_observe {o : Obs} : Lawful (s.observe o) ↔ o.ok = true ∧ Lawful s := by
  simp [Lawful, State.observe]

theorem Lawful.congr (h : t.log = s.log) : Lawful t ↔ Lawful s := by
  rw [Lawful, Lawful, h]

@[simp] theorem log_gpuFinish : (gpuFinish s).log = s.log := by
  unfold gpuFinish
  split
  · rfl
  · rfl

@[simp] theorem log_finishedBy {done : Bool} : (finishedBy s done).log = s.log := by
  cases done with
  | true => exact log_gpuFinish
  | false => rfl

@[simp] theorem log_resetFences {ok : Bool} : (resetFences s ok).log = s.log := by
  cases ok <;> rfl

@[simp] theorem log_waitForFences {ok : Bool} : (waitForFences s ok).1.log = s.log := by
  unfold waitForFences
  split
  · exact log_gpuFinish
  · rfl

@[simp] theorem lawful_finishedBy {done : Bool} : Lawful (finishedBy s done) ↔ Lawful s :=
  Lawful.congr log_finishedBy

theorem inFlight_finishedBy {done : Bool} :
    (finishedBy s done).inFlight = (s.inFlight && !done) := by
  cases done <;> cases h : s.inFlight <;> simp [finishedBy, gpuFinish, h]

theorem signaled_finishedBy {done : Bool} :
    (finishedBy s done).signaled = (s.signaled || (s.inFlight && done)) := by
  cases done <;> cases h : s.inFlight <;> simp [finishedBy, gpuFinish, h]

theorem hasPending_finishedBy {done : Bool} : (finishedBy s done).hasPending = s.hasPending := by
  cases done <;> cases h : s.inFlight <;> simp [finishedBy, gpuFinish, h]

/-- Recording and submitting keeps the protocol exactly if nothing is in flight, the fence is not
    signaled and nothing is pending, each where it gets that far. A job that finishes on the way
    leaves the fence signaled. -/
theorem recordAndSubmit_lawful {env : SubmitEnv} : Lawful (recordAndSubmit s env).1 ↔
    Lawful s ∧ (s.inFlight = true → env.doneByReset = true) ∧
      (env.recorded = true → s.inFlight = false ∧ s.signaled = false ∧
        (env.queueSubmit = true → s.hasPending = false)) := by
  have hrec : (!env.resetCommandPool || !env.beginCommandBuffer || !env.endCommandBuffer)
      = !env.recorded := by
    simp [SubmitEnv.recorded, Bool.not_and]
  have hreset : (Obs.resetCommandPool (finishedBy s env.doneByReset).inFlight).ok = true ↔
      (s.inFlight = true → env.doneByReset = true) := by
    rw [inFlight_finishedBy, Obs.ok]
    cases s.inFlight <;> cases env.doneByReset <;> simp
  -- the state at the submit
  generalize hu : finishedBy ((finishedBy s env.doneByReset).observe
    (.resetCommandPool (finishedBy s env.doneByReset).inFlight)) env.doneBySubmit = u
  have hpend : u.hasPending = s.hasPending := by
    rw [← hu, hasPending_finishedBy]
    exact hasPending_finishedBy
  have hsubmit : (Obs.queueSubmit u.signaled u.inFlight).ok = true ↔
      s.inFlight = false ∧ s.signaled = false := by
    rw [← hu, signaled_finishedBy, inFlight_finishedBy, Obs.ok]
    simp only [State.observe, signaled_finishedBy, inFlight_finishedBy]
    cases s.inFlight <;> cases s.signaled <;> cases env.doneByReset <;>
      cases env.doneBySubmit <;> simp
  have hlaw : Lawful u ↔ Lawful s ∧ (s.inFlight = true → env.doneByReset = true) := by
    rw [← hu, lawful_finishedBy, lawful_observe, hreset, lawful_finishedBy, and_comm]
  unfold recordAndSubmit
  simp only [hrec, hu]
  cases env.recorded with
  | false => simp [hreset, and_comm]
  | true =>
    cases env.queueSubmit with
    | false => simp [hsubmit, hlaw, and_comm, and_left_comm]
    | true =>
      have hlog : Lawful { u.observe (.queueSubmit u.signaled u.inFlight) with
          inFlight := true, hasPending := true } ↔
            Lawful (u.observe (.queueSubmit u.signaled u.inFlight)) := Lawful.congr rfl
      have hp : (Obs.pend u.hasPending).ok = true ↔ s.hasPending = false := by
        rw [hpend, Obs.ok, Bool.not_eq_true']
      simp only [Bool.not_true, Bool.false_eq_true, if_false, lawful_observe, hlog, hsubmit, hlaw,
        true_imp_iff]
      rw [show (u.observe (.queueSubmit u.signaled u.inFlight)).hasPending = u.hasPending from rfl,
        hp]
      constructor
      · rintro ⟨hnone, ⟨hidle, hunsig⟩, hs, hdone⟩
        exact ⟨hs, hdone, hidle, hunsig, hnone⟩
      · rintro ⟨hs, hdone, hidle, hunsig, hnone⟩
        exact ⟨hnone, ⟨hidle, hunsig⟩, hs, hdone⟩

/-! ### Each call -/

theorem firstFrame_fields {env : SubmitEnv} : (firstFrame s env).log = s.log ∧
    (firstFrame s env).inFlight = s.inFlight ∧ (firstFrame s env).hasPending = s.hasPending ∧
      ((firstFrame s env).signaled = false ↔
        (s.signaled = true → s.frameCount = 0 ∧ env.resetFences = true)) := by
  unfold firstFrame resetFences
  split
  · next hzero =>
    cases env.resetFences <;> simp [hzero]
  · next hzero => simp [hzero]

/-- A submitting call keeps the protocol exactly if it is fair. -/
theorem firstFrame_recordAndSubmit_lawful {env : SubmitEnv} (hs : Lawful s)
    (hinit : s.initialized = true) (hcaches : env.caches = true) :
    Lawful (recordAndSubmit (firstFrame s env) env).1 ↔ env.Fair s := by
  obtain ⟨hlog, hflight, hpend, hsig⟩ := @firstFrame_fields s env
  rw [recordAndSubmit_lawful, Lawful.congr hlog, hflight, hpend, hsig, SubmitEnv.Fair]
  constructor
  · exact fun h _ _ => h.2
  · exact fun h => ⟨hs, h hinit hcaches⟩

theorem convertSubmit_lawful {env : SubmitEnv} (hs : Lawful s) :
    Lawful (vfmcapVkConvertSubmit s env).1 ↔ env.Fair s := by
  unfold vfmcapVkConvertSubmit
  cases hinit : s.initialized with
  | false => exact iff_of_true hs fun h => absurd (hinit.symm.trans h) Bool.false_ne_true
  | true =>
    cases hcaches : env.caches with
    | false =>
      refine iff_of_true ?_ fun _ h => absurd (hcaches.symm.trans h) Bool.false_ne_true
      exact (Lawful.congr (@firstFrame_fields s env).1).mpr hs
    | true => exact firstFrame_recordAndSubmit_lawful hs hinit hcaches

theorem renderSubmit_lawful {env : SubmitEnv} (hs : Lawful s) :
    Lawful (vfmcapVkRenderSubmit s env).1 ↔ env.Fair s := by
  unfold vfmcapVkRenderSubmit
  cases hinit : s.initialized with
  | false => exact iff_of_true hs fun h => absurd (hinit.symm.trans h) Bool.false_ne_true
  | true =>
    cases hcaches : env.caches with
    | false => exact iff_of_true hs fun _ h => absurd (hcaches.symm.trans h) Bool.false_ne_true
    | true => exact firstFrame_recordAndSubmit_lawful hs hinit hcaches

/-- A wait observes nothing. -/
theorem log_convertWait {env : WaitEnv} : (vfmcapVkConvertWait s env).1.log = s.log := by
  unfold vfmcapVkConvertWait
  split
  · rfl
  split
  · rfl
  dsimp only
  split
  · simp [deviceWaitIdle]
  · simp [deviceWaitIdle]

theorem lawful_submitAndWait {submitted : State × Bool} {env : WaitEnv} :
    Lawful (submitAndWait submitted env).1 ↔ Lawful submitted.1 := by
  obtain ⟨u, ok⟩ := submitted
  cases ok with
  | false => exact Iff.rfl
  | true => exact Lawful.congr log_convertWait

/-- Of a new context only the submit of the LUT can go wrong, if its fence is not reset. -/
theorem init_lawful {env : InitEnv} (hs : Lawful s) :
    Lawful (vfmcapVkInit s env).1 ↔ env.Fair := by
  unfold vfmcapVkInit InitEnv.Fair
  cases env.before with
  | false =>
    have hcreated : Lawful (created s.log) := hs
    simpa using hcreated
  | true =>
    dsimp only
    generalize hu : resetFences (created s.log) env.resetFences = u
    have hlaw : Lawful u := by
      rw [← hu, Lawful.congr log_resetFences]
      exact hs
    have hflight : u.inFlight = false := by
      rw [← hu]
      cases env.resetFences <;> rfl
    have hsignal : u.signaled = !env.resetFences := by
      rw [← hu]
      cases env.resetFences <;> rfl
    have hreset : Lawful (u.observe (.resetCommandPool u.inFlight)) := by
      rw [lawful_observe, hflight]
      exact ⟨rfl, hlaw⟩
    generalize hv : u.observe (.resetCommandPool u.inFlight) = v at hreset
    have hsubmit : Lawful (v.observe (.queueSubmit v.signaled v.inFlight)) ↔
        env.resetFences = true := by
      have hvflight : v.inFlight = false := by
        rw [← hv]
        exact hflight
      have hvsignal : v.signaled = !env.resetFences := by
        rw [← hv]
        exact hsignal
      rw [lawful_observe, Obs.ok, hvsignal, hvflight]
      simp [hreset]
    cases env.resetCommandPool with
    | false => simpa using hreset
    | true =>
      cases env.beginCommandBuffer with
      | false => simpa using hreset
      | true =>
        cases env.endCommandBuffer with
        | false => simpa using hreset
        | true =>
          simp only [Bool.not_true, Bool.or_self, Bool.false_eq_true, if_false, true_imp_iff]
          rw [← hsubmit]
          split
          · exact Iff.rfl
          split
          · exact Lawful.congr log_waitForFences
          · exact Lawful.congr log_waitForFences

theorem step_lawful_iff {c : Call} (hs : Lawful s) (h : step s c = some t) :
    Lawful t ↔ Fair s c := by
  cases c with
  | init env =>
    cases h
    exact init_lawful hs
  | convertSubmit env =>
    cases h
    exact convertSubmit_lawful hs
  | convertWait env =>
    cases h
    exact iff_of_true ((Lawful.congr log_convertWait).mpr hs) trivial
  | convert env wait =>
    cases h
    exact lawful_submitAndWait.trans (convertSubmit_lawful hs)
  | renderAndWait entries env wait =>
    cases h
    unfold vfmcapVkRenderAndWait
    cases entries with
    | false => exact iff_of_true (by simpa using hs) Bool.false_ne_true.elim
    | true =>
      cases hinit : s.initialized with
      | false =>
        exact iff_of_true hs fun _ h => absurd (hinit.symm.trans h) Bool.false_ne_true
      | true =>
        refine lawful_submitAndWait.trans ((renderSubmit_lawful hs).trans ?_)
        exact ⟨fun hfair _ => hfair, fun hfair => hfair rfl⟩
  | render10bitAndWait ok idle =>
    cases h
    refine iff_of_true ?_ trivial
    unfold vfmcapVkRender10bitAndWait
    split
    · exact hs
    · exact (Lawful.congr log_finishedBy).mpr hs
  | reconfigPools idle ok =>
    cases h
    refine iff_of_true ?_ trivial
    unfold vfmcapVkReconfigPools
    split
    · exact hs
    dsimp only
    split
    · exact (Lawful.congr log_finishedBy).mpr hs
    · exact (Lawful.congr log_finishedBy).mpr hs
  | gpuFinishes =>
    cases h
    exact iff_of_true ((Lawful.congr log_gpuFinish).mpr hs) trivial

end laws

/-- For every sequence of calls, every answer they get and every time the GPU finishes a job: the
    protocol is kept throughout exactly if every call is fair in the state it is made in. -/
theorem lawful_iff_fair {calls : List Call} {s : State} (hrun : run step absent calls = some s) :
    (∀ pre t, pre <+: calls → run step absent pre = some t → Lawful t) ↔
      Along step Fair absent calls :=
  prefixes_iff_along (I := fun _ => True) (fun _ _ _ _ _ => trivial)
    (fun _ _ _ _ hs h => step_lawful_iff hs h) hrun trivial nofun

/-- Everything succeeds, and no job is done by itself. -/
def plainInit : InitEnv := ⟨true, true, true, true, true, true, true, true⟩

def plainSubmit : SubmitEnv := ⟨true, true, false, true, true, true, false, true⟩

def plainWait : WaitEnv := ⟨true, true, true⟩

/-- The wait times out. -/
def timedOut : WaitEnv := ⟨false, true, true⟩

def plainCalls : List Call :=
  [.init plainInit, .convert plainSubmit plainWait, .render10bitAndWait true true,
    .convertSubmit plainSubmit, .gpuFinishes, .convertWait plainWait, .reconfigPools true true,
    .renderAndWait true plainSubmit plainWait]

theorem lawful_plainCalls : ∃ s, run step absent plainCalls = some s ∧
    ∀ pre t, pre <+: plainCalls → run step absent pre = some t → Lawful t := by
  have h := lawful_iff_fair (show run step absent plainCalls = some _ from rfl)
  refine ⟨_, rfl, h.mpr ⟨show plainInit.Fair by decide, ?_⟩⟩
  rintro _ ⟨⟩
  refine ⟨show plainSubmit.Fair _ by decide, ?_⟩
  rintro _ ⟨⟩
  refine ⟨trivial, ?_⟩
  rintro _ ⟨⟩
  refine ⟨show plainSubmit.Fair _ by decide, ?_⟩
  rintro _ ⟨⟩
  refine ⟨trivial, ?_⟩
  rintro _ ⟨⟩
  refine ⟨trivial, ?_⟩
  rintro _ ⟨⟩
  refine ⟨trivial, ?_⟩
  rintro _ ⟨⟩
  exact ⟨fun _ => show plainSubmit.Fair _ by decide, fun _ _ => trivial⟩

/-- A submit after a wait that timed out, after a 10-bit render that came first, and after a submit
    that was not waited for. -/
theorem fence_protocol_broken :
    (¬ ∀ pre t, pre <+: [.init plainInit, .convert plainSubmit plainWait,
        .convert plainSubmit timedOut, .convert plainSubmit plainWait] →
      run step absent pre = some t → Lawful t) ∧
    (¬ ∀ pre t, pre <+: [.init plainInit, .render10bitAndWait true true,
        .renderAndWait true plainSubmit plainWait] → run step absent pre = some t → Lawful t) ∧
    (¬ ∀ pre t, pre <+: [.init plainInit, .convertSubmit plainSubmit,
        .convertSubmit plainSubmit] → run step absent pre = some t → Lawful t) := by
  refine ⟨fun h => ?_, fun h => ?_, fun h => ?_⟩
  · exact absurd (h _ _ (List.prefix_refl _) rfl) (by decide)
  · exact absurd (h _ _ (List.prefix_refl _) rfl) (by decide)
  · exact absurd (h _ _ (List.prefix_refl _) rfl) (by decide)

end Streambox.Vulkan.Fence
