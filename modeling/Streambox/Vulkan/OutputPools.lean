import Mathlib.Logic.Function.Basic
import Streambox.Lib.Run
import Streambox.Lib.SlotPool

/-! libvfmcap, vfmcap_vulkan.c: the output pools of the Vulkan converter.

    A render takes an entry from the pool of its format (one entry for a contiguous output, one per
    plane otherwise), has the GPU write into it and returns the numbers of its DMA-buf descriptors.
    The caller gives the entry back by those numbers. `vfmcap_vk_reconfig_pools` closes every
    descriptor and builds new pools, whatever is still out.

    What Vulkan and the kernel answer is an input: which calls fail, and which descriptor numbers
    the rest of the process has open when a DMA-buf is allocated. The kernel then gives the lowest
    number that is free. A descriptor of a pool stays open until the pool is destroyed. The state
    also records which outputs have not been released, and for which generation of the pools each
    was rendered: the code keeps neither. -/

namespace Streambox.Vulkan
open Streambox.Lib Streambox.Lib.SlotPool

/-- vfmcap_vk_fmt_t. -/
inductive Fmt
  | p010
  | nv12
  | nv21
  | nv12Afbc
  | a2b10g10r10Afbc
  deriving DecidableEq, Repr

/-- The output pools of VulkanCtx. -/
inductive PoolId
  | nv12Y
  | nv12Uv
  | p010Y
  | p010Uv
  | nv12Afbc
  | a2b10g10r10Afbc
  deriving DecidableEq, Repr

/-- OutputPool: its entries, known outside by their `dmabuf_fd`. -/
abbrev Pool := List (Entry Int)

abbrev Pools := PoolId → Pool

/-- VFMCAP_OUTPUT_POOL_CAPACITY. -/
def outputPoolCapacity : Nat := 8

/-- VFMCAP_OUTPUT_POOL_WAIT_MS. -/
def outputPoolWaitMs : Nat := 500

/-! ### Creating and destroying pools -/

/-- What one pool gets while it is created: whether calloc succeeds, and for each entry the
    descriptor numbers open elsewhere when its DMA-buf is allocated, or `none` if one of the calls
    for that entry fails. -/
structure PoolAnswers where
  calloc : Bool
  entry : Nat → Option (List Nat)

/-- The entries from `i` on, of which `n` are missing. `held` are the descriptors of the pools. -/
def createEntries (entry : Nat → Option (List Nat)) (held : List Int) : Nat → Nat → Option Pool
  | _, 0 => some []
  | i, n + 1 =>
    match entry i with
    | none => none
    | some others =>
      let fd : Int := lowestFree (others ++ held.map Int.toNat)
      (createEntries entry (fd :: held) (i + 1) n).map (⟨fd, false⟩ :: ·)

/-- What all the output_pool_create functions have in common: a pool with all its entries, or an
    error after which nothing is left of it. -/
def createPool (held : List Int) (a : PoolAnswers) (capacity : Nat) : Option Pool :=
  if a.calloc then createEntries a.entry held 0 capacity else none

/-- output_pool_create: a DMA-buf image per entry. -/
def outputPoolCreate := createPool

/-- output_pool_create_copyout: an internal image and a DMA-buf to copy it to per entry. -/
def outputPoolCreateCopyout := createPool

/-- output_pool_create_yuv420_contiguous: both planes of an entry in one DMA-buf. -/
def outputPoolCreateYuv420Contiguous := createPool []

/-- output_pool_create_afbc. -/
def outputPoolCreateAfbc := createPool []

/-- output_pool_create_afbc_nv12. -/
def outputPoolCreateAfbcNv12 := createPool []

/-- vfmcap_output_layout_t. -/
inductive OutputLayout
  | auto
  | singleDmabuf
  | twoDmabuf
  deriving DecidableEq, Repr

/-- The answers for the three ways of building a pair of pools. -/
structure YuvAnswers where
  contiguous : PoolAnswers
  separateY : PoolAnswers
  separateUv : PoolAnswers
  copyoutY : PoolAnswers
  copyoutUv : PoolAnswers

/-- A pool for each plane, the second one while the first is open. -/
def bothPlanes (create : List Int → PoolAnswers → Nat → Option Pool) (capacity : Nat)
    (y uv : PoolAnswers) : Option (Pool × Pool) :=
  (create [] y capacity).bind fun yPool =>
    (create (yPool.map Entry.key) uv capacity).map fun uvPool => (yPool, uvPool)

/-- The last strategy: internal images that are copied to DMA-bufs. -/
def copyoutPlanes (singleOnly : Bool) (capacity : Nat) (a : YuvAnswers) : Option (Pool × Pool) :=
  if singleOnly then none
  else bothPlanes outputPoolCreateCopyout capacity a.copyoutY a.copyoutUv

/-- The second strategy: a DMA-buf image for each plane. -/
def separatePlanes (copyoutOnly separateOnly singleOnly : Bool) (capacity : Nat) (a : YuvAnswers) :
    Option (Pool × Pool) :=
  if copyoutOnly then copyoutPlanes singleOnly capacity a
  else
    match bothPlanes outputPoolCreate capacity a.separateY a.separateUv with
    | some pools => some pools
    | none => if separateOnly then none else copyoutPlanes singleOnly capacity a

/-- output_pool_create_linear_yuv: the strategies in turn, the contiguous one first. It leaves the
    UV pool empty. -/
def outputPoolCreateLinearYuv (layout : OutputLayout) (copyoutOnly sepEnv : Bool) (capacity : Nat)
    (a : YuvAnswers) : Option (Pool × Pool) :=
  let separateOnly := layout = .twoDmabuf || sepEnv
  let singleOnly := layout = .singleDmabuf
  if !copyoutOnly && !separateOnly then
    match outputPoolCreateYuv420Contiguous a.contiguous capacity with
    | some pool => some (pool, [])
    | none =>
      if singleOnly then none
      else separatePlanes copyoutOnly separateOnly singleOnly capacity a
  else separatePlanes copyoutOnly separateOnly singleOnly capacity a

/-- What the environment and the callers fix when pools are built. `predecode` says whether the two
    intermediate images of the decode pass can be created. -/
structure Setup where
  fmt : Fmt
  layout : OutputLayout
  p010CopyoutEnv : Bool
  p010SeparateEnv : Bool
  nv12SeparateEnv : Bool
  yuv : YuvAnswers
  afbc : PoolAnswers
  predecode : Bool

/-- output_pool_create_nv12. -/
def outputPoolCreateNv12 (a : Setup) : Option (Pool × Pool) :=
  outputPoolCreateLinearYuv a.layout false a.nv12SeparateEnv outputPoolCapacity a.yuv

/-- output_pool_create_p010. -/
def outputPoolCreateP010 (a : Setup) : Option (Pool × Pool) :=
  outputPoolCreateLinearYuv a.layout a.p010CopyoutEnv a.p010SeparateEnv outputPoolCapacity a.yuv

/-- output_pool_destroy of every pool. -/
def noPools : Pools := fun _ => []

/-- Two fresh pools and nothing else. -/
def planePools (y uv : PoolId) (created : Option (Pool × Pool)) : Option Pools :=
  created.map fun r => Function.update (Function.update noPools y r.1) uv r.2

/-- One fresh pool and nothing else. -/
def afbcPools (p : PoolId) (created : Option Pool) : Option Pools :=
  created.map (Function.update noPools p)

/-- vfmcap_vk_reconfig_pools, with its result. It has no case for A2B10G10R10_AFBC. -/
def vfmcapVkReconfigPools (a : Setup) : Pools × Bool :=
  let created :=
    match a.fmt with
    | .nv12 | .nv21 => planePools .nv12Y .nv12Uv (outputPoolCreateNv12 a)
    | .nv12Afbc => afbcPools .nv12Afbc (outputPoolCreateAfbcNv12 a.afbc outputPoolCapacity)
    | .p010 => planePools .p010Y .p010Uv (outputPoolCreateP010 a)
    | .a2b10g10r10Afbc => some noPools
  match created with
  | none => (noPools, false)
  | some pools => (pools, a.predecode)

/-- The pools vfmcap_vk_init leaves, if it succeeds. -/
def vfmcapVkInit (a : Setup) : Option Pools :=
  match a.fmt with
  | .nv12 | .nv21 => planePools .nv12Y .nv12Uv (outputPoolCreateNv12 a)
  | .nv12Afbc => afbcPools .nv12Afbc (outputPoolCreateAfbcNv12 a.afbc outputPoolCapacity)
  | .a2b10g10r10Afbc => afbcPools .a2b10g10r10Afbc (outputPoolCreateAfbc a.afbc outputPoolCapacity)
  | .p010 => planePools .p010Y .p010Uv (outputPoolCreateP010 a)

/-! ### Taking and returning entries -/

/-- A pointer to an entry of the current pools. -/
structure Slot where
  pool : PoolId
  index : Nat
  deriving DecidableEq, Repr

/-- output_pool_acquire. -/
def outputPoolAcquire (s : Pools) (p : PoolId) : Pools × Option Slot :=
  match acquire (s p) with
  | none => (s, none)
  | some (i, pool) => (Function.update s p pool, some ⟨p, i⟩)

/-- output_pool_release; a null entry is ignored. -/
def outputPoolRelease (s : Pools) : Option Slot → Pools
  | none => s
  | some e => Function.update s e.pool (clear e.index (s e.pool))

/-- The entries of one output. -/
structure Taken where
  y : Slot
  uv : Option Slot
  deriving DecidableEq, Repr

/-- Acquire an entry of each plane, or one entry if there is no second pool. If one is missing the
    other goes back. -/
def acquireEntries (s : Pools) (yPool : PoolId) : Option PoolId → Pools × Option Taken
  | none =>
    let (s, yEntry) := outputPoolAcquire s yPool
    (s, yEntry.map (⟨·, none⟩))
  | some uvPool =>
    let (s, yEntry) := outputPoolAcquire s yPool
    let (s, uvEntry) := outputPoolAcquire s uvPool
    match yEntry, uvEntry with
    | some y, some uv => (s, some ⟨y, some uv⟩)
    | _, _ => (outputPoolRelease (outputPoolRelease s yEntry) uvEntry, none)

/-- Return the entries of an output that is not going to be. -/
def releaseTaken (s : Pools) (t : Taken) : Pools :=
  outputPoolRelease (outputPoolRelease s (some t.y)) t.uv

/-- The calls a render can fail at. -/
inductive VkCall
  | imageCacheGet
  | inputCacheGet
  | pipelineInit
  | resetCommandPool
  | resetCommandBuffer
  | resetFences
  | beginCommandBuffer
  | endCommandBuffer
  | queueSubmit
  | waitForFences
  | renderSubmit
  | convertWait
  deriving DecidableEq, Repr

/-- What a render does with its entries when a call fails: give them back, or (VK_CHECK) return at
    once. -/
inductive OnError
  | release
  | check
  deriving DecidableEq, Repr

/-- The calls a render makes while it has its entries, each with what follows its failure. -/
abbrev Script := List (VkCall × OnError)

/-- Make the calls in turn. The result says whether all of them succeeded. -/
def perform (ok : VkCall → Bool) (s : Pools) (t : Taken) : Script → Pools × Bool
  | [] => (s, true)
  | (c, e) :: rest =>
    if ok c then perform ok s t rest
    else
      match e with
      | .release => (releaseTaken s t, false)
      | .check => (s, false)

/-- The pools a linear format is rendered to. -/
def planesOf : Fmt → Option (PoolId × PoolId)
  | .nv12 | .nv21 => some (.nv12Y, .nv12Uv)
  | .p010 => some (.p010Y, .p010Uv)
  | _ => none

/-- The pool an AFBC format is rendered to. -/
def afbcPoolOf : Fmt → Option PoolId
  | .nv12Afbc => some .nv12Afbc
  | .a2b10g10r10Afbc => some .a2b10g10r10Afbc
  | _ => none

/-! ### The renders

    A render either returns an error before it takes anything, or it is the pools it takes its
    entries from and the calls it makes once it has them. -/

/-- A render about to take its entries. Without a UV pool one entry holds the whole output. -/
structure Plan where
  fmt : Fmt
  yPool : PoolId
  uvPool : Option PoolId
  script : Script
  deriving DecidableEq, Repr

/-- `uv_pool->count == 0`. -/
def isContiguous (s : Pools) (fmt : Fmt) : Bool :=
  match planesOf fmt with
  | none => false
  | some (_, uv) => (s uv).isEmpty

/-- Render to the two planes of a linear format. -/
def planesPlan (fmt : Fmt) (contiguous : Bool) (script : Script) : Option Plan :=
  (planesOf fmt).map fun (y, uv) => ⟨fmt, y, if contiguous then none else some uv, script⟩

/-- Render to the one entry of an AFBC format. -/
def afbcPlan (fmt : Fmt) (script : Script) : Option Plan :=
  (afbcPoolOf fmt).map fun p => ⟨fmt, p, none, script⟩

def vfmcapVkRenderAndWait (s : Pools) (fmt : Fmt) : Option Plan :=
  if isContiguous s fmt then
    planesPlan fmt true
      [(.imageCacheGet, .release), (.resetCommandPool, .check), (.beginCommandBuffer, .check),
        (.endCommandBuffer, .check), (.queueSubmit, .release), (.convertWait, .release)]
  else planesPlan fmt false [(.renderSubmit, .release), (.convertWait, .release)]

/-- Two renders record and submit in the same way. -/
def recordScript : Script :=
  [(.resetCommandPool, .check), (.beginCommandBuffer, .check), (.endCommandBuffer, .check),
    (.queueSubmit, .check), (.convertWait, .release)]

/-- It has no case for contiguous pools: there it finds no UV entry. -/
def vfmcapVkRenderAfbcInputAndWait (ok : VkCall → Bool) (fmt : Fmt)
    (headerOffset tableOffset : Nat) : Option Plan :=
  if headerOffset ≠ 0 ∧ tableOffset ≤ headerOffset then none
  else if ok .imageCacheGet then planesPlan fmt false recordScript
  else none

/-- It has no case for contiguous pools either. -/
def vfmcapVkRenderPredecodeAndWait (ok : VkCall → Bool) (fmt : Fmt) : Option Plan :=
  if ok .inputCacheGet then planesPlan fmt false recordScript else none

def vfmcapVkRender10bitAndWait (s : Pools) (ok : VkCall → Bool) (fmt : Fmt) : Option Plan :=
  if ok .inputCacheGet then
    planesPlan fmt (isContiguous s fmt)
      [(.pipelineInit, .release), (.resetCommandBuffer, .release), (.resetFences, .release),
        (.beginCommandBuffer, .check), (.endCommandBuffer, .check), (.queueSubmit, .release),
        (.waitForFences, .release)]
  else none

/-- The one render that gives its entry back whatever fails. -/
def vfmcapVkRenderAfbcNv12AndWait : Option Plan :=
  afbcPlan .nv12Afbc
    [(.imageCacheGet, .release), (.resetCommandPool, .release), (.beginCommandBuffer, .release),
      (.endCommandBuffer, .release), (.queueSubmit, .release)]

/-- The 10-bit AFBC renders differ in their pool only. -/
def tenBitAfbcScript : Script :=
  [(.inputCacheGet, .release), (.resetCommandPool, .check), (.beginCommandBuffer, .check),
    (.endCommandBuffer, .release), (.queueSubmit, .release)]

def vfmcapVkRender10bitAfbcNv12AndWait : Option Plan := afbcPlan .nv12Afbc tenBitAfbcScript

def vfmcapVkRender10bitAfbcA2b10g10r10AndWait : Option Plan :=
  afbcPlan .a2b10g10r10Afbc tenBitAfbcScript

/-- The render calls of the converter, with the arguments that matter here. -/
inductive Render
  | plain (fmt : Fmt)
  | afbcInput (fmt : Fmt) (headerOffset tableOffset : Nat)
  | predecode (fmt : Fmt)
  | tenBit (fmt : Fmt)
  | afbcNv12
  | tenBitAfbcNv12
  | tenBitAfbcA2b10g10r10
  deriving DecidableEq, Repr

/-- The render that is called; `none` is an early error return. -/
def planOf (s : Pools) (ok : VkCall → Bool) : Render → Option Plan
  | .plain fmt => vfmcapVkRenderAndWait s fmt
  | .afbcInput fmt headerOffset tableOffset =>
    vfmcapVkRenderAfbcInputAndWait ok fmt headerOffset tableOffset
  | .predecode fmt => vfmcapVkRenderPredecodeAndWait ok fmt
  | .tenBit fmt => vfmcapVkRender10bitAndWait s ok fmt
  | .afbcNv12 => vfmcapVkRenderAfbcNv12AndWait
  | .tenBitAfbcNv12 => vfmcapVkRender10bitAfbcNv12AndWait
  | .tenBitAfbcA2b10g10r10 => vfmcapVkRender10bitAfbcA2b10g10r10AndWait

/-- How often vfmcap_vk_render_and_wait polls for a release: every 500 us. -/
def waitSteps : Nat := outputPoolWaitMs * 1000 / 500

/-- Only vfmcap_vk_render_and_wait waits for an entry. -/
def retriesOf : Render → Nat
  | .plain _ => waitSteps
  | _ => 0

/-! ### Releases -/

/-- vfmcap_vk_release_output. -/
def vfmcapVkReleaseOutput (s : Pools) (yFd uvFd : Int) (fmt : Fmt) : Pools :=
  match planesOf fmt with
  | none => s
  | some (y, uv) =>
    let s := Function.update s y (releaseBy yFd (s y))
    Function.update s uv (releaseBy uvFd (s uv))

/-- vfmcap_vk_release_afbc_output. -/
def vfmcapVkReleaseAfbcOutput (s : Pools) (fd : Int) (fmt : Fmt) : Pools :=
  match afbcPoolOf fmt with
  | none => s
  | some p => Function.update s p (releaseBy fd (s p))

/-! ### Runs -/

/-- An output that has been rendered and not released: when, in which entries, and what the caller
    was given. -/
structure Output where
  gen : Nat
  fmt : Fmt
  taken : Taken
  yFd : Int
  uvFd : Int
  deriving DecidableEq, Repr

/-- vfmcap_release_frame: the release that fits the format. -/
def releaseFrame (s : Pools) (o : Output) : Pools :=
  match o.fmt with
  | .nv12Afbc | .a2b10g10r10Afbc => vfmcapVkReleaseAfbcOutput s o.yFd o.fmt
  | _ => vfmcapVkReleaseOutput s o.yFd o.uvFd o.fmt

/-- A render that found no entry and polls for one. -/
structure Waiting where
  plan : Plan
  ok : VkCall → Bool
  polls : Nat

/-- The converter, with the number of reconfigurations and the outputs that are out. -/
structure State where
  pools : Pools
  gen : Nat
  outs : List Output
  waiting : Option Waiting

/-- The `dmabuf_fd` of an entry. -/
def fdOf (s : Pools) (e : Slot) : Int := (keyAt (s e.pool) e.index).getD (-1)

/-- The rest of a render that has its entries. -/
def finish (s : State) (fmt : Fmt) (ok : VkCall → Bool) (pools : Pools) (t : Taken)
    (script : Script) : State :=
  match perform ok pools t script with
  | (pools, false) => { s with pools, waiting := none }
  | (pools, true) =>
    let uvFd := match t.uv with
      | none => -1
      | some e => fdOf pools e
    { s with pools, waiting := none, outs := s.outs ++ [⟨s.gen, fmt, t, fdOf pools t.y, uvFd⟩] }

/-- One attempt of a render to get its entries. Without them it waits for the next poll, or is over
    if there is none left. -/
def attempt (s : State) (plan : Plan) (ok : VkCall → Bool) (polls : Nat) : State :=
  match acquireEntries s.pools plan.yPool plan.uvPool with
  | (pools, some t) => finish s plan.fmt ok pools t plan.script
  | (pools, none) =>
    { s with pools, waiting := if polls = 0 then none else some ⟨plan, ok, polls⟩ }

/-- What can happen. `poll` is the next round of a waiting render; releases come at any time, `pos`
    says of which output. -/
inductive Event
  | render (r : Render) (ok : VkCall → Bool)
  | poll
  | release (pos : Nat)
  | reconfig (a : Setup)

/-- One event. The caller makes one render or reconfigure call at a time. -/
def step (s : State) : Event → Option State
  | .render r ok =>
    match s.waiting with
    | some _ => none
    | none =>
      match planOf s.pools ok r with
      | none => some s
      | some plan => some (attempt s plan ok (retriesOf r))
  | .poll =>
    match s.waiting with
    | none => none
    | some w => some (attempt s w.plan w.ok (w.polls - 1))
  | .release pos => (s.outs[pos]?).map fun o =>
      { s with pools := releaseFrame s.pools o, outs := s.outs.eraseIdx pos }
  | .reconfig a =>
    match s.waiting with
    | some _ => none
    | none => some { s with pools := (vfmcapVkReconfigPools a).1, gen := s.gen + 1 }

/-- After vfmcap_vk_init. -/
def opened (a : Setup) : Option State := (vfmcapVkInit a).map fun pools => ⟨pools, 0, [], none⟩

end Streambox.Vulkan
