import Streambox.Lib.Run
import Streambox.Vulkan.ImageCache

/-! libvfmcap, vfmcap_vulkan.c: making and destroying what the converter keeps.

    The output pools with the descriptors, objects and shapes of their entries, the caches, and the
    intermediate images of the pre-decode pass. A pool entry is calloc-ed, so a field that its
    constructor does not set is 0, while "no descriptor" is -1.

    The longer functions are given as the calls they make, in order: which calls these are depends on
    the arguments and on what the kernel and Vulkan answer, and on nothing else. -/

namespace Streambox.Vulkan.PoolSetup
open Streambox.Lib DmabufCache ImageCache

/-! ### Entries -/

/-- OutputPoolEntry: its descriptors, the objects that are destroyed with it, and whether it is
    handed out. -/
structure PoolEntry where
  dmabufFd : Int
  dmabufFd2 : Int
  vulkanFd : Int
  objects : List Nat
  inUse : Bool
  deriving DecidableEq, Repr

/-- OutputPool; its `count` is the number of entries. -/
structure OutputPool where
  entries : List PoolEntry
  width : Nat
  height : Nat
  format : VkFormat
  deriving DecidableEq, Repr

/-- A pool after memset. -/
def OutputPool.zero : OutputPool := ⟨[], 0, 0, .undefined⟩

/-- Answers for one entry: whether its internal image can be made, the DMA-buf from the heap, its
    duplicate, and how the import of the duplicate ends. -/
structure EntryEnv where
  internal : Bool
  heap : Option Nat
  dup : Option Nat
  importEnd : ImportEnd
  deriving DecidableEq, Repr

/-- What a constructor of entries does, and the entry if it succeeds. `obj` is the number of the
    next object. -/
abbrev Maker := Nat → EntryEnv → List Op × Option PoolEntry

/-- Allocate the DMA-buf and duplicate its descriptor; if there is no duplicate it is closed. -/
def openPair (env : EntryEnv) : List Op × Option (Int × Int) :=
  match env.heap with
  | none => ([], none)
  | some dmabufFd =>
    match env.dup with
    | none => ([.opened dmabufFd, .closed dmabufFd], none)
    | some fdForVulkan => ([.opened dmabufFd, .opened fdForVulkan], some (dmabufFd, fdForVulkan))

/-- create_dmabuf_image: what is done, and the two descriptors. -/
def createDmabufImage (obj : Nat) (env : EntryEnv) : List Op × Option (Int × Int) :=
  if env.importEnd = .notCreated then ([], none)
  else
    match openPair env with
    | (ops, none) => (.created obj :: ops ++ [.destroyed obj], none)
    | (ops, some (dmabufFd, fdForVulkan)) =>
      match env.importEnd with
      | .done => (.created obj :: ops ++ [.imported fdForVulkan obj], some (dmabufFd, fdForVulkan))
      | .notBound => (.created obj :: ops ++
          [.imported fdForVulkan obj, .destroyed obj, .closed dmabufFd, .closed fdForVulkan], none)
      | _ => (.created obj :: ops ++ [.closed dmabufFd, .closed fdForVulkan, .destroyed obj], none)

/-- An entry of output_pool_create. `dmabuf_fd2` is not set. -/
def separateEntry : Maker := fun obj env =>
  match createDmabufImage obj env with
  | (ops, none) => (ops, none)
  | (ops, some (dmabufFd, vulkanFd)) => (ops, some ⟨dmabufFd, 0, vulkanFd, [obj], false⟩)

/-- create_internal_image. -/
def createInternalImage (obj : Nat) (ok : Bool) : List Op :=
  if ok then [.created obj] else []

/-- An entry of output_pool_create_internal. Neither `dmabuf_fd2` nor `vulkan_fd` is set. -/
def internalEntry : Maker := fun obj env =>
  (createInternalImage obj env.internal,
    if env.internal then some ⟨-1, 0, 0, [obj], false⟩ else none)

/-- An entry of output_pool_create_copyout: an internal image (`obj`) and a buffer (`obj + 1`). An
    entry that fails is not counted, so that nothing it got so far is destroyed. -/
def copyoutEntry : Maker := fun obj env =>
  if env.internal then
    let image := createInternalImage obj true
    match openPair env with
    | (ops, none) => (image ++ ops, none)
    | (ops, some (dmabufFd, fdForVulkan)) =>
      match env.importEnd with
      | .notCreated => (image ++ ops ++ [.closed fdForVulkan, .closed dmabufFd], none)
      | .done => (image ++ ops ++ [.created (obj + 1), .imported fdForVulkan (obj + 1)],
          some ⟨dmabufFd, 0, fdForVulkan, [obj, obj + 1], false⟩)
      | .notBound => (image ++ ops ++ [.created (obj + 1), .imported fdForVulkan (obj + 1),
          .closed fdForVulkan, .closed dmabufFd], none)
      | _ => (image ++ ops ++ [.created (obj + 1), .closed fdForVulkan, .closed dmabufFd,
          .destroyed (obj + 1)], none)
  else (createInternalImage obj false, none)

/-- An entry of output_pool_create_yuv420_contiguous. The images of both planes share the memory and
    go by one number. -/
def contiguousEntry : Maker := fun obj env =>
  if env.importEnd = .notCreated then ([], none)
  else
    match openPair env with
    | (ops, none) => (.created obj :: ops ++ [.destroyed obj], none)
    | (ops, some (dmabufFd, fdForVulkan)) =>
      match env.importEnd with
      | .done => (.created obj :: ops ++ [.imported fdForVulkan obj],
          some ⟨dmabufFd, -1, -1, [obj], false⟩)
      | .notBound => (.created obj :: ops ++
          [.imported fdForVulkan obj, .destroyed obj, .closed dmabufFd], none)
      | .notAllocated => (.created obj :: ops ++ [.closed dmabufFd, .destroyed obj], none)
      | _ => (.created obj :: ops ++ [.closed dmabufFd, .closed fdForVulkan, .destroyed obj], none)

/-- An entry of output_pool_create_afbc and output_pool_create_afbc_nv12. The result of the binding
    is not looked at; `notBound` is a view that could not be made. -/
def afbcEntry : Maker := fun obj env =>
  if env.importEnd = .notCreated then ([], none)
  else
    match openPair env with
    | (ops, none) => (.created obj :: ops, none)
    | (ops, some (dmabufFd, fdForVulkan)) =>
      match env.importEnd with
      | .done => (.created obj :: ops ++ [.imported fdForVulkan obj],
          some ⟨dmabufFd, -1, fdForVulkan, [obj], false⟩)
      | .notBound => (.created obj :: ops ++
          [.imported fdForVulkan obj, .closed fdForVulkan, .closed dmabufFd], none)
      | _ => (.created obj :: ops ++ [.closed fdForVulkan, .closed dmabufFd], none)

/-- What output_pool_destroy does with one entry. -/
def PoolEntry.destroyOps (e : PoolEntry) : List Op :=
  e.objects.map .destroyed ++
    ([e.dmabufFd, e.dmabufFd2, e.vulkanFd].filter (· ≥ 0)).map .closed

/-! ### Pools -/

/-- The constructors of pools. -/
inductive PoolKind
  | separate
  | internal
  | copyout
  | contiguous
  | afbc
  | afbcNv12
  deriving DecidableEq, Repr

def PoolKind.maker : PoolKind → Maker
  | .separate => separateEntry
  | .internal => internalEntry
  | .copyout => copyoutEntry
  | .contiguous => contiguousEntry
  | .afbc => afbcEntry
  | .afbcNv12 => afbcEntry

/-- The formats output_pool_create_copyout knows the size of. -/
def copyoutBpp : VkFormat → Option Nat
  | .r16Unorm => some 2
  | .r16g16Unorm => some 4
  | .r8Unorm => some 1
  | .r8g8Unorm => some 2
  | _ => none

/-- Answers for one pool. -/
structure PoolAnswers where
  calloc : Bool
  entry : Nat → EntryEnv

def Device.log (d : Device) (ops : List Op) : Device := { d with ops := d.ops ++ ops }

/-- Numbers of two objects are used up by each entry. -/
def makeEntry (make : Maker) (d : Device) (env : EntryEnv) : Device × Option PoolEntry :=
  let r := make d.objects env
  (⟨d.objects + 2, d.ops ++ r.1⟩, r.2)

/-- One entry after the other, until one fails. -/
def makeEntries (make : Maker) : Device → List EntryEnv → Device × List PoolEntry × Bool
  | d, [] => (d, [], true)
  | d, env :: rest =>
    match makeEntry make d env with
    | (d', none) => (d', [], false)
    | (d', some e) =>
      let r := makeEntries make d' rest
      (r.1, e :: r.2.1, r.2.2)

/-- What the constructors have in common: all the entries, or an error after which those that were
    made are destroyed. -/
def createPool (kind : PoolKind) (width height : Nat) (format : VkFormat) (capacity : Nat)
    (a : PoolAnswers) (d : Device) : Device × OutputPool × Bool :=
  if a.calloc then
    if kind = .copyout ∧ copyoutBpp format = none then (d, ⟨[], width, height, format⟩, false)
    else
      match makeEntries kind.maker d ((List.range capacity).map a.entry) with
      | (d, es, true) => (d, ⟨es, width, height, format⟩, true)
      | (d, es, false) =>
        (Device.log d (es.flatMap PoolEntry.destroyOps), ⟨[], width, height, format⟩, false)
  else (d, OutputPool.zero, false)

/-- output_pool_destroy. The shape of the pool stays. -/
def outputPoolDestroy (pool : OutputPool) (d : Device) : Device × OutputPool :=
  (Device.log d (pool.entries.flatMap PoolEntry.destroyOps), { pool with entries := [] })

/-! ### The context -/

/-- The pools of VulkanCtx. Nothing creates the last two. -/
inductive PoolField
  | nv12Y
  | nv12Uv
  | p010Y
  | p010Uv
  | nv12Afbc
  | a2b10g10r10Afbc
  | intermediateY
  | intermediateUv
  deriving DecidableEq, Repr

/-- In the order they are destroyed. -/
def PoolField.all : List PoolField :=
  [.nv12Y, .nv12Uv, .p010Y, .p010Uv, .nv12Afbc, .a2b10g10r10Afbc, .intermediateY, .intermediateUv]

/-- An internal image. -/
structure Plane where
  width : Nat
  height : Nat
  format : VkFormat
  deriving DecidableEq, Repr

/-- VulkanCtx, as far as it is made and destroyed here. -/
structure Ctx where
  initialized : Bool
  device : Device
  imageCache : Cache ImageKey
  inputCache : Cache Nat
  cachedOutput : CacheEntry Nat
  frameCount : Nat
  pools : PoolField → OutputPool
  predecodeY : Option Plane
  predecodeUv : Option Plane
  width : Nat
  height : Nat

/-- A context with nothing in it, as vfmcap_vk_init has it before it makes the pools. -/
def Ctx.fresh (width height : Nat) : Ctx where
  initialized := false
  device := ⟨0, []⟩
  imageCache := ⟨fun _ => .unused ⟨0, 0, .undefined, 0, 0⟩, 0⟩
  inputCache := ⟨fun _ => .unused 0, 0⟩
  cachedOutput := .unused 0
  frameCount := 0
  pools := fun _ => OutputPool.zero
  predecodeY := none
  predecodeUv := none
  width := width
  height := height

/-- The calls the module is made of, with their answers. -/
inductive Prim
  | imageCacheGet (fd : Int) (k : ImageKey) (env : LookupEnv)
  | inputCacheGet (fd : Int) (size : Nat) (env : LookupEnv)
  | outputCacheGet (fd : Int) (size : Nat) (env : LookupEnv)
  | convertWait (pendingInFd : Int) (waitForFences : Bool)
  | emptyCaches
  | dropCachedOutput
  | zeroPool (p : PoolField)
  | createPool (p : PoolField) (kind : PoolKind) (width height : Nat) (format : VkFormat)
      (capacity : Nat) (a : PoolAnswers)
  | destroyPool (p : PoolField)
  | dropPredecode
  | createPredecodeY (width height : Nat) (ok : Bool)
  | createPredecodeUv (width height : Nat) (ok : Bool)
  | resize (width height : Nat)
  | setInitialized
  | forget

/-- Destroy the cached output if it is valid. -/
def dropOutput (e : CacheEntry Nat) (d : Device) : CacheEntry Nat × Device :=
  if e.valid then
    ({ e with valid := false, fd := -1, fdDup := -1 }, Device.log d (e.destroyOps false))
  else (e, d)

/-- The cached output is the one that is looked for. -/
def outputHits (e : CacheEntry Nat) (fd : Int) (size inode : Nat) : Bool :=
  e.valid && e.fd = fd && e.key = size && !e.stale inode

/-- output_cache_get. -/
def outputCacheGet (e : CacheEntry Nat) (d : Device) (fd : Int) (size : Nat) (env : LookupEnv) :
    CacheEntry Nat × Device :=
  if outputHits e fd size env.inode then (e, d)
  else
    let (e, d) := dropOutput e d
    match env.dup with
    | none => (e, d)
    | some fdDup =>
      let d' : Device :=
        ⟨d.objects + 1, d.ops ++ .opened fdDup :: importDmabuf fdDup d.objects env.importEnd⟩
      if env.importEnd = .done then (⟨fd, size, fdDup, env.inode, d.objects, true, e.lastUsed⟩, d')
      else (e, d')

/-- The entry of the input that vfmcap_vk_convert_wait destroys. -/
def pendingEntry (c : Cache Nat) (pendingInFd : Int) : Option (Fin dmabufCacheSize) :=
  (List.finRange dmabufCacheSize).find? fun i =>
    pendingInFd ≥ 0 && i.val < c.count && (c.slots i).valid && (c.slots i).fd = pendingInFd

/-- Destroy the entries of a cache and set its count back. -/
def emptyCache {κ : Type} (closesDup : Bool) (c : Cache κ) (d : Device) : Cached κ :=
  { destroyEntries closesDup ⟨c, d⟩ with count := 0 }

/-- One call. A pool is created, or cleared, only while it is empty: nothing else is ever asked.
    `forget` is `free` or `memset` of the whole context: what its pools and caches hold stays open. -/
def step (s : Ctx) : Prim → Option Ctx
  | .imageCacheGet fd k env =>
    (cacheGet true s.frameCount ⟨s.imageCache, s.device⟩ fd k env).map fun r =>
      { s with imageCache := r.1.toCache, device := r.1.toDevice }
  | .inputCacheGet fd size env =>
    (cacheGet false s.frameCount ⟨s.inputCache, s.device⟩ fd size env).map fun r =>
      { s with inputCache := r.1.toCache, device := r.1.toDevice }
  | .outputCacheGet fd size env =>
    let r := outputCacheGet s.cachedOutput s.device fd size env
    some { s with cachedOutput := r.1, device := r.2 }
  | .convertWait pendingInFd waitForFences =>
    let c : Cached Nat :=
      match pendingEntry s.inputCache pendingInFd with
      | none => ⟨s.inputCache, s.device⟩
      | some i => entryDestroy false ⟨s.inputCache, s.device⟩ i
    some { s with
      inputCache := c.toCache, device := c.toDevice
      frameCount := if waitForFences then (s.frameCount + 1) % 2 ^ 64 else s.frameCount }
  | .emptyCaches =>
    let inputs := emptyCache false s.inputCache s.device
    let images := emptyCache true s.imageCache inputs.toDevice
    some { s with
      inputCache := inputs.toCache, imageCache := images.toCache, device := images.toDevice }
  | .dropCachedOutput =>
    let r := dropOutput s.cachedOutput s.device
    some { s with cachedOutput := r.1, device := r.2 }
  | .zeroPool p =>
    if (s.pools p).entries = [] then
      some { s with pools := Function.update s.pools p OutputPool.zero }
    else none
  | .createPool p kind width height format capacity a =>
    if (s.pools p).entries = [] then
      let r := createPool kind width height format capacity a s.device
      some { s with pools := Function.update s.pools p r.2.1, device := r.1 }
    else none
  | .destroyPool p =>
    let r := outputPoolDestroy (s.pools p) s.device
    some { s with pools := Function.update s.pools p r.2, device := r.1 }
  | .dropPredecode => some { s with predecodeY := none, predecodeUv := none }
  | .createPredecodeY width height ok =>
    some { s with predecodeY := if ok then some ⟨width, height, .r16Unorm⟩ else none }
  | .createPredecodeUv width height ok =>
    some { s with predecodeUv := if ok then some ⟨width, height, .r16g16Unorm⟩ else none }
  | .resize width height => some { s with width, height, frameCount := 0 }
  | .setInitialized => some { s with initialized := true, frameCount := 0 }
  | .forget => some { Ctx.fresh 0 0 with device := s.device }

/-! ### The functions that make several calls -/

/-- The entry can be made. -/
def PoolKind.makes (kind : PoolKind) (env : EntryEnv) : Bool := (kind.maker 0 env).2.isSome

/-- Whether an entry can be made does not depend on the numbers of the objects. -/
theorem maker_isSome (kind : PoolKind) (obj : Nat) (env : EntryEnv) :
    (kind.maker obj env).2.isSome = kind.makes env := by
  obtain ⟨internal, heap, dup, importEnd⟩ := env
  cases kind <;> cases internal <;> cases heap <;> cases dup <;> cases importEnd <;> rfl

theorem makeEntry_isSome (kind : PoolKind) {d d' : Device} {env : EntryEnv} {o : Option PoolEntry}
    (h : makeEntry kind.maker d env = (d', o)) : o.isSome = kind.makes env := by
  rw [← maker_isSome kind d.objects env]
  exact (congrArg (fun r => r.2.isSome) h).symm

/-- The pool can be made. -/
def PoolAnswers.suffices (a : PoolAnswers) (kind : PoolKind) (format : VkFormat) (capacity : Nat) :
    Bool :=
  a.calloc && !(kind == .copyout && copyoutBpp format == none) &&
    ((List.range capacity).map a.entry).all kind.makes

/-- Answers for the ways of building a pair of pools. -/
structure YuvAnswers where
  contiguous : PoolAnswers
  separateY : PoolAnswers
  separateUv : PoolAnswers
  copyoutY : PoolAnswers
  copyoutUv : PoolAnswers

/-- Calls in order, and whether the function succeeds. -/
abbrev Script := List Prim × Bool

/-- Go on only after success. -/
def Script.andThen (a b : Script) : Script := if a.2 then (a.1 ++ b.1, b.2) else a

/-- Try something else after a failure. -/
def Script.orElse (a : Script) (cleanup : List Prim) (b : Script) : Script :=
  if a.2 then a else (a.1 ++ cleanup ++ b.1, b.2)

/-- Where the planes of an output go, and their sizes. -/
structure Planes where
  yPool : PoolField
  uvPool : PoolField
  width : Nat
  height : Nat
  yFormat : VkFormat
  uvFormat : VkFormat

/-- One pool. -/
def createOne (p : PoolField) (kind : PoolKind) (width height : Nat) (format : VkFormat)
    (capacity : Nat) (a : PoolAnswers) : Script :=
  ([.createPool p kind width height format capacity a], a.suffices kind format capacity)

/-- A pool for each plane. -/
def createBoth (kind : PoolKind) (t : Planes) (capacity : Nat) (y uv : PoolAnswers) : Script :=
  Script.andThen (createOne t.yPool kind t.width t.height t.yFormat capacity y)
    (createOne t.uvPool kind (t.width / 2) (t.height / 2) t.uvFormat capacity uv)

/-- output_pool_create_linear_yuv. -/
def outputPoolCreateLinearYuv (layout : OutputLayout) (copyoutOnly sepEnv : Bool) (t : Planes)
    (capacity : Nat) (a : YuvAnswers) : Script :=
  let separateOnly := layout = .twoDmabuf || sepEnv
  let singleOnly := layout = .singleDmabuf
  let destroyBoth := [Prim.destroyPool t.yPool, .destroyPool t.uvPool]
  let copyout : Script :=
    if singleOnly then ([], false)
    else (createBoth .copyout t capacity a.copyoutY a.copyoutUv).orElse destroyBoth ([], false)
  let separate : Script :=
    if copyoutOnly then copyout
    else (createBoth .separate t capacity a.separateY a.separateUv).orElse destroyBoth
      (if separateOnly then ([], false) else copyout)
  let contiguous : Script :=
    if !copyoutOnly && !separateOnly then
      (createOne t.yPool .contiguous t.width t.height t.yFormat capacity a.contiguous).orElse
        [.destroyPool t.yPool] (if singleOnly then ([], false) else separate)
    else separate
  Script.andThen ([.zeroPool t.uvPool], true) contiguous

/-- The arguments of vfmcap_vk_reconfig_pools and vfmcap_vk_init, what the environment variables and
    the layout say, and the answers. -/
structure SetupArgs where
  srcWidth : Nat
  srcHeight : Nat
  dstWidth : Nat
  dstHeight : Nat
  fmt : Fmt
  layout : OutputLayout
  p010CopyoutEnv : Bool
  p010SeparateEnv : Bool
  nv12SeparateEnv : Bool
  yuv : YuvAnswers
  afbc : PoolAnswers
  predecodeY : Bool
  predecodeUv : Bool

/-- output_pool_create_nv12. -/
def outputPoolCreateNv12 (a : SetupArgs) : Script :=
  outputPoolCreateLinearYuv a.layout false a.nv12SeparateEnv
    ⟨.nv12Y, .nv12Uv, a.dstWidth, a.dstHeight, .r8Unorm, .r8g8Unorm⟩ outputPoolCapacity a.yuv

/-- output_pool_create_p010. -/
def outputPoolCreateP010 (a : SetupArgs) : Script :=
  outputPoolCreateLinearYuv a.layout a.p010CopyoutEnv a.p010SeparateEnv
    ⟨.p010Y, .p010Uv, a.dstWidth, a.dstHeight, .r16Unorm, .r16g16Unorm⟩ outputPoolCapacity a.yuv

/-- output_pool_create_afbc_nv12. -/
def outputPoolCreateAfbcNv12 (a : SetupArgs) : Script :=
  createOne .nv12Afbc .afbcNv12 a.dstWidth a.dstHeight .g8B8r82Plane420Unorm outputPoolCapacity a.afbc

/-- output_pool_create_afbc for A2B10G10R10. -/
def outputPoolCreateAfbc (a : SetupArgs) : Script :=
  createOne .a2b10g10r10Afbc .afbc a.dstWidth a.dstHeight .a2b10g10r10UnormPack32 outputPoolCapacity
    a.afbc

/-- The intermediate images of the pre-decode pass. -/
def createPredecode (a : SetupArgs) : Script :=
  Script.andThen ([.createPredecodeY a.srcWidth a.srcHeight a.predecodeY], a.predecodeY)
    ([.createPredecodeUv (a.srcWidth / 2) (a.srcHeight / 2) a.predecodeUv], a.predecodeUv)

/-- The dimensions vfmcap_vk_init accepts. -/
def acceptsDimensions (a : SetupArgs) : Bool :=
  !(a.dstWidth == 0 || a.dstHeight == 0 || decide (a.dstWidth > 16384) ||
      decide (a.dstHeight > 16384)) &&
    !(a.dstWidth % 2 != 0 || a.dstHeight % 2 != 0) &&
    !(a.srcWidth % 2 != 0 || a.srcHeight % 2 != 0)

/-- The pools vfmcap_vk_init makes. -/
def initPools (a : SetupArgs) : Script :=
  match a.fmt with
  | .nv12 => outputPoolCreateNv12 a
  | .nv21 => outputPoolCreateNv12 a
  | .nv12Afbc => outputPoolCreateAfbcNv12 a
  | .a2b10g10r10Afbc => outputPoolCreateAfbc a
  | .p010 => outputPoolCreateP010 a

/-- vfmcap_vk_init on a new context, which has the target size from the start. `vulkan` stands for
    the instance, the device and the pipelines, `lut` for the tone-mapping table. From the pools on a
    failure calls vfmcap_vk_cleanup, and what is not initialised yet is only freed there. -/
def vfmcapVkInit (a : SetupArgs) (vulkan lut : Bool) : Script :=
  let tables := Script.andThen ([], lut) (createPredecode a)
  Script.andThen ([], acceptsDimensions a && vulkan)
    (((initPools a).andThen (tables.andThen ([.setInitialized], true))).orElse [.forget] ([], false))

/-- The pools vfmcap_vk_reconfig_pools makes. It has no case for A2B10G10R10_AFBC. -/
def reconfigPools (a : SetupArgs) : Script :=
  match a.fmt with
  | .nv12 => outputPoolCreateNv12 a
  | .nv21 => outputPoolCreateNv12 a
  | .nv12Afbc => outputPoolCreateAfbcNv12 a
  | .p010 => outputPoolCreateP010 a
  | .a2b10g10r10Afbc => ([], true)

/-- What vfmcap_vk_reconfig_pools destroys first. -/
def emptying : List Prim :=
  [.emptyCaches, .dropCachedOutput] ++ PoolField.all.map .destroyPool ++ [.dropPredecode]

/-- vfmcap_vk_reconfig_pools on an initialised context. -/
def vfmcapVkReconfigPools (a : SetupArgs) : Script :=
  Script.andThen (emptying, true)
    ((reconfigPools a).andThen
      ((createPredecode a).andThen ([.resize a.dstWidth a.dstHeight], true)))

/-- vfmcap_vk_cleanup. The last two pools are left out, and what is not initialised is freed as it
    is. -/
def vfmcapVkCleanup (initialized : Bool) : List Prim :=
  if initialized then
    [.emptyCaches] ++ (PoolField.all.take 6).map .destroyPool ++
      [.dropCachedOutput, .dropPredecode, .forget]
  else [.forget]

/-- Everything works, and the kernel gives out the numbers from `n` on. -/
def numbered (n : Nat) : PoolAnswers :=
  ⟨true, fun i => ⟨true, some (n + 2 * i), some (n + 2 * i + 1), .done⟩⟩

/-- 1080p to NV12, everything works. -/
def nv12Setup (layout : OutputLayout) : SetupArgs where
  srcWidth := 1920
  srcHeight := 1080
  dstWidth := 1920
  dstHeight := 1080
  fmt := .nv12
  layout := layout
  p010CopyoutEnv := false
  p010SeparateEnv := false
  nv12SeparateEnv := false
  yuv := ⟨numbered 10, numbered 10, numbered 30, numbered 10, numbered 30⟩
  afbc := numbered 10
  predecodeY := true
  predecodeUv := true

end Streambox.Vulkan.PoolSetup
