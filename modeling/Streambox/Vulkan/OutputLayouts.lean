import Streambox.Element.PlaneLayout
import Streambox.Vulkan.PoolSetup

/-! libvfmcap: is the configured output layout what the pools have?

    A frame leaves as one DMA-buf with both planes or as two with one plane each. Which of them is
    configured (`resolve_output_layout`), and `output_pool_create_linear_yuv` tries up to three ways
    to get there. Two environment variables take ways out of the list.

        contiguous ─▶ separate planes ─▶ copy-out
        SINGLE: only the first     TWO: not the first     `.._COPYOUT`: only the last
        `.._SEPARATE`: only the second, whatever is configured

    A way that fails leaves an empty pool, and consumers import what the last way has left. -/

namespace Streambox.Vulkan.OutputLayouts
open Streambox.Lib
open Streambox.Element.PlaneLayout (MemoryRequirements)

/-! ### Configuration -/

/-- The environment variables. -/
structure Environment where
  outputLayout : Option String
  p010Copyout : Option String
  p010Separate : Option String
  nv12Separate : Option String
  deriving DecidableEq, Repr

/-- `env_enabled`, and the same test in `output_pool_create_linear_yuv`: the value begins with 1. -/
def envEnabled (value : Option String) : Bool := (value.getD "").toList.head? = some '1'

def parseOutputLayoutEnv (value : Option String) : OutputLayout :=
  let v := value.getD ""
  if v ∈ ["single", "one", "contiguous", "contig", "1"] then .singleDmabuf
  else if v ∈ ["two", "separate", "split", "2"] then .twoDmabuf
  else .auto

/-- `resolve_output_layout`: what was asked for comes before the environment. -/
def resolveOutputLayout (fmt : Fmt) (requested : OutputLayout) (env : Environment) : OutputLayout :=
  if requested ≠ .auto then requested
  else if parseOutputLayoutEnv env.outputLayout ≠ .auto then parseOutputLayoutEnv env.outputLayout
  else if fmt = .p010 ∧ envEnabled env.p010Separate then .twoDmabuf
  else if (fmt = .nv12 ∨ fmt = .nv21) ∧ envEnabled env.nv12Separate then .twoDmabuf
  else .auto

/-! ### Entries -/

inductive PlaneName where
  | y
  | uv
  deriving DecidableEq, Repr

/-- A plane in a DMA-buf: where it begins and how many bytes it may take. -/
structure Bound where
  plane : PlaneName
  offset : UInt64
  bytes : UInt64
  deriving DecidableEq, Repr

/-- An entry as consumers see it: the DMA-buf it exports, the size that was asked for, and the
    planes that are in it. -/
structure Entry where
  dmabufFd : Nat
  size : UInt64
  planes : List Bound
  deriving DecidableEq, Repr

/-- The answers for one entry of the contiguous pool. -/
structure ContiguousAnswers where
  yImage : Bool
  uvImage : Bool
  yReqs : MemoryRequirements
  uvReqs : MemoryRequirements
  heap : Option Nat
  dup : Bool
  memoryType : Bool
  memory : Bool
  bindY : Bool
  bindUv : Bool
  viewY : Bool
  viewUv : Bool

/-- An entry of `output_pool_create_yuv420_contiguous`: both images are bound to one memory. -/
def contiguousEntry (a : ContiguousAnswers) : Option Entry :=
  let uvOffset := alignUp a.yReqs.size a.uvReqs.alignment
  let totalSize := uvOffset + a.uvReqs.size
  if a.yImage && a.uvImage then
    a.heap.bind fun dmabufFd =>
      if a.dup && a.memoryType && a.memory && a.bindY && a.bindUv && a.viewY && a.viewUv then
        some ⟨dmabufFd, totalSize, [⟨.y, 0, a.yReqs.size⟩, ⟨.uv, uvOffset, a.uvReqs.size⟩]⟩
      else none
  else none

/-- The answers for one entry with a plane of its own. -/
structure PlaneAnswers where
  image : Bool
  reqs : MemoryRequirements
  heap : Option Nat
  dup : Bool
  buffer : Bool
  memoryType : Bool
  memory : Bool
  bind : Bool
  view : Bool

/-- An entry of `output_pool_create`: `create_dmabuf_image`. -/
def separateEntry (plane : PlaneName) (a : PlaneAnswers) : Option Entry :=
  if a.image then
    a.heap.bind fun dmabufFd =>
      if a.dup && a.memoryType && a.memory && a.bind && a.view then
        some ⟨dmabufFd, a.reqs.size, [⟨plane, 0, a.reqs.size⟩]⟩
      else none
  else none

/-- An entry of `output_pool_create_copyout`: an internal image, and a buffer of `bufSize` bytes
    that it is copied to. -/
def copyoutEntry (plane : PlaneName) (bufSize : UInt64) (a : PlaneAnswers) : Option Entry :=
  if a.image then
    a.heap.bind fun dmabufFd =>
      if a.dup && a.buffer && a.memoryType && a.memory && a.bind then
        some ⟨dmabufFd, bufSize, [⟨plane, 0, bufSize⟩]⟩
      else none
  else none

/-! ### Pools -/

/-- Answers for one pool. -/
structure PoolAnswers (α : Type) where
  calloc : Bool
  entry : Nat → α

/-- What the constructors have in common: the entries, or none of them after the first failure. -/
def createPool {α : Type} (make : α → Option Entry) (capacity : Nat) (a : PoolAnswers α) :
    List Entry × Bool :=
  if a.calloc then
    match (List.range capacity).mapM fun i => make (a.entry i) with
    | some entries => (entries, true)
    | none => ([], false)
  else ([], false)

def outputPoolCreateYuv420Contiguous (capacity : Nat) (a : PoolAnswers ContiguousAnswers) :
    List Entry × Bool :=
  createPool contiguousEntry capacity a

def outputPoolCreate (plane : PlaneName) (capacity : Nat) (a : PoolAnswers PlaneAnswers) :
    List Entry × Bool :=
  createPool (separateEntry plane) capacity a

/-- Only formats with a known size are copied out. -/
def outputPoolCreateCopyout (plane : PlaneName) (capacity width height : Nat) (format : VkFormat)
    (a : PoolAnswers PlaneAnswers) : List Entry × Bool :=
  match PoolSetup.copyoutBpp format with
  | none => ([], false)
  | some bpp => createPool (copyoutEntry plane (.ofNat (width * height * bpp))) capacity a

/-- Answers for the three ways. -/
structure YuvAnswers where
  contiguous : PoolAnswers ContiguousAnswers
  separateY : PoolAnswers PlaneAnswers
  separateUv : PoolAnswers PlaneAnswers
  copyoutY : PoolAnswers PlaneAnswers
  copyoutUv : PoolAnswers PlaneAnswers

/-- The size and the formats of the planes. -/
structure Planes where
  capacity : Nat
  width : Nat
  height : Nat
  yFormat : VkFormat
  uvFormat : VkFormat

/-- Whether 0 is returned, and both pools. -/
structure Made where
  ok : Bool
  yPool : List Entry
  uvPool : List Entry
  deriving DecidableEq, Repr

/-- Both pools are destroyed, and -1 is returned. -/
def Made.failed : Made := ⟨false, [], []⟩

/-- The last way. -/
def copyoutPlanes (singleOnly : Bool) (p : Planes) (a : YuvAnswers) (yPool uvPool : List Entry) :
    Made :=
  if singleOnly then ⟨false, yPool, uvPool⟩
  else
    let y := outputPoolCreateCopyout .y p.capacity p.width p.height p.yFormat a.copyoutY
    let uv := outputPoolCreateCopyout .uv p.capacity (p.width / 2) (p.height / 2) p.uvFormat
      a.copyoutUv
    if y.2 && uv.2 then ⟨true, y.1, uv.1⟩ else .failed

/-- From the second way on. -/
def separatePlanes (copyoutOnly separateOnly singleOnly : Bool) (p : Planes) (a : YuvAnswers)
    (yPool uvPool : List Entry) : Made :=
  if copyoutOnly then copyoutPlanes singleOnly p a yPool uvPool
  else
    let y := outputPoolCreate .y p.capacity a.separateY
    let uv := outputPoolCreate .uv p.capacity a.separateUv
    if y.2 && uv.2 then ⟨true, y.1, uv.1⟩
    else if separateOnly then .failed
    else copyoutPlanes singleOnly p a [] []

/-- `output_pool_create_linear_yuv`; `yPool` is the pool as it is found, `uv_pool` is cleared. -/
def outputPoolCreateLinearYuv (layout : OutputLayout) (copyoutOnly sepEnv : Bool) (p : Planes)
    (a : YuvAnswers) (yPool : List Entry) : Made :=
  let separateOnly := layout = .twoDmabuf || sepEnv
  let singleOnly := layout = .singleDmabuf
  if !copyoutOnly && !separateOnly then
    let y := outputPoolCreateYuv420Contiguous p.capacity a.contiguous
    if y.2 then ⟨true, y.1, []⟩
    else if singleOnly then .failed
    else separatePlanes copyoutOnly separateOnly singleOnly p a [] []
  else separatePlanes copyoutOnly separateOnly singleOnly p a yPool []

def outputPoolCreateNv12 (layout : OutputLayout) (env : Environment) (capacity width height : Nat)
    (a : YuvAnswers) (yPool : List Entry) : Made :=
  outputPoolCreateLinearYuv layout false (envEnabled env.nv12Separate)
    ⟨capacity, width, height, .r8Unorm, .r8g8Unorm⟩ a yPool

def outputPoolCreateP010 (layout : OutputLayout) (env : Environment) (capacity width height : Nat)
    (a : YuvAnswers) (yPool : List Entry) : Made :=
  outputPoolCreateLinearYuv layout (envEnabled env.p010Copyout) (envEnabled env.p010Separate)
    ⟨capacity, width, height, .r16Unorm, .r16g16Unorm⟩ a yPool

/-! ### What a constructor leaves -/

/-- The planes that are in the entry's DMA-buf. -/
def Entry.planeNames (e : Entry) : List PlaneName := e.planes.map (·.plane)

/-- A full pool whose entries have these planes each, or an empty one. -/
def FullOrEmpty (planes : List PlaneName) (capacity : Nat) (r : List Entry × Bool) : Prop :=
  (r.2 = true → r.1.length = capacity ∧ ∀ e ∈ r.1, e.planeNames = planes) ∧ (r.2 = false → r.1 = [])

/-- Every maker has this shape: no entry without a DMA-buf of its own, and no other failure left. -/
theorem made_from_heap {c d : Bool} {heap : Option Nat} {f : Nat → Entry} {e : Entry}
    (h : (if c then heap.bind fun fd => if d then some (f fd) else none else none) = some e) :
    ∃ fd, heap = some fd ∧ f fd = e := by
  split at h
  next =>
    obtain ⟨fd, hheap, h⟩ := Option.bind_eq_some_iff.mp h
    split at h
    next => exact ⟨fd, hheap, Option.some.inj h⟩
    next => cases h
  next => cases h

theorem contiguousEntry_planes {a : ContiguousAnswers} {e : Entry}
    (h : contiguousEntry a = some e) : e.planeNames = [.y, .uv] := by
  obtain ⟨fd, -, rfl⟩ := made_from_heap h
  rfl

/-- In the DMA-buf of a contiguous entry the planes do not meet, and both fit. -/
theorem contiguousEntry_fits {a : ContiguousAnswers} {e : Entry} {k : Nat}
    (h : contiguousEntry a = some e) (halign : a.uvReqs.alignment.toNat = 2 ^ k)
    (hsmall : a.yReqs.size.toNat + a.uvReqs.alignment.toNat + a.uvReqs.size.toNat < 2 ^ 64) :
    ∃ y uv, e.planes = [y, uv] ∧ y.offset.toNat + y.bytes.toNat ≤ uv.offset.toNat ∧
      uv.offset.toNat + uv.bytes.toNat = e.size.toNat := by
  obtain ⟨fd, -, rfl⟩ := made_from_heap h
  have hsum : a.yReqs.size.toNat + a.uvReqs.alignment.toNat < 2 ^ 64 := by omega
  have hpos : 0 < a.uvReqs.alignment.toNat := halign ▸ Nat.two_pow_pos k
  have hmod := Nat.mod_lt (a.yReqs.size.toNat + a.uvReqs.alignment.toNat - 1) hpos
  have hdiv := Nat.div_add_mod' (a.yReqs.size.toNat + a.uvReqs.alignment.toNat - 1)
    a.uvReqs.alignment.toNat
  rw [← toNat_alignUp halign hsum] at hdiv
  refine ⟨_, _, rfl, ?_, ?_⟩
  · simp only [UInt64.toNat_zero]
    omega
  · simp only [UInt64.toNat_add]
    exact (Nat.mod_eq_of_lt (by omega)).symm

theorem separateEntry_planes {plane : PlaneName} {a : PlaneAnswers} {e : Entry}
    (h : separateEntry plane a = some e) : e.planeNames = [plane] := by
  obtain ⟨fd, -, rfl⟩ := made_from_heap h
  rfl

theorem copyoutEntry_planes {plane : PlaneName} {bufSize : UInt64} {a : PlaneAnswers} {e : Entry}
    (h : copyoutEntry plane bufSize a = some e) : e.planeNames = [plane] := by
  obtain ⟨fd, -, rfl⟩ := made_from_heap h
  rfl

section Pool
variable {α : Type} {make : α → Option Entry} {planes : List PlaneName}

/-- The loop gives an entry for every number, and every entry is one that was made. -/
theorem mapM_entries {entry : Nat → α} (hmake : ∀ x e, make x = some e → e.planeNames = planes)
    {is : List Nat} {entries : List Entry}
    (h : (is.mapM fun i => make (entry i)) = some entries) :
    entries.length = is.length ∧ ∀ e ∈ entries, e.planeNames = planes := by
  induction is generalizing entries with
  | nil =>
    have hnil : entries = [] := by simpa using h.symm
    simp [hnil]
  | cons i is ih =>
    rw [List.mapM_cons] at h
    obtain ⟨e, he, h⟩ := Option.bind_eq_some_iff.mp h
    obtain ⟨rest, hrest, h⟩ := Option.bind_eq_some_iff.mp h
    have hcons : e :: rest = entries := Option.some.inj h
    subst hcons
    obtain ⟨hlen, hall⟩ := ih hrest
    exact ⟨by simp [hlen], List.forall_mem_cons.mpr ⟨hmake _ _ he, hall⟩⟩

theorem createPool_fullOrEmpty (hmake : ∀ x e, make x = some e → e.planeNames = planes)
    (capacity : Nat) (a : PoolAnswers α) :
    FullOrEmpty planes capacity (createPool make capacity a) := by
  unfold createPool
  split
  next =>
    split
    next entries h =>
      have hspec := mapM_entries hmake h
      simpa [FullOrEmpty] using hspec
    next => simp [FullOrEmpty]
  next => simp [FullOrEmpty]

end Pool

theorem contiguous_fullOrEmpty (capacity : Nat) (a : PoolAnswers ContiguousAnswers) :
    FullOrEmpty [.y, .uv] capacity (outputPoolCreateYuv420Contiguous capacity a) :=
  createPool_fullOrEmpty (fun _ _ => contiguousEntry_planes) capacity a

theorem separate_fullOrEmpty (plane : PlaneName) (capacity : Nat) (a : PoolAnswers PlaneAnswers) :
    FullOrEmpty [plane] capacity (outputPoolCreate plane capacity a) :=
  createPool_fullOrEmpty (fun _ _ => separateEntry_planes) capacity a

theorem copyout_fullOrEmpty (plane : PlaneName) (capacity width height : Nat) (format : VkFormat)
    (a : PoolAnswers PlaneAnswers) :
    FullOrEmpty [plane] capacity
      (outputPoolCreateCopyout plane capacity width height format a) := by
  unfold outputPoolCreateCopyout
  split
  next => simp [FullOrEmpty]
  next => exact createPool_fullOrEmpty (fun _ _ => copyoutEntry_planes) capacity a

/-! ### What a way leaves -/

/-- One DMA-buf with both planes for every entry. -/
def Made.IsSingle (r : Made) : Prop := r.uvPool = [] ∧ ∀ e ∈ r.yPool, e.planeNames = [.y, .uv]

/-- Full pools, and a DMA-buf for each plane. -/
def Made.IsTwo (capacity : Nat) (r : Made) : Prop :=
  (r.yPool.length = capacity ∧ ∀ e ∈ r.yPool, e.planeNames = [.y]) ∧
    r.uvPool.length = capacity ∧ ∀ e ∈ r.uvPool, e.planeNames = [.uv]

def Made.IsEmpty (r : Made) : Prop := r.yPool = [] ∧ r.uvPool = []

/-- Success leaves two pools, failure none. -/
def Made.TwoOrNone (capacity : Nat) (r : Made) : Prop :=
  (r.ok = true → r.IsTwo capacity) ∧ (r.ok = false → r.IsEmpty)

/-- The layout is what the pools have. -/
def Honoured (layout : OutputLayout) (capacity : Nat) (r : Made) : Prop :=
  (r.ok = true → layout = .singleDmabuf → r.IsSingle) ∧
    (r.ok = true → layout = .twoDmabuf → r.IsTwo capacity) ∧ (r.ok = false → r.IsEmpty)

theorem failed_twoOrNone (capacity : Nat) : Made.failed.TwoOrNone capacity :=
  ⟨fun h => Bool.noConfusion h, fun _ => ⟨rfl, rfl⟩⟩

/-- A pool for each plane, or both destroyed. -/
theorem pair_twoOrNone {capacity : Nat} {y uv : List Entry × Bool}
    (hy : FullOrEmpty [.y] capacity y) (huv : FullOrEmpty [.uv] capacity uv) :
    Made.TwoOrNone capacity (if y.2 && uv.2 then ⟨true, y.1, uv.1⟩ else .failed) := by
  split
  next h =>
    rw [Bool.and_eq_true] at h
    exact ⟨fun _ => ⟨hy.1 h.1, huv.1 h.2⟩, fun hok => Bool.noConfusion hok⟩
  next => exact failed_twoOrNone capacity

theorem copyoutPlanes_twoOrNone (p : Planes) (a : YuvAnswers) (yPool uvPool : List Entry) :
    (copyoutPlanes false p a yPool uvPool).TwoOrNone p.capacity :=
  pair_twoOrNone (copyout_fullOrEmpty ..) (copyout_fullOrEmpty ..)

/-- Unless it has to be one DMA-buf, whatever way is taken from the second on gives two. -/
theorem separatePlanes_twoOrNone (copyoutOnly separateOnly : Bool) (p : Planes) (a : YuvAnswers)
    (yPool uvPool : List Entry) :
    (separatePlanes copyoutOnly separateOnly false p a yPool uvPool).TwoOrNone p.capacity := by
  have hpair := pair_twoOrNone (separate_fullOrEmpty .y p.capacity a.separateY)
    (separate_fullOrEmpty .uv p.capacity a.separateUv)
  unfold separatePlanes
  cases copyoutOnly with
  | true => exact copyoutPlanes_twoOrNone p a yPool uvPool
  | false =>
    by_cases h : ((outputPoolCreate .y p.capacity a.separateY).2 &&
      (outputPoolCreate .uv p.capacity a.separateUv).2) = true
    · rw [if_pos h] at hpair
      simpa only [h, Bool.false_eq_true, if_false, if_true] using hpair
    · rw [if_neg Bool.false_ne_true, if_neg h]
      split
      next => exact failed_twoOrNone p.capacity
      next => exact copyoutPlanes_twoOrNone p a [] []

/-! ### The three layouts -/

section Layouts
variable (copyoutOnly sepEnv : Bool) (p : Planes) (a : YuvAnswers) (yPool : List Entry)

/-- Two DMA-bufs that are asked for are two. -/
theorem two_twoOrNone :
    (outputPoolCreateLinearYuv .twoDmabuf copyoutOnly sepEnv p a yPool).TwoOrNone p.capacity := by
  have h := separatePlanes_twoOrNone copyoutOnly true p a yPool []
  simpa [outputPoolCreateLinearYuv] using h

/-- With no layout asked for, failure leaves nothing behind. -/
theorem auto_failed_isEmpty
    (hok : (outputPoolCreateLinearYuv .auto copyoutOnly sepEnv p a yPool).ok = false) :
    (outputPoolCreateLinearYuv .auto copyoutOnly sepEnv p a yPool).IsEmpty := by
  have hways : outputPoolCreateLinearYuv .auto copyoutOnly sepEnv p a yPool =
      if !copyoutOnly && !sepEnv then
        if (outputPoolCreateYuv420Contiguous p.capacity a.contiguous).2 then
          ⟨true, (outputPoolCreateYuv420Contiguous p.capacity a.contiguous).1, []⟩
        else separatePlanes copyoutOnly sepEnv false p a [] []
      else separatePlanes copyoutOnly sepEnv false p a yPool [] := by
    simp [outputPoolCreateLinearYuv]
  rw [hways] at hok ⊢
  split at hok
  next h =>
    rw [if_pos h]
    split at hok
    next => cases hok
    next hy =>
      rw [if_neg hy]
      exact (separatePlanes_twoOrNone copyoutOnly sepEnv p a [] []).2 hok
  next h =>
    rw [if_neg h]
    exact (separatePlanes_twoOrNone copyoutOnly sepEnv p a yPool []).2 hok

/-- One DMA-buf, and no switch: both planes are in it, or there is no pool. -/
theorem single_honoured :
    Honoured .singleDmabuf p.capacity
      (outputPoolCreateLinearYuv .singleDmabuf false false p a yPool) := by
  have hspec := contiguous_fullOrEmpty p.capacity a.contiguous
  unfold outputPoolCreateLinearYuv
  by_cases hy : (outputPoolCreateYuv420Contiguous p.capacity a.contiguous).2 = true
  · have hplanes := (hspec.1 hy).2
    simpa [hy, Honoured, Made.IsSingle] using hplanes
  · simp [hy, Honoured, Made.failed, Made.IsEmpty]

/-- One DMA-buf, and only copy-out is allowed: the pool stays as it was found. -/
theorem single_copyoutOnly :
    outputPoolCreateLinearYuv .singleDmabuf true sepEnv p a yPool = ⟨false, yPool, []⟩ := by
  simp [outputPoolCreateLinearYuv, separatePlanes, copyoutPlanes]

/-- One DMA-buf, and the separate switch: the planes are separate, or there is no pool. -/
theorem single_separateOnly :
    outputPoolCreateLinearYuv .singleDmabuf false true p a yPool =
      if (outputPoolCreate .y p.capacity a.separateY).2 &&
          (outputPoolCreate .uv p.capacity a.separateUv).2 then
        ⟨true, (outputPoolCreate .y p.capacity a.separateY).1,
          (outputPoolCreate .uv p.capacity a.separateUv).1⟩
      else .failed := by
  simp [outputPoolCreateLinearYuv, separatePlanes]

end Layouts

/-- The ways that the switches leave do not go against one DMA-buf: with the copy-out switch there
    was nothing in the pool, and with the separate switch the separate planes cannot be had. -/
def SwitchesAgree (copyoutOnly sepEnv : Bool) (p : Planes) (a : YuvAnswers) (yPool : List Entry) :
    Prop :=
  (copyoutOnly = true → yPool = []) ∧
    (copyoutOnly = false → sepEnv = true → 0 < p.capacity →
      ¬ ((outputPoolCreate .y p.capacity a.separateY).2 = true ∧
        (outputPoolCreate .uv p.capacity a.separateUv).2 = true))

/-- Two full pools are not one DMA-buf for every entry, unless there are no entries. -/
theorem not_isSingle_of_isTwo {r : Made} {capacity : Nat} (htwo : r.IsTwo capacity)
    (hcap : 0 < capacity) : ¬ r.IsSingle := by
  intro hsingle
  have hlen := htwo.2.1
  rw [hsingle.1] at hlen
  exact absurd hlen.symm (Nat.ne_of_gt hcap)

theorem single_separate_honoured_iff (p : Planes) (a : YuvAnswers) (yPool : List Entry) :
    Honoured .singleDmabuf p.capacity
        (outputPoolCreateLinearYuv .singleDmabuf false true p a yPool) ↔
      SwitchesAgree false true p a yPool := by
  have hpair := pair_twoOrNone (separate_fullOrEmpty .y p.capacity a.separateY)
    (separate_fullOrEmpty .uv p.capacity a.separateUv)
  rw [single_separateOnly]
  by_cases h : ((outputPoolCreate .y p.capacity a.separateY).2 &&
    (outputPoolCreate .uv p.capacity a.separateUv).2) = true
  · rw [if_pos h] at hpair ⊢
    have htwo := hpair.1 rfl
    rw [Bool.and_eq_true] at h
    constructor
    · intro hon
      refine ⟨fun hc => Bool.noConfusion hc, fun _ _ hcap => ?_⟩
      exact absurd (hon.1 rfl rfl) (not_isSingle_of_isTwo htwo hcap)
    · intro hagree
      have hcap : p.capacity = 0 := by
        by_contra hne
        exact hagree.2 rfl rfl (Nat.pos_of_ne_zero hne) h
      have hy : (outputPoolCreate .y p.capacity a.separateY).1 = [] :=
        List.eq_nil_of_length_eq_zero (htwo.1.1.trans hcap)
      have huv : (outputPoolCreate .uv p.capacity a.separateUv).1 = [] :=
        List.eq_nil_of_length_eq_zero (htwo.2.1.trans hcap)
      simp [Honoured, Made.IsSingle, hy, huv]
  · rw [if_neg h]
    rw [Bool.and_eq_true] at h
    constructor
    · intro _
      exact ⟨fun hc => Bool.noConfusion hc, fun _ _ _ => h⟩
    · intro _
      simp [Honoured, Made.failed, Made.IsEmpty]

/-- The layout is honoured exactly if the switches do not go against one DMA-buf. -/
theorem layout_honoured_iff (layout : OutputLayout) (copyoutOnly sepEnv : Bool) (p : Planes)
    (a : YuvAnswers) (yPool : List Entry) :
    Honoured layout p.capacity (outputPoolCreateLinearYuv layout copyoutOnly sepEnv p a yPool) ↔
      (layout = .singleDmabuf → SwitchesAgree copyoutOnly sepEnv p a yPool) := by
  cases layout with
  | auto =>
    have hempty := auto_failed_isEmpty copyoutOnly sepEnv p a yPool
    simpa [Honoured] using hempty
  | twoDmabuf =>
    have htwo := two_twoOrNone copyoutOnly sepEnv p a yPool
    simpa [Honoured, Made.TwoOrNone] using htwo
  | singleDmabuf =>
    rw [forall_prop_of_true rfl]
    cases copyoutOnly with
    | true =>
      rw [single_copyoutOnly]
      simp [Honoured, SwitchesAgree, Made.IsEmpty]
    | false =>
      cases sepEnv with
      | true => exact single_separate_honoured_iff p a yPool
      | false =>
        refine iff_of_true (single_honoured p a yPool) ⟨?_, ?_⟩
        · intro hc
          cases hc
        · intro _ hs
          cases hs

/-- Only the separate switch is set. -/
def separateSwitch : Environment := ⟨none, none, some "1", none⟩

/-- Nothing fails. The numbers are the fds of the heap's DMA-bufs. -/
def nothingFails : YuvAnswers where
  contiguous := ⟨true, fun i => ⟨true, true, ⟨4147200, 64⟩, ⟨2073600, 64⟩, some (10 + i), true,
    true, true, true, true, true, true⟩⟩
  separateY := ⟨true, fun i => ⟨true, ⟨4147200, 64⟩, some (10 + i), true, true, true, true, true,
    true⟩⟩
  separateUv := ⟨true, fun i => ⟨true, ⟨2073600, 64⟩, some (20 + i), true, true, true, true, true,
    true⟩⟩
  copyoutY := ⟨true, fun i => ⟨true, ⟨4147200, 64⟩, some (10 + i), true, true, true, true, true,
    true⟩⟩
  copyoutUv := ⟨true, fun i => ⟨true, ⟨2073600, 64⟩, some (20 + i), true, true, true, true, true,
    true⟩⟩

/-- One DMA-buf is asked for, and comes before the environment: still the planes are separate. -/
theorem single_not_honoured_separateSwitch :
    resolveOutputLayout .p010 .singleDmabuf separateSwitch = .singleDmabuf ∧
      ¬ Honoured (resolveOutputLayout .p010 .singleDmabuf separateSwitch) 8
        (outputPoolCreateP010 (resolveOutputLayout .p010 .singleDmabuf separateSwitch)
          separateSwitch 8 1920 1080 nothingFails []) := by
  refine ⟨by decide, fun h => ?_⟩
  have hsingle := h.1 (by decide) (by decide)
  exact absurd hsingle.1 (by decide)

/-! ### The switch and the setting -/

/-- The separate switch of the format. -/
def separateSwitchOf (fmt : Fmt) (env : Environment) : Bool :=
  (fmt == .p010 && envEnabled env.p010Separate) ||
    ((fmt == .nv12 || fmt == .nv21) && envEnabled env.nv12Separate)

/-- Where no layout is asked for, the switch has already made it two: the second look at the switch
    can only go against a setting. -/
theorem separateSwitch_resolved {fmt : Fmt} {requested : OutputLayout} {env : Environment}
    (hswitch : separateSwitchOf fmt env = true) (hreq : requested ≠ .singleDmabuf)
    (henv : parseOutputLayoutEnv env.outputLayout ≠ .singleDmabuf) :
    resolveOutputLayout fmt requested env = .twoDmabuf := by
  unfold resolveOutputLayout
  split
  next h =>
    cases requested with
    | auto => exact absurd rfl h
    | singleDmabuf => exact absurd rfl hreq
    | twoDmabuf => rfl
  next =>
    split
    next h =>
      cases hp : parseOutputLayoutEnv env.outputLayout with
      | auto => exact absurd hp h
      | singleDmabuf => exact absurd hp henv
      | twoDmabuf => rfl
    next =>
      simp only [separateSwitchOf, Bool.or_eq_true, Bool.and_eq_true, beq_iff_eq] at hswitch
      grind

end Streambox.Vulkan.OutputLayouts
