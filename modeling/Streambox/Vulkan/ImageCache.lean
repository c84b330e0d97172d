import Streambox.Lib.Run
import Streambox.Vulkan.OutputPools
import Streambox.Vulkan.DmabufCache

/-! libvfmcap, vfmcap_vulkan.c: the images of a graphics render.

    A graphics render samples its input as a VkImage and, unless its output pool is contiguous, draws
    into two more. Each of them comes from `image_cache_get`, that is from two slots, and
    `frame_count` stands still while a render does its lookups. -/

namespace Streambox.Vulkan

/-- VkFormat, as far as it occurs. -/
inductive VkFormat
  | undefined
  | r8Unorm
  | r8g8Unorm
  | r16Unorm
  | r16g16Unorm
  | g8B8r82Plane420Unorm
  | g8b8g8r8422Unorm
  | a2b10g10r10UnormPack32
  deriving DecidableEq, Repr

namespace ImageCache
open Streambox.Lib DmabufCache

/-- What an image is imported as. -/
structure ImageKey where
  width : Nat
  height : Nat
  format : VkFormat
  modifier : Nat
  plane0Offset : Nat
  deriving DecidableEq, Repr

/-- The image cache and the fields of VulkanCtx it needs. -/
structure State extends Cached ImageKey where
  frameCount : Nat
  hasPending : Bool

/-- image_cache_get. -/
def imageCacheGet (s : State) (fd : Int) (k : ImageKey) (env : LookupEnv) :
    Option (State × Option Nat) :=
  (cacheGet true s.frameCount s.toCached fd k env).map fun r => ({ s with toCached := r.1 }, r.2)

/-! ### The calls -/

/-- The output images of a format: luma and chroma. -/
def renderFormats : Fmt → Option (VkFormat × VkFormat)
  | .nv12 => some (.r8Unorm, .r8g8Unorm)
  | .nv21 => some (.r8Unorm, .r8g8Unorm)
  | .p010 => some (.r16Unorm, .r16g16Unorm)
  | .nv12Afbc => none
  | .a2b10g10r10Afbc => none

/-- The arguments of vfmcap_vk_render_submit. -/
structure RenderArgs where
  inFd : Int
  outYFd : Int
  outUvFd : Int
  srcWidth : Nat
  srcHeight : Nat
  dstWidth : Nat
  dstHeight : Nat
  fmt : Fmt
  deriving DecidableEq, Repr

/-- Answers for one render: the lookups, whether the command buffer could be recorded, and what
    `vkQueueSubmit` returns. -/
structure RenderEnv where
  input : LookupEnv
  y : LookupEnv
  uv : LookupEnv
  recorded : Bool
  queueSubmit : Bool
  deriving DecidableEq, Repr

/-- The images named by a command buffer that is submitted. -/
structure Job where
  images : List Nat
  deriving DecidableEq, Repr

/-- What a submitting call leaves behind: the state, the command buffer if `vkQueueSubmit` was
    reached, and whether the call succeeded. -/
structure Submitted where
  state : State
  job : Option Job
  ok : Bool

/-- One lookup with its answers. -/
structure Lookup where
  fd : Int
  key : ImageKey
  env : LookupEnv
  deriving DecidableEq, Repr

def RenderArgs.input (a : RenderArgs) (env : LookupEnv) : Lookup :=
  ⟨a.inFd, ⟨a.srcWidth, a.srcHeight, .g8B8r82Plane420Unorm, 0, 0⟩, env⟩

def RenderArgs.outY (a : RenderArgs) (format : VkFormat) (env : LookupEnv) : Lookup :=
  ⟨a.outYFd, ⟨a.dstWidth, a.dstHeight, format, 0, 0⟩, env⟩

def RenderArgs.outUv (a : RenderArgs) (format : VkFormat) (env : LookupEnv) : Lookup :=
  ⟨a.outUvFd, ⟨a.dstWidth / 2, a.dstHeight / 2, format, 0, 0⟩, env⟩

/-- Look up one image after the other; the first error ends it. -/
def lookups (s : State) : List Lookup → Option (State × Option (List Nat))
  | [] => some (s, some [])
  | l :: rest =>
    (imageCacheGet s l.fd l.key l.env).bind fun
      | (t, none) => some (t, none)
      | (t, some image) => (lookups t rest).map fun r => (r.1, r.2.map (image :: ·))

/-- Record the command buffer and submit it. -/
def submitJob (s : State) (images : List Nat) (env : RenderEnv) : Submitted :=
  if env.recorded then
    if env.queueSubmit then ⟨{ s with hasPending := true }, some ⟨images⟩, true⟩
    else ⟨s, some ⟨images⟩, false⟩
  else ⟨s, none, false⟩

/-- The common part of the renders: lookups, recording, submission. -/
def submitWith (s : State) (ls : List Lookup) (env : RenderEnv) : Option Submitted :=
  (lookups s ls).map fun
    | (t, none) => ⟨t, none, false⟩
    | (t, some images) => submitJob t images env

/-- vfmcap_vk_render_submit. -/
def renderSubmit (s : State) (a : RenderArgs) (env : RenderEnv) : Option Submitted :=
  match renderFormats a.fmt with
  | none => some ⟨s, none, false⟩
  | some (yFmt, uvFmt) =>
    submitWith s [a.input env.input, a.outY yFmt env.y, a.outUv uvFmt env.uv] env

/-- vfmcap_vk_convert_wait. -/
def convertWait (s : State) (waitForFences : Bool) : State :=
  if s.hasPending then
    { s with
      hasPending := false
      frameCount := if waitForFences then (s.frameCount + 1) % 2 ^ 64 else s.frameCount }
  else s

/-- vfmcap_vk_render_and_wait with an entry taken from the pool: `contiguous` says that the pool has
    both planes in one entry, whose images are not looked up. -/
def renderAndWait (s : State) (a : RenderArgs) (contiguous : Bool) (env : RenderEnv)
    (waitForFences : Bool) : Option State :=
  let submitted :=
    if contiguous then
      match renderFormats a.fmt with
      | none => some ⟨s, none, false⟩
      | some _ => submitWith s [a.input env.input] env
    else renderSubmit s a env
  submitted.map fun r => if r.ok then convertWait r.state waitForFences else r.state

/-- The part of vfmcap_vk_reconfig_pools that concerns the cache; `pools` says whether the pools and
    the intermediate images could be made again. -/
def reconfigPools (s : State) (pools : Bool) : State :=
  { s with
    toCached := { destroyEntries true s.toCached with count := 0 }
    frameCount := if pools then 0 else s.frameCount }

inductive Call
  | renderSubmit (a : RenderArgs) (env : RenderEnv)
  | convertWait (waitForFences : Bool)
  | renderAndWait (a : RenderArgs) (contiguous : Bool) (env : RenderEnv) (waitForFences : Bool)
  | reconfigPools (pools : Bool)
  deriving DecidableEq, Repr

def step (s : State) : Call → Option State
  | .renderSubmit a env => (renderSubmit s a env).map Submitted.state
  | .convertWait waitForFences => some (convertWait s waitForFences)
  | .renderAndWait a contiguous env waitForFences => renderAndWait s a contiguous env waitForFences
  | .reconfigPools pools => some (reconfigPools s pools)

/-- The cache after vfmcap_vk_init. -/
def initial : State :=
  ⟨⟨⟨fun _ => .unused ⟨0, 0, .undefined, 0, 0⟩, 0⟩, ⟨0, []⟩⟩, 0, false⟩

theorem imageCacheGet_spec {s t : State} {fd : Int} {k : ImageKey} {env : LookupEnv}
    {r : Option Nat} (h : imageCacheGet s fd k env = some (t, r)) :
    Keeps s.toCached t.toCached ∧ ∀ image, r = some image → t.Holds fd image := by
  obtain ⟨⟨c, r'⟩, hget, hr⟩ := Option.map_eq_some_iff.mp h
  obtain ⟨rfl, rfl⟩ := Prod.mk.inj hr
  exact cacheGet_spec hget

/-- After a series of lookups each image is in the cache under its descriptor, or destroyed. -/
theorem lookups_spec : ∀ {ls : List Lookup} {s t : State} {images : List Nat},
    lookups s ls = some (t, some images) →
      Keeps s.toCached t.toCached ∧
        List.Forall₂ (fun l image => t.HoldsOrDestroyed l.fd image) ls images
  | [], s, t, images, h => by
    obtain ⟨rfl, himages⟩ := Prod.mk.inj (Option.some_inj.mp h)
    cases himages
    exact ⟨Keeps.rfl, .nil⟩
  | l :: rest, s, t, images, h => by
    obtain ⟨⟨mid, r⟩, hget, hrest⟩ := Option.bind_eq_some_iff.mp h
    obtain ⟨hkeep, hheld⟩ := imageCacheGet_spec hget
    cases r with
    | none => cases hrest
    | some image =>
      obtain ⟨⟨t', r'⟩, hlook, hr⟩ := Option.map_eq_some_iff.mp hrest
      obtain ⟨rfl, himages⟩ := Prod.mk.inj hr
      obtain ⟨others, rfl, rfl⟩ := Option.map_eq_some_iff.mp himages
      obtain ⟨hkeep', hall⟩ := lookups_spec hlook
      exact ⟨hkeep.trans hkeep', .cons (hkeep'.holdsOrDestroyed (.inl (hheld image rfl))) hall⟩

/-- Of the images looked up under more descriptors than there are slots, one is destroyed. -/
theorem lookups_destroy {ls : List Lookup} {s t : State} {images : List Nat}
    (h : lookups s ls = some (t, some images)) (hnodup : (ls.map (·.fd)).Nodup)
    (hmany : dmabufCacheSize < ls.length) : ∃ image ∈ images, Op.destroyed image ∈ t.ops := by
  by_contra hnone
  have hlive : ∀ image ∈ images, Op.destroyed image ∉ t.ops := fun image himage hgone =>
    hnone ⟨image, himage, hgone⟩
  obtain ⟨-, hall⟩ := lookups_spec h
  have hheld : ∀ fd ∈ ls.map (·.fd), ∃ image, t.Holds fd image := by
    clear hnone hmany hnodup h
    induction hall with
    | nil => intro fd hfd; cases hfd
    | cons hk _ ih =>
      intro fd hfd
      rcases List.mem_cons.mp hfd with rfl | hfd
      · exact ⟨_, hk.resolve_right (hlive _ (List.mem_cons_self ..))⟩
      · exact ih (fun image himage => hlive image (List.mem_cons_of_mem _ himage)) fd hfd
  have hle := holds_length_le hnodup hheld
  rw [List.length_map] at hle
  exact absurd hmany (not_lt.mpr hle)

/-- The image is in the cache and has not been destroyed. -/
def State.Usable (s : State) (image : Nat) : Prop :=
  (∃ fd, s.Holds fd image) ∧ Op.destroyed image ∉ s.ops

/-- All images of the command buffer are usable when it is submitted, and still are when the wait
    for it has returned. -/
def Submitted.Lives (r : Submitted) (j : Job) (waitForFences : Bool) : Prop :=
  ∀ image ∈ j.images, r.state.Usable image ∧ (convertWait r.state waitForFences).Usable image

theorem submitJob_job {s : State} {images : List Nat} {env : RenderEnv} {j : Job}
    (h : (submitJob s images env).job = some j) :
    j.images = images ∧ (submitJob s images env).state.ops = s.ops := by
  unfold submitJob at h ⊢
  split_ifs at h ⊢
  · cases h
    exact ⟨rfl, rfl⟩
  · cases h
    exact ⟨rfl, rfl⟩

/-- A render that draws into two looked-up images never has all its images: whatever was called
    before, by the time the third one is found one of them has been destroyed. -/
theorem render_submit_never_lives {s : State} {a : RenderArgs} {env : RenderEnv} {r : Submitted}
    {j : Job} {waitForFences : Bool} (hdistinct : [a.inFd, a.outYFd, a.outUvFd].Nodup)
    (hsubmit : renderSubmit s a env = some r) (hjob : r.job = some j) :
    ¬ r.Lives j waitForFences := by
  unfold renderSubmit at hsubmit
  cases hfmt : renderFormats a.fmt with
  | none =>
    simp only [hfmt, Option.some_inj] at hsubmit
    subst hsubmit
    cases hjob
  | some formats =>
    simp only [hfmt] at hsubmit
    obtain ⟨⟨t, found⟩, hlook, hr⟩ := Option.map_eq_some_iff.mp hsubmit
    cases found with
    | none =>
      subst hr
      cases hjob
    | some images =>
      subst hr
      obtain ⟨himages, hops⟩ := submitJob_job hjob
      obtain ⟨image, hmem, hgone⟩ := lookups_destroy hlook hdistinct (Nat.lt_succ_self 2)
      intro hlives
      refine (hlives image (himages ▸ hmem)).1.2 ?_
      rwa [hops]

/-- Three descriptors of a first render, 1080p to NV12. -/
def firstRender : RenderArgs := ⟨10, 11, 12, 1920, 1080, 1920, 1080, .nv12⟩

/-- Everything works. -/
def firstAnswers : RenderEnv :=
  ⟨⟨101, some 20, .done⟩, ⟨102, some 21, .done⟩, ⟨103, some 22, .done⟩, true, true⟩

/-- What the first render leaves behind. -/
def firstSubmitted : Option Submitted := renderSubmit initial firstRender firstAnswers

theorem first_render_never_lives : ∃ r, firstSubmitted = some r ∧ r.ok = true ∧
    r.job = some ⟨[0, 1, 2]⟩ ∧ ¬ r.Lives ⟨[0, 1, 2]⟩ true :=
  ⟨_, rfl, rfl, rfl,
    @render_submit_never_lives initial firstRender firstAnswers _ _ true (by decide) rfl rfl⟩

/-- The very first render submits a command buffer that samples a destroyed image. -/
theorem render_images_destroyed : ¬ ∀ (calls : List Call) (s : State) (a : RenderArgs)
    (env : RenderEnv) (r : Submitted) (j : Job) (waitForFences : Bool),
    run step initial calls = some s → [a.inFd, a.outYFd, a.outUvFd].Nodup →
    renderSubmit s a env = some r → r.job = some j → r.Lives j waitForFences := by
  intro h
  have hlives := h [] initial firstRender firstAnswers _ ⟨[0, 1, 2]⟩ true rfl (by decide) rfl rfl
  refine (hlives 0 (by decide)).1.2 ?_
  decide

/-! ### One lookup is right

    In every state that can be reached the images in the cache are alive, so what a single lookup
    returns is usable when it returns; the contiguous renders, which look up nothing else, are safe. -/

theorem initial_sound : DmabufCache.Sound initial.toCached := by
  refine ⟨?_, ?_, ?_, ?_, ?_⟩ <;> simp [initial, CacheEntry.unused]

theorem usable_of_sound {s : State} (h : DmabufCache.Sound s.toCached) {fd : Int} {image : Nat}
    (hheld : s.Holds fd image) :
    s.Usable image := by
  obtain ⟨i, hi, hvalid, hfd, himage⟩ := hheld
  exact ⟨⟨fd, i, hi, hvalid, hfd, himage⟩, himage ▸ h.live i hvalid⟩

theorem imageCacheGet_sound {s t : State} {fd : Int} {k : ImageKey} {env : LookupEnv}
    {r : Option Nat} (h : DmabufCache.Sound s.toCached) (hget : imageCacheGet s fd k env = some (t, r)) :
    DmabufCache.Sound t.toCached := by
  obtain ⟨⟨c, r'⟩, hc, hr⟩ := Option.map_eq_some_iff.mp hget
  obtain ⟨rfl, -⟩ := Prod.mk.inj hr
  exact cacheGet_sound h hc

theorem lookups_sound : ∀ {ls : List Lookup} {s t : State} {r : Option (List Nat)},
    DmabufCache.Sound s.toCached → lookups s ls = some (t, r) → DmabufCache.Sound t.toCached
  | [], s, t, r, h, hlook => by
    obtain ⟨rfl, -⟩ := Prod.mk.inj (Option.some_inj.mp hlook)
    exact h
  | l :: rest, s, t, r, h, hlook => by
    obtain ⟨⟨mid, found⟩, hget, hrest⟩ := Option.bind_eq_some_iff.mp hlook
    have hmid := imageCacheGet_sound h hget
    cases found with
    | none =>
      obtain ⟨rfl, -⟩ := Prod.mk.inj (Option.some_inj.mp hrest)
      exact hmid
    | some image =>
      obtain ⟨⟨t', r'⟩, hlook', hr⟩ := Option.map_eq_some_iff.mp hrest
      obtain ⟨rfl, -⟩ := Prod.mk.inj hr
      exact lookups_sound hmid hlook'

theorem submitWith_sound {s : State} {ls : List Lookup} {env : RenderEnv}
    {r : Submitted} (h : DmabufCache.Sound s.toCached) (hsubmit : submitWith s ls env = some r) :
    DmabufCache.Sound r.state.toCached := by
  obtain ⟨⟨t, found⟩, hlook, rfl⟩ := Option.map_eq_some_iff.mp hsubmit
  have ht := lookups_sound h hlook
  cases found with
  | none => exact ht
  | some images =>
    dsimp only
    unfold submitJob
    split_ifs
    · exact ht
    · exact ht
    · exact ht

theorem renderSubmit_sound {s : State} {a : RenderArgs} {env : RenderEnv} {r : Submitted}
    (h : DmabufCache.Sound s.toCached) (hsubmit : renderSubmit s a env = some r) :
    DmabufCache.Sound r.state.toCached := by
  unfold renderSubmit at hsubmit
  cases hfmt : renderFormats a.fmt with
  | none =>
    simp only [hfmt, Option.some_inj] at hsubmit
    subst hsubmit
    exact h
  | some formats =>
    simp only [hfmt] at hsubmit
    exact submitWith_sound h hsubmit

theorem convertWait_sound {s : State} (h : DmabufCache.Sound s.toCached) (waitForFences : Bool) :
    DmabufCache.Sound (convertWait s waitForFences).toCached := by
  unfold convertWait
  split_ifs
  · exact h
  · exact h
  · exact h

theorem reconfigPools_sound {s : State} (h : DmabufCache.Sound s.toCached) (pools : Bool) :
    DmabufCache.Sound (reconfigPools s pools).toCached := by
  have hempty : ∀ j, ((destroyEntries true s.toCached).slots j).valid ≠ true := by
    intro j
    rw [destroyEntries_invalid h j]
    exact Bool.false_ne_true
  exact ⟨fun j hj => absurd hj (hempty j), fun j hj => absurd hj (hempty j),
    fun j hj => absurd hj (hempty j), fun j _ hj => absurd hj (hempty j),
    (destroyEntries_sound h).past⟩

theorem renderAndWait_sound {s t : State} {a : RenderArgs} {contiguous waitForFences : Bool}
    {env : RenderEnv} (h : DmabufCache.Sound s.toCached)
    (hrender : renderAndWait s a contiguous env waitForFences = some t) :
    DmabufCache.Sound t.toCached := by
  obtain ⟨r, hsubmit, rfl⟩ := Option.map_eq_some_iff.mp hrender
  have hr : DmabufCache.Sound r.state.toCached := by
    split_ifs at hsubmit
    · cases hfmt : renderFormats a.fmt with
      | none =>
        simp only [hfmt, Option.some_inj] at hsubmit
        subst hsubmit
        exact h
      | some formats =>
        simp only [hfmt] at hsubmit
        exact submitWith_sound h hsubmit
    · exact renderSubmit_sound h hsubmit
  split_ifs
  · exact convertWait_sound hr waitForFences
  · exact hr

theorem step_sound (s : State) (c : Call) (t : State) (h : DmabufCache.Sound s.toCached)
    (hstep : step s c = some t) :
    DmabufCache.Sound t.toCached := by
  cases c with
  | renderSubmit a env =>
    obtain ⟨r, hsubmit, rfl⟩ := Option.map_eq_some_iff.mp hstep
    exact renderSubmit_sound h hsubmit
  | convertWait waitForFences =>
    cases hstep
    exact convertWait_sound h waitForFences
  | renderAndWait a contiguous env waitForFences => exact renderAndWait_sound h hstep
  | reconfigPools pools =>
    cases hstep
    exact reconfigPools_sound h pools

/-- In every state that can be reached, an image that is looked up is usable at once. -/
theorem lookup_usable {calls : List Call} {s t : State} {fd : Int} {k : ImageKey}
    {env : LookupEnv} {image : Nat}
    (hrun : run step initial calls = some s) (hget : imageCacheGet s fd k env = some (t, some image)) :
    t.Usable image := by
  have hsound : DmabufCache.Sound s.toCached := run_preserves step_sound hrun initial_sound
  exact usable_of_sound (imageCacheGet_sound hsound hget) ((imageCacheGet_spec hget).2 image rfl)

end ImageCache
end Streambox.Vulkan
