import Streambox.Vulkan.PoolSetup

/-! libvfmcap, vfmcap_vulkan.c: reconfiguring against initialising anew.

    `vfmcap_vk_init` and `vfmcap_vk_reconfig_pools` build the same things independently. What there is
    to compare is the outline of a context: the shapes of its non-empty pools and its intermediate
    images. Every call acts on the outline alone, whatever the descriptors and objects behind it are,
    so the same calls after emptying a context and on a new one lead to the same outline. -/

namespace Streambox.Vulkan.PoolSetup
open Streambox.Lib DmabufCache ImageCache

/-- What a pool with entries looks like. -/
structure Shape where
  count : Nat
  width : Nat
  height : Nat
  format : VkFormat
  deriving DecidableEq, Repr

/-- Nothing if the pool is empty: what its other fields are is then of no concern. -/
def OutputPool.shape (pool : OutputPool) : Option Shape :=
  if pool.entries = [] then none
  else some ⟨pool.entries.length, pool.width, pool.height, pool.format⟩

/-- The outline of a context. -/
structure Outline where
  pools : PoolField → Option Shape
  predecodeY : Option Plane
  predecodeUv : Option Plane

def outline (s : Ctx) : Outline := ⟨fun p => (s.pools p).shape, s.predecodeY, s.predecodeUv⟩

/-- The pool that is there after an attempt to create it. -/
def createdShape (kind : PoolKind) (width height : Nat) (format : VkFormat) (capacity : Nat)
    (a : PoolAnswers) : Option Shape :=
  if a.suffices kind format capacity && capacity != 0 then some ⟨capacity, width, height, format⟩
  else none

/-- What a call does to the outline. -/
def Outline.step (o : Outline) : Prim → Outline
  | .zeroPool p => { o with pools := Function.update o.pools p none }
  | .createPool p kind width height format capacity a =>
    { o with pools := Function.update o.pools p (createdShape kind width height format capacity a) }
  | .destroyPool p => { o with pools := Function.update o.pools p none }
  | .dropPredecode => { o with predecodeY := none, predecodeUv := none }
  | .createPredecodeY width height ok =>
    { o with predecodeY := if ok then some ⟨width, height, .r16Unorm⟩ else none }
  | .createPredecodeUv width height ok =>
    { o with predecodeUv := if ok then some ⟨width, height, .r16g16Unorm⟩ else none }
  | .imageCacheGet _ _ _ => o
  | .inputCacheGet _ _ _ => o
  | .outputCacheGet _ _ _ => o
  | .convertWait _ _ => o
  | .emptyCaches => o
  | .dropCachedOutput => o
  | .resize _ _ => o
  | .setInitialized => o
  | .forget => ⟨fun _ => none, none, none⟩

/-! ### A call acts on the outline -/

theorem maker_inUse {kind : PoolKind} {obj : Nat} {env : EntryEnv} {e : PoolEntry}
    (h : (kind.maker obj env).2 = some e) : e.inUse = false := by
  obtain ⟨internal, heap, dup, importEnd⟩ := env
  cases kind <;> cases internal <;> cases heap <;> cases dup <;> cases importEnd <;> cases h <;> rfl

/-- Entries are made until one fails, and none of them is handed out. -/
theorem makeEntries_spec (kind : PoolKind) (envs : List EntryEnv) (d : Device) :
    (makeEntries kind.maker d envs).2.2 = envs.all kind.makes ∧
      (envs.all kind.makes = true → (makeEntries kind.maker d envs).2.1.length = envs.length) ∧
      ∀ e ∈ (makeEntries kind.maker d envs).2.1, e.inUse = false := by
  induction envs generalizing d with
  | nil => simp [makeEntries]
  | cons env rest ih =>
    rcases hmake : makeEntry kind.maker d env with ⟨d', _ | e⟩
    · have hnot := makeEntry_isSome kind hmake
      simp [makeEntries, hmake, ← hnot]
    · have hmade := makeEntry_isSome kind hmake
      obtain ⟨hok, hlength, hidle⟩ := ih d'
      simp only [makeEntries, hmake, List.all_cons, ← hmade, Option.isSome_some, Bool.true_and]
      refine ⟨hok, fun hall => ?_, fun e' he' => ?_⟩
      · rw [List.length_cons, hlength hall, List.length_cons]
      · rcases List.mem_cons.mp he' with rfl | he'
        · exact maker_inUse (congrArg Prod.snd hmake)
        · exact hidle e' he'

/-- What a constructor leaves behind depends on its arguments and answers only. -/
theorem createPool_shape (kind : PoolKind) (width height : Nat) (format : VkFormat)
    (capacity : Nat) (a : PoolAnswers) (d : Device) :
    (createPool kind width height format capacity a d).2.1.shape =
      createdShape kind width height format capacity a := by
  obtain ⟨hok, hlength, -⟩ := makeEntries_spec kind ((List.range capacity).map a.entry) d
  rcases hmade : makeEntries kind.maker d ((List.range capacity).map a.entry) with ⟨d', es, ok⟩
  rw [hmade] at hok hlength
  dsimp only at hok hlength
  rw [List.length_map, List.length_range] at hlength
  by_cases hcalloc : a.calloc = true
  · by_cases hfmt : kind = .copyout ∧ copyoutBpp format = none
    · simp [createPool, createdShape, PoolAnswers.suffices, OutputPool.shape, hcalloc, hfmt]
    · have hknown : (kind == .copyout && copyoutBpp format == none) = false := by
        rw [Bool.eq_false_iff]
        simpa using hfmt
      have hsuffices : a.suffices kind format capacity = ok := by
        rw [PoolAnswers.suffices, hcalloc, hknown, hok]
        rfl
      cases ok with
      | false => simp [createPool, createdShape, OutputPool.shape, hcalloc, hfmt, hmade, hsuffices]
      | true =>
        have hlen := hlength hok.symm
        have hempty : es = [] ↔ capacity = 0 := by rw [← List.length_eq_zero_iff, hlen]
        simp [createPool, createdShape, OutputPool.shape, hcalloc, hfmt, hmade, hsuffices, hempty, hlen]
  · simp [createPool, createdShape, PoolAnswers.suffices, OutputPool.shape, OutputPool.zero, hcalloc]

theorem shape_update (pools : PoolField → OutputPool) (p : PoolField) (pool : OutputPool) :
    (fun q => (Function.update pools p pool q).shape) =
      Function.update (fun q => (pools q).shape) p pool.shape := by
  funext q
  by_cases hq : q = p
  · subst hq
    simp
  · simp [hq]

/-- One call does to the context what it does to the outline. -/
theorem step_outline {s t : Ctx} {c : Prim} (h : step s c = some t) :
    outline t = (outline s).step c := by
  cases c with
  | imageCacheGet fd k env =>
    obtain ⟨r, -, rfl⟩ := Option.map_eq_some_iff.mp h
    rfl
  | inputCacheGet fd size env =>
    obtain ⟨r, -, rfl⟩ := Option.map_eq_some_iff.mp h
    rfl
  | zeroPool p =>
    simp only [step] at h
    split_ifs at h
    cases h
    simp only [outline, Outline.step, shape_update]
    rfl
  | createPool p kind width height format capacity a =>
    simp only [step] at h
    split_ifs at h
    cases h
    simp only [outline, Outline.step, shape_update, createPool_shape]
  | destroyPool p =>
    cases h
    simp only [outline, Outline.step, shape_update]
    rfl
  | outputCacheGet fd size env => cases h; rfl
  | convertWait pendingInFd waitForFences => cases h; rfl
  | emptyCaches => cases h; rfl
  | dropCachedOutput => cases h; rfl
  | dropPredecode => cases h; rfl
  | createPredecodeY width height ok => cases h; rfl
  | createPredecodeUv width height ok => cases h; rfl
  | resize width height => cases h; rfl
  | setInitialized => cases h; rfl
  | forget => cases h; rfl

theorem run_outline {s t : Ctx} {cs : List Prim} (h : run step s cs = some t) :
    outline t = cs.foldl Outline.step (outline s) := by
  induction cs generalizing s with
  | nil =>
    cases h
    rfl
  | cons c cs ih =>
    obtain ⟨mid, hmid, hrest⟩ := run_cons.mp h
    rw [ih hrest, step_outline hmid, List.foldl_cons]

/-! ### Building on a new context -/

/-- The calls that set things up. -/
def Builds : Prim → Prop
  | .zeroPool _ => True
  | .createPool _ _ _ _ _ _ _ => True
  | .destroyPool _ => True
  | .createPredecodeY _ _ _ => True
  | .createPredecodeUv _ _ _ => True
  | _ => False

theorem shape_eq_none {pool : OutputPool} : pool.shape = none ↔ pool.entries = [] := by
  simp [OutputPool.shape]

theorem empty_of_outline {s u : Ctx} (h : outline u = outline s) {p : PoolField}
    (hs : (s.pools p).entries = []) : (u.pools p).entries = [] := by
  rw [← shape_eq_none] at hs ⊢
  exact (congrFun (congrArg Outline.pools h) p).trans hs

/-- What can be built in one context can be built in another with the same outline, and leaves the
    size alone. -/
theorem builds_step {s t u : Ctx} {c : Prim} (hc : Builds c) (h : step s c = some t)
    (hu : outline u = outline s) :
    ∃ u', step u c = some u' ∧ outline u' = outline t ∧ u'.width = u.width ∧
      u'.height = u.height := by
  have hout : ∀ u', step u c = some u' → outline u' = outline t := by
    intro u' hu'
    rw [step_outline hu', step_outline h, hu]
  cases c with
  | zeroPool p =>
    simp only [step] at h hout ⊢
    split_ifs at h with hempty
    have hempty' := empty_of_outline hu hempty
    rw [if_pos hempty'] at hout ⊢
    exact ⟨_, rfl, hout _ rfl, rfl, rfl⟩
  | createPool p kind width height format capacity a =>
    simp only [step] at h hout ⊢
    split_ifs at h with hempty
    have hempty' := empty_of_outline hu hempty
    rw [if_pos hempty'] at hout ⊢
    exact ⟨_, rfl, hout _ rfl, rfl, rfl⟩
  | destroyPool p => exact ⟨_, rfl, hout _ rfl, rfl, rfl⟩
  | createPredecodeY width height ok => exact ⟨_, rfl, hout _ rfl, rfl, rfl⟩
  | createPredecodeUv width height ok => exact ⟨_, rfl, hout _ rfl, rfl, rfl⟩
  | _ => exact hc.elim

theorem builds_run {cs : List Prim} {s t u : Ctx} (hcs : ∀ c ∈ cs, Builds c)
    (h : run step s cs = some t) (hu : outline u = outline s) :
    ∃ u', run step u cs = some u' ∧ outline u' = outline t ∧ u'.width = u.width ∧
      u'.height = u.height := by
  induction cs generalizing s u with
  | nil =>
    cases h
    exact ⟨u, rfl, hu, rfl, rfl⟩
  | cons c cs ih =>
    obtain ⟨mid, hmid, hrest⟩ := run_cons.mp h
    obtain ⟨v, hv, hvo, hvw, hvh⟩ := builds_step (hcs c (List.mem_cons_self ..)) hmid hu
    obtain ⟨u', hu', ho, hw, hh⟩ := ih (fun c' hc' => hcs c' (List.mem_cons_of_mem _ hc')) hrest hvo
    exact ⟨u', run_cons.mpr ⟨v, hv, hu'⟩, ho, hw.trans hvw, hh.trans hvh⟩

/-! ### Scripts -/

theorem andThen_ok {a b : Script} (h : (a.andThen b).2 = true) :
    a.2 = true ∧ b.2 = true ∧ (a.andThen b).1 = a.1 ++ b.1 := by
  cases ha : a.2 with
  | false =>
    rw [Script.andThen, ha] at h
    exact absurd (ha.symm.trans h) Bool.false_ne_true
  | true =>
    rw [Script.andThen, ha] at h ⊢
    exact ⟨rfl, h, rfl⟩

/-- Nothing but setting up. -/
def Building (a : Script) : Prop := ∀ c ∈ a.1, Builds c

theorem building_fail {ok : Bool} : Building ([], ok) := fun _ hc => absurd hc List.not_mem_nil

theorem building_andThen {a b : Script} (ha : Building a) (hb : Building b) :
    Building (a.andThen b) := by
  intro c hc
  unfold Script.andThen at hc
  split_ifs at hc
  · rcases List.mem_append.mp hc with hc | hc
    · exact ha c hc
    · exact hb c hc
  · exact ha c hc

theorem building_orElse {a b : Script} {cleanup : List Prim} (ha : Building a)
    (hcleanup : ∀ c ∈ cleanup, Builds c) (hb : Building b) : Building (a.orElse cleanup b) := by
  intro c hc
  unfold Script.orElse at hc
  split_ifs at hc
  · exact ha c hc
  · rcases List.mem_append.mp hc with hc | hc
    · rcases List.mem_append.mp hc with hc | hc
      · exact ha c hc
      · exact hcleanup c hc
    · exact hb c hc

theorem building_createOne {p : PoolField} {kind : PoolKind} {width height capacity : Nat}
    {format : VkFormat} {a : PoolAnswers} :
    Building (createOne p kind width height format capacity a) := by
  intro c hc
  rw [List.mem_singleton.mp hc]
  trivial

theorem building_createBoth {kind : PoolKind} {t : Planes} {capacity : Nat} {y uv : PoolAnswers} :
    Building (createBoth kind t capacity y uv) :=
  building_andThen building_createOne building_createOne

/-- After success the pool is there. -/
def Fills (a : Script) (p : PoolField) : Prop :=
  a.2 = true → ∀ o : Outline, (a.1.foldl Outline.step o).pools p ≠ none

theorem fills_orElse {a b : Script} {cleanup : List Prim} {p : PoolField} (ha : Fills a p)
    (hb : Fills b p) : Fills (a.orElse cleanup b) p := by
  intro hok o
  unfold Script.orElse at hok ⊢
  split_ifs at hok ⊢ with hfirst
  · exact ha hfirst o
  · rw [List.foldl_append]
    exact hb hok _

theorem fills_andThen {a b : Script} {p : PoolField} (hb : Fills b p) : Fills (a.andThen b) p := by
  intro hok o
  obtain ⟨-, hbok, happend⟩ := andThen_ok hok
  rw [happend, List.foldl_append]
  exact hb hbok _

theorem fills_fail {cs : List Prim} {p : PoolField} : Fills (cs, false) p :=
  fun h => absurd h Bool.false_ne_true

theorem createOne_fills {p : PoolField} {kind : PoolKind} {width height capacity : Nat}
    {format : VkFormat} {a : PoolAnswers} (hcapacity : capacity ≠ 0) :
    Fills (createOne p kind width height format capacity a) p := by
  intro hok o
  have hsuffices : a.suffices kind format capacity = true := hok
  simp [createOne, Outline.step, createdShape, hsuffices, hcapacity]

theorem createBoth_fills {kind : PoolKind} {t : Planes} {capacity : Nat} {y uv : PoolAnswers}
    (hcapacity : capacity ≠ 0) (hplanes : t.yPool ≠ t.uvPool) :
    Fills (createBoth kind t capacity y uv) t.yPool := by
  intro hok o
  obtain ⟨hy, -, happend⟩ := andThen_ok hok
  have hsuffices : y.suffices kind t.yFormat capacity = true := hy
  rw [createBoth, happend, List.foldl_append]
  simp [createOne, Outline.step, createdShape, hsuffices, hcapacity, hplanes]

section LinearYuv
variable {layout : OutputLayout} {copyoutOnly sepEnv : Bool} {t : Planes} {capacity : Nat}
  {a : YuvAnswers}

theorem linearYuv_building :
    Building (outputPoolCreateLinearYuv layout copyoutOnly sepEnv t capacity a) := by
  have hzero : Building ([.zeroPool t.uvPool], true) := by
    intro c hc
    rw [List.mem_singleton.mp hc]
    trivial
  have hdestroy : ∀ c ∈ [Prim.destroyPool t.yPool], Builds c := by simp [Builds]
  have hdestroyBoth : ∀ c ∈ [Prim.destroyPool t.yPool, .destroyPool t.uvPool], Builds c := by
    simp [Builds]
  unfold outputPoolCreateLinearYuv
  refine building_andThen hzero ?_
  split_ifs
  all_goals
    repeat' first
      | exact building_fail
      | exact building_createOne
      | exact building_createBoth
      | exact hdestroy
      | exact hdestroyBoth
      | refine building_orElse ?_ ?_ ?_

theorem linearYuv_fills (hcapacity : capacity ≠ 0) (hplanes : t.yPool ≠ t.uvPool) :
    Fills (outputPoolCreateLinearYuv layout copyoutOnly sepEnv t capacity a) t.yPool := by
  unfold outputPoolCreateLinearYuv
  refine fills_andThen ?_
  split_ifs
  all_goals
    repeat' first
      | exact fills_fail
      | exact createOne_fills hcapacity
      | exact createBoth_fills hcapacity hplanes
      | refine fills_orElse ?_ ?_

end LinearYuv

/-! ### Reconfiguring -/

/-- Where the outputs of a format go; the second pool is empty if the first is contiguous. -/
def outputFields : Fmt → PoolField × Option PoolField
  | .nv12 => (.nv12Y, some .nv12Uv)
  | .nv21 => (.nv12Y, some .nv12Uv)
  | .p010 => (.p010Y, some .p010Uv)
  | .nv12Afbc => (.nv12Afbc, none)
  | .a2b10g10r10Afbc => (.a2b10g10r10Afbc, none)

/-- Some entry is not handed out. -/
def HasFree (pool : OutputPool) : Prop := ∃ e ∈ pool.entries, e.inUse = false

/-- A render into that format finds the entries it needs. -/
def FindsEntry (s : Ctx) (fmt : Fmt) : Prop :=
  HasFree (s.pools (outputFields fmt).1) ∧
    ∀ uv ∈ (outputFields fmt).2, (s.pools uv).entries ≠ [] → HasFree (s.pools uv)

/-- The context could be a new one: vfmcap_vk_init takes the arguments, and leaves pools and
    intermediate images of the same shapes and the same size behind; and the next render finds an
    entry. -/
structure LikeInit (a : SetupArgs) (t : Ctx) : Prop where
  accepted : (vfmcapVkInit a true true).2 = true
  same : ∃ u, run step (Ctx.fresh a.dstWidth a.dstHeight) (vfmcapVkInit a true true).1 = some u ∧
    outline t = outline u ∧ t.width = u.width ∧ t.height = u.height
  finds : FindsEntry t a.fmt

/-- No entry is handed out. -/
def Idle (s : Ctx) : Prop := ∀ p, ∀ e ∈ (s.pools p).entries, e.inUse = false

theorem idle_update {pools : PoolField → OutputPool} {p : PoolField} {pool : OutputPool}
    (h : ∀ q, ∀ e ∈ (pools q).entries, e.inUse = false)
    (hpool : ∀ e ∈ pool.entries, e.inUse = false) :
    ∀ q, ∀ e ∈ (Function.update pools p pool q).entries, e.inUse = false := by
  intro q
  by_cases hq : q = p
  · subst hq
    rwa [Function.update_self]
  · rw [Function.update_of_ne hq]
    exact h q

theorem createPool_idle (kind : PoolKind) (width height : Nat) (format : VkFormat) (capacity : Nat)
    (a : PoolAnswers) (d : Device) :
    ∀ e ∈ (createPool kind width height format capacity a d).2.1.entries, e.inUse = false := by
  obtain ⟨-, -, hidle⟩ := makeEntries_spec kind ((List.range capacity).map a.entry) d
  unfold createPool
  split_ifs
  · simp
  · rcases hmade : makeEntries kind.maker d ((List.range capacity).map a.entry) with ⟨d', es, _ | _⟩
    · simp
    · rw [hmade] at hidle
      exact hidle
  · simp [OutputPool.zero]

theorem step_idle (s : Ctx) (c : Prim) (t : Ctx) (h : Idle s) (hstep : step s c = some t) :
    Idle t := by
  cases c with
  | imageCacheGet fd k env =>
    obtain ⟨r, -, rfl⟩ := Option.map_eq_some_iff.mp hstep
    exact h
  | inputCacheGet fd size env =>
    obtain ⟨r, -, rfl⟩ := Option.map_eq_some_iff.mp hstep
    exact h
  | zeroPool p =>
    simp only [step] at hstep
    split_ifs at hstep
    cases hstep
    exact idle_update h (by simp [OutputPool.zero])
  | createPool p kind width height format capacity a =>
    simp only [step] at hstep
    split_ifs at hstep
    cases hstep
    exact idle_update h (createPool_idle kind width height format capacity a s.device)
  | destroyPool p =>
    cases hstep
    exact idle_update h (by simp [outputPoolDestroy])
  | forget =>
    cases hstep
    exact fun p e he => absurd he List.not_mem_nil
  | _ =>
    cases hstep
    exact h

/-- The outline of a context with nothing in it. -/
def Outline.empty : Outline := ⟨fun _ => none, none, none⟩

theorem outline_fresh (width height : Nat) : outline (Ctx.fresh width height) = Outline.empty := rfl

/-- What is destroyed first leaves nothing. -/
theorem emptying_outline (o : Outline) : emptying.foldl Outline.step o = Outline.empty := by
  simp only [emptying, PoolField.all, List.map_cons, List.map_nil, List.cons_append,
    List.nil_append, List.foldl_cons, List.foldl_nil, Outline.step, Outline.empty]
  congr 1
  funext p
  cases p <;> rfl

theorem idle_of_empty {s : Ctx} (h : outline s = Outline.empty) : Idle s := by
  intro p e he
  have hshape : (s.pools p).shape = none := congrFun (congrArg Outline.pools h) p
  rw [shape_eq_none.mp hshape] at he
  exact absurd he List.not_mem_nil

theorem createPredecode_building (a : SetupArgs) : Building (createPredecode a) := by
  refine building_andThen ?_ ?_
  · intro c hc
    rw [List.mem_singleton.mp hc]
    trivial
  · intro c hc
    rw [List.mem_singleton.mp hc]
    trivial

theorem initPools_building (a : SetupArgs) : Building (initPools a) := by
  unfold initPools
  cases a.fmt with
  | nv12 => exact linearYuv_building
  | nv21 => exact linearYuv_building
  | p010 => exact linearYuv_building
  | nv12Afbc => exact building_createOne
  | a2b10g10r10Afbc => exact building_createOne

theorem initPools_fills (a : SetupArgs) : Fills (initPools a) (outputFields a.fmt).1 := by
  have hcapacity : outputPoolCapacity ≠ 0 := by decide
  unfold initPools
  cases a.fmt with
  | nv12 => exact linearYuv_fills hcapacity PoolField.noConfusion
  | nv21 => exact linearYuv_fills hcapacity PoolField.noConfusion
  | p010 => exact linearYuv_fills hcapacity PoolField.noConfusion
  | nv12Afbc => exact createOne_fills hcapacity
  | a2b10g10r10Afbc => exact createOne_fills hcapacity

theorem reconfigPools_eq {a : SetupArgs} (h : a.fmt ≠ .a2b10g10r10Afbc) :
    reconfigPools a = initPools a := by
  unfold reconfigPools initPools
  cases hfmt : a.fmt with
  | a2b10g10r10Afbc => exact absurd hfmt h
  | _ => rfl

theorem predecode_pools (a : SetupArgs) (o : Outline) :
    ((createPredecode a).1.foldl Outline.step o).pools = o.pools := by
  unfold createPredecode Script.andThen
  split_ifs <;> rfl

/-- What a successful reconfiguration went through: an empty context, the pools, the intermediate
    images. -/
theorem reconfig_run {a : SetupArgs} {s t : Ctx} (hok : (vfmcapVkReconfigPools a).2 = true)
    (hrun : run step s (vfmcapVkReconfigPools a).1 = some t) :
    (reconfigPools a).2 = true ∧ (createPredecode a).2 = true ∧
      ∃ s₀ t₀, outline s₀ = Outline.empty ∧
        run step s₀ ((reconfigPools a).1 ++ (createPredecode a).1) = some t₀ ∧
        outline t = outline t₀ ∧ t.pools = t₀.pools ∧
        t.width = a.dstWidth ∧ t.height = a.dstHeight := by
  obtain ⟨-, hrest, happend⟩ := andThen_ok hok
  obtain ⟨hpools, hrest', happend'⟩ := andThen_ok hrest
  obtain ⟨hpredecode, -, happend''⟩ := andThen_ok hrest'
  rw [vfmcapVkReconfigPools, happend, happend', happend''] at hrun
  obtain ⟨s₀, hempty, hbuild⟩ := run_append_iff.mp hrun
  rw [← List.append_assoc] at hbuild
  obtain ⟨t₀, ht₀, hresize⟩ := run_append_iff.mp hbuild
  have hs₀ : outline s₀ = Outline.empty := (run_outline hempty).trans (emptying_outline _)
  cases hresize
  exact ⟨hpools, hpredecode, s₀, t₀, hs₀, ht₀, rfl, rfl, rfl, rfl⟩

/-- For the format it has no case for, a successful reconfiguration leaves no pool at all. -/
theorem reconfig_a2b10g10r10 {a : SetupArgs} {s t : Ctx} (hfmt : a.fmt = .a2b10g10r10Afbc)
    (hok : (vfmcapVkReconfigPools a).2 = true)
    (hrun : run step s (vfmcapVkReconfigPools a).1 = some t) (p : PoolField) :
    (t.pools p).entries = [] := by
  obtain ⟨-, -, s₀, t₀, hs₀, ht₀, hout, -, -, -⟩ := reconfig_run hok hrun
  have hnone : (reconfigPools a).1 = [] := by rw [reconfigPools, hfmt]
  rw [hnone, List.nil_append] at ht₀
  rw [run_outline ht₀, hs₀] at hout
  rw [← shape_eq_none]
  exact congrFun ((congrArg Outline.pools hout).trans (predecode_pools a _)) p

/-- A reconfiguration that succeeds has done what initialising anew would have done exactly if the
    dimensions are those initialising accepts and the format is not A2B10G10R10_AFBC. -/
theorem reconfig_like_init_iff {a : SetupArgs} {s t : Ctx}
    (hok : (vfmcapVkReconfigPools a).2 = true)
    (hrun : run step s (vfmcapVkReconfigPools a).1 = some t) :
    LikeInit a t ↔ a.fmt ≠ .a2b10g10r10Afbc ∧ acceptsDimensions a = true := by
  constructor
  · intro h
    constructor
    · intro hfmt
      obtain ⟨⟨e, he, -⟩, -⟩ := h.finds
      rw [reconfig_a2b10g10r10 hfmt hok hrun] at he
      exact absurd he List.not_mem_nil
    · have haccepts := (andThen_ok h.accepted).1
      rwa [Bool.and_true] at haccepts
  · rintro ⟨hfmt, hdims⟩
    obtain ⟨hpools, hpredecode, s₀, t₀, hs₀, ht₀, hout, hsame, hwidth, hheight⟩ :=
      reconfig_run hok hrun
    rw [reconfigPools_eq hfmt] at hpools ht₀
    have hinit : vfmcapVkInit a true true =
        ((initPools a).1 ++ (createPredecode a).1 ++ [.setInitialized], true) := by
      simp [vfmcapVkInit, Script.andThen, Script.orElse, hdims, hpools, hpredecode]
    have hbuilds : ∀ c ∈ (initPools a).1 ++ (createPredecode a).1, Builds c := by
      intro c hc
      rcases List.mem_append.mp hc with hc | hc
      · exact initPools_building a c hc
      · exact createPredecode_building a c hc
    obtain ⟨u, hu, huout, huwidth, huheight⟩ :=
      builds_run hbuilds ht₀ ((outline_fresh a.dstWidth a.dstHeight).trans hs₀.symm)
    have hidle : Idle t₀ := run_preserves step_idle ht₀ (idle_of_empty hs₀)
    have hfree : ∀ p, (t.pools p).entries ≠ [] → HasFree (t.pools p) := by
      intro p hp
      obtain ⟨e, he⟩ := List.exists_mem_of_ne_nil _ hp
      exact ⟨e, he, hidle p e (hsame ▸ he)⟩
    refine ⟨congrArg Prod.snd hinit, ⟨{ u with initialized := true, frameCount := 0 }, ?_, ?_, ?_, ?_⟩,
      hfree _ ?_, fun uv _ => hfree uv⟩
    · rw [hinit]
      exact run_append hu rfl
    · exact hout.trans huout.symm
    · exact hwidth.trans huwidth.symm
    · exact hheight.trans huheight.symm
    · rw [Ne, ← shape_eq_none]
      change (outline t).pools _ ≠ none
      rw [hout, run_outline ht₀, List.foldl_append, predecode_pools]
      exact initPools_fills a hpools _

theorem reconfig_like_init_nv12 : ∃ s t,
    run step (Ctx.fresh 1920 1080) (vfmcapVkInit (nv12Setup .auto) true true).1 = some s ∧
    run step s (vfmcapVkReconfigPools (nv12Setup .auto)).1 = some t ∧
    LikeInit (nv12Setup .auto) t :=
  ⟨_, _, rfl, rfl, (reconfig_like_init_iff rfl rfl).mpr ⟨by decide, by decide⟩⟩

/-- Reconfiguring to A2B10G10R10_AFBC reports success and leaves no pool to render into. -/
theorem reconfig_unlike_init : ¬ ∀ (a b : SetupArgs) (s t : Ctx),
    (vfmcapVkInit b true true).2 = true →
    run step (Ctx.fresh b.dstWidth b.dstHeight) (vfmcapVkInit b true true).1 = some s →
    (vfmcapVkReconfigPools a).2 = true → run step s (vfmcapVkReconfigPools a).1 = some t →
    LikeInit a t := by
  intro h
  let a : SetupArgs := { nv12Setup .auto with fmt := .a2b10g10r10Afbc }
  have hlike := h a (nv12Setup .auto) _ _ rfl rfl rfl rfl
  obtain ⟨⟨e, he, -⟩, -⟩ := hlike.finds
  exact absurd he List.not_mem_nil

end Streambox.Vulkan.PoolSetup
