import Streambox.Vulkan.OutputPools

/-! libvfmcap, vfmcap_vulkan.c: who owns an entry of the output pools.

    The law is that an entry of the current pools is marked exactly while one output that has not
    been released is in it. Two things break it. A release finds the entry by its descriptor number
    alone, so the release of an output from before a reconfiguration can hit an entry that got the
    same number since. And a render that fails at a call it only checks with VK_CHECK keeps its
    entries marked without ever returning them. Nothing else does. -/

namespace Streambox.Vulkan
open Streambox.Lib Streambox.Lib.SlotPool

variable {s t : State} {pools pools' : Pools} {e : Slot} {o : Output}

/-! ### The law -/

/-- The entry is marked. -/
def InUse (pools : Pools) (e : Slot) : Prop := Used (pools e.pool) e.index

instance : Decidable (InUse pools e) := inferInstanceAs (Decidable (Used _ _))

def Taken.slots (t : Taken) : List Slot := t.y :: t.uv.toList

/-- The entries of the current pools that unreleased outputs are in. -/
def State.live (s : State) : List Slot :=
  (s.outs.filter fun o => o.gen = s.gen).flatMap fun o => o.taken.slots

/-- Every entry of the current pools has at most one unreleased output, and is marked exactly if it
    has one. -/
structure Exclusive (s : State) : Prop where
  distinct : s.live.Nodup
  exact : ∀ e, InUse s.pools e ↔ e ∈ s.live

/-- The pools in which a release of the output looks for an entry, and the number it looks for. -/
def Output.returned (o : Output) : List (PoolId × Int) :=
  match planesOf o.fmt, afbcPoolOf o.fmt with
  | some (y, uv), _ => [(y, o.yFd), (uv, o.uvFd)]
  | none, some p => [(p, o.yFd)]
  | none, none => []

/-- The entry carries a number that the release of the output looks for. -/
def Output.hits (o : Output) (pools : Pools) (e : Slot) : Prop :=
  ∃ fd, (e.pool, fd) ∈ o.returned ∧ keyAt (pools e.pool) e.index = some fd

/-- The first failing call is one whose failure is only checked. -/
def strands (ok : VkCall → Bool) : Script → Bool
  | [] => false
  | (c, e) :: rest => if ok c then strands ok rest else e = .check

/-- The render does not get its entries, or does not fail at a call that it only checks. -/
def Careful (pools : Pools) (plan : Plan) (ok : VkCall → Bool) : Prop :=
  (acquireEntries pools plan.yPool plan.uvPool).2.isSome → strands ok plan.script = false

/-- A release is of an output of the current pools, or it hits no marked entry; a render is
    careful. -/
def Orderly (s : State) : Event → Prop
  | .render r ok => ∀ plan, planOf s.pools ok r = some plan → Careful s.pools plan ok
  | .poll => ∀ w, s.waiting = some w → Careful s.pools w.plan w.ok
  | .release pos => ∀ o, s.outs[pos]? = some o → o.gen ≠ s.gen →
      ∀ e, InUse s.pools e → ¬ o.hits s.pools e
  | .reconfig _ => True

/-! ### Taking entries -/

/-- The two pools have the same descriptors. -/
def SameKeys (pools pools' : Pools) : Prop := ∀ p i, keyAt (pools' p) i = keyAt (pools p) i

theorem hits_congr (h : SameKeys pools pools') : o.hits pools' e ↔ o.hits pools e := by
  rw [Output.hits, Output.hits, h]

/-- The entries were unmarked and are marked, and nothing else has changed. -/
structure Took (pools : Pools) (es : List Slot) (pools' : Pools) : Prop where
  fresh : ∀ e ∈ es, ¬ InUse pools e
  nodup : es.Nodup
  used : ∀ e, InUse pools' e ↔ e ∈ es ∨ InUse pools e
  keys : SameKeys pools pools'
  keyed : ∀ e ∈ es, ∃ fd, keyAt (pools e.pool) e.index = some fd

theorem outputPoolAcquire_none {p : PoolId} (h : outputPoolAcquire pools p = (pools', none)) :
    pools' = pools := by
  unfold outputPoolAcquire at h
  split at h
  · exact (Prod.mk.inj h).1.symm
  · cases h

theorem outputPoolAcquire_some {p : PoolId} (h : outputPoolAcquire pools p = (pools', some e)) :
    e.pool = p ∧ Took pools [e] pools' ∧ outputPoolRelease pools' (some e) = pools := by
  unfold outputPoolAcquire at h
  split at h
  · cases h
  · next i q hq =>
    obtain ⟨rfl, he⟩ := Prod.mk.inj h
    obtain rfl := Option.some_inj.mp he
    have hacq := acquire_spec hq
    refine ⟨rfl, ⟨?_, List.nodup_singleton _, ?_, ?_, ?_⟩, ?_⟩
    · simpa [InUse] using hacq.fresh
    · rintro ⟨p', j⟩
      rcases eq_or_ne p' p with rfl | hp
      · simpa [InUse] using hacq.used j
      · simp [InUse, hp]
    · intro p' j
      rcases eq_or_ne p' p with rfl | hp
      · simpa using hacq.key j
      · simp [hp]
    · simpa using hacq.keyed
    · rw [outputPoolRelease]
      simp only [Function.update_self, Function.update_idem, hacq.back, Function.update_eq_self]

theorem outputPoolRelease_comm {e e' : Slot} (h : e.pool ≠ e'.pool) :
    outputPoolRelease (outputPoolRelease pools (some e)) (some e')
      = outputPoolRelease (outputPoolRelease pools (some e')) (some e) := by
  simp only [outputPoolRelease, Function.update_of_ne h, Function.update_of_ne h.symm]
  exact Function.update_comm h _ _ _

theorem Took.cons {mid : Pools} {e' : Slot} (h : Took pools [e] mid) (h' : Took mid [e'] pools')
    (hne : e ≠ e') : Took pools [e, e'] pools' where
  fresh := by
    intro a ha
    rcases List.mem_cons.mp ha with rfl | ha
    · exact h.fresh _ (List.mem_singleton_self _)
    · exact fun hu => h'.fresh a ha ((h.used a).mpr (.inr hu))
  nodup := by simpa using hne
  used := by
    intro a
    rw [h'.used, h.used]
    simp only [List.mem_cons, List.not_mem_nil, or_false]
    rw [or_left_comm, or_assoc]
  keys := fun p i => (h'.keys p i).trans (h.keys p i)
  keyed := by
    intro a ha
    rcases List.mem_cons.mp ha with rfl | ha
    · exact h.keyed _ (List.mem_singleton_self _)
    · rw [← h.keys]
      exact h'.keyed a ha

/-- A render that does not get all its entries has changed nothing. -/
theorem acquireEntries_none {y : PoolId} {uv : Option PoolId}
    (h : acquireEntries pools y uv = (pools', none)) : pools' = pools := by
  rcases hy : outputPoolAcquire pools y with ⟨mid, _ | ey⟩
  · obtain rfl := outputPoolAcquire_none hy
    cases uv with
    | none =>
      simp only [acquireEntries, hy] at h
      exact (Prod.mk.inj h).1.symm
    | some uv =>
      rcases huv : outputPoolAcquire mid uv with ⟨last, _ | euv⟩
      · obtain rfl := outputPoolAcquire_none huv
        simp only [acquireEntries, hy, huv] at h
        exact (Prod.mk.inj h).1.symm
      · simp only [acquireEntries, hy, huv] at h
        rw [← (Prod.mk.inj h).1]
        exact (outputPoolAcquire_some huv).2.2
  · cases uv with
    | none =>
      simp only [acquireEntries, hy] at h
      cases (Prod.mk.inj h).2
    | some uv =>
      rcases huv : outputPoolAcquire mid uv with ⟨last, _ | euv⟩
      · obtain rfl := outputPoolAcquire_none huv
        simp only [acquireEntries, hy, huv] at h
        rw [← (Prod.mk.inj h).1]
        exact (outputPoolAcquire_some hy).2.2
      · simp only [acquireEntries, hy, huv] at h
        cases (Prod.mk.inj h).2

/-- A render that gets its entries has taken them from its pools, and can put them back. -/
theorem acquireEntries_some {y : PoolId} {uv : Option PoolId} {taken : Taken}
    (hne : uv ≠ some y) (h : acquireEntries pools y uv = (pools', some taken)) :
    taken.y.pool = y ∧ taken.uv.map Slot.pool = uv ∧ Took pools taken.slots pools' ∧
      releaseTaken pools' taken = pools := by
  rcases hy : outputPoolAcquire pools y with ⟨mid, _ | ey⟩
  · cases uv with
    | none =>
      simp only [acquireEntries, hy] at h
      cases (Prod.mk.inj h).2
    | some uv =>
      simp only [acquireEntries, hy] at h
      cases (Prod.mk.inj h).2
  · obtain ⟨rfl, htook, hback⟩ := outputPoolAcquire_some hy
    cases uv with
    | none =>
      simp only [acquireEntries, hy] at h
      obtain ⟨rfl, ht⟩ := Prod.mk.inj h
      obtain rfl := Option.some_inj.mp ht
      exact ⟨rfl, rfl, htook, hback⟩
    | some uv =>
      rcases huv : outputPoolAcquire mid uv with ⟨last, _ | euv⟩
      · simp only [acquireEntries, hy, huv] at h
        cases (Prod.mk.inj h).2
      · simp only [acquireEntries, hy, huv] at h
        obtain ⟨rfl, ht⟩ := Prod.mk.inj h
        obtain rfl := Option.some_inj.mp ht
        obtain ⟨rfl, htook', hback'⟩ := outputPoolAcquire_some huv
        have hpool : ey.pool ≠ euv.pool := fun heq => hne (congrArg some heq.symm)
        refine ⟨rfl, rfl, htook.cons htook' fun heq => hpool (congrArg Slot.pool heq), ?_⟩
        rw [releaseTaken, outputPoolRelease_comm hpool, hback', hback]

/-! ### What the calls do -/

/-- A script either goes through, or gives the entries back, or leaves them as they are: the last
    exactly if it strands them. -/
theorem perform_cases {ok : VkCall → Bool} {taken : Taken} : ∀ {script : Script},
    perform ok pools taken script = (pools, true) ∧ strands ok script = false ∨
      perform ok pools taken script = (releaseTaken pools taken, false) ∧
        strands ok script = false ∨
      perform ok pools taken script = (pools, false) ∧ strands ok script = true
  | [] => .inl ⟨rfl, rfl⟩
  | (c, e) :: rest => by
    cases hc : ok c with
    | true =>
      simp only [perform, strands, hc, if_true]
      exact perform_cases
    | false =>
      cases e with
      | release => exact .inr (.inl (by simp [perform, strands, hc]))
      | check => exact .inr (.inr (by simp [perform, strands, hc]))

/-- The pools of a plan are those of its format, and the UV pool is left out only where it is
    empty. -/
def Plan.Sane (plan : Plan) (pools : Pools) : Prop :=
  (∃ uv, planesOf plan.fmt = some (plan.yPool, uv) ∧
    (plan.uvPool = some uv ∨ plan.uvPool = none ∧ ∀ i, keyAt (pools uv) i = none)) ∨
  (afbcPoolOf plan.fmt = some plan.yPool ∧ plan.uvPool = none)

theorem Plan.Sane.congr {plan : Plan} (h : plan.Sane pools) (hk : SameKeys pools pools') :
    plan.Sane pools' := by
  rcases h with ⟨uv, hfmt, huv⟩ | h
  · refine .inl ⟨uv, hfmt, huv.imp_right fun ⟨hnone, hempty⟩ => ⟨hnone, fun i => ?_⟩⟩
    rw [hk, hempty]
  · exact .inr h

theorem planesOf_ne {fmt : Fmt} {y uv : PoolId} (h : planesOf fmt = some (y, uv)) : uv ≠ y := by
  cases fmt <;> cases h <;> decide

theorem Plan.Sane.ne {plan : Plan} (h : plan.Sane pools) : plan.uvPool ≠ some plan.yPool := by
  rcases h with ⟨uv, hfmt, huv | ⟨hnone, -⟩⟩ | ⟨-, hnone⟩
  · rw [huv]
    exact fun heq => planesOf_ne hfmt (Option.some_inj.mp heq)
  · rw [hnone]
    nofun
  · rw [hnone]
    nofun

theorem planesPlan_sane {fmt : Fmt} {contiguous : Bool} {script : Script} {plan : Plan}
    (h : planesPlan fmt contiguous script = some plan)
    (hc : contiguous = true → isContiguous pools fmt = true) : plan.Sane pools := by
  obtain ⟨⟨y, uv⟩, hfmt, rfl⟩ := Option.map_eq_some_iff.mp h
  refine .inl ⟨uv, hfmt, ?_⟩
  cases contiguous with
  | false => exact .inl rfl
  | true =>
    have hempty := hc rfl
    rw [isContiguous, hfmt] at hempty
    refine .inr ⟨rfl, fun i => ?_⟩
    rw [List.isEmpty_iff.mp hempty, keyAt_nil]

theorem afbcPlan_sane {fmt : Fmt} {script : Script} {plan : Plan}
    (h : afbcPlan fmt script = some plan) : plan.Sane pools := by
  obtain ⟨p, hp, rfl⟩ := Option.map_eq_some_iff.mp h
  exact .inr ⟨hp, rfl⟩

theorem planOf_sane {ok : VkCall → Bool} {r : Render} {plan : Plan}
    (h : planOf pools ok r = some plan) : plan.Sane pools := by
  cases r with
  | plain fmt =>
    rw [planOf, vfmcapVkRenderAndWait] at h
    split at h
    · next hc => exact planesPlan_sane h fun _ => hc
    · exact planesPlan_sane h nofun
  | afbcInput fmt headerOffset tableOffset =>
    rw [planOf, vfmcapVkRenderAfbcInputAndWait] at h
    split at h
    · cases h
    split at h
    · exact planesPlan_sane h nofun
    · cases h
  | predecode fmt =>
    rw [planOf, vfmcapVkRenderPredecodeAndWait] at h
    split at h
    · exact planesPlan_sane h nofun
    · cases h
  | tenBit fmt =>
    rw [planOf, vfmcapVkRender10bitAndWait] at h
    split at h
    · exact planesPlan_sane h id
    · cases h
  | afbcNv12 =>
    rw [planOf, vfmcapVkRenderAfbcNv12AndWait] at h
    exact afbcPlan_sane h
  | tenBitAfbcNv12 =>
    rw [planOf, vfmcapVkRender10bitAfbcNv12AndWait] at h
    exact afbcPlan_sane h
  | tenBitAfbcA2b10g10r10 =>
    rw [planOf, vfmcapVkRender10bitAfbcA2b10g10r10AndWait] at h
    exact afbcPlan_sane h

/-- The output a render returns for the entries it has taken. -/
def outputOf (s : State) (fmt : Fmt) (pools : Pools) (taken : Taken) : Output where
  gen := s.gen
  fmt := fmt
  taken := taken
  yFd := fdOf pools taken.y
  uvFd := (taken.uv.map (fdOf pools)).getD (-1)

/-- One attempt of a render: it comes away with nothing and leaves nothing behind, or it returns an
    output, or it strands the entries it took. -/
theorem attempt_cases {plan : Plan} {ok : VkCall → Bool} {polls : Nat} (hsane : plan.Sane s.pools) :
    (Careful s.pools plan ok ∧ ∃ waiting : Option Waiting, (∀ w ∈ waiting, w.plan = plan) ∧
      attempt s plan ok polls = { s with waiting }) ∨
    (∃ (pools : Pools) (taken : Taken), Careful s.pools plan ok ∧ Took s.pools taken.slots pools ∧
      taken.y.pool = plan.yPool ∧ taken.uv.map Slot.pool = plan.uvPool ∧
      attempt s plan ok polls = { s with
        pools, waiting := none, outs := s.outs ++ [outputOf s plan.fmt pools taken] }) ∨
    (∃ (pools : Pools) (taken : Taken), ¬ Careful s.pools plan ok ∧ Took s.pools taken.slots pools ∧
      attempt s plan ok polls = { s with pools, waiting := none }) := by
  rcases hacq : acquireEntries s.pools plan.yPool plan.uvPool with ⟨pools, _ | taken⟩
  · obtain rfl := acquireEntries_none hacq
    refine .inl ⟨fun hsome => ?_, if polls = 0 then none else some ⟨plan, ok, polls⟩, ?_, ?_⟩
    · rw [hacq] at hsome
      cases hsome
    · intro w hw
      split at hw
      · cases hw
      · rw [← Option.mem_some_iff.mp hw]
    · simp only [attempt, hacq]
  · obtain ⟨hy, huv, htook, hback⟩ := acquireEntries_some hsane.ne hacq
    have hcareful : Careful s.pools plan ok ↔ strands ok plan.script = false := by
      rw [Careful, hacq]
      exact ⟨fun h => h rfl, fun h _ => h⟩
    rcases @perform_cases pools ok taken plan.script with ⟨hp, hst⟩ | ⟨hp, hst⟩ | ⟨hp, hst⟩
    · refine .inr (.inl ⟨pools, taken, hcareful.mpr hst, htook, hy, huv, ?_⟩)
      simp only [attempt, hacq, finish, hp, outputOf]
      cases taken.uv <;> rfl
    · refine .inl ⟨hcareful.mpr hst, none, nofun, ?_⟩
      simp only [attempt, hacq, finish, hp, hback]
    · refine .inr (.inr ⟨pools, taken, ?_, htook, ?_⟩)
      · rw [hcareful, hst]
        nofun
      · simp only [attempt, hacq, finish, hp]

/-! ### What a release does -/

/-- Look for a number in one pool. -/
def releaseAt (pools : Pools) (r : PoolId × Int) : Pools :=
  Function.update pools r.1 (releaseBy r.2 (pools r.1))

theorem releaseFrame_eq : releaseFrame pools o = o.returned.foldl releaseAt pools := by
  rcases o with ⟨gen, fmt, taken, yFd, uvFd⟩
  cases fmt <;> rfl

theorem sameKeys_releaseAt (r : PoolId × Int) : SameKeys pools (releaseAt pools r) := by
  intro p i
  rcases eq_or_ne p r.1 with rfl | hp
  · simp [releaseAt, keyAt_releaseBy]
  · simp [releaseAt, hp]

theorem inUse_releaseAt {p : PoolId} {fd : Int} (hk : Keyed (pools p)) :
    InUse (releaseAt pools (p, fd)) e ↔
      InUse pools e ∧ ¬ (e.pool = p ∧ keyAt (pools e.pool) e.index = some fd) := by
  rcases e with ⟨p', i⟩
  rcases eq_or_ne p' p with rfl | hp
  · simpa [InUse, releaseAt] using used_releaseBy hk
  · simp [InUse, releaseAt, hp]

theorem SameKeys.trans {mid : Pools} (h : SameKeys pools mid) (h' : SameKeys mid pools') :
    SameKeys pools pools' := fun p i => (h' p i).trans (h p i)

theorem SameKeys.keyed (h : SameKeys pools pools') (hk : ∀ p, Keyed (pools p)) (p : PoolId) :
    Keyed (pools' p) := (hk p).congr (h p)

theorem sameKeys_foldl : ∀ {rs : List (PoolId × Int)} {pools : Pools},
    SameKeys pools (rs.foldl releaseAt pools)
  | [], _ => fun _ _ => rfl
  | r :: _, _ => (sameKeys_releaseAt r).trans sameKeys_foldl

theorem inUse_foldl : ∀ {rs : List (PoolId × Int)} {pools : Pools}, (∀ p, Keyed (pools p)) →
    (InUse (rs.foldl releaseAt pools) e ↔
      InUse pools e ∧ ¬ ∃ fd, (e.pool, fd) ∈ rs ∧ keyAt (pools e.pool) e.index = some fd)
  | [], _, _ => by simp
  | (p, fd) :: rs, pools, hk => by
    have hsame := @sameKeys_releaseAt pools (p, fd)
    rw [List.foldl_cons, inUse_foldl (hsame.keyed hk), inUse_releaseAt (hk p), hsame, and_assoc,
      ← not_or]
    refine and_congr_right fun _ => not_congr ?_
    constructor
    · rintro (⟨rfl, hkey⟩ | ⟨fd', hmem, hkey⟩)
      · exact ⟨fd, List.mem_cons_self, hkey⟩
      · exact ⟨fd', List.mem_cons_of_mem _ hmem, hkey⟩
    · rintro ⟨fd', hmem, hkey⟩
      rcases List.mem_cons.mp hmem with heq | hmem
      · obtain ⟨hp, rfl⟩ := Prod.mk.inj heq
        exact .inl ⟨hp, hkey⟩
      · exact .inr ⟨fd', hmem, hkey⟩

theorem sameKeys_releaseFrame : SameKeys pools (releaseFrame pools o) := by
  rw [releaseFrame_eq]
  exact sameKeys_foldl

/-- With distinct descriptors in each pool, a release unmarks what it hits. -/
theorem inUse_releaseFrame (hk : ∀ p, Keyed (pools p)) :
    InUse (releaseFrame pools o) e ↔ InUse pools e ∧ ¬ o.hits pools e := by
  rw [releaseFrame_eq]
  exact inUse_foldl hk

/-! ### New pools -/

/-- No entry is handed out, and no two entries share a descriptor. -/
def Unused (pool : Pool) : Prop := Keyed pool ∧ ∀ i, ¬ Used pool i

theorem unused_nil : Unused [] := ⟨keyed_nil, fun _ => not_used_nil⟩

/-- The kernel gives each entry a descriptor that no entry before it has. -/
theorem createEntries_unused {entry : Nat → Option (List Nat)} :
    ∀ {n i : Nat} {held : List Int} {pool : Pool}, createEntries entry held i n = some pool →
      Unused pool ∧ ∀ j, ∀ fd ∈ held, keyAt pool j ≠ some fd
  | 0, i, held, pool, h => by
    obtain rfl := Option.some_inj.mp h
    exact ⟨unused_nil, fun _ _ _ => nofun⟩
  | n + 1, i, held, pool, h => by
    rw [createEntries] at h
    split at h
    · cases h
    · next others _ =>
      obtain ⟨rest, hrest, rfl⟩ := Option.map_eq_some_iff.mp h
      obtain ⟨⟨hkeyed, hunused⟩, hnew⟩ := createEntries_unused hrest
      have hfree := lowestFree_notMem (others ++ held.map Int.toNat)
      refine ⟨⟨keyed_cons hkeyed fun j => hnew j _ List.mem_cons_self, ?_⟩, ?_⟩
      · rintro (_ | j)
        · simp
        · simpa using hunused j
      · rintro (_ | j) fd hfd
        · rintro ⟨⟩
          exact hfree (List.mem_append_right _ (List.mem_map.mpr ⟨_, hfd, Int.toNat_natCast _⟩))
        · exact hnew j fd (List.mem_cons_of_mem _ hfd)

theorem createPool_unused {held : List Int} {a : PoolAnswers} {capacity : Nat} {pool : Pool}
    (h : createPool held a capacity = some pool) : Unused pool := by
  unfold createPool at h
  split at h
  · exact (createEntries_unused h).1
  · cases h

theorem bothPlanes_unused {capacity : Nat} {ya uva : PoolAnswers} {y uv : Pool}
    (h : bothPlanes createPool capacity ya uva = some (y, uv)) : Unused y ∧ Unused uv := by
  obtain ⟨y', hy, h⟩ := Option.bind_eq_some_iff.mp h
  obtain ⟨uv', huv, heq⟩ := Option.map_eq_some_iff.mp h
  obtain ⟨rfl, rfl⟩ := Prod.mk.inj heq
  exact ⟨createPool_unused hy, createPool_unused huv⟩

theorem copyoutPlanes_unused {singleOnly : Bool} {capacity : Nat} {a : YuvAnswers} {y uv : Pool}
    (h : copyoutPlanes singleOnly capacity a = some (y, uv)) : Unused y ∧ Unused uv := by
  unfold copyoutPlanes at h
  split at h
  · cases h
  · exact bothPlanes_unused h

theorem separatePlanes_unused {copyoutOnly separateOnly singleOnly : Bool} {capacity : Nat}
    {a : YuvAnswers} {y uv : Pool}
    (h : separatePlanes copyoutOnly separateOnly singleOnly capacity a = some (y, uv)) :
    Unused y ∧ Unused uv := by
  unfold separatePlanes at h
  split at h
  · exact copyoutPlanes_unused h
  split at h
  · next r hr =>
    obtain rfl := Option.some_inj.mp h
    exact bothPlanes_unused hr
  split at h
  · cases h
  · exact copyoutPlanes_unused h

theorem outputPoolCreateLinearYuv_unused {layout : OutputLayout} {copyoutOnly sepEnv : Bool}
    {capacity : Nat} {a : YuvAnswers} {y uv : Pool}
    (h : outputPoolCreateLinearYuv layout copyoutOnly sepEnv capacity a = some (y, uv)) :
    Unused y ∧ Unused uv := by
  unfold outputPoolCreateLinearYuv at h
  simp only at h
  split at h
  · split at h
    · next pool hpool =>
      obtain ⟨rfl, rfl⟩ := Prod.mk.inj (Option.some_inj.mp h)
      exact ⟨createPool_unused hpool, unused_nil⟩
    · split at h
      · cases h
      · exact separatePlanes_unused h
  · exact separatePlanes_unused h

theorem planePools_unused {y uv : PoolId} {created : Option (Pool × Pool)}
    (hcreated : ∀ r, created = some r → Unused r.1 ∧ Unused r.2)
    (h : planePools y uv created = some pools) (p : PoolId) : Unused (pools p) := by
  obtain ⟨r, hr, rfl⟩ := Option.map_eq_some_iff.mp h
  rcases eq_or_ne p uv with rfl | huv
  · rw [Function.update_self]
    exact (hcreated r hr).2
  rw [Function.update_of_ne huv]
  rcases eq_or_ne p y with rfl | hy
  · rw [Function.update_self]
    exact (hcreated r hr).1
  · rw [Function.update_of_ne hy]
    exact unused_nil

theorem afbcPools_unused {id : PoolId} {held : List Int} {a : PoolAnswers} {capacity : Nat}
    (h : afbcPools id (createPool held a capacity) = some pools) (p : PoolId) :
    Unused (pools p) := by
  obtain ⟨pool, hpool, rfl⟩ := Option.map_eq_some_iff.mp h
  rcases eq_or_ne p id with rfl | hp
  · rw [Function.update_self]
    exact createPool_unused hpool
  · rw [Function.update_of_ne hp]
    exact unused_nil

theorem vfmcapVkInit_unused {a : Setup} (h : vfmcapVkInit a = some pools) (p : PoolId) :
    Unused (pools p) := by
  unfold vfmcapVkInit at h
  split at h
  · exact planePools_unused (fun _ => outputPoolCreateLinearYuv_unused) h p
  · exact planePools_unused (fun _ => outputPoolCreateLinearYuv_unused) h p
  · exact afbcPools_unused h p
  · exact afbcPools_unused h p
  · exact planePools_unused (fun _ => outputPoolCreateLinearYuv_unused) h p

theorem vfmcapVkReconfigPools_unused (a : Setup) (p : PoolId) :
    Unused ((vfmcapVkReconfigPools a).1 p) := by
  unfold vfmcapVkReconfigPools
  simp only
  split
  · exact unused_nil
  · next pools h =>
    split at h
    · exact planePools_unused (fun _ => outputPoolCreateLinearYuv_unused) h p
    · exact planePools_unused (fun _ => outputPoolCreateLinearYuv_unused) h p
    · exact afbcPools_unused h p
    · exact planePools_unused (fun _ => outputPoolCreateLinearYuv_unused) h p
    · obtain rfl := Option.some_inj.mp h
      exact unused_nil

/-! ### What holds in every state -/

/-- Descriptors are distinct within a pool, and the release of an output of the current pools hits
    the entries of that output. -/
structure Sound (s : State) : Prop where
  keyed : ∀ p, Keyed (s.pools p)
  past : ∀ o ∈ s.outs, o.gen ≤ s.gen
  fits : ∀ o ∈ s.outs, o.gen = s.gen → ∀ e, e ∈ o.taken.slots ↔ o.hits s.pools e
  sane : ∀ w ∈ s.waiting, w.plan.Sane s.pools

theorem fdOf_eq {fd : Int} (h : keyAt (pools e.pool) e.index = some fd) : fdOf pools e = fd := by
  rw [fdOf, h, Option.getD_some]

/-- A slot of a pool with distinct descriptors is found again by its number. -/
theorem slot_eq_iff (hk : ∀ p, Keyed (pools p)) {e' : Slot} {fd : Int}
    (he : keyAt (pools e.pool) e.index = some fd) :
    e' = e ↔ e'.pool = e.pool ∧ keyAt (pools e'.pool) e'.index = some fd := by
  constructor
  · rintro rfl
    exact ⟨rfl, he⟩
  · rcases e with ⟨p, i⟩
    rcases e' with ⟨p', i'⟩
    rintro ⟨rfl, he'⟩
    exact congrArg (Slot.mk p') (hk p' i' i fd he' he)

theorem hits_planes {y uv : PoolId} (h : planesOf o.fmt = some (y, uv)) :
    o.hits pools e ↔ (e.pool = y ∧ keyAt (pools e.pool) e.index = some o.yFd) ∨
      (e.pool = uv ∧ keyAt (pools e.pool) e.index = some o.uvFd) := by
  simp only [Output.hits, Output.returned, h, List.mem_cons, List.not_mem_nil, or_false,
    Prod.mk.injEq, or_and_right, exists_or, and_assoc]
  simp

theorem hits_afbc {p : PoolId} (h : afbcPoolOf o.fmt = some p) :
    o.hits pools e ↔ e.pool = p ∧ keyAt (pools e.pool) e.index = some o.yFd := by
  have hlin : planesOf o.fmt = none := by
    cases hfmt : o.fmt <;> rw [hfmt] at h <;> first | rfl | cases h
  simp only [Output.hits, Output.returned, hlin, h, List.mem_singleton, Prod.mk.injEq, and_assoc]
  simp

/-- The numbers a render returns are those its release will look for. -/
theorem outputOf_fits {plan : Plan} {taken : Taken} (hk : ∀ p, Keyed (pools p))
    (hsane : plan.Sane pools) (hy : taken.y.pool = plan.yPool)
    (huv : taken.uv.map Slot.pool = plan.uvPool)
    (hkeys : ∀ e ∈ taken.slots, ∃ fd, keyAt (pools e.pool) e.index = some fd) (e : Slot) :
    e ∈ taken.slots ↔ (outputOf s plan.fmt pools taken).hits pools e := by
  obtain ⟨fd, hfd⟩ := hkeys taken.y List.mem_cons_self
  have hyfd : (outputOf s plan.fmt pools taken).yFd = fd := fdOf_eq hfd
  have hyiff := @slot_eq_iff pools taken.y hk e fd hfd
  rw [hy] at hyiff
  rcases hsane with ⟨uv, hfmt, hcase⟩ | ⟨hfmt, hnone⟩
  · rw [hits_planes hfmt, hyfd, ← hyiff, Taken.slots, List.mem_cons]
    refine or_congr_right ?_
    cases htuv : taken.uv with
    | none =>
      rw [htuv] at huv
      rcases hcase with hsome | ⟨-, hempty⟩
      · exact absurd (huv.trans hsome) nofun
      · refine ⟨nofun, ?_⟩
        rintro ⟨rfl, hkey⟩
        rw [hempty] at hkey
        cases hkey
    | some euv =>
      rw [htuv] at huv
      rcases hcase with hsome | ⟨hnone, -⟩
      · obtain ⟨fd', hfd'⟩ := hkeys euv (by rw [Taken.slots, htuv]; simp)
        have huvfd : (outputOf s plan.fmt pools taken).uvFd = fd' := by
          simp only [outputOf, htuv, Option.map_some, Option.getD_some, fdOf_eq hfd']
        have hpool : euv.pool = uv := Option.some_inj.mp (huv.trans hsome)
        rw [huvfd, ← hpool, ← slot_eq_iff hk hfd']
        simp
      · exact absurd (huv.trans hnone) nofun
  · have htuv : taken.uv = none := Option.map_eq_none_iff.mp (huv.trans hnone)
    rw [hits_afbc hfmt, hyfd, ← hyiff, Taken.slots, htuv]
    simp

theorem opened_sound {a : Setup} (h : opened a = some s) : Sound s := by
  obtain ⟨pools, hinit, rfl⟩ := Option.map_eq_some_iff.mp h
  refine ⟨fun p => (vfmcapVkInit_unused hinit p).1, ?_, ?_, ?_⟩
  · exact fun o ho => absurd ho List.not_mem_nil
  · exact fun o ho => absurd ho List.not_mem_nil
  · exact fun w hw => absurd hw (Option.not_mem_none w)

theorem opened_exclusive {a : Setup} (h : opened a = some s) : Exclusive s := by
  obtain ⟨pools, hinit, rfl⟩ := Option.map_eq_some_iff.mp h
  refine ⟨List.nodup_nil, fun e => ⟨fun hu => ?_, nofun⟩⟩
  exact absurd hu ((vfmcapVkInit_unused hinit e.pool).2 _)

/-- Marking or unmarking entries changes nothing here. -/
theorem Sound.marks {pools' : Pools} (h : Sound s) (hk : SameKeys s.pools pools') :
    Sound { s with pools := pools' } where
  keyed := hk.keyed h.keyed
  past := h.past
  fits := fun o ho hgen e => (h.fits o ho hgen e).trans (hits_congr hk).symm
  sane := fun w hw => (h.sane w hw).congr hk

theorem Sound.attempt {plan : Plan} {ok : VkCall → Bool} {polls : Nat} (h : Sound s)
    (hsane : plan.Sane s.pools) : Sound (attempt s plan ok polls) := by
  rcases @attempt_cases s plan ok polls hsane with
    ⟨-, waiting, hw, hatt⟩ | ⟨pools, taken, -, htook, hy, huv, hatt⟩ | ⟨pools, taken, -, htook, hatt⟩
  · rw [hatt]
    refine ⟨h.keyed, h.past, h.fits, fun w hmem => ?_⟩
    rw [hw w hmem]
    exact hsane
  · rw [hatt]
    have hmarks := h.marks htook.keys
    refine ⟨hmarks.keyed, ?_, ?_, nofun⟩
    · intro o ho
      rcases List.mem_append.mp ho with ho | ho
      · exact h.past o ho
      · rw [List.mem_singleton.mp ho]
        exact le_rfl
    · intro o ho hgen
      rcases List.mem_append.mp ho with ho | ho
      · exact hmarks.fits o ho hgen
      · rw [List.mem_singleton.mp ho]
        refine outputOf_fits hmarks.keyed (hsane.congr htook.keys) hy huv fun e he => ?_
        rw [htook.keys]
        exact htook.keyed e he
  · rw [hatt]
    have hmarks := h.marks htook.keys
    exact ⟨hmarks.keyed, hmarks.past, hmarks.fits, nofun⟩

theorem Sound.step {ev : Event} (h : Sound s) (hs : step s ev = some t) : Sound t := by
  cases ev with
  | render r ok =>
    simp only [Vulkan.step] at hs
    split at hs
    · cases hs
    split at hs
    · obtain rfl := Option.some_inj.mp hs
      exact h
    · next plan hplan =>
      obtain rfl := Option.some_inj.mp hs
      exact h.attempt (planOf_sane hplan)
  | poll =>
    simp only [Vulkan.step] at hs
    split at hs
    · cases hs
    · next w hw =>
      obtain rfl := Option.some_inj.mp hs
      exact h.attempt (h.sane w hw)
  | release pos =>
    obtain ⟨o, ho, rfl⟩ := Option.map_eq_some_iff.mp hs
    have hmarks := h.marks (@sameKeys_releaseFrame s.pools o)
    refine ⟨hmarks.keyed, ?_, ?_, hmarks.sane⟩
    · exact fun o ho => h.past o (List.mem_of_mem_eraseIdx ho)
    · exact fun o ho => hmarks.fits o (List.mem_of_mem_eraseIdx ho)
  | reconfig a =>
    simp only [Vulkan.step] at hs
    split at hs
    · cases hs
    · next hw =>
      obtain rfl := Option.some_inj.mp hs
      refine ⟨fun p => (vfmcapVkReconfigPools_unused a p).1, ?_, ?_, ?_⟩
      · exact fun o ho => Nat.le_succ_of_le (h.past o ho)
      · intro o ho hgen
        exact absurd (hgen ▸ h.past o ho) (Nat.not_succ_le_self _)
      · rw [hw]
        nofun

/-! ### One event -/

/-- A render keeps the law exactly if it is careful. -/
theorem attempt_exclusive_iff {plan : Plan} {ok : VkCall → Bool} {polls : Nat} (h : Exclusive s)
    (hsane : plan.Sane s.pools) :
    Exclusive (attempt s plan ok polls) ↔ Careful s.pools plan ok := by
  rcases @attempt_cases s plan ok polls hsane with
    ⟨hcareful, waiting, -, hatt⟩ | ⟨pools, taken, hcareful, htook, -, -, hatt⟩ |
    ⟨pools, taken, hcareful, htook, hatt⟩
  · rw [hatt]
    exact ⟨fun _ => hcareful, fun _ => ⟨h.distinct, h.exact⟩⟩
  · rw [hatt]
    refine ⟨fun _ => hcareful, fun _ => ?_⟩
    have hlive : State.live { s with
        pools, waiting := none, outs := s.outs ++ [outputOf s plan.fmt pools taken] }
          = s.live ++ taken.slots := by
      simp [State.live, outputOf]
    refine ⟨?_, fun e => ?_⟩
    · rw [hlive]
      refine h.distinct.append htook.nodup fun e hlive he => ?_
      exact htook.fresh e he ((h.exact e).mpr hlive)
    · rw [hlive, htook.used, h.exact, List.mem_append, or_comm]
  · -- the first entry stays marked and belongs to no output
    refine ⟨fun hex => ?_, fun hc => absurd hc hcareful⟩
    rw [hatt] at hex
    have hmem : taken.y ∈ taken.slots := List.mem_cons_self
    have hlive : taken.y ∈ s.live := (hex.exact taken.y).mp ((htook.used _).mpr (.inl hmem))
    exact absurd ((h.exact _).mpr hlive) (htook.fresh _ hmem)

/-- The entries in use, apart from those of the output that is released. -/
theorem live_perm {pos : Nat} (ho : s.outs[pos]? = some o) {pools : Pools} :
    s.live.Perm ((if o.gen = s.gen then o.taken.slots else []) ++
      State.live { s with pools, outs := s.outs.eraseIdx pos }) := by
  obtain ⟨hlt, rfl⟩ := List.getElem?_eq_some_iff.mp ho
  have hperm := ((List.getElem_cons_eraseIdx_perm hlt).symm.filter
    fun o => o.gen = s.gen).flatMap_right fun o => o.taken.slots
  refine hperm.trans (List.Perm.of_eq ?_)
  rw [List.filter_cons]
  split
  · next hgen => simp [State.live, of_decide_eq_true hgen]
  · next hgen =>
    have hne : ¬ (s.outs[pos]).gen = s.gen := by simpa using hgen
    simp [State.live, hne]

/-- A release keeps the law exactly if it is of an output of the current pools or hits no marked
    entry. -/
theorem release_exclusive_iff {pos : Nat} (h : Exclusive s) (hsound : Sound s)
    (ho : s.outs[pos]? = some o) :
    Exclusive { s with pools := releaseFrame s.pools o, outs := s.outs.eraseIdx pos } ↔
      (o.gen ≠ s.gen → ∀ e, InUse s.pools e → ¬ o.hits s.pools e) := by
  have hperm := @live_perm s o pos ho (releaseFrame s.pools o)
  have hnodup := hperm.nodup_iff.mp h.distinct
  have hused : ∀ e, InUse (releaseFrame s.pools o) e ↔ e ∈ s.live ∧ ¬ o.hits s.pools e := by
    intro e
    rw [inUse_releaseFrame hsound.keyed, h.exact]
  rcases eq_or_ne o.gen s.gen with hgen | hgen
  · refine ⟨fun _ hne => absurd hgen hne, fun _ => ?_⟩
    rw [if_pos hgen] at hperm hnodup
    refine ⟨(List.nodup_append.mp hnodup).2.1, fun e => ?_⟩
    rw [hused, hperm.mem_iff, List.mem_append, ← hsound.fits o (List.mem_of_getElem? ho) hgen]
    constructor
    · rintro ⟨he | he, hne⟩
      · exact absurd he hne
      · exact he
    · exact fun he => ⟨.inr he, fun he' => (List.nodup_append.mp hnodup).2.2 e he' e he rfl⟩
  · rw [if_neg hgen, List.nil_append] at hperm hnodup
    constructor
    · intro hex _ e hin
      have hlive := hperm.mem_iff.mp ((h.exact e).mp hin)
      exact ((hused e).mp ((hex.exact e).mpr hlive)).2
    · intro hmiss
      refine ⟨hnodup, fun e => ?_⟩
      rw [hused, hperm.mem_iff]
      refine and_iff_left_of_imp fun he => hmiss hgen e ((h.exact e).mpr ?_)
      exact hperm.mem_iff.mpr he

/-- Nothing is out of the new pools. -/
theorem reconfig_exclusive {a : Setup} (hsound : Sound s) :
    Exclusive { s with pools := (vfmcapVkReconfigPools a).1, gen := s.gen + 1 } := by
  have hlive :
      State.live { s with pools := (vfmcapVkReconfigPools a).1, gen := s.gen + 1 } = [] := by
    rw [State.live, List.flatMap_eq_nil_iff]
    intro o ho
    obtain ⟨ho, hgen⟩ := List.mem_filter.mp ho
    exact absurd (of_decide_eq_true hgen ▸ hsound.past o ho) (Nat.not_succ_le_self _)
  refine ⟨hlive ▸ List.nodup_nil, fun e => ?_⟩
  rw [hlive]
  exact ⟨fun hu => absurd hu ((vfmcapVkReconfigPools_unused a e.pool).2 _), nofun⟩

theorem step_exclusive_iff {ev : Event} (hsound : Sound s) (h : Exclusive s)
    (hs : step s ev = some t) : Exclusive t ↔ Orderly s ev := by
  cases ev with
  | render r ok =>
    simp only [Vulkan.step] at hs
    split at hs
    · cases hs
    split at hs
    · next hplan =>
      obtain rfl := Option.some_inj.mp hs
      refine ⟨fun _ plan hsome => ?_, fun _ => h⟩
      exact absurd (hplan.symm.trans hsome) nofun
    · next plan hplan =>
      obtain rfl := Option.some_inj.mp hs
      rw [attempt_exclusive_iff h (planOf_sane hplan)]
      refine ⟨fun hc plan' hplan' => ?_, fun hall => hall plan hplan⟩
      exact Option.some_inj.mp (hplan.symm.trans hplan') ▸ hc
  | poll =>
    simp only [Vulkan.step] at hs
    split at hs
    · cases hs
    · next w hw =>
      obtain rfl := Option.some_inj.mp hs
      rw [attempt_exclusive_iff h (hsound.sane w hw)]
      refine ⟨fun hc w' hw' => ?_, fun hall => hall w hw⟩
      exact Option.some_inj.mp (hw.symm.trans hw') ▸ hc
  | release pos =>
    obtain ⟨o, ho, rfl⟩ := Option.map_eq_some_iff.mp hs
    rw [release_exclusive_iff h hsound ho]
    refine ⟨fun hrel o' ho' => ?_, fun hall => hall o ho⟩
    exact Option.some_inj.mp (ho.symm.trans ho') ▸ hrel
  | reconfig a =>
    simp only [Vulkan.step] at hs
    split at hs
    · cases hs
    · obtain rfl := Option.some_inj.mp hs
      exact ⟨fun _ => trivial, fun _ => reconfig_exclusive hsound⟩

/-! ### Runs -/

/-- For every interleaving of renders, releases and reconfigurations: the law holds in every state
    of the run exactly if no release of an output from before a reconfiguration hits a marked entry,
    and no render that has its entries fails at a call that it only checks. -/
theorem exclusive_iff_orderly {a : Setup} {start : State} {events : List Event}
    (hopen : opened a = some start) (hrun : run step start events = some s) :
    (∀ pre t, pre <+: events → run step start pre = some t → Exclusive t) ↔
      Along step Orderly start events :=
  prefixes_iff_along (fun _ _ _ h => h.step) (fun _ _ _ => step_exclusive_iff) hrun
    (opened_sound hopen) (opened_exclusive hopen)

/-- Every call succeeds. 0, 1, 2 and the heap device are open when a DMA-buf is allocated. -/
def plainPool : PoolAnswers := ⟨true, fun _ => some [0, 1, 2, 3]⟩

/-- NV12 output in contiguous DMA-bufs. -/
def plainSetup : Setup where
  fmt := .nv12
  layout := .auto
  p010CopyoutEnv := false
  p010SeparateEnv := false
  nv12SeparateEnv := false
  yuv := ⟨plainPool, plainPool, plainPool, plainPool, plainPool⟩
  afbc := plainPool
  predecode := true

def renderNv12 : Event := .render (.plain .nv12) fun _ => true

/-- The second output outlives its pool, and is released before anything is rendered to the new
    one. -/
def patientEvents : List Event :=
  [renderNv12, renderNv12, .release 0, .reconfig plainSetup, .release 0, renderNv12]

theorem exclusive_patientEvents : ∃ start s, opened plainSetup = some start ∧
    run step start patientEvents = some s ∧
      ∀ pre t, pre <+: patientEvents → run step start pre = some t → Exclusive t := by
  have h := exclusive_iff_orderly (show opened plainSetup = some _ from rfl)
    (show run step _ patientEvents = some _ from rfl)
  refine ⟨_, _, rfl, rfl, h.mpr ?_⟩
  have hcareful : ∀ s, Orderly s renderNv12 := by
    intro s plan hplan _
    simp only [planOf, vfmcapVkRenderAndWait] at hplan
    split at hplan
    · cases hplan
      rfl
    · cases hplan
      rfl
  refine ⟨hcareful _, ?_⟩
  rintro _ ⟨⟩
  refine ⟨hcareful _, ?_⟩
  rintro _ ⟨⟩
  refine ⟨fun o ho hgen => ?_, ?_⟩
  · cases ho
    exact absurd rfl hgen
  rintro _ ⟨⟩
  refine ⟨trivial, ?_⟩
  rintro _ ⟨⟩
  refine ⟨fun o _ _ e hin => ?_, ?_⟩
  · exact absurd hin ((vfmcapVkReconfigPools_unused plainSetup e.pool).2 _)
  rintro _ ⟨⟩
  exact ⟨hcareful _, fun _ _ => trivial⟩

/-- The first output outlives its pool, and is released while an output of the new pool is out. -/
def staleEvents : List Event :=
  [renderNv12, .reconfig plainSetup, renderNv12, .release 0, renderNv12]

/-- Both outputs that are out at the end were rendered to entry 0 of the current pool. -/
theorem stale_release_shares_entry : ∃ start s, opened plainSetup = some start ∧
    run step start staleEvents = some s ∧
      s.outs.map (fun o => (o.gen, o.taken.slots)) =
        [(s.gen, [⟨.nv12Y, 0⟩]), (s.gen, [⟨.nv12Y, 0⟩])] ∧
      ¬ ∀ pre t, pre <+: staleEvents → run step start pre = some t → Exclusive t := by
  refine ⟨_, _, rfl, rfl, rfl, fun h => ?_⟩
  have hex := h staleEvents _ (List.prefix_refl _) rfl
  exact absurd hex.distinct (by decide)

-- a render that fails at vkResetCommandPool leaves entry 0 marked and returns nothing
example : ((opened plainSetup).bind fun s =>
      step s (.render (.plain .nv12) fun c => c ≠ .resetCommandPool)).map
        (fun s => (decide (InUse s.pools ⟨.nv12Y, 0⟩), s.outs)) = some (true, []) := rfl

end Streambox.Vulkan
