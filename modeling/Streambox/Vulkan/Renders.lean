import Streambox.Vulkan.Exclusive

/-! libvfmcap, vfmcap_vulkan.c: what one render call does to the output pools.

    Here a render call is taken as a whole: it polls for its entries as long as it is ready to, and
    nobody releases an entry meanwhile. A call that fails should leave every mark as it was, so that
    failing renders never use a pool up. It does so unless it has its entries and then fails at a
    call whose failure is only checked with VK_CHECK. -/

namespace Streambox.Vulkan
open Streambox.Lib Streambox.Lib.SlotPool

variable {s t : State} {r : Render} {ok : VkCall → Bool} {plan : Plan}

/-- The polls of a render that waits for entries. -/
def pollOut : Nat → State → State
  | 0, s => s
  | n + 1, s =>
    match s.waiting with
    | none => s
    | some w => pollOut n (attempt s w.plan w.ok (w.polls - 1))

/-- A render call, to its return. It has returned 0 if there is an output more. -/
def renderCall (s : State) (r : Render) (ok : VkCall → Bool) : State :=
  match planOf s.pools ok r with
  | none => s
  | some plan => pollOut (retriesOf r) (attempt s plan ok (retriesOf r))

/-- A call that returns -1 leaves every mark as it was. A call that returns 0 has marked the entries
    whose descriptors it returns, which were free, and no other. -/
structure Restores (s t : State) : Prop where
  returns : t.outs = s.outs ∨ ∃ o, t.outs = s.outs ++ [o]
  failed : t.outs = s.outs → ∀ e, InUse t.pools e ↔ InUse s.pools e
  taken : ∀ o, t.outs = s.outs ++ [o] → (∀ e, e ∈ o.taken.slots ↔ o.hits t.pools e) ∧
    (∀ e ∈ o.taken.slots, ¬ InUse s.pools e) ∧
    ∀ e, InUse t.pools e ↔ e ∈ o.taken.slots ∨ InUse s.pools e

/-! ### Polling -/

theorem attempt_none {polls : Nat} (h : (acquireEntries s.pools plan.yPool plan.uvPool).2 = none) :
    attempt s plan ok polls
      = { s with waiting := if polls = 0 then none else some ⟨plan, ok, polls⟩ } := by
  rcases hacq : acquireEntries s.pools plan.yPool plan.uvPool with ⟨pools, _ | taken⟩
  · obtain rfl := acquireEntries_none hacq
    simp only [attempt, hacq]
  · rw [hacq] at h
    cases h

/-- A render that has its entries does not wait. -/
theorem attempt_some {polls : Nat}
    (h : (acquireEntries s.pools plan.yPool plan.uvPool).2.isSome) :
    (attempt s plan ok polls).waiting = none := by
  unfold attempt
  split
  · unfold finish
    split
    · rfl
    · rfl
  · next hacq =>
    rw [hacq] at h
    cases h

/-- Where there are no entries and none come back, the polls run out. -/
theorem pollOut_none (h : (acquireEntries s.pools plan.yPool plan.uvPool).2 = none) :
    ∀ n, pollOut n { s with waiting := if n = 0 then none else some ⟨plan, ok, n⟩ }
      = { s with waiting := none }
  | 0 => rfl
  | n + 1 => by
    have hnext := @attempt_none { s with waiting := some ⟨plan, ok, n + 1⟩ } ok plan n h
    simp only [pollOut, Nat.succ_ne_zero, if_false, Nat.add_sub_cancel]
    rw [hnext]
    exact pollOut_none h n

theorem pollOut_done (h : s.waiting = none) : ∀ n, pollOut n s = s
  | 0 => rfl
  | n + 1 => by
    rw [pollOut, h]

/-- A whole call: it comes away with nothing and leaves nothing behind, or it returns an output, or
    it strands the entries it took. -/
theorem renderCall_cases (hsane : plan.Sane s.pools) (hidle : s.waiting = none)
    (hplan : planOf s.pools ok r = some plan) :
    (Careful s.pools plan ok ∧ renderCall s r ok = s) ∨
    (∃ (pools : Pools) (taken : Taken), Careful s.pools plan ok ∧ Took s.pools taken.slots pools ∧
      taken.y.pool = plan.yPool ∧ taken.uv.map Slot.pool = plan.uvPool ∧
      renderCall s r ok = { s with pools, outs := s.outs ++ [outputOf s plan.fmt pools taken] }) ∨
    (∃ (pools : Pools) (taken : Taken), ¬ Careful s.pools plan ok ∧ Took s.pools taken.slots pools ∧
      renderCall s r ok = { s with pools }) := by
  have hcall : renderCall s r ok = pollOut (retriesOf r) (attempt s plan ok (retriesOf r)) := by
    rw [renderCall, hplan]
  have hself : { s with waiting := none } = s := by rw [← hidle]
  rcases hacq : (acquireEntries s.pools plan.yPool plan.uvPool).2 with _ | taken
  · refine .inl ⟨fun hsome => ?_, ?_⟩
    · rw [hacq] at hsome
      cases hsome
    · rw [hcall, attempt_none hacq, pollOut_none hacq, hself]
  · rcases @attempt_cases s plan ok (retriesOf r) hsane with
      ⟨hcareful, waiting, hw, hatt⟩ | ⟨pools, taken, hcareful, htook, hy, huv, hatt⟩ |
      ⟨pools, taken, hcareful, htook, hatt⟩
    · have hdone := @attempt_some s ok plan (retriesOf r) (by rw [hacq]; rfl)
      rw [hatt] at hdone
      have hdone : waiting = none := hdone
      refine .inl ⟨hcareful, ?_⟩
      rw [hcall, hatt, hdone, pollOut_done rfl, hself]
    · refine .inr (.inl ⟨pools, taken, hcareful, htook, hy, huv, ?_⟩)
      rw [hcall, hatt, pollOut_done rfl, hidle]
    · refine .inr (.inr ⟨pools, taken, hcareful, htook, ?_⟩)
      rw [hcall, hatt, pollOut_done rfl, hidle]

/-! ### One call -/

/-- A render call restores the marks exactly if it does not fail, with its entries taken, at a call
    that it only checks. -/
theorem renderCall_restores_iff (hsound : Sound s) (hidle : s.waiting = none) :
    Restores s (renderCall s r ok) ↔ Orderly s (.render r ok) := by
  cases hplan : planOf s.pools ok r with
  | none =>
    have hcall : renderCall s r ok = s := by rw [renderCall, hplan]
    rw [hcall]
    refine iff_of_true ⟨.inl rfl, fun _ _ => Iff.rfl, fun o ho => ?_⟩ fun plan hsome => ?_
    · exact absurd ho (by simp)
    · rw [hplan] at hsome
      cases hsome
  | some plan =>
    have hsane := planOf_sane hplan
    have horderly : Orderly s (.render r ok) ↔ Careful s.pools plan ok := by
      refine ⟨fun h => h plan hplan, fun h plan' hplan' => ?_⟩
      exact Option.some_inj.mp (hplan.symm.trans hplan') ▸ h
    rw [horderly]
    rcases renderCall_cases hsane hidle hplan with
      ⟨hcareful, hcall⟩ | ⟨pools, taken, hcareful, htook, hy, huv, hcall⟩ |
      ⟨pools, taken, hcareful, htook, hcall⟩
    · rw [hcall]
      refine iff_of_true ⟨.inl rfl, fun _ _ => Iff.rfl, fun o ho => ?_⟩ hcareful
      exact absurd ho (by simp)
    · rw [hcall]
      refine iff_of_true ⟨.inr ⟨_, rfl⟩, fun h => absurd h (by simp), fun o ho => ?_⟩ hcareful
      obtain rfl : outputOf s plan.fmt pools taken = o := by simpa using ho
      refine ⟨?_, htook.fresh, htook.used⟩
      refine outputOf_fits (htook.keys.keyed hsound.keyed) (hsane.congr htook.keys) hy huv ?_
      intro e he
      rw [htook.keys]
      exact htook.keyed e he
    · -- the first entry was free and is marked, and no output has been returned
      refine iff_of_false (fun hrest => ?_) hcareful
      rw [hcall] at hrest
      have hmem : taken.y ∈ taken.slots := List.mem_cons_self
      have hmarked : InUse pools taken.y := (htook.used _).mpr (.inl hmem)
      exact htook.fresh _ hmem ((hrest.failed rfl _).mp hmarked)

/-- A render call that fails and is careful has not touched the pools. -/
theorem renderCall_failed (hidle : s.waiting = none) (hord : Orderly s (.render r ok))
    (hfail : (renderCall s r ok).outs = s.outs) : renderCall s r ok = s := by
  cases hplan : planOf s.pools ok r with
  | none => rw [renderCall, hplan]
  | some plan =>
    rcases renderCall_cases (planOf_sane hplan) hidle hplan with
      ⟨-, hcall⟩ | ⟨pools, taken, -, -, -, -, hcall⟩ | ⟨pools, taken, hcareful, -, -⟩
    · exact hcall
    · rw [hcall] at hfail
      exact absurd hfail (by simp)
    · exact absurd (hord plan hplan) hcareful

/-! ### Sequences of calls -/

/-- One render call after the other. -/
def callStep (s : State) (c : Render × (VkCall → Bool)) : Option State :=
  some (renderCall s c.1 c.2)

/-- What holds between calls. -/
def AtRest (s : State) : Prop := Sound s ∧ s.waiting = none

theorem pollOut_sound : ∀ {n : Nat} {s : State}, Sound s → Sound (pollOut n s)
  | 0, _, h => h
  | n + 1, s, h => by
    rw [pollOut]
    split
    · exact h
    · next w hw => exact pollOut_sound (h.attempt (h.sane w hw))

theorem AtRest.call (h : AtRest s) : AtRest (renderCall s r ok) := by
  obtain ⟨hsound, hidle⟩ := h
  cases hplan : planOf s.pools ok r with
  | none =>
    rw [renderCall, hplan]
    exact ⟨hsound, hidle⟩
  | some plan =>
    have hsane := planOf_sane hplan
    refine ⟨?_, ?_⟩
    · rw [renderCall, hplan]
      exact pollOut_sound (hsound.attempt hsane)
    · rcases renderCall_cases hsane hidle hplan with
        ⟨-, hcall⟩ | ⟨pools, taken, -, -, -, -, hcall⟩ | ⟨pools, taken, -, -, hcall⟩
      · rw [hcall]
        exact hidle
      · rw [hcall]
        exact hidle
      · rw [hcall]
        exact hidle

/-- Careful calls that all fail leave the pools as they are. -/
theorem failing_calls_keep {calls : List (Render × (VkCall → Bool))} {s t : State}
    (hrun : run callStep s calls = some t) (hidle : s.waiting = none)
    (hord : Along callStep (fun s c => Orderly s (.render c.1 c.2)) s calls)
    (hfail : Along callStep (fun s c => (renderCall s c.1 c.2).outs = s.outs) s calls) : t = s := by
  induction calls generalizing s with
  | nil =>
    cases hrun
    rfl
  | cons c calls ih =>
    obtain ⟨u, hu, hrest⟩ := run_cons.mp hrun
    have hsame : renderCall s c.1 c.2 = s := renderCall_failed hidle hord.1 hfail.1
    have hus : u = s := (Option.some_inj.mp hu).symm.trans hsame
    rw [hus] at hu hrest
    exact ih hrest hidle (hord.2 s hu) (hfail.2 s hu)

/-- In every state an initialised converter can get to, and for every sequence of render calls and
    every outcome of the calls inside: all of them restore the marks exactly if none fails, with its
    entries taken, at a call that it only checks. Then calls that all fail leave the pools as they
    found them, and the next render finds an entry exactly if it had found one before. -/
theorem renders_restore_iff_orderly {a : Setup} {start : State} {events : List Event}
    (calls : List (Render × (VkCall → Bool))) (hopen : opened a = some start)
    (hrun : run step start events = some s) (hidle : s.waiting = none) :
    (Along callStep (fun s c => Restores s (renderCall s c.1 c.2)) s calls ↔
      Along callStep (fun s c => Orderly s (.render c.1 c.2)) s calls) ∧
    (Along callStep (fun s c => Orderly s (.render c.1 c.2)) s calls →
      Along callStep (fun s c => (renderCall s c.1 c.2).outs = s.outs) s calls →
      ∀ t, run callStep s calls = some t → t.pools = s.pools) := by
  have hsound : Sound s :=
    run_preserves (fun _ _ _ h hs => Sound.step h hs) hrun (opened_sound hopen)
  refine ⟨along_congr (P := AtRest) ?_ ?_ ⟨hsound, hidle⟩, fun hord hfail t ht => ?_⟩
  · rintro s c t hs ⟨⟩
    exact hs.call
  · exact fun s c hs => renderCall_restores_iff hs.1 hs.2
  · rw [failing_calls_keep ht hidle hord hfail]

/-- Two renders after one that was released: the first succeeds, the second fails in the wait. -/
theorem renders_restore_plain : ∃ start s, opened plainSetup = some start ∧
    run step start [renderNv12, .release 0] = some s ∧
    Along callStep (fun s c => Restores s (renderCall s c.1 c.2)) s
      [(.plain .nv12, fun _ => true), (.plain .nv12, fun c => c ≠ .convertWait)] := by
  have h := renders_restore_iff_orderly
    [(.plain .nv12, fun _ => true), (.plain .nv12, fun c => c ≠ .convertWait)]
    (show opened plainSetup = some _ from rfl)
    (show run step _ [renderNv12, .release 0] = some _ from rfl) rfl
  refine ⟨_, _, rfl, rfl, h.1.mpr ?_⟩
  have hcareful : ∀ (s : State) (ok : VkCall → Bool), (∀ c, ok c = false → c = .convertWait) →
      Orderly s (.render (.plain .nv12) ok) := by
    intro s ok hok plan hplan _
    have hpass : ∀ c, c ≠ .convertWait → ok c = true := by
      intro c hne
      cases hc : ok c with
      | true => rfl
      | false => exact absurd (hok c hc) hne
    simp only [planOf, vfmcapVkRenderAndWait, planesPlan, planesOf, Option.map_some] at hplan
    split at hplan
    · cases hplan
      cases hw : ok .convertWait <;> simp [strands, hpass, hw]
    · cases hplan
      cases hw : ok .convertWait <;> simp [strands, hpass, hw]
  refine ⟨hcareful _ _ (by simp), fun s' _ => ⟨hcareful _ _ ?_, fun _ _ => trivial⟩⟩
  intro c hc
  simpa using hc

/-- A render that fails at vkResetCommandPool keeps entry 0 marked; eight of them use the pool up.
    -/
theorem failed_render_keeps_entry : ∃ start, opened plainSetup = some start ∧
    (renderCall start (.plain .nv12) fun c => c ≠ .resetCommandPool).outs = start.outs ∧
    ¬ Restores start (renderCall start (.plain .nv12) fun c => c ≠ .resetCommandPool) ∧
    ((run callStep start (List.replicate 8 (.plain .nv12, fun c => c ≠ .resetCommandPool))).map
      fun s => (outputPoolAcquire s.pools .nv12Y).2) = some none := by
  refine ⟨_, rfl, rfl, fun h => ?_, rfl⟩
  exact absurd ((h.failed rfl ⟨.nv12Y, 0⟩).mp (by decide)) (by decide)

end Streambox.Vulkan
