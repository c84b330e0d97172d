import Streambox.PathB.Sessions

/-! Path B: what becomes of the signal events.

    Draining the monitor is destructive: once `handle_signal_event` has reported that the signal has
    changed or is lost, no later call will see that event again. The polling loop for the current
    frame acts on it at once. The loop for the second frame of a priming call does not: it returns
    frame 0 and leaves the change to the next call, which finds the queue empty. -/

namespace Streambox.PathB
open Streambox.Lib

variable {s t : Pipe} {e : Env} {f : Flow}

/-! ### The obligation -/

/-- The call drained a batch that asks for an action. -/
def Done.alarmed (d : Done) : Bool :=
  d.notes.any fun n => match n with
    | .drained a => a ≠ .none
    | .posted _ => false

/-- The call posted `hdmi-signal-change` and returned `EOS`, or it was flushed. -/
def Done.leaves (d : Done) : Bool :=
  (d.flow = .eos && d.notes.any fun n => match n with
    | .drained _ => false
    | .posted _ => true) || d.flow = .flushing

/-- Every alarm is answered by the call that drained it, or by the next one. -/
def Answered (h : List Done) : Prop :=
  ∀ k d, h[k]? = some d → d.alarmed = true →
    d.leaves = true ∨ ∀ d', h[k + 1]? = some d' → d'.leaves = true

/-- A call that primes the pipeline sees no alarm while it waits for its second frame. -/
def QuietPriming (s : Session) : Call → Prop
  | .create e => s.pipe.vdin1TenBit = true → s.pipe.asyncPending = false → s.pipe.monitor = true →
      ∀ evs ∈ shownBatches 3 e.primePasses 0, handleSignalEvent evs = .none
  | .unref _ => True

instance (s : Session) : ∀ c, Decidable (QuietPriming s c)
  | .create e => inferInstanceAs (Decidable (s.pipe.vdin1TenBit = true → s.pipe.asyncPending = false →
      s.pipe.monitor = true → ∀ evs ∈ shownBatches 3 e.primePasses 0, handleSignalEvent evs = .none))
  | .unref _ => inferInstanceAs (Decidable True)

/-! ### The notes of a call -/

/-- Nothing drained so far asks for an action. -/
def Hush (s : Pipe) : Prop := ∀ a, Note.drained a ∈ s.notes → a = .none

/-- Notes and monitor as before. -/
structure Still (s t : Pipe) : Prop where
  notes : t.notes = s.notes
  monitor : t.monitor = s.monitor

theorem Still.refl (s : Pipe) : Still s s := ⟨rfl, rfl⟩

theorem Still.trans {r : Pipe} (h : Still s t) (k : Still t r) : Still s r :=
  ⟨k.notes.trans h.notes, k.monitor.trans h.monitor⟩

theorem Still.hush (h : Still s t) (hs : Hush s) : Hush t := by
  unfold Hush
  rw [h.notes]
  exact hs

theorem Still.qbuf {i : Nat} {a : Bool} (h : Still s t) : Still s (qbuf t i a) := by
  unfold PathB.qbuf
  split <;> exact ⟨h.notes, h.monitor⟩

theorem dispose_still (s : Pipe) (u : Unref) : Still s (dispose s u) := by
  unfold dispose
  split
  · exact .refl s
  · next b _ =>
    cases b.hold with
    | p010 o =>
      simp only [release, p010BufRelease]
      split <;> exact ⟨rfl, rfl⟩
    | vdin1 i =>
      simp only [release, pathBBufRelease]
      split
      · exact Still.qbuf ⟨rfl, rfl⟩
      · exact ⟨rfl, rfl⟩

theorem disposeAll_still (s : Pipe) (us : List Unref) : Still s (disposeAll s us) :=
  disposeAll_rule (P := Still s) (fun r u hr => hr.trans (dispose_still r u)) us (.refl s)

theorem acquire_still {o : Nat} (h : p010PoolAcquire s = some (o, t)) : Still s t := by
  simp only [p010PoolAcquire, Option.map_eq_some_iff, Prod.mk.injEq] at h
  obtain ⟨_, -, -, rfl⟩ := h
  exact ⟨rfl, rfl⟩

theorem submit_still (s : Pipe) (i o k : Nat) (ok : Bool) :
    Still s (vdin1VkSubmitAsync s i o k ok).1 := by
  simp only [vdin1VkSubmitAsync]
  split <;> exact ⟨rfl, rfl⟩

theorem wait_still (s : Pipe) (k : Nat) (ok : Bool) : Still s (vdin1VkWaitAsync s k ok) := by
  unfold vdin1VkWaitAsync
  split <;> exact ⟨rfl, rfl⟩

theorem convertSync_still (s : Pipe) (i o : Nat) (e : Env) :
    Still s (vdin1VkConvertSync s i o e).1 := by
  have hsub := submit_still s i o s.vkSlot e.submitSync
  unfold vdin1VkConvertSync
  generalize vdin1VkSubmitAsync s i o s.vkSlot e.submitSync = r at hsub ⊢
  obtain ⟨r, ok⟩ := r
  cases ok with
  | false => exact hsub
  | true => exact hsub.trans (wait_still r r.vkSlot e.waitSync)

theorem submitNext_still (s : Pipe) (i : Nat) (e : Env) (a : Bool) :
    Still s (submitNext s i e a) := by
  have hd := disposeAll_still s e.unrefsAsync
  simp only [submitNext]
  cases hacq : p010PoolAcquire (disposeAll s e.unrefsAsync) with
  | none =>
    exact Still.qbuf ⟨hd.notes, hd.monitor⟩
  | some p =>
    obtain ⟨o, r⟩ := p
    simp only
    have hsub := (hd.trans (acquire_still hacq)).trans (submit_still r i o r.vkSlot e.submitAsync)
    generalize vdin1VkSubmitAsync r i o r.vkSlot e.submitAsync = w at hsub ⊢
    obtain ⟨w, ok⟩ := w
    cases ok with
    | true => exact ⟨hsub.notes, hsub.monitor⟩
    | false => exact Still.qbuf ⟨hsub.notes, hsub.monitor⟩

theorem dqbuf_still {i : Nat} (h : dqbuf s i = some t) : Still s t := by
  obtain ⟨-, rfl⟩ := dqbuf_eq h
  exact ⟨rfl, rfl⟩

theorem hush_note (h : Hush s) : Hush (s.note (.drained .none)) := by
  intro a ha
  rcases List.mem_append.mp ha with ha | ha
  · exact h a ha
  · cases List.mem_singleton.mp ha
    rfl

/-! ### Calls -/

/-- The second poll of a quiet priming call drains no alarm. -/
theorem primeSecond_hush (hs : Hush s) (hquiet : s.monitor = true →
      ∀ evs ∈ shownBatches 3 e.primePasses 0, handleSignalEvent evs = .none)
    (h : primeSecond s e = some t) : Hush t := by
  obtain ⟨⟨r, got⟩, hpoll, rfl⟩ := Option.map_eq_some_iff.mp h
  have hend := pollFrame_rule (P := fun r => Hush r ∧ r.monitor = s.monitor)
    (fun r u ⟨hr, hm⟩ => ⟨(dispose_still r u).hush hr, (dispose_still r u).monitor.trans hm⟩)
    (fun r ⟨hr, hm⟩ => ⟨hush_note hr, hm⟩) hpoll ⟨hs, rfl⟩
  cases hend with
  | @frame q _ i hr hdq =>
    have hq := (dqbuf_still hdq).hush hr.1
    simp only
    split
    · exact hq
    · exact (submitNext_still _ i e e.qbufSecond).hush hq
  | signal hr hmem hmon hact => exact absurd (hquiet (hr.2.symm.trans hmon) _ hmem) hact
  | other hr hf hsig =>
    cases got with
    | frame i => exact absurd rfl (hf i)
    | _ => exact hr.1

theorem prime_hush {i : Nat} (hs : Hush s) (hquiet : s.monitor = true →
      ∀ evs ∈ shownBatches 3 e.primePasses 0, handleSignalEvent evs = .none)
    (h : prime s i e = some (t, f)) : Hush t := by
  have hd := disposeAll_still s e.unrefsSync
  simp only [prime] at h
  cases hacq : p010PoolAcquire (disposeAll s e.unrefsSync) with
  | none =>
    rw [hacq] at h
    cases h
    refine Still.hush (Still.qbuf ?_) hs
    exact ⟨hd.notes, hd.monitor⟩
  | some p =>
    obtain ⟨o, r⟩ := p
    rw [hacq] at h
    simp only at h
    have hc := (hd.trans (acquire_still hacq)).trans (convertSync_still r i o e)
    generalize vdin1VkConvertSync r i o e = w at hc h
    obtain ⟨w, x⟩ := w
    cases x with
    | some x =>
      cases h
      refine Still.hush (Still.qbuf ?_) hs
      exact ⟨hc.notes, hc.monitor⟩
    | none =>
      simp only at h
      have hq := hc.qbuf (i := i) (a := e.qbufCur)
      cases hwrap : wrapFailure e with
      | some x =>
        rw [hwrap] at h
        cases h
        exact hq.hush hs
      | none =>
        rw [hwrap] at h
        obtain ⟨y, hy, he⟩ := Option.map_eq_some_iff.mp h
        cases he
        have hy := primeSecond_hush (hq.hush hs) (fun hm => hquiet (hq.monitor.symm.trans hm)) hy
        exact hy

theorem steady_still (s : Pipe) (i : Nat) (e : Env) : Still s (steady s i e).1 := by
  have hw := wait_still s (1 - s.vkSlot) e.waitAsync
  simp only [steady, qbufReturn]
  split
  · have hq : Still s (qbuf (putOut (Pipe.trouble (vdin1VkWaitAsync s (1 - s.vkSlot) e.waitAsync)
      .waitFailed) s.asyncOut) s.asyncVdin1 e.qbufPrev) := Still.qbuf ⟨hw.notes, hw.monitor⟩
    exact Still.qbuf ⟨hq.notes, hq.monitor⟩
  · have hq := hw.qbuf (i := s.asyncVdin1) (a := e.qbufPrev)
    split
    · exact Still.qbuf ⟨hq.notes, hq.monitor⟩
    · have hr := hq.trans (submitNext_still _ i e e.qbufCur)
      exact ⟨hr.notes, hr.monitor⟩

theorem eightBit_still (s : Pipe) (i : Nat) (e : Env) : Still s (eightBit s i e).1 := by
  simp only [eightBit, qbufReturn]
  split
  · exact Still.qbuf ⟨rfl, rfl⟩
  · exact ⟨rfl, rfl⟩

theorem cleanExit_leaves (s : Pipe) (reason : String) (e : Env) :
    Done.leaves ⟨(cleanExit s reason e).2, (cleanExit s reason e).1.notes⟩ = true := by
  simp [Done.leaves, cleanExit, vdin1Streamoff, Pipe.note]

theorem not_alarmed_of_hush (h : Hush t) : ¬ Done.alarmed ⟨f, t.notes⟩ = true := by
  intro ha
  obtain ⟨n, hn, hact⟩ := List.any_eq_true.mp ha
  cases n with
  | drained a => simp [h a hn] at hact
  | posted r => cases hact

/-- A call that is not a priming call with an alarm in its second poll answers what it drains. -/
theorem createPathB_answers {k : Session} (hquiet : QuietPriming k (.create e))
    (h : createPathB k.pipe e = some (t, f)) :
    Done.alarmed ⟨f, t.notes⟩ = true → Done.leaves ⟨f, t.notes⟩ = true := by
  intro halarm
  have quiet : Hush t → Done.leaves ⟨f, t.notes⟩ = true := fun ht =>
    absurd halarm (not_alarmed_of_hush ht)
  unfold createPathB at h
  split at h
  · cases h
    exact cleanExit_leaves _ _ e
  · next r hcheck =>
    cases hpoll : pollFrame 5 r e.passes 0 with
    | none =>
      rw [hpoll] at h
      cases h
    | some p =>
      obtain ⟨w, got⟩ := p
      rw [hpoll] at h
      have hr : Kept k.pipe r ∧ r.monitor = k.pipe.monitor ∧ Hush r := by
        obtain rfl := checkFormat_eq hcheck
        exact ⟨by constructor <;> rfl, rfl, nofun⟩
      have hend := pollFrame_rule (P := fun r => Kept k.pipe r ∧ r.monitor = k.pipe.monitor ∧ Hush r)
        (fun r u ⟨hk, hm, hh⟩ => ⟨hk.trans (dispose_kept r u), (dispose_still r u).monitor.trans hm,
          (dispose_still r u).hush hh⟩)
        (fun r ⟨hk, hm, hh⟩ => ⟨hk.trans (note_kept r _), hm, hush_note hh⟩) hpoll hr
      cases hend with
      | @frame q _ i hq hdq =>
        obtain ⟨hk, hm, hh⟩ := hq
        have hw := dqbuf_still hdq
        refine quiet ?_
        simp only [convert] at h
        split at h
        · cases h
          exact hw.hush hh
        split at h
        · next hten =>
          split at h
          · have hst := steady_still w i e
            rw [Option.some_inj.mp h] at hst
            exact (hw.trans hst).hush hh
          · next hp =>
            obtain ⟨-, rfl⟩ := dqbuf_eq hdq
            refine prime_hush (hw.hush hh) (fun hmon => hquiet ?_ ?_ ?_) h
            · exact hk.vdin1TenBit.symm.trans hten
            · exact hk.asyncPending.symm.trans (Bool.eq_false_iff.mpr hp)
            · exact hm.symm.trans hmon
        · have hst := eightBit_still w i e
          rw [Option.some_inj.mp h] at hst
          exact (hw.trans hst).hush hh
      | signal hq =>
        cases h
        exact cleanExit_leaves _ _ e
      | other hw hf hsig =>
        cases got with
        | frame i => exact absurd rfl (hf i)
        | signal a => exact absurd rfl (hsig a)
        | timedOut =>
          cases h
          exact cleanExit_leaves _ _ e
        | _ =>
          cases h
          exact quiet hw.2.2

/-! ### Sessions -/

theorem step_answers {k l : Session} {c : Call} (hquiet : QuietPriming k c)
    (h : ∀ d ∈ k.history, d.alarmed = true → d.leaves = true) (hs : step k c = some l) :
    ∀ d ∈ l.history, d.alarmed = true → d.leaves = true := by
  cases c with
  | unref u =>
    cases hs
    exact h
  | create e =>
    obtain ⟨⟨p, f⟩, hcreate, rfl⟩ := Option.map_eq_some_iff.mp hs
    intro d hd
    rcases List.mem_append.mp hd with hd | hd
    · exact h d hd
    · rw [List.mem_singleton.mp hd]
      exact createPathB_answers hquiet hcreate

/-- In every session, in either mode, in which no priming call sees an alarm while it waits for its
    second frame, every alarm is answered, and by the call that drained it. -/
theorem alarms_answered {tenBit monitor : Bool} {nBufs : Nat} {fmt : Format} {calls : List Call}
    {k : Session} (hrun : run step (openSession tenBit monitor nBufs fmt) calls = some k)
    (hquiet : Along step QuietPriming (openSession tenBit monitor nBufs fmt) calls) :
    Answered k.history := by
  have hall := run_invariant
    (P := fun k : Session => ∀ d ∈ k.history, d.alarmed = true → d.leaves = true)
    (fun _ _ _ hk hc hs => step_answers hc hk hs) hrun hquiet nofun
  intro i d hd ha
  exact .inl (hall d (List.mem_of_getElem? hd) ha)

/-- The signal is lost while a priming call waits for its second frame. -/
def lostCalls : List Call :=
  [.create (plainEnv [framePass 0] [eventPass signalLostEvent]),
    .create (plainEnv [framePass 1] [framePass 2])]

/-- The priming call drains the alarm and returns its frame; the next call finds no event and
    returns a frame as well. The alarm is gone. -/
theorem not_answered_lostCalls :
    ∃ k, run step (openSession true true 4 plainFormat) lostCalls = some k ∧
      ¬ Answered k.history := by
  refine ⟨_, rfl, fun h => ?_⟩
  rcases h 0 _ rfl rfl with h0 | h1
  · exact absurd h0 (by decide)
  · exact absurd (h1 _ rfl) (by decide)

/-- An alarm in the poll for the current frame, with a priming call before it. -/
def alarmCalls : List Call :=
  [.create (plainEnv [framePass 0] [framePass 1]),
    .create (plainEnv [eventPass signalLostEvent] [])]

theorem alarms_answered_alarmCalls :
    ∃ k, run step (openSession true true 4 plainFormat) alarmCalls = some k ∧
      (∃ d ∈ k.history, d.alarmed = true) ∧ Answered k.history := by
  have hquiet : Along step QuietPriming (openSession true true 4 plainFormat) alarmCalls := by
    refine ⟨by decide, fun s hs => ⟨?_, fun _ _ => trivial⟩⟩
    cases hs
    decide
  exact ⟨_, rfl, by decide, alarms_answered (show run step _ alarmCalls = some _ from rfl) hquiet⟩

end Streambox.PathB
