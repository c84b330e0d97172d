import Streambox.PathB.Engine
import Streambox.PathB.Lookahead

/-! Path B: what one call of `create_path_b` does.

    Every exit of a call is covered: the state it leaves is again one between calls, and seen from
    outside the call is one move of a converter with one frame of lookahead. -/

namespace Streambox.PathB
open Streambox.Lib

variable {L : Prop} {s t : Pipe} {hand grab : List Nat} {i o : Nat}

/-! ### The pipeline as a converter with one frame of lookahead -/

/-- What the reader of the pipeline sees. -/
def Pipe.view (s : Pipe) : Lookahead.View where
  frames := s.frames
  inFlight := if s.asyncPending then s.vdin1 s.asyncVdin1 else none
  delivered := s.delivered.filterMap id
  failed := s.troubles.any fun x => x.isFailure
  cut := s.troubles.any fun x => !x.isFailure
  offline := !s.streaming

/-- A 10-bit call that has dequeued a frame returns with `f` in state `t`; `v` is the view before
    the frame was dequeued. -/
structure Returned (L : Prop) (v : Lookahead.View) (t : Pipe) (f : Flow) : Prop where
  flow : f ≠ .eos
  running : Running L t [] []
  tenBit : t.vdin1TenBit = true
  streaming : t.streaming = true
  known : ∀ d ∈ t.delivered, d ≠ none
  flying : t.asyncPending = true → ∃ m, t.vdin1 t.asyncVdin1 = some m
  move : Lookahead.Move v (f = .ok) t.view

variable {n m : Nat} {e : Env} {f : Flow}

/-- The current frame is dropped, with the one in flight if there is one. -/
theorem Returned.drop {x : Trouble} (hr : Resting L t [] []) (hp : t.asyncPending = false)
    (hst : t.streaming = true) (hon : s.streaming = true) (hf : t.frames = n + 1)
    (hd : t.delivered = s.delivered) (hknown : ∀ d ∈ s.delivered, d ≠ none)
    (hx : x.isFailure = true) (ht : t.troubles = s.troubles ++ [x]) :
    Returned L { s.view with frames := n } t .error := by
  refine ⟨nofun, hr.done hp, hr.ten, hst, hd ▸ hknown, fun h => ?_, ?_⟩
  · rw [hp] at h
    cases h
  · have hview : t.view = { s.view with frames := n + 1, inFlight := none, failed := true } := by
      simp [Pipe.view, hp, hst, hon, hf, hd, ht, hx]
    rw [hview]
    exact .drop { s.view with frames := n } (by simp [Pipe.view, hon])

theorem known_deliver {hold : Hold} {k : Nat} (h : ∀ d ∈ s.delivered, d ≠ none) :
    ∀ d ∈ (deliver s hold (some k)).delivered, d ≠ none := by
  intro d hd
  rcases List.mem_append.mp hd with hd | hd
  · exact h d hd
  · rw [List.mem_singleton.mp hd]
    nofun

theorem Running.deliver (h : Running L s hand (o :: grab)) (hten : s.vdin1TenBit = true) :
    Running L (deliver s (.p010 o) (s.out o)) hand grab :=
  ⟨Owned.deliver (.p010 o) h.owned (fun _ => rfl) (by rintro _ ⟨⟩; rfl), h.slot, h.clear,
    h.jobs, h.vk, fun _ => hten⟩

/-- A priming call returns its first frame, whatever becomes of the second. -/
theorem Returned.primed {q w : Pipe} (h : Second L q [] [o] w) (hqo : q.out o = some n)
    (hon : s.streaming = true) (hqs : q.streaming = true) (hqf : q.frames = n + 1)
    (hqd : q.delivered = s.delivered) (hqt : q.troubles = s.troubles)
    (hp : s.asyncPending = false) (hknown : ∀ d ∈ s.delivered, d ≠ none) :
    Returned L { s.view with frames := n } (deliver w (.p010 o) (w.out o)) .ok := by
  have hwo : w.out o = some n := (h.out o (List.mem_singleton_self o)).trans hqo
  have hwd : w.delivered = s.delivered := h.delivered.trans hqd
  have hws : w.streaming = true := h.streaming.trans hqs
  have hon' : s.view.offline = false := by simp [Pipe.view, hon]
  have hnone : s.view.inFlight = none := by simp [Pipe.view, hp]
  have hrun := h.running.deliver h.tenBit
  rw [hwo] at hrun ⊢
  refine ⟨nofun, hrun, h.tenBit, hws, known_deliver (hwd ▸ hknown), ?_, ?_⟩
  · intro hpend
    rcases h.outcome with ⟨hno, -⟩ | ⟨-, hv, -⟩ | ⟨hno, -⟩
    · exact absurd (hno.symm.trans hpend) nofun
    · exact ⟨_, hv⟩
    · exact absurd (hno.symm.trans hpend) nofun
  · rcases h.outcome with ⟨hpend, hf, ht⟩ | ⟨hpend, hv, hf, ht⟩ | ⟨hpend, hf, x, hx, ht⟩
    · have hview : (deliver w (.p010 o) (some n)).view = Lookahead.View.deliver
          { s.view with frames := n + 1, cut := true } n := by
        simp [Pipe.view, Lookahead.View.deliver, deliver, hpend, hws, hon, hf, hqf, hwd, ht, hqt, hp,
          Trouble.isFailure]
      rw [hview]
      exact .single { s.view with frames := n } hon' hnone
    · have hview : (deliver w (.p010 o) (some n)).view = Lookahead.View.deliver
          { s.view with frames := n + 2, inFlight := some (n + 1) } n := by
        simp [Pipe.view, Lookahead.View.deliver, deliver, hpend, hv, hws, hon, hf, hqf, hwd, ht, hqt]
      rw [hview]
      exact .prime { s.view with frames := n } hon' hnone
    · have hview : (deliver w (.p010 o) (some n)).view = Lookahead.View.deliver
          { s.view with frames := n + 2, failed := true } n := by
        simp [Pipe.view, Lookahead.View.deliver, deliver, hpend, hws, hon, hf, hqf, hwd, ht, hqt, hp,
          hx]
      rw [hview]
      exact .primeDrop { s.view with frames := n } hon' hnone

theorem wrapFailure_isFailure {x : Trouble} (h : wrapFailure e = some x) : x.isFailure = true := by
  unfold wrapFailure at h
  split at h
  · cases h
    rfl
  split at h <;> cases h
  rfl

theorem prime_spec (h : Resting L s [i] []) (hp : s.asyncPending = false)
    (hon : s.streaming = true) (hn : s.vdin1 i = some n) (hf : s.frames = n + 1)
    (hknown : ∀ d ∈ s.delivered, d ≠ none) (ha : L → e.qbufsAccepted = true)
    (hs : prime s i e = some (t, f)) : Returned L { s.view with frames := n } t f := by
  have hacc : L → e.qbufCur = true ∧ e.qbufSecond = true := fun hL => by
    have := ha hL
    simp only [Env.qbufsAccepted, Bool.and_eq_true] at this
    exact ⟨this.1.2, this.2⟩
  obtain ⟨hk, hr, hv⟩ := h.disposeAll e.unrefsSync
  have hpr := hk.asyncPending.trans hp
  have hst := hk.streaming.trans hon
  have hfr := hk.frames.trans hf
  simp only [prime] at hs
  cases hacq : p010PoolAcquire (disposeAll s e.unrefsSync) with
  | none =>
    rw [hacq] at hs
    cases hs
    have hq := qbuf_kept ((disposeAll s e.unrefsSync).trouble .poolExhausted) i e.qbufCur
    exact .drop ((hr.trouble _).qbuf fun hL => (hacc hL).1) (hq.asyncPending.trans hpr)
      (hq.streaming.trans hst) hon (hq.frames.trans hfr) (hq.delivered.trans hk.delivered) hknown
      rfl (hq.troubles.trans (congrArg (· ++ _) hk.troubles))
  | some p =>
    obtain ⟨o, r⟩ := p
    obtain ⟨hr', rfl⟩ := hr.acquire hacq
    rw [hacq] at hs
    simp only at hs
    obtain ⟨c, x, hconv, hc, ⟨y, hceq, hy⟩, hx⟩ := hr'.convertSync e
    rw [hconv] at hs
    have hcp : c.asyncPending = false := hceq ▸ hpr
    have hcs : c.streaming = true := hceq ▸ hst
    have hcf : c.frames = n + 1 := hceq ▸ hfr
    have hcd : c.delivered = s.delivered := hceq ▸ hk.delivered
    have hct : c.troubles = s.troubles := hceq ▸ hk.troubles
    cases x with
    | some x =>
      cases hs
      have hq := qbuf_kept (putOut (c.trouble x) o) i e.qbufCur
      exact .drop ((hc.trouble _).putOut.qbuf fun hL => (hacc hL).1) (hq.asyncPending.trans hcp)
        (hq.streaming.trans hcs) hon (hq.frames.trans hcf) (hq.delivered.trans hcd) hknown
        (hx x rfl) (hq.troubles.trans (congrArg (· ++ _) hct))
    | none =>
      have hq := qbuf_kept c i e.qbufCur
      have hrest := hc.qbuf (a := e.qbufCur) fun hL => (hacc hL).1
      simp only at hs
      have hqs := hq.streaming.trans hcs
      have hqf := hq.frames.trans hcf
      have hqd := hq.delivered.trans hcd
      have hqt := hq.troubles.trans hct
      have hqp := hq.asyncPending.trans hcp
      cases hwrap : wrapFailure e with
      | some x =>
        rw [hwrap] at hs
        cases hs
        exact .drop (hrest.trouble _).putOut hqp hqs hon hqf hqd hknown
          (wrapFailure_isFailure hwrap) (congrArg (· ++ _) hqt)
      | none =>
        rw [hwrap] at hs
        obtain ⟨w, hw, he⟩ := Option.map_eq_some_iff.mp hs
        cases he
        have hqo : (PathB.qbuf c i e.qbufCur).out o = some n := by
          rw [hq.out, hceq, hy rfl]
          exact (Function.update_self ..).trans ((congrFun hv i).trans hn)
        exact .primed (primeSecond_spec hrest hqp (fun hL => (hacc hL).2) hw) hqo hon hqs hqf hqd
          hqt hp hknown

theorem qbuf_vdin1_ne {a : Bool} {j : Nat} (h : j ≠ i) : (qbuf s i a).vdin1 j = s.vdin1 j := by
  unfold qbuf
  split
  · exact Function.update_of_ne h _ _
  · rfl

/-- The wait at the start of a steady call takes the job's buffer and slot in hand. -/
theorem Running.wait (h : Running L s hand grab) (hp : s.asyncPending = true) (ok : Bool) :
    ∃ r, vdin1VkWaitAsync s (1 - s.vkSlot) ok = r ∧
      Resting L r (s.asyncVdin1 :: hand) (s.asyncOut :: grab) ∧ r = { s with
        jobs := []
        out := Function.update s.out s.asyncOut (if ok then s.vdin1 s.asyncVdin1 else none) } := by
  have hj : s.jobs = [⟨1 - s.vkSlot, s.asyncVdin1, s.asyncOut⟩] := by
    rw [h.jobs, Pipe.asyncJobs, if_pos hp]
  have hten := h.ten hp
  exact ⟨_, wait_eq hj ok, ⟨h.owned.pop hj, h.slot, h.clear, rfl, h.vk hten, hten⟩, rfl⟩

/-- A steady call returns the frame that was in flight and has submitted the current one, or given
    it up. -/
theorem Returned.ahead {q w : Pipe} (h : Submitted L q i [] [o] w) (hqo : q.out o = some m)
    (hqi : q.vdin1 i = some n) (hon : s.streaming = true) (hqs : q.streaming = true)
    (hqf : q.frames = n + 1) (hqd : q.delivered = s.delivered) (hqt : q.troubles = s.troubles)
    (hp : s.asyncPending = true) (hm : s.vdin1 s.asyncVdin1 = some m)
    (hknown : ∀ d ∈ s.delivered, d ≠ none) :
    Returned L { s.view with frames := n } (deliver w (.p010 o) (w.out o)) .ok := by
  have hwo : w.out o = some m := (h.out o (List.mem_singleton_self o)).trans hqo
  have hwd : w.delivered = s.delivered := h.delivered.trans hqd
  have hws : w.streaming = true := h.streaming.trans hqs
  have hwf : w.frames = n + 1 := h.frames.trans hqf
  have hon' : s.view.offline = false := by simp [Pipe.view, hon]
  have hsome : s.view.inFlight = some m := by simp [Pipe.view, hp, hm]
  have hrun := h.running.deliver h.tenBit
  rw [hwo] at hrun ⊢
  refine ⟨nofun, hrun, h.tenBit, hws, known_deliver (hwd ▸ hknown), ?_, ?_⟩
  · intro hpend
    rcases h.outcome with ⟨-, hv, -⟩ | ⟨hno, -⟩
    · exact ⟨n, hv.trans hqi⟩
    · exact absurd (hno.symm.trans hpend) nofun
  · rcases h.outcome with ⟨hpend, hv, ht⟩ | ⟨hpend, x, hx, ht⟩
    · have hview : (deliver w (.p010 o) (some m)).view = Lookahead.View.deliver
          { s.view with frames := n + 1, inFlight := some n } m := by
        simp [Pipe.view, Lookahead.View.deliver, deliver, hpend, hv, hqi, hws, hon, hwf, hwd, ht, hqt]
      rw [hview]
      exact .ahead { s.view with frames := n } m hon' hsome
    · have hview : (deliver w (.p010 o) (some m)).view = Lookahead.View.deliver
          { s.view with frames := n + 1, inFlight := none, failed := true } m := by
        simp [Pipe.view, Lookahead.View.deliver, deliver, hpend, hws, hon, hwf, hwd, ht, hqt, hx]
      rw [hview]
      exact .aheadDrop { s.view with frames := n } m hon' hsome

theorem steady_spec (h : Running L s [i] []) (hp : s.asyncPending = true)
    (hon : s.streaming = true) (hn : s.vdin1 i = some n) (hf : s.frames = n + 1)
    (hm : s.vdin1 s.asyncVdin1 = some m) (hknown : ∀ d ∈ s.delivered, d ≠ none)
    (ha : L → e.qbufsAccepted = true) (hs : steady s i e = (t, f)) :
    Returned L { s.view with frames := n } t f := by
  have hacc : L → e.qbufPrev = true ∧ e.qbufCur = true := fun hL => by
    have := ha hL
    simp only [Env.qbufsAccepted, Bool.and_eq_true] at this
    exact this.1
  obtain ⟨r, hwait, hr, hreq⟩ := h.wait hp e.waitAsync
  have hrs : r.streaming = true := hreq ▸ hon
  have hrf : r.frames = n + 1 := hreq ▸ hf
  have hrd : r.delivered = s.delivered := hreq ▸ rfl
  have hrt : r.troubles = s.troubles := hreq ▸ rfl
  simp only [steady, hwait] at hs
  split at hs
  · have hq := qbuf_kept (putOut (r.trouble .waitFailed) s.asyncOut) s.asyncVdin1 e.qbufPrev
    have hq' := qbuf_kept { PathB.qbuf (putOut (r.trouble .waitFailed) s.asyncOut) s.asyncVdin1
      e.qbufPrev with asyncPending := false } i e.qbufCur
    cases hs
    exact .drop ((((hr.trouble _).putOut.qbuf fun hL => (hacc hL).1).setPending false).qbuf
        fun hL => (hacc hL).2) hq'.asyncPending (hq'.streaming.trans (hq.streaming.trans hrs)) hon
      (hq'.frames.trans (hq.frames.trans hrf)) (hq'.delivered.trans (hq.delivered.trans hrd)) hknown
      rfl (hq'.troubles.trans (hq.troubles.trans (congrArg (· ++ _) hrt)))
  · next hok =>
    have hq := qbuf_kept r s.asyncVdin1 e.qbufPrev
    have hrest := hr.qbuf (a := e.qbufPrev) fun hL => (hacc hL).1
    have hqs := hq.streaming.trans hrs
    have hqf := hq.frames.trans hrf
    have hqd := hq.delivered.trans hrd
    have hqt := hq.troubles.trans hrt
    cases hwrap : wrapFailure e with
    | some x =>
      rw [hwrap] at hs
      have hq' := qbuf_kept { putOut ((PathB.qbuf r s.asyncVdin1 e.qbufPrev).trouble x) s.asyncOut
        with asyncPending := false } i e.qbufCur
      cases hs
      exact .drop (((hrest.trouble _).putOut.setPending false).qbuf fun hL => (hacc hL).2)
        hq'.asyncPending (hq'.streaming.trans hqs) hon (hq'.frames.trans hqf)
        (hq'.delivered.trans hqd) hknown (wrapFailure_isFailure hwrap)
        (hq'.troubles.trans (congrArg (· ++ _) hqt))
    | none =>
      rw [hwrap] at hs
      cases hs
      have hne : i ≠ s.asyncVdin1 := fun he => hr.owned.hand_ne (he ▸ List.mem_singleton_self i)
      have hqi : (PathB.qbuf r s.asyncVdin1 e.qbufPrev).vdin1 i = some n := by
        rw [qbuf_vdin1_ne hne, hreq]
        exact hn
      have hqo : (PathB.qbuf r s.asyncVdin1 e.qbufPrev).out s.asyncOut = some m := by
        rw [hq.out, hreq]
        refine (Function.update_self ..).trans ?_
        rw [if_pos (by simpa using hok)]
        exact hm
      exact .ahead (submitNext_spec hrest fun hL => (hacc hL).2) hqo hqi hon hqs hqf hqd hqt hp hm
        hknown

/-! ### Clean exits -/

/-- Draining gives back the buffer and the slot of the job in flight. -/
theorem drainAsync_spec {k a : Bool} (h : Running L s [] []) (hp : s.asyncPending = true)
    (ha : L → a = true) : Resting L (drainAsync s k a) [] [] ∧
      (drainAsync s k a).asyncPending = false ∧ (drainAsync s k a).streaming = s.streaming ∧
      (drainAsync s k a).frames = s.frames ∧ (drainAsync s k a).delivered = s.delivered ∧
      (drainAsync s k a).troubles = s.troubles := by
  obtain ⟨r, hwait, hr, hreq⟩ := h.wait hp k
  have hv : r.asyncVdin1 = s.asyncVdin1 := hreq ▸ rfl
  have ho : r.asyncOut = s.asyncOut := hreq ▸ rfl
  have hq := qbuf_kept r s.asyncVdin1 a
  have hrest := hr.qbuf (a := a) ha
  have heq : drainAsync s k a =
      { putOut (PathB.qbuf r s.asyncVdin1 a) s.asyncOut with asyncPending := false } := by
    simp only [drainAsync, hwait, hv]
    rw [if_pos hr.owned.fresh.1, hq.asyncOut, ho, if_pos hrest.owned.slot_lt]
  rw [heq]
  refine ⟨hrest.putOut.setPending false, rfl, hq.streaming.trans ?_, hq.frames.trans ?_,
    hq.delivered.trans ?_, hq.troubles.trans ?_⟩ <;> rw [hreq]

/-- The state between two calls. -/
structure Between (L : Prop) (s : Pipe) : Prop where
  running : Running L s [] []
  offline : s.vdin1TenBit = true → s.streaming = false →
    s.queued = [] ∧ s.asyncPending = false
  known : s.vdin1TenBit = true → ∀ d ∈ s.delivered, d ≠ none
  flying : s.asyncPending = true → ∃ m, s.vdin1 s.asyncVdin1 = some m

/-- What a call does that starts in `s`. -/
structure Called (L : Prop) (s t : Pipe) (f : Flow) : Prop where
  between : Between L t
  tenBit : t.vdin1TenBit = s.vdin1TenBit
  streaming : t.streaming = false ↔ s.streaming = false ∨ f = .eos
  move : s.vdin1TenBit = true → Lookahead.Move s.view (f = .ok) t.view

theorem Running.streamoff (h : Running L s hand grab) :
    Running L (vdin1Streamoff s) hand grab :=
  ⟨h.owned.streamoff, h.slot, h.clear, h.jobs, h.vk, h.ten⟩

theorem Running.note (h : Running L s hand grab) (x : Note) : Running L (s.note x) hand grab :=
  h.of_kept (note_kept s x) (h.owned.note x)

theorem cleanExit_spec (reason : String) (h : Between L s) (ha : L → e.qbufsAccepted = true) :
    Called L s (cleanExit s reason e).1 .eos := by
  have hacc : L → e.qbufPrev = true := fun hL => by
    have := ha hL
    simp only [Env.qbufsAccepted, Bool.and_eq_true] at this
    exact this.1.1
  have hrun : Running L (s.trouble .cleanExit) [] [] :=
    ⟨h.running.owned.record s.asyncPending _ s.notes, h.running.slot, h.running.clear,
      h.running.jobs, h.running.vk, h.running.ten⟩
  -- drained or not, nothing is in flight when the stream is stopped
  have hdone : ∃ r, Running L r [] [] ∧ r.asyncPending = false ∧ r.frames = s.frames ∧
      r.delivered = s.delivered ∧ r.troubles = s.troubles ++ [.cleanExit] ∧
      r.vdin1TenBit = s.vdin1TenBit ∧
      (cleanExit s reason e).1 = vdin1Streamoff (r.note (.posted reason)) := by
    by_cases hp : s.asyncPending = true
    · obtain ⟨hrest, hpend, -, hf, hd, ht⟩ := drainAsync_spec (k := e.waitAsync)
        (a := e.qbufPrev) hrun hp hacc
      have hten := h.running.ten hp
      refine ⟨_, hrest.done hpend, hpend, hf, hd, ht, hrest.ten.trans hten.symm, ?_⟩
      simp only [cleanExit]
      rw [if_pos (by simp [Pipe.trouble, hp, hten, h.running.vk hten])]
    · refine ⟨_, hrun, Bool.eq_false_iff.mpr hp, rfl, rfl, rfl, rfl, ?_⟩
      simp only [cleanExit]
      rw [if_neg (by simp [Pipe.trouble, hp])]
  obtain ⟨r, hr, hp, hf, hd, ht, hten, heq⟩ := hdone
  rw [heq]
  refine ⟨⟨(hr.note _).streamoff, fun _ _ => ⟨rfl, hp⟩, ?_, ?_⟩, hten,
    ⟨fun _ => .inr rfl, fun _ => rfl⟩, fun _ => ?_⟩
  · intro ht'
    rw [show (vdin1Streamoff (r.note (.posted reason))).delivered = s.delivered from hd]
    exact h.known (hten ▸ ht')
  · intro hp'
    exact absurd (hp.symm.trans hp') nofun
  · have hview : (vdin1Streamoff (r.note (.posted reason))).view =
        { s.view with inFlight := none, cut := true, offline := true } := by
      simp [Pipe.view, vdin1Streamoff, Pipe.note, hp, hf, hd, ht, Trouble.isFailure]
    rw [hview]
    exact .exit s.view

/-! ### One call -/

/-- While a call waits for a frame nothing changes but what downstream gives back. -/
structure Calm (L : Prop) (s t : Pipe) : Prop where
  kept : Kept s t
  running : Running L t [] []
  driver : s.vdin1TenBit = true → t.vdin1 = s.vdin1 ∧ t.queued = s.queued

theorem Calm.dispose (h : Calm L s t) (u : Unref) : Calm L s (dispose t u) where
  kept := h.kept.trans (dispose_kept t u)
  running := h.running.of_kept (dispose_kept t u) (h.running.owned.dispose u)
  driver := fun hten => by
    obtain ⟨hv, hq⟩ := h.running.owned.dispose_driver (h.kept.vdin1TenBit.trans hten) u
    exact ⟨hv.trans (h.driver hten).1, hq.trans (h.driver hten).2⟩

theorem Calm.note (h : Calm L s t) (x : Note) : Calm L s (t.note x) :=
  ⟨h.kept.trans (note_kept t x), h.running.note x, h.driver⟩

theorem Calm.view (h : Calm L s t) (hten : s.vdin1TenBit = true) : t.view = s.view := by
  simp [Pipe.view, h.kept.frames, h.kept.asyncPending, h.kept.asyncVdin1, (h.driver hten).1,
    h.kept.delivered, h.kept.troubles, h.kept.streaming]

theorem Calm.between (h : Calm L s t) (hs : Between L s) : Between L t where
  running := h.running
  offline := fun hten hoff => by
    have hten' := h.kept.vdin1TenBit.symm.trans hten
    rw [(h.driver hten').2, h.kept.asyncPending]
    exact hs.offline hten' (h.kept.streaming.symm.trans hoff)
  known := fun hten => by
    rw [h.kept.delivered]
    exact hs.known (h.kept.vdin1TenBit.symm.trans hten)
  flying := fun hp => by
    have hp' := h.kept.asyncPending.symm.trans hp
    rw [(h.driver (hs.running.ten hp')).1, h.kept.asyncVdin1]
    exact hs.flying hp'

/-- A drop between two calls is the same as one while a call waits. -/
theorem Between.calm (h : Between L s) : Calm L s s :=
  ⟨.refl s, h.running, fun _ => ⟨rfl, rfl⟩⟩

theorem Between.dispose (h : Between L s) (u : Unref) : Between L (dispose s u) :=
  (h.calm.dispose u).between h

/-- A call that comes back without a frame. -/
theorem Calm.called (h : Calm L s t) (hs : Between L s) (hf : f ≠ .ok) (he : f ≠ .eos) :
    Called L s t f where
  between := h.between hs
  tenBit := h.kept.vdin1TenBit
  streaming := by
    rw [h.kept.streaming]
    exact ⟨.inl, fun hoff => hoff.resolve_right he⟩
  move := fun hten => by
    rw [h.view hten, decide_eq_false hf]
    exact .rest s.view

theorem Running.qbuf {a : Bool} (h : Running L s (i :: hand) grab) (ha : L → a = true) :
    Running L (qbuf s i a) hand grab :=
  h.of_kept (qbuf_kept s i a) (h.owned.qbuf ha)

/-- In 8-bit mode a call returns the captured buffer or hands it back to the driver. -/
theorem eightBit_spec (h : Running L s [i] []) (hten : s.vdin1TenBit = false) :
    Running L (eightBit s i e).1 [] [] ∧ (eightBit s i e).1.vdin1TenBit = false ∧
      (eightBit s i e).1.streaming = s.streaming ∧ (eightBit s i e).2 ≠ .eos := by
  have hL : ¬ L := fun hL => absurd (hten.symm.trans (h.owned.idle hL).1) nofun
  unfold eightBit
  split
  · next x _ =>
    have hr : Running L (s.trouble x) [i] [] :=
      ⟨h.owned.record s.asyncPending _ s.notes, h.slot, h.clear, h.jobs, h.vk, h.ten⟩
    have hq := qbuf_kept (s.trouble x) i e.qbufCur
    exact ⟨hr.qbuf fun hl => absurd hl hL, hq.vdin1TenBit.trans hten, hq.streaming, nofun⟩
  · refine ⟨⟨Owned.deliver (.vdin1 i) h.owned (fun ht => ?_) nofun, h.slot, h.clear, h.jobs,
      h.vk, h.ten⟩, hten, rfl, nofun⟩
    exact absurd (hten.symm.trans ht) nofun

theorem Running.dqbuf (h : Running L s hand grab) (hs : dqbuf s i = some t) :
    Running L t (i :: hand) grab := by
  have ho := h.owned.dqbuf hs
  obtain ⟨-, rfl⟩ := dqbuf_eq hs
  exact ⟨ho, h.slot, h.clear, h.jobs, h.vk, h.ten⟩

/-- Dequeuing shows in the view only as one more frame. -/
theorem dqbuf_view (hs : dqbuf s i = some t) (h : Running L t (i :: hand) grab) :
    { t.view with frames := s.frames } = s.view ∧
      (t.asyncPending = true → t.vdin1 t.asyncVdin1 = s.vdin1 s.asyncVdin1) := by
  have hne : s.asyncPending = true → s.asyncVdin1 ≠ i := fun hp => by
    obtain ⟨-, rfl⟩ := dqbuf_eq hs
    refine h.owned.hand_jobs ⟨1 - s.vkSlot, s.asyncVdin1, s.asyncOut⟩ ?_
    rw [h.jobs, Pipe.asyncJobs, if_pos hp]
    exact List.mem_singleton_self _
  obtain ⟨-, rfl⟩ := dqbuf_eq hs
  have hsame : s.asyncPending = true →
      Function.update s.vdin1 i (some s.frames) s.asyncVdin1 = s.vdin1 s.asyncVdin1 :=
    fun hp => Function.update_of_ne (hne hp) _ _
  refine ⟨?_, hsame⟩
  cases hp : s.asyncPending with
  | false => simp [Pipe.view, hp]
  | true => simp [Pipe.view, hp, hsame hp]

/-- What a call does with the frame it has dequeued. -/
theorem convert_spec {r u : Pipe} (h : Calm L s r) (hs : Between L s) (hdq : dqbuf r i = some t)
    (ha : L → e.qbufsAccepted = true) (hu : convert t i e = some (u, f)) : Called L s u f := by
  have hrun := h.running.dqbuf hdq
  obtain ⟨hview, hfly⟩ := dqbuf_view hdq hrun
  have hb := h.between hs
  obtain ⟨hon, heq⟩ := dqbuf_eq hdq
  have htr : t.vdin1TenBit = r.vdin1TenBit := heq ▸ rfl
  have hts : t.streaming = true := heq ▸ hon
  have htn : t.vdin1 i = some r.frames := by
    rw [heq]
    exact Function.update_self ..
  have htf : t.frames = r.frames + 1 := heq ▸ rfl
  have htd : t.delivered = r.delivered := heq ▸ rfl
  have htp : t.asyncPending = r.asyncPending := heq ▸ rfl
  have hson : ¬ s.streaming = false := by simp [← h.kept.streaming, hon]
  rw [convert, if_neg (Nat.not_le.mpr hrun.owned.fresh.1)] at hu
  split at hu
  · next hten =>
    have hrten := htr.symm.trans hten
    have hsten : s.vdin1TenBit = true := h.kept.vdin1TenBit.symm.trans hrten
    have hknown : ∀ d ∈ t.delivered, d ≠ none := htd ▸ hb.known hrten
    have hret : Returned L { t.view with frames := r.frames } u f := by
      split at hu
      · next hp =>
        obtain ⟨m, hm⟩ := hb.flying (htp.symm.trans hp)
        exact steady_spec hrun hp hts htn htf ((hfly hp).trans hm) hknown ha (Option.some_inj.mp hu)
      · next hp =>
        rw [Bool.not_eq_true] at hp
        have hrest : Resting L t [i] [] := ⟨hrun.owned, hrun.slot, hrun.clear,
          hrun.jobs.trans (by simp [Pipe.asyncJobs, hp]), hrun.vk hten, hten⟩
        exact prime_spec hrest hp hts htn htf hknown ha hu
    have hon' : ¬ u.streaming = false := by simp [hret.streaming]
    refine ⟨⟨hret.running, fun _ hoff => absurd hoff hon', fun _ => hret.known, hret.flying⟩,
      hret.tenBit.trans hsten.symm, ⟨fun hoff => absurd hoff hon', fun hoff => ?_⟩, fun _ => ?_⟩
    · exact absurd (hoff.resolve_right hret.flow) hson
    · rw [← h.view hsten, ← hview]
      exact hret.move
  · next hten =>
    rw [Bool.not_eq_true] at hten
    obtain ⟨hr, hten', hst, hflow⟩ := eightBit_spec (e := e) hrun hten
    rw [Option.some_inj.mp hu] at hr hten' hst hflow
    have hno : ¬ u.vdin1TenBit = true := fun ht =>
      absurd (hten'.symm.trans ht) Bool.false_ne_true
    refine ⟨⟨hr, fun ht => absurd ht hno, fun ht => absurd ht hno,
        fun hp => absurd (hr.ten hp) hno⟩,
      hten'.trans (hten.symm.trans (htr.trans h.kept.vdin1TenBit)),
      ⟨fun hoff => ?_, fun hoff => ?_⟩, fun ht => ?_⟩
    · exact absurd (hoff.symm.trans (hst.trans hts)) Bool.false_ne_true
    · exact absurd (hoff.resolve_right hflow) hson
    · exact absurd (hten.symm.trans (htr.trans (h.kept.vdin1TenBit.trans ht))) Bool.false_ne_true

/-- The format check changes only its counter. -/
theorem checkFormat_eq {r : Pipe} {fmt : Option Format} {b : Bool}
    (h : vdin1CheckFormatChange r fmt = (t, b)) :
    t = { r with fmtPollCounter := (r.fmtPollCounter + 1) % 2 ^ 64 } := by
  simp only [vdin1CheckFormatChange] at h
  split at h
  · exact (congrArg Prod.fst h).symm
  · split at h <;> exact (congrArg Prod.fst h).symm

theorem checkFormat_calm {fmt : Option Format} {b : Bool} (hs : Between L s)
    (h : vdin1CheckFormatChange { s with notes := [] } fmt = (t, b)) : Calm L s t := by
  have hr := hs.running
  obtain rfl := checkFormat_eq h
  exact ⟨by constructor <;> rfl, ⟨⟨hr.owned.bufs, hr.owned.slots, hr.owned.shown, hr.owned.tenBit,
    hr.owned.idle⟩, hr.slot, hr.clear, hr.jobs, hr.vk, hr.ten⟩, fun _ => ⟨rfl, rfl⟩⟩

theorem Calm.cleanExit {reason : String} (h : Calm L s t) (hs : Between L s)
    (ha : L → e.qbufsAccepted = true) : Called L s (cleanExit t reason e).1 .eos := by
  have hc := cleanExit_spec reason (h.between hs) ha
  refine ⟨hc.between, hc.tenBit.trans h.kept.vdin1TenBit, ⟨fun _ => .inr rfl, fun _ => rfl⟩,
    fun hten => ?_⟩
  rw [← h.view hten]
  exact hc.move (h.kept.vdin1TenBit.trans hten)

theorem createPathB_spec (hs : Between L s) (ha : L → e.qbufsAccepted = true)
    (h : createPathB s e = some (t, f)) : Called L s t f := by
  unfold createPathB at h
  split at h
  · next r hcheck =>
    cases h
    exact (checkFormat_calm hs hcheck).cleanExit hs ha
  · next r hcheck =>
    have hr := checkFormat_calm hs hcheck
    cases hpoll : pollFrame 5 r e.passes 0 with
    | none =>
      rw [hpoll] at h
      cases h
    | some p =>
      obtain ⟨w, got⟩ := p
      rw [hpoll] at h
      have hend := pollFrame_rule (P := Calm L s) (fun r u hr => hr.dispose u)
        (fun r hr => hr.note _) hpoll hr
      cases hend with
      | frame hq hdq => exact convert_spec hq hs hdq ha h
      | signal hq =>
        cases h
        exact (hq.note _).cleanExit hs ha
      | other hw hf hsig =>
        cases got with
        | frame i => exact absurd rfl (hf i)
        | signal a => exact absurd rfl (hsig a)
        | timedOut =>
          cases h
          exact hw.cleanExit hs ha
        | _ =>
          cases h
          exact hw.called hs nofun nofun

end Streambox.PathB
