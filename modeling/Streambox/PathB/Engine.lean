import Streambox.PathB.Ownership

/-! Path B: the operations of a call.

    `Running` is the invariant while a call holds some buffers and slots: the one job in flight is
    the one the element remembers. Between a wait and the next submit a 10-bit call is `Resting`:
    the GPU has nothing to do, so the next submit finds its slot clear. Each operation has one
    lemma here; the calls are put together from them. -/

namespace Streambox.PathB
open Streambox.Lib

variable {L : Prop} {s t : Pipe} {hand grab : List Nat} {i o : Nat}

/-! ### What a queue operation leaves alone -/

/-- Everything but the places of the buffers and slots, and what is recorded of the call. -/
structure Kept (s t : Pipe) : Prop where
  vdin1TenBit : t.vdin1TenBit = s.vdin1TenBit
  nBufs : t.nBufs = s.nBufs
  outCount : t.outCount = s.outCount
  vkInitialized : t.vkInitialized = s.vkInitialized
  vkSlot : t.vkSlot = s.vkSlot
  asyncPending : t.asyncPending = s.asyncPending
  asyncOut : t.asyncOut = s.asyncOut
  asyncVdin1 : t.asyncVdin1 = s.asyncVdin1
  streaming : t.streaming = s.streaming
  jobs : t.jobs = s.jobs
  slotsClear : t.slotsClear = s.slotsClear
  out : t.out = s.out
  frames : t.frames = s.frames
  delivered : t.delivered = s.delivered
  troubles : t.troubles = s.troubles

theorem Kept.refl (s : Pipe) : Kept s s := by constructor <;> rfl

theorem Kept.trans {r : Pipe} (h : Kept s t) (k : Kept t r) : Kept s r :=
  ⟨k.1.trans h.1, k.2.trans h.2, k.3.trans h.3, k.4.trans h.4, k.5.trans h.5, k.6.trans h.6,
    k.7.trans h.7, k.8.trans h.8, k.9.trans h.9, k.10.trans h.10, k.11.trans h.11, k.12.trans h.12,
    k.13.trans h.13, k.14.trans h.14, k.15.trans h.15⟩

theorem qbuf_kept (s : Pipe) (i : Nat) (a : Bool) : Kept s (qbuf s i a) := by
  unfold qbuf
  split <;> constructor <;> rfl

theorem dispose_kept (s : Pipe) (u : Unref) : Kept s (dispose s u) := by
  unfold dispose
  split
  · exact .refl s
  · next b _ =>
    have herase : Kept s { s with live := s.live.eraseIdx u.pos } := by
      constructor <;> rfl
    cases b.hold with
    | p010 o =>
      simp only [release, p010BufRelease]
      split <;> constructor <;> rfl
    | vdin1 i =>
      simp only [release, pathBBufRelease]
      split
      · exact herase.trans (qbuf_kept _ _ _)
      · exact herase

/-- What every drop preserves, dropping a list of buffers preserves. -/
theorem disposeAll_rule {P : Pipe → Prop} (hd : ∀ s u, P s → P (dispose s u)) :
    ∀ (us : List Unref) {s : Pipe}, P s → P (disposeAll s us)
  | [], _, h => h
  | u :: us, s, h => disposeAll_rule hd us (hd s u h)

/-- The batches of events a polling loop comes to see, if none of them asks for an action. -/
def shownBatches (maxTimeouts : Nat) : List Pass → Nat → List (List Event)
  | [], _ => []
  | p :: ps, timeouts =>
    if p.flushBefore then []
    else match p.poll with
      | .interrupted => shownBatches maxTimeouts ps timeouts
      | .failed => []
      | .timeout =>
        if p.flushAfter || maxTimeouts ≤ timeouts + 1 then []
        else shownBatches maxTimeouts ps (timeouts + 1)
      | .ready flushPipe pri =>
        if p.flushAfter || flushPipe then []
        else pri.toList ++
          if p.dequeue = .again then shownBatches maxTimeouts ps timeouts else []

/-- How a polling loop can end that sees the batches `bs`, if what it does meanwhile keeps `P`. -/
inductive PollEnd (P : Pipe → Prop) (bs : List (List Event)) : Pipe → Got → Prop
  | frame {r t : Pipe} {i : Nat} (hr : P r) (hdq : dqbuf r i = some t) : PollEnd P bs t (.frame i)
  | signal {r : Pipe} {evs : List Event} (hr : P r) (hmem : evs ∈ bs) (hmon : r.monitor = true)
      (hact : handleSignalEvent evs ≠ .none) :
      PollEnd P bs (r.note (.drained (handleSignalEvent evs))) (.signal (handleSignalEvent evs))
  | other {t : Pipe} {got : Got} (ht : P t) (hf : ∀ i, got ≠ .frame i)
      (hs : ∀ a, got ≠ .signal a) : PollEnd P bs t got

theorem PollEnd.mono {P : Pipe → Prop} {bs cs : List (List Event)} {got : Got}
    (h : PollEnd P bs t got) (hsub : ∀ evs ∈ bs, evs ∈ cs) : PollEnd P cs t got := by
  cases h with
  | frame hr hdq => exact .frame hr hdq
  | signal hr hmem hmon hact => exact .signal hr (hsub _ hmem) hmon hact
  | other ht hf hs => exact .other ht hf hs

/-- A batch without an action leaves at most a note. -/
theorem noteDrained_rule {P : Pipe → Prop} (hn : ∀ s, P s → P (s.note (.drained .none)))
    {evs : Option (List Event)} (hs : P s) (h : handleSignalEvent (evs.getD []) = .none) :
    P (noteDrained s evs) := by
  cases evs with
  | none => exact hs
  | some evs =>
    rw [Option.getD_some] at h
    rw [noteDrained, h]
    exact hn s hs

theorem pollFrame_rule {P : Pipe → Prop} (hd : ∀ s u, P s → P (dispose s u))
    (hn : ∀ s, P s → P (s.note (.drained .none))) {m : Nat} : ∀ {ps : List Pass} {s t : Pipe}
    {k : Nat} {got : Got}, pollFrame m s ps k = some (t, got) → P s →
    PollEnd P (shownBatches m ps k) t got
  | [], _, _, _, _, h, _ => by cases h
  | p :: ps, s, t, k, got, h, hs => by
    have hu := disposeAll_rule hd p.unrefs hs
    simp only [pollFrame, shownBatches] at h ⊢
    split at h
    · cases h
      exact .other hs nofun nofun
    rename_i hflush
    rw [if_neg hflush]
    cases hp : p.poll with
    | interrupted =>
      rw [hp] at h
      exact pollFrame_rule hd hn h hu
    | failed =>
      rw [hp] at h
      cases h
      exact .other hu nofun nofun
    | timeout =>
      rw [hp] at h
      simp only at h ⊢
      split at h
      · cases h
        exact .other hu nofun nofun
      split at h
      · cases h
        exact .other hu nofun nofun
      · next hfl hmax =>
        rw [if_neg (by simp [hfl, hmax])]
        exact pollFrame_rule hd hn h hu
    | ready fp pri =>
      rw [hp] at h
      simp only at h ⊢
      split at h
      · cases h
        exact .other hu nofun nofun
      rename_i hfl
      rw [if_neg hfl]
      split at h
      · next hact =>
        cases h
        -- only a monitored batch can ask for an action
        unfold monitored at hact ⊢
        split at hact
        · next hmon =>
          rw [if_pos hmon]
          cases pri with
          | none => exact absurd rfl hact
          | some evs => exact .signal hu (List.mem_cons_self ..) hmon hact
        · exact absurd rfl hact
      · next hact =>
        have hq := noteDrained_rule hn hu (not_not.mp hact)
        cases hdq : p.dequeue with
        | again =>
          rw [hdq] at h
          exact (pollFrame_rule hd hn h hq).mono fun evs he => List.mem_append_right _ he
        | failed =>
          rw [hdq] at h
          cases h
          exact .other hq nofun nofun
        | buffer i =>
          rw [hdq] at h
          obtain ⟨r, hr, he⟩ := Option.map_eq_some_iff.mp h
          cases he
          exact .frame hq hr

/-! ### Invariants of a call -/

/-- The job in flight, as the element remembers it. -/
def Pipe.asyncJobs (s : Pipe) : List Job :=
  if s.asyncPending then [⟨1 - s.vkSlot, s.asyncVdin1, s.asyncOut⟩] else []

/-- The state of the pipeline while a call holds the buffers `hand` and the slots `grab`. -/
structure Running (L : Prop) (s : Pipe) (hand grab : List Nat) : Prop where
  owned : Owned L s hand grab
  slot : s.vkSlot ≤ 1
  clear : s.slotsClear = true
  jobs : s.jobs = s.asyncJobs
  vk : s.vdin1TenBit = true → s.vkInitialized = true
  ten : s.asyncPending = true → s.vdin1TenBit = true

/-- Between a wait and the next submit of a 10-bit call the GPU has nothing to do. -/
structure Resting (L : Prop) (s : Pipe) (hand grab : List Nat) : Prop where
  owned : Owned L s hand grab
  slot : s.vkSlot ≤ 1
  clear : s.slotsClear = true
  jobs : s.jobs = []
  vk : s.vkInitialized = true
  ten : s.vdin1TenBit = true

theorem Running.of_kept {hand' grab' : List Nat} (h : Running L s hand grab) (hk : Kept s t)
    (ho : Owned L t hand' grab') : Running L t hand' grab' where
  owned := ho
  slot := hk.vkSlot ▸ h.slot
  clear := hk.slotsClear ▸ h.clear
  jobs := by
    rw [hk.jobs, h.jobs, Pipe.asyncJobs, Pipe.asyncJobs, hk.vkSlot, hk.asyncPending, hk.asyncOut,
      hk.asyncVdin1]
  vk := by
    rw [hk.vdin1TenBit, hk.vkInitialized]
    exact h.vk
  ten := by
    rw [hk.vdin1TenBit, hk.asyncPending]
    exact h.ten

theorem Resting.of_kept {hand' grab' : List Nat} (h : Resting L s hand grab) (hk : Kept s t)
    (ho : Owned L t hand' grab') : Resting L t hand' grab' :=
  ⟨ho, hk.vkSlot ▸ h.slot, hk.slotsClear ▸ h.clear, hk.jobs.trans h.jobs,
    hk.vkInitialized.trans h.vk, hk.vdin1TenBit.trans h.ten⟩

theorem Resting.done (h : Resting L s hand grab) (hp : s.asyncPending = false) :
    Running L s hand grab where
  owned := h.owned
  slot := h.slot
  clear := h.clear
  jobs := by rw [h.jobs, Pipe.asyncJobs, hp]; rfl
  vk := fun _ => h.vk
  ten := by rw [hp]; nofun

theorem Resting.trouble (h : Resting L s hand grab) (x : Trouble) :
    Resting L (s.trouble x) hand grab :=
  ⟨h.owned.record s.asyncPending _ s.notes, h.slot, h.clear, h.jobs, h.vk, h.ten⟩

theorem Resting.setPending (h : Resting L s hand grab) (p : Bool) :
    Resting L { s with asyncPending := p } hand grab :=
  ⟨h.owned.record p s.troubles s.notes, h.slot, h.clear, h.jobs, h.vk, h.ten⟩

theorem note_kept (s : Pipe) (n : Note) : Kept s (s.note n) := by constructor <;> rfl

theorem Resting.note (h : Resting L s hand grab) (x : Note) : Resting L (s.note x) hand grab :=
  h.of_kept (note_kept s x) (h.owned.note x)

theorem Resting.qbuf {a : Bool} (h : Resting L s (i :: hand) grab) (ha : L → a = true) :
    Resting L (qbuf s i a) hand grab :=
  h.of_kept (qbuf_kept s i a) (h.owned.qbuf ha)

theorem Resting.putOut (h : Resting L s hand (o :: grab)) : Resting L (putOut s o) hand grab :=
  ⟨h.owned.putOut, h.slot, h.clear, h.jobs, h.vk, h.ten⟩

theorem Resting.acquire (h : Resting L s hand grab) (hs : p010PoolAcquire s = some (o, t)) :
    Resting L t hand (o :: grab) ∧ t = { s with outFree := Function.update s.outFree o false } := by
  have ho := h.owned.acquire hs
  simp only [p010PoolAcquire, Option.map_eq_some_iff, Prod.mk.injEq] at hs
  obtain ⟨_, -, rfl, rfl⟩ := hs
  exact ⟨⟨ho, h.slot, h.clear, h.jobs, h.vk, h.ten⟩, rfl⟩

/-- Drops during a 10-bit call touch neither the driver nor the GPU. -/
theorem Resting.disposeAll (h : Resting L s hand grab) (us : List Unref) :
    Kept s (disposeAll s us) ∧ Resting L (disposeAll s us) hand grab ∧
      (disposeAll s us).vdin1 = s.vdin1 := by
  refine disposeAll_rule (P := fun r => Kept s r ∧ Resting L r hand grab ∧ r.vdin1 = s.vdin1)
    (fun r u ⟨hk, hr, hv⟩ => ?_) us ⟨.refl s, h, rfl⟩
  exact ⟨hk.trans (dispose_kept r u), hr.of_kept (dispose_kept r u) (hr.owned.dispose u),
    (hr.owned.dispose_driver hr.ten u).1.trans hv⟩

/-! ### The GPU -/

/-- The state after a submit on an idle GPU. -/
def launch (s : Pipe) (k i o : Nat) : Pipe :=
  { s with jobs := [⟨k, i, o⟩], out := Function.update s.out o none }

theorem Resting.submit_eq (h : Resting L s (i :: hand) (o :: grab)) (k : Nat) (ok : Bool) :
    vdin1VkSubmitAsync s i o k ok = if ok then (launch s k i o, true) else (s, false) := by
  have hclear : (s.slotsClear && s.jobs.all fun j => j.slot ≠ k) = s.slotsClear := by
    rw [h.jobs, List.all_nil, Bool.and_true]
  have hlt := h.owned.slot_lt
  unfold vdin1VkSubmitAsync
  rw [hclear]
  cases ok with
  | false => rw [if_neg (by simp)]; rfl
  | true =>
    rw [if_pos ⟨h.vk, hlt, rfl⟩]
    simp only [launch, h.jobs, List.nil_append, if_true]

theorem wait_eq {j : Job} (hj : s.jobs = [j]) (ok : Bool) :
    vdin1VkWaitAsync s j.slot ok = { s with
      jobs := []
      out := Function.update s.out j.out (if ok then s.vdin1 j.vdin1 else none) } := by
  simp [vdin1VkWaitAsync, hj]

theorem Resting.launch_owned {k : Nat} (h : Resting L s (i :: hand) (o :: grab)) :
    Owned L (launch s k i o) hand grab := by
  have hp := h.owned.push (k := k)
  rwa [h.jobs] at hp

/-- A synchronous conversion leaves the GPU idle, and the frame in its slot if it succeeds. -/
theorem Resting.convertSync (h : Resting L s (i :: hand) (o :: grab)) (e : Env) :
    ∃ r x, vdin1VkConvertSync s i o e = (r, x) ∧ Resting L r (i :: hand) (o :: grab) ∧
      (∃ y, r = { s with out := Function.update s.out o y } ∧ (x = none → y = s.vdin1 i)) ∧
      ∀ t, x = some t → t.isFailure = true := by
  unfold vdin1VkConvertSync
  rw [h.submit_eq]
  cases e.submitSync with
  | false =>
    exact ⟨s, _, rfl, h, ⟨s.out o, by rw [Function.update_eq_self], nofun⟩, by rintro _ ⟨⟩; rfl⟩
  | true =>
    have hj : (launch s s.vkSlot i o).jobs = [⟨s.vkSlot, i, o⟩] := rfl
    have hpop := h.launch_owned.pop (x := if e.waitSync then s.vdin1 i else none) hj
    have hw := wait_eq hj e.waitSync
    refine ⟨_, _, rfl, ?_, ⟨if e.waitSync then s.vdin1 i else none, ?_, ?_⟩, ?_⟩
    · show Resting L (vdin1VkWaitAsync (launch s s.vkSlot i o) s.vkSlot e.waitSync) _ _
      rw [hw]
      exact ⟨hpop, h.slot, h.clear, rfl, h.vk, h.ten⟩
    · refine hw.trans ?_
      simp only [launch, Function.update_idem, h.jobs]
    · cases e.waitSync <;> simp
    · cases e.waitSync with
      | false => rintro _ ⟨⟩; rfl
      | true => nofun

/-! ### Submitting the next frame -/

/-- What `submitNext` does for frame buffer `i`: the frame is in flight, or it is given up. -/
structure Submitted (L : Prop) (s : Pipe) (i : Nat) (hand grab : List Nat) (t : Pipe) : Prop where
  running : Running L t hand grab
  tenBit : t.vdin1TenBit = true
  streaming : t.streaming = s.streaming
  frames : t.frames = s.frames
  delivered : t.delivered = s.delivered
  out : ∀ o ∈ grab, t.out o = s.out o
  outcome : (t.asyncPending = true ∧ t.vdin1 t.asyncVdin1 = s.vdin1 i ∧ t.troubles = s.troubles) ∨
    t.asyncPending = false ∧ ∃ x, x.isFailure = true ∧ t.troubles = s.troubles ++ [x]

theorem submitNext_spec {e : Env} {a : Bool} (h : Resting L s (i :: hand) grab)
    (ha : L → a = true) : Submitted L s i hand grab (submitNext s i e a) := by
  obtain ⟨hk, hr, hv⟩ := h.disposeAll e.unrefsAsync
  -- the frame is given up: its buffer goes back to the driver
  have giveUp : ∀ {r : Pipe} {x : Trouble}, Resting L r (i :: hand) grab → Kept s r →
      x.isFailure = true →
      Submitted L s i hand grab (qbuf ({ r with asyncPending := false }.trouble x) i a) := by
    intro r x hr hk hx
    have hq := qbuf_kept ({ r with asyncPending := false }.trouble x) i a
    have hrest := ((hr.setPending false).trouble x).qbuf ha
    refine ⟨hrest.done hq.asyncPending, hrest.ten, hq.streaming.trans hk.streaming,
      hq.frames.trans hk.frames, hq.delivered.trans hk.delivered, fun o _ => ?_, .inr ⟨?_, x, hx, ?_⟩⟩
    · rw [hq.out]
      exact congrFun hk.out o
    · exact hq.asyncPending
    · rw [hq.troubles]
      exact congrArg (· ++ [x]) hk.troubles
  simp only [submitNext]
  cases hacq : p010PoolAcquire (disposeAll s e.unrefsAsync) with
  | none => exact giveUp hr hk rfl
  | some p =>
    obtain ⟨o, r'⟩ := p
    obtain ⟨hr', rfl⟩ := hr.acquire hacq
    simp only
    rw [hr'.submit_eq]
    cases e.submitAsync with
    | false => exact giveUp hr'.putOut ⟨hk.1, hk.2, hk.3, hk.4, hk.5, hk.6, hk.7, hk.8, hk.9, hk.10,
        hk.11, hk.12, hk.13, hk.14, hk.15⟩ rfl
    | true =>
      have ho := hr'.launch_owned (k := (disposeAll s e.unrefsAsync).vkSlot)
      have hslot := hr'.slot
      refine ⟨⟨⟨ho.bufs, ho.slots, ho.shown, ho.tenBit, ho.idle⟩, ?_, hr'.clear, ?_,
        fun _ => hr'.vk, fun _ => hr'.ten⟩, hr'.ten, hk.streaming, hk.frames, hk.delivered,
        fun o' ho' => ?_, .inl ⟨rfl, congrFun hv i, hk.troubles⟩⟩
      · show 1 - _ ≤ 1
        omega
      · have hflip : 1 - (1 - (disposeAll s e.unrefsAsync).vkSlot)
            = (disposeAll s e.unrefsAsync).vkSlot := by
          have : (disposeAll s e.unrefsAsync).vkSlot ≤ 1 := hslot
          omega
        simp [launch, Pipe.asyncJobs, hflip]
      · have hne : o' ≠ o := fun he => hr'.owned.grab_ne (he ▸ ho')
        rw [← hk.out]
        exact Function.update_of_ne hne _ _

/-! ### The second frame of a priming call -/

theorem dqbuf_eq (h : dqbuf s i = some t) : s.streaming = true ∧ t = { s with
    queued := s.queued.erase i
    vdin1 := Function.update s.vdin1 i (some s.frames)
    frames := s.frames + 1 } := by
  unfold dqbuf at h
  split at h
  · next hq => exact ⟨hq.1, (Option.some.inj h).symm⟩
  · cases h

theorem Resting.dqbuf (h : Resting L s hand grab) (hs : dqbuf s i = some t) :
    Resting L t (i :: hand) grab := by
  have ho := h.owned.dqbuf hs
  obtain ⟨-, rfl⟩ := dqbuf_eq hs
  exact ⟨ho, h.slot, h.clear, h.jobs, h.vk, h.ten⟩

/-- How a priming call leaves its second frame: not there, in flight or given up. -/
structure Second (L : Prop) (s : Pipe) (hand grab : List Nat) (t : Pipe) : Prop where
  running : Running L t hand grab
  tenBit : t.vdin1TenBit = true
  streaming : t.streaming = s.streaming
  delivered : t.delivered = s.delivered
  out : ∀ o ∈ grab, t.out o = s.out o
  outcome : (t.asyncPending = false ∧ t.frames = s.frames ∧
      t.troubles = s.troubles ++ [.noSecondFrame]) ∨
    (t.asyncPending = true ∧ t.vdin1 t.asyncVdin1 = some s.frames ∧ t.frames = s.frames + 1 ∧
      t.troubles = s.troubles) ∨
    (t.asyncPending = false ∧ t.frames = s.frames + 1 ∧
      ∃ x, x.isFailure = true ∧ t.troubles = s.troubles ++ [x])

theorem primeSecond_spec {e : Env} (h : Resting L s hand grab) (hp : s.asyncPending = false)
    (ha : L → e.qbufSecond = true) (hs : primeSecond s e = some t) : Second L s hand grab t := by
  obtain ⟨⟨r, got⟩, hpoll, rfl⟩ := Option.map_eq_some_iff.mp hs
  have none : ∀ {r : Pipe}, Kept s r → Resting L r hand grab →
      Second L s hand grab (r.trouble .noSecondFrame) := by
    intro r hk hr
    have hpr := hk.asyncPending.trans hp
    exact ⟨(hr.trouble _).done hpr, hr.ten, hk.streaming, hk.delivered,
      fun o _ => congrFun hk.out o, .inl ⟨hpr, hk.frames, congrArg (· ++ _) hk.troubles⟩⟩
  have hend := pollFrame_rule (P := fun r => Kept s r ∧ Resting L r hand grab)
    (fun r u ⟨hk, hr⟩ => ⟨hk.trans (dispose_kept r u),
      hr.of_kept (dispose_kept r u) (hr.owned.dispose u)⟩)
    (fun r ⟨hk, hr⟩ => ⟨hk.trans (note_kept r _), hr.note _⟩) hpoll ⟨.refl s, h⟩
  cases hend with
  | @frame q _ i hcalm hdq =>
    obtain ⟨hk, hq⟩ := hcalm
    have hr := hq.dqbuf hdq
    obtain ⟨-, rfl⟩ := dqbuf_eq hdq
    simp only
    rw [if_neg (Nat.not_le.mpr hr.owned.fresh.1)]
    have hsub := submitNext_spec (e := e) hr ha
    have hframe : (some q.frames : Option Nat) = some s.frames := congrArg some hk.frames
    refine ⟨hsub.running, hsub.tenBit, hsub.streaming.trans hk.streaming,
      hsub.delivered.trans hk.delivered, fun o ho => (hsub.out o ho).trans (congrFun hk.out o), ?_⟩
    have hframes := hsub.frames.trans (congrArg (· + 1) hk.frames)
    rcases hsub.outcome with ⟨hpend, hv, htr⟩ | ⟨hpend, x, hx, htr⟩
    · refine .inr (.inl ⟨hpend, hv.trans ?_, hframes, htr.trans hk.troubles⟩)
      exact (Function.update_self ..).trans hframe
    · exact .inr (.inr ⟨hpend, hframes, x, hx, htr.trans (congrArg (· ++ [x]) hk.troubles)⟩)
  | @signal q _ hcalm =>
    obtain ⟨hk, hr⟩ := hcalm
    exact none (hk.trans (note_kept q _)) (hr.note _)
  | other hcalm hf =>
    obtain ⟨hk, hr⟩ := hcalm
    cases got with
    | frame i => exact absurd rfl (hf i)
    | _ => exact none hk hr

end Streambox.PathB
