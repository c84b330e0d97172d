import Streambox.Vfmcap.Decimation
import Streambox.Lib.Spacing

/-! libvfmcap: the target frame rate as a bound.

    A delivery moves the accumulator on by one interval, whatever time has passed. As long as the
    frames come no later than half an interval after it, deliveries are spread over the line as the
    accumulator is, and a window holds one for each interval and two more. After a stall the
    accumulator lags, and every frame is delivered until it has caught up.

        accum      |-----I-----|-----I-----|-----I-----|
        delivered    x        x   x        .  .  .  .  xxxx
                                           stall

    A reconfiguration puts the accumulator to zero, and the next frame starts it again: that frame
    must not come before the place where the accumulator stood. -/

namespace Streambox.Vfmcap.FrameRate
open Streambox.Lib
open Streambox.Vfmcap.Decimation

/-- A frame that decimation decides about: the accumulator it meets, its timestamp, and whether the
    call returns it with `VFMCAP_OK`. -/
structure Beat where
  accum : Nat
  timestampUs : Nat
  ok : Bool
  deriving DecidableEq, Repr

def returnsOk : Outcome → Bool
  | .done .ok (some _) => true
  | _ => false

/-- The frame of a pass. The first one after a reconfiguration is not decimated. -/
def takeBeats (w : World) (a : Attempt) : List Beat :=
  match a.dqbuf, a.dmabuf, takeFrame w a with
  | .ok b, .ok _, some (_, out) =>
    if w.ctx.reconfigPending then [] else [⟨w.ctx.tsAccum, b.timestampUs, returnsOk out⟩]
  | _, _, _ => []

def passBeats (w : World) (timeout : Int) (a : Attempt) : List Beat :=
  match waitSignal w timeout a with
  | some (w₁, none) =>
    match waitFrame w₁ timeout a with
    | some (w₂, none) => takeBeats w₂ a
    | _ => []
  | _ => []

def attemptsBeats (timeout : Int) : World → List Attempt → List Beat
  | _, [] => []
  | w, a :: rest =>
    passBeats w timeout a ++
      match attempt w timeout a with
      | some (w', .again) => attemptsBeats timeout w' rest
      | _ => []

def callBeats (w : World) : Call → List Beat
  | .acquire timeout env => if w.ctx.streaming then attemptsBeats timeout w env else []
  | _ => []

/-- The frames of a run that decimation decides about. -/
def beats : World → List Call → List Beat
  | _, [] => []
  | w, c :: cs =>
    callBeats w c ++
      match step w c with
      | some w' => beats w' cs
      | none => []

/-- The timestamp that a call returns with `VFMCAP_OK`. -/
def returned (w : World) : Call → List Nat
  | .acquire timeout env =>
    match acquireFrame w timeout env with
    | some (_, .ok, some f) => [f.timestampUs]
    | _ => []
  | _ => []

/-- The timestamps that a run returns with `VFMCAP_OK`. -/
def delivered : World → List Call → List Nat
  | _, [] => []
  | w, c :: cs =>
    returned w c ++
      match step w c with
      | some w' => delivered w' cs
      | none => []

/-! ### The condition -/

/-- A frame comes at most half an interval after the accumulator; one that starts it comes not
    before `horizon`, where it stood; and nothing leaves the signed range. -/
def onPace (interval horizon : Nat) (b : Beat) : Bool :=
  b.timestampUs + 2 * interval < 2 ^ 63 &&
    if b.accum = 0 then horizon ≤ b.timestampUs
    else b.timestampUs ≤ b.accum + (interval - interval / 2)

/-- Where the accumulator stands after a frame, and would stand without a reconfiguration. -/
def horizonAfter (interval horizon : Nat) (b : Beat) : Nat :=
  if (tick interval b.accum b.timestampUs).2 then startAt b.accum b.timestampUs + interval
  else horizon

def keepsPace (interval : Nat) : Nat → List Beat → Bool
  | _, [] => true
  | horizon, b :: rest =>
    onPace interval horizon b && keepsPace interval (horizonAfter interval horizon b) rest

/-! ### The accumulator over the frames -/

/-- Each frame meets the accumulator that the one before left, or one that was put to zero. -/
def Chains (interval : Nat) : Nat → List Beat → Nat → Prop
  | accum, [], last => last = accum ∨ last = 0
  | accum, b :: rest, last =>
    (b.accum = accum ∨ b.accum = 0) ∧
      Chains interval (tick interval b.accum b.timestampUs).1 rest last

/-- The delivered frames with the places of the accumulator. -/
def places (interval : Nat) (L : List Beat) : List Placed :=
  (L.filter fun b => (tick interval b.accum b.timestampUs).2).map fun b =>
    ⟨startAt b.accum b.timestampUs, b.timestampUs⟩

section chain
variable {interval accum mid last horizon : Nat} {L L' : List Beat} {b : Beat}

theorem chains_zero (h : Chains interval 0 L last) : Chains interval accum L last := by
  cases L with
  | nil =>
    rcases h with h | h
    · exact .inr h
    · exact .inr h
  | cons b L =>
    refine ⟨.inr ?_, h.2⟩
    rcases h.1 with h | h
    · exact h
    · exact h

theorem Chains.append (h : Chains interval accum L mid) (h' : Chains interval mid L' last) :
    Chains interval accum (L ++ L') last := by
  induction L generalizing accum with
  | nil =>
    rcases h with rfl | rfl
    · exact h'
    · exact chains_zero h'
  | cons b L ih => exact ⟨h.1, ih h.2⟩

theorem Chains.of_eq (h : last = accum) : Chains interval accum [] last := .inl h

theorem Chains.single (interval : Nat) (b : Beat) :
    Chains interval b.accum [b] (tick interval b.accum b.timestampUs).1 :=
  ⟨.inl rfl, .inl rfl⟩

/-- A frame that meets a small accumulator is delivered from half an interval before it on. -/
theorem tick_iff (hbig : b.accum < 2 ^ 63) (hts : b.timestampUs < 2 ^ 63) :
    (tick interval b.accum b.timestampUs).2 = true ↔
      startAt b.accum b.timestampUs ≤ b.timestampUs + interval / 2 := by
  by_cases hzero : b.accum = 0
  · rw [hzero, tick_zero, startAt, if_pos rfl]
    simp
  · rw [tick_pos (Nat.pos_of_ne_zero hzero) hbig hts, startAt, if_neg hzero]
    split <;> simp_all

/-- One frame on pace: where it is placed, and what holds for the next. -/
theorem onPace_step (hchain : b.accum = accum ∨ b.accum = 0) (haccum : accum = 0 ∨ accum = horizon)
    (hbig : horizon < 2 ^ 63) (h : onPace interval horizon b = true) :
    ((tick interval b.accum b.timestampUs).2 = true →
      horizon ≤ startAt b.accum b.timestampUs ∧
      startAt b.accum b.timestampUs ≤ b.timestampUs + interval / 2 ∧
      b.timestampUs ≤ startAt b.accum b.timestampUs + (interval - interval / 2)) ∧
    ((tick interval b.accum b.timestampUs).1 = 0 ∨
      (tick interval b.accum b.timestampUs).1 = horizonAfter interval horizon b) ∧
    horizonAfter interval horizon b < 2 ^ 63 := by
  rw [onPace, Bool.and_eq_true, decide_eq_true_eq] at h
  obtain ⟨hsmall, hpace⟩ := h
  have hsmallAccum : b.accum < 2 ^ 63 := by
    rcases hchain with hb | hb <;> rcases haccum with ha | ha <;> omega
  have hiff : (tick interval b.accum b.timestampUs).2 = true ↔ _ := tick_iff hsmallAccum (by omega)
  by_cases htaken : (tick interval b.accum b.timestampUs).2 = true
  · have hplace := hiff.mp htaken
    have htick : (tick interval b.accum b.timestampUs).1 =
        startAt b.accum b.timestampUs + interval := by
      rw [tick] at htaken ⊢
      split at htaken
      case isTrue => cases htaken
      case isFalse hnot =>
        rw [if_neg hnot]
        exact Nat.mod_eq_of_lt (by omega)
    rw [horizonAfter, if_pos htaken]
    refine ⟨fun _ => ⟨?_, hplace, ?_⟩, .inr htick, by omega⟩
    · by_cases hzero : b.accum = 0
      · simpa [startAt, hzero] using hpace
      · rw [startAt, if_neg hzero]
        omega
    · by_cases hzero : b.accum = 0
      · rw [startAt, if_pos hzero]
        omega
      · rw [if_neg hzero, decide_eq_true_eq] at hpace
        rw [startAt, if_neg hzero]
        exact hpace
  · -- a frame that starts the accumulator is never dropped
    have hzero : b.accum ≠ 0 := by
      intro hzero
      rw [hzero, tick_zero] at htaken
      exact htaken rfl
    have hkept : (tick interval b.accum b.timestampUs).1 = b.accum := by
      rw [tick] at htaken ⊢
      split at htaken
      case isTrue hnot =>
        rw [if_pos hnot, startAt, if_neg hzero]
      case isFalse => exact absurd rfl htaken
    rw [horizonAfter, if_neg htaken, hkept]
    exact ⟨fun htrue => absurd htrue htaken, by omega, hbig⟩

/-- Frames on pace are placed a step apart, each near its place. -/
theorem places_spaced (hchain : Chains interval accum L last) (haccum : accum = 0 ∨ accum = horizon)
    (hbig : horizon < 2 ^ 63) (h : keepsPace interval horizon L = true) :
    Spaced interval (places interval L) ∧ ∀ p ∈ places interval L,
      horizon ≤ p.place ∧ p.place ≤ p.point + interval / 2 ∧
        p.point ≤ p.place + (interval - interval / 2) := by
  induction L generalizing accum horizon with
  | nil => exact ⟨List.Pairwise.nil, by simp [places]⟩
  | cons b L ih =>
    rw [keepsPace, Bool.and_eq_true] at h
    obtain ⟨hplace, hnext, hsmall⟩ := onPace_step hchain.1 haccum hbig h.1
    obtain ⟨hspaced, hrest⟩ := ih hchain.2 hnext hsmall h.2
    by_cases htaken : (tick interval b.accum b.timestampUs).2 = true
    · obtain ⟨hfrom, hearly, hlate⟩ := hplace htaken
      have hcons : places interval (b :: L) =
          ⟨startAt b.accum b.timestampUs, b.timestampUs⟩ :: places interval L := by
        simp [places, htaken]
      rw [horizonAfter, if_pos htaken] at hrest
      rw [hcons]
      refine ⟨List.pairwise_cons.mpr ⟨fun q hq => (hrest q hq).1, hspaced⟩, ?_⟩
      intro p hp
      rcases List.mem_cons.mp hp with rfl | hp
      · exact ⟨hfrom, hearly, hlate⟩
      · obtain ⟨hfrom', hnear⟩ := hrest p hp
        exact ⟨by omega, hnear⟩
    · have hcons : places interval (b :: L) = places interval L := by simp [places, htaken]
      rw [horizonAfter, if_neg htaken] at hrest
      rw [hcons]
      exact ⟨hspaced, hrest⟩

end chain

/-! ### The calls move the accumulator -/

/-- What decides about a frame, apart from a pending notice. -/
def rate (w : World) : Config × Nat := (w.ctx.config, w.ctx.tsAccum)

/-- Between two worlds the accumulator takes the frames. -/
structure Advances (interval : Nat) (w w' : World) (L : List Beat) : Prop where
  config : w'.ctx.config = w.ctx.config
  chains : Chains interval w.ctx.tsAccum L w'.ctx.tsAccum

section calls
variable {interval : Nat} {w w' w'' : World} {L L' : List Beat}

theorem rate_of_pace (h : pace w' = pace w) : rate w' = rate w := by
  simp only [pace, Prod.mk.injEq] at h
  rw [rate, rate, h.1, h.2.1]

theorem Advances.of_rate (h : rate w' = rate w) : Advances interval w w' [] := by
  simp only [rate, Prod.mk.injEq] at h
  exact ⟨h.1, Chains.of_eq h.2⟩

theorem Advances.of_pace (h : pace w' = pace w) : Advances interval w w' [] :=
  Advances.of_rate (rate_of_pace h)

theorem Advances.trans (h : Advances interval w w' L) (h' : Advances interval w' w'' L') :
    Advances interval w w'' (L ++ L') :=
  ⟨h'.config.trans h.config, h.chains.append h'.chains⟩

theorem rate_finish (w : World) (f : Frame) : rate (finish w f).1 = rate w := by
  rw [finish]
  split <;> rfl

theorem rate_convert (w : World) (a : Attempt) (f : Frame) : rate (convert w a f).1 = rate w := by
  unfold convert
  split
  · split
    · exact rate_finish w f
    · split
      · exact rate_of_pace (by rw [pace_giveBack, pace_diag])
      · dsimp only
        split
        · exact rate_finish ..
        · exact rate_of_pace (by rw [pace_giveBack, pace_trace, pace_trace])
  · exact rate_finish w f

/-- A reconfiguration leaves the accumulator or puts it to zero. -/
theorem doReconfig_advances (interval : Nat) (w : World) (env : ReconfigEnv) :
    Advances interval w (doReconfig w env).1 [] := by
  unfold doReconfig
  dsimp only
  generalize hv : (freeBuffers (w.trace (.doReconfig w.ctx.signalLost)) env.free).setCtx _ = v
  have hsame : pace v = pace w := by
    rw [← hv]
    simp only [pace, World.setCtx, freeBuffers_ctx]
    rfl
  have hreq : ∀ asked, pace (reqbufs v asked env.reqbufs).1 = pace w :=
    fun asked => (pace_reqbufs v asked env.reqbufs).trans hsame
  split
  case h_1 v₁ e heq =>
    have hpace := hreq (if v.ctx.numBuffers ≠ 0 then v.ctx.numBuffers else 6)
    rw [heq] at hpace
    exact Advances.of_pace hpace
  case h_2 v₁ n heq =>
    have hpace := hreq (if v.ctx.numBuffers ≠ 0 then v.ctx.numBuffers else 6)
    rw [heq] at hpace
    have hall := (pace_qbufAll env.qbuf (v₁.setCtx { v₁.ctx with numBuffers := n })
      (List.range n)).trans hpace
    split
    case h_1 v₂ i e heq' =>
      rw [heq'] at hall
      exact Advances.of_pace hall
    case h_2 v₂ heq' =>
      rw [heq'] at hall
      split
      case h_1 => exact Advances.of_pace hall
      case h_2 =>
        simp only [pace, Prod.mk.injEq] at hall
        split
        · exact ⟨hall.1, .inr rfl⟩
        · exact ⟨hall.1, .inr rfl⟩

theorem restoreSignal_advances (w : World) (env : RestoreEnv) :
    Advances interval w (restoreSignal w env) [] := by
  unfold restoreSignal
  dsimp only
  split
  · exact ⟨(doReconfig_advances interval _ _).config, (doReconfig_advances interval _ _).chains⟩
  · exact ⟨(doReconfig_advances interval _ _).config, (doReconfig_advances interval _ _).chains⟩

theorem recoverSignal_advances {timeout : Int} {passes : List RecoverPass} {r : Option Ret}
    (h : recoverSignal timeout w passes = some (w', r)) : Advances interval w w' [] := by
  induction passes generalizing w with
  | nil => cases h
  | cons p passes ih =>
    unfold recoverSignal at h
    dsimp only at h
    split at h
    · cases h
      exact Advances.of_pace rfl
    · split at h
      · exact (Advances.of_pace (pace_trace ..)).trans (ih h)
      · cases h
        exact Advances.of_pace rfl
    · split at h
      · split at h
        · cases h
        · rename_i v hdrain
          cases h
          have hsame : pace v = pace w := (pace_drainToSourceChange hdrain).trans (pace_trace ..)
          exact (Advances.of_pace hsame).trans (restoreSignal_advances v p.restore)
        · rename_i v hdrain
          have hsame : pace v = pace w := (pace_drainToSourceChange hdrain).trans (pace_trace ..)
          exact (Advances.of_pace hsame).trans (ih h)
      · exact (Advances.of_pace (pace_trace ..)).trans (ih h)

theorem rate_pollEvent (w : World) (timeout : Int) (env : PollEnv) :
    rate (pollEvent w timeout env).1 = rate w := by
  unfold pollEvent
  generalize env.poll = answer
  cases answer with
  | timeout => rfl
  | error e => rfl
  | ready ev =>
    dsimp only
    split_ifs
    · rfl
    · have hone := pace_dqevent (w.trace (.poll timeout)) .pollEvent env.dqevent
      generalize dqevent (w.trace (.poll timeout)) .pollEvent env.dqevent = q at hone ⊢
      obtain ⟨w₁, e⟩ := q
      have hrate := rate_of_pace hone
      cases e with
      | none => exact hrate
      | some e => cases e <;> exact hrate
    · rfl

theorem waitSignal_advances {timeout : Int} {a : Attempt} {r : Option Ret}
    (h : waitSignal w timeout a = some (w', r)) : Advances interval w w' [] := by
  rw [waitSignal] at h
  split at h
  · exact recoverSignal_advances h
  · cases h
    exact Advances.of_pace rfl

theorem setCtx_advances {accum : Nat} (h : Chains interval w.ctx.tsAccum L accum) :
    Advances interval w (w.setCtx { w.ctx with tsAccum := accum }) L :=
  ⟨rfl, h⟩

/-- Without a pending notice decimation is a tick of the accumulator. -/
theorem decimate_advances (hcfg : w.ctx.config.frameInterval = some interval)
    (hpending : w.ctx.reconfigPending = false) (timestampUs : Nat) (ok : Bool) :
    Advances interval w (w.setCtx (decimate w.ctx timestampUs).1)
      [⟨w.ctx.tsAccum, timestampUs, ok⟩] := by
  rw [decimate_eq_tick hcfg hpending]
  exact setCtx_advances (Chains.single interval ⟨w.ctx.tsAccum, timestampUs, ok⟩)

theorem takeFrame_advances {a : Attempt} {out : Outcome}
    (hcfg : w.ctx.config.frameInterval = some interval) (h : takeFrame w a = some (w', out)) :
    Advances interval w w' (takeBeats w a) := by
  rw [takeBeats, h]
  unfold takeFrame at h
  cases hdq : a.dqbuf with
  | error e =>
    simp only [hdq] at h ⊢
    refine Advances.of_pace ?_
    split_ifs at h
    all_goals
      cases h
      rfl
  | ok b =>
    simp only [hdq] at h ⊢
    cases htaken : dqbuf w b.index with
    | none =>
      rw [htaken] at h
      cases h
    | some v =>
      simp only [htaken] at h
      have hv := pace_dqbuf htaken
      cases hexport : a.dmabuf with
      | error e =>
        simp only [hexport] at h ⊢
        refine Advances.of_pace ?_
        split_ifs at h
        · cases h
          rw [pace_loseSignal, pace_qbuf, pace_diag, hv]
        · cases h
          rw [pace_qbuf, pace_diag, hv]
      | ok out' =>
        obtain ⟨fd, size⟩ := out'
        simp only [hexport] at h ⊢
        simp only [pace, Prod.mk.injEq] at hv
        obtain ⟨hconfig, haccum, hpendingEq⟩ := hv
        have hend : rate w' = rate (v.setCtx (decimate v.ctx b.timestampUs).1) := by
          split_ifs at h
          · cases h
            exact rate_of_pace (pace_giveBack ..)
          · have hsome := congrArg (fun q : World × Outcome => rate q.1) (Option.some_inj.mp h)
            exact hsome.symm.trans (rate_convert ..)
        rw [← hpendingEq, ← haccum]
        by_cases hpending : v.ctx.reconfigPending = true
        · rw [if_pos hpending]
          rw [decimate_pending hpending] at hend
          refine Advances.of_rate (hend.trans ?_)
          simp [rate, World.setCtx, hconfig, haccum]
        · rw [if_neg hpending]
          rw [← hconfig] at hcfg
          have hmove :=
            decimate_advances hcfg (by simpa using hpending) b.timestampUs (returnsOk out)
          have hall := hmove.trans (Advances.of_rate hend)
          exact ⟨hall.config.trans hconfig, by rw [← haccum]; exact hall.chains⟩

theorem attempt_advances {timeout : Int} {a : Attempt} {out : Outcome}
    (hcfg : w.ctx.config.frameInterval = some interval)
    (h : attempt w timeout a = some (w', out)) :
    Advances interval w w' (passBeats w timeout a) := by
  unfold attempt at h
  rw [passBeats]
  cases hsignal : waitSignal w timeout a with
  | none =>
    rw [hsignal] at h
    cases h
  | some q =>
    obtain ⟨w₁, r⟩ := q
    have hone : Advances interval w w₁ [] := waitSignal_advances hsignal
    simp only [hsignal] at h ⊢
    cases r with
    | some r =>
      cases h
      exact hone
    | none =>
      simp only at h ⊢
      cases hframe : waitFrame w₁ timeout a with
      | none =>
        rw [hframe] at h
        cases h
      | some q =>
        obtain ⟨w₂, r⟩ := q
        have hwait : Advances interval w w₂ [] :=
          hone.trans (Advances.of_pace (pace_waitFrame hframe))
        simp only [hframe] at h ⊢
        cases r with
        | some r =>
          cases h
          exact hwait
        | none =>
          rw [← hwait.config] at hcfg
          exact hwait.trans (takeFrame_advances hcfg h)

theorem attempts_advances {timeout : Int} {env : List Attempt} {r : Ret} {f : Option Frame}
    (hcfg : w.ctx.config.frameInterval = some interval)
    (h : attempts timeout w env = some (w', r, f)) :
    Advances interval w w' (attemptsBeats timeout w env) := by
  induction env generalizing w with
  | nil => cases h
  | cons a rest ih =>
    rw [attempts] at h
    rw [attemptsBeats]
    cases hattempt : attempt w timeout a with
    | none =>
      rw [hattempt] at h
      cases h
    | some q =>
      obtain ⟨w₁, out⟩ := q
      have hone := attempt_advances hcfg hattempt
      simp only [hattempt] at h ⊢
      cases out with
      | done r' f' =>
        cases h
        rw [List.append_nil]
        exact hone
      | again =>
        rw [← hone.config] at hcfg
        exact hone.trans (ih hcfg h)

theorem step_advances {c : Call} (hcfg : w.ctx.config.frameInterval = some interval)
    (h : step w c = some w') : Advances interval w w' (callBeats w c) := by
  cases c with
  | start n env =>
    obtain ⟨⟨w₁, r⟩, hstart, rfl⟩ := Option.map_eq_some_iff.mp h
    exact Advances.of_pace (pace_start hstart)
  | stop env =>
    cases h
    exact Advances.of_pace (pace_stop w env)
  | acquire timeout env =>
    obtain ⟨⟨w₁, r, f⟩, hacquire, rfl⟩ := Option.map_eq_some_iff.mp h
    rw [acquireFrame] at hacquire
    rw [callBeats]
    split_ifs at hacquire ⊢
    · have hall := attempts_advances hcfg hacquire
      exact ⟨hall.config, hall.chains⟩
    · cases hacquire
      exact Advances.of_pace rfl
  | release k answer =>
    obtain ⟨f, -, rfl⟩ := Option.map_eq_some_iff.mp h
    exact Advances.of_pace (pace_releaseFrame ..)
  | pollEvent timeout env =>
    cases h
    exact Advances.of_rate (rate_pollEvent ..)
  | emit e =>
    cases h
    exact Advances.of_pace rfl

end calls


/-! ### What is returned -/

/-- The timestamps that are returned with `VFMCAP_OK`. -/
def okStamps (L : List Beat) : List Nat := (L.filter (·.ok)).map (·.timestampUs)

/-- The timestamp of a pass that returns with `VFMCAP_OK`. -/
def stampOf : Outcome → List Nat
  | .done .ok (some f) => [f.timestampUs]
  | _ => []

section returned
variable {interval : Nat} {w w' : World}

theorem okStamps_append (L L' : List Beat) : okStamps (L ++ L') = okStamps L ++ okStamps L' := by
  rw [okStamps, List.filter_append, List.map_append]
  rfl

theorem stampOf_of_not (out : Outcome) (h : returnsOk out = false) : stampOf out = [] := by
  cases out with
  | again => rfl
  | done r f => cases r <;> cases f <;> first | rfl | cases h

theorem stampOf_of_ok {out : Outcome} {timestampUs : Nat} (h : returnsOk out = true)
    (hts : ∀ r f, out = .done r (some f) → f.timestampUs = timestampUs) :
    stampOf out = [timestampUs] := by
  cases out with
  | again => cases h
  | done r f =>
    cases f with
    | none => cases r <;> cases h
    | some f =>
      cases r <;> first | exact congrArg (fun ts => [ts]) (hts _ _ rfl) | cases h

/-- A returned frame has the timestamp of its buffer; with a notice pending it is not returned with
    `VFMCAP_OK`. -/
theorem finish_stamp {f : Frame} {out : Outcome} (h : finish w f = (w', out)) :
    (∀ r g, out = .done r (some g) → g.timestampUs = f.timestampUs) ∧
      (w.ctx.reconfigPending = true → returnsOk out = false) := by
  rw [finish] at h
  split at h
  case isTrue =>
    cases h
    refine ⟨?_, fun _ => rfl⟩
    rintro r g hout
    cases hout
    rfl
  case isFalse hnot =>
    cases h
    refine ⟨?_, fun hpending => absurd hpending hnot⟩
    rintro r g hout
    cases hout
    rfl

theorem convert_stamp {a : Attempt} {f : Frame} {out : Outcome} (h : convert w a f = (w', out)) :
    (∀ r g, out = .done r (some g) → g.timestampUs = f.timestampUs) ∧
      (w.ctx.reconfigPending = true → returnsOk out = false) := by
  have hfailed : ∀ {r : Ret}, (∀ r' g, Outcome.done r none = .done r' (some g) →
      g.timestampUs = f.timestampUs) := by
    intro r r' g hout
    cases hout
  unfold convert at h
  split at h
  · split at h
    · exact finish_stamp h
    · split at h
      · cases h
        exact ⟨hfailed, fun _ => rfl⟩
      · dsimp only at h
        split at h
        · have hfinish := finish_stamp h
          exact ⟨hfinish.1, hfinish.2⟩
        · cases h
          exact ⟨hfailed, fun _ => rfl⟩
  · exact finish_stamp h

/-- What a pass returns is in its beats, and a beat that is returned was taken. -/
theorem takeFrame_stamp {a : Attempt} {out : Outcome}
    (hcfg : w.ctx.config.frameInterval = some interval) (h : takeFrame w a = some (w', out)) :
    okStamps (takeBeats w a) = stampOf out ∧
      ∀ b ∈ takeBeats w a, b.ok = true → (tick interval b.accum b.timestampUs).2 = true := by
  have hquiet : returnsOk out = false → takeBeats w a = [] →
      okStamps (takeBeats w a) = stampOf out ∧
        ∀ b ∈ takeBeats w a, b.ok = true → (tick interval b.accum b.timestampUs).2 = true := by
    intro hout hnil
    rw [hnil, stampOf_of_not out hout]
    exact ⟨rfl, by simp⟩
  have hbeats := h
  unfold takeFrame at h
  cases hdq : a.dqbuf with
  | error e =>
    simp only [hdq] at h
    refine hquiet ?_ (by simp [takeBeats, hdq])
    split_ifs at h
    all_goals
      cases h
      rfl
  | ok b =>
    simp only [hdq] at h
    cases htaken : dqbuf w b.index with
    | none =>
      rw [htaken] at h
      cases h
    | some v =>
      simp only [htaken] at h
      have hv := pace_dqbuf htaken
      cases hexport : a.dmabuf with
      | error e =>
        simp only [hexport] at h
        refine hquiet ?_ (by simp [takeBeats, hdq, hexport])
        split_ifs at h
        all_goals
          cases h
          rfl
      | ok out' =>
        obtain ⟨fd, size⟩ := out'
        simp only [hexport] at h
        simp only [pace, Prod.mk.injEq] at hv
        obtain ⟨hconfig, haccum, hpendingEq⟩ := hv
        by_cases hpending : v.ctx.reconfigPending = true
        · refine hquiet ?_ (by simp [takeBeats, hdq, hexport, hbeats, ← hpendingEq, hpending])
          rw [decimate_pending (c := (v.trace (.getDmabuf fd)).ctx) hpending] at h
          simp only [Bool.false_eq_true, if_false, Option.some_inj] at h
          exact (convert_stamp h).2 hpending
        · have hone : takeBeats w a = [⟨v.ctx.tsAccum, b.timestampUs, returnsOk out⟩] := by
            simp [takeBeats, hdq, hexport, hbeats, ← hpendingEq, hpending, haccum]
          rw [← hconfig] at hcfg
          have hdec : decimate (v.trace (.getDmabuf fd)).ctx b.timestampUs = _ :=
            decimate_eq_tick (c := v.ctx) hcfg (by simpa using hpending) b.timestampUs
          rw [hdec] at h
          rw [hone]
          cases hkept : (tick interval v.ctx.tsAccum b.timestampUs).2 with
          | false =>
            simp only [hkept, Bool.not_false, if_true, Option.some_inj, Prod.mk.injEq] at h
            rw [← h.2]
            exact ⟨rfl, by simp [returnsOk]⟩
          | true =>
            simp only [hkept, Bool.not_true, Bool.false_eq_true, if_false, Option.some_inj] at h
            refine ⟨?_, by simp [hkept]⟩
            cases hout : returnsOk out with
            | false =>
              rw [stampOf_of_not out hout]
              rfl
            | true =>
              rw [stampOf_of_ok hout (convert_stamp h).1]
              rfl

theorem attempt_stamp {timeout : Int} {a : Attempt} {out : Outcome}
    (hcfg : w.ctx.config.frameInterval = some interval)
    (h : attempt w timeout a = some (w', out)) :
    okStamps (passBeats w timeout a) = stampOf out ∧
      ∀ b ∈ passBeats w timeout a, b.ok = true →
        (tick interval b.accum b.timestampUs).2 = true := by
  have hended : ∀ r : Ret, okStamps [] = stampOf (.done r none) := by
    intro r
    cases r <;> rfl
  unfold attempt at h
  rw [passBeats]
  cases hsignal : waitSignal w timeout a with
  | none =>
    rw [hsignal] at h
    cases h
  | some q =>
    obtain ⟨w₁, r⟩ := q
    have hone : Advances interval w w₁ [] := waitSignal_advances hsignal
    simp only [hsignal] at h ⊢
    cases r with
    | some r =>
      cases h
      exact ⟨hended r, by simp⟩
    | none =>
      simp only at h ⊢
      cases hframe : waitFrame w₁ timeout a with
      | none =>
        rw [hframe] at h
        cases h
      | some q =>
        obtain ⟨w₂, r⟩ := q
        have hwait : Advances interval w w₂ [] :=
          hone.trans (Advances.of_pace (pace_waitFrame hframe))
        simp only [hframe] at h ⊢
        cases r with
        | some r =>
          cases h
          exact ⟨hended r, by simp⟩
        | none =>
          rw [← hwait.config] at hcfg
          exact takeFrame_stamp hcfg h

/-- A pass that does not return has no beats. -/
theorem passBeats_none {timeout : Int} {a : Attempt} (h : attempt w timeout a = none) :
    passBeats w timeout a = [] := by
  unfold attempt at h
  rw [passBeats]
  cases hsignal : waitSignal w timeout a with
  | none => rfl
  | some q =>
    obtain ⟨w₁, r⟩ := q
    simp only [hsignal] at h ⊢
    cases r with
    | some r => rfl
    | none =>
      simp only at h ⊢
      cases hframe : waitFrame w₁ timeout a with
      | none => rfl
      | some q =>
        obtain ⟨w₂, r⟩ := q
        simp only [hframe] at h ⊢
        cases r with
        | some r => rfl
        | none =>
          simp only at h ⊢
          rw [takeBeats, h]
          cases a.dqbuf <;> cases a.dmabuf <;> rfl

/-- The timestamp that the passes of a call return. -/
def attemptsStamp (r : Option (World × Ret × Option Frame)) : List Nat :=
  match r with
  | some (_, .ok, some f) => [f.timestampUs]
  | _ => []

theorem attempts_stamp {timeout : Int} {env : List Attempt}
    (hcfg : w.ctx.config.frameInterval = some interval) :
    okStamps (attemptsBeats timeout w env) = attemptsStamp (attempts timeout w env) ∧
      ∀ b ∈ attemptsBeats timeout w env, b.ok = true →
        (tick interval b.accum b.timestampUs).2 = true := by
  induction env generalizing w with
  | nil => exact ⟨rfl, by simp [attemptsBeats]⟩
  | cons a rest ih =>
    rw [attempts, attemptsBeats]
    cases hattempt : attempt w timeout a with
    | none =>
      rw [passBeats_none hattempt]
      exact ⟨rfl, by simp⟩
    | some q =>
      obtain ⟨w₁, out⟩ := q
      have hone := attempt_stamp hcfg hattempt
      cases out with
      | done r f =>
        simp only [List.append_nil]
        refine ⟨hone.1.trans ?_, hone.2⟩
        cases r <;> cases f <;> rfl
      | again =>
        rw [← (attempt_advances hcfg hattempt).config] at hcfg
        obtain ⟨hstamps, htaken⟩ := ih hcfg
        simp only
        refine ⟨?_, ?_⟩
        · rw [okStamps_append, hone.1, hstamps]
          rfl
        · intro b hb
          rcases List.mem_append.mp hb with hb | hb
          · exact hone.2 b hb
          · exact htaken b hb

theorem call_stamp (hcfg : w.ctx.config.frameInterval = some interval) (c : Call) :
    okStamps (callBeats w c) = returned w c ∧
      ∀ b ∈ callBeats w c, b.ok = true → (tick interval b.accum b.timestampUs).2 = true := by
  cases c with
  | acquire timeout env =>
    rw [callBeats, returned, acquireFrame]
    split
    · exact attempts_stamp hcfg
    · exact ⟨rfl, by simp⟩
  | start n env => exact ⟨rfl, by simp [callBeats]⟩
  | stop => exact ⟨rfl, by simp [callBeats]⟩
  | release k answer => exact ⟨rfl, by simp [callBeats]⟩
  | pollEvent timeout env => exact ⟨rfl, by simp [callBeats]⟩
  | emit e => exact ⟨rfl, by simp [callBeats]⟩

/-- Over a run: the accumulator takes the frames, and those returned are among the ones taken. -/
theorem run_stamp {calls : List Call} (hcfg : w.ctx.config.frameInterval = some interval)
    (hrun : run step w calls = some w') :
    (∃ last, Chains interval w.ctx.tsAccum (beats w calls) last) ∧
      okStamps (beats w calls) = delivered w calls ∧
      ∀ b ∈ beats w calls, b.ok = true → (tick interval b.accum b.timestampUs).2 = true := by
  induction calls generalizing w with
  | nil => exact ⟨⟨_, .inl rfl⟩, rfl, by simp [beats]⟩
  | cons c calls ih =>
    obtain ⟨w₁, hstep, hrest⟩ := run_cons.mp hrun
    rw [beats, delivered]
    simp only [hstep]
    obtain ⟨hstamps, htaken⟩ := call_stamp hcfg c
    have hmove := step_advances hcfg hstep
    rw [← hmove.config] at hcfg
    obtain ⟨⟨last, hchains⟩, hstamps', htaken'⟩ := ih hcfg hrest
    refine ⟨⟨last, hmove.chains.append hchains⟩, ?_, ?_⟩
    · rw [okStamps_append, hstamps, hstamps']
    · intro b hb
      rcases List.mem_append.mp hb with hb | hb
      · exact htaken b hb
      · exact htaken' b hb

end returned

/-- What is returned was taken, so a window of the returned timestamps is one of the places. -/
theorem okStamps_countP_le {interval : Nat} {L : List Beat}
    (htaken : ∀ b ∈ L, b.ok = true → (tick interval b.accum b.timestampUs).2 = true)
    (p : Nat → Bool) :
    (okStamps L).countP p ≤ (places interval L).countP fun q => p q.point := by
  rw [okStamps, places, List.countP_map, List.countP_map, List.countP_filter, List.countP_filter]
  refine List.countP_mono_left fun b hb hok => ?_
  simp only [Function.comp_apply, Bool.and_eq_true] at hok ⊢
  exact ⟨hok.1, htaken b hb hok.2⟩

/-- In every run whose frames come at most half an interval after the accumulator, and start it
    again after a reconfiguration not before the place where it stood, a window of timestamps holds
    at most one returned frame for each interval and two more. -/
theorem rate_bounded {cfg : Config} {fmt : Option Fmt} {events : List Event} {calls : List Call}
    {w : World} {I : Nat} (hI : cfg.frameInterval = some I) (hpos : 0 < I)
    (hrun : run step (openWorld cfg fmt events) calls = some w)
    (hpace : keepsPace I 0 (beats (openWorld cfg fmt events) calls) = true) (a b : Nat) :
    (delivered (openWorld cfg fmt events) calls).countP (fun ts => a ≤ ts ∧ ts ≤ b) ≤
      (b - a) / I + 2 := by
  have hcfg : (openWorld cfg fmt events).ctx.config.frameInterval = some I := by
    cases fmt <;> exact hI
  have hzero : (openWorld cfg fmt events).ctx.tsAccum = 0 := by cases fmt <;> rfl
  obtain ⟨⟨last, hchains⟩, hstamps, htaken⟩ := run_stamp hcfg hrun
  rw [hzero] at hchains
  obtain ⟨hspaced, hnear⟩ := places_spaced hchains (.inl rfl) (by decide) hpace
  rw [← hstamps]
  calc (okStamps (beats (openWorld cfg fmt events) calls)).countP (fun ts => a ≤ ts ∧ ts ≤ b)
      ≤ (places I (beats (openWorld cfg fmt events) calls)).countP
          (fun q => a ≤ q.point ∧ q.point ≤ b) := okStamps_countP_le htaken _
    _ ≤ (b - a) / I + 2 := hspaced.count_window hpos (fun p hp => (hnear p hp).2.1)
        (fun p hp => (hnear p hp).2.2) (by omega) a b

/-- A frame that the accumulator lags behind is taken. -/
theorem shoot_lagging {I accum ts : Nat} (hpos : 0 < accum) (hlag : accum ≤ ts + I / 2)
    (hsmall : ts + 2 * I < 2 ^ 63) : shoot (tick I) accum ⟨ts, true⟩ = some (accum + I) := by
  have hmod : (accum + I) % 2 ^ 64 = accum + I := Nat.mod_eq_of_lt (by omega)
  have htick : tick I accum ts = _ :=
    tick_pos hpos (by omega : accum < 2 ^ 63) (by omega : ts < 2 ^ 63)
  rw [if_pos hlag, hmod] at htick
  simp [shoot, htick]

/-- Behind a later frame the bound can always be broken: another one with the same timestamp is
    taken, and one not quite an interval after them. -/
theorem late_frame_breaks {I accum ts : Nat} (hI : 0 < I) (hpos : 0 < accum)
    (hlate : accum + (I - I / 2) < ts) (hsmall : ts + 3 * I < 2 ^ 63) :
    (run (shoot (tick I)) accum [⟨ts, true⟩, ⟨ts, true⟩, ⟨ts + (I - 1), true⟩]).isSome ∧
      ¬ 3 ≤ (ts + (I - 1) - ts) / I + 2 := by
  refine ⟨?_, ?_⟩
  · have hfirst := shoot_lagging (I := I) hpos (by omega : accum ≤ ts + I / 2) (by omega)
    have hsecond := shoot_lagging (I := I) (by omega : 0 < accum + I)
      (by omega : accum + I ≤ ts + I / 2) (by omega)
    have hthird := shoot_lagging (I := I) (by omega : 0 < accum + I + I)
      (by omega : accum + I + I ≤ ts + (I - 1) + I / 2) (by omega)
    rw [Option.isSome_iff_exists]
    exact ⟨_, run_cons.mpr ⟨_, hfirst, run_cons.mpr ⟨_, hsecond, run_cons.mpr ⟨_, hthird, rfl⟩⟩⟩⟩
  · have hwidth : (ts + (I - 1) - ts) / I = 0 := Nat.div_eq_of_lt (by omega)
    omega

/-- A steady source at a third of a millisecond, of which every third frame is returned. -/
def steadyFrames : List Call :=
  [.start 4 plainStart, .acquire 0 [takeAt 0 5000], .acquire 0 [takeAt 1 5333, takeAt 2 5667],
    .acquire 0 [takeAt 1 6000, takeAt 3 6333, takeAt 1 6667]]

theorem rate_bounded_steadyFrames :
    (run step everyMillisecond steadyFrames).isSome ∧
    delivered everyMillisecond steadyFrames = [5000, 5667, 6667] ∧
    (delivered everyMillisecond steadyFrames).countP (fun ts => 5000 ≤ ts ∧ ts ≤ 6667) ≤
      (6667 - 5000) / 1000 + 2 := by
  have hrun : (run step everyMillisecond steadyFrames).isSome := by decide +kernel
  obtain ⟨w, hw⟩ := Option.isSome_iff_exists.mp hrun
  exact ⟨hrun, by decide +kernel, rate_bounded rfl (by decide) hw (by decide +kernel) 5000 6667⟩

/-- Nothing comes for four intervals, then a frame every tenth of a millisecond. -/
def stalledFrames : List Call :=
  [.start 4 plainStart, .acquire 0 [takeAt 0 5000], .acquire 0 [takeAt 1 9000],
    .acquire 0 [takeAt 2 9100], .acquire 0 [takeAt 3 9200], .release 0 none,
    .acquire 0 [takeAt 0 9300]]

/-- After the stall every frame is returned: four of them within less than an interval. -/
theorem rate_bounded_stalled :
    (run step everyMillisecond stalledFrames).isSome ∧
    delivered everyMillisecond stalledFrames = [5000, 9000, 9100, 9200, 9300] ∧
    ¬ (delivered everyMillisecond stalledFrames).countP (fun ts => 9000 ≤ ts ∧ ts ≤ 9300) ≤
      (9300 - 9000) / 1000 + 2 := by
  refine ⟨by decide +kernel, by decide +kernel, by decide +kernel⟩

end Streambox.Vfmcap.FrameRate
