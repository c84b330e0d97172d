import Streambox.Vfmcap.ReconfigFailure
import Mathlib.Algebra.Group.Int.Defs

/-! libvfmcap: how long `vfmcap_acquire_frame` waits.

    From the label `again:` the call polls for a lost signal with the whole timeout (or a second),
    then sets a deadline from the clock and polls for a buffer until then. Both begin anew whenever
    it goes back to the label, and the first also after every wake-up.

        start ─┬─▶ signal lost?  poll timeout, poll timeout, ..   ─┐
               ▲                                                   ▼
               │                 deadline = now + timeout; poll the rest, ..
               └────────── frame dropped, signal restored ◀────────┘

    With `-1` the deadline has passed when it is set, and with `0` a lost signal is waited for. -/

namespace Streambox.Vfmcap.Timeouts
open Streambox.Lib
open Streambox.Vfmcap.Decimation (everyMillisecond takeAt)
open Streambox.Vfmcap.ReconfigFailure (recoverSignal_format)

/-! ### The clock -/

/-- A pass with the clock at each poll of the recovery loop; the other readings are in the pass. -/
structure TimedAttempt where
  recover : List (Int × RecoverPass)
  rest : Attempt

def TimedAttempt.toAttempt (a : TimedAttempt) : Attempt :=
  { a.rest with recover := a.recover.map Prod.snd }

/-- What the clock shows, in order. -/
def TimedAttempt.readings (a : TimedAttempt) : List Int :=
  a.recover.map Prod.fst ++ a.rest.now :: a.rest.wait.map (·.now)

/-- The clock never goes back, and the call begins at `start`. -/
def Clocked (start : Int) (env : List TimedAttempt) : Prop :=
  (start :: env.flatMap TimedAttempt.readings).Pairwise (· ≤ ·)

/-- What happens in a call: a poll at a time, for so long, of a wait that began at `base`, and
    whether it reports a buffer; a wait that is found to be over; a DQBUF that reports `EAGAIN`. -/
inductive Moment where
  | poll (time timeout base : Int) (input : Bool)
  | expired (time : Int)
  | empty
  deriving DecidableEq, Repr

/-- The recovery loop: every poll is a wait of its own. -/
def recoverMoments (timeout : Int) : World → List (Int × RecoverPass) → List Moment
  | _, [] => []
  | w, (time, p) :: rest =>
    let w := w.trace (.poll (if timeout > 0 then timeout else 1000))
    .poll time (if timeout > 0 then timeout else 1000) time false ::
      match p.poll with
      | .timeout => []
      | .error e => if e = EINTR then recoverMoments timeout w rest else []
      | .ready ev =>
        if ev.pri then
          match drainToSourceChange .acquire w p.drain with
          | some (w, false) => recoverMoments timeout w rest
          | _ => []
        else recoverMoments timeout w rest

/-- The buffer-wait loop, with a deadline that was set at `base`. A poll that returns nothing has
    waited for all of its time. -/
def waitMoments (timeout base : Int) : World → List WaitPass → List Moment
  | _, [] => []
  | w, p :: rest =>
    let remaining := (base + timeout - p.now).bmod (2 ^ 32)
    if remaining ≤ 0 then [.expired p.now] else
    let w := w.trace (.poll remaining)
    match p.poll with
    | .timeout => [.poll p.now remaining base false, .expired (p.now + remaining)]
    | .error e =>
      .poll p.now remaining base false ::
        if e = EINTR then waitMoments timeout base w rest else []
    | .ready ev =>
      .poll p.now remaining base ev.input ::
        if ev.err then [] else
        match handleEvents w ev p.drain with
        | some (w, false) => if ev.input then [] else waitMoments timeout base w rest
        | _ => []

def takeMoments (a : Attempt) : List Moment :=
  match a.dqbuf with
  | .error e => if e = EAGAIN then [.empty] else []
  | .ok _ => []

/-- One pass from `again:`. -/
def passMoments (w : World) (timeout : Int) (a : TimedAttempt) : List Moment :=
  (if w.ctx.signalLost then recoverMoments timeout w a.recover else []) ++
    match waitSignal w timeout a.toAttempt with
    | some (w₁, none) =>
      (if timeout ≠ 0 then waitMoments timeout a.rest.now w₁ a.rest.wait else []) ++
        match waitFrame w₁ timeout a.toAttempt with
        | some (_, none) => takeMoments a.rest
        | _ => []
    | _ => []

/-- The passes of a call. -/
def moments (timeout : Int) : World → List TimedAttempt → List Moment
  | _, [] => []
  | w, a :: rest =>
    passMoments w timeout a ++
      match attempt w timeout a.toAttempt with
      | some (w', .again) => moments timeout w' rest
      | _ => []

/-! ### The contract -/

/-- What `timeout_ms` promises: a positive one bounds every poll, and the call times out only when
    it is over or there is no buffer; `-1` blocks until there is one; `0` does not block. -/
structure Meets (start timeout : Int) (L : List Moment) (r : Ret) : Prop where
  bounded : 0 < timeout → ∀ time t base input, .poll time t base input ∈ L →
    time + t ≤ start + timeout
  expired : 0 < timeout → r = .errTimeout →
    .empty ∈ L ∨ ∃ time, .expired time ∈ L ∧ start + timeout ≤ time
  forever : timeout = -1 → r = .errTimeout → ∃ time t base, .poll time t base true ∈ L
  nonblocking : timeout = 0 → ∀ time t base input, .poll time t base input ∈ L → t = 0

/-- When it is kept: with a positive timeout every wait begins at the start of the call, and is
    polled for before its end; with `-1` the signal is lost and does not come back; with `0` it is
    there. -/
structure InTime (w : World) (start timeout : Int) (env : List TimedAttempt) : Prop where
  fresh : 0 < timeout → ∀ time t base input, .poll time t base input ∈ moments timeout w env →
    base = start ∧ time < base + timeout
  lost : timeout = -1 → w.ctx.signalLost = true ∧
    ∀ a ∈ env.head?, restoredBy timeout w a.toAttempt.recover = none
  present : timeout = 0 → w.ctx.signalLost = false

/-! ### What each part of the call waits for -/

/-- A poll of either loop; a wait is over only when its time has passed. -/
def Shape (start timeout : Int) : Moment → Prop
  | .poll time t base _ => start ≤ base ∧ base ≤ time ∧
      (time = base ∧ t = (if timeout > 0 then timeout else 1000) ∨
        0 < t ∧ t = (base + timeout - time).bmod (2 ^ 32))
  | .expired time => 0 < timeout → start + timeout ≤ time
  | .empty => True

section shape
variable {start timeout base : Int} {w w' : World}

/-- A remaining time that is not positive is none; one that is positive ends at the deadline, or
    after it. -/
theorem remaining_le {x t : Int} (hx : x < 2 ^ 31) (ht : t = x.bmod (2 ^ 32)) : x ≤ max t 0 := by
  rw [Int.bmod_def] at ht
  split_ifs at ht <;> omega

theorem recoverMoments_shape {passes : List (Int × RecoverPass)}
    (hclock : ∀ p ∈ passes, start ≤ p.1) :
    ∀ m ∈ recoverMoments timeout w passes, Shape start timeout m := by
  induction passes generalizing w with
  | nil => simp [recoverMoments]
  | cons q passes ih =>
    obtain ⟨time, p⟩ := q
    have htime : start ≤ time := hclock (time, p) (by simp)
    have hrest := fun w => ih (w := w) fun p hp => hclock p (by simp [hp])
    rw [recoverMoments]
    intro m hm
    rcases List.mem_cons.mp hm with rfl | hm
    · exact ⟨htime, Int.le_refl _, .inl ⟨rfl, rfl⟩⟩
    · split at hm
      · simp at hm
      · split at hm
        · exact hrest _ m hm
        · simp at hm
      · split at hm
        · split at hm
          · exact hrest _ m hm
          · simp at hm
        · exact hrest _ m hm

theorem waitMoments_shape {passes : List WaitPass} (hint : timeout < 2 ^ 31) (hbase : start ≤ base)
    (hclock : ∀ p ∈ passes, base ≤ p.now) :
    ∀ m ∈ waitMoments timeout base w passes, Shape start timeout m := by
  induction passes generalizing w with
  | nil => simp [waitMoments]
  | cons p passes ih =>
    have hnow : base ≤ p.now := hclock p (by simp)
    have hrest := fun w => ih (w := w) fun p hp => hclock p (by simp [hp])
    have hle : base + timeout - p.now ≤ max ((base + timeout - p.now).bmod (2 ^ 32)) 0 :=
      remaining_le (by omega) rfl
    have hpoll : ∀ input, ¬ (base + timeout - p.now).bmod (2 ^ 32) ≤ 0 → Shape start timeout
        (.poll p.now ((base + timeout - p.now).bmod (2 ^ 32)) base input) :=
      fun input hpos => ⟨hbase, hnow, .inr ⟨by omega, rfl⟩⟩
    rw [waitMoments]
    dsimp only
    split
    case isTrue hover =>
      intro m hm
      rw [List.mem_singleton.mp hm]
      intro _
      omega
    case isFalse hpos =>
      intro m hm
      split at hm
      · rcases List.mem_cons.mp hm with rfl | hm
        · exact hpoll false hpos
        · rw [List.mem_singleton.mp hm]
          intro _
          omega
      · rcases List.mem_cons.mp hm with rfl | hm
        · exact hpoll false hpos
        · split at hm
          · exact hrest _ m hm
          · simp at hm
      · rcases List.mem_cons.mp hm with rfl | hm
        · exact hpoll _ hpos
        · split at hm
          · simp at hm
          · split at hm
            · split at hm
              · simp at hm
              · exact hrest _ m hm
            · simp at hm

theorem passMoments_shape {a : TimedAttempt} (hint : timeout < 2 ^ 31)
    (hclock : ∀ x ∈ a.readings, start ≤ x) (hwait : ∀ p ∈ a.rest.wait, a.rest.now ≤ p.now) :
    ∀ m ∈ passMoments w timeout a, Shape start timeout m := by
  have hrecover : ∀ p ∈ a.recover, start ≤ p.1 := by
    intro p hp
    exact hclock p.1 (List.mem_append_left _ (List.mem_map_of_mem hp))
  have hnow : start ≤ a.rest.now := hclock _ (List.mem_append_right _ List.mem_cons_self)
  intro m hm
  rw [passMoments] at hm
  rcases List.mem_append.mp hm with hm | hm
  · split at hm
    · exact recoverMoments_shape hrecover m hm
    · simp at hm
  · split at hm
    · rcases List.mem_append.mp hm with hm | hm
      · split at hm
        · exact waitMoments_shape hint hnow hwait m hm
        · simp at hm
      · split at hm
        · rw [takeMoments] at hm
          split at hm
          · split at hm
            · rw [List.mem_singleton.mp hm]
              trivial
            · simp at hm
          · simp at hm
        · simp at hm
    · simp at hm

theorem Clocked.cons {a : TimedAttempt} {env : List TimedAttempt}
    (h : Clocked start (a :: env)) :
    (∀ x ∈ a.readings, start ≤ x) ∧ (∀ p ∈ a.rest.wait, a.rest.now ≤ p.now) ∧
      Clocked start env := by
  rw [Clocked, List.flatMap_cons, List.pairwise_cons] at h
  obtain ⟨hstart, hall⟩ := h
  obtain ⟨hread, hrest, -⟩ := List.pairwise_append.mp hall
  refine ⟨fun x hx => hstart x (List.mem_append_left _ hx), ?_, ?_⟩
  · rw [TimedAttempt.readings, List.pairwise_append] at hread
    intro p hp
    exact (List.pairwise_cons.mp hread.2.1).1 p.now (List.mem_map_of_mem hp)
  · exact List.pairwise_cons.mpr ⟨fun x hx => hstart x (List.mem_append_right _ hx), hrest⟩

theorem moments_shape {env : List TimedAttempt} (hint : timeout < 2 ^ 31)
    (hclock : Clocked start env) : ∀ m ∈ moments timeout w env, Shape start timeout m := by
  induction env generalizing w with
  | nil => simp [moments]
  | cons a env ih =>
    obtain ⟨hread, hwait, hrest⟩ := hclock.cons
    intro m hm
    rw [moments] at hm
    rcases List.mem_append.mp hm with hm | hm
    · exact passMoments_shape hint hread hwait m hm
    · split at hm
      · exact ih hrest m hm
      · simp at hm

end shape

/-! ### How the call ends -/

section ends
variable {start timeout base : Int} {w w' : World}

theorem recoverSignal_not_timeout {passes : List RecoverPass} {r : Ret}
    (h : recoverSignal timeout w passes = some (w', some r)) : r ≠ .errTimeout := by
  induction passes generalizing w with
  | nil => cases h
  | cons p passes ih =>
    unfold recoverSignal at h
    dsimp only at h
    split at h
    · cases h
      simp
    · split at h
      · exact ih h
      · cases h
        simp
    · split at h
      · split at h
        · cases h
        · cases h
        · exact ih h
      · exact ih h

/-- A wait that times out is found to be over. -/
theorem waitBuffer_over {passes : List WaitPass}
    (h : waitBuffer (base + timeout) w passes = some (w', some .errTimeout)) :
    ∃ time, .expired time ∈ waitMoments timeout base w passes := by
  induction passes generalizing w with
  | nil => cases h
  | cons p passes ih =>
    unfold waitBuffer at h
    rw [waitMoments]
    dsimp only at h ⊢
    split at h
    case isTrue hover =>
      rw [if_pos hover]
      exact ⟨_, List.mem_singleton.mpr rfl⟩
    case isFalse hpos =>
      rw [if_neg hpos]
      cases hpoll : p.poll with
      | timeout => exact ⟨_, List.mem_cons_of_mem _ (List.mem_singleton.mpr rfl)⟩
      | error e =>
        simp only [hpoll] at h ⊢
        split at h
        case isTrue he =>
          rw [if_pos he]
          obtain ⟨time, htime⟩ := ih h
          exact ⟨time, List.mem_cons_of_mem _ htime⟩
        case isFalse =>
          split at h
          · cases h
          · cases h
      | ready ev =>
        simp only [hpoll] at h ⊢
        split at h
        case isTrue => cases h
        case isFalse herr =>
          rw [if_neg herr]
          split at h
          · cases h
          · cases h
          · rename_i v hev
            simp only [hev]
            split at h
            case isTrue => cases h
            case isFalse hinput =>
              rw [if_neg hinput]
              obtain ⟨time, htime⟩ := ih h
              exact ⟨time, List.mem_cons_of_mem _ htime⟩

theorem finish_not_timeout {f g : Frame} {r : Ret} (h : (finish w f).2 = .done r (some g)) :
    r ≠ .errTimeout := by
  rw [finish] at h
  split at h
  · cases h
    simp
  · cases h
    simp

theorem convert_not_timeout {a : Attempt} {f : Frame} {g : Option Frame} {r : Ret}
    (h : (convert w a f).2 = .done r g) : r ≠ .errTimeout := by
  have hfinish : ∀ v f', (finish v f').2 = .done r g → r ≠ .errTimeout := by
    intro v f' h
    cases g with
    | some g => exact finish_not_timeout h
    | none =>
      rw [finish] at h
      split at h <;> cases h
  unfold convert at h
  split at h
  · split at h
    · exact hfinish _ _ h
    · split at h
      · cases h
        simp
      · dsimp only at h
        split at h
        · exact hfinish _ _ h
        · cases h
          simp
  · exact hfinish _ _ h

/-- Past the waits only DQBUF times out. -/
theorem takeFrame_empty {a : Attempt} {f : Option Frame}
    (h : takeFrame w a = some (w', .done .errTimeout f)) : .empty ∈ takeMoments a := by
  unfold takeFrame at h
  rw [takeMoments]
  cases hdq : a.dqbuf with
  | error e =>
    simp only [hdq] at h ⊢
    split at h
    case isTrue he => simp [he]
    case isFalse =>
      split at h
      · cases h
      · cases h
  | ok b =>
    simp only [hdq] at h
    split at h
    · cases h
    · split at h
      · split at h
        · cases h
        · cases h
      · split at h
        · cases h
        · have hout := congrArg Prod.snd (Option.some_inj.mp h)
          exact absurd rfl (convert_not_timeout hout)

/-- A pass that returns with a timeout has found a wait to be over, or no buffer. -/
theorem attempt_timeout {a : TimedAttempt} {f : Option Frame}
    (h : attempt w timeout a.toAttempt = some (w', .done .errTimeout f)) :
    .empty ∈ passMoments w timeout a ∨ ∃ time, .expired time ∈ passMoments w timeout a := by
  unfold attempt at h
  rw [passMoments]
  cases hsignal : waitSignal w timeout a.toAttempt with
  | none =>
    rw [hsignal] at h
    cases h
  | some q =>
    obtain ⟨w₁, r⟩ := q
    simp only [hsignal] at h ⊢
    cases r with
    | some r =>
      cases h
      rw [waitSignal] at hsignal
      split at hsignal
      · exact absurd rfl (recoverSignal_not_timeout hsignal)
      · cases hsignal
    | none =>
      simp only at h ⊢
      cases hframe : waitFrame w₁ timeout a.toAttempt with
      | none =>
        rw [hframe] at h
        cases h
      | some q =>
        obtain ⟨w₂, r⟩ := q
        simp only [hframe] at h ⊢
        cases r with
        | some r =>
          cases h
          rw [waitFrame] at hframe
          split at hframe
          case isFalse => cases hframe
          case isTrue hne =>
            rw [if_pos hne]
            obtain ⟨time, htime⟩ := waitBuffer_over hframe
            exact .inr ⟨time, List.mem_append_right _ (List.mem_append_left _ htime)⟩
        | none =>
          have hempty : .empty ∈ takeMoments a.toAttempt := takeFrame_empty h
          have hsame : takeMoments a.toAttempt = takeMoments a.rest := rfl
          rw [hsame] at hempty
          exact .inl (by simp [hempty])

theorem attempts_timeout {env : List TimedAttempt} {f : Option Frame}
    (h : attempts timeout w (env.map TimedAttempt.toAttempt) = some (w', .errTimeout, f)) :
    .empty ∈ moments timeout w env ∨ ∃ time, .expired time ∈ moments timeout w env := by
  induction env generalizing w with
  | nil => cases h
  | cons a env ih =>
    rw [List.map_cons, attempts] at h
    rw [moments]
    cases hattempt : attempt w timeout a.toAttempt with
    | none =>
      rw [hattempt] at h
      cases h
    | some q =>
      obtain ⟨w₁, out⟩ := q
      simp only [hattempt] at h ⊢
      cases out with
      | done r f' =>
        cases h
        simpa using attempt_timeout hattempt
      | again =>
        rcases ih h with hempty | ⟨time, htime⟩
        · exact .inl (List.mem_append_right _ hempty)
        · exact .inr ⟨time, List.mem_append_right _ htime⟩

/-- A call that does not block makes no poll while the signal is there. -/
theorem moments_nonblocking {env : List TimedAttempt} (hlost : w.ctx.signalLost = false)
    {time t base : Int} {input : Bool} : .poll time t base input ∉ moments 0 w env := by
  induction env generalizing w with
  | nil => simp [moments]
  | cons a env ih =>
    have hsignal : waitSignal w 0 a.toAttempt = some (w, none) := by
      rw [waitSignal, hlost]
      rfl
    have hframe : waitFrame w 0 a.toAttempt = some (w, none) := rfl
    have htake : .poll time t base input ∉ takeMoments a.rest := by
      rw [takeMoments]
      split
      · split <;> simp
      · simp
    rw [moments, passMoments, hsignal]
    simp only [hlost, hframe]
    intro hm
    rcases List.mem_append.mp hm with hm | hm
    · simp [htake] at hm
    · split at hm
      · rename_i w₁ hattempt
        refine ih ?_ hm
        rw [attempt, hsignal] at hattempt
        simp only [hframe] at hattempt
        exact ((takeFrame_core hattempt).2.1 rfl).trans hlost
      · simp at hm

/-- The wait for a buffer with `-1` is over when it begins, unless the clock jumps. -/
theorem waitBuffer_past {base : Int} {passes : List WaitPass} {r : Option Ret}
    (hclock : ∀ p ∈ passes, base ≤ p.now ∧ p.now < base + 2 ^ 31)
    (h : waitBuffer (base + -1) w passes = some (w', r)) :
    r = some .errTimeout ∧ ∀ time t b, .poll time t b true ∉ waitMoments (-1) base w passes := by
  cases passes with
  | nil => cases h
  | cons p passes =>
    obtain ⟨hle, hlt⟩ := hclock p (by simp)
    have hover : (base + -1 - p.now).bmod (2 ^ 32) ≤ 0 := by
      rw [Int.bmod_def]
      split_ifs <;> omega
    unfold waitBuffer at h
    rw [waitMoments]
    dsimp only at h ⊢
    rw [if_pos hover] at h ⊢
    cases h
    exact ⟨rfl, by simp⟩

theorem recoverMoments_no_input {passes : List (Int × RecoverPass)} {time t base : Int} :
    .poll time t base true ∉ recoverMoments timeout w passes := by
  induction passes generalizing w with
  | nil => simp [recoverMoments]
  | cons q passes ih =>
    obtain ⟨at_, p⟩ := q
    rw [recoverMoments]
    intro hm
    rcases List.mem_cons.mp hm with hm | hm
    · cases hm
    · split at hm
      · simp at hm
      · split at hm
        · exact ih hm
        · simp at hm
      · split at hm
        · split at hm
          · exact ih hm
          · simp at hm
        · exact ih hm

end ends

/-! ### When the contract is kept -/

section contract
variable {start timeout : Int} {w w' : World} {env : List TimedAttempt} {r : Ret} {f : Option Frame}

/-- A poll ends in time exactly if its wait began with the call, and it is made before the end. -/
theorem bounded_iff {time t base : Int} {input : Bool} (hint : timeout < 2 ^ 31) (hpos : 0 < timeout)
    (h : Shape start timeout (.poll time t base input)) :
    time + t ≤ start + timeout ↔ base = start ∧ time < base + timeout := by
  obtain ⟨hstart, hbase, ⟨htime, ht⟩ | ⟨ht, hrest⟩⟩ := h
  · rw [if_pos hpos] at ht
    omega
  · by_cases hbefore : 0 < base + timeout - time
    · -- the poll ends at the deadline
      have hsmall : (base + timeout - time).bmod (2 ^ 32) = base + timeout - time := by
        rw [Int.bmod_def]
        split_ifs <;> omega
      omega
    · omega

/-- If the call is not blocked by the recovery loop, then with `-1` it times out at once. -/
theorem forever_fails {a : TimedAttempt} {w₁ : World}
    (hsignal : waitSignal w (-1) a.toAttempt = some (w₁, none))
    (hclock : ∀ p ∈ a.rest.wait, a.rest.now ≤ p.now ∧ p.now < a.rest.now + 2 ^ 31)
    (h : attempts (-1) w ((a :: env).map TimedAttempt.toAttempt) = some (w', r, f)) :
    r = .errTimeout ∧ ∀ time t base, .poll time t base true ∉ moments (-1) w (a :: env) := by
  rw [List.map_cons, attempts, attempt, hsignal] at h
  rw [moments, passMoments, attempt, hsignal]
  simp only at h ⊢
  cases hframe : waitFrame w₁ (-1) a.toAttempt with
  | none =>
    rw [hframe] at h
    cases h
  | some q =>
    obtain ⟨w₂, r'⟩ := q
    have hwait : waitBuffer (a.rest.now + -1) w₁ a.rest.wait = some (w₂, r') := hframe
    obtain ⟨rfl, hnone⟩ := waitBuffer_past hclock hwait
    simp only [hframe] at h ⊢
    cases h
    refine ⟨rfl, fun time t base hm => ?_⟩
    simp only [List.append_nil] at hm
    rcases List.mem_append.mp hm with hm | hm
    · split at hm
      · exact recoverMoments_no_input hm
      · simp at hm
    · exact hnone time t base (by simpa using hm)

/-- The clock does not jump by `2 ^ 31` milliseconds during the call. -/
def Steady (start : Int) (env : List TimedAttempt) : Prop :=
  ∀ a ∈ env, ∀ x ∈ a.readings, x < start + 2 ^ 31

theorem attempts_cons {env : List TimedAttempt}
    (h : attempts timeout w (env.map TimedAttempt.toAttempt) = some (w', r, f)) :
    ∃ a rest, env = a :: rest := by
  cases env with
  | nil => cases h
  | cons a rest => exact ⟨a, rest, rfl⟩

/-- Under the condition the contract is kept. -/
theorem meets_of_inTime (hint : timeout < 2 ^ 31) (hclock : Clocked start env)
    (h : attempts timeout w (env.map TimedAttempt.toAttempt) = some (w', r, f))
    (hin : InTime w start timeout env) : Meets start timeout (moments timeout w env) r := by
  have hshape : ∀ m ∈ moments timeout w env, Shape start timeout m := moments_shape hint hclock
  refine ⟨?_, ?_, ?_, ?_⟩
  · intro hpos time t base input hm
    exact (bounded_iff hint hpos (hshape _ hm)).mpr (hin.fresh hpos time t base input hm)
  · rintro hpos rfl
    rcases attempts_timeout h with hempty | ⟨time, htime⟩
    · exact .inl hempty
    · exact .inr ⟨time, htime, hshape _ htime hpos⟩
  · rintro rfl rfl
    -- the recovery loop ends the call, and never with a timeout
    obtain ⟨hlost, hnone⟩ := hin.lost rfl
    obtain ⟨a, rest, rfl⟩ := attempts_cons h
    have hby := hnone a rfl
    rw [List.map_cons, attempts, attempt, waitSignal, if_pos hlost] at h
    cases hrecover : recoverSignal (-1) w a.toAttempt.recover with
    | none =>
      rw [hrecover] at h
      cases h
    | some q =>
      obtain ⟨w₁, r'⟩ := q
      rcases recoverSignal_core hrecover with ⟨hr, -⟩ | ⟨-, -, renv, hsome, -⟩
      · obtain ⟨r', rfl⟩ := Option.isSome_iff_exists.mp hr
        simp only [hrecover] at h
        cases h
        exact absurd rfl (recoverSignal_not_timeout hrecover)
      · rw [hby] at hsome
        cases hsome
  · rintro rfl time t base input hm
    exact absurd hm (moments_nonblocking (hin.present rfl))

/-- With a steady clock nothing else keeps it. -/
theorem inTime_of_meets (hint : timeout < 2 ^ 31) (hclock : Clocked start env)
    (hsteady : Steady start env)
    (h : attempts timeout w (env.map TimedAttempt.toAttempt) = some (w', r, f))
    (hmeets : Meets start timeout (moments timeout w env) r) : InTime w start timeout env := by
  have hshape : ∀ m ∈ moments timeout w env, Shape start timeout m := moments_shape hint hclock
  obtain ⟨a, rest, rfl⟩ := attempts_cons h
  obtain ⟨hread, hwait, -⟩ := hclock.cons
  refine ⟨?_, ?_, ?_⟩
  · intro hpos time t base input hm
    exact (bounded_iff hint hpos (hshape _ hm)).mp (hmeets.bounded hpos time t base input hm)
  · rintro rfl
    have hnow : start ≤ a.rest.now := hread _ (List.mem_append_right _ List.mem_cons_self)
    have hreadings : ∀ p ∈ a.rest.wait, a.rest.now ≤ p.now ∧ p.now < a.rest.now + 2 ^ 31 := by
      intro p hp
      have hlt := hsteady a (by simp) p.now
        (List.mem_append_right _ (List.mem_cons_of_mem _ (List.mem_map_of_mem hp)))
      exact ⟨hwait p hp, by omega⟩
    have hfails : ∀ w₁, waitSignal w (-1) a.toAttempt ≠ some (w₁, none) := by
      intro w₁ hsignal
      obtain ⟨hr, hnone⟩ := forever_fails hsignal hreadings h
      obtain ⟨time, t, base, hm⟩ := hmeets.forever rfl hr
      exact hnone time t base hm
    by_cases hlost : w.ctx.signalLost = true
    · refine ⟨hlost, fun b hb => ?_⟩
      cases hb
      by_contra hsome
      obtain ⟨renv, hby⟩ := Option.ne_none_iff_exists'.mp hsome
      obtain ⟨w₁, hrecover, -⟩ := recoverSignal_format hby
      exact hfails w₁ (by rw [waitSignal, if_pos hlost, hrecover])
    · exact absurd (by rw [waitSignal, if_neg hlost]) (hfails w)
  · rintro rfl
    by_contra hlost
    rw [Bool.not_eq_false] at hlost
    -- the first poll waits for a second
    rw [List.map_cons, attempts, attempt, waitSignal, if_pos hlost] at h
    cases hrecover : a.recover with
    | nil =>
      have hnil : a.toAttempt.recover = [] := by simp [TimedAttempt.toAttempt, hrecover]
      rw [hnil] at h
      cases h
    | cons q passes =>
      obtain ⟨time, p⟩ := q
      have hm : .poll time 1000 time false ∈ moments 0 w (a :: rest) := by
        rw [moments, passMoments, if_pos hlost, hrecover, recoverMoments]
        simp
      have hzero := hmeets.nonblocking rfl _ _ _ _ hm
      cases hzero

end contract

/-- The contract of `timeout_ms` is kept by every call in which, with a positive timeout, each wait
    begins with the call and is polled for before its end; with `-1` the signal is lost and does not
    come back; with `0` it is not lost. With a clock that does not jump these are all of them. -/
theorem timeout_contract {start timeout : Int} {w w' : World} {env : List TimedAttempt} {r : Ret}
    {f : Option Frame} (hstreaming : w.ctx.streaming = true) (hint : timeout < 2 ^ 31)
    (hclock : Clocked start env)
    (h : acquireFrame w timeout (env.map TimedAttempt.toAttempt) = some (w', r, f)) :
    (InTime w start timeout env → Meets start timeout (moments timeout w env) r) ∧
      (Steady start env → Meets start timeout (moments timeout w env) r →
        InTime w start timeout env) := by
  rw [acquireFrame, if_pos hstreaming] at h
  exact ⟨meets_of_inTime hint hclock h, fun hsteady => inTime_of_meets hint hclock hsteady h⟩

/-- A context that takes a frame per millisecond at most, and has returned one. -/
def oneReturned : World :=
  (run step everyMillisecond [.start 4 plainStart, .acquire 0 [takeAt 0 5000]]).getD everyMillisecond

/-- A pass that reads the clock, is woken at `time` with a buffer, and dequeues it. -/
def wokenAt (now time : Int) (i timestampUs : Nat) : TimedAttempt :=
  ⟨[], { takeAt i timestampUs with now, wait := [⟨time, .ready ⟨false, true, false⟩, []⟩] }⟩

theorem timeout_contract_woken :
    ∃ w' r f, acquireFrame oneReturned 20 ([wokenAt 100 100 1 6000].map TimedAttempt.toAttempt) =
        some (w', r, f) ∧
      Meets 100 20 (moments 20 oneReturned [wokenAt 100 100 1 6000]) r := by
  have hreturns : (acquireFrame oneReturned 20
      ([wokenAt 100 100 1 6000].map TimedAttempt.toAttempt)).isSome = true := by
    decide +kernel
  obtain ⟨⟨w', r, f⟩, h⟩ := Option.isSome_iff_exists.mp hreturns
  have hmoments : moments 20 oneReturned [wokenAt 100 100 1 6000] = [.poll 100 20 100 true] := by
    decide +kernel
  refine ⟨w', r, f, h, (timeout_contract (by decide +kernel) (by decide) ?_ h).1 ⟨?_, ?_, ?_⟩⟩
  · simp [Clocked, TimedAttempt.readings, wokenAt]
  · intro _ time t base input hm
    rw [hmoments] at hm
    simp only [List.mem_singleton, Moment.poll.injEq] at hm
    obtain ⟨rfl, -, rfl, -⟩ := hm
    decide
  · intro hforever
    cases hforever
  · intro hzero
    cases hzero

/-- The signal is lost, and does not come back. -/
def lostSignal : World := (step oneReturned (.pollEvent 0 seeSourceChange)).getD oneReturned

def noEvent : TimedAttempt := ⟨[(100, ⟨.timeout, [], ⟨none, plainReconfig⟩⟩)], takeToken 0⟩

/-- With `-1` the call times out at once. With `0` it waits a second for a lost signal. With twenty
    milliseconds, of which fifteen have passed when a frame is dropped, it waits for twenty more. -/
theorem timeout_contract_broken :
    (acquireFrame oneReturned (-1) [(wokenAt 100 100 1 6000).toAttempt]).map (·.2.1) =
      some .errTimeout ∧
    moments (-1) oneReturned [wokenAt 100 100 1 6000] = [.expired 100] ∧
    moments 0 lostSignal [noEvent] = [.poll 100 1000 100 false] ∧
    moments 20 oneReturned [wokenAt 100 115 1 5400, wokenAt 115 115 2 6000] =
      [.poll 115 5 100 true, .poll 115 20 115 true] ∧
    ¬ ∀ start timeout w w' env r f, w.ctx.streaming = true → timeout < 2 ^ 31 →
      Clocked start env →
      acquireFrame w timeout (env.map TimedAttempt.toAttempt) = some (w', r, f) →
      Meets start timeout (moments timeout w env) r := by
  have hmoments : moments (-1) oneReturned [wokenAt 100 100 1 6000] = [.expired 100] := by
    decide +kernel
  have hreturns : (acquireFrame oneReturned (-1) [(wokenAt 100 100 1 6000).toAttempt]).map (·.2.1) =
      some .errTimeout := by
    decide +kernel
  refine ⟨hreturns, hmoments, by decide +kernel, by decide +kernel, fun hall => ?_⟩
  obtain ⟨⟨w', r, f⟩, h, hr⟩ := Option.map_eq_some_iff.mp hreturns
  have hmeets := hall 100 (-1) oneReturned w' [wokenAt 100 100 1 6000] r f (by decide +kernel)
    (by decide) (by simp [Clocked, TimedAttempt.readings, wokenAt]) h
  obtain ⟨time, t, base, hm⟩ := hmeets.forever rfl hr
  rw [hmoments] at hm
  simp at hm

end Streambox.Vfmcap.Timeouts
