import Streambox.Vfmcap.Conversion
import Streambox.Vfmcap.Decimation

/-! libvfmcap: a reconfiguration that fails.

    When the signal comes back, `vfmcap_acquire_frame` clears `signal_lost`, reads the format, runs
    `vfmcap_do_reconfig` and goes on to wait for a frame. It does not look at what the
    reconfiguration returns, and the reconfiguration does not look at what its own G_FMT returns.

        signal_lost = 0 ─▶ G_FMT ─▶ [ STREAMOFF ─▶ REQBUFS 0 ─▶ G_FMT ─▶ REQBUFS ─▶ QBUF .. ─▶
          STREAMON ] ─▶ reconfig_pending = 1 ─▶ wait ─▶ DQBUF ─▶ GET_DMABUF ─▶ ..

    So a failure is reported only by luck, if the rest of the call finds the signal lost again. -/

namespace Streambox.Vfmcap.ReconfigFailure
open Streambox.Lib
open Streambox.Vfmcap.Decimation

/-- The format of a context, with the bit depth inferred from it. -/
def format (c : Ctx) : Fmt × Nat :=
  (⟨c.width, c.height, c.pixelformat, c.bytesperline, c.sizeimage⟩, c.bitdepth)

/-- One of G_FMT, either REQBUFS, QBUF and STREAMON fails. Behind a refused REQBUFS, QBUF or STREAMON
    the next are not made; behind G_FMT and the REQBUFS that frees they are. -/
def reconfigFails (env : ReconfigEnv) : Bool :=
  env.gfmt.isNone || env.free.reqbufs.isSome ||
    match env.reqbufs with
    | .failed _ _ => true
    | .granted n => (List.range n).any (fun i => (env.qbuf i).isSome) || env.streamon.isSome

/-- What is asked of the call that ran a failed reconfiguration: it returns an error, the signal is
    still lost, and a failed G_FMT changes no format. -/
structure Reported (w w' : World) (env : ReconfigEnv) (r : Ret) : Prop where
  error : r ≠ .ok ∧ r ≠ .reconfigured ∧ r ≠ .errTimeout
  lost : w'.ctx.signalLost = true
  format : env.gfmt = none → format w'.ctx = format w.ctx

/-! ### Where the rest of the call meets a lost signal

    Said in the answers the call gets and the events that are queued, pass by pass. -/

/-- What `while (DQEVENT == 0)` leaves of a queue, and whether a source change came up. -/
def takeEvents : List Event → List DqStep → Option (List Event × Bool)
  | _, [] => none
  | events, s :: rest =>
    if s.fails then some (events ++ s.arrived, false) else
    match events ++ s.arrived with
    | [] => some ([], false)
    | .sourceChange :: events => some (events, true)
    | .other :: events => takeEvents events rest

/-- The events queued behind the source change that the recovery loop comes to. -/
def eventsBehind : List Event → List RecoverPass → List Event
  | events, [] => events
  | events, p :: rest =>
    match p.poll with
    | .timeout => events
    | .error _ => eventsBehind events rest
    | .ready ev =>
      if ev.pri then
        match takeEvents events p.drain with
        | none => events
        | some (events, true) => events
        | some (events, false) => eventsBehind events rest
      else eventsBehind events rest

/-- DQBUF or the export of the buffer fails with an error of a lost signal. -/
def takeLoses (a : Attempt) : Bool :=
  match a.dqbuf with
  | .error e => isSignalLostErrno e
  | .ok _ =>
    match a.dmabuf with
    | .error e => isSignalLostErrno e
    | .ok _ => false

/-- Before the deadline a poll fails with such an error or reports one, or a source change is queued;
    or, where a buffer is there first, `taking` it meets the loss. -/
def waitMeetsLoss (deadline : Int) (taking : Bool) : List Event → List WaitPass → Bool
  | _, [] => false
  | events, p :: rest =>
    if (deadline - p.now).bmod (2 ^ 32) ≤ 0 then false else
    match p.poll with
    | .timeout => false
    | .error e =>
      if e = EINTR then waitMeetsLoss deadline taking events rest else isSignalLostErrno e
    | .ready ev =>
      if ev.err then true else
      match if ev.pri then takeEvents events p.drain else some (events, false) with
      | none => false
      | some (_, true) => true
      | some (events, false) =>
        if ev.input then taking else waitMeetsLoss deadline taking events rest

/-- The pass that has brought the signal back meets a lost signal in the rest of it. -/
def losesAgain (events : List Event) (timeout : Int) (a : Attempt) : Bool :=
  if timeout ≠ 0 then
    waitMeetsLoss (a.now + timeout) (takeLoses a) (eventsBehind events a.recover) a.wait
  else takeLoses a

/-! ### What the parts of the call do -/

section parts
variable {w w' : World} {events : List Event}

/-- The drain loop on the queue alone. -/
theorem drainToSourceChange_events {by_ : Entry} {steps : List DqStep} {found : Bool}
    (h : drainToSourceChange by_ w steps = some (w', found)) :
    takeEvents w.dev.events steps = some (w'.dev.events, found) := by
  induction steps generalizing w with
  | nil => cases h
  | cons s steps ih =>
    rw [drainToSourceChange, dqevent] at h
    rw [takeEvents]
    by_cases hfails : s.fails = true
    · simp only [if_pos hfails] at h ⊢
      cases h
      rfl
    · simp only [if_neg hfails] at h ⊢
      rcases hqueue : w.dev.events ++ s.arrived with - | ⟨e, rest⟩
      · simp only [hqueue] at h
        cases h
        rfl
      · simp only [hqueue] at h
        cases e with
        | sourceChange =>
          cases h
          rfl
        | other => exact ih h

theorem handleEvents_events {ev : Revents} {drain : List DqStep} {found : Bool}
    (h : handleEvents w ev drain = some (w', found)) :
    (if ev.pri then takeEvents w.dev.events drain else some (w.dev.events, false)) =
      some (w'.dev.events, found) := by
  rw [handleEvents] at h
  split at h
  case isTrue hpri =>
    rw [if_pos hpri]
    exact drainToSourceChange_events h
  case isFalse hpri =>
    rw [if_neg hpri]
    cases h
    rfl

theorem freeBuffers_events (w : World) (env : FreeEnv) :
    (freeBuffers w env).dev.events = w.dev.events := by
  rcases env with ⟨_ | _, _ | _⟩ <;> rfl

theorem reqbufs_events {asked : Nat} {answer : ReqbufsRet} {r : Except Errno Nat}
    (h : reqbufs w asked answer = (w', r)) : w'.dev.events = w.dev.events := by
  cases answer with
  | granted n =>
    cases h
    rfl
  | failed e freed => cases freed <;> cases h <;> rfl

theorem qbuf_events (w : World) (i : Nat) (answer : Option Errno) :
    (qbuf w i answer).1.dev.events = w.dev.events := by
  unfold qbuf
  split
  · cases answer <;> rfl
  · rfl

theorem qbufAll_events {answer : Nat → Option Errno} {l : List Nat} {r : Option (Nat × Errno)}
    (h : qbufAll answer w l = (w', r)) : w'.dev.events = w.dev.events := by
  induction l generalizing w with
  | nil =>
    cases h
    rfl
  | cons i l ih =>
    have hone := qbuf_events w i (answer i)
    rw [qbufAll] at h
    split at h
    · next heq =>
      rw [heq] at hone
      exact (ih h).trans hone
    · next heq =>
      rw [heq] at hone
      cases h
      exact hone

/-- A reconfiguration takes no event off the queue. -/
theorem doReconfig_events (w : World) (env : ReconfigEnv) :
    (doReconfig w env).1.dev.events = w.dev.events := by
  have hfree : (freeBuffers (w.trace (.doReconfig w.ctx.signalLost)) env.free).dev.events =
      w.dev.events := freeBuffers_events _ _
  unfold doReconfig
  generalize freeBuffers (w.trace (.doReconfig w.ctx.signalLost)) env.free = v at hfree ⊢
  dsimp only
  split
  · next hreq => exact (reqbufs_events hreq).trans hfree
  · next hreq =>
    have hgranted := (reqbufs_events hreq).trans hfree
    split
    · next hq => exact (qbufAll_events hq).trans hgranted
    · next hq =>
      have hqueued := (qbufAll_events hq).trans hgranted
      split
      · exact hqueued
      · split
        · exact hqueued
        · exact hqueued

theorem restoreSignal_events (w : World) (env : RestoreEnv) :
    (restoreSignal w env).dev.events = w.dev.events := by
  unfold restoreSignal
  dsimp only
  split
  · exact doReconfig_events _ _
  · exact doReconfig_events _ _

/-- The format that a reconfiguration leaves. -/
def formatAfter (env : ReconfigEnv) : Fmt × Nat :=
  (env.gfmt.getD Fmt.zero, bitdepthAtReconfig (env.gfmt.getD Fmt.zero).pixelformat)

theorem doReconfig_format (w : World) (env : ReconfigEnv) :
    format (doReconfig w env).1.ctx = formatAfter env := by
  unfold doReconfig
  generalize freeBuffers (w.trace (.doReconfig w.ctx.signalLost)) env.free = v
  dsimp only
  split
  · next hreq =>
    have hctx := reqbufs_ctx hreq
    simp only [World.diag, World.setCtx, format, hctx]
    rfl
  · next hreq =>
    have hctx := reqbufs_ctx hreq
    split
    · next hq =>
      have hctx' := qbufAll_ctx hq
      simp only [World.diag, World.setCtx, format, hctx', hctx]
      rfl
    · next hq =>
      have hctx' := qbufAll_ctx hq
      split
      · simp only [World.diag, World.setCtx, format, hctx', hctx]
        rfl
      · split
        · simp only [World.trace, World.setCtx, format, hctx', hctx]
          rfl
        · simp only [World.trace, World.setCtx, format, hctx', hctx]
          rfl

theorem restoreSignal_format (w : World) (env : RestoreEnv) :
    format (restoreSignal w env).ctx = formatAfter env.reconfig ∧
      (restoreSignal w env).ctx.reconfigPending = true := by
  unfold restoreSignal
  dsimp only
  split
  · exact ⟨doReconfig_format _ _, rfl⟩
  · exact ⟨doReconfig_format _ _, rfl⟩

/-- If the recovery loop goes on, it has taken over the format of the pass that saw the signal, and
    what was queued behind that source change still is. -/
theorem recoverSignal_format {timeout : Int} {passes : List RecoverPass} {renv : RestoreEnv}
    (hby : restoredBy timeout w passes = some renv) :
    ∃ w₁, recoverSignal timeout w passes = some (w₁, none) ∧
      format w₁.ctx = formatAfter renv.reconfig ∧ w₁.ctx.reconfigPending = true ∧
      w₁.ctx.signalLost = false ∧ w₁.dev.events = eventsBehind w.dev.events passes := by
  induction passes generalizing w with
  | nil => cases hby
  | cons p passes ih =>
    rw [restoredBy] at hby
    rw [recoverSignal, eventsBehind]
    cases hpoll : p.poll with
    | timeout =>
      rw [hpoll] at hby
      cases hby
    | error e =>
      simp only [hpoll] at hby ⊢
      split at hby
      case isTrue he =>
        rw [if_pos he]
        exact ih hby
      case isFalse => cases hby
    | ready ev =>
      simp only [hpoll] at hby ⊢
      split at hby
      case isFalse hpri =>
        simp only [if_neg hpri]
        exact ih hby
      case isTrue hpri =>
        simp only [if_pos hpri]
        cases hdrain : drainToSourceChange .acquire
            (w.trace (.poll (if timeout > 0 then timeout else 1000))) p.drain with
        | none =>
          rw [hdrain] at hby
          cases hby
        | some found =>
          obtain ⟨v, changed⟩ := found
          rw [hdrain] at hby
          have hevents := drainToSourceChange_events hdrain
          rw [World.trace_dev] at hevents
          simp only [hevents]
          cases changed with
          | true =>
            cases hby
            obtain ⟨hformat, hpending⟩ := restoreSignal_format v p.restore
            exact ⟨_, rfl, hformat, hpending, (restoreSignal_core v p.restore).2,
              restoreSignal_events v p.restore⟩
          | false => exact ih hby

/-- What the rest of the call keeps. -/
def notice (c : Ctx) : (Fmt × Nat) × Bool := (format c, c.reconfigPending)

/-- The wait keeps the format and the notice, and it ends in a loss exactly where one is met; where a
    buffer is there, `taking` it decides. -/
theorem waitBuffer_notice {deadline : Int} {passes : List WaitPass} {r : Option Ret} (taking : Bool)
    (h : waitBuffer deadline w passes = some (w', r)) :
    notice w'.ctx = notice w.ctx ∧
      (r = some .errNosig ∧ w'.ctx.signalLost = true ∧
          waitMeetsLoss deadline taking w.dev.events passes = true ∨
        r ≠ some .errNosig ∧ w'.ctx.signalLost = w.ctx.signalLost ∧
          waitMeetsLoss deadline taking w.dev.events passes = (r.isNone && taking)) := by
  induction passes generalizing w with
  | nil => cases h
  | cons p passes ih =>
    rw [waitBuffer] at h
    rw [waitMeetsLoss]
    dsimp only at h
    by_cases hover : (deadline - p.now).bmod (2 ^ 32) ≤ 0
    · rw [if_pos hover] at h ⊢
      cases h
      exact ⟨rfl, .inr ⟨by simp, rfl, rfl⟩⟩
    · rw [if_neg hover] at h ⊢
      cases hpoll : p.poll with
      | timeout =>
        simp only [hpoll] at h ⊢
        cases h
        exact ⟨rfl, .inr ⟨by simp, rfl, rfl⟩⟩
      | error e =>
        simp only [hpoll] at h ⊢
        by_cases hintr : e = EINTR
        · rw [if_pos hintr] at h ⊢
          have hrest := ih h
          exact hrest
        · rw [if_neg hintr] at h ⊢
          by_cases hlost : isSignalLostErrno e = true
          · rw [if_pos hlost] at h
            cases h
            exact ⟨rfl, .inl ⟨rfl, rfl, hlost⟩⟩
          · rw [if_neg hlost] at h
            cases h
            exact ⟨rfl, .inr ⟨by simp, rfl, by simpa using hlost⟩⟩
      | ready ev =>
        simp only [hpoll] at h ⊢
        by_cases herr : ev.err = true
        · rw [if_pos herr] at h ⊢
          cases h
          exact ⟨rfl, .inl ⟨rfl, rfl, rfl⟩⟩
        · rw [if_neg herr] at h ⊢
          split at h
          · cases h
          · next v hev =>
            -- the source change that is queued
            cases h
            have hctx := handleEvents_ctx hev
            have hevents := handleEvents_events hev
            refine ⟨?_, .inl ⟨rfl, rfl, ?_⟩⟩
            · simp only [notice, format, World.loseSignal, hctx]
              rfl
            · rw [World.trace_dev] at hevents
              simp only [hevents]
          · next v hev =>
            have hctx : v.ctx = w.ctx := (handleEvents_ctx hev).trans rfl
            have hevents := handleEvents_events hev
            rw [World.trace_dev] at hevents
            simp only [hevents]
            by_cases hinput : ev.input = true
            · rw [if_pos hinput] at h ⊢
              cases h
              exact ⟨congrArg notice hctx, .inr ⟨by simp, by rw [hctx], by simp⟩⟩
            · rw [if_neg hinput] at h ⊢
              have hrest := ih h
              rw [hctx] at hrest
              exact hrest

theorem waitFrame_notice {timeout : Int} {a : Attempt} {r : Option Ret}
    (hevents : w.dev.events = eventsBehind events a.recover)
    (h : waitFrame w timeout a = some (w', r)) :
    notice w'.ctx = notice w.ctx ∧
      (r = some .errNosig ∧ w'.ctx.signalLost = true ∧ losesAgain events timeout a = true ∨
        r ≠ some .errNosig ∧ w'.ctx.signalLost = w.ctx.signalLost ∧
          losesAgain events timeout a = (r.isNone && takeLoses a)) := by
  rw [waitFrame] at h
  rw [losesAgain, ← hevents]
  split at h
  case isTrue hwaits =>
    rw [if_pos hwaits]
    exact waitBuffer_notice (takeLoses a) h
  case isFalse hwaits =>
    rw [if_neg hwaits]
    cases h
    exact ⟨rfl, .inr ⟨by simp, rfl, by simp⟩⟩

theorem finish_format (w : World) (f : Frame) :
    format (finish w f).1.ctx = format w.ctx ∧
      (finish w f).1.ctx.signalLost = w.ctx.signalLost ∧ ∃ r g, (finish w f).2 = .done r g := by
  rw [finish]
  split
  · exact ⟨rfl, rfl, _, _, rfl⟩
  · exact ⟨rfl, rfl, _, _, rfl⟩

theorem convert_format (w : World) (a : Attempt) (f : Frame) :
    format (convert w a f).1.ctx = format w.ctx ∧
      (convert w a f).1.ctx.signalLost = w.ctx.signalLost ∧ ∃ r g, (convert w a f).2 = .done r g := by
  unfold convert
  split
  · split
    · exact finish_format w f
    · split
      · rw [giveBack_ctx]
        exact ⟨rfl, rfl, _, _, rfl⟩
      · dsimp only
        split
        · exact finish_format ..
        · rw [giveBack_ctx]
          exact ⟨rfl, rfl, _, _, rfl⟩
  · exact finish_format w f

/-- With a notice pending a pass ends the call; it loses the signal or leaves it. -/
theorem takeFrame_lost {a : Attempt} {out : Outcome} (hpending : w.ctx.reconfigPending = true)
    (h : takeFrame w a = some (w', out)) :
    format w'.ctx = format w.ctx ∧ ∃ r f, out = .done r f ∧
      (takeLoses a = true ∧ r = .errNosig ∧ w'.ctx.signalLost = true ∨
        takeLoses a = false ∧ w'.ctx.signalLost = w.ctx.signalLost) := by
  rw [takeLoses]
  unfold takeFrame at h
  cases hdq : a.dqbuf with
  | error e =>
    simp only [hdq] at h ⊢
    split_ifs at h with hagain hlost
    · -- `EAGAIN` is none of the errors of a lost signal
      cases h
      have hnot : isSignalLostErrno e = false := by
        rw [hagain]
        rfl
      exact ⟨rfl, _, _, rfl, .inr ⟨hnot, rfl⟩⟩
    · cases h
      exact ⟨rfl, _, _, rfl, .inl ⟨hlost, rfl, rfl⟩⟩
    · cases h
      exact ⟨rfl, _, _, rfl, .inr ⟨by simpa using hlost, rfl⟩⟩
  | ok b =>
    simp only [hdq] at h ⊢
    cases htaken : dqbuf w b.index with
    | none =>
      rw [htaken] at h
      cases h
    | some v =>
      simp only [htaken] at h
      have hv := dqbuf_ctx htaken
      cases hexport : a.dmabuf with
      | error e =>
        simp only [hexport] at h ⊢
        have hq := (qbuf_ctx (v.diag (.sys "VFM_CAP_IOC_GET_DMABUF failed" e)) b.index a.requeue).1
        split_ifs at h with hlost
        · cases h
          refine ⟨?_, _, _, rfl, .inl ⟨hlost, rfl, rfl⟩⟩
          simp only [World.loseSignal, format, hq]
          rw [← hv]
          rfl
        · cases h
          refine ⟨?_, _, _, rfl, .inr ⟨by simpa using hlost, ?_⟩⟩
          · simp only [format, hq]
            rw [← hv]
            rfl
          · rw [hq, ← hv]
            rfl
      | ok out' =>
        obtain ⟨fd, size⟩ := out'
        simp only [hexport] at h ⊢
        rw [← hv] at hpending ⊢
        rw [decimate_pending (c := (v.trace (.getDmabuf fd)).ctx) hpending] at h
        simp only [Bool.false_eq_true, if_false, Option.some_inj] at h
        obtain ⟨hformat, hlost, r, g, hout⟩ :=
          convert_format ((v.trace (.getDmabuf fd)).setCtx (v.trace (.getDmabuf fd)).ctx) a
            (rawFrame v b fd size)
        rw [h] at hformat hlost hout
        exact ⟨hformat, r, g, hout, .inr ⟨trivial, hlost⟩⟩

/-- A call that brings the signal back: the format it leaves, and whether it loses the signal. -/
theorem acquireFrame_restored {timeout : Int} {a : Attempt} {rest : List Attempt}
    {renv : RestoreEnv} {r : Ret} {f : Option Frame} (hstreaming : w.ctx.streaming = true)
    (hlost : w.ctx.signalLost = true) (hby : restoredBy timeout w a.recover = some renv)
    (h : acquireFrame w timeout (a :: rest) = some (w', r, f)) :
    format w'.ctx = formatAfter renv.reconfig ∧
      (losesAgain w.dev.events timeout a = true ∧ r = .errNosig ∧ w'.ctx.signalLost = true ∨
        losesAgain w.dev.events timeout a = false ∧ w'.ctx.signalLost = false) := by
  obtain ⟨w₁, hrecover, hformat, hpending, hclear, hevents⟩ := recoverSignal_format hby
  have hsignal : waitSignal w timeout a = some (w₁, none) := by
    rw [waitSignal, if_pos hlost, hrecover]
  rw [acquireFrame, if_pos hstreaming, attempts, attempt, hsignal] at h
  simp only at h
  cases hframe : waitFrame w₁ timeout a with
  | none =>
    rw [hframe] at h
    cases h
  | some q =>
    obtain ⟨w₂, r'⟩ := q
    obtain ⟨hnotice, hend⟩ := waitFrame_notice hevents hframe
    simp only [notice, Prod.mk.injEq] at hnotice
    simp only [hframe] at h
    cases r' with
    | some r' =>
      cases h
      refine ⟨hnotice.1.trans hformat, ?_⟩
      rcases hend with ⟨hr, hlost', hagain⟩ | ⟨-, hsame, hnot⟩
      · cases hr
        exact .inl ⟨hagain, rfl, hlost'⟩
      · exact .inr ⟨by simpa using hnot, hsame.trans hclear⟩
    | none =>
      obtain ⟨hsame, htaking⟩ : w₂.ctx.signalLost = false ∧
          losesAgain w.dev.events timeout a = takeLoses a := by
        rcases hend with ⟨hr, -⟩ | ⟨-, hsame, htaking⟩
        · cases hr
        · exact ⟨hsame.trans hclear, by simpa using htaking⟩
      rw [htaking]
      simp only at h
      cases htake : takeFrame w₂ a with
      | none =>
        rw [htake] at h
        cases h
      | some q =>
        obtain ⟨w₃, out⟩ := q
        obtain ⟨hkept, r', f', rfl, hend'⟩ := takeFrame_lost (hnotice.2.trans hpending) htake
        simp only [htake] at h
        cases h
        refine ⟨(hkept.trans hnotice.1).trans hformat, ?_⟩
        rcases hend' with hend' | ⟨hnot, hlost'⟩
        · exact .inl hend'
        · exact .inr ⟨hnot, hlost'.trans hsame⟩

end parts

/-- The format that a failed G_FMT leaves. -/
def zeroed : Fmt × Nat := (Fmt.zero, 8)

/-- A call that brings the signal back with a failing reconfiguration does what is asked exactly if
    the rest of it finds the signal lost again and, where G_FMT failed, there was no format before.
    -/
theorem failure_reported_iff {w w' : World} {timeout : Int} {a : Attempt} {rest : List Attempt}
    {renv : RestoreEnv} {r : Ret} {f : Option Frame} (hstreaming : w.ctx.streaming = true)
    (hlost : w.ctx.signalLost = true) (hby : restoredBy timeout w a.recover = some renv)
    (h : acquireFrame w timeout (a :: rest) = some (w', r, f)) :
    (reconfigFails renv.reconfig = true → Reported w w' renv.reconfig r) ↔
      (reconfigFails renv.reconfig = true → losesAgain w.dev.events timeout a = true ∧
        (renv.reconfig.gfmt = none → format w.ctx = zeroed)) := by
  obtain ⟨hformat, hend⟩ := acquireFrame_restored hstreaming hlost hby h
  refine imp_congr_right fun _ => ?_
  have hzeroed : renv.reconfig.gfmt = none → format w'.ctx = zeroed := by
    intro hgfmt
    rw [hformat, formatAfter, hgfmt]
    rfl
  constructor
  · rintro ⟨-, hstays, hkeeps⟩
    refine ⟨?_, fun hgfmt => (hkeeps hgfmt).symm.trans (hzeroed hgfmt)⟩
    rcases hend with ⟨hagain, -⟩ | ⟨-, hclear⟩
    · exact hagain
    · rw [hstays] at hclear
      cases hclear
  · rintro ⟨hagain, hnone⟩
    rcases hend with ⟨-, hr, hstays⟩ | ⟨hnot, -⟩
    · refine ⟨?_, hstays, fun hgfmt => (hzeroed hgfmt).trans (hnone hgfmt).symm⟩
      rw [hr]
      decide
    · rw [hagain] at hnot
      cases hnot

def fullHd : Fmt := ⟨1920, 1080, pixNv12, 1920, 3110400⟩

/-- A context that streams full HD, and is told of a source change. -/
def lostFullHd : World :=
  (run step (openWorld rawConfig (some fullHd) [])
    [.start 4 plainStart, .pollEvent 0 seeSourceChange]).getD (openWorld rawConfig none [])

/-- The signal comes back, STREAMON fails, and the next poll reports an error. -/
def streamonFails : ReconfigEnv := { plainReconfig with gfmt := some fullHd, streamon := some EIO }
def recoverAndLose : Attempt :=
  { takeToken 0 with
    recover := [⟨.ready ⟨true, false, false⟩, [⟨[.sourceChange], false⟩], ⟨none, streamonFails⟩⟩]
    wait := [⟨0, .ready ⟨false, false, true⟩, []⟩] }

theorem failure_reported_iff_lost_again :
    ∃ w' r f, acquireFrame lostFullHd 20 [recoverAndLose] = some (w', r, f) ∧
      reconfigFails streamonFails = true ∧ Reported lostFullHd w' streamonFails r := by
  have hreturns : (acquireFrame lostFullHd 20 [recoverAndLose]).isSome = true := by decide +kernel
  obtain ⟨⟨w', r, f⟩, h⟩ := Option.isSome_iff_exists.mp hreturns
  have hby : restoredBy 20 lostFullHd recoverAndLose.recover = some ⟨none, streamonFails⟩ := rfl
  have hiff := failure_reported_iff (by decide +kernel) (by decide +kernel) hby h
  exact ⟨w', r, f, h, rfl, hiff.mpr (fun _ => by decide +kernel) rfl⟩

/-- The signal comes back with G_FMT failing: the call returns a frame of no width and no height
    with the notice of a new configuration, and the signal counts as present. -/
theorem failure_not_reported :
    (acquireFrame lostFullHd 0 [recoverAndTake 0]).map (fun q =>
      (q.2.1, q.1.ctx.signalLost, q.2.2.map (fun f => (f.width, f.height)), format q.1.ctx)) =
      some (.reconfigured, false, some (0, 0), zeroed) ∧
    ¬ ∀ w timeout a rest renv w' r f, w.ctx.streaming = true → w.ctx.signalLost = true →
      restoredBy timeout w a.recover = some renv →
      acquireFrame w timeout (a :: rest) = some (w', r, f) →
      reconfigFails renv.reconfig = true → Reported w w' renv.reconfig r := by
  have hcall : (acquireFrame lostFullHd 0 [recoverAndTake 0]).map (fun q =>
      (q.2.1, q.1.ctx.signalLost, q.2.2.map (fun f => (f.width, f.height)), format q.1.ctx)) =
      some (.reconfigured, false, some (0, 0), zeroed) := by
    decide +kernel
  refine ⟨hcall, fun hall => ?_⟩
  obtain ⟨⟨w', r, f⟩, h, hq⟩ := Option.map_eq_some_iff.mp hcall
  have hby : restoredBy 0 lostFullHd (recoverAndTake 0).recover = some ⟨none, plainReconfig⟩ := rfl
  have hreported := hall _ _ _ _ _ _ _ _ (by decide +kernel) (by decide +kernel) hby h rfl
  simp only [Prod.mk.injEq] at hq
  exact hreported.error.2.1 hq.1

end Streambox.Vfmcap.ReconfigFailure
