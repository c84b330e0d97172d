import Streambox.Vfmcap.SignalProtocol

/-! The capture calls follow the signal protocol.

    Most of what a call does is quiet: it leaves both flags alone and traces nothing the protocol
    is about. The rest happens in six places, each of which is one move. -/

namespace Streambox.Vfmcap
open Streambox.Lib Relation

/-- A world as the protocol sees it. -/
def World.flags (w : World) : Flags := ⟨w.ctx.signalLost, w.ctx.reconfigPending⟩

def World.view (w : World) : Flags × List Sys := (w.flags, w.log)

/-- The flags are untouched and only quiet entries are traced. -/
def Quiet (w w' : World) : Prop :=
  w'.flags = w.flags ∧ ∃ seg, w'.log = seg ++ w.log ∧ ∀ e ∈ seg, Sys.isSignal e = false

/-- The calls between two worlds are moves. -/
def Follows (w w' : World) : Prop := ReflTransGen Move w.view w'.view

section quiet
variable {w w₁ w₂ w' : World}

theorem Quiet.refl (w : World) : Quiet w w := ⟨rfl, [], rfl, by simp⟩

theorem Quiet.trans (h₁ : Quiet w w₁) (h₂ : Quiet w₁ w₂) : Quiet w w₂ := by
  obtain ⟨hf₁, s₁, hl₁, hq₁⟩ := h₁
  obtain ⟨hf₂, s₂, hl₂, hq₂⟩ := h₂
  refine ⟨hf₂.trans hf₁, s₂ ++ s₁, by rw [hl₂, hl₁, List.append_assoc], fun e he => ?_⟩
  rcases List.mem_append.mp he with h | h
  · exact hq₂ e h
  · exact hq₁ e h

theorem Quiet.follows (h : Quiet w w') : Follows w w' := by
  obtain ⟨hf, seg, hl, hq⟩ := h
  rw [Follows, World.view, World.view, hf, hl]
  exact quiet_moves _ _ hq

theorem Quiet.of_log (hf : w'.flags = w.flags) (hl : w'.log = w.log) : Quiet w w' :=
  ⟨hf, [], hl, by simp⟩

theorem quiet_trace (w : World) {e : Sys} (he : e.isSignal = false) : Quiet w (w.trace e) :=
  ⟨rfl, [e], rfl, by simpa using he⟩

theorem quiet_setCtx (w : World) {c : Ctx} (hl : c.signalLost = w.ctx.signalLost)
    (hp : c.reconfigPending = w.ctx.reconfigPending) : Quiet w (w.setCtx c) :=
  Quiet.of_log (by rw [World.flags, World.flags, World.setCtx, hl, hp]) rfl

theorem quiet_diag (w : World) (d : Diag) : Quiet w (w.diag d) := quiet_setCtx w rfl rfl

theorem quiet_qbuf (w : World) (i : Nat) (answer : Option Errno) : Quiet w (qbuf w i answer).1 := by
  unfold qbuf
  split
  · split
    · exact ⟨rfl, [.qbuf i true true], rfl, by simp [Sys.isSignal]⟩
    · exact quiet_trace w rfl
  · exact quiet_trace w rfl

theorem quiet_dqbuf {i : Nat} (h : dqbuf w i = some w') : Quiet w w' := by
  unfold dqbuf at h
  split at h
  · cases h; exact ⟨rfl, [.dqbuf i], rfl, by simp [Sys.isSignal]⟩
  · cases h

theorem quiet_streamoff (w : World) (answer : Option Errno) : Quiet w (streamoff w answer) := by
  cases answer with
  | none => exact ⟨rfl, [.streamoff true], rfl, by simp [Sys.isSignal]⟩
  | some e => exact quiet_trace w rfl

theorem quiet_freebufs (w : World) (answer : Option Errno) : Quiet w (freebufs w answer) := by
  cases answer with
  | none => exact ⟨rfl, [.freebufs true], rfl, by simp [Sys.isSignal]⟩
  | some e => exact quiet_trace w rfl

theorem quiet_freeBuffers (w : World) (env : FreeEnv) : Quiet w (freeBuffers w env) :=
  (quiet_streamoff w _).trans (quiet_freebufs _ _)

theorem quiet_reqbufs {asked : Nat} {answer : ReqbufsRet} {r : Except Errno Nat}
    (h : reqbufs w asked answer = (w', r)) : Quiet w w' := by
  cases answer with
  | granted n => cases h; exact ⟨rfl, [.reqbufs asked n], rfl, by simp [Sys.isSignal]⟩
  | failed e freed =>
    cases freed
    · cases h; exact Quiet.refl w
    · cases h; exact ⟨rfl, [.reqbufs asked 0], rfl, by simp [Sys.isSignal]⟩

theorem quiet_qbufAll {answer : Nat → Option Errno} : ∀ {L : List Nat} {w w' : World}
    {r : Option (Nat × Errno)}, qbufAll answer w L = (w', r) → Quiet w w'
  | [], w, _, _, h => by
    cases h
    exact Quiet.refl w
  | i :: L, w, w', r, h => by
    have hone := quiet_qbuf w i (answer i)
    unfold qbufAll at h
    split at h
    · rename_i heq
      rw [heq] at hone
      exact hone.trans (quiet_qbufAll h)
    · rename_i heq
      rw [heq] at hone
      cases h
      exact hone

theorem quiet_giveBack (w : World) (fd : Int) (i : Nat) (answer : Option Errno) :
    Quiet w (giveBack w fd i answer) :=
  (quiet_trace w rfl).trans (quiet_qbuf _ _ _)

/-- A reconfiguration traces its own start, with the loss flag it found, and is quiet after that. -/
theorem quiet_doReconfig (w : World) (env : ReconfigEnv) :
    Quiet (w.trace (.doReconfig w.ctx.signalLost)) (doReconfig w env).1 := by
  have hfmt := (quiet_freeBuffers (w.trace (.doReconfig w.ctx.signalLost)) env.free).trans
    (quiet_setCtx _ (c := (freeBuffers (w.trace (.doReconfig w.ctx.signalLost)) env.free).ctx.setFmt
      (env.gfmt.getD Fmt.zero) (bitdepthAtReconfig (env.gfmt.getD Fmt.zero).pixelformat)) rfl rfl)
  unfold doReconfig
  dsimp only
  split
  · rename_i hreq
    exact (hfmt.trans (quiet_reqbufs hreq)).trans (quiet_diag _ _)
  · rename_i hreq
    have hgrant := hfmt.trans (quiet_reqbufs hreq)
    split
    · rename_i hq
      exact ((hgrant.trans (quiet_setCtx _ (by rfl) (by rfl))).trans (quiet_qbufAll hq)).trans
        (quiet_diag _ _)
    · rename_i hq
      have hqueued := (hgrant.trans (quiet_setCtx _ (by rfl) (by rfl))).trans (quiet_qbufAll hq)
      split
      · exact hqueued.trans (quiet_diag _ _)
      · refine ((hqueued.trans (quiet_trace _ (e := .streamon) rfl)).trans ?_).trans
          (quiet_setCtx _ rfl rfl)
        split
        · exact quiet_trace _ rfl
        · exact Quiet.refl _

/-! ### Events -/

/-- A source change has just been taken off the queue. -/
def Saw (by_ : Entry) (w w' : World) : Prop :=
  ∃ w₁, Quiet w w₁ ∧ w'.flags = w.flags ∧
    w'.log = .dqevent .sourceChange by_ w.ctx.signalLost :: w₁.log

theorem dqevent_cases {by_ : Entry} {s : DqStep} {r : Option Event}
    (h : dqevent w by_ s = (w', r)) :
    if r = some .sourceChange then Saw by_ w w' else Quiet w w' := by
  unfold dqevent at h
  split at h
  · cases h; exact Quiet.of_log rfl rfl
  · split at h
    · cases h; exact Quiet.of_log rfl rfl
    · rename_i e rest _
      cases h
      cases e with
      | sourceChange => exact ⟨w, Quiet.refl w, rfl, rfl⟩
      | other => exact ⟨rfl, [.dqevent .other by_ w.ctx.signalLost], rfl, by simp [Sys.isSignal]⟩

theorem Quiet.saw {by_ : Entry} (h₁ : Quiet w w₁) (h₂ : Saw by_ w₁ w') : Saw by_ w w' := by
  obtain ⟨w₂, hq, hf, hl⟩ := h₂
  have hlost : w₁.ctx.signalLost = w.ctx.signalLost := congrArg Flags.lost h₁.1
  exact ⟨w₂, h₁.trans hq, hf.trans h₁.1, by rw [hl, hlost]⟩

theorem drainToSourceChange_cases {by_ : Entry} : ∀ {steps : List DqStep} {w w' : World}
    {found : Bool}, drainToSourceChange by_ w steps = some (w', found) →
    if found then Saw by_ w w' else Quiet w w'
  | [], _, _, _, h => by cases h
  | s :: steps, w, w', found, h => by
    unfold drainToSourceChange at h
    split at h
    · rename_i heq
      cases h
      exact dqevent_cases heq
    · rename_i heq
      cases h
      exact dqevent_cases heq
    · rename_i heq
      have hone : Quiet w _ := dqevent_cases heq
      have hrest := drainToSourceChange_cases h
      cases found with
      | true => exact hone.saw hrest
      | false => exact hone.trans hrest

end quiet

/-! ### The moves of the calls -/

section moves
variable {w w₁ w' : World}

theorem Follows.refl (w : World) : Follows w w := ReflTransGen.refl

theorem Follows.trans (h₁ : Follows w w₁) (h₂ : Follows w₁ w') : Follows w w' :=
  ReflTransGen.trans h₁ h₂

theorem Follows.quiet (h₁ : Follows w w₁) (h₂ : Quiet w₁ w') : Follows w w' :=
  h₁.trans h₂.follows

theorem follows_loseSignal (w : World) : Follows w w.loseSignal := by
  rw [Follows, World.view, World.view, World.flags, World.flags, World.loseSignal]
  cases hl : w.ctx.signalLost with
  | true => exact .refl
  | false => exact .single .lose

/-- `vfmcap_acquire_frame` sees a source change while waiting for a buffer. -/
theorem follows_seen (hl : w.ctx.signalLost = false) (h : Saw .acquire w w') :
    Follows w w'.loseSignal := by
  obtain ⟨w₁, hq, hf, hlog⟩ := h
  have hlost' : w'.ctx.signalLost = false := (congrArg Flags.lost hf).trans hl
  have hview : w'.loseSignal.view = (⟨true, w₁.flags.pending⟩,
      .signalLost :: .dqevent .sourceChange .acquire false :: w₁.log) := by
    have hp : w'.ctx.reconfigPending = w₁.flags.pending :=
      (congrArg Flags.pending hf).trans (congrArg Flags.pending hq.1).symm
    simp only [World.view, World.flags, World.loseSignal, hlost', hlog, hl, hp]
    rfl
  have hmid : w₁.view = (⟨false, w₁.flags.pending⟩, w₁.log) := by
    have hlost₁ : w₁.flags.lost = false := (congrArg Flags.lost hq.1).trans hl
    rw [World.view, ← hlost₁]
  refine ReflTransGen.tail hq.follows ?_
  rw [hmid, hview]
  exact .seen

/-- … and while it waits for the signal. -/
theorem follows_restored (hl : w.ctx.signalLost = true) (h : Saw .acquire w w')
    (env : RestoreEnv) :
    Follows w (restoreSignal w' env) ∧ (restoreSignal w' env).flags = ⟨false, true⟩ := by
  obtain ⟨w₁, hq, hf, hlog⟩ := h
  have hlost₁ : w₁.flags.lost = true := (congrArg Flags.lost hq.1).trans hl
  -- the world that enters `doReconfig`, with the loss flag already clear
  obtain ⟨w₂, hw₂, hlog₂, hlost₂⟩ : ∃ w₂ : World,
      restoreSignal w' env = (doReconfig w₂ env.reconfig).1.setCtx
        { (doReconfig w₂ env.reconfig).1.ctx with reconfigPending := true } ∧
      w₂.log = w'.log ∧ w₂.ctx.signalLost = false := by
    unfold restoreSignal
    dsimp only
    split
    · exact ⟨_, rfl, rfl, rfl⟩
    · exact ⟨_, rfl, rfl, rfl⟩
  obtain ⟨hflags, seg, hseg, hquiet⟩ := quiet_doReconfig w₂ env.reconfig
  have hflags' : (restoreSignal w' env).flags = ⟨false, true⟩ := by
    have hlost : (doReconfig w₂ env.reconfig).1.ctx.signalLost = false :=
      (congrArg Flags.lost hflags).trans hlost₂
    rw [hw₂, World.flags, World.setCtx, hlost]
  refine ⟨?_, hflags'⟩
  have hend : (restoreSignal w' env).view
      = (⟨false, true⟩, seg ++ .doReconfig false :: restoration :: w₁.log) := by
    have hl' : (restoreSignal w' env).log = (doReconfig w₂ env.reconfig).1.log := by rw [hw₂]; rfl
    rw [World.view, hflags', hl', hseg, World.trace, hlost₂, hlog₂, hlog, hl]
    rfl
  have hmid : w₁.view = (⟨true, w₁.flags.pending⟩, w₁.log) := by
    rw [World.view, ← hlost₁]
  rw [Follows, hend]
  refine ReflTransGen.trans (ReflTransGen.tail hq.follows ?_) (quiet_moves _ _ hquiet)
  rw [hmid]
  exact .restored

/-- `vfmcap_poll_event` sees one. -/
theorem follows_polled (h : Saw .pollEvent w w') :
    Follows w (w'.loseSignal.setCtx { w'.loseSignal.ctx with reconfigPending := true }) := by
  obtain ⟨w₁, hq, hf, hlog⟩ := h
  have hlost' : w'.ctx.signalLost = w.ctx.signalLost := congrArg Flags.lost hf
  have hview : (w'.loseSignal.setCtx { w'.loseSignal.ctx with reconfigPending := true }).view
      = (⟨true, true⟩, (if w.ctx.signalLost then [] else [.signalLost]) ++
          .dqevent .sourceChange .pollEvent w.ctx.signalLost :: w₁.log) := by
    simp only [World.view, World.flags, World.loseSignal, World.setCtx, hlost', hlog]
    cases w.ctx.signalLost <;> rfl
  have hmid : w₁.view = (⟨w.ctx.signalLost, w₁.flags.pending⟩, w₁.log) := by
    have hlost₁ : w₁.flags.lost = w.ctx.signalLost := congrArg Flags.lost hq.1
    rw [World.view, ← hlost₁]
  refine ReflTransGen.tail hq.follows ?_
  rw [hmid, hview]
  exact .polled

theorem recoverSignal_cases {timeout : Int} : ∀ {passes : List RecoverPass} {w w' : World}
    {r : Option Ret}, w.ctx.signalLost = true → recoverSignal timeout w passes = some (w', r) →
    Follows w w' ∧ (r = none → w'.ctx.signalLost = false) ∧
      ∀ c, r = some c → c ≠ .ok ∧ c ≠ .reconfigured
  | [], _, _, _, _, h => by cases h
  | p :: passes, w, w', r, hl, h => by
    have hpoll : Quiet w (w.trace (.poll (if timeout > 0 then timeout else 1000))) :=
      quiet_trace w rfl
    unfold recoverSignal at h
    dsimp only at h
    split at h
    · cases h
      exact ⟨hpoll.follows, by simp, by simp⟩
    · split at h
      · obtain ⟨hf, hrest⟩ := recoverSignal_cases (w := w.trace _) hl h
        exact ⟨hpoll.follows.trans hf, hrest⟩
      · cases h
        exact ⟨(hpoll.trans (quiet_diag _ _)).follows, by simp, by simp⟩
    · split at h
      · split at h
        · cases h
        · rename_i hd
          cases h
          have hsaw : Saw .acquire _ _ := drainToSourceChange_cases hd
          obtain ⟨hf, hflags⟩ := follows_restored hl (hpoll.saw hsaw) p.restore
          exact ⟨hf, fun _ => congrArg Flags.lost hflags, by simp⟩
        · rename_i hd
          have hq : Quiet _ _ := drainToSourceChange_cases hd
          have hq' := hpoll.trans hq
          obtain ⟨hf, hrest⟩ := recoverSignal_cases ((congrArg Flags.lost hq'.1).trans hl) h
          exact ⟨hq'.follows.trans hf, hrest⟩
      · obtain ⟨hf, hrest⟩ := recoverSignal_cases (w := w.trace _) hl h
        exact ⟨hpoll.follows.trans hf, hrest⟩

theorem handleEvents_cases {ev : Revents} {drain : List DqStep} {found : Bool}
    (h : handleEvents w ev drain = some (w', found)) :
    if found then Saw .acquire w w' else Quiet w w' := by
  unfold handleEvents at h
  split at h
  · exact drainToSourceChange_cases h
  · cases h; exact Quiet.refl w

theorem waitBuffer_cases {deadline : Int} : ∀ {passes : List WaitPass} {w w' : World}
    {r : Option Ret}, w.ctx.signalLost = false → waitBuffer deadline w passes = some (w', r) →
    Follows w w' ∧ (r = none → w'.ctx.signalLost = false) ∧
      ∀ c, r = some c → c ≠ .ok ∧ c ≠ .reconfigured
  | [], _, _, _, _, h => by cases h
  | p :: passes, w, w', r, hl, h => by
    unfold waitBuffer at h
    dsimp only at h
    split at h
    · cases h
      exact ⟨Follows.refl w, by simp, by simp⟩
    · have hpoll : Quiet w (w.trace (.poll ((deadline - p.now).bmod (2 ^ 32)))) :=
        quiet_trace w rfl
      split at h
      · cases h
        exact ⟨hpoll.follows, by simp, by simp⟩
      · split at h
        · obtain ⟨hf, hrest⟩ := waitBuffer_cases (w := w.trace _) hl h
          exact ⟨hpoll.follows.trans hf, hrest⟩
        · split at h
          · cases h
            exact ⟨(hpoll.follows.trans (follows_loseSignal _)).quiet (quiet_diag _ _), by simp,
              by simp⟩
          · cases h
            exact ⟨(hpoll.trans (quiet_diag _ _)).follows, by simp, by simp⟩
      · split at h
        · cases h
          exact ⟨(hpoll.follows.trans (follows_loseSignal _)).quiet (quiet_diag _ _), by simp,
            by simp⟩
        · split at h
          · cases h
          · rename_i hd
            cases h
            have hsaw : Saw .acquire _ _ := handleEvents_cases hd
            exact ⟨follows_seen hl (hpoll.saw hsaw), by simp, by simp⟩
          · rename_i hd
            have hq : Quiet _ _ := handleEvents_cases hd
            have hq' := hpoll.trans hq
            have hl' := (congrArg Flags.lost hq'.1).trans hl
            split at h
            · cases h
              exact ⟨hq'.follows, fun _ => hl', by simp⟩
            · obtain ⟨hf, hrest⟩ := waitBuffer_cases hl' h
              exact ⟨hq'.follows.trans hf, hrest⟩

/-- What a pass has done to the protocol when it returns `r`: a frame is handed out only with the
    signal present, and `VFMCAP_RECONFIGURED` takes the announcement with it. -/
def Returns (w w' : World) (r : Ret) : Prop :=
  match r with
  | .ok => Follows w w' ∧ w'.flags = ⟨false, false⟩
  | .reconfigured => ∃ w₁, Follows w w₁ ∧ w₁.flags = ⟨false, true⟩ ∧ w'.log = w₁.log ∧
      w'.flags = ⟨false, false⟩
  | _ => Follows w w'

theorem returns_of_error {r : Ret} (h : Follows w w') (hr : r ≠ .ok ∧ r ≠ .reconfigured) :
    Returns w w' r := by
  cases r with
  | ok => exact absurd rfl hr.1
  | reconfigured => exact absurd rfl hr.2
  | _ => exact h

theorem Returns.after {r : Ret} (h₁ : Follows w w₁) (h₂ : Returns w₁ w' r) : Returns w w' r := by
  cases r with
  | ok => exact ⟨h₁.trans h₂.1, h₂.2⟩
  | reconfigured =>
    obtain ⟨w₂, hf, hrest⟩ := h₂
    exact ⟨w₂, h₁.trans hf, hrest⟩
  | _ => exact h₁.trans h₂

/-- A pass that returns does so lawfully; one that goes back to the label has moved. -/
def Outcome.Moves (w w' : World) : Outcome → Prop
  | .done r _ => Returns w w' r
  | .again => Follows w w'

theorem finish_moves {f : Frame} {out : Outcome} (hl : w.ctx.signalLost = false)
    (h : finish w f = (w', out)) : out.Moves w w' := by
  unfold finish at h
  split at h
  · rename_i hp
    cases h
    refine ⟨w, Follows.refl w, ?_, rfl, ?_⟩
    · rw [World.flags, hl, hp]
    · rw [World.flags, World.setCtx, hl]
  · rename_i hp
    cases h
    refine ⟨Follows.refl w, ?_⟩
    rw [World.flags, hl, Bool.eq_false_iff.mpr hp]

theorem Outcome.Moves.after {out : Outcome} (h₁ : Follows w w₁) (h₂ : out.Moves w₁ w') :
    out.Moves w w' := by
  cases out with
  | done r f => exact Returns.after h₁ h₂
  | again => exact h₁.trans h₂

theorem convert_moves {a : Attempt} {f : Frame} {out : Outcome} (hl : w.ctx.signalLost = false)
    (h : convert w a f = (w', out)) : out.Moves w w' := by
  unfold convert at h
  split at h
  · split at h
    · exact finish_moves hl h
    · rename_i p _
      split at h
      · cases h
        exact ((quiet_diag _ _).trans (quiet_giveBack _ _ _ _)).follows
      · rename_i out' _
        dsimp only at h
        have hq : Quiet w (w.trace (.render out'.fd (p.outFd2 out'))) := quiet_trace w rfl
        split at h
        · exact (finish_moves (w := w.trace _) hl h).after hq.follows
        · cases h
          exact ((hq.trans (quiet_trace _ rfl)).trans (quiet_giveBack _ _ _ _)).follows
  · exact finish_moves hl h

/-- Decimation does not touch the flags. -/
theorem decimate_flags (c : Ctx) (ts : Nat) :
    (decimate c ts).1.signalLost = c.signalLost ∧
      (decimate c ts).1.reconfigPending = c.reconfigPending := by
  unfold decimate
  cases c.config.frameInterval with
  | none => exact ⟨rfl, rfl⟩
  | some interval =>
    dsimp only
    split_ifs <;> exact ⟨rfl, rfl⟩

theorem takeFrame_moves {a : Attempt} {out : Outcome} (hl : w.ctx.signalLost = false)
    (h : takeFrame w a = some (w', out)) : out.Moves w w' := by
  unfold takeFrame at h
  split at h
  · split at h
    · cases h; exact Follows.refl w
    · split at h
      · cases h; exact (follows_loseSignal w).quiet (quiet_diag _ _)
      · cases h; exact (quiet_diag _ _).follows
  · rename_i b _
    split at h
    · cases h
    · rename_i w₁ hdq
      have hq := quiet_dqbuf hdq
      split at h
      · rename_i e _
        dsimp only at h
        have hback := (hq.trans (quiet_diag w₁ (.sys "VFM_CAP_IOC_GET_DMABUF failed" e))).trans
          (quiet_qbuf _ b.index a.requeue)
        split at h
        · cases h; exact hback.follows.trans (follows_loseSignal _)
        · cases h; exact hback.follows
      · rename_i fd size _
        dsimp only at h
        obtain ⟨hl', hp'⟩ := decimate_flags (w₁.trace (.getDmabuf fd)).ctx b.timestampUs
        have hdec := (hq.trans (quiet_trace w₁ (e := .getDmabuf fd) rfl)).trans
          (quiet_setCtx _ hl' hp')
        split at h
        · rw [Option.some_inj, Prod.mk.injEq] at h
          obtain ⟨rfl, rfl⟩ := h
          exact (hdec.trans (quiet_giveBack _ _ _ _)).follows
        · rw [Option.some_inj] at h
          exact (convert_moves ((congrArg Flags.lost hdec.1).trans hl) h).after hdec.follows

theorem attempt_moves {timeout : Int} {a : Attempt} {out : Outcome}
    (h : attempt w timeout a = some (w', out)) : out.Moves w w' := by
  have hsignal : ∀ {w₁ : World} {r : Option Ret}, waitSignal w timeout a = some (w₁, r) →
      Follows w w₁ ∧ (r = none → w₁.ctx.signalLost = false) ∧
        ∀ c, r = some c → c ≠ .ok ∧ c ≠ .reconfigured := by
    intro w₁ r hw
    unfold waitSignal at hw
    split at hw
    · rename_i hl; exact recoverSignal_cases hl hw
    · rename_i hl
      cases hw
      exact ⟨Follows.refl w, fun _ => Bool.eq_false_iff.mpr hl, by simp⟩
  have hframe : ∀ {w₁ w₂ : World} {r : Option Ret}, w₁.ctx.signalLost = false →
      waitFrame w₁ timeout a = some (w₂, r) → Follows w₁ w₂ ∧
        (r = none → w₂.ctx.signalLost = false) ∧ ∀ c, r = some c → c ≠ .ok ∧ c ≠ .reconfigured := by
    intro w₁ w₂ r hl hw
    unfold waitFrame at hw
    split at hw
    · exact waitBuffer_cases hl hw
    · cases hw
      exact ⟨Follows.refl w₁, fun _ => hl, by simp⟩
  unfold attempt at h
  split at h
  · cases h
  · rename_i hs
    cases h
    obtain ⟨hf, -, herr⟩ := hsignal hs
    exact returns_of_error hf (herr _ rfl)
  · rename_i hs
    obtain ⟨hf, hl, -⟩ := hsignal hs
    split at h
    · cases h
    · rename_i hw
      cases h
      obtain ⟨hf', -, herr⟩ := hframe (hl rfl) hw
      exact returns_of_error (hf.trans hf') (herr _ rfl)
    · rename_i hw
      obtain ⟨hf', hl', -⟩ := hframe (hl rfl) hw
      exact (takeFrame_moves (hl' rfl) h).after (hf.trans hf')

theorem attempts_returns {timeout : Int} : ∀ {as : List Attempt} {w w' : World} {r : Ret}
    {f : Option Frame}, attempts timeout w as = some (w', r, f) → Returns w w' r
  | [], _, _, _, _, h => by cases h
  | a :: as, w, w', r, f, h => by
    unfold attempts at h
    split at h
    · cases h
    · rename_i hone
      cases h
      exact attempt_moves hone
    · rename_i hone
      exact (attempts_returns h).after (attempt_moves hone)

theorem acquireFrame_returns {timeout : Int} {env : List Attempt} {r : Ret} {f : Option Frame}
    (h : acquireFrame w timeout env = some (w', r, f)) : Returns w w' r := by
  unfold acquireFrame at h
  split at h
  · exact attempts_returns h
  · cases h; exact (quiet_diag _ _).follows

/-- A returned call, once its result is traced, is a sequence of moves. -/
theorem Returns.trace {r : Ret} (h : Returns w w' r) (frames : List Frame) :
    Follows w ({ w' with frames := frames }.trace (.ret r)) := by
  cases r with
  | ok =>
    obtain ⟨hf, hflags⟩ := h
    refine ReflTransGen.tail hf ?_
    rw [World.view, hflags]
    show Move _ (w'.flags, _)
    rw [hflags]
    exact .ok
  | reconfigured =>
    obtain ⟨w₁, hf, hflags₁, hlog, hflags⟩ := h
    refine ReflTransGen.tail hf ?_
    rw [World.view, hflags₁]
    show Move _ (w'.flags, .ret .reconfigured :: w'.log)
    rw [hflags, hlog]
    exact .reconfigured
  | _ => exact ReflTransGen.tail h (.quiet rfl)

theorem follows_releaseFrame (w : World) (f : Frame) (answer : Option Errno) :
    Follows w (releaseFrame w f answer) := by
  unfold releaseFrame
  refine Follows.quiet (Quiet.follows ?_) (quiet_qbuf _ _ _)
  split
  · dsimp only
    split
    · split
      · exact (quiet_trace w rfl).trans (quiet_trace _ rfl)
      · exact quiet_trace w rfl
    · split
      · exact quiet_trace w rfl
      · exact Quiet.refl w
  · split
    · exact quiet_trace w rfl
    · exact Quiet.refl w

theorem follows_pollEvent (w : World) (timeout : Int) (env : PollEnv) :
    Follows w (pollEvent w timeout env).1 := by
  have hpoll : Quiet w (w.trace (.poll timeout)) := quiet_trace w rfl
  unfold pollEvent
  dsimp only
  split
  · exact hpoll.follows
  · exact hpoll.follows
  · split
    · exact hpoll.follows.trans (follows_loseSignal _)
    · split
      · split
        · rename_i hd
          have hsaw : Saw .pollEvent _ _ := dqevent_cases hd
          exact hpoll.follows.trans (follows_polled hsaw)
        · rename_i hne hd
          have hcases := dqevent_cases hd
          rw [if_neg hne] at hcases
          exact (hpoll.trans hcases).follows
      · exact hpoll.follows

end moves

/-! ### Starting and stopping -/

section lifecycle
variable {w w₁ w' : World}

/-- The same for calls that may start a context. -/
def FollowsAny (w w' : World) : Prop := ReflTransGen AnyMove w.view w'.view

theorem Follows.any (h : Follows w w') : FollowsAny w w' := anyMoves_of_moves h

theorem FollowsAny.trans (h₁ : FollowsAny w w₁) (h₂ : FollowsAny w₁ w') : FollowsAny w w' :=
  ReflTransGen.trans h₁ h₂

theorem FollowsAny.quiet (h₁ : FollowsAny w w₁) (h₂ : Quiet w₁ w') : FollowsAny w w' :=
  h₁.trans h₂.follows.any

theorem drainAll_moves : ∀ {steps : List DqStep} {w w' : World},
    drainAll .start w steps = some w' → FollowsAny w w'
  | [], _, _, h => by cases h
  | s :: steps, w, w', h => by
    unfold drainAll at h
    split at h
    · rename_i heq
      cases h
      have hq : Quiet w w' := dqevent_cases heq
      exact hq.follows.any
    · rename_i w₁ e heq
      refine FollowsAny.trans ?_ (drainAll_moves h)
      have hcases := dqevent_cases heq
      cases e with
      | other =>
        have hq : Quiet w w₁ := hcases
        exact hq.follows.any
      | sourceChange =>
        obtain ⟨w₂, hq, hf, hlog⟩ : Saw .start w w₁ := hcases
        refine ReflTransGen.tail hq.follows.any ?_
        rw [World.view, World.view, hf, hlog, hq.1]
        exact .drained

theorem startVulkan_moves (w : World) (env : StartEnv) : FollowsAny w (startVulkan w env).1 := by
  have hstarted : FollowsAny w
      ((w.setCtx { w.ctx with streaming := true, signalLost := false }).trace .started) :=
    ReflTransGen.single .started
  unfold startVulkan
  dsimp only
  split
  · split
    · exact hstarted.quiet (quiet_setCtx _ rfl rfl)
    · exact hstarted.quiet (quiet_diag _ _)
  · exact hstarted

theorem start_moves {n : Nat} {env : StartEnv} {r : Ret} (h : start w n env = some (w', r)) :
    FollowsAny w w' := by
  unfold start at h
  split at h
  · cases h; exact (Follows.refl w).any
  · dsimp only at h
    split at h
    · cases h; exact (quiet_diag _ _).follows.any
    · have hfmt : Quiet w (readFmt w env.gfmt) := by
        cases env.gfmt with
        | none => exact Quiet.refl w
        | some f => exact quiet_setCtx _ rfl rfl
      split at h
      · cases h
      · rename_i hdrain
        have hdrained := hfmt.follows.any.trans (drainAll_moves hdrain)
        split at h
        · rename_i hreq
          cases h
          exact (hdrained.quiet (quiet_reqbufs hreq)).quiet (quiet_diag _ _)
        · rename_i hreq
          have hgrant := hdrained.quiet (quiet_reqbufs hreq)
          split at h
          · rename_i hq
            cases h
            exact ((hgrant.quiet (quiet_setCtx _ (by rfl) (by rfl))).quiet
              (quiet_qbufAll hq)).quiet (quiet_diag _ _)
          · rename_i w₂ hq
            have hqueued := (hgrant.quiet (quiet_setCtx _ (by rfl) (by rfl))).quiet
              (quiet_qbufAll hq)
            split at h
            · cases h; exact hqueued.quiet (quiet_diag _ _)
            · rw [Option.some_inj] at h
              have hvk := startVulkan_moves (w₂.trace .streamon) env
              rw [h] at hvk
              exact (hqueued.quiet (quiet_trace _ rfl)).trans hvk

theorem stop_moves (w : World) (env : FreeEnv) : FollowsAny w (stop w env) := by
  unfold stop
  split
  · exact ((quiet_freeBuffers w env).trans (quiet_setCtx _ rfl rfl)).follows.any
  · exact (Follows.refl w).any

/-! ### Runs -/

/-- The calls a started context takes between start and stop. -/
def Call.inSession : Call → Prop
  | .start .. | .stop .. => False
  | _ => True

theorem step_follows {c : Call} (hc : c.inSession) (h : step w c = some w') : Follows w w' := by
  cases c with
  | start n env => cases hc
  | stop env => cases hc
  | acquire timeout env =>
    obtain ⟨⟨w₁, r, f⟩, hacq, rfl⟩ := Option.map_eq_some_iff.mp h
    exact (acquireFrame_returns hacq).trace _
  | release k answer =>
    obtain ⟨f, -, rfl⟩ := Option.map_eq_some_iff.mp h
    have hq : Quiet w { w with frames := w.frames.eraseIdx k } := Quiet.of_log rfl rfl
    exact hq.follows.trans (follows_releaseFrame _ f answer)
  | pollEvent timeout env => cases h; exact follows_pollEvent w timeout env
  | emit e => cases h; exact (Quiet.of_log rfl rfl).follows

theorem step_follows_any {c : Call} (h : step w c = some w') : FollowsAny w w' := by
  cases c with
  | start n env =>
    obtain ⟨⟨w₁, r⟩, hstart, rfl⟩ := Option.map_eq_some_iff.mp h
    exact start_moves hstart
  | stop env => cases h; exact stop_moves w env
  | acquire timeout env => exact (step_follows (c := .acquire timeout env) trivial h).any
  | release k answer => exact (step_follows (c := .release k answer) trivial h).any
  | pollEvent timeout env => exact (step_follows (c := .pollEvent timeout env) trivial h).any
  | emit e => exact (step_follows (c := .emit e) trivial h).any

theorem run_follows {w₀ : World} {calls : List Call} (hc : ∀ c ∈ calls, c.inSession)
    (h : run step w₀ calls = some w) : Follows w₀ w :=
  run_invariant (P := fun w => Follows w₀ w) (fun _ _ _ hw hc hs => hw.trans (step_follows hc hs)) h
    (along_of_forall hc) (Follows.refl w₀)

theorem run_lawful {cfg : Config} {fmt : Option Fmt} {events : List Event} {calls : List Call}
    (h : run step (openWorld cfg fmt events) calls = some w) : Lawful w.view := by
  have hopen : Lawful (openWorld cfg fmt events).view := by
    refine ⟨fun l₁ l₂ heq => ?_, fun _ l₁ l₂ heq => ?_⟩
    · simp [World.view, openWorld] at heq
    · simp [World.view, openWorld] at heq
  have hstep : ∀ w c w', Lawful w.view → step w c = some w' → Lawful w'.view :=
    fun _ _ _ hw hs => lawful_anyMoves (step_follows_any hs) hw
  exact run_preserves hstep h hopen

/-! ### What a start leaves -/

/-- A start that succeeds queues every token granted and clears the loss, but not the notice. -/
structure Begins (w w₀ : World) (env : StartEnv) : Prop where
  lost : w₀.ctx.signalLost = false
  pending : w₀.ctx.reconfigPending = w.ctx.reconfigPending
  queued : ∃ n, env.reqbufs = .granted n ∧ w₀.dev.queued = List.range n

theorem qbufAll_queued {answer : Nat → Option Errno} {l : List Nat}
    (h : qbufAll answer w l = (w', none)) : w'.dev.queued = w.dev.queued ++ l := by
  induction l generalizing w with
  | nil =>
    cases h
    rw [List.append_nil]
  | cons i l ih =>
    unfold qbufAll qbuf at h
    split at h
    · next v heq =>
      have hone : v.dev.queued = w.dev.queued ++ [i] := by
        split at heq
        · split at heq
          · cases heq
            rfl
          · cases heq
        · cases heq
      rw [ih h, hone, List.append_assoc]
      rfl
    · cases h

theorem startVulkan_begins (w : World) (env : StartEnv) :
    (startVulkan w env).1.flags = ⟨false, w.ctx.reconfigPending⟩ ∧
      (startVulkan w env).1.dev = w.dev := by
  unfold startVulkan
  dsimp only
  split
  · split
    · exact ⟨rfl, rfl⟩
    · exact ⟨rfl, rfl⟩
  · exact ⟨rfl, rfl⟩

theorem start_begins {n : Nat} {env : StartEnv} {r : Ret} (hidle : w.ctx.streaming = false)
    (h : start w n env = some (w', r)) (hstarted : w'.ctx.streaming = true) : Begins w w' env := by
  have hidle' : ∀ {v : World}, v.ctx.streaming = w.ctx.streaming → v.ctx.streaming ≠ true := by
    intro v hv
    rw [hv, hidle]
    simp
  unfold start at h
  rw [if_neg (by simp [hidle])] at h
  dsimp only at h
  split at h
  · cases h
    exact absurd hstarted (hidle' rfl)
  · have hfmt : (readFmt w env.gfmt).ctx.streaming = w.ctx.streaming ∧
        (readFmt w env.gfmt).ctx.reconfigPending = w.ctx.reconfigPending := by
      cases env.gfmt with
      | none => exact ⟨rfl, rfl⟩
      | some f => exact ⟨rfl, rfl⟩
    split at h
    · cases h
    · next v hdrain =>
      have hv : v.ctx = (readFmt w env.gfmt).ctx := drainAll_ctx hdrain
      rw [← hv] at hfmt
      cases hreq : env.reqbufs with
      | failed e freed =>
        cases freed <;> simp only [hreq, reqbufs, Option.some_inj, Prod.mk.injEq] at h <;>
          exact absurd hstarted (hidle' (h.1 ▸ hfmt.1))
      | granted k =>
        simp only [hreq, reqbufs] at h
        split at h
        · next v' i e hq =>
          cases h
          exact absurd hstarted (hidle' ((congrArg Ctx.streaming (qbufAll_ctx hq)).trans hfmt.1))
        · next v' hq =>
          split at h
          · cases h
            exact absurd hstarted (hidle' ((congrArg Ctx.streaming (qbufAll_ctx hq)).trans hfmt.1))
          · obtain ⟨hflags, hdev⟩ := startVulkan_begins (v'.trace .streamon) env
            rw [Option.some_inj] at h
            rw [h] at hflags hdev
            have hpending : v'.ctx.reconfigPending = w.ctx.reconfigPending :=
              (congrArg Ctx.reconfigPending (qbufAll_ctx hq)).trans hfmt.2
            refine ⟨congrArg Flags.lost hflags, (congrArg Flags.pending hflags).trans hpending, k,
              hreq, ?_⟩
            have hqueued := qbufAll_queued hq
            rw [hdev]
            exact hqueued

/-! ### A notice left over from an earlier start -/

/-- Taking token `i`, with everything that a conversion asks for granted. -/
def takeConverted (i : Nat) : Attempt := { takeToken i with render := some ⟨11, 12, 0⟩ }

/-- The frame of a successful conversion takes the notice with it. -/
theorem convert_pending {a : Attempt} {out : RenderOut} (f : Frame)
    (hpending : w.ctx.reconfigPending = true) (hrender : a.render = some out)
    (hcalloc : a.calloc = true) :
    ∃ w₁ g, Quiet w w₁ ∧ convert w a f =
      (w₁.setCtx { w₁.ctx with reconfigPending := false }, .done .reconfigured (some g)) := by
  have hfinish : ∀ {v : World} (g : Frame), v.ctx.reconfigPending = true → finish v g =
      (v.setCtx { v.ctx with reconfigPending := false }, .done .reconfigured (some g)) := by
    intro v g hv
    rw [finish, if_pos hv]
  rw [convert]
  split
  · split
    · exact ⟨w, f, Quiet.refl w, hfinish f hpending⟩
    · simp only [hrender]
      exact ⟨_, _, quiet_trace w rfl, hfinish _ hpending⟩
  · exact ⟨w, f, Quiet.refl w, hfinish f hpending⟩

/-- With a notice pending and a buffer queued, a call that does not wait returns the notice, and
    nothing else that the protocol is about happens in it. -/
theorem acquire_pending (hstreaming : w.ctx.streaming = true) (hlost : w.ctx.signalLost = false)
    (hpending : w.ctx.reconfigPending = true) {i : Nat} (hqueued : i ∈ w.dev.queued) :
    ∃ w₁ w' f, Quiet w w₁ ∧ w'.log = w₁.log ∧
      acquireFrame w 0 [takeConverted i] = some (w', .reconfigured, f) := by
  obtain ⟨v, hdq⟩ : ∃ v, dqbuf w i = some v := ⟨_, if_pos hqueued⟩
  have hquiet := (quiet_dqbuf hdq).trans (quiet_trace v (e := .getDmabuf 10) rfl)
  have hp : (v.trace (.getDmabuf 10)).ctx.reconfigPending = true :=
    (congrArg Flags.pending hquiet.1).trans hpending
  have hdec : decimate (v.trace (.getDmabuf 10)).ctx 0 = ((v.trace (.getDmabuf 10)).ctx, false) := by
    rw [decimate]
    cases (v.trace (.getDmabuf 10)).ctx.config.frameInterval with
    | none => rfl
    | some interval => exact if_pos hp
  obtain ⟨w₁, g, hconv, heq⟩ := convert_pending (a := takeConverted i) (rawFrame v ⟨i, 0, 0⟩ 10 100)
    hp rfl rfl
  refine ⟨w₁, w₁.setCtx { w₁.ctx with reconfigPending := false }, some g, hquiet.trans hconv, rfl, ?_⟩
  have htake : takeFrame w (takeConverted i) =
      some (w₁.setCtx { w₁.ctx with reconfigPending := false }, .done .reconfigured (some g)) := by
    simp only [takeFrame, takeConverted, takeToken, hdq, hdec, Bool.false_eq_true, if_false]
    exact congrArg some heq
  rw [acquireFrame, if_pos hstreaming, attempts, attempt, waitSignal,
    if_neg (Bool.eq_false_iff.mp hlost)]
  simp only [waitFrame, ne_eq, not_true_eq_false, if_false, htake]

/-- What the calls between two worlds announce: no frame is handed out as `VFMCAP_OK` behind a source
    change before one has been handed out as `VFMCAP_RECONFIGURED` (`seg` is what the calls traced,
    newest first), and there are no more of these than source changes dequeued. -/
def Announced (w w' : World) : Prop :=
  ∃ seg, w'.log = seg ++ w.log ∧
    (∀ l₁ l₂ l₃ by_ b, seg = l₁ ++ .ret .ok :: (l₂ ++ .dqevent .sourceChange by_ b :: l₃) →
      Sys.ret .reconfigured ∈ l₂) ∧
    seg.count (.ret .reconfigured) ≤ seg.countP Sys.isSourceChange

theorem announced_of_moves (hpending : w.ctx.reconfigPending = false) (h : Follows w w') :
    Announced w w' := by
  obtain ⟨seg, hlog, hann⟩ := announces_moves h
  refine ⟨seg, hlog, fun l₁ l₂ l₃ by_ b heq => ?_, ?_⟩
  · by_contra hno
    exact hann.ok l₁ _ heq ⟨l₂, l₃, by_, b, rfl, hno⟩
  · rw [Follows, World.view, World.view, hlog] at h
    exact count_moves hpending h

/-- One more announcement than source changes. -/
theorem not_announced {w₁ : World} (hquiet : Quiet w w₁) (h : w'.log = .ret .reconfigured :: w₁.log) :
    ¬ Announced w w' := by
  rintro ⟨seg, hlog, -, hcount⟩
  obtain ⟨-, quietSeg, hquietLog, hnone⟩ := hquiet
  have hseg : seg = .ret .reconfigured :: quietSeg := by
    rw [h, hquietLog, ← List.cons_append] at hlog
    exact (List.append_cancel_right hlog).symm
  have hzero : quietSeg.countP Sys.isSourceChange = 0 := by
    rw [List.countP_eq_zero]
    intro e he hsc
    have := hnone e he
    rw [Sys.isSignal_of_isSourceChange hsc] at this
    cases this
  rw [hseg, List.count_cons_self, List.countP_cons, hzero] at hcount
  simp [Sys.isSourceChange] at hcount

/-- Every run between a start and the next start or stop announces what it should, if no notice was
    pending when the context was started. `vfmcap_start` leaves such a notice as it is: with a buffer
    granted there is then a run that announces a change nobody has seen. -/
theorem source_change_announced (w w₀ : World) (n : Nat) (env : StartEnv) (r : Ret)
    (hidle : w.ctx.streaming = false) (hstart : start w n env = some (w₀, r))
    (hstarted : w₀.ctx.streaming = true) :
    (w.ctx.reconfigPending = false → ∀ post w', (∀ c ∈ post, c.inSession) →
      run step w₀ post = some w' → Announced w₀ w') ∧
    (w.ctx.reconfigPending = true → env.reqbufs ≠ .granted 0 → ∃ post w',
      (∀ c ∈ post, c.inSession) ∧ run step w₀ post = some w' ∧ ¬ Announced w₀ w') := by
  obtain ⟨hlost, hpending, k, hgranted, hqueued⟩ := start_begins hidle hstart hstarted
  constructor
  · intro hclear post w' hsession hpost
    exact announced_of_moves (hpending.trans hclear) (run_follows hsession hpost)
  · intro hset hbuffers
    have hzero : 0 ∈ w₀.dev.queued := by
      rw [hqueued, List.mem_range, Nat.pos_iff_ne_zero]
      rintro rfl
      exact hbuffers hgranted
    obtain ⟨w₁, w', f, hquiet, hlog, hacquire⟩ :=
      acquire_pending hstarted hlost (hpending.trans hset) hzero
    have hlast : ({ w' with frames := w'.frames ++ f.toList }.trace (.ret .reconfigured)).log =
        .ret .reconfigured :: w₁.log := by
      rw [World.trace, hlog]
    refine ⟨[.acquire 0 [takeConverted 0]], _, ?_, ?_, not_announced hquiet hlast⟩
    · intro c hc
      rw [List.mem_singleton.mp hc]
      exact trivial
    · rw [run_cons]
      exact ⟨_, by rw [step, hacquire]; rfl, rfl⟩

/-- A source change dequeued by `vfmcap_acquire_frame` while the signal is lost is acted upon by
    that very call: the next thing traced is `vfmcap_do_reconfig`, entered with the loss flag
    cleared. If the signal is lost now, the loss began after every such source change. -/
theorem restoration_acted_upon (cfg : Config) (fmt : Option Fmt) (events : List Event)
    (calls : List Call) (w : World)
    (hrun : run step (openWorld cfg fmt events) calls = some w) :
    (∀ l₁ l₂, w.log = l₁ ++ restoration :: l₂ → ∃ l, l₁ = l ++ [.doReconfig false]) ∧
    (w.ctx.signalLost = true → ∀ l₁ l₂, w.log = l₁ ++ restoration :: l₂ →
      Sys.signalLost ∈ l₁) :=
  have hlaw := run_lawful hrun
  ⟨hlaw.reconfigures, hlaw.lostAnew⟩

end lifecycle

/-! ### Three runs -/

/-- A source change reported by `vfmcap_poll_event`, a second one that brings the signal back. -/
def announcedRun : List Call :=
  [.pollEvent 0 seeSourceChange, .acquire 0 [recoverAndTake 0], .acquire 0 [takeToken 1]]

theorem source_change_announced_run :
    ∃ w₀ w', run step (openWorld rawConfig none []) [.start 4 plainStart] = some w₀ ∧
      run step w₀ announcedRun = some w' ∧ Announced w₀ w' ∧
      w'.log.count (.ret .reconfigured) = 1 ∧ w'.log.count (.ret .ok) = 1 := by
  refine ⟨_, _, rfl, rfl, ?_, by decide, by decide⟩
  refine (source_change_announced (openWorld rawConfig none []) _ 4 plainStart _ rfl rfl rfl).1 rfl
    announcedRun _ (fun c hc => ?_) rfl
  simp only [announcedRun, List.mem_cons, List.not_mem_nil, or_false] at hc
  rcases hc with rfl | rfl | rfl <;> trivial

/-- `vfmcap_poll_event` sees a source change, the context is stopped and started again, and the first
    frame is handed out with a notice although nothing has been dequeued since the start. -/
theorem left_over_notice :
    ∃ w w₀ w', run step (openWorld rawConfig none [])
        [.start 4 plainStart, .pollEvent 0 seeSourceChange, .stop plainFree] = some w ∧
      run step w [.start 4 plainStart] = some w₀ ∧ run step w₀ [.acquire 0 [takeToken 0]] = some w' ∧
      w₀.ctx.streaming = true ∧ ¬ Announced w₀ w' := by
  refine ⟨_, _, _, rfl, rfl, rfl, rfl, ?_⟩
  rintro ⟨seg, hlog, -, hcount⟩
  have hseg := (@List.append_cancel_right _ [_, _, _] _ seg hlog).symm
  rw [hseg] at hcount
  exact absurd hcount (by decide)

/-- The second source change acted upon, then the signal lost again. -/
def lostAgainRun : List Call :=
  [.start 4 plainStart, .pollEvent 0 seeSourceChange, .acquire 0 [recoverAndTake 0],
    .pollEvent 0 seeSourceChange]

theorem restoration_acted_upon_run :
    ∃ w, run step (openWorld rawConfig none []) lostAgainRun = some w ∧
      restoration ∈ w.log ∧ w.ctx.signalLost = true ∧
      ∀ l₁ l₂, w.log = l₁ ++ restoration :: l₂ → Sys.signalLost ∈ l₁ := by
  refine ⟨_, rfl, by decide, rfl, ?_⟩
  exact (restoration_acted_upon rawConfig none [] lostAgainRun _ rfl).2 rfl

/-- `vfmcap_poll_event` takes the restoring source change off the queue and only raises flags: the
    signal stays lost, the queue is empty, and nothing was reconfigured. -/
theorem restoration_swallowed :
    ∃ w l₁ l₂, run step (openWorld rawConfig none [])
        [.start 4 plainStart, .pollEvent 0 seeSourceChange, .pollEvent 0 seeSourceChange]
          = some w ∧
      w.ctx.signalLost = true ∧ w.dev.events = [] ∧
      w.log = l₁ ++ .dqevent .sourceChange .pollEvent true :: l₂ ∧ Sys.signalLost ∉ l₁ ∧
      ∀ b, Sys.doReconfig b ∉ w.log :=
  ⟨_, [], _, rfl, rfl, rfl, rfl, by decide, by decide⟩

end Streambox.Vfmcap
