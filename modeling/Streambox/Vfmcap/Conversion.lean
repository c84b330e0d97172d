import Streambox.Vfmcap.Resources

/-! What a context that converts hands out.

    Whether a frame is converted is decided where it has been dequeued: the pipeline must be there,
    and one of the conversion branches must be meant for the bit depth in force and the output
    format. Where that is not so the buffer is handed out as it came from the device. There is no
    branch for NV21, and none for an 8-bit source with A2B10G10R10_AFBC; the pipeline is missing
    after a start that did not know the dimensions or could not build it, which the next start does
    not repair. -/

namespace Streambox.Vfmcap
open Streambox.Lib

/-! ### The frame that is asked for -/

/-- The pixel format of an output format that is converted to. -/
def OutputFmt.pixelformat : OutputFmt → Option Nat
  | .nv12 | .nv12Afbc => some pixNv12
  | .nv21 => some pixNv21
  | .p010 => some pixP010
  | .a2b10g10r10Afbc => some pixAb30
  | .raw | .vyuy10bit => none

/-- A converted frame of a context: `c` is the context when the call returns. -/
structure Converted (c : Ctx) (f : Frame) : Prop where
  priv : f.priv.isSome
  pixelformat : c.config.outputFormat.pixelformat = some f.pixelformat
  width : f.width = if c.config.targetWidth ≠ 0 then c.config.targetWidth else c.width
  height : f.height = if c.config.targetHeight ≠ 0 then c.config.targetHeight else c.height

/-- An acquire that succeeds returns a converted frame. -/
def Delivers (w : World) : Call → Prop
  | .acquire timeout env => ∀ w' r f, acquireFrame w timeout env = some (w', r, f) → Succeeds r →
      ∃ g, f = some g ∧ Converted w'.ctx g
  | _ => True

/-! ### When it is made -/

/-- The pass of the recovery loop that sees the source change, if the loop gets to one. -/
def restoredBy (timeout : Int) : World → List RecoverPass → Option RestoreEnv
  | _, [] => none
  | w, p :: rest =>
    let w := w.trace (.poll (if timeout > 0 then timeout else 1000))
    match p.poll with
    | .timeout => none
    | .error e => if e = EINTR then restoredBy timeout w rest else none
    | .ready ev =>
      if ev.pri then
        match drainToSourceChange .acquire w p.drain with
        | none => none
        | some (_, true) => some p.restore
        | some (w, false) => restoredBy timeout w rest
      else restoredBy timeout w rest

/-- The bit depth of the format in force when a frame is dequeued: the one in the context or, if the
    signal has to come back first, the one read then. -/
def bitdepthInForce (w : World) (timeout : Int) : List Attempt → Nat
  | [] => w.ctx.bitdepth
  | a :: _ =>
    if w.ctx.signalLost then
      match restoredBy timeout w a.recover with
      | some env => bitdepthAtReconfig (env.reconfig.gfmt.getD Fmt.zero).pixelformat
      | none => w.ctx.bitdepth
    else w.ctx.bitdepth

/-- An acquire that succeeds is made with the pipeline in place, and there is a branch for its
    formats. -/
def Ready (w : World) : Call → Prop
  | .acquire timeout env => (∃ w' r f, acquireFrame w timeout env = some (w', r, f) ∧ Succeeds r) →
      w.ctx.vk = true ∧ w.ctx.config.outputFormat ≠ .nv21 ∧
        (w.ctx.config.outputFormat = .a2b10g10r10Afbc → bitdepthInForce w timeout env = 10)
  | _ => True

/-- Where there is a branch. -/
theorem renderPath_isSome_iff {bitdepth : Nat} {fmt : OutputFmt}
    (hb : bitdepth = 8 ∨ bitdepth = 10) (hfmt : fmt ≠ .raw ∧ fmt ≠ .vyuy10bit) :
    (renderPath bitdepth (toVkFmt fmt)).isSome ↔
      fmt ≠ .nv21 ∧ (fmt = .a2b10g10r10Afbc → bitdepth = 10) := by
  rcases hb with rfl | rfl <;> cases fmt <;> simp_all [renderPath, toVkFmt]

theorem needsVulkan_iff {cfg : Config} : needsVulkan cfg = true ↔
    cfg.outputFormat ≠ .raw ∧ cfg.outputFormat ≠ .vyuy10bit := by
  unfold needsVulkan
  cases cfg.outputFormat <;> simp

/-- A branch makes the pixel format that is asked for. -/
theorem renderPath_pixelformat {bitdepth : Nat} {fmt : OutputFmt} {p : RenderPath}
    (hfmt : fmt ≠ .raw ∧ fmt ≠ .vyuy10bit) (h : renderPath bitdepth (toVkFmt fmt) = some p) :
    fmt.pixelformat = some (p.pixelformat (toVkFmt fmt)) := by
  unfold renderPath at h
  split_ifs at h <;> cases h <;> cases fmt <;>
    simp_all [toVkFmt, RenderPath.pixelformat, OutputFmt.pixelformat]

/-! ### What a call does to the formats -/

/-- The part of the context that decides. -/
structure Core where
  config : Config
  vk : Bool
  width : Nat
  height : Nat
  bitdepth : Nat

def Ctx.core (c : Ctx) : Core := ⟨c.config, c.vk, c.width, c.height, c.bitdepth⟩

/-- A format is taken over. -/
def Core.setFmt (c : Core) (f : Fmt) (bitdepth : Nat) : Core :=
  { c with width := f.width, height := f.height, bitdepth }

/-- The format a reconfiguration takes over. -/
def Core.reconfigured (c : Core) (env : ReconfigEnv) : Core :=
  c.setFmt (env.gfmt.getD Fmt.zero) (bitdepthAtReconfig (env.gfmt.getD Fmt.zero).pixelformat)

section core
variable {w w' : World}

theorem doReconfig_core (w : World) (env : ReconfigEnv) :
    (doReconfig w env).1.ctx.core = w.ctx.core.reconfigured env ∧
      (doReconfig w env).1.ctx.signalLost = w.ctx.signalLost := by
  have hfree := freeBuffers_ctx (w.trace (.doReconfig w.ctx.signalLost)) env.free
  unfold doReconfig
  generalize freeBuffers (w.trace (.doReconfig w.ctx.signalLost)) env.free = v at hfree ⊢
  dsimp only
  split
  · next hreq =>
    have hctx := reqbufs_ctx hreq
    simp only [World.diag, World.setCtx, Ctx.core, hctx, hfree]
    exact ⟨rfl, rfl⟩
  · next hreq =>
    have hctx := reqbufs_ctx hreq
    split
    · next hq =>
      have hctx' := qbufAll_ctx hq
      simp only [World.diag, World.setCtx, Ctx.core, hctx', hctx, hfree]
      exact ⟨rfl, rfl⟩
    · next hq =>
      have hctx' := qbufAll_ctx hq
      split
      · simp only [World.diag, World.setCtx, Ctx.core, hctx', hctx, hfree]
        exact ⟨rfl, rfl⟩
      · split
        · simp only [World.trace, World.setCtx, Ctx.core, hctx', hctx, hfree]
          exact ⟨rfl, rfl⟩
        · simp only [World.trace, World.setCtx, Ctx.core, hctx', hctx, hfree]
          exact ⟨rfl, rfl⟩

theorem restoreSignal_core (w : World) (env : RestoreEnv) :
    (restoreSignal w env).ctx.core = w.ctx.core.reconfigured env.reconfig ∧
      (restoreSignal w env).ctx.signalLost = false := by
  unfold restoreSignal
  dsimp only
  split
  · next f _ =>
    obtain ⟨hcore, hlost⟩ := doReconfig_core ((w.setCtx { w.ctx with
      signalLost := false, prevWidth := w.ctx.width, prevHeight := w.ctx.height }).setCtx
        (Ctx.setFmt _ f (bitdepthAtReconfig f.pixelformat))) env.reconfig
    exact ⟨hcore, hlost⟩
  · obtain ⟨hcore, hlost⟩ := doReconfig_core (w.setCtx { w.ctx with
      signalLost := false, prevWidth := w.ctx.width, prevHeight := w.ctx.height }) env.reconfig
    exact ⟨hcore, hlost⟩

/-- The recovery loop ends the call with the formats as they were, or it has taken over the format
    of the pass that saw the source change. -/
theorem recoverSignal_core {timeout : Int} : ∀ {passes : List RecoverPass} {w w' : World}
    {r : Option Ret}, recoverSignal timeout w passes = some (w', r) →
      (r.isSome ∧ w'.ctx.core = w.ctx.core) ∨
      (r = none ∧ w'.ctx.signalLost = false ∧ ∃ env, restoredBy timeout w passes = some env ∧
        w'.ctx.core = w.ctx.core.reconfigured env.reconfig)
  | [], _, _, _, h => by cases h
  | p :: passes, w, w', r, h => by
    unfold recoverSignal at h
    dsimp only at h
    split at h
    · cases h
      exact .inl ⟨rfl, rfl⟩
    · next e hpoll =>
      simp only [restoredBy, hpoll]
      split at h
      · next he =>
        rw [if_pos he]
        exact recoverSignal_core h
      · cases h
        exact .inl ⟨rfl, rfl⟩
    · next ev hpoll =>
      split at h
      · next hpri =>
        split at h
        · cases h
        · next v hdrain =>
          cases h
          obtain ⟨hcore, hlost⟩ := restoreSignal_core v p.restore
          rw [drainToSourceChange_ctx hdrain] at hcore
          have hby : restoredBy timeout w (p :: passes) = some p.restore := by
            simp only [restoredBy, hpoll, if_pos hpri, hdrain]
          exact .inr ⟨rfl, hlost, p.restore, hby, hcore⟩
        · next v hdrain =>
          have hctx : v.ctx = w.ctx := (drainToSourceChange_ctx hdrain).trans rfl
          have hrest := recoverSignal_core h
          rw [hctx] at hrest
          simp only [restoredBy, hpoll, if_pos hpri, hdrain]
          exact hrest
      · next hpri =>
        simp only [restoredBy, hpoll, if_neg hpri]
        exact recoverSignal_core h

theorem handleEvents_ctx {ev : Revents} {drain : List DqStep} {found : Bool}
    (h : handleEvents w ev drain = some (w', found)) : w'.ctx = w.ctx := by
  unfold handleEvents at h
  split at h
  · exact drainToSourceChange_ctx h
  · cases h
    rfl

theorem loseSignal_core (w : World) : w.loseSignal.ctx.core = w.ctx.core := rfl

/-- Waiting for a buffer leaves the context as it is, apart from errors. -/
theorem waitBuffer_core {deadline : Int} : ∀ {passes : List WaitPass} {w w' : World}
    {r : Option Ret}, waitBuffer deadline w passes = some (w', r) →
      w'.ctx.core = w.ctx.core ∧ (r = none → w'.ctx = w.ctx)
  | [], _, _, _, h => by cases h
  | p :: passes, w, w', r, h => by
    unfold waitBuffer at h
    dsimp only at h
    split at h
    · cases h
      exact ⟨rfl, fun hr => absurd hr (Option.some_ne_none _)⟩
    split at h
    · cases h
      exact ⟨rfl, fun hr => absurd hr (Option.some_ne_none _)⟩
    · split at h
      · exact waitBuffer_core (w := w.trace _) h
      split at h
      · cases h
        exact ⟨rfl, fun hr => absurd hr (Option.some_ne_none _)⟩
      · cases h
        exact ⟨rfl, fun hr => absurd hr (Option.some_ne_none _)⟩
    · split at h
      · cases h
        exact ⟨rfl, fun hr => absurd hr (Option.some_ne_none _)⟩
      split at h
      · cases h
      · next v hev =>
        cases h
        rw [loseSignal_core, handleEvents_ctx hev]
        exact ⟨rfl, fun hr => absurd hr (Option.some_ne_none _)⟩
      · next v hev =>
        have hctx : v.ctx = w.ctx := (handleEvents_ctx hev).trans rfl
        split at h
        · cases h
          exact ⟨congrArg Ctx.core hctx, fun _ => hctx⟩
        · have hrest := waitBuffer_core h
          rw [hctx] at hrest
          exact hrest

/-! ### What a pass returns -/

/-- The pipeline is there, and a branch for the formats. -/
def Core.Converts (c : Core) : Prop :=
  c.vk = true ∧ (renderPath c.bitdepth (toVkFmt c.config.outputFormat)).isSome

theorem done_none_ne {r r' : Ret} {g : Frame} : Outcome.done r none ≠ .done r' (some g) := by
  intro h
  cases h

theorem finish_ctx {f : Frame} {out : Outcome} (h : finish w f = (w', out)) :
    w'.ctx.core = w.ctx.core ∧ ∃ r, out = .done r (some f) := by
  unfold finish at h
  split at h
  · cases h
    exact ⟨rfl, .reconfigured, rfl⟩
  · cases h
    exact ⟨rfl, .ok, rfl⟩

theorem converted_congr {c c' : Ctx} {f : Frame} (h : c'.core = c.core) :
    Converted c' f ↔ Converted c f := by
  obtain ⟨hcfg, -, hw, hh, -⟩ := Core.mk.inj h
  have hiff : ∀ {a b : Ctx}, a.config = b.config → a.width = b.width → a.height = b.height →
      Converted a f → Converted b f := by
    intro a b hcfg hw hh hconv
    exact ⟨hconv.priv, hcfg ▸ hconv.pixelformat, by rw [← hcfg, ← hw]; exact hconv.width,
      by rw [← hcfg, ← hh]; exact hconv.height⟩
  exact ⟨hiff hcfg hw hh, hiff hcfg.symm hw.symm hh.symm⟩

/-- A frame comes out of the conversion converted exactly if there is a branch for it. -/
theorem convert_frame {a : Attempt} {f g : Frame} {r : Ret} (hneeds : needsVulkan w.ctx.config = true)
    (hpriv : f.priv = none) (h : convert w a f = (w', .done r (some g))) :
    Converted w'.ctx g ↔ w.ctx.core.Converts := by
  have hraw : finish w f = (w', .done r (some g)) → ¬ Converted w'.ctx g := by
    intro hfin hconv
    obtain ⟨-, r', hout⟩ := finish_ctx hfin
    cases hout
    have hsome := hconv.priv
    rw [hpriv] at hsome
    cases hsome
  unfold convert at h
  split at h
  · next hvk =>
    have hvk : w.ctx.vk = true := (Bool.and_eq_true_iff.mp hvk).2
    split at h
    · next hnone =>
      refine iff_of_false (hraw h) fun hc => ?_
      have hsome := hc.2
      rw [Ctx.core, hnone] at hsome
      cases hsome
    · next p hpath =>
      have hbranch : w.ctx.core.Converts := ⟨hvk, by rw [Ctx.core, hpath]; rfl⟩
      split at h
      · cases (Prod.mk.inj h).2
      · dsimp only at h
        split at h
        · obtain ⟨hcore, r', hout⟩ := finish_ctx h
          cases hout
          refine iff_of_true ((converted_congr hcore).mpr ⟨rfl, ?_, rfl, rfl⟩) hbranch
          exact renderPath_pixelformat (needsVulkan_iff.mp hneeds) hpath
        · cases (Prod.mk.inj h).2
  · next hvk =>
    refine iff_of_false (hraw h) fun hc => hvk ?_
    rw [hneeds]
    exact hc.1

theorem giveBack_ctx (w : World) (fd : Int) (i : Nat) (answer : Option Errno) :
    (giveBack w fd i answer).ctx = w.ctx := (qbuf_ctx _ i answer).1

theorem convert_core {a : Attempt} {f : Frame} {out : Outcome} (h : convert w a f = (w', out)) :
    w'.ctx.core = w.ctx.core ∧ out ≠ .again := by
  have hfin : ∀ {v : World} {g : Frame}, v.ctx.core = w.ctx.core → finish v g = (w', out) →
      w'.ctx.core = w.ctx.core ∧ out ≠ .again := by
    intro v g hv hfin
    obtain ⟨hcore, r, rfl⟩ := finish_ctx hfin
    exact ⟨hcore.trans hv, nofun⟩
  unfold convert at h
  split at h
  · split at h
    · exact hfin rfl h
    split at h
    · cases h
      rw [giveBack_ctx]
      exact ⟨rfl, nofun⟩
    · dsimp only at h
      split at h
      · exact hfin (by rfl) h
      · cases h
        rw [giveBack_ctx]
        exact ⟨rfl, nofun⟩
  · exact hfin rfl h

/-- From `VIDIOC_DQBUF` on the formats stay; a frame is converted exactly if there is a branch for
    them. -/
theorem takeFrame_core {a : Attempt} {out : Outcome} (h : takeFrame w a = some (w', out)) :
    w'.ctx.core = w.ctx.core ∧ (out = .again → w'.ctx.signalLost = w.ctx.signalLost) ∧
      ∀ r g, out = .done r (some g) → needsVulkan w.ctx.config = true →
        (Converted w'.ctx g ↔ w.ctx.core.Converts) := by
  unfold takeFrame at h
  split at h
  · split at h
    · cases h
      exact ⟨rfl, nofun, fun _ _ hout => absurd hout done_none_ne⟩
    split at h
    · cases h
      exact ⟨rfl, nofun, fun _ _ hout => absurd hout done_none_ne⟩
    · cases h
      exact ⟨rfl, nofun, fun _ _ hout => absurd hout done_none_ne⟩
  · next b _ =>
    split at h
    · cases h
    next v hdq =>
    have hv := dqbuf_ctx hdq
    split at h
    · dsimp only at h
      split at h
      · cases h
        rw [loseSignal_core, (qbuf_ctx _ _ _).1, ← hv]
        exact ⟨rfl, nofun, fun _ _ hout => absurd hout done_none_ne⟩
      · cases h
        rw [(qbuf_ctx _ _ _).1, ← hv]
        exact ⟨rfl, nofun, fun _ _ hout => absurd hout done_none_ne⟩
    · next fd size _ =>
      obtain ⟨t, hdec⟩ := decimate_ctx (v.trace (.getDmabuf fd)).ctx b.timestampUs
      dsimp only at h
      split at h
      · cases h
        rw [giveBack_ctx, World.setCtx, hdec, ← hv]
        exact ⟨rfl, fun _ => rfl, fun _ _ hout => nomatch hout⟩
      · rw [Option.some_inj, hdec] at h
        generalize hu : World.setCtx _ _ = u at h
        have hcore : u.ctx.core = w.ctx.core := by
          rw [← hu, ← hv]
          rfl
        obtain ⟨hconv, hne⟩ := convert_core h
        refine ⟨hconv.trans hcore, fun heq => absurd heq hne, ?_⟩
        rintro r g rfl hneeds
        have hcfg : u.ctx.config = w.ctx.config := congrArg Core.config hcore
        rw [← hcore]
        exact convert_frame (f := rawFrame v b fd size) (hcfg ▸ hneeds) rfl h

/-- The formats in force when a frame is dequeued. -/
def coreInForce (w : World) (timeout : Int) (a : Attempt) : Core :=
  if w.ctx.signalLost then
    match restoredBy timeout w a.recover with
    | some env => w.ctx.core.reconfigured env.reconfig
    | none => w.ctx.core
  else w.ctx.core

theorem coreInForce_bitdepth (w : World) (timeout : Int) (a : Attempt) (as : List Attempt) :
    (coreInForce w timeout a).bitdepth = bitdepthInForce w timeout (a :: as) := by
  simp only [coreInForce, bitdepthInForce]
  split
  · cases restoredBy timeout w a.recover <;> rfl
  · rfl

theorem coreInForce_rest (w : World) (timeout : Int) (a : Attempt) :
    (coreInForce w timeout a).config = w.ctx.config ∧ (coreInForce w timeout a).vk = w.ctx.vk := by
  unfold coreInForce
  split
  · cases restoredBy timeout w a.recover <;> exact ⟨rfl, rfl⟩
  · exact ⟨rfl, rfl⟩

theorem waitSignal_core {timeout : Int} {a : Attempt} {r : Option Ret}
    (h : waitSignal w timeout a = some (w', r)) :
    (r.isSome ∧ w'.ctx.core = w.ctx.core) ∨
      (r = none ∧ w'.ctx.signalLost = false ∧ w'.ctx.core = coreInForce w timeout a) := by
  unfold waitSignal at h
  unfold coreInForce
  split at h
  · next hlost =>
    rw [if_pos hlost]
    rcases recoverSignal_core h with hend | ⟨hr, hback, env, hseen, hcore⟩
    · exact .inl hend
    · rw [hseen]
      exact .inr ⟨hr, hback, hcore⟩
  · next hlost =>
    cases h
    rw [if_neg hlost]
    exact .inr ⟨rfl, Bool.eq_false_iff.mpr hlost, rfl⟩

/-- One pass: the formats stay, or they are the ones in force; a dropped frame leaves the signal
    there; a returned frame is converted exactly if there is a branch. -/
theorem attempt_core {timeout : Int} {a : Attempt} {out : Outcome}
    (h : attempt w timeout a = some (w', out)) :
    (w'.ctx.core = w.ctx.core ∨ w'.ctx.core = coreInForce w timeout a) ∧
      (out = .again → w'.ctx.signalLost = false ∧ w'.ctx.core = coreInForce w timeout a) ∧
      ∀ r g, out = .done r (some g) → needsVulkan w.ctx.config = true →
        (Converted w'.ctx g ↔ (coreInForce w timeout a).Converts) := by
  unfold attempt at h
  split at h
  · cases h
  · next hsignal =>
    cases h
    refine ⟨?_, nofun, fun _ _ hout => absurd hout done_none_ne⟩
    rcases waitSignal_core hsignal with ⟨-, hcore⟩ | ⟨hr, -⟩
    · exact .inl hcore
    · cases hr
  · next v hsignal =>
    obtain ⟨hsome, -⟩ | ⟨-, hlost, hcore⟩ := waitSignal_core hsignal
    · cases hsome
    have hframe : ∀ {u : World} {r : Option Ret}, waitFrame v timeout a = some (u, r) →
        u.ctx.core = v.ctx.core ∧ (r = none → u.ctx = v.ctx) := by
      intro u r hwait
      unfold waitFrame at hwait
      split at hwait
      · exact waitBuffer_core hwait
      · cases hwait
        exact ⟨rfl, fun _ => rfl⟩
    split at h
    · cases h
    · next hwait =>
      cases h
      exact ⟨.inr ((hframe hwait).1.trans hcore), nofun, fun _ _ hout => absurd hout done_none_ne⟩
    · next u hwait =>
      have hctx := (hframe hwait).2 rfl
      obtain ⟨htaken, hagain, hconv⟩ := takeFrame_core h
      rw [hctx, hcore] at htaken
      refine ⟨.inr htaken, fun hout => ⟨?_, htaken⟩, fun r g hout hneeds => ?_⟩
      · rw [hagain hout, hctx, hlost]
      · have hcfg : u.ctx.config = w.ctx.config := by
          rw [hctx]
          exact (congrArg Core.config hcore).trans (coreInForce_rest w timeout a).1
        rw [hconv r g hout (hcfg ▸ hneeds), hctx, hcore]

/-- A call that returns a frame returns it converted exactly if there is a branch for the formats in
    force; dropped frames before it change nothing. -/
theorem attempts_core {timeout : Int} : ∀ {a : Attempt} {as : List Attempt} {w w' : World} {r : Ret}
    {f : Option Frame}, attempts timeout w (a :: as) = some (w', r, f) →
      (w'.ctx.core = w.ctx.core ∨ w'.ctx.core = coreInForce w timeout a) ∧
      ∀ g, f = some g → needsVulkan w.ctx.config = true →
        (Converted w'.ctx g ↔ (coreInForce w timeout a).Converts) := by
  intro a as
  induction as generalizing a with
  | nil =>
    intro w w' r f h
    rw [attempts] at h
    split at h
    · cases h
    · next hatt =>
      cases h
      obtain ⟨hcore, -, hconv⟩ := attempt_core hatt
      exact ⟨hcore, fun g hg => hconv _ g (by rw [hg])⟩
    · cases h
  | cons b bs ih =>
    intro w w' r f h
    rw [attempts] at h
    split at h
    · cases h
    · next hatt =>
      cases h
      obtain ⟨hcore, -, hconv⟩ := attempt_core hatt
      exact ⟨hcore, fun g hg => hconv _ g (by rw [hg])⟩
    · next v hatt =>
      obtain ⟨-, hagain, -⟩ := attempt_core hatt
      obtain ⟨hlost, hcore⟩ := hagain rfl
      -- the signal is there, so the next pass does not touch the formats again
      have hsame : coreInForce v timeout b = coreInForce w timeout a := by
        rw [← hcore, coreInForce, hlost]
        rfl
      obtain ⟨hrest, hconv⟩ := ih h
      rw [hsame, hcore, or_self] at hrest
      refine ⟨.inr hrest, fun g hg hneeds => ?_⟩
      have hcfg : v.ctx.config = w.ctx.config :=
        (congrArg Core.config hcore).trans (coreInForce_rest w timeout a).1
      rw [hconv g hg (hcfg ▸ hneeds), hsame]

/-! ### Runs -/

/-- A pipeline is built for known dimensions only, and then the bit depth is known too. -/
def Core.Known (cfg : Config) (c : Core) : Prop :=
  c.config = cfg ∧ (c.width ≠ 0 ∨ c.vk = true → c.bitdepth = 8 ∨ c.bitdepth = 10)

theorem bitdepthAtStart_cases (p : Nat) : bitdepthAtStart p = 8 ∨ bitdepthAtStart p = 10 := by
  unfold bitdepthAtStart
  split_ifs <;> simp

theorem bitdepthAtReconfig_cases (p : Nat) :
    bitdepthAtReconfig p = 8 ∨ bitdepthAtReconfig p = 10 := by
  unfold bitdepthAtReconfig
  split_ifs <;> simp

theorem known_reconfigured {cfg : Config} {c : Core} (h : c.Known cfg) (env : ReconfigEnv) :
    (c.reconfigured env).Known cfg := ⟨h.1, fun _ => bitdepthAtReconfig_cases _⟩

theorem known_inForce {cfg : Config} (h : w.ctx.core.Known cfg) (timeout : Int) (a : Attempt) :
    (coreInForce w timeout a).Known cfg := by
  unfold coreInForce
  split
  · cases restoredBy timeout w a.recover with
    | none => exact h
    | some env => exact known_reconfigured h _
  · exact h

theorem startVulkan_known {cfg : Config} {env : StartEnv} (h : w.ctx.core.Known cfg) :
    (startVulkan w env).1.ctx.core.Known cfg := by
  unfold startVulkan
  dsimp only
  split
  · next hneeds =>
    split
    · refine ⟨h.1, fun _ => h.2 (.inl ?_)⟩
      simp only [Bool.and_eq_true, decide_eq_true_eq] at hneeds
      exact Nat.ne_of_gt hneeds.1.2
    · exact h
  · exact h

theorem start_known {cfg : Config} {n : Nat} {env : StartEnv} {r : Ret}
    (h : w.ctx.core.Known cfg) (hs : start w n env = some (w', r)) : w'.ctx.core.Known cfg := by
  unfold start at hs
  split at hs
  · cases hs
    exact h
  dsimp only at hs
  split at hs
  · cases hs
    exact h
  split at hs
  · cases hs
  next u hdrain =>
  have hfmt : (readFmt w env.gfmt).ctx.core.Known cfg := by
    cases env.gfmt with
    | none => exact h
    | some f => exact ⟨h.1, fun _ => bitdepthAtStart_cases _⟩
  have hdrained : u.ctx.core.Known cfg := by
    rw [drainAll_ctx hdrain]
    exact hfmt
  split at hs
  · next v e hreq =>
    cases hs
    have hv : v.ctx = u.ctx := reqbufs_ctx hreq
    simp only [World.diag, World.setCtx, hv]
    exact hdrained
  next v m hreq =>
  have hv : v.ctx = u.ctx := reqbufs_ctx hreq
  split at hs
  · next x i e hq =>
    cases hs
    simp only [World.diag, World.setCtx, qbufAll_ctx hq, hv]
    exact hdrained
  next x hq =>
  have hx : x.ctx.core.Known cfg := by
    simp only [qbufAll_ctx hq, World.setCtx, hv]
    exact hdrained
  split at hs
  · cases hs
    exact hx
  · have hvk : (startVulkan (x.trace .streamon) env).1.ctx.core.Known cfg := startVulkan_known hx
    rw [Option.some_inj] at hs
    rw [hs] at hvk
    exact hvk

theorem releaseFrame_ctx (w : World) (f : Frame) (answer : Option Errno) :
    (releaseFrame w f answer).ctx = w.ctx := by
  unfold releaseFrame
  rw [(qbuf_ctx _ _ _).1]
  cases f.priv with
  | none =>
    dsimp only
    split <;> rfl
  | some p =>
    dsimp only
    split <;> split <;> rfl

theorem pollEvent_core (w : World) (timeout : Int) (env : PollEnv) :
    (pollEvent w timeout env).1.ctx.core = w.ctx.core := by
  unfold pollEvent
  dsimp only
  split
  · rfl
  · rfl
  · split
    · rfl
    split
    · split
      · next v heq =>
        have hv : v.ctx = w.ctx := (dqevent_ctx heq).trans rfl
        rw [← hv]
        rfl
      · next heq => exact congrArg Ctx.core ((dqevent_ctx heq).trans (by rfl))
    · rfl

theorem step_known {cfg : Config} {c : Call} (h : w.ctx.core.Known cfg)
    (hs : step w c = some w') : w'.ctx.core.Known cfg := by
  cases c with
  | start n env =>
    obtain ⟨⟨v, r⟩, hstart, rfl⟩ := Option.map_eq_some_iff.mp hs
    exact start_known h hstart
  | stop env =>
    cases hs
    unfold stop
    split
    · simp only [World.setCtx, freeBuffers_ctx]
      exact h
    · exact h
  | acquire timeout env =>
    obtain ⟨⟨v, r, f⟩, hacq, rfl⟩ := Option.map_eq_some_iff.mp hs
    have hv : v.ctx.core.Known cfg := by
      unfold acquireFrame at hacq
      split at hacq
      · cases env with
        | nil => cases hacq
        | cons a as =>
          rcases (attempts_core hacq).1 with hcore | hcore
          · rw [hcore]
            exact h
          · rw [hcore]
            exact known_inForce h timeout a
      · cases hacq
        exact h
    exact hv
  | release k answer =>
    obtain ⟨f, hf, rfl⟩ := Option.map_eq_some_iff.mp hs
    rw [releaseFrame_ctx]
    exact h
  | pollEvent timeout env =>
    cases hs
    rw [pollEvent_core]
    exact h
  | emit e =>
    cases hs
    exact h

theorem open_known (cfg : Config) (fmt : Option Fmt) (events : List Event) :
    (openWorld cfg fmt events).ctx.core.Known cfg := by
  cases fmt with
  | none => exact ⟨rfl, by simp [openWorld, openCtx, Ctx.core]⟩
  | some f => exact ⟨rfl, fun _ => bitdepthAtStart_cases _⟩

/-- In a context that converts, an acquire delivers exactly if it is ready. -/
theorem delivers_iff_ready {cfg : Config} (hneeds : needsVulkan cfg = true)
    (hw : w.ctx.core.Known cfg) (c : Call) : Delivers w c ↔ Ready w c := by
  have hcfg : w.ctx.config = cfg := hw.1
  cases c with
  | acquire timeout env =>
    cases hacq : acquireFrame w timeout env with
    | none => simp [Delivers, Ready, hacq]
    | some res =>
      obtain ⟨w', r, f⟩ := res
      by_cases hr : Succeeds r
      · obtain ⟨g, rfl⟩ := Option.isSome_iff_exists.mp ((acquireFrame_consistent hacq).mpr hr)
        have hdeliver : Delivers w (.acquire timeout env) ↔ Converted w'.ctx g := by
          simp [Delivers, hacq, hr]
        have hready : Ready w (.acquire timeout env) ↔ w.ctx.vk = true ∧
            w.ctx.config.outputFormat ≠ .nv21 ∧ (w.ctx.config.outputFormat = .a2b10g10r10Afbc →
              bitdepthInForce w timeout env = 10) := by
          simp only [Ready, hacq]
          exact ⟨fun h => h ⟨w', r, some g, rfl, hr⟩, fun h _ => h⟩
        rw [hdeliver, hready]
        have hstream : attempts timeout w env = some (w', r, some g) := by
          unfold acquireFrame at hacq
          split at hacq
          · exact hacq
          · cases hacq
        cases env with
        | nil => cases hstream
        | cons a as =>
          obtain ⟨hcfg', hvk'⟩ := coreInForce_rest w timeout a
          rw [(attempts_core hstream).2 g rfl (hcfg ▸ hneeds), Core.Converts, hvk', hcfg']
          refine and_congr_right fun hvk => ?_
          have hbits := (known_inForce hw timeout a).2 (.inr (hvk'.trans hvk))
          rw [renderPath_isSome_iff hbits (needsVulkan_iff.mp (hcfg ▸ hneeds)),
            coreInForce_bitdepth w timeout a as]
      · refine iff_of_true ?_ ?_
        · intro w₁ r₁ f₁ h₁ hr₁
          rw [hacq] at h₁
          cases h₁
          exact absurd hr₁ hr
        · rintro ⟨w₁, r₁, f₁, h₁, hr₁⟩
          rw [hacq] at h₁
          cases h₁
          exact absurd hr₁ hr
  | start => exact Iff.rfl
  | stop => exact Iff.rfl
  | release => exact Iff.rfl
  | pollEvent => exact Iff.rfl
  | emit => exact Iff.rfl

end core

/-- For every run of a context that converts: each acquire of it that succeeds returns a converted
    frame exactly if each of them is made with the pipeline in place, not for NV21, and for
    A2B10G10R10_AFBC with a 10-bit format in force. -/
theorem delivers_iff_ready_along {cfg : Config} {fmt : Option Fmt} {events : List Event}
    {calls : List Call} (hneeds : needsVulkan cfg = true) :
    Along step Delivers (openWorld cfg fmt events) calls ↔
      Along step Ready (openWorld cfg fmt events) calls :=
  along_congr (P := fun w => w.ctx.core.Known cfg) (fun _ _ _ h hs => step_known h hs)
    (fun _ c h => delivers_iff_ready hneeds h c) (open_known cfg fmt events)

theorem delivers_startedNv12 : Along step Delivers (openWorld nv12Config none []) startedNv12 := by
  refine (delivers_iff_ready_along rfl).mpr ⟨trivial, ?_⟩
  rintro _ ⟨⟩
  exact ⟨fun _ => ⟨rfl, nofun, nofun⟩, fun _ _ => trivial⟩

/-- A frame without its private part is not a converted one. -/
theorem not_delivers_raw {w w' : World} {timeout : Int} {env : List Attempt} {r : Ret} {g : Frame}
    (hacq : acquireFrame w timeout env = some (w', r, some g)) (hr : Succeeds r)
    (hpriv : g.priv = none) : ¬ Delivers w (.acquire timeout env) := by
  intro h
  obtain ⟨g', hg, hconv⟩ := h w' r _ hacq hr
  cases hg
  have hsome := hconv.priv
  rw [hpriv] at hsome
  cases hsome

/-- Start with an 8-bit source, then acquire a frame. -/
def startAndTake : List Call :=
  [.start 4 { plainStart with gfmt := some fmt1080 }, .acquire 0 [takeToken 0]]

/-- The pipeline cannot be built; the start is tried again and succeeds, without a pipeline. -/
def retryAndTake : List Call :=
  [.start 4 { plainStart with gfmt := some fmt1080, vkInit := false }, .start 4 plainStart,
    .acquire 0 [takeToken 0]]

theorem raw_frames_delivered :
    ¬ Along step Delivers (openWorld ⟨.nv21, 0, 0, none⟩ none []) startAndTake ∧
    ¬ Along step Delivers (openWorld ⟨.a2b10g10r10Afbc, 0, 0, none⟩ none []) startAndTake ∧
    ¬ Along step Delivers (openWorld ⟨.nv12, 0, 0, none⟩ none []) retryAndTake := by
  refine ⟨fun h => ?_, fun h => ?_, fun h => ?_⟩
  · exact not_delivers_raw rfl (.inl rfl) rfl (h.2 _ rfl).1
  · exact not_delivers_raw rfl (.inl rfl) rfl (h.2 _ rfl).1
  · exact not_delivers_raw rfl (.inl rfl) rfl ((h.2 _ rfl).2 _ rfl).1

end Streambox.Vfmcap
