import Streambox.Vfmcap.Calls
import Streambox.Vulkan.Exclusive

/-! What one vfmcap_acquire_frame takes, and what it gives back.

    The ledger replays the trace of a call. It enters every token that is dequeued, every descriptor
    that is exported and every output that is rendered, and strikes them out again when they are
    queued, closed or released. Striking out what is not in hand is no replay at all, so a call with
    a replay gives nothing back twice. Tokens that a `REQBUFS` has just granted are queued without
    having been dequeued; the ledger keeps them apart. -/

namespace Streambox.Vfmcap
open Streambox.Lib

/-! ### The ledger -/

/-- What a call has in hand: tokens, exported descriptors, rendered outputs. -/
structure Hand where
  tokens : List Nat
  fds : List Int
  outputs : List (Int × Int)
  deriving DecidableEq, Repr

def Hand.empty : Hand := ⟨[], [], []⟩

structure Ledger where
  hand : Hand
  fresh : List Nat
  deriving DecidableEq, Repr

/-- Strike one occurrence out, if there is one. -/
def strike {α : Type} [DecidableEq α] (a : α) (l : List α) : Option (List α) :=
  if a ∈ l then some (l.erase a) else none

@[simp] theorem strike_cons_self {α : Type} [DecidableEq α] {a : α} {l : List α} :
    strike a (a :: l) = some l := by simp [strike]

@[simp] theorem strike_nil {α : Type} [DecidableEq α] {a : α} : strike a [] = none := rfl

/-- One entry of the trace. -/
def Ledger.enter (l : Ledger) : Sys → Option Ledger
  | .dqbuf i => some { l with hand := { l.hand with tokens := i :: l.hand.tokens } }
  | .qbuf i _ true =>
    match strike i l.hand.tokens with
    | some tokens => some { l with hand := { l.hand with tokens } }
    | none => (strike i l.fresh).map fun fresh => { l with fresh }
  | .reqbufs _ n => some { l with fresh := List.range n }
  | .freebufs true => some { l with fresh := [] }
  | .getDmabuf fd => some { l with hand := { l.hand with fds := fd :: l.hand.fds } }
  | .close fd => (strike fd l.hand.fds).map fun fds => { l with hand := { l.hand with fds } }
  | .render y uv =>
    some { l with hand := { l.hand with outputs := (y, uv) :: l.hand.outputs } }
  | .releaseOutput y uv =>
    (strike (y, uv) l.hand.outputs).map fun outputs => { l with hand := { l.hand with outputs } }
  | _ => some l

/-- The entries that take something into the hand or out of it for good. -/
def Sys.isTransfer : Sys → Bool
  | .dqbuf _ | .getDmabuf _ | .close _ | .render .. | .releaseOutput .. => true
  | _ => false

/-- The entries that mark or unmark entries of an output pool. -/
def Sys.isOutput : Sys → Bool
  | .render .. | .releaseOutput .. => true
  | _ => false

theorem isOutput_of_not_transfer {e : Sys} (h : e.isTransfer = false) : e.isOutput = false := by
  cases e <;> first | rfl | cases h

/-- The world `w'` has the entries `es` more than `w`, the last one first. -/
def Traced (w w' : World) (es : List Sys) : Prop := w'.log = es.reverse ++ w.log

/-- Whatever was fresh before, the entries leave the hand as it is. -/
def Idle (es : List Sys) : Prop :=
  (∀ e ∈ es, e.isTransfer = false) ∧
    ∀ fresh, ∃ fresh', run Ledger.enter ⟨.empty, fresh⟩ es = some ⟨.empty, fresh'⟩

section ledger
variable {w w' w'' : World} {es es' : List Sys}

theorem Traced.refl : Traced w w [] := rfl

theorem traced_trace (w : World) (e : Sys) : Traced w (w.trace e) [e] := rfl

theorem Traced.append (h : Traced w w' es) (h' : Traced w' w'' es') : Traced w w'' (es ++ es') := by
  rw [Traced, h', h, List.reverse_append, List.append_assoc]

theorem idle_nil : Idle [] := ⟨nofun, fun fresh => ⟨fresh, rfl⟩⟩

theorem Idle.append (h : Idle es) (h' : Idle es') : Idle (es ++ es') := by
  refine ⟨fun e he => ?_, fun fresh => ?_⟩
  · rcases List.mem_append.mp he with he | he
    · exact h.1 e he
    · exact h'.1 e he
  · obtain ⟨mid, hmid⟩ := h.2 fresh
    obtain ⟨last, hlast⟩ := h'.2 mid
    exact ⟨last, run_append hmid hlast⟩

end ledger

/-! ### Calls that take nothing -/

/-- The queue holds tokens of the allocation, each once. -/
structure Sane (w : World) : Prop where
  nodup : w.dev.queued.Nodup
  bound : ∀ i ∈ w.dev.queued, i < w.dev.count

/-- Part of a call that leaves the hand as it is. -/
structure Idles (w w' : World) : Prop where
  sane : Sane w → Sane w'
  frames : w'.frames = w.frames
  config : w'.ctx.config = w.ctx.config
  vk : w.ctx.vk = true → w'.ctx.vk = true
  traced : ∃ es, Traced w w' es ∧ Idle es

section idles
variable {w w' w'' : World}

theorem Idles.refl (w : World) : Idles w w := ⟨id, rfl, rfl, id, [], .refl, idle_nil⟩

theorem Idles.trans (h : Idles w w') (h' : Idles w' w'') : Idles w w'' := by
  obtain ⟨es, htraced, hidle⟩ := h.traced
  obtain ⟨es', htraced', hidle'⟩ := h'.traced
  exact ⟨h'.sane ∘ h.sane, h'.frames.trans h.frames, h'.config.trans h.config, h'.vk ∘ h.vk,
    es ++ es', htraced.append htraced', hidle.append hidle'⟩

theorem idles_setCtx {c : Ctx} (hconfig : c.config = w.ctx.config)
    (hvk : w.ctx.vk = true → c.vk = true) : Idles w (w.setCtx c) :=
  ⟨fun h => ⟨h.nodup, h.bound⟩, rfl, hconfig, hvk, [], .refl, idle_nil⟩

theorem idles_diag (w : World) (d : Diag) : Idles w (w.diag d) :=
  idles_setCtx (by rfl) (by exact id)

theorem idles_events (w : World) (ev : List Event) :
    Idles w { w with dev := { w.dev with events := ev } } :=
  ⟨fun h => ⟨h.nodup, h.bound⟩, rfl, rfl, id, [], .refl, idle_nil⟩

/-- An entry that the ledger passes over. -/
theorem idles_trace (w : World) {e : Sys} (ht : e.isTransfer = false)
    (he : ∀ l : Ledger, l.enter e = some l) : Idles w (w.trace e) := by
  refine ⟨fun h => ⟨h.nodup, h.bound⟩, rfl, rfl, id, [e], rfl, ?_, fun fresh => ⟨fresh, ?_⟩⟩
  · simpa using ht
  · rw [run_cons]
    exact ⟨_, he _, rfl⟩

theorem idles_loseSignal (w : World) : Idles w w.loseSignal := by
  have hset : Idles w (w.setCtx { w.ctx with signalLost := true }) :=
    idles_setCtx (by rfl) (by exact id)
  unfold World.loseSignal
  split
  · exact hset
  · exact hset.trans (idles_trace _ (e := .signalLost) rfl fun _ => rfl)

/-- A new allocation, with nothing of it queued yet. -/
theorem idles_allocate (w : World) (asked n : Nat) :
    Idles w ((w.allocate n).trace (.reqbufs asked n)) := by
  refine ⟨fun _ => ⟨List.nodup_nil, nofun⟩, rfl, rfl, id, [.reqbufs asked n], rfl, ?_, ?_⟩
  · simp [Sys.isTransfer]
  · exact fun _ => ⟨List.range n, rfl⟩

theorem idles_streamoff (w : World) (answer : Option Errno) : Idles w (streamoff w answer) := by
  cases answer with
  | none =>
    have hoff : Idles w { w with dev := { w.dev with queued := [] } } :=
      ⟨fun _ => ⟨List.nodup_nil, nofun⟩, rfl, rfl, id, [], .refl, idle_nil⟩
    exact hoff.trans (idles_trace _ rfl fun _ => rfl)
  | some e => exact idles_trace w rfl fun _ => rfl

theorem idles_freebufs (w : World) (answer : Option Errno) : Idles w (freebufs w answer) := by
  cases answer with
  | none =>
    refine ⟨fun _ => ⟨List.nodup_nil, nofun⟩, rfl, rfl, id, [.freebufs true], rfl, ?_, ?_⟩
    · simp [Sys.isTransfer]
    · exact fun _ => ⟨[], rfl⟩
  | some e => exact idles_trace w rfl fun _ => rfl

theorem idles_freeBuffers (w : World) (env : FreeEnv) : Idles w (freeBuffers w env) :=
  (idles_streamoff w _).trans (idles_freebufs _ _)

theorem idles_reqbufs_error {asked : Nat} {answer : ReqbufsRet} {e : Errno}
    (h : reqbufs w asked answer = (w', .error e)) : Idles w w' := by
  cases answer with
  | granted n => cases h
  | failed e' freed =>
    cases freed
    · cases h
      exact .refl w
    · cases h
      exact idles_allocate w asked 0

/-! ### Queueing -/

/-- A `QBUF` leaves the queue in order, whatever the token. -/
theorem Sane.qbuf (h : Sane w) (i : Nat) (answer : Option Errno) : Sane (qbuf w i answer).1 := by
  unfold Vfmcap.qbuf
  split
  · next hi =>
    cases answer with
    | some e => exact ⟨h.nodup, h.bound⟩
    | none =>
      have hnodup := h.nodup.concat hi.2
      rw [List.concat_eq_append] at hnodup
      refine ⟨hnodup, fun j hj => ?_⟩
      rcases List.mem_append.mp hj with hj | hj
      · exact h.bound j hj
      · rw [List.mem_singleton.mp hj]
        exact hi.1
  · exact ⟨h.nodup, h.bound⟩

/-- An accepted `QBUF` is one entry. -/
theorem qbuf_none {i : Nat} (h : qbuf w i none = (w', none)) :
    Traced w w' [.qbuf i true true] := by
  unfold qbuf at h
  split at h
  · cases h
    rfl
  · cases h

/-- A refused one is an entry that the ledger passes over. -/
theorem qbuf_some {i : Nat} {answer : Option Errno} {e : Errno}
    (h : qbuf w i answer = (w', some e)) : ∃ legal, Traced w w' [.qbuf i legal false] := by
  unfold qbuf at h
  split at h
  · cases answer with
    | none => cases h
    | some e' =>
      cases h
      exact ⟨true, rfl⟩
  · cases h
    exact ⟨false, rfl⟩

theorem qbuf_accepted {i : Nat} {answer : Option Errno} (h : qbuf w i answer = (w', none)) :
    answer = none := by
  unfold qbuf at h
  split at h
  · cases answer with
    | none => rfl
    | some e => cases h
  · cases h

/-- Queueing the tokens of a list that are all fresh. -/
theorem qbufAll_traced {answer : Nat → Option Errno} : ∀ {L : List Nat} {w w' : World}
    {r : Option (Nat × Errno)}, qbufAll answer w L = (w', r) → ∃ es, Traced w w' es ∧
      (∀ e ∈ es, e.isTransfer = false) ∧
      ∃ fresh, run Ledger.enter ⟨.empty, L⟩ es = some ⟨.empty, fresh⟩
  | [], w, w', r, h => by
    cases h
    exact ⟨[], .refl, nofun, [], rfl⟩
  | i :: L, w, w', r, h => by
    rw [qbufAll] at h
    split at h
    · next w₁ heq =>
      obtain ⟨es, htraced, hno, fresh, hrun⟩ := qbufAll_traced h
      have hone := qbuf_none (qbuf_accepted heq ▸ heq)
      refine ⟨.qbuf i true true :: es, hone.append htraced, ?_, fresh, ?_⟩
      · intro e he
        rcases List.mem_cons.mp he with rfl | he
        · rfl
        · exact hno e he
      · refine run_cons.mpr ⟨⟨.empty, L⟩, ?_, hrun⟩
        simp [Ledger.enter, Hand.empty]
    · next w₁ e heq =>
      cases h
      obtain ⟨legal, htraced⟩ := qbuf_some heq
      refine ⟨_, htraced, ?_, i :: L, rfl⟩
      simp [Sys.isTransfer]

theorem qbufAll_keeps {answer : Nat → Option Errno} : ∀ {L : List Nat} {w w' : World}
    {r : Option (Nat × Errno)}, qbufAll answer w L = (w', r) →
      (Sane w → Sane w') ∧ w'.ctx = w.ctx ∧ w'.frames = w.frames
  | [], w, w', r, h => by
    cases h
    exact ⟨id, rfl, rfl⟩
  | i :: L, w, w', r, h => by
    have hsane := fun hw : Sane w => hw.qbuf i (answer i)
    have hctx := qbuf_ctx w i (answer i)
    rw [qbufAll] at h
    split at h
    · next w₁ heq =>
      rw [heq] at hsane hctx
      obtain ⟨hs, hc, hf⟩ := qbufAll_keeps h
      exact ⟨fun hw => hs (hsane hw), hc.trans hctx.1, hf.trans hctx.2⟩
    · next w₁ e heq =>
      cases h
      rw [heq] at hsane hctx
      exact ⟨hsane, hctx⟩

/-- Tokens are granted, the context notes how many, and they are queued until one is refused. -/
theorem idles_allocate_queue {asked n : Nat} {answer : ReqbufsRet} {qanswer : Nat → Option Errno}
    {r : Option (Nat × Errno)} (hreq : reqbufs w asked answer = (w', .ok n))
    (hq : qbufAll qanswer (w'.setCtx { w'.ctx with numBuffers := n }) (List.range n) = (w'', r)) :
    Idles w w'' := by
  cases answer with
  | failed e freed => cases freed <;> cases hreq
  | granted k =>
    cases hreq
    obtain ⟨hsane, hctx, hframes⟩ := qbufAll_keeps hq
    obtain ⟨es, htraced, hno, fresh, hrun⟩ := qbufAll_traced hq
    refine ⟨fun _ => hsane ⟨List.nodup_nil, nofun⟩, hframes, ?_, ?_, .reqbufs asked n :: es,
      ?_, ?_, fun old => ⟨fresh, run_cons.mpr ⟨_, rfl, hrun⟩⟩⟩
    · rw [hctx]
      rfl
    · rw [hctx]
      exact id
    · rw [Traced, htraced, List.reverse_cons, List.append_assoc]
      rfl
    · intro e he
      rcases List.mem_cons.mp he with rfl | he
      · rfl
      · exact hno e he

/-! ### The parts of a call before a frame is dequeued -/

theorem idles_doReconfig (w : World) (env : ReconfigEnv) : Idles w (doReconfig w env).1 := by
  have hfree : Idles w (freeBuffers (w.trace (.doReconfig w.ctx.signalLost)) env.free) :=
    (idles_trace w rfl fun _ => rfl).trans (idles_freeBuffers _ _)
  unfold doReconfig
  generalize freeBuffers (w.trace (.doReconfig w.ctx.signalLost)) env.free = v at hfree ⊢
  have hcleared (f : Fmt) : Idles w (v.setCtx (v.ctx.setFmt f (bitdepthAtReconfig f.pixelformat))) :=
    hfree.trans (idles_setCtx (by rfl) (by exact id))
  dsimp only
  split
  · next heq =>
    exact (hcleared _).trans ((idles_reqbufs_error heq).trans (idles_diag _ _))
  · next hreq =>
    split
    · next hq =>
      exact (hcleared _).trans ((idles_allocate_queue hreq hq).trans (idles_diag _ _))
    · next hq =>
      have hqueued := (hcleared _).trans (idles_allocate_queue hreq hq)
      split
      · exact hqueued.trans (idles_diag _ _)
      · have hon := hqueued.trans (idles_trace _ (e := .streamon) rfl fun _ => rfl)
        split
        · exact (hon.trans (idles_trace _ (e := .reconfigPools env.pools) rfl fun _ => rfl)).trans
            (idles_setCtx (by rfl) (by exact id))
        · exact hon.trans (idles_setCtx (by rfl) (by exact id))

theorem idles_dqevent {by_ : Entry} {s : DqStep} {r : Option Event}
    (h : dqevent w by_ s = (w', r)) : Idles w w' := by
  unfold dqevent at h
  split at h
  · cases h
    exact idles_events _ _
  split at h
  · cases h
    exact idles_events _ _
  · next e rest _ =>
    cases h
    exact (idles_events w rest).trans
      (idles_trace _ (e := .dqevent e by_ w.ctx.signalLost) rfl fun _ => rfl)

theorem idles_drainToSourceChange {by_ : Entry} : ∀ {steps : List DqStep} {w w' : World}
    {found : Bool}, drainToSourceChange by_ w steps = some (w', found) → Idles w w'
  | [], _, _, _, h => by cases h
  | s :: steps, w, w', found, h => by
    unfold drainToSourceChange at h
    split at h
    · next heq => cases h; exact idles_dqevent heq
    · next heq => cases h; exact idles_dqevent heq
    · next heq => exact (idles_dqevent heq).trans (idles_drainToSourceChange h)

theorem idles_drainAll {by_ : Entry} : ∀ {steps : List DqStep} {w w' : World},
    drainAll by_ w steps = some w' → Idles w w'
  | [], _, _, h => by cases h
  | s :: steps, w, w', h => by
    unfold drainAll at h
    split at h
    · next heq => cases h; exact idles_dqevent heq
    · next heq => exact (idles_dqevent heq).trans (idles_drainAll h)

theorem idles_restoreSignal (w : World) (env : RestoreEnv) : Idles w (restoreSignal w env) := by
  unfold restoreSignal
  dsimp only
  refine Idles.trans ?_ ((idles_doReconfig _ _).trans (idles_setCtx (by rfl) (by exact id)))
  split
  · exact (idles_setCtx (by rfl) (by exact id)).trans (idles_setCtx (by rfl) (by exact id))
  · exact idles_setCtx (by rfl) (by exact id)

theorem idles_poll (w : World) (timeout : Int) : Idles w (w.trace (.poll timeout)) :=
  idles_trace w rfl fun _ => rfl

/-- A wait that ends the call ends it with an error. -/
def Failed (r : Option Ret) : Prop := ∀ c ∈ r, c ≠ .ok ∧ c ≠ .reconfigured

theorem idles_recoverSignal {timeout : Int} : ∀ {passes : List RecoverPass} {w w' : World}
    {r : Option Ret}, recoverSignal timeout w passes = some (w', r) → Idles w w' ∧ Failed r
  | [], _, _, _, h => by cases h
  | p :: passes, w, w', r, h => by
    have hpoll := idles_poll w (if timeout > 0 then timeout else 1000)
    unfold recoverSignal at h
    dsimp only at h
    split at h
    · cases h
      exact ⟨hpoll, by simp [Failed]⟩
    · split at h
      · obtain ⟨hrest, hfail⟩ := idles_recoverSignal h
        exact ⟨hpoll.trans hrest, hfail⟩
      · cases h
        exact ⟨hpoll.trans (idles_diag _ _), by simp [Failed]⟩
    · split at h
      · split at h
        · cases h
        · next heq =>
          cases h
          have hseen := hpoll.trans (idles_drainToSourceChange heq)
          exact ⟨hseen.trans (idles_restoreSignal _ _), by simp [Failed]⟩
        · next heq =>
          obtain ⟨hrest, hfail⟩ := idles_recoverSignal h
          exact ⟨(hpoll.trans (idles_drainToSourceChange heq)).trans hrest, hfail⟩
      · obtain ⟨hrest, hfail⟩ := idles_recoverSignal h
        exact ⟨hpoll.trans hrest, hfail⟩

theorem idles_reportSignalLost (w : World) (op : String) (err : Errno) :
    Idles w (reportSignalLost w op err).1 := (idles_loseSignal w).trans (idles_diag _ _)

theorem idles_handleEvents {ev : Revents} {drain : List DqStep} {found : Bool}
    (h : handleEvents w ev drain = some (w', found)) : Idles w w' := by
  unfold handleEvents at h
  split at h
  · exact idles_drainToSourceChange h
  · cases h
    exact .refl w

theorem idles_waitBuffer {deadline : Int} : ∀ {passes : List WaitPass} {w w' : World}
    {r : Option Ret}, waitBuffer deadline w passes = some (w', r) → Idles w w' ∧ Failed r
  | [], _, _, _, h => by cases h
  | p :: passes, w, w', r, h => by
    have hpoll := idles_poll w ((deadline - p.now).bmod (2 ^ 32))
    unfold waitBuffer at h
    dsimp only at h
    split at h
    · cases h
      exact ⟨.refl w, by simp [Failed]⟩
    split at h
    · cases h
      exact ⟨hpoll, by simp [Failed]⟩
    · split at h
      · obtain ⟨hrest, hfail⟩ := idles_waitBuffer h
        exact ⟨hpoll.trans hrest, hfail⟩
      split at h
      · cases h
        exact ⟨hpoll.trans (idles_reportSignalLost _ _ _), by simp [Failed]⟩
      · cases h
        exact ⟨hpoll.trans (idles_diag _ _), by simp [Failed]⟩
    · split at h
      · cases h
        exact ⟨hpoll.trans (idles_reportSignalLost _ _ _), by simp [Failed]⟩
      split at h
      · cases h
      · next heq =>
        cases h
        have hseen := hpoll.trans (idles_handleEvents heq)
        exact ⟨hseen.trans (idles_loseSignal _), by simp [Failed]⟩
      · next heq =>
        have hseen := hpoll.trans (idles_handleEvents heq)
        split at h
        · cases h
          exact ⟨hseen, by simp [Failed]⟩
        · obtain ⟨hrest, hfail⟩ := idles_waitBuffer h
          exact ⟨hseen.trans hrest, hfail⟩

theorem idles_waitSignal {timeout : Int} {a : Attempt} {r : Option Ret}
    (h : waitSignal w timeout a = some (w', r)) : Idles w w' ∧ Failed r := by
  unfold waitSignal at h
  split at h
  · exact idles_recoverSignal h
  · cases h
    exact ⟨.refl w, by simp [Failed]⟩

theorem idles_waitFrame {timeout : Int} {a : Attempt} {r : Option Ret}
    (h : waitFrame w timeout a = some (w', r)) : Idles w w' ∧ Failed r := by
  unfold waitFrame at h
  split at h
  · exact idles_waitBuffer h
  · cases h
    exact ⟨.refl w, by simp [Failed]⟩

/-! ### The other calls -/

theorem idles_startVulkan (w : World) (env : StartEnv) : Idles w (startVulkan w env).1 := by
  have hstarted : Idles w ((w.setCtx { w.ctx with streaming := true, signalLost := false }).trace
      .started) := (idles_setCtx (by rfl) (by exact id)).trans (idles_trace _ rfl fun _ => rfl)
  unfold startVulkan
  dsimp only
  split
  · split
    · exact hstarted.trans (idles_setCtx (by rfl) (by exact fun _ => rfl))
    · exact hstarted.trans (idles_diag _ _)
  · exact hstarted

theorem idles_readFmt (w : World) (gfmt : Option Fmt) : Idles w (readFmt w gfmt) := by
  cases gfmt with
  | none => exact .refl w
  | some f => exact idles_setCtx (by rfl) (by exact id)

theorem idles_start {n : Nat} {env : StartEnv} {r : Ret} (h : start w n env = some (w', r)) :
    Idles w w' := by
  unfold start at h
  split at h
  · cases h
    exact .refl w
  dsimp only at h
  split at h
  · cases h
    exact idles_diag _ _
  split at h
  · cases h
  next hdrain =>
  have hdrained := (idles_readFmt w env.gfmt).trans (idles_drainAll hdrain)
  split at h
  · next hreq =>
    cases h
    exact hdrained.trans ((idles_reqbufs_error hreq).trans (idles_diag _ _))
  next hreq =>
  split at h
  · next hq =>
    cases h
    exact hdrained.trans ((idles_allocate_queue hreq hq).trans (idles_diag _ _))
  next hq =>
  have hqueued := hdrained.trans (idles_allocate_queue hreq hq)
  split at h
  · cases h
    exact hqueued.trans (idles_diag _ _)
  · have hvk := (hqueued.trans (idles_trace _ (e := .streamon) rfl fun _ => rfl)).trans
      (idles_startVulkan _ env)
    rw [Option.some_inj] at h
    rw [h] at hvk
    exact hvk

theorem idles_stop (w : World) (env : FreeEnv) : Idles w (stop w env) := by
  unfold stop
  split
  · exact (idles_freeBuffers w env).trans (idles_setCtx (by rfl) (by exact id))
  · exact .refl w

theorem idles_pollEvent (w : World) (timeout : Int) (env : PollEnv) :
    Idles w (pollEvent w timeout env).1 := by
  have hpoll := idles_poll w timeout
  unfold pollEvent
  dsimp only
  split
  · exact hpoll
  · exact hpoll
  · split
    · exact hpoll.trans (idles_loseSignal _)
    split
    · split
      · next heq =>
        exact ((hpoll.trans (idles_dqevent heq)).trans (idles_loseSignal _)).trans
          (idles_setCtx (by rfl) (by exact id))
      · next heq => exact hpoll.trans (idles_dqevent heq)
    · exact hpoll

end idles

/-! ### The entries behind an output

    A render marks one or two entries of the output pools, and the release of its descriptors
    unmarks them. A restored signal replaces the pools. -/

/-- The same enumeration, as the converter declares it. -/
def VkFmt.toVulkan : VkFmt → Vulkan.Fmt
  | .nv12 => .nv12
  | .nv21 => .nv21
  | .p010 => .p010
  | .nv12Afbc => .nv12Afbc
  | .a2b10g10r10Afbc => .a2b10g10r10Afbc

/-- What an entry of the trace does to the output pools of the converter. -/
inductive PoolMove (fmt : Vulkan.Fmt) : Vulkan.Pools → Sys → Vulkan.Pools → Prop
  | render (s : Vulkan.State) (r : Vulkan.Render) (ok : Vulkan.VkCall → Bool) (polls : Nat)
      (plan : Vulkan.Plan) (o : Vulkan.Output) (hplan : Vulkan.planOf s.pools ok r = some plan)
      (hfmt : plan.fmt = fmt) (hout : (Vulkan.attempt s plan ok polls).outs = s.outs ++ [o]) :
      PoolMove fmt s.pools (.render o.yFd o.uvFd) (Vulkan.attempt s plan ok polls).pools
  | release (pools : Vulkan.Pools) (o : Vulkan.Output) (hfmt : o.fmt = fmt) :
      PoolMove fmt pools (.releaseOutput o.yFd o.uvFd) (Vulkan.releaseFrame pools o)
  | reconfig (pools : Vulkan.Pools) (ok : Bool) (a : Vulkan.Setup) (hfmt : a.fmt = fmt) :
      PoolMove fmt pools (.reconfigPools ok) (Vulkan.vfmcapVkReconfigPools a).1
  | other (pools : Vulkan.Pools) (e : Sys) (hrender : ∀ y uv, e ≠ .render y uv)
      (hrelease : ∀ y uv, e ≠ .releaseOutput y uv) (hreconfig : ∀ ok, e ≠ .reconfigPools ok) :
      PoolMove fmt pools e pools

inductive PoolMoves (fmt : Vulkan.Fmt) : Vulkan.Pools → List Sys → Vulkan.Pools → Prop
  | nil (pools : Vulkan.Pools) : PoolMoves fmt pools [] pools
  | cons {s t u : Vulkan.Pools} {e : Sys} {es : List Sys} (h : PoolMove fmt s e t)
      (hrest : PoolMoves fmt t es u) : PoolMoves fmt s (e :: es) u

/-- The entry carries a number that is looked for when the output `(y, uv)` is released. -/
def hitBy (fmt : Vulkan.Fmt) (out : Int × Int) (pools : Vulkan.Pools) (e : Vulkan.Slot) : Prop :=
  Vulkan.Output.hits ⟨0, fmt, ⟨e, none⟩, out.1, out.2⟩ pools e

/-- Entries marked for the outputs: for one output one or two entries, the ones its release hits. -/
def MarkedFor (fmt : Vulkan.Fmt) (pools : Vulkan.Pools) (slots : List Vulkan.Slot) :
    List (Int × Int) → Prop
  | [] => slots = []
  | [out] => (slots.length = 1 ∨ slots.length = 2) ∧ ∀ e, e ∈ slots ↔ hitBy fmt out pools e
  | _ => False

/-- The marks before a stretch of the trace, or none if the pools were replaced in it. -/
def Base (pools : Vulkan.Pools) (base : Vulkan.Slot → Prop) : Prop :=
  (∀ e, base e ↔ Vulkan.InUse pools e) ∨ ∀ e, ¬ base e

/-- A stretch of the trace leaves exactly the entries of `outs` newly marked. -/
def Marks (fmt : Vulkan.Fmt) (es : List Sys) (outs : List (Int × Int)) : Prop :=
  ∀ s t, (∀ p, SlotPool.Keyed (s p)) → PoolMoves fmt s es t →
    (∀ p, SlotPool.Keyed (t p)) ∧ ∃ base slots, Base s base ∧
      (∀ e, Vulkan.InUse t e ↔ e ∈ slots ∨ base e) ∧ (∀ e ∈ slots, ¬ base e) ∧
      MarkedFor fmt t slots outs

section pools
variable {fmt : Vulkan.Fmt} {s t u : Vulkan.Pools} {es es' : List Sys} {outs : List (Int × Int)}

theorem poolMoves_append : ∀ {es : List Sys} {s : Vulkan.Pools},
    PoolMoves fmt s (es ++ es') u → ∃ t, PoolMoves fmt s es t ∧ PoolMoves fmt t es' u
  | [], s, h => ⟨s, .nil s, h⟩
  | e :: es, s, h => by
    cases h with
    | cons hmove hrest =>
      obtain ⟨t, hes, hes'⟩ := poolMoves_append hrest
      exact ⟨t, .cons hmove hes, hes'⟩

/-- A stretch that leaves nothing marked can come before any other. -/
theorem Marks.append (h : Marks fmt es []) (h' : Marks fmt es' outs) :
    Marks fmt (es ++ es') outs := by
  intro s u hk hmoves
  obtain ⟨t, hes, hes'⟩ := poolMoves_append hmoves
  obtain ⟨hkt, base, slots, hbase, hused, -, hslots⟩ := h s t hk hes
  obtain ⟨hku, base', slots', hbase', hused', hfresh', hmarked⟩ := h' t u hkt hes'
  have hslots : slots = [] := hslots
  subst hslots
  refine ⟨hku, base', slots', ?_, hused', hfresh', hmarked⟩
  rcases hbase' with heq | hnone
  · rcases hbase with heq₀ | hnone₀
    · left
      intro e
      rw [heq e, hused e, ← heq₀ e]
      simp
    · right
      intro e he
      rcases (hused e).mp ((heq e).mp he) with hmem | hb
      · cases hmem
      · exact hnone₀ e hb
  · exact .inr hnone

theorem marks_nil : Marks fmt [] [] := by
  intro s t hk hmoves
  cases hmoves
  exact ⟨hk, Vulkan.InUse s, [], .inl fun _ => Iff.rfl, by simp, by simp, rfl⟩

/-- Entries that are neither renders nor releases leave nothing marked. -/
theorem marks_others : ∀ {es : List Sys}, (∀ e ∈ es, e.isOutput = false) → Marks fmt es []
  | [], _ => marks_nil
  | e :: es, h => by
    have hrest : Marks fmt es [] := marks_others fun e' he' => h e' (List.mem_cons_of_mem _ he')
    have he := h e List.mem_cons_self
    suffices hone : Marks fmt [e] [] from hone.append hrest
    intro s t hk hmoves
    cases hmoves with
    | cons hmove hnil =>
      cases hnil
      cases hmove with
      | render s r ok polls plan o => cases he
      | release pools o => cases he
      | reconfig pools ok a =>
        have hunused := Vulkan.vfmcapVkReconfigPools_unused a
        refine ⟨fun p => (hunused p).1, fun _ => False, [], .inr fun _ => id, fun e => ?_, nofun,
          rfl⟩
        simpa [Vulkan.InUse] using (hunused e.pool).2 e.index
      | other pools e =>
        exact ⟨hk, Vulkan.InUse s, [], .inl fun _ => Iff.rfl, by simp, by simp, rfl⟩

/-- What a release hits depends on the format and the numbers only. -/
theorem hitBy_iff {o : Vulkan.Output} {e : Vulkan.Slot} :
    hitBy o.fmt (o.yFd, o.uvFd) s e ↔ o.hits s e := Iff.rfl

theorem slots_length (taken : Vulkan.Taken) :
    taken.slots.length = 1 ∨ taken.slots.length = 2 := by
  rcases taken with ⟨y, _ | uv⟩
  · exact .inl rfl
  · exact .inr rfl

/-- A render that returned an output has marked its entries. -/
theorem marks_render {y uv : Int} : Marks fmt [.render y uv] [(y, uv)] := by
  intro s t hk hmoves
  cases hmoves with
  | cons hmove hrest =>
    cases hrest
    cases hmove with
    | other pools e hrender => exact absurd rfl (hrender _ _)
    | render st r ok polls plan o hplan hfmt hout =>
      have hsane := Vulkan.planOf_sane hplan
      rcases @Vulkan.attempt_cases st plan ok polls hsane with
        ⟨-, waiting, -, hatt⟩ | ⟨pools, taken, -, htook, hy, huv, hatt⟩ | ⟨pools, taken, -, -, hatt⟩
      · rw [hatt] at hout
        exact absurd hout (by simp)
      · rw [hatt] at hout ⊢
        obtain rfl : Vulkan.outputOf st plan.fmt pools taken = o := by simpa using hout
        subst hfmt
        have hkeyed := htook.keys.keyed hk
        have hkeys : ∀ e ∈ taken.slots, ∃ fd, SlotPool.keyAt (pools e.pool) e.index = some fd := by
          intro e he
          rw [htook.keys]
          exact htook.keyed e he
        exact ⟨hkeyed, Vulkan.InUse st.pools, taken.slots, .inl fun _ => Iff.rfl, htook.used,
          htook.fresh, slots_length taken,
          Vulkan.outputOf_fits (s := st) hkeyed (hsane.congr htook.keys) hy huv hkeys⟩
      · rw [hatt] at hout
        exact absurd hout (by simp)

/-- The release of an output unmarks its entries and no other. -/
theorem inUse_release {o : Vulkan.Output} {base : Vulkan.Slot → Prop} {slots : List Vulkan.Slot}
    (hk : ∀ p, SlotPool.Keyed (s p)) (hused : ∀ e, Vulkan.InUse s e ↔ e ∈ slots ∨ base e)
    (hfresh : ∀ e ∈ slots, ¬ base e) (hmarked : MarkedFor o.fmt s slots [(o.yFd, o.uvFd)])
    (e : Vulkan.Slot) : Vulkan.InUse (Vulkan.releaseFrame s o) e ↔ base e := by
  rw [Vulkan.inUse_releaseFrame hk, ← hitBy_iff, ← hmarked.2 e, hused]
  constructor
  · rintro ⟨hmem | hbase, hnot⟩
    · exact absurd hmem hnot
    · exact hbase
  · exact fun hbase => ⟨.inr hbase, fun hmem => hfresh e hmem hbase⟩

/-- An output that is rendered and released at once leaves no mark. -/
theorem marks_render_release {y uv : Int} : Marks fmt [.render y uv, .releaseOutput y uv] [] := by
  intro s u hk hmoves
  rw [← List.singleton_append] at hmoves
  obtain ⟨t, hrender, hrelease⟩ := poolMoves_append hmoves
  obtain ⟨hkt, base, slots, hbase, hused, hfresh, hmarked⟩ := marks_render s t hk hrender
  cases hrelease with
  | cons hmove hrest =>
    cases hrest
    cases hmove with
    | other pools e _ hrel => exact absurd rfl (hrel _ _)
    | release pools o hfmt =>
      subst hfmt
      refine ⟨Vulkan.sameKeys_releaseFrame.keyed hkt, base, [], hbase, fun e => ?_, nofun, rfl⟩
      rw [inUse_release hkt hused hfresh hmarked]
      simp

end pools

/-! ### One pass -/

/-- The descriptor of the exported buffer of a frame. -/
def Frame.vdinFd (f : Frame) : Int :=
  match f.priv with
  | some p => p.vdinFd
  | none => f.dmabufFd

/-- What a frame stands for: its token, its exported buffer and, if it was converted, its
    output. -/
def Frame.hand (f : Frame) : Hand :=
  ⟨[f.index], [f.vdinFd], f.priv.toList.map fun p => (p.outYFd, p.outUvFd)⟩

/-- The frame a pass returns. -/
def Outcome.frame : Outcome → Option Frame
  | .done _ f => f
  | .again => none

def Hand.ofFrame : Option Frame → Hand
  | some f => f.hand
  | none => .empty

/-- The format the converter of a context renders to. -/
def Ctx.vulkanFmt (c : Ctx) : Vulkan.Fmt := (toVkFmt c.config.outputFormat).toVulkan

/-- A token that has been dequeued and not queued again. -/
def Out (w : World) (i : Nat) : Prop := i < w.dev.count ∧ i ∉ w.dev.queued

/-- The frame can be released: its token is out, its buffer open, and its output was rendered by the
    converter of the context. -/
structure Releasable (w : World) (f : Frame) : Prop where
  out : Out w f.index
  opened : 0 ≤ f.vdinFd
  rendered : ∀ p ∈ f.priv, w.ctx.vk = true ∧ p.vkFmt = toVkFmt w.ctx.config.outputFormat

/-- A stretch of a call that ends with what the frame stands for in hand, or with nothing. -/
structure Yields (w w' : World) (f : Option Frame) : Prop where
  sane : Sane w'
  frames : w'.frames = w.frames
  config : w'.ctx.config = w.ctx.config
  ready : ∀ g ∈ f, Releasable w' g
  traced : ∃ es, Traced w w' es ∧
    (∀ fresh, ∃ fresh', run Ledger.enter ⟨.empty, fresh⟩ es = some ⟨.ofFrame f, fresh'⟩) ∧
    Marks w.ctx.vulkanFmt es (Hand.ofFrame f).outputs

section pass
variable {w w₁ w' : World} {f : Option Frame} {i : Nat}

theorem vulkanFmt_congr {c c' : Ctx} (h : c'.config = c.config) : c'.vulkanFmt = c.vulkanFmt := by
  rw [Ctx.vulkanFmt, Ctx.vulkanFmt, h]

/-- Without a frame there is nothing to release. -/
theorem none_ready : ∀ g ∈ (none : Option Frame), Releasable w' g :=
  fun g hg => absurd hg (Option.not_mem_none g)

theorem Idles.yields (h : Idles w w') (hw : Sane w) : Yields w w' none := by
  obtain ⟨es, htraced, hno, hrun⟩ := h.traced
  refine ⟨h.sane hw, h.frames, h.config, none_ready, es, htraced, hrun, ?_⟩
  exact marks_others fun e he => isOutput_of_not_transfer (hno e he)

theorem Yields.trans (h : Yields w w₁ none) (h' : Yields w₁ w' f) : Yields w w' f := by
  obtain ⟨es, htraced, hrun, hmarks⟩ := h.traced
  obtain ⟨es', htraced', hrun', hmarks'⟩ := h'.traced
  rw [vulkanFmt_congr h.config] at hmarks'
  refine ⟨h'.sane, h'.frames.trans h.frames, h'.config.trans h.config, h'.ready, es ++ es',
    htraced.append htraced', fun fresh => ?_, hmarks.append hmarks'⟩
  obtain ⟨mid, hmid⟩ := hrun fresh
  obtain ⟨last, hlast⟩ := hrun' mid
  exact ⟨last, run_append hmid hlast⟩

theorem dqbuf_spec (hw : Sane w) (h : dqbuf w i = some w') :
    Sane w' ∧ Out w' i ∧ w'.ctx = w.ctx ∧ w'.frames = w.frames ∧ Traced w w' [.dqbuf i] := by
  unfold dqbuf at h
  split at h
  · next hi =>
    cases h
    refine ⟨⟨hw.nodup.erase i, fun j hj => ?_⟩, ⟨hw.bound i hi, ?_⟩, rfl, rfl, rfl⟩
    · exact hw.bound j (List.mem_of_mem_erase hj)
    · exact fun hmem => ((hw.nodup.mem_erase_iff).mp hmem).1 rfl
  · cases h

theorem qbuf_spec (hw : Sane w) (hi : Out w i) : Sane (qbuf w i none).1 ∧
    (qbuf w i none).1.ctx = w.ctx ∧ (qbuf w i none).1.frames = w.frames ∧
      Traced w (qbuf w i none).1 [.qbuf i true true] := by
  refine ⟨hw.qbuf i none, (qbuf_ctx w i none).1, (qbuf_ctx w i none).2, ?_⟩
  rw [qbuf, if_pos ⟨hi.1, hi.2⟩]
  rfl

theorem giveBack_spec (fd : Int) (hw : Sane w) (hi : Out w i) : Sane (giveBack w fd i none) ∧
    (giveBack w fd i none).ctx = w.ctx ∧ (giveBack w fd i none).frames = w.frames ∧
      Traced w (giveBack w fd i none) [.close fd, .qbuf i true true] := by
  have hclosed : Sane (w.trace (.close fd)) := ⟨hw.nodup, hw.bound⟩
  obtain ⟨hsane, hctx, hframes, htraced⟩ := qbuf_spec hclosed hi
  exact ⟨hsane, hctx, hframes, (traced_trace w _).append htraced⟩

theorem finish_yields {f : Frame} {out : Outcome} (h : Yields w w₁ (some f))
    (hf : finish w₁ f = (w', out)) : Yields w w' out.frame := by
  unfold finish at hf
  split at hf
  · cases hf
    refine ⟨⟨h.sane.nodup, h.sane.bound⟩, h.frames, h.config, fun g hg => ?_, h.traced⟩
    have hready := h.ready g hg
    exact ⟨hready.out, hready.opened, hready.rendered⟩
  · cases hf
    exact h

/-- The conversion of the buffer that has just been dequeued and exported. -/
theorem convert_yields {a : Attempt} {f : Frame} {out : Outcome} (hw : Sane w₁)
    (hi : Out w₁ f.index) (hframes : w₁.frames = w.frames) (hconfig : w₁.ctx.config = w.ctx.config)
    (htraced : Traced w w₁ [.dqbuf f.index, .getDmabuf f.dmabufFd]) (hpriv : f.priv = none)
    (hfd : 0 ≤ f.dmabufFd) (hreq : a.requeue = none) (h : convert w₁ a f = (w', out)) :
    Yields w w' out.frame := by
  have hraw : Yields w w₁ (some f) := by
    refine ⟨hw, hframes, hconfig, ?_, _, htraced, fun fresh => ⟨fresh, ?_⟩, ?_⟩
    · rintro g ⟨⟩
      refine ⟨hi, ?_, ?_⟩
      · rw [Frame.vdinFd, hpriv]
        exact hfd
      · rw [hpriv]
        exact fun p hp => absurd hp (Option.not_mem_none p)
    · simp [run, Ledger.enter, Hand.empty, Hand.ofFrame, Frame.hand, Frame.vdinFd, hpriv]
    · rw [Hand.ofFrame, Frame.hand, hpriv]
      exact marks_others (by simp [Sys.isOutput])
  unfold convert at h
  split at h
  · next hvk =>
    have hvk : w₁.ctx.vk = true := (Bool.and_eq_true_iff.mp hvk).2
    split at h
    · exact finish_yields hraw h
    · next path hpath =>
      rw [hreq] at h
      split at h
      · -- the render failed
        cases h
        have hd : Sane (w₁.diag (.vk path.failText)) := ⟨hw.nodup, hw.bound⟩
        obtain ⟨hsane, hctx, hfr, htr⟩ := giveBack_spec f.dmabufFd hd hi
        refine ⟨hsane, hfr.trans hframes, ?_, none_ready, _, htraced.append htr, fun fresh =>
          ⟨fresh, ?_⟩, marks_others (by simp [Sys.isOutput])⟩
        · rw [hctx]
          exact hconfig
        · simp [run, Ledger.enter, Hand.empty, Hand.ofFrame, Outcome.frame]
      · next out' _ =>
        have hrendered := htraced.append (traced_trace w₁ (.render out'.fd (path.outFd2 out')))
        dsimp only at h
        split at h
        · refine finish_yields (f := convertedFrame w₁.ctx path f out') ?_ h
          refine ⟨⟨hw.nodup, hw.bound⟩, hframes, hconfig, ?_, _, hrendered, fun fresh =>
            ⟨fresh, ?_⟩, Marks.append (marks_others (by simp [Sys.isOutput])) marks_render⟩
          · rintro g ⟨⟩
            refine ⟨hi, hfd, ?_⟩
            rintro p ⟨⟩
            exact ⟨hvk, rfl⟩
          · simp [run, Ledger.enter, Hand.empty, Hand.ofFrame, Frame.hand, Frame.vdinFd,
              convertedFrame]
        · -- no memory for the private part: the output goes back as well
          cases h
          have hd : Sane ((w₁.trace (.render out'.fd (path.outFd2 out'))).trace
              (.releaseOutput out'.fd (path.outFd2 out'))) := ⟨hw.nodup, hw.bound⟩
          obtain ⟨hsane, hctx, hfr, htr⟩ := giveBack_spec f.dmabufFd hd hi
          refine ⟨hsane, hfr.trans hframes, ?_, none_ready, _,
            (hrendered.append (traced_trace _ _)).append htr, fun fresh => ⟨fresh, ?_⟩, ?_⟩
          · rw [hctx]
            exact hconfig
          · simp [run, Ledger.enter, Hand.empty, Hand.ofFrame, Outcome.frame]
          · have htook : Marks w.ctx.vulkanFmt [.dqbuf f.index, .getDmabuf f.dmabufFd] [] :=
              marks_others (by simp [Sys.isOutput])
            exact (htook.append marks_render_release).append (marks_others (by simp [Sys.isOutput]))
  · exact finish_yields hraw h

/-- Decimation writes the accumulator only. -/
theorem decimate_ctx (c : Ctx) (ts : Nat) : ∃ t, (decimate c ts).1 = { c with tsAccum := t } := by
  unfold decimate
  cases c.config.frameInterval with
  | none => exact ⟨c.tsAccum, rfl⟩
  | some interval =>
    dsimp only
    split_ifs
    · exact ⟨c.tsAccum, rfl⟩
    · exact ⟨ts, rfl⟩
    · exact ⟨_, rfl⟩
    · exact ⟨c.tsAccum, rfl⟩
    · exact ⟨_, rfl⟩

/-- The driver accepts what is queued again, and an exported descriptor is a descriptor. -/
structure Attempt.Kind (a : Attempt) : Prop where
  requeue : a.requeue = none
  fd : ∀ fd size, a.dmabuf = .ok (fd, size) → 0 ≤ fd

theorem takeFrame_yields {a : Attempt} {out : Outcome} (hw : Sane w) (ha : a.Kind)
    (h : takeFrame w a = some (w', out)) : Yields w w' out.frame := by
  unfold takeFrame at h
  split at h
  · -- nothing was dequeued
    split at h
    · cases h
      exact (Idles.refl w).yields hw
    split at h
    · cases h
      exact (idles_reportSignalLost w _ _).yields hw
    · cases h
      exact (idles_diag w _).yields hw
  · next b _ =>
    split at h
    · cases h
    next w₁ hdq =>
    obtain ⟨hsane, hi, hctx, hframes, htraced⟩ := dqbuf_spec hw hdq
    split at h
    · -- the export failed: only the token goes back
      next e _ =>
      rw [ha.requeue] at h
      have hd : Sane (w₁.diag (.sys "VFM_CAP_IOC_GET_DMABUF failed" e)) :=
        ⟨hsane.nodup, hsane.bound⟩
      obtain ⟨hsane', hctx', hframes', htraced'⟩ := qbuf_spec hd hi
      have hback : Yields w (qbuf (w₁.diag (.sys "VFM_CAP_IOC_GET_DMABUF failed" e)) b.index
          none).1 none := by
        refine ⟨hsane', hframes'.trans hframes, ?_, none_ready, _, htraced.append htraced',
          fun fresh => ⟨fresh, ?_⟩, marks_others (by simp [Sys.isOutput])⟩
        · rw [hctx', ← hctx]
          rfl
        · simp [run, Ledger.enter, Hand.empty, Hand.ofFrame]
      dsimp only at h
      split at h
      · cases h
        exact hback.trans ((idles_loseSignal _).yields hback.sane)
      · cases h
        exact hback
    · next fd size hdmabuf =>
      have hconfig : (decimate (w₁.trace (.getDmabuf fd)).ctx b.timestampUs).1.config
          = w.ctx.config := by
        obtain ⟨t, hdecimated⟩ := decimate_ctx (w₁.trace (.getDmabuf fd)).ctx b.timestampUs
        rw [hdecimated, ← hctx]
        rfl
      have hexported := htraced.append (traced_trace w₁ (.getDmabuf fd))
      have hset : Sane ((w₁.trace (.getDmabuf fd)).setCtx
          (decimate (w₁.trace (.getDmabuf fd)).ctx b.timestampUs).1) := ⟨hsane.nodup, hsane.bound⟩
      dsimp only at h
      split at h
      · -- the frame is dropped
        cases h
        rw [ha.requeue]
        obtain ⟨hsane', hctx', hframes', htraced'⟩ := giveBack_spec fd hset hi
        refine ⟨hsane', hframes'.trans hframes, ?_, none_ready, _, hexported.append htraced',
          fun fresh => ⟨fresh, ?_⟩, marks_others (by simp [Sys.isOutput])⟩
        · rw [hctx']
          exact hconfig
        · simp [run, Ledger.enter, Hand.empty, Hand.ofFrame, Outcome.frame]
      · rw [Option.some_inj] at h
        exact convert_yields (f := rawFrame w₁ b fd size) hset hi hframes hconfig hexported rfl
          (ha.fd fd size hdmabuf) ha.requeue h

theorem attempt_yields {timeout : Int} {a : Attempt} {out : Outcome} (hw : Sane w) (ha : a.Kind)
    (h : attempt w timeout a = some (w', out)) : Yields w w' out.frame := by
  unfold attempt at h
  split at h
  · cases h
  · next r hsignal =>
    cases h
    exact (idles_waitSignal hsignal).1.yields hw
  · next w₁ hsignal =>
    have hwaited := (idles_waitSignal hsignal).1.yields hw
    split at h
    · cases h
    · next r hframe =>
      cases h
      exact hwaited.trans ((idles_waitFrame hframe).1.yields hwaited.sane)
    · next w₂ hframe =>
      have hboth := hwaited.trans ((idles_waitFrame hframe).1.yields hwaited.sane)
      exact hboth.trans (takeFrame_yields hboth.sane ha h)

/-- Passes that drop their frame leave nothing behind, so the last one decides. -/
theorem attempts_yields {timeout : Int} : ∀ {as : List Attempt} {w w' : World} {r : Ret}
    {f : Option Frame}, Sane w → (∀ a ∈ as, a.Kind) → attempts timeout w as = some (w', r, f) →
      Yields w w' f
  | [], _, _, _, _, _, _, h => by cases h
  | a :: as, w, w', r, f, hw, hkind, h => by
    rw [attempts] at h
    split at h
    · cases h
    · next hatt =>
      cases h
      exact attempt_yields hw (hkind a List.mem_cons_self) hatt
    · next hatt =>
      have hdropped := attempt_yields hw (hkind a List.mem_cons_self) hatt
      exact hdropped.trans
        (attempts_yields hdropped.sane (fun b hb => hkind b (List.mem_cons_of_mem _ hb)) h)

theorem acquireFrame_yields {timeout : Int} {env : List Attempt} {r : Ret} (hw : Sane w)
    (hkind : ∀ a ∈ env, a.Kind) (h : acquireFrame w timeout env = some (w', r, f)) :
    Yields w w' f := by
  unfold acquireFrame at h
  split at h
  · exact attempts_yields hw hkind h
  · cases h
    exact (idles_diag w _).yields hw

/-! ### Frames and return codes -/

/-- The call returned a frame. -/
def Succeeds (r : Ret) : Prop := r = .ok ∨ r = .reconfigured

/-- A result is a frame exactly if the code says so. -/
def Outcome.Consistent : Outcome → Prop
  | .done r f => f.isSome ↔ Succeeds r
  | .again => True

theorem finish_consistent {f : Frame} {out : Outcome} (h : finish w f = (w', out)) :
    out.Consistent := by
  unfold finish at h
  split at h
  · cases h
    exact iff_of_true rfl (.inr rfl)
  · cases h
    exact iff_of_true rfl (.inl rfl)

theorem convert_consistent {a : Attempt} {f : Frame} {out : Outcome}
    (h : convert w a f = (w', out)) : out.Consistent := by
  unfold convert at h
  split at h
  · split at h
    · exact finish_consistent h
    split at h
    · cases h
      simp [Outcome.Consistent, Succeeds]
    · dsimp only at h
      split at h
      · exact finish_consistent h
      · cases h
        simp [Outcome.Consistent, Succeeds]
  · exact finish_consistent h

theorem takeFrame_consistent {a : Attempt} {out : Outcome} (h : takeFrame w a = some (w', out)) :
    out.Consistent := by
  unfold takeFrame at h
  split at h
  · split_ifs at h <;> cases h <;> simp [Outcome.Consistent, Succeeds]
  · split at h
    · cases h
    split at h
    · dsimp only at h
      split_ifs at h <;> cases h <;> simp [Outcome.Consistent, Succeeds]
    · dsimp only at h
      split at h
      · cases h
        trivial
      · exact convert_consistent (Option.some_inj.mp h)

theorem consistent_of_failed {r : Ret} (h : Failed (some r)) :
    Outcome.Consistent (.done r none) := by
  obtain ⟨hok, hre⟩ := h r rfl
  simp [Outcome.Consistent, Succeeds, hok, hre]

theorem attempt_consistent {timeout : Int} {a : Attempt} {out : Outcome}
    (h : attempt w timeout a = some (w', out)) : out.Consistent := by
  unfold attempt at h
  split at h
  · cases h
  · next r hsignal =>
    cases h
    exact consistent_of_failed (idles_waitSignal hsignal).2
  · split at h
    · cases h
    · next r hframe =>
      cases h
      exact consistent_of_failed (idles_waitFrame hframe).2
    · exact takeFrame_consistent h

theorem attempts_consistent {timeout : Int} : ∀ {as : List Attempt} {w w' : World} {r : Ret}
    {f : Option Frame}, attempts timeout w as = some (w', r, f) → (f.isSome ↔ Succeeds r)
  | [], _, _, _, _, h => by cases h
  | a :: as, w, w', r, f, h => by
    rw [attempts] at h
    split at h
    · cases h
    · next hatt =>
      cases h
      exact attempt_consistent hatt
    · exact attempts_consistent h

theorem acquireFrame_consistent {timeout : Int} {env : List Attempt} {r : Ret}
    (h : acquireFrame w timeout env = some (w', r, f)) : f.isSome ↔ Succeeds r := by
  unfold acquireFrame at h
  split at h
  · exact attempts_consistent h
  · cases h
    simp [Succeeds]

/-! ### Release -/

/-- Entries that are neither renders, releases nor replacements of the pools change nothing. -/
theorem poolMoves_still {fmt : Vulkan.Fmt} {t : Vulkan.Pools} : ∀ {es : List Sys}
    {s : Vulkan.Pools}, (∀ e ∈ es, e.isOutput = false ∧ ∀ ok, e ≠ .reconfigPools ok) →
    PoolMoves fmt s es t → t = s
  | [], _, _, h => by
    cases h
    rfl
  | e :: es, s, hes, h => by
    cases h with
    | cons hmove hrest =>
      obtain ⟨hout, hre⟩ := hes e List.mem_cons_self
      have ih := poolMoves_still (fun e' he' => hes e' (List.mem_cons_of_mem _ he')) hrest
      cases hmove with
      | render => cases hout
      | release => cases hout
      | reconfig pools ok => exact absurd rfl (hre ok)
      | other => exact ih

/-- What vfmcap_release_frame does with a frame. -/
def Frame.releaseTrace (f : Frame) : List Sys :=
  match f.priv with
  | some p => [.releaseOutput p.outYFd p.outUvFd, .close p.vdinFd, .qbuf f.index true true]
  | none => [.close f.dmabufFd, .qbuf f.index true true]

theorem releaseFrame_traced {g : Frame} (h : Releasable w g) :
    Traced w (releaseFrame w g none) g.releaseTrace := by
  have hopen := h.opened
  cases hpriv : g.priv with
  | none =>
    rw [Frame.vdinFd, hpriv] at hopen
    simp only [releaseFrame, hpriv, ge_iff_le, if_pos hopen, qbuf]
    rw [if_pos ⟨h.out.1, h.out.2⟩, Frame.releaseTrace, hpriv]
    rfl
  | some p =>
    rw [Frame.vdinFd, hpriv] at hopen
    obtain ⟨hvk, -⟩ := h.rendered p (by rw [hpriv]; rfl)
    simp only [releaseFrame, hpriv, hvk, ge_iff_le, if_pos hopen, if_true, qbuf]
    rw [if_pos ⟨h.out.1, h.out.2⟩, Frame.releaseTrace, hpriv]
    rfl

/-- Releasing a frame strikes out what it stands for. -/
theorem releaseTrace_empties (g : Frame) (fresh : List Nat) :
    run Ledger.enter ⟨g.hand, fresh⟩ g.releaseTrace = some ⟨.empty, fresh⟩ := by
  cases hpriv : g.priv <;>
    simp [run, Ledger.enter, Frame.releaseTrace, Frame.hand, Frame.vdinFd, hpriv, Hand.empty]

/-- It unmarks the entries of its output. -/
theorem releaseTrace_unmarks {fmt : Vulkan.Fmt} {es : List Sys} {g : Frame}
    (h : Marks fmt es g.hand.outputs) : Marks fmt (es ++ g.releaseTrace) [] := by
  intro s u hk hmoves
  obtain ⟨t, hes, hrel⟩ := poolMoves_append hmoves
  obtain ⟨hkt, base, slots, hbase, hused, hfresh, hmarked⟩ := h s t hk hes
  cases hpriv : g.priv with
  | none =>
    rw [Frame.releaseTrace, hpriv] at hrel
    obtain rfl := poolMoves_still (by simp [Sys.isOutput]) hrel
    have hslots : slots = [] := by simpa [Frame.hand, hpriv, MarkedFor] using hmarked
    subst hslots
    exact ⟨hkt, base, [], hbase, hused, hfresh, rfl⟩
  | some p =>
    have houts : g.hand.outputs = [(p.outYFd, p.outUvFd)] := by simp [Frame.hand, hpriv]
    rw [houts] at hmarked
    rw [Frame.releaseTrace, hpriv] at hrel
    cases hrel with
    | cons hmove hrest =>
      obtain rfl := poolMoves_still (by simp [Sys.isOutput]) hrest
      generalize p.outYFd = y at hmove hmarked
      generalize p.outUvFd = uv at hmove hmarked
      cases hmove with
      | other pools e _ hno => exact absurd rfl (hno _ _)
      | release pools o hfmt =>
        rw [← hfmt] at hmarked
        refine ⟨Vulkan.sameKeys_releaseFrame.keyed hkt, base, [], hbase, fun e => ?_, nofun, rfl⟩
        rw [inUse_release hkt hused hfresh hmarked]
        simp

end pass

/-! ### Runs

    The queue stays in order through every call, also where the driver refuses a token. -/

section runs
variable {w w' : World}

theorem Sane.setCtx (hw : Sane w) (c : Ctx) : Sane (w.setCtx c) := ⟨hw.nodup, hw.bound⟩

theorem Sane.trace (hw : Sane w) (e : Sys) : Sane (w.trace e) := ⟨hw.nodup, hw.bound⟩

theorem Sane.giveBack (hw : Sane w) (fd : Int) (i : Nat) (answer : Option Errno) :
    Sane (giveBack w fd i answer) := (hw.trace (.close fd)).qbuf i answer

theorem finish_sane {f : Frame} (hw : Sane w) : Sane (finish w f).1 := by
  unfold finish
  split
  · exact hw.setCtx _
  · exact hw

theorem convert_sane {a : Attempt} {f : Frame} {out : Outcome} (hw : Sane w)
    (h : convert w a f = (w', out)) : Sane w' := by
  rw [show w' = (convert w a f).1 from (congrArg Prod.fst h).symm]
  unfold convert
  split
  · split
    · exact finish_sane hw
    split
    · exact (hw.setCtx _).giveBack _ _ _
    · dsimp only
      split
      · exact finish_sane (hw.trace _)
      · exact ((hw.trace _).trace _).giveBack _ _ _
  · exact finish_sane hw

theorem takeFrame_sane {a : Attempt} {out : Outcome} (hw : Sane w)
    (h : takeFrame w a = some (w', out)) : Sane w' := by
  unfold takeFrame at h
  split at h
  · split at h
    · cases h
      exact hw
    split at h
    · cases h
      exact (idles_reportSignalLost w _ _).sane hw
    · cases h
      exact hw.setCtx _
  · split at h
    · cases h
    next hdq =>
    have hdq := (dqbuf_spec hw hdq).1
    split at h
    · have hback := fun d i answer => (hdq.setCtx d).qbuf i answer
      dsimp only at h
      split at h
      · cases h
        exact (idles_loseSignal _).sane (hback _ _ _)
      · cases h
        exact hback _ _ _
    · dsimp only at h
      split at h
      · cases h
        exact ((hdq.trace _).setCtx _).giveBack _ _ _
      · rw [Option.some_inj] at h
        exact convert_sane ((hdq.trace _).setCtx _) h

theorem attempts_sane {timeout : Int} : ∀ {as : List Attempt} {w w' : World} {r : Ret}
    {f : Option Frame}, Sane w → attempts timeout w as = some (w', r, f) → Sane w'
  | [], _, _, _, _, _, h => by cases h
  | a :: as, w, w', r, f, hw, h => by
    have hatt : ∀ {w₁ : World} {out : Outcome}, attempt w timeout a = some (w₁, out) → Sane w₁ := by
      intro w₁ out hatt
      unfold attempt at hatt
      split at hatt
      · cases hatt
      · next hsignal =>
        cases hatt
        exact (idles_waitSignal hsignal).1.sane hw
      · next hsignal =>
        have hwaited := (idles_waitSignal hsignal).1.sane hw
        split at hatt
        · cases hatt
        · next hframe =>
          cases hatt
          exact (idles_waitFrame hframe).1.sane hwaited
        · next hframe => exact takeFrame_sane ((idles_waitFrame hframe).1.sane hwaited) hatt
    rw [attempts] at h
    split at h
    · cases h
    · next heq =>
      cases h
      exact hatt heq
    · next heq => exact attempts_sane (hatt heq) h

theorem releaseFrame_sane {f : Frame} {answer : Option Errno} (hw : Sane w) :
    Sane (releaseFrame w f answer) := by
  unfold releaseFrame
  refine Sane.qbuf ?_ _ _
  cases f.priv with
  | none =>
    dsimp only
    split
    · exact hw.trace _
    · exact hw
  | some p =>
    dsimp only
    split
    · split
      · exact (hw.trace _).trace _
      · exact hw.trace _
    · split
      · exact hw.trace _
      · exact hw

theorem step_sane {c : Call} (hw : Sane w) (h : step w c = some w') : Sane w' := by
  cases c with
  | start n env =>
    obtain ⟨⟨w₁, r⟩, hstart, rfl⟩ := Option.map_eq_some_iff.mp h
    exact (idles_start hstart).sane hw
  | stop env =>
    cases h
    exact (idles_stop w env).sane hw
  | acquire timeout env =>
    obtain ⟨⟨w₁, r, f⟩, hacq, rfl⟩ := Option.map_eq_some_iff.mp h
    have hsane : Sane w₁ := by
      unfold acquireFrame at hacq
      split at hacq
      · exact attempts_sane hw hacq
      · cases hacq
        exact hw.setCtx _
    exact ⟨hsane.nodup, hsane.bound⟩
  | release k answer =>
    obtain ⟨f, hf, rfl⟩ := Option.map_eq_some_iff.mp h
    have herased : Sane { w with frames := w.frames.eraseIdx k } := ⟨hw.nodup, hw.bound⟩
    exact releaseFrame_sane herased
  | pollEvent timeout env =>
    cases h
    exact (idles_pollEvent w timeout env).sane hw
  | emit e =>
    cases h
    exact ⟨hw.nodup, hw.bound⟩

theorem run_sane {cfg : Config} {fmt : Option Fmt} {events : List Event} {calls : List Call}
    (h : run step (openWorld cfg fmt events) calls = some w) : Sane w :=
  run_preserves (fun _ _ _ hs hstep => step_sane hs hstep) h ⟨List.nodup_nil, nofun⟩

/-- For every started context and every answer of the device, the converter and the allocator: a
    call that returns an error has given back, once each, all it took, and left no entry of an
    output pool marked. A call that returns a frame has in hand what the frame stands for, and
    releasing the frame gives just that back. -/
theorem acquire_release_neutral {cfg : Config} {fmt : Option Fmt} {events : List Event}
    {calls : List Call} {timeout : Int} {env : List Attempt} {r : Ret} {f : Option Frame}
    (hrun : run step (openWorld cfg fmt events) calls = some w) (_ : w.ctx.streaming = true)
    (hkind : ∀ a ∈ env, a.Kind) (hacq : acquireFrame w timeout env = some (w', r, f)) :
    ∃ es, Traced w w' es ∧
      (r ≠ .ok → r ≠ .reconfigured → f = none ∧
        (∃ fresh, run Ledger.enter ⟨.empty, []⟩ es = some ⟨.empty, fresh⟩) ∧
        Marks w.ctx.vulkanFmt es []) ∧
      (r = .ok ∨ r = .reconfigured → ∃ g, f = some g ∧
        (∃ fresh, run Ledger.enter ⟨.empty, []⟩ es = some ⟨g.hand, fresh⟩) ∧
        Marks w.ctx.vulkanFmt es g.hand.outputs ∧
        Traced w' (releaseFrame w' g none) g.releaseTrace ∧
        (∀ fresh, run Ledger.enter ⟨g.hand, fresh⟩ g.releaseTrace = some ⟨.empty, fresh⟩) ∧
        Marks w.ctx.vulkanFmt (es ++ g.releaseTrace) []) := by
  have hyields := acquireFrame_yields (run_sane hrun) hkind hacq
  have hcons := acquireFrame_consistent hacq
  obtain ⟨es, htraced, hledger, hmarks⟩ := hyields.traced
  refine ⟨es, htraced, fun hok hre => ?_, fun hr => ?_⟩
  · cases f with
    | none => exact ⟨rfl, hledger [], hmarks⟩
    | some g =>
      rcases hcons.mp rfl with h | h
      · exact absurd h hok
      · exact absurd h hre
  · obtain ⟨g, rfl⟩ := Option.isSome_iff_exists.mp (hcons.mpr hr)
    exact ⟨g, rfl, hledger [], hmarks, releaseFrame_traced (hyields.ready g rfl),
      releaseTrace_empties g, releaseTrace_unmarks hmarks⟩

/-- NV12 output at 30 frames per second. -/
def nv12Config : Config := ⟨.nv12, 0, 0, some 33333⟩

def fmt1080 : Fmt := ⟨1920, 1080, pixNv12, 1920, 3110400⟩

/-- The context is started and has returned a first frame. -/
def startedNv12 : List Call :=
  [.start 4 { plainStart with gfmt := some fmt1080 },
    .acquire 0 [{ takeToken 0 with render := some ⟨19, -1, 0⟩ }]]

/-- Token 1 comes too early and is dropped, token 2 is rendered. -/
def dropThenRender : List Attempt :=
  [{ takeToken 1 with dqbuf := .ok ⟨1, 1, 1000⟩ },
    { takeToken 2 with dqbuf := .ok ⟨2, 2, 34000⟩, render := some ⟨20, -1, 0⟩ }]

theorem dropThenRender_kind : ∀ a ∈ dropThenRender, a.Kind := by
  intro a ha
  have hfd : ∀ fd size, (.ok (10, 100) : Except Errno (Int × Nat)) = .ok (fd, size) → 0 ≤ fd := by
    rintro fd size ⟨⟩
    decide
  rcases List.mem_cons.mp ha with rfl | ha
  · exact ⟨rfl, hfd⟩
  · rw [List.mem_singleton.mp ha]
    exact ⟨rfl, hfd⟩

theorem acquire_release_neutral_dropThenRender : ∃ w w' g,
    run step (openWorld nv12Config none []) startedNv12 = some w ∧
    acquireFrame w 0 dropThenRender = some (w', .ok, some g) ∧
    g.hand = ⟨[2], [10], [(20, -1)]⟩ ∧
    ∃ es, Traced w w' es ∧
      (∃ fresh, run Ledger.enter ⟨.empty, []⟩ es = some ⟨g.hand, fresh⟩) ∧
      Marks w.ctx.vulkanFmt (es ++ g.releaseTrace) [] := by
  obtain ⟨es, htraced, -, hok⟩ := acquire_release_neutral
    (show run step (openWorld nv12Config none []) startedNv12 = some _ from rfl) rfl
    dropThenRender_kind (show acquireFrame _ 0 dropThenRender = some _ from rfl)
  obtain ⟨g, hg, hledger, -, -, -, hmarks⟩ := hok (.inl rfl)
  cases hg
  exact ⟨_, _, _, rfl, rfl, rfl, es, htraced, hledger, hmarks⟩

end runs

end Streambox.Vfmcap
