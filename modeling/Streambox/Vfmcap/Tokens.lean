import Streambox.Vfmcap.Calls
import Mathlib.Data.List.Perm.Basic

/-! Conservation of V4L2 buffer tokens.

    A token of the current allocation is queued in the device, in the hands of the call that just
    dequeued it, or held by a frame the caller has not released. `Tokens w hand` says that these
    places do not overlap, that they hold only tokens of the allocation, and that no `QBUF` so far
    named a token that was queued or not allocated; as long as the driver has accepted every `QBUF`
    and has taken the tokens back whenever it was told to, they also hold every token. Each call
    keeps it with nothing left in hand, with one exception: a frame released after the allocation
    its token came from is gone queues that token number in the new allocation. -/

namespace Streambox.Vfmcap
open Streambox.Lib

/-- Tokens of the current allocation held by frames that are not released. -/
def held (w : World) : List Nat :=
  (w.frames.filter fun f => f.gen = w.dev.gen).map Frame.index

/-- Every place a token can be. -/
def places (w : World) (hand : List Nat) : List Nat := w.dev.queued ++ hand ++ held w

/-- No `QBUF` named a token that was queued or not allocated. -/
def QbufLegal (log : List Sys) : Prop := ∀ i accepted, Sys.qbuf i false accepted ∉ log

/-- The driver accepted every `QBUF`. -/
def QbufAccepted (log : List Sys) : Prop := ∀ i legal, Sys.qbuf i legal false ∉ log

/-- The driver took the tokens back at every `REQBUFS` with count zero. -/
def BuffersReturned (log : List Sys) : Prop := Sys.freebufs false ∉ log

/-- Nothing the driver does can have cost a token. -/
def NoneLost (log : List Sys) : Prop := QbufAccepted log ∧ BuffersReturned log

structure Tokens (w : World) (hand : List Nat) : Prop where
  legal : QbufLegal w.log
  bound : ∀ i ∈ places w hand, i < w.dev.count
  nodup : (places w hand).Nodup
  cover : NoneLost w.log → ∀ i < w.dev.count, i ∈ places w hand
  gens : ∀ f ∈ w.frames, f.gen ≤ w.dev.gen

/-- The trace entries `Tokens` reads. -/
def Sys.isToken : Sys → Bool
  | .qbuf .. | .freebufs .. => true
  | _ => false

theorem NoneLost.tail {log : List Sys} {e : Sys} (h : NoneLost (e :: log)) : NoneLost log :=
  ⟨fun j l hm => h.1 j l (List.mem_cons_of_mem _ hm), fun hm => h.2 (List.mem_cons_of_mem _ hm)⟩

section primitives
variable {w w' : World} {hand : List Nat} {i : Nat}

theorem Tokens.setCtx (h : Tokens w hand) (c : Ctx) : Tokens (w.setCtx c) hand :=
  ⟨h.legal, h.bound, h.nodup, h.cover, h.gens⟩

theorem Tokens.diag (h : Tokens w hand) (d : Diag) : Tokens (w.diag d) hand := h.setCtx _

/-- Anything but a `QBUF` may be traced. -/
theorem Tokens.traceOther (h : Tokens w hand) {e : Sys} (he : ∀ i l a, e ≠ .qbuf i l a) :
    Tokens (w.trace e) hand := by
  refine ⟨fun j a hm => ?_, h.bound, h.nodup, fun hnone => h.cover hnone.tail, h.gens⟩
  rcases List.mem_cons.mp hm with heq | hm
  · exact he j false a heq.symm
  · exact h.legal j a hm

theorem Tokens.trace (h : Tokens w hand) {e : Sys} (he : e.isToken = false) :
    Tokens (w.trace e) hand := by
  refine h.traceOther fun i l a heq => ?_
  rw [heq] at he
  cases he

theorem Tokens.loseSignal (h : Tokens w hand) : Tokens w.loseSignal hand := by
  unfold World.loseSignal
  split
  · exact h.setCtx _
  · exact (h.setCtx { w.ctx with signalLost := true }).trace rfl

theorem Tokens.events (h : Tokens w hand) (ev : List Event) :
    Tokens { w with dev := { w.dev with events := ev } } hand :=
  ⟨h.legal, h.bound, h.nodup, h.cover, h.gens⟩

/-- The order in which the tokens in hand are listed does not matter. -/
theorem Tokens.perm {hand' : List Nat} (h : Tokens w hand) (hp : hand.Perm hand') :
    Tokens w hand' := by
  have hplaces : (places w hand).Perm (places w hand') :=
    List.Perm.append_right _ (List.Perm.append_left _ hp)
  exact ⟨h.legal, fun j hj => h.bound j (hplaces.mem_iff.mpr hj), hplaces.nodup h.nodup,
    fun hacc j hj => hplaces.mem_iff.mp (h.cover hacc j hj), h.gens⟩

/-- After a refusal tokens in hand may be forgotten. -/
theorem Tokens.forget {r : List Nat} (h : Tokens w (r ++ hand)) (href : ¬ NoneLost w.log) :
    Tokens w hand := by
  have hsub : (places w hand).Sublist (places w (r ++ hand)) :=
    List.Sublist.append_right (List.Sublist.append_left (List.sublist_append_right _ _) _) _
  exact ⟨h.legal, fun k hk => h.bound k (hsub.subset hk), h.nodup.sublist hsub,
    fun hnone => absurd hnone href, h.gens⟩

theorem not_noneLost_qbuf {log : List Sys} {j : Nat} {legal : Bool} :
    ¬ NoneLost (.qbuf j legal false :: log) :=
  fun hnone => hnone.1 j legal (List.mem_cons_self ..)

/-- Queueing a token in hand is legal, and it leaves the hand. -/
theorem Tokens.qbuf (h : Tokens w (i :: hand)) (answer : Option Errno) :
    Tokens (qbuf w i answer).1 hand := by
  have hmem : i ∈ places w (i :: hand) := by simp [places]
  have hcount := h.bound i hmem
  have hqueued : i ∉ w.dev.queued := by
    intro hq
    have hdisj := (List.nodup_append.mp (List.nodup_append.mp h.nodup).1).2.2
    exact hdisj i hq i (List.mem_cons_self ..) rfl
  unfold Vfmcap.qbuf
  rw [if_pos ⟨hcount, hqueued⟩]
  cases answer with
  | none =>
    -- the same places, with `i` moved from the hand to the queue
    have hplaces : (w.dev.queued ++ [i] ++ hand ++ held w) = places w (i :: hand) := by
      simp [places]
    refine ⟨fun j a hm => ?_, fun j hj => h.bound j ?_, ?_, fun hacc j hj => ?_, h.gens⟩
    · rcases List.mem_cons.mp hm with heq | hm
      · cases heq
      · exact h.legal j a hm
    · rw [← hplaces]; exact hj
    · have := h.nodup; rw [← hplaces] at this; exact this
    · have := h.cover hacc.tail j hj
      rw [← hplaces] at this; exact this
  | some e =>
    have htrace : Tokens (w.trace (.qbuf i true false)) (i :: hand) := by
      refine ⟨fun j a hm => ?_, h.bound, h.nodup, fun hacc => ?_, h.gens⟩
      · rcases List.mem_cons.mp hm with heq | hm
        · cases heq
        · exact h.legal j a hm
      · exact absurd hacc not_noneLost_qbuf
    exact htrace.forget (r := [i]) not_noneLost_qbuf

/-- Dequeueing puts a token in hand. -/
theorem Tokens.dqbuf (h : Tokens w hand) (hdq : dqbuf w i = some w') : Tokens w' (i :: hand) := by
  unfold Vfmcap.dqbuf at hdq
  split at hdq
  · rename_i hq
    cases hdq
    have hplaces : (w.dev.queued.erase i ++ i :: hand ++ held w).Perm (places w hand) := by
      rw [places, List.append_cons]
      refine List.Perm.append_right _ (List.Perm.append_right _ ?_)
      exact (List.perm_append_singleton _ _).trans (List.perm_cons_erase hq).symm
    have hbase : Tokens { w with dev := { w.dev with queued := w.dev.queued.erase i } }
        (i :: hand) :=
      ⟨h.legal, fun j hj => h.bound j (hplaces.mem_iff.mp hj), hplaces.symm.nodup h.nodup,
        fun hacc j hj => hplaces.mem_iff.mpr (h.cover hacc j hj), h.gens⟩
    exact hbase.trace rfl
  · cases hdq

/-- No frame is of an allocation that has only just been made. -/
theorem held_allocate (hg : ∀ f ∈ w.frames, f.gen ≤ w.dev.gen) (n : Nat) :
    held (w.allocate n) = [] := by
  rw [held, List.map_eq_nil_iff, List.filter_eq_nil_iff]
  intro f hf
  have hle := hg f hf
  show ¬ decide (f.gen = w.dev.gen + 1) = true
  rw [decide_eq_true_eq]
  omega

/-- A new allocation of `n` tokens starts with all of them in hand. -/
theorem Tokens.allocate (h : Tokens w hand) (n : Nat) :
    Tokens (w.allocate n) (List.range n) := by
  have hplaces : places (w.allocate n) (List.range n) = List.range n := by
    rw [places, held_allocate h.gens]
    simp [World.allocate]
  refine ⟨h.legal, ?_, ?_, fun _ => ?_, fun f hf => ?_⟩
  · rw [hplaces]; exact fun j hj => List.mem_range.mp hj
  · rw [hplaces]; exact List.nodup_range
  · rw [hplaces]; exact fun j hj => List.mem_range.mpr hj
  · exact Nat.le_succ_of_le (h.gens f hf)

/-- A `STREAMOFF` leaves the queued tokens in hand. -/
theorem Tokens.streamoff (h : Tokens w hand) (answer : Option Errno) :
    ∃ hand', Tokens (streamoff w answer) hand' := by
  cases answer with
  | none =>
    have hplaces : [] ++ (w.dev.queued ++ hand) ++ held w = places w hand := by
      rw [List.nil_append, places]
    have hoff : Tokens { w with dev := { w.dev with queued := [] } } (w.dev.queued ++ hand) := by
      refine ⟨h.legal, fun j hj => h.bound j ?_, ?_, fun hnone j hj => ?_, h.gens⟩
      · rw [← hplaces]; exact hj
      · have := h.nodup; rw [← hplaces] at this; exact this
      · have := h.cover hnone j hj; rw [← hplaces] at this; exact this
    exact ⟨_, hoff.trace rfl⟩
  | some e => exact ⟨_, h.trace rfl⟩

theorem Tokens.freebufs (h : Tokens w hand) (answer : Option Errno) :
    Tokens (freebufs w answer) [] := by
  cases answer with
  | none => exact (h.allocate 0).traceOther (by intros; simp)
  | some e =>
    have htrace : Tokens (w.trace (.freebufs false)) (hand ++ []) := by
      rw [List.append_nil]
      exact h.traceOther (by intros; simp)
    exact htrace.forget fun hnone => hnone.2 (List.mem_cons_self ..)

theorem Tokens.freeBuffers (h : Tokens w hand) (env : FreeEnv) : Tokens (freeBuffers w env) [] := by
  obtain ⟨hand', hoff⟩ := h.streamoff env.streamoff
  exact hoff.freebufs env.reqbufs

theorem Tokens.reqbufs_ok (h : Tokens w hand) {asked n : Nat} {answer : ReqbufsRet}
    (hr : reqbufs w asked answer = (w', .ok n)) : Tokens w' (List.range n) := by
  cases answer with
  | granted k =>
    cases hr
    exact (h.allocate n).trace rfl
  | failed e freed =>
    cases freed
    · cases hr
    · cases hr

theorem Tokens.reqbufs_error (h : Tokens w []) {asked : Nat} {e : Errno} {answer : ReqbufsRet}
    (hr : reqbufs w asked answer = (w', .error e)) : Tokens w' [] := by
  cases answer with
  | granted k => cases hr
  | failed e' freed =>
    cases freed
    · cases hr; exact h
    · cases hr
      exact (h.allocate 0).trace rfl

/-- Queueing all tokens in hand empties the hand, also when the driver refuses one. -/
theorem Tokens.qbufAll {answer : Nat → Option Errno} : ∀ {L : List Nat} {w w' : World}
    {r : Option (Nat × Errno)}, Tokens w L → qbufAll answer w L = (w', r) → Tokens w' []
  | [], _, _, _, h, hq => by
    cases hq
    exact h
  | i :: L, w, w', r, h, hq => by
    have hone := h.qbuf (answer i)
    unfold Vfmcap.qbufAll at hq
    split at hq
    · rename_i w₁ heq
      rw [heq] at hone
      exact Tokens.qbufAll hone hq
    · rename_i w₁ e heq
      rw [heq] at hone
      have href : ¬ NoneLost w₁.log := by
        unfold Vfmcap.qbuf at heq
        split at heq
        · split at heq
          · cases heq
          · cases heq; exact not_noneLost_qbuf
        · cases heq; exact not_noneLost_qbuf
      cases hq
      rw [← List.append_nil L] at hone
      exact hone.forget href

/-! ### Events -/

theorem Tokens.dqevent (h : Tokens w hand) {by_ : Entry} {s : DqStep} {r : Option Event}
    (hd : dqevent w by_ s = (w', r)) : Tokens w' hand := by
  unfold Vfmcap.dqevent at hd
  split at hd
  · cases hd; exact h.events _
  · split at hd
    · cases hd; exact h.events _
    · cases hd; exact (h.events _).trace rfl

theorem Tokens.drainToSourceChange {by_ : Entry} : ∀ {steps : List DqStep} {w w' : World}
    {found : Bool}, Tokens w hand → drainToSourceChange by_ w steps = some (w', found) →
    Tokens w' hand
  | [], _, _, _, _, hd => by cases hd
  | s :: steps, w, w', found, h, hd => by
    unfold Vfmcap.drainToSourceChange at hd
    split at hd
    · rename_i heq; cases hd; exact h.dqevent heq
    · rename_i heq; cases hd; exact h.dqevent heq
    · rename_i heq; exact Tokens.drainToSourceChange (h.dqevent heq) hd

theorem Tokens.drainAll {by_ : Entry} : ∀ {steps : List DqStep} {w w' : World},
    Tokens w hand → drainAll by_ w steps = some w' → Tokens w' hand
  | [], _, _, _, hd => by cases hd
  | s :: steps, w, w', h, hd => by
    unfold Vfmcap.drainAll at hd
    split at hd
    · rename_i heq; cases hd; exact h.dqevent heq
    · rename_i heq; exact Tokens.drainAll (h.dqevent heq) hd

end primitives

/-! ### The calls -/

section calls
variable {w w' : World}

theorem Tokens.doReconfig (h : Tokens w []) (env : ReconfigEnv) :
    Tokens (doReconfig w env).1 [] := by
  have hfree := (h.trace (e := .doReconfig w.ctx.signalLost) rfl).freeBuffers env.free
  unfold Vfmcap.doReconfig
  dsimp only
  split
  · rename_i heq
    exact ((hfree.setCtx _).reqbufs_error heq).diag _
  · rename_i heq
    have hall := ((hfree.setCtx _).reqbufs_ok heq).setCtx
    split
    · rename_i hq
      exact (Tokens.qbufAll (hall _) hq).diag _
    · rename_i hq
      have hqueued := Tokens.qbufAll (hall _) hq
      split
      · exact hqueued.diag _
      · split
        · exact ((hqueued.trace rfl).trace rfl).setCtx _
        · exact (hqueued.trace rfl).setCtx _

theorem Tokens.startVulkan (h : Tokens w []) (env : StartEnv) :
    Tokens (startVulkan w env).1 [] := by
  have hstarted := (h.setCtx { w.ctx with streaming := true, signalLost := false }).trace
    (e := .started) rfl
  unfold Vfmcap.startVulkan
  dsimp only
  split
  · split
    · exact hstarted.setCtx _
    · exact hstarted.diag _
  · exact hstarted

theorem Tokens.start (h : Tokens w []) {n : Nat} {env : StartEnv} {r : Ret}
    (hs : start w n env = some (w', r)) : Tokens w' [] := by
  unfold Vfmcap.start at hs
  split at hs
  · cases hs; exact h
  · dsimp only at hs
    split at hs
    · cases hs; exact h.diag _
    · have hfmt : Tokens (readFmt w env.gfmt) [] := by
        cases env.gfmt with
        | none => exact h
        | some f => exact h.setCtx _
      split at hs
      · cases hs
      · rename_i hdrain
        have hdrained := Tokens.drainAll hfmt hdrain
        split at hs
        · rename_i hreq
          cases hs
          exact (hdrained.reqbufs_error hreq).diag _
        · rename_i hreq
          have hall := (hdrained.reqbufs_ok hreq).setCtx
          split at hs
          · rename_i hq
            cases hs
            exact (Tokens.qbufAll (hall _) hq).diag _
          · rename_i hq
            have hqueued := Tokens.qbufAll (hall _) hq
            split at hs
            · cases hs; exact hqueued.diag _
            · rw [Option.some_inj] at hs
              have hvk := (hqueued.trace (e := .streamon) rfl).startVulkan env
              rw [hs] at hvk
              exact hvk

theorem Tokens.stop (h : Tokens w []) (env : FreeEnv) : Tokens (stop w env) [] := by
  unfold Vfmcap.stop
  split
  · exact (h.freeBuffers env).setCtx _
  · exact h

theorem Tokens.restoreSignal (h : Tokens w []) (env : RestoreEnv) :
    Tokens (restoreSignal w env) [] := by
  unfold Vfmcap.restoreSignal
  dsimp only
  refine Tokens.setCtx (Tokens.doReconfig ?_ _) _
  split
  · exact (h.setCtx _).setCtx _
  · exact h.setCtx _

theorem Tokens.recoverSignal {timeout : Int} : ∀ {passes : List RecoverPass} {w w' : World}
    {r : Option Ret}, Tokens w [] → recoverSignal timeout w passes = some (w', r) → Tokens w' []
  | [], _, _, _, _, hr => by cases hr
  | p :: passes, w, w', r, h, hr => by
    have hpoll : Tokens (w.trace (.poll (if timeout > 0 then timeout else 1000))) [] := h.trace rfl
    unfold Vfmcap.recoverSignal at hr
    dsimp only at hr
    split at hr
    · cases hr; exact hpoll
    · split at hr
      · exact Tokens.recoverSignal hpoll hr
      · cases hr; exact hpoll.diag _
    · split at hr
      · split at hr
        · cases hr
        · rename_i hd
          cases hr
          exact (Tokens.drainToSourceChange hpoll hd).restoreSignal _
        · rename_i hd
          exact Tokens.recoverSignal (Tokens.drainToSourceChange hpoll hd) hr
      · exact Tokens.recoverSignal hpoll hr

theorem Tokens.handleEvents {hand : List Nat} {ev : Revents} {drain : List DqStep} {found : Bool}
    (h : Tokens w hand) (hd : handleEvents w ev drain = some (w', found)) : Tokens w' hand := by
  unfold Vfmcap.handleEvents at hd
  split at hd
  · exact Tokens.drainToSourceChange h hd
  · cases hd; exact h

theorem Tokens.waitBuffer {deadline : Int} : ∀ {passes : List WaitPass} {w w' : World}
    {r : Option Ret}, Tokens w [] → waitBuffer deadline w passes = some (w', r) → Tokens w' []
  | [], _, _, _, _, hr => by cases hr
  | p :: passes, w, w', r, h, hr => by
    unfold Vfmcap.waitBuffer at hr
    dsimp only at hr
    split at hr
    · cases hr; exact h
    · have hpoll : Tokens (w.trace (.poll ((deadline - p.now).bmod (2 ^ 32)))) [] := h.trace rfl
      split at hr
      · cases hr; exact hpoll
      · split at hr
        · exact Tokens.waitBuffer hpoll hr
        · split at hr
          · cases hr; exact hpoll.loseSignal.diag _
          · cases hr; exact hpoll.diag _
      · split at hr
        · cases hr; exact hpoll.loseSignal.diag _
        · split at hr
          · cases hr
          · rename_i hd
            cases hr
            exact (hpoll.handleEvents hd).loseSignal
          · rename_i hd
            split at hr
            · cases hr; exact hpoll.handleEvents hd
            · exact Tokens.waitBuffer (hpoll.handleEvents hd) hr

/-- Giving a dequeued token back. -/
theorem Tokens.giveBack {i : Nat} (h : Tokens w [i]) (fd : Int) (answer : Option Errno) :
    Tokens (giveBack w fd i answer) [] :=
  (h.trace rfl).qbuf answer

/-- What a pass leaves in hand: the token of the frame it returns, of the current allocation. -/
def Outcome.hand : Outcome → List Nat
  | .done _ (some f) => [f.index]
  | _ => []

def Outcome.fresh (w : World) : Outcome → Prop
  | .done _ (some f) => f.gen = w.dev.gen
  | _ => True

theorem Tokens.finish {f : Frame} (h : Tokens w [f.index]) (hf : f.gen = w.dev.gen) {out : Outcome}
    (hfin : finish w f = (w', out)) : Tokens w' out.hand ∧ out.fresh w' := by
  unfold Vfmcap.finish at hfin
  split at hfin
  · cases hfin; exact ⟨h.setCtx _, hf⟩
  · cases hfin; exact ⟨h, hf⟩

theorem Tokens.convert {a : Attempt} {f : Frame} (h : Tokens w [f.index])
    (hf : f.gen = w.dev.gen) {out : Outcome} (hc : convert w a f = (w', out)) :
    Tokens w' out.hand ∧ out.fresh w' := by
  unfold Vfmcap.convert at hc
  split at hc
  · split at hc
    · exact h.finish hf hc
    · split at hc
      · cases hc; exact ⟨(h.diag _).giveBack _ _, trivial⟩
      · dsimp only at hc
        split at hc
        · exact Tokens.finish (f := convertedFrame _ _ f _) (h.trace rfl) hf hc
        · cases hc; exact ⟨((h.trace rfl).trace rfl).giveBack _ _, trivial⟩
  · exact h.finish hf hc

theorem Tokens.takeFrame {a : Attempt} {out : Outcome} (h : Tokens w [])
    (ht : takeFrame w a = some (w', out)) : Tokens w' out.hand ∧ out.fresh w' := by
  unfold Vfmcap.takeFrame at ht
  split at ht
  · split at ht
    · cases ht; exact ⟨h, trivial⟩
    · split at ht
      · cases ht; exact ⟨h.loseSignal.diag _, trivial⟩
      · cases ht; exact ⟨h.diag _, trivial⟩
  · split at ht
    · cases ht
    · rename_i b w₁ hdq
      have hhand := h.dqbuf hdq
      split at ht
      · rename_i e _
        dsimp only at ht
        have hback := (hhand.diag (.sys "VFM_CAP_IOC_GET_DMABUF failed" e)).qbuf a.requeue
        split at ht
        · cases ht; exact ⟨hback.loseSignal, trivial⟩
        · cases ht; exact ⟨hback, trivial⟩
      · dsimp only at ht
        split at ht
        · cases ht
          exact ⟨((hhand.trace rfl).setCtx _).giveBack _ _, trivial⟩
        · rw [Option.some_inj] at ht
          exact Tokens.convert (f := rawFrame w₁ _ _ _) ((hhand.trace rfl).setCtx _) rfl ht

theorem Tokens.attempt {timeout : Int} {a : Attempt} {out : Outcome} (h : Tokens w [])
    (ha : attempt w timeout a = some (w', out)) : Tokens w' out.hand ∧ out.fresh w' := by
  have hsignal : ∀ {w₁ : World} {r : Option Ret}, waitSignal w timeout a = some (w₁, r) →
      Tokens w₁ [] := by
    intro w₁ r hw
    unfold waitSignal at hw
    split at hw
    · exact Tokens.recoverSignal h hw
    · cases hw; exact h
  have hframe : ∀ {w₁ w₂ : World} {r : Option Ret}, Tokens w₁ [] →
      waitFrame w₁ timeout a = some (w₂, r) → Tokens w₂ [] := by
    intro w₁ w₂ r h₁ hw
    unfold waitFrame at hw
    split at hw
    · exact Tokens.waitBuffer h₁ hw
    · cases hw; exact h₁
  unfold Vfmcap.attempt at ha
  split at ha
  · cases ha
  · rename_i hs
    cases ha
    exact ⟨hsignal hs, trivial⟩
  · rename_i hs
    split at ha
    · cases ha
    · rename_i hw
      cases ha
      exact ⟨hframe (hsignal hs) hw, trivial⟩
    · rename_i hw
      exact (hframe (hsignal hs) hw).takeFrame ha

theorem Tokens.attempts {timeout : Int} : ∀ {as : List Attempt} {w w' : World} {r : Ret}
    {f : Option Frame}, Tokens w [] → attempts timeout w as = some (w', r, f) →
    Tokens w' (f.toList.map Frame.index) ∧ ∀ g ∈ f, g.gen = w'.dev.gen
  | [], _, _, _, _, _, ha => by cases ha
  | a :: as, w, w', r, f, h, ha => by
    unfold Vfmcap.attempts at ha
    split at ha
    · cases ha
    · rename_i hone
      cases ha
      obtain ⟨htok, hfresh⟩ := h.attempt hone
      cases f with
      | none => exact ⟨htok, by simp⟩
      | some g =>
        refine ⟨htok, fun g' hg' => ?_⟩
        cases hg'
        exact hfresh
    · rename_i hone
      exact Tokens.attempts (h.attempt hone).1 ha

theorem Tokens.acquireFrame {timeout : Int} {env : List Attempt} {r : Ret} {f : Option Frame}
    (h : Tokens w []) (ha : acquireFrame w timeout env = some (w', r, f)) :
    Tokens w' (f.toList.map Frame.index) ∧ ∀ g ∈ f, g.gen = w'.dev.gen := by
  unfold Vfmcap.acquireFrame at ha
  split at ha
  · exact Tokens.attempts h ha
  · cases ha
    exact ⟨h.diag _, by simp⟩

/-- Handing the acquired frame to the caller moves its token from the hand to the frame. -/
theorem Tokens.handOut {f : Option Frame} (h : Tokens w (f.toList.map Frame.index))
    (hf : ∀ g ∈ f, g.gen = w.dev.gen) : Tokens { w with frames := w.frames ++ f.toList } [] := by
  cases f with
  | none =>
    rw [Option.toList_none, List.append_nil]
    exact h
  | some g =>
    have hheld : held { w with frames := w.frames ++ [g] } = held w ++ [g.index] := by
      simp [held, List.filter_append, hf g rfl]
    have hplaces : (places { w with frames := w.frames ++ [g] } []).Perm (places w [g.index]) := by
      rw [places, places, hheld, List.append_nil, List.append_assoc]
      exact List.Perm.append_left _ (List.perm_append_singleton _ _)
    refine ⟨h.legal, fun j hj => h.bound j (hplaces.mem_iff.mp hj), hplaces.symm.nodup h.nodup,
      fun hacc j hj => hplaces.mem_iff.mpr (h.cover hacc j hj), fun f' hf' => ?_⟩
    rcases List.mem_append.mp hf' with hmem | hmem
    · exact h.gens f' hmem
    · rw [List.mem_singleton.mp hmem]
      exact Nat.le_of_eq (hf g rfl)

/-- Taking a frame of the current allocation back puts its token in hand. -/
theorem Tokens.takeBack {k : Nat} {f : Frame} (h : Tokens w []) (hk : w.frames[k]? = some f)
    (hf : f.gen = w.dev.gen) :
    Tokens { w with frames := w.frames.eraseIdx k } [f.index] := by
  have hframes : (f :: w.frames.eraseIdx k).Perm w.frames := by
    obtain ⟨hlt, hget⟩ := List.getElem?_eq_some_iff.mp hk
    rw [← hget]
    exact List.getElem_cons_eraseIdx_perm hlt
  have hheld : (f.index :: held { w with frames := w.frames.eraseIdx k }).Perm (held w) := by
    have := (hframes.filter fun f => f.gen = w.dev.gen).map Frame.index
    rwa [List.filter_cons_of_pos (by simpa using hf), List.map_cons] at this
  have hplaces : (places { w with frames := w.frames.eraseIdx k } [f.index]).Perm
      (places w []) := by
    rw [places, places, List.append_nil, List.append_assoc]
    exact List.Perm.append_left _ hheld
  exact ⟨h.legal, fun j hj => h.bound j (hplaces.mem_iff.mp hj), hplaces.symm.nodup h.nodup,
    fun hacc j hj => hplaces.mem_iff.mpr (h.cover hacc j hj),
    fun f' hf' => h.gens f' (List.mem_of_mem_eraseIdx hf')⟩

theorem Tokens.releaseFrame {f : Frame} (h : Tokens w [f.index]) (answer : Option Errno) :
    Tokens (releaseFrame w f answer) [] := by
  unfold Vfmcap.releaseFrame
  refine Tokens.qbuf ?_ answer
  split
  · dsimp only
    split
    · split
      · exact (h.trace rfl).trace rfl
      · exact h.trace rfl
    · split
      · exact h.trace rfl
      · exact h
  · split
    · exact h.trace rfl
    · exact h

theorem Tokens.pollEvent (h : Tokens w []) (timeout : Int) (env : PollEnv) :
    Tokens (pollEvent w timeout env).1 [] := by
  have hpoll : Tokens (w.trace (.poll timeout)) [] := h.trace rfl
  unfold Vfmcap.pollEvent
  dsimp only
  split
  · exact hpoll
  · exact hpoll
  · split
    · exact hpoll.loseSignal
    · split
      · split
        · rename_i hd
          exact (hpoll.dqevent hd).loseSignal.setCtx _
        · rename_i hd
          exact hpoll.dqevent hd
      · exact hpoll

/-! ### Runs -/

/-- A frame is released while the allocation its token came from is still the current one. -/
def ReleasesFresh (w : World) : Call → Prop
  | .release k _ => ∀ f, w.frames[k]? = some f → f.gen = w.dev.gen
  | _ => True

theorem Tokens.step {c : Call} (h : Tokens w []) (hc : ReleasesFresh w c)
    (hs : step w c = some w') : Tokens w' [] := by
  cases c with
  | start n env =>
    obtain ⟨⟨w₁, r⟩, hstart, rfl⟩ := Option.map_eq_some_iff.mp hs
    exact h.start hstart
  | stop env => cases hs; exact h.stop env
  | acquire timeout env =>
    obtain ⟨⟨w₁, r, f⟩, hacq, rfl⟩ := Option.map_eq_some_iff.mp hs
    obtain ⟨htok, hfresh⟩ := h.acquireFrame hacq
    exact (htok.handOut hfresh).trace rfl
  | release k answer =>
    obtain ⟨f, hk, rfl⟩ := Option.map_eq_some_iff.mp hs
    exact (h.takeBack hk (hc f hk)).releaseFrame answer
  | pollEvent timeout env => cases hs; exact h.pollEvent timeout env
  | emit e => cases hs; exact h.events _

theorem tokens_open (cfg : Config) (fmt : Option Fmt) (events : List Event) :
    Tokens (openWorld cfg fmt events) [] := by
  refine ⟨fun i a hm => ?_, fun i hi => ?_, ?_, fun _ i hi => ?_, fun f hf => ?_⟩
  · cases hm
  · cases hi
  · exact List.nodup_nil
  · cases hi
  · cases hf

/-- In every run whose releases are all of frames of the current allocation, no `QBUF` ever names a
    token that is queued or not allocated, and no token is in two places; if the driver accepted
    every `QBUF` and took the tokens back whenever it was told to, the tokens queued and the tokens
    held by unreleased frames are together exactly the tokens of the current allocation. -/
theorem run_tokens (cfg : Config) (fmt : Option Fmt) (events : List Event) (calls : List Call)
    (w : World) (hrun : run step (openWorld cfg fmt events) calls = some w)
    (hfresh : Along step ReleasesFresh (openWorld cfg fmt events) calls) :
    QbufLegal w.log ∧ (w.dev.queued ++ held w).Nodup ∧
      (∀ i ∈ w.dev.queued ++ held w, i < w.dev.count) ∧
      (QbufAccepted w.log → BuffersReturned w.log →
        (w.dev.queued ++ held w).Perm (List.range w.dev.count)) := by
  have htok : Tokens w [] :=
    run_invariant (P := fun w => Tokens w []) (fun _ _ _ h hc hs => h.step hc hs) hrun hfresh
      (tokens_open cfg fmt events)
  have hnodup := htok.nodup
  have hbound := htok.bound
  rw [places, List.append_nil] at hnodup hbound
  refine ⟨htok.legal, hnodup, hbound, fun hacc hback => ?_⟩
  refine (List.perm_ext_iff_of_nodup hnodup List.nodup_range).mpr fun i => ?_
  rw [List.mem_range]
  refine ⟨hbound i, fun hi => ?_⟩
  have := htok.cover ⟨hacc, hback⟩ i hi
  rwa [places, List.append_nil] at this

end calls

/-! ### Two runs -/

/-- A frame acquired before a reconfiguration and released before it, another after it. -/
def freshRun : List Call :=
  [.start 4 plainStart, .acquire 0 [takeToken 0], .release 0 none, .pollEvent 0 seeSourceChange,
    .acquire 0 [recoverAndTake 1]]

/-- The frame is released only after the reconfiguration. -/
def staleRun : List Call :=
  [.start 4 plainStart, .acquire 0 [takeToken 0], .pollEvent 0 seeSourceChange,
    .acquire 0 [recoverAndTake 1], .release 0 none]

theorem run_tokens_freshRun :
    ∃ w, run step (openWorld rawConfig none []) freshRun = some w ∧ QbufLegal w.log ∧
      (QbufAccepted w.log → BuffersReturned w.log →
        (w.dev.queued ++ held w).Perm (List.range w.dev.count)) ∧
      w.dev.count = 4 ∧ held w = [1] := by
  have hfresh : Along step ReleasesFresh (openWorld rawConfig none []) freshRun := by
    refine (along_cons rfl).mpr ⟨trivial, (along_cons rfl).mpr ⟨trivial, (along_cons rfl).mpr
      ⟨fun f hf => ?_, (along_cons rfl).mpr ⟨trivial, (along_cons rfl).mpr ⟨trivial, trivial⟩⟩⟩⟩⟩
    cases hf
    rfl
  have htok := run_tokens rawConfig none [] freshRun _ rfl hfresh
  exact ⟨_, rfl, htok.1, htok.2.2.2, rfl, rfl⟩

/-- Token 0 is queued in the new allocation when the old frame queues it again. -/
theorem staleRun_not_legal :
    ∃ w, run step (openWorld rawConfig none []) staleRun = some w ∧ ¬ QbufLegal w.log :=
  ⟨_, rfl, fun hlegal => hlegal 0 false (by decide)⟩

end Streambox.Vfmcap
