import Streambox.Element.Lifecycle

/-! streamboxsrc: buffers that are dropped after their session has ended.

    A late callback is harmless if it changes nothing and asks nothing of the session that is open
    when it runs. The callbacks check that a session of their kind is open and that their index is
    in range, not that it is the session they come from. So a late callback is harmless exactly when
    these checks happen to fail, or when it frees a slot that is free anyway. While nothing is open
    they always fail; once the element has been started again they need not. -/

namespace Streambox.Element
open Streambox.Lib
open Streambox.PathB (Between OneHolder)

variable {e t : GstStreamboxSrc}

/-! ### Harmless callbacks -/

/-- A late callback leaves the open session alone. -/
def Harmless (e : GstStreamboxSrc) : Call → Prop
  | .unrefLate pos accepts answer => ∀ l, e.late[pos]? = some l →
      lateRelease e accepts answer l = (e, [])
  | _ => True

/-- The callback's own checks turn it away, or its slot is free already. -/
def GstStreamboxSrc.spares (e : GstStreamboxSrc) : Late → Prop
  | .hold (.p010 i) => i < e.pipe.outCount → e.pipe.outFree i = true
  | .hold (.vdin1 i) => ¬ (e.vdin1Open = true ∧ e.streaming = true ∧ i < e.pipe.nBufs)
  | .frame _ => e.capCtx = none

/-- Whenever a late callback runs, it is turned away. -/
def Spared (e : GstStreamboxSrc) : Call → Prop
  | .unrefLate pos _ _ => ∀ l, e.late[pos]? = some l → e.spares l
  | _ => True

theorem p010BufRelease_eq_iff {s : PathB.Pipe} {i : Nat} :
    PathB.p010BufRelease s i = s ↔ (i < s.outCount → s.outFree i = true) := by
  unfold PathB.p010BufRelease
  split
  · next hi =>
    constructor
    · intro h _
      have hfree : Function.update s.outFree i true i = s.outFree i :=
        congrFun (congrArg PathB.Pipe.outFree h) i
      rw [← hfree, Function.update_self]
    · intro h
      have hupd : Function.update s.outFree i true = s.outFree :=
        (h hi) ▸ Function.update_eq_self i s.outFree
      rw [PathB.putOut, hupd]
  · next hi => exact ⟨fun _ h => absurd h hi, fun _ => rfl⟩

/-- A callback does nothing at all exactly when it is turned away. -/
theorem lateRelease_eq_iff {accepts : Bool} {answer : Option Vfmcap.Errno} {l : Late} :
    lateRelease e accepts answer l = (e, []) ↔ e.spares l := by
  cases l with
  | frame f =>
    cases hc : e.capCtx with
    | none => simp [lateRelease, GstStreamboxSrc.spares, hc]
    | some a => simp [lateRelease, GstStreamboxSrc.spares, hc]
  | hold h =>
    cases h with
    | p010 i =>
      rw [GstStreamboxSrc.spares, ← p010BufRelease_eq_iff]
      constructor
      · intro h
        exact congrArg GstStreamboxSrc.pipe (congrArg Prod.fst h)
      · intro h
        rw [lateRelease, h]
    | vdin1 i =>
      rw [lateRelease, GstStreamboxSrc.spares]
      split
      · next h =>
        refine ⟨fun he => ?_, fun hno => absurd h hno⟩
        exact absurd (congrArg Prod.snd he) (List.cons_ne_nil _ _)
      · next h => exact ⟨fun _ => h, fun _ => rfl⟩

theorem harmless_iff_spared (c : Call) : Harmless e c ↔ Spared e c := by
  cases c with
  | unrefLate pos accepts answer =>
    exact forall_congr' fun l => forall_congr' fun _ => lateRelease_eq_iff
  | _ => exact Iff.rfl

theorem along_harmless_iff : ∀ {calls : List Call} {e : GstStreamboxSrc},
    Along step Harmless e calls ↔ Along step Spared e calls
  | [], _ => Iff.rfl
  | c :: calls, e => by
    refine and_congr (harmless_iff_spared c) (forall_congr' fun t => forall_congr' fun _ => ?_)
    exact along_harmless_iff

/-! ### What is open -/

/-- One path at a time is open, the element streams while it is, and a closed pool is empty. -/
structure Tidy (e : GstStreamboxSrc) : Prop where
  streaming : e.streaming = true ↔ e.vdin1Open = true ∨ e.capCtx ≠ none
  one : e.vdin1Open = true → e.capCtx = none
  closed : e.vdin1Open = false → e.pipe.outCount = 0

theorem tidy_init : Tidy init :=
  ⟨⟨nofun, by simp [init]⟩, nofun, fun _ => rfl⟩

theorem Tidy.idle (h : Tidy e) (hs : ¬ e.streaming = true) :
    e.vdin1Open = false ∧ e.capCtx = none := by
  rw [h.streaming, not_or, not_not, Bool.not_eq_true] at hs
  exact hs

/-- With nothing open every callback is turned away. -/
theorem Tidy.spares (h : Tidy e) (hs : ¬ e.streaming = true) (l : Late) : e.spares l := by
  obtain ⟨hv, hc⟩ := h.idle hs
  rcases l with f | i | i
  · exact hc
  · intro hi
    rw [h.closed hv] at hi
    cases hi
  · rintro ⟨-, hst, -⟩
    exact hs hst

/-- A step inside an open path. -/
theorem Tidy.within (h : Tidy e) (hst : t.streaming = e.streaming) (hv : t.vdin1Open = e.vdin1Open)
    (hc : t.capCtx = none ↔ e.capCtx = none)
    (hp : e.vdin1Open = false → t.pipe.outCount = e.pipe.outCount) : Tidy t where
  streaming := by rw [hst, hv, Ne, hc]; exact h.streaming
  one := by rw [hv, hc]; exact h.one
  closed := fun hopen => by
    rw [hv] at hopen
    rw [hp hopen, h.closed hopen]

theorem lateRelease_within (h : Tidy e) {accepts : Bool} {answer : Option Vfmcap.Errno} (l : Late) :
    Tidy (lateRelease e accepts answer l).1 := by
  rcases l with f | i | i
  · rw [lateRelease]
    split
    · exact h
    · next a ha => exact h.within rfl rfl (by simp [ha]) fun _ => rfl
  · refine h.within rfl rfl Iff.rfl fun _ => ?_
    show (PathB.p010BufRelease e.pipe i).outCount = _
    unfold PathB.p010BufRelease
    split <;> rfl
  · rw [lateRelease]
    split
    · next hopen => exact h.within rfl rfl Iff.rfl fun hv => absurd (hv.symm.trans hopen.1) nofun
    · exact h

theorem startPathA_cases {a : StartA} (h : startPathA e a = some t) :
    t = e ∨ ∃ p, t = { e with capCtx := some p, streaming := true } := by
  unfold startPathA at h
  split at h
  · exact .inl (Option.some_inj.mp h).symm
  split at h
  · cases h
  split at h
  · exact .inl (Option.some_inj.mp h).symm
  split at h
  · cases h
  · exact .inr ⟨_, (Option.some_inj.mp h).symm⟩
  · exact .inl (Option.some_inj.mp h).symm

theorem Tidy.step {c : Call} (h : Tidy e) (hs : step e c = some t) : Tidy t := by
  cases c with
  | startA a =>
    simp only [Element.step] at hs
    split at hs
    · cases hs
    · next hidle =>
      obtain ⟨hv, hc⟩ := h.idle hidle
      rcases startPathA_cases hs with rfl | ⟨p, rfl⟩
      · exact h
      · exact ⟨⟨fun _ => .inr nofun, fun _ => rfl⟩, fun ho => absurd (hv.symm.trans ho) nofun,
          h.closed⟩
  | startB b =>
    simp only [Element.step] at hs
    split at hs
    · cases hs
    · next hidle =>
      obtain ⟨hv, hc⟩ := h.idle hidle
      cases hs
      cases b with
      | none => exact h
      | some b => exact ⟨⟨fun _ => .inl rfl, fun _ => rfl⟩, fun _ => hc, nofun⟩
  | stop waited accepts =>
    simp only [Element.step] at hs
    split at hs
    · cases hs
      unfold Element.stop
      split
      · next a ha =>
        have hv : e.vdin1Open = false := by
          rw [← Bool.not_eq_true]
          intro ho
          exact absurd ((h.one ho).symm.trans ha) nofun
        exact ⟨⟨nofun, by simp [hv]⟩, fun _ => rfl, h.closed⟩
      · next hc => exact ⟨⟨nofun, by simp [hc]⟩, nofun, fun _ => rfl⟩
    · cases hs
  | createA c =>
    obtain ⟨a, ha, hs⟩ := Option.bind_eq_some_iff.mp hs
    obtain ⟨r, -, rfl⟩ := Option.map_eq_some_iff.mp hs
    exact h.within rfl rfl (by simp [ha]) fun _ => rfl
  | createB c =>
    simp only [Element.step] at hs
    split at hs
    · next hopen =>
      obtain ⟨r, -, rfl⟩ := Option.map_eq_some_iff.mp hs
      exact h.within rfl rfl Iff.rfl fun hv => absurd (hv.symm.trans hopen) nofun
    · cases hs
  | unrefA pos answer =>
    obtain ⟨a, ha, hs⟩ := Option.bind_eq_some_iff.mp hs
    obtain ⟨f, -, rfl⟩ := Option.map_eq_some_iff.mp hs
    exact h.within rfl rfl (by simp [ha]) fun _ => rfl
  | unrefB u =>
    simp only [Element.step] at hs
    split at hs
    · next hopen =>
      cases hs
      exact h.within rfl rfl Iff.rfl fun hv => absurd (hv.symm.trans hopen) nofun
    · cases hs
  | unrefLate pos accepts answer =>
    obtain ⟨l, -, rfl⟩ := Option.map_eq_some_iff.mp hs
    have hlate : Tidy { e with late := e.late.eraseIdx pos } :=
      h.within rfl rfl Iff.rfl fun _ => rfl
    exact lateRelease_within hlate l

/-! ### Custody in the open session -/

/-- The open Path B session is in order. -/
def InOrder (e : GstStreamboxSrc) : Prop := e.vdin1Open = true → Between False e.pipe

theorem InOrder.step {c : Call} (h : InOrder e) (htidy : Tidy e) (hc : Spared e c)
    (hs : step e c = some t) : InOrder t := by
  cases c with
  | startA a =>
    simp only [Element.step] at hs
    split at hs
    · cases hs
    · rcases startPathA_cases hs with rfl | ⟨p, rfl⟩
      · exact h
      · exact h
  | startB b =>
    simp only [Element.step] at hs
    split at hs
    · cases hs
    · cases hs
      cases b with
      | none => exact h
      | some b => exact fun _ => PathB.started_between nofun
  | stop waited accepts =>
    simp only [Element.step] at hs
    split at hs
    · cases hs
      unfold Element.stop
      split
      · exact h
      · exact nofun
    · cases hs
  | createA c =>
    obtain ⟨a, -, hs⟩ := Option.bind_eq_some_iff.mp hs
    obtain ⟨r, -, rfl⟩ := Option.map_eq_some_iff.mp hs
    exact h
  | createB c =>
    simp only [Element.step] at hs
    split at hs
    · next hopen =>
      obtain ⟨⟨p, f⟩, hcreate, rfl⟩ := Option.map_eq_some_iff.mp hs
      exact fun _ => (PathB.createPathB_spec (h hopen) nofun hcreate).between
    · cases hs
  | unrefA pos answer =>
    obtain ⟨a, -, hs⟩ := Option.bind_eq_some_iff.mp hs
    obtain ⟨f, -, rfl⟩ := Option.map_eq_some_iff.mp hs
    exact h
  | unrefB u =>
    simp only [Element.step] at hs
    split at hs
    · next hopen =>
      cases hs
      exact fun _ => (h hopen).dispose u
    · cases hs
  | unrefLate pos accepts answer =>
    obtain ⟨l, hl, rfl⟩ := Option.map_eq_some_iff.mp hs
    have hsame : lateRelease { e with late := e.late.eraseIdx pos } accepts answer l
        = ({ e with late := e.late.eraseIdx pos }, []) := by
      rw [lateRelease_eq_iff]
      cases l with
      | frame f => exact hc _ hl
      | hold h => cases h <;> exact hc _ hl
    rw [hsame]
    exact h

/-! ### Runs -/

theorem run_tidy {calls : List Call} (hrun : run step init calls = some e) : Tidy e :=
  run_preserves (fun _ _ _ h hs => h.step hs) hrun tidy_init

theorem run_inOrder {calls : List Call} (hrun : run step init calls = some e)
    (hall : Along step Spared init calls) : InOrder e :=
  (run_invariant (P := fun e => Tidy e ∧ InOrder e)
    (fun _ _ _ h hc hs => ⟨h.1.step hs, h.2.step h.1 hc hs⟩) hrun hall ⟨tidy_init, nofun⟩).2

/-- For every interleaving of starts, stops, calls and drops: the callbacks of earlier sessions
    leave the open session alone exactly when each of them is turned away by its own checks, or
    frees a slot that is free. Then every buffer and slot of an open Path B session has one holder,
    as if there were no late buffers. While the element is stopped every callback is turned away. -/
theorem late_release_harmless_iff {calls : List Call} (hrun : run step init calls = some e) :
    (Along step Harmless init calls ↔ Along step Spared init calls) ∧
      (Along step Spared init calls → InOrder e) ∧
      (e.streaming = false → ∀ l, e.spares l) := by
  refine ⟨along_harmless_iff, run_inOrder hrun, fun hs => (run_tidy hrun).spares ?_⟩
  rw [hs]
  exact Bool.false_ne_true

def tenBitSession : Call := .startB (some ⟨true, false, 4, PathB.plainFormat⟩)

/-- Prime the pipeline: slot 0 goes downstream, slot 1 is being written. -/
def primeCall : Call := .createB (PathB.plainEnv [PathB.framePass 0] [PathB.framePass 1])

/-- The buffer of the first session is dropped before the second one starts. -/
def patientCalls : List Call :=
  [tenBitSession, primeCall, .stop true true, .unrefLate 0 true none, tenBitSession, primeCall]

theorem late_release_harmless_patient : ∃ e, run step init patientCalls = some e ∧
    Along step Harmless init patientCalls ∧ InOrder e := by
  have hspared : Along step Spared init patientCalls := by
    refine ⟨trivial, ?_⟩
    rintro _ ⟨⟩
    refine ⟨trivial, ?_⟩
    rintro _ ⟨⟩
    refine ⟨trivial, ?_⟩
    rintro _ ⟨⟩
    refine ⟨?_, fun _ _ => ⟨trivial, fun _ _ => ⟨trivial, fun _ _ => trivial⟩⟩⟩
    rintro _ ⟨⟩ hlt
    exact absurd hlt (Nat.not_lt_zero _)
  have h := late_release_harmless_iff (show run step init patientCalls = some _ from rfl)
  exact ⟨_, rfl, h.1.mpr hspared, h.2.1 hspared⟩

/-- The buffer of the first session is dropped while the second one has slot 0 downstream again. -/
def restartCalls : List Call :=
  [tenBitSession, primeCall, .stop true true, tenBitSession, primeCall, .unrefLate 0 true none]

/-- The late callback frees slot 0 under the buffer that holds it. -/
theorem late_release_frees_held_slot : ∃ e, run step init restartCalls = some e ∧
    ¬ Along step Harmless init restartCalls ∧ e.pipe.outFree 0 = true ∧ e.pipe.holders 0 = 1 ∧
      ¬ OneHolder e.pipe 0 := by
  refine ⟨_, rfl, fun h => ?_, rfl, by decide, by unfold OneHolder; decide⟩
  rw [along_harmless_iff] at h
  have hlast := (((((h.2 _ rfl).2 _ rfl).2 _ rfl).2 _ rfl).2 _ rfl).1 _ rfl
  exact absurd (hlast (by decide)) (by decide)

end Streambox.Element
