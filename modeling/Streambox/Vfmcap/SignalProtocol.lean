import Streambox.Vfmcap.Calls
import Mathlib.Logic.Relation

/-! The signal protocol, apart from the code that follows it.

    Two flags say where the library stands: the signal is lost, a reconfiguration has to be
    announced. A move changes the flags and extends the trace, and there are nine of them: whatever
    the calls do, seen from the flags it is a sequence of these. Each law of the protocol is proved
    for one move and then for every sequence of moves. -/

namespace Streambox.Vfmcap
open Relation

structure Flags where
  lost : Bool
  pending : Bool

/-- The trace entries the protocol is about. -/
def Sys.isSignal : Sys → Bool
  | .dqevent .sourceChange _ _ | .signalLost | .started | .ret .ok | .ret .reconfigured => true
  | _ => false

def Sys.isSourceChange : Sys → Bool
  | .dqevent .sourceChange _ _ => true
  | _ => false

theorem Sys.isSignal_of_isSourceChange {e : Sys} (h : e.isSourceChange = true) :
    e.isSignal = true := by
  unfold isSourceChange at h
  split at h
  · rfl
  · cases h

/-- The library dequeues a source change inside `vfmcap_acquire_frame` while the signal is lost. -/
def restoration : Sys := .dqevent .sourceChange .acquire true

/-- Moves of a started context. -/
inductive Move : Flags × List Sys → Flags × List Sys → Prop where
  | quiet {f l e} (he : Sys.isSignal e = false) : Move (f, l) (f, e :: l)
  | lose {p l} : Move (⟨false, p⟩, l) (⟨true, p⟩, .signalLost :: l)
  | seen {p l} : Move (⟨false, p⟩, l)
      (⟨true, p⟩, .signalLost :: .dqevent .sourceChange .acquire false :: l)
  | restored {p l} : Move (⟨true, p⟩, l) (⟨false, true⟩, .doReconfig false :: restoration :: l)
  | polled {b p l} : Move (⟨b, p⟩, l)
      (⟨true, true⟩, (if b then [] else [.signalLost]) ++ .dqevent .sourceChange .pollEvent b :: l)
  | ok {l} : Move (⟨false, false⟩, l) (⟨false, false⟩, .ret .ok :: l)
  | reconfigured {l} : Move (⟨false, true⟩, l) (⟨false, false⟩, .ret .reconfigured :: l)

/-- Moves of any context: a start may also throw stale events away and clears the loss flag. -/
inductive AnyMove : Flags × List Sys → Flags × List Sys → Prop where
  | move {s s'} (h : Move s s') : AnyMove s s'
  | drained {f l b} : AnyMove (f, l) (f, .dqevent .sourceChange .start b :: l)
  | started {b p l} : AnyMove (⟨b, p⟩, l) (⟨false, p⟩, .started :: l)

/-- Quiet entries can be added one by one. -/
theorem quiet_moves (f : Flags) (l : List Sys) : ∀ {seg : List Sys},
    (∀ e ∈ seg, Sys.isSignal e = false) → ReflTransGen Move (f, l) (f, seg ++ l)
  | [], _ => .refl
  | e :: seg, h => by
    refine ReflTransGen.tail (quiet_moves f l fun e' he' => h e' (List.mem_cons_of_mem _ he')) ?_
    exact .quiet (h e (List.mem_cons_self ..))

theorem anyMoves_of_moves {s s' : Flags × List Sys} (h : ReflTransGen Move s s') :
    ReflTransGen AnyMove s s' :=
  ReflTransGen.mono (fun _ _ hm => .move hm) _ _ h

/-! ### Announcing a reconfiguration -/

/-- A source change has been dequeued and no reconfiguration announced since. -/
def Owes (seg : List Sys) : Prop :=
  ∃ l₁ l₂ by_ b, seg = l₁ ++ .dqevent .sourceChange by_ b :: l₂ ∧ Sys.ret .reconfigured ∉ l₁

theorem owes_cons {e : Sys} {seg : List Sys} (h : Owes (e :: seg)) :
    e.isSourceChange = true ∨ (e ≠ .ret .reconfigured ∧ Owes seg) := by
  obtain ⟨l₁, l₂, by_, b, heq, hno⟩ := h
  rcases List.cons_eq_append_iff.mp heq with ⟨rfl, htail⟩ | ⟨l₁', rfl, rfl⟩
  · left
    cases htail
    rfl
  · right
    refine ⟨fun he => hno (he ▸ List.mem_cons_self ..), l₁', l₂, by_, b, rfl, fun hm => ?_⟩
    exact hno (List.mem_cons_of_mem _ hm)

/-- What a stretch of moves guarantees about announcements. -/
structure Announces (f : Flags) (seg : List Sys) : Prop where
  owes : Owes seg → f.lost = true ∨ f.pending = true
  ok : ∀ l₁ l₂, seg = l₁ ++ .ret .ok :: l₂ → ¬ Owes l₂

theorem Announces.cons {f : Flags} {seg : List Sys} {e : Sys} (h : Announces f seg)
    (he : e ≠ .ret .ok) (howes : Owes (e :: seg) → f.lost = true ∨ f.pending = true) :
    Announces f (e :: seg) := by
  refine ⟨howes, fun l₁ l₂ heq => ?_⟩
  rcases List.cons_eq_append_iff.mp heq with ⟨rfl, htail⟩ | ⟨l₁', rfl, rfl⟩
  · cases htail; exact absurd rfl he
  · exact h.ok l₁' l₂ rfl

/-- Flags that say more owe less. -/
theorem Announces.raise {f g : Flags} {seg : List Sys} (h : Announces f seg)
    (hf : g.lost = true ∨ g.pending = true) : Announces g seg :=
  ⟨fun _ => hf, h.ok⟩

theorem Announces.move {s s' : Flags × List Sys} (hm : Move s s') : ∀ {seg base : List Sys},
    s.2 = seg ++ base → Announces s.1 seg → ∃ seg', s'.2 = seg' ++ base ∧ Announces s'.1 seg' := by
  intro seg base hlog h
  cases hm with
  | @quiet f l e he =>
    refine ⟨e :: seg, congrArg _ hlog, h.cons ?_ ?_⟩
    · rintro rfl; cases he
    · intro howes
      rcases owes_cons howes with hsc | ⟨-, hseg⟩
      · rw [Sys.isSignal_of_isSourceChange hsc] at he; cases he
      · exact h.owes hseg
  | @lose p l =>
    refine ⟨.signalLost :: seg, congrArg _ hlog, ?_⟩
    exact (h.raise (g := ⟨true, p⟩) (.inl rfl)).cons (by decide) fun _ => .inl rfl
  | @seen p l =>
    refine ⟨.signalLost :: .dqevent .sourceChange .acquire false :: seg,
      congrArg (fun l => _ :: _ :: l) hlog, ?_⟩
    exact ((h.raise (g := ⟨true, p⟩) (.inl rfl)).cons (by decide) fun _ => .inl rfl).cons
      (by decide) fun _ => .inl rfl
  | @restored p l =>
    refine ⟨.doReconfig false :: restoration :: seg, congrArg (fun l => _ :: _ :: l) hlog, ?_⟩
    exact ((h.raise (g := ⟨false, true⟩) (.inr rfl)).cons (by decide) fun _ => .inr rfl).cons
      (by decide) fun _ => .inr rfl
  | @polled b p l =>
    have hev : Announces ⟨true, true⟩ (.dqevent .sourceChange .pollEvent b :: seg) :=
      (h.raise (.inl rfl)).cons (by simp) fun _ => .inl rfl
    cases b with
    | true => exact ⟨_ :: seg, congrArg _ hlog, hev⟩
    | false =>
      exact ⟨.signalLost :: _ :: seg, congrArg (fun l => _ :: _ :: l) hlog,
        hev.cons (by decide) fun _ => .inl rfl⟩
  | @ok l =>
    -- the only move that returns `VFMCAP_OK` needs both flags clear
    have hnone : ¬ Owes seg := fun howes => by
      rcases h.owes howes with hl | hp
      · cases hl
      · cases hp
    refine ⟨.ret .ok :: seg, congrArg _ hlog, fun howes => ?_, fun l₁ l₂ heq => ?_⟩
    · rcases owes_cons howes with hsc | ⟨-, hseg⟩
      · cases hsc
      · exact absurd hseg hnone
    · rcases List.cons_eq_append_iff.mp heq with ⟨rfl, htail⟩ | ⟨l₁', rfl, rfl⟩
      · cases htail; exact hnone
      · exact h.ok l₁' l₂ rfl
  | @reconfigured l =>
    refine ⟨.ret .reconfigured :: seg, congrArg _ hlog, fun howes => ?_, fun l₁ l₂ heq => ?_⟩
    · rcases owes_cons howes with hsc | ⟨hne, -⟩
      · cases hsc
      · exact absurd rfl hne
    · rcases List.cons_eq_append_iff.mp heq with ⟨rfl, htail⟩ | ⟨l₁', rfl, rfl⟩
      · cases htail
      · exact h.ok l₁' l₂ rfl

/-- Along any moves from a trace `base`, the new part of the trace announces. -/
theorem announces_moves {f f' : Flags} {base l : List Sys}
    (h : ReflTransGen Move (f, base) (f', l)) :
    ∃ seg, l = seg ++ base ∧ Announces f' seg := by
  suffices hgen : ∀ s', ReflTransGen Move (f, base) s' →
      ∃ seg, s'.2 = seg ++ base ∧ Announces s'.1 seg from hgen _ h
  intro s' hs'
  induction hs' with
  | refl =>
    refine ⟨[], rfl, fun ⟨l₁, l₂, _, _, heq, _⟩ => ?_, fun l₁ l₂ heq => ?_⟩
    · simp at heq
    · simp at heq
  | tail _ hm ih =>
    obtain ⟨seg, hlog, hann⟩ := ih
    exact Announces.move hm hlog hann

/-! ### Acting on a restoration -/

/-- Laws of the whole life of a context. -/
structure Lawful (s : Flags × List Sys) : Prop where
  reconfigures : ∀ l₁ l₂, s.2 = l₁ ++ restoration :: l₂ → ∃ l, l₁ = l ++ [.doReconfig false]
  lostAnew : s.1.lost = true → ∀ l₁ l₂, s.2 = l₁ ++ restoration :: l₂ → Sys.signalLost ∈ l₁

/-- An entry that is not a restoration keeps the first law. -/
theorem reconfigures_cons {e : Sys} {l : List Sys} (he : e ≠ restoration)
    (h : ∀ l₁ l₂, l = l₁ ++ restoration :: l₂ → ∃ m, l₁ = m ++ [.doReconfig false]) :
    ∀ l₁ l₂, e :: l = l₁ ++ restoration :: l₂ → ∃ m, l₁ = m ++ [.doReconfig false] := by
  intro l₁ l₂ heq
  rcases List.cons_eq_append_iff.mp heq with ⟨rfl, htail⟩ | ⟨l₁', rfl, rfl⟩
  · cases htail; exact absurd rfl he
  · obtain ⟨m, rfl⟩ := h l₁' l₂ rfl
    exact ⟨e :: m, rfl⟩

/-- An entry that is not a restoration keeps a loss that began after every restoration. -/
theorem lostAnew_cons {e : Sys} {l : List Sys} (he : e ≠ restoration)
    (h : ∀ l₁ l₂, l = l₁ ++ restoration :: l₂ → Sys.signalLost ∈ l₁) :
    ∀ l₁ l₂, e :: l = l₁ ++ restoration :: l₂ → Sys.signalLost ∈ l₁ := by
  intro l₁ l₂ heq
  rcases List.cons_eq_append_iff.mp heq with ⟨rfl, htail⟩ | ⟨l₁', rfl, rfl⟩
  · cases htail; exact absurd rfl he
  · exact List.mem_cons_of_mem _ (h l₁' l₂ rfl)

/-- A loss that begins now is after every restoration. -/
theorem lostAnew_of_signalLost {l : List Sys} :
    ∀ l₁ l₂, .signalLost :: l = l₁ ++ restoration :: l₂ → Sys.signalLost ∈ l₁ := by
  intro l₁ l₂ heq
  rcases List.cons_eq_append_iff.mp heq with ⟨rfl, htail⟩ | ⟨l₁', rfl, rfl⟩
  · cases htail
  · exact List.mem_cons_self ..

theorem Lawful.cons {f : Flags} {l : List Sys} {e : Sys} (h : Lawful (f, l))
    (he : e ≠ restoration) : Lawful (f, e :: l) :=
  ⟨reconfigures_cons he h.reconfigures, fun hl => lostAnew_cons he (h.lostAnew hl)⟩

theorem Lawful.move {s s' : Flags × List Sys} (h : Lawful s) (hm : Move s s') : Lawful s' := by
  cases hm with
  | quiet he => exact h.cons (by rintro rfl; cases he)
  | lose =>
    have hcons := h.cons (e := .signalLost) (by decide)
    exact ⟨hcons.reconfigures, fun _ => lostAnew_of_signalLost⟩
  | seen =>
    have hev := h.cons (e := .dqevent .sourceChange .acquire false) (by decide)
    have hcons := hev.cons (e := .signalLost) (by decide)
    exact ⟨hcons.reconfigures, fun _ => lostAnew_of_signalLost⟩
  | @restored p l =>
    refine ⟨fun l₁ l₂ heq => ?_, fun hl => (by cases hl)⟩
    rcases List.cons_eq_append_iff.mp heq with ⟨rfl, htail⟩ | ⟨l₁', rfl, htail⟩
    · cases htail
    · rcases List.cons_eq_append_iff.mp htail with ⟨rfl, -⟩ | ⟨l₁'', rfl, hlog⟩
      · exact ⟨[], rfl⟩
      · obtain ⟨m, rfl⟩ := h.reconfigures l₁'' l₂ hlog
        exact ⟨.doReconfig false :: restoration :: m, rfl⟩
  | @polled b p l =>
    have hev := h.cons (e := .dqevent .sourceChange .pollEvent b) (by simp [restoration])
    cases b with
    | true => exact ⟨hev.reconfigures, fun _ => hev.lostAnew rfl⟩
    | false => exact ⟨reconfigures_cons (by decide) hev.reconfigures, fun _ => lostAnew_of_signalLost⟩
  | ok => exact h.cons (by decide)
  | reconfigured =>
    exact ⟨reconfigures_cons (by decide) h.reconfigures, fun hl => (by cases hl)⟩

theorem Lawful.anyMove {s s' : Flags × List Sys} (h : Lawful s) (hm : AnyMove s s') :
    Lawful s' := by
  cases hm with
  | move hm => exact h.move hm
  | drained => exact h.cons (by simp [restoration])
  | started =>
    have hcons := h.cons (e := .started) (by decide)
    exact ⟨hcons.reconfigures, fun hl => (by cases hl)⟩

/-- Every state a context can come to is lawful. -/
theorem lawful_anyMoves {s s' : Flags × List Sys} (h : ReflTransGen AnyMove s s')
    (hs : Lawful s) : Lawful s' := by
  induction h with
  | refl => exact hs
  | tail _ hm ih => exact ih.anyMove hm

/-! ### Counting the announcements -/

/-- Beyond the `announced` announcements and the `seen` source changes of an earlier time, no more
    announcements are made or pending than source changes have been dequeued. -/
def Counted (announced seen : Nat) (s : Flags × List Sys) : Prop :=
  s.2.count (.ret .reconfigured) + s.1.pending.toNat + seen ≤
    s.2.countP Sys.isSourceChange + announced

section counted
variable {announced seen : Nat} {f : Flags} {l : List Sys} {e : Sys}

theorem Counted.cons (h : Counted announced seen (f, l)) (he : e ≠ .ret .reconfigured) :
    Counted announced seen (f, e :: l) := by
  rw [Counted] at h ⊢
  rw [List.count_cons_of_ne he, List.countP_cons]
  dsimp only at h ⊢
  omega

/-- A source change pays for a notice. -/
theorem Counted.sourceChange (h : Counted announced seen (f, l)) (by_ : Entry) (b lost : Bool) :
    Counted announced seen (⟨lost, true⟩, .dqevent .sourceChange by_ b :: l) := by
  rw [Counted] at h ⊢
  rw [List.count_cons_of_ne (by simp), List.countP_cons]
  simp only [Sys.isSourceChange, Bool.toNat_true, if_true] at h ⊢
  omega

theorem Counted.move {s s' : Flags × List Sys} (h : Counted announced seen s) (hm : Move s s') :
    Counted announced seen s' := by
  cases hm with
  | quiet he => exact h.cons (by rintro rfl; cases he)
  | lose => exact h.cons (by decide)
  | seen => exact (h.cons (e := .dqevent .sourceChange .acquire false) (by decide)).cons (by decide)
  | restored => exact (h.sourceChange .acquire true false).cons (by decide)
  | @polled b p l =>
    have hev := h.sourceChange .pollEvent b true
    cases b with
    | true => exact hev
    | false => exact hev.cons (by decide)
  | ok => exact h.cons (by decide)
  | @reconfigured l =>
    -- the notice that was pending is made
    rw [Counted] at h ⊢
    rw [List.count_cons_self, List.countP_cons]
    simp only [Sys.isSourceChange, Bool.toNat_true, Bool.toNat_false] at h ⊢
    omega

theorem counted_moves {s s' : Flags × List Sys} (h : ReflTransGen Move s s')
    (hs : Counted announced seen s) : Counted announced seen s' := by
  induction h with
  | refl => exact hs
  | tail _ hm ih => exact ih.move hm

/-- From a time on at which no notice is pending, there are no more announcements than source
    changes. -/
theorem count_moves {f' : Flags} {seg : List Sys} (hclear : f.pending = false)
    (h : ReflTransGen Move (f, l) (f', seg ++ l)) :
    seg.count (.ret .reconfigured) ≤ seg.countP Sys.isSourceChange := by
  have hstart : Counted (l.count (.ret .reconfigured)) (l.countP Sys.isSourceChange) (f, l) := by
    rw [Counted, hclear, Bool.toNat_false]
    dsimp only
    omega
  have hend := counted_moves h hstart
  rw [Counted, List.count_append, List.countP_append] at hend
  dsimp only at hend
  omega

end counted

end Streambox.Vfmcap
