import Mathlib.Data.List.Basic

/-! Runs of a partial step function.

    A system is a step function `σ → α → Option σ`: `none` says the action is not possible in that
    state. A run folds a list of actions. An invariant is proved for one step and holds along every
    run; `Along` carries a condition that every step of a run meets in the state it is taken in, for
    invariants that need one. -/

namespace Streambox.Lib

variable {σ α : Type*}

/-- Take the actions one after the other. -/
def run (step : σ → α → Option σ) : σ → List α → Option σ
  | s, [] => some s
  | s, a :: as => (step s a).bind fun s' => run step s' as

/-- Every step of the run meets `ok` in the state it is taken in. -/
def Along (step : σ → α → Option σ) (ok : σ → α → Prop) : σ → List α → Prop
  | _, [] => True
  | s, a :: as => ok s a ∧ ∀ s', step s a = some s' → Along step ok s' as

/-- The same for a condition that can be computed. -/
def alongCheck (step : σ → α → Option σ) (ok : σ → α → Bool) : σ → List α → Bool
  | _, [] => true
  | s, a :: as => ok s a && (step s a).all fun s' => alongCheck step ok s' as

variable {step : σ → α → Option σ} {ok : σ → α → Prop} {P : σ → Prop}

theorem run_cons {s s' : σ} {a : α} {as : List α} :
    run step s (a :: as) = some s' ↔ ∃ t, step s a = some t ∧ run step t as = some s' := by
  rw [run, Option.bind_eq_some_iff]

theorem run_append_iff {s u : σ} {as bs : List α} : run step s (as ++ bs) = some u ↔
    ∃ t, run step s as = some t ∧ run step t bs = some u := by
  induction as generalizing s with
  | nil => simp [run]
  | cons a as ih =>
    simp only [List.cons_append, run_cons, ih]
    constructor
    · rintro ⟨mid, hmid, t, ht, hu⟩
      exact ⟨t, ⟨mid, hmid, ht⟩, hu⟩
    · rintro ⟨t, ⟨mid, hmid, ht⟩, hu⟩
      exact ⟨mid, hmid, t, ht, hu⟩

theorem run_append {s t u : σ} {as bs : List α} (has : run step s as = some t)
    (hbs : run step t bs = some u) : run step s (as ++ bs) = some u :=
  run_append_iff.mpr ⟨t, has, hbs⟩

theorem along_cons {s t : σ} {a : α} {as : List α} (h : step s a = some t) :
    Along step ok s (a :: as) ↔ ok s a ∧ Along step ok t as := by
  refine and_congr_right fun _ => ⟨fun hall => hall t h, fun ht s' hs' => ?_⟩
  rw [h, Option.some_inj] at hs'
  exact hs' ▸ ht

theorem along_of_check {ok : σ → α → Bool} {s : σ} {as : List α}
    (h : alongCheck step ok s as = true) :
    Along step (fun s a => ok s a = true) s as := by
  induction as generalizing s with
  | nil => trivial
  | cons a as ih =>
    rw [alongCheck, Bool.and_eq_true] at h
    refine ⟨h.1, fun s' hs' => ih ?_⟩
    rw [hs', Option.all_some] at h
    exact h.2

/-- The step that follows a part of the run meets the condition in the state that is reached there.
    -/
theorem Along.at_reached {s t : σ} {a : α} {as bs : List α} (h : Along step ok s (as ++ a :: bs))
    (hrun : run step s as = some t) : ok t a := by
  induction as generalizing s with
  | nil =>
    cases hrun
    exact h.1
  | cons b as ih =>
    obtain ⟨mid, hmid, hrest⟩ := run_cons.mp hrun
    exact ih (h.2 mid hmid) hrest

/-- What each permitted step preserves, a permitted run preserves. -/
theorem run_invariant (hstep : ∀ s a s', P s → ok s a → step s a = some s' → P s') :
    ∀ {as : List α} {s s' : σ}, run step s as = some s' → Along step ok s as → P s → P s'
  | [], s, s', hrun, _, hs => by
    cases hrun
    exact hs
  | a :: as, s, s', hrun, hok, hs => by
    obtain ⟨t, ht, hrest⟩ := run_cons.mp hrun
    exact run_invariant hstep hrest (hok.2 t ht) (hstep s a t hs hok.1 ht)

/-- What every step preserves, every run preserves. -/
theorem run_preserves (hstep : ∀ s a s', P s → step s a = some s' → P s') {as : List α} {s s' : σ}
    (hrun : run step s as = some s') (hs : P s) : P s' := by
  induction as generalizing s with
  | nil =>
    cases hrun
    exact hs
  | cons a as ih =>
    obtain ⟨t, ht, hrest⟩ := run_cons.mp hrun
    exact ih hrest (hstep s a t hs ht)

/-- If each permitted step is possible, a permitted run is. -/
theorem run_total (hstep : ∀ s a, P s → ok s a → ∃ s', step s a = some s' ∧ P s') {as : List α}
    {s : σ} (hok : Along step ok s as) (hs : P s) : ∃ s', run step s as = some s' ∧ P s' := by
  induction as generalizing s with
  | nil => exact ⟨s, rfl, hs⟩
  | cons a as ih =>
    obtain ⟨t, ht, hPt⟩ := hstep s a hs hok.1
    obtain ⟨u, hu, hPu⟩ := ih (hok.2 t ht) hPt
    exact ⟨u, run_cons.mpr ⟨t, ht, hu⟩, hPu⟩

/-- If a step from a state with `P` leads to a state with `P` exactly when it is permitted, then all
    states of a run have `P` exactly when the run is permitted. `I` is what holds in any case. -/
theorem prefixes_iff_along {I : σ → Prop} (hI : ∀ s a s', I s → step s a = some s' → I s')
    (hstep : ∀ s a s', I s → P s → step s a = some s' → (P s' ↔ ok s a)) :
    ∀ {as : List α} {s s' : σ}, run step s as = some s' → I s → P s →
      ((∀ pre t, pre <+: as → run step s pre = some t → P t) ↔ Along step ok s as)
  | [], s, s', _, _, hs => by
    refine ⟨fun _ => trivial, fun _ pre t hpre hrun => ?_⟩
    rw [List.prefix_nil] at hpre
    subst hpre
    cases hrun
    exact hs
  | a :: as, s, s', hrun, hi, hs => by
    obtain ⟨t, ht, hrest⟩ := run_cons.mp hrun
    have hok := hstep s a t hi hs ht
    rw [along_cons ht]
    constructor
    · intro hall
      have hPt : P t := hall [a] t ⟨as, rfl⟩ (run_cons.mpr ⟨t, ht, rfl⟩)
      refine ⟨hok.mp hPt, (prefixes_iff_along hI hstep hrest (hI s a t hi ht) hPt).mp ?_⟩
      intro pre u hpre hrun
      exact hall (a :: pre) u (List.cons_prefix_cons.mpr ⟨rfl, hpre⟩) (run_cons.mpr ⟨t, ht, hrun⟩)
    · rintro ⟨hoka, hall⟩ pre u hpre hreach
      have hPt : P t := hok.mpr hoka
      cases pre with
      | nil =>
        cases hreach
        exact hs
      | cons b pre =>
        obtain ⟨rfl, htail⟩ := List.cons_prefix_cons.mp hpre
        obtain ⟨t', ht', hreach⟩ := run_cons.mp hreach
        obtain rfl : t = t' := Option.some_inj.mp (ht.symm.trans ht')
        exact (prefixes_iff_along hI hstep hrest (hI s b t hi ht) hPt).mpr hall pre u htail hreach

/-- Conditions that agree in every state with `P` agree along every run from such a state. -/
theorem along_congr {ok' : σ → α → Prop} (hP : ∀ s a s', P s → step s a = some s' → P s')
    (hok : ∀ s a, P s → (ok s a ↔ ok' s a)) :
    ∀ {as : List α} {s : σ}, P s → (Along step ok s as ↔ Along step ok' s as)
  | [], _, _ => Iff.rfl
  | a :: _, s, hs => and_congr (hok s a hs)
      (forall_congr' fun s' => imp_congr_right fun h => along_congr hP hok (hP s a s' hs h))

/-- A condition on the actions alone holds along a run as soon as it holds of each action. -/
theorem along_of_forall {p : α → Prop} : ∀ {as : List α} {s : σ}, (∀ a ∈ as, p a) →
    Along step (fun _ a => p a) s as
  | [], _, _ => trivial
  | a :: _, _, h => ⟨h a (List.mem_cons_self ..), fun _ _ =>
      along_of_forall fun b hb => h b (List.mem_cons_of_mem _ hb)⟩

/-- Along a run that exists, a condition on the actions alone is a condition on each of them. -/
theorem along_iff_forall {p : α → Prop} {as : List α} {s t : σ} (hrun : run step s as = some t) :
    Along step (fun _ a => p a) s as ↔ ∀ a ∈ as, p a := by
  refine ⟨fun h => ?_, along_of_forall⟩
  induction as generalizing s with
  | nil => exact fun a ha => absurd ha List.not_mem_nil
  | cons b as ih =>
    obtain ⟨mid, hmid, hrest⟩ := run_cons.mp hrun
    obtain ⟨hb, hall⟩ := (along_cons hmid).mp h
    intro a ha
    rcases List.mem_cons.mp ha with rfl | ha
    · exact hb
    · exact ih hrest hall a ha

end Streambox.Lib
