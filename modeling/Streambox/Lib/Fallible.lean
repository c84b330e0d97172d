import Mathlib.Order.Basic

/-! Computations that may fail, and loops of them.

    `Ends x allowed post` says what becomes of a computation: if it fails, then with an error that is
    allowed, and if it returns, then with a result that is promised. There is a rule for each way to
    put computations together.

    A turn of a loop gives the next state, or `none` when the loop's condition no longer holds, or
    an error that leaves the loop. A loop of which every turn keeps an invariant and lowers a number
    ends, and it fails only as its turns do. -/

namespace Streambox.Lib

universe u
variable {α β : Type u} {σ ε : Type*}

/-- If it fails, it is with an allowed error; if it returns, it is with a promised result. -/
def Ends (x : Except ε α) (allowed : ε → Prop) (post : α → Prop) : Prop :=
  match x with
  | .error e => allowed e
  | .ok a => post a

variable {allowed : ε → Prop} {post : α → Prop} {x y : Except ε α}

theorem Ends.mono {allowed' : ε → Prop} {post' : α → Prop} (hx : Ends x allowed post)
    (herror : ∀ e, allowed e → allowed' e) (hok : ∀ a, post a → post' a) :
    Ends x allowed' post' := by
  cases x with
  | error e => exact herror e hx
  | ok a => exact hok a hx

theorem Ends.bind {f : α → Except ε β} {post' : β → Prop} (hx : Ends x allowed post)
    (hf : ∀ a, post a → Ends (f a) allowed post') : Ends (x >>= f) allowed post' := by
  cases x with
  | error e => exact hx
  | ok a => exact hf a hx

/-- A result of two computations in a row is one of the second for a result of the first. -/
theorem exists_of_bind_eq_ok {f : α → Except ε β} {b : β} (h : x >>= f = .ok b) :
    ∃ a, x = .ok a ∧ f a = .ok b := by
  cases x with
  | error e => cases h
  | ok a => exact ⟨a, rfl, h⟩

theorem Ends.ite {c : Prop} [Decidable c] (hx : c → Ends x allowed post)
    (hy : ¬ c → Ends y allowed post) : Ends (if c then x else y) allowed post := by
  by_cases h : c
  · rw [if_pos h]
    exact hx h
  · rw [if_neg h]
    exact hy h

/-- A list of computations fails as one of them does. -/
theorem Ends.mapM {f : β → Except ε α} {l : List β} (h : ∀ b ∈ l, Ends (f b) allowed post) :
    Ends (l.mapM f) allowed fun as => ∀ a ∈ as, post a := by
  induction l with
  | nil => simp [Ends, pure, Except.pure]
  | cons b l ih =>
    rw [List.mapM_cons]
    refine (h b (List.mem_cons_self ..)).bind fun a ha => ?_
    refine (ih fun c hc => h c (List.mem_cons_of_mem _ hc)).bind fun as has => ?_
    simpa [Ends, pure, Except.pure] using ⟨ha, has⟩

/-- An error that is not allowed does not come out. -/
theorem Ends.ne_error {e : ε} (hx : Ends x allowed post) (he : ¬ allowed e) : x ≠ .error e := by
  rintro rfl
  exact he hx

theorem Ends.of_eq_ok {a : α} (hx : Ends x allowed post) (h : x = .ok a) : post a := by
  subst h
  exact hx

/-! ### Loops -/

/-- Take turns, no more than a number of them: `none` if the loop has not ended by then. -/
def takeTurns (turn : σ → Except ε (Option σ)) : Nat → σ → Option (Except ε Unit)
  | 0, _ => none
  | turns + 1, s =>
    match turn s with
    | .error e => some (.error e)
    | .ok none => some (.ok ())
    | .ok (some s') => takeTurns turn turns s'

/-- If every turn from a state with `I` that goes on leads to a state with `I` that has a smaller
    number, the loop ends within as many turns as the number says, and more do not matter. -/
theorem takeTurns_ends {turn : σ → Except ε (Option σ)} {I : σ → Prop} {μ : σ → Nat}
    (hturn : ∀ s, I s → Ends (turn s) allowed fun o => ∀ s', o = some s' → I s' ∧ μ s' < μ s)
    (s : σ) (hs : I s) :
    ∃ r : Except ε Unit, Ends r allowed (fun _ => True) ∧
      ∀ turns, μ s < turns → takeTurns turn turns s = some r := by
  induction hn : μ s using Nat.strongRecOn generalizing s with
  | ind n ih =>
    subst hn
    have hends := hturn s hs
    rcases hs' : turn s with e | _ | s'
    · rw [hs'] at hends
      refine ⟨.error e, hends, fun turns hlt => ?_⟩
      obtain ⟨k, rfl⟩ := Nat.exists_eq_add_of_lt hlt
      rw [takeTurns, hs']
    · refine ⟨.ok (), trivial, fun turns hlt => ?_⟩
      obtain ⟨k, rfl⟩ := Nat.exists_eq_add_of_lt hlt
      rw [takeTurns, hs']
    · obtain ⟨hI, hlow⟩ := hends.of_eq_ok hs' s' rfl
      obtain ⟨r, hr, hruns⟩ := ih (μ s') hlow s' hI rfl
      refine ⟨r, hr, fun turns hlt => ?_⟩
      obtain ⟨k, rfl⟩ := Nat.exists_eq_add_of_lt hlt
      rw [takeTurns, hs']
      exact hruns _ (by omega)

end Streambox.Lib
