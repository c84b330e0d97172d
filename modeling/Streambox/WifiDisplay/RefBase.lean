import Mathlib.Algebra.BigOperators.Group.List.Basic
import Mathlib.Algebra.Ring.Nat
import Mathlib.Data.List.Perm.Basic
import Streambox.Lib.Run

/-! RefBase.cpp: an object that threads hold by strong and by weak references.

        sp ── incStrong ──▶ sp, sp        mStrong: strong references
         └─── createWeak ─▶ sp, wp        mWeak:   all references
        wp ── promote ────▶ wp, sp or wp

    Each step is one atomic operation of one reference, in any order. The object is deleted by the
    last strong reference, its `weakref_impl` by the last one of all. The lifetime is
    `OBJECT_LIFETIME_STRONG`. All this is so only if the first reference is an `sp`: a `wp` that is
    made of the raw pointer before may be promoted too late, or take the object away. -/

namespace Streambox.WifiDisplay.RefBase
open Streambox.Lib

/-- Where a reference is in the function that is called on it. -/
inductive Ref where
  /-- The pointer that `new` returned. -/
  | raw
  /-- In `incStrong` of the first `sp`, behind `incWeak`. -/
  | entering
  /-- `android_atomic_inc` returned `INITIAL_STRONG_VALUE`. -/
  | first
  | strong
  /-- Another `sp` is made of this one: in its `incStrong`, behind `incWeak`. -/
  | copying
  /-- In `decStrong`, when `android_atomic_dec` returned 1, -/
  | last
  /-- and in front of `decWeak`. -/
  | leaving
  | weak
  /-- In `attemptIncStrong`, in front of a read of `mStrong`, -/
  | promoting
  /-- of `android_atomic_cmpxchg`, -/
  | trying (curCount : Int)
  /-- of `android_atomic_inc`, for `INITIAL_STRONG_VALUE` was read, -/
  | allowed
  /-- and of `decWeak`. -/
  | refused
  /-- In `decWeak`, when `android_atomic_dec` returned 1. -/
  | freeing
  deriving DecidableEq, Repr

/-- An object with its `weakref_impl`, and how often either was deleted. -/
structure Object where
  mStrong : Int
  mWeak : Int
  refs : List Ref
  destroyed : Nat
  freed : Nat
  deriving DecidableEq, Repr

/-- INITIAL_STRONG_VALUE. -/
def initialStrongValue : Int := 0x10000000

def start : Object := ⟨initialStrongValue, 0, [.raw], 0, 0⟩

/-- The strong reference that `android_atomic_inc` was called for, which returned `c`. -/
def taken (c : Int) : Ref := if c = initialStrongValue then .first else .strong

/-- `android_atomic_dec` of `decWeak`. -/
def decWeak (s : Object) : Object :=
  { s with mWeak := s.mWeak - 1, refs := if s.mWeak = 1 then .freeing :: s.refs else s.refs }

/-- The next step of a reference in the middle of a function. It is not among the `refs`. -/
def go (s : Object) : Ref → Option Object
  | .raw => some { s with mWeak := s.mWeak + 1, refs := .entering :: s.refs }
  | .entering => some { s with mStrong := s.mStrong + 1, refs := taken s.mStrong :: s.refs }
  | .first => some { s with mStrong := s.mStrong - initialStrongValue, refs := .strong :: s.refs }
  | .copying =>
    some { s with mStrong := s.mStrong + 1, refs := .strong :: taken s.mStrong :: s.refs }
  | .last => some { s with destroyed := s.destroyed + 1, refs := .leaving :: s.refs }
  | .leaving => some (decWeak s)
  | .promoting =>
    if 0 < s.mStrong ∧ s.mStrong ≠ initialStrongValue then
      some { s with refs := .trying s.mStrong :: s.refs }
    else if s.mStrong = initialStrongValue then some { s with refs := .allowed :: s.refs }
    else some { s with refs := .refused :: s.refs }
  | .trying curCount =>
    if s.mStrong = curCount then
      some { s with mStrong := curCount + 1, refs := .weak :: .strong :: s.refs }
    else some { s with refs := .promoting :: s.refs }
  | .allowed =>
    some { s with mStrong := s.mStrong + 1, refs := .weak :: taken s.mStrong :: s.refs }
  | .refused => some (decWeak { s with refs := .weak :: s.refs })
  -- `delete impl->mBase` takes the `weakref_impl` away as well
  | .freeing =>
    some { s with
      destroyed := s.destroyed + if s.mStrong = initialStrongValue then 1 else 0
      freed := s.freed + 1 }
  | .strong | .weak => none

/-- What is done with a reference that is not in the middle of a function. -/
inductive Call where
  | incStrong
  | decStrong
  | createWeak
  | decWeak
  | attemptIncStrong
  deriving DecidableEq, Repr

/-- The first step of a function. -/
def begin (s : Object) : Ref → Call → Option Object
  | .strong, .incStrong => some { s with mWeak := s.mWeak + 1, refs := .copying :: s.refs }
  | .strong, .decStrong =>
    some { s with
      mStrong := s.mStrong - 1
      refs := (if s.mStrong = 1 then Ref.last else .leaving) :: s.refs }
  | .strong, .createWeak => some { s with mWeak := s.mWeak + 1, refs := .strong :: .weak :: s.refs }
  | .weak, .createWeak => some { s with mWeak := s.mWeak + 1, refs := .weak :: .weak :: s.refs }
  | .weak, .decWeak => some (decWeak s)
  | .weak, .attemptIncStrong => some { s with mWeak := s.mWeak + 1, refs := .promoting :: s.refs }
  | .raw, .createWeak => some { s with mWeak := s.mWeak + 1, refs := .raw :: .weak :: s.refs }
  | _, _ => none

inductive Action where
  | begin (r : Ref) (call : Call)
  | go (r : Ref)
  deriving DecidableEq, Repr

/-- One of the references that are at the same place is taken. -/
def without (s : Object) (r : Ref) : Object := { s with refs := s.refs.erase r }

def step (s : Object) : Action → Option Object
  | .begin r call => if r ∈ s.refs then begin (without s r) r call else none
  | .go r => if r ∈ s.refs then go (without s r) r else none

/-! ### Counts -/

/-- What each reference stands for. -/
def Ref.weaks : Ref → Nat
  | .raw | .freeing => 0
  | .copying | .promoting | .trying _ | .allowed | .refused => 2
  | _ => 1

def Ref.strongs : Ref → Nat
  | .first | .strong | .copying => 1
  | _ => 0

/-- The object has had no strong reference. -/
def Ref.news : Ref → Nat
  | .raw | .entering | .first => 1
  | _ => 0

def Ref.lasts : Ref → Nat
  | .last => 1
  | _ => 0

def Ref.frees : Ref → Nat
  | .freeing => 1
  | _ => 0

def Ref.ones (_ : Ref) : Nat := 1

/-- The sum over all references. -/
def tally (f : Ref → Nat) (refs : List Ref) : Nat := (refs.map f).sum

@[simp] theorem tally_nil (f : Ref → Nat) : tally f [] = 0 := rfl

@[simp] theorem tally_cons (f : Ref → Nat) (r : Ref) (refs : List Ref) :
    tally f (r :: refs) = f r + tally f refs := by
  simp [tally]

theorem tally_perm (f : Ref → Nat) {refs refs' : List Ref} (h : refs.Perm refs') :
    tally f refs = tally f refs' := (h.map f).sum_eq

theorem tally_pos {f : Ref → Nat} {r : Ref} {refs : List Ref} (h : r ∈ refs) :
    f r ≤ tally f refs := by
  rw [tally_perm f (List.perm_cons_erase h), tally_cons]
  exact Nat.le_add_right _ _

theorem tally_ones (refs : List Ref) : tally Ref.ones refs = refs.length := by
  induction refs with
  | nil => rfl
  | cons r refs ih => rw [tally_cons, ih, Ref.ones, List.length_cons, Nat.add_comm]

attribute [local simp] Ref.weaks Ref.strongs Ref.news Ref.lasts Ref.frees Ref.ones

/-- What holds of each reference holds of the sums: it counts somewhere, and for one strong reference
    at most. -/
theorem tally_facts (refs : List Ref) :
    tally Ref.ones refs ≤ tally Ref.weaks refs + tally Ref.news refs + tally Ref.frees refs ∧
      tally Ref.weaks refs ≤ 2 * tally Ref.ones refs ∧
      tally Ref.strongs refs ≤ tally Ref.ones refs ∧ tally Ref.news refs ≤ tally Ref.ones refs ∧
      tally Ref.lasts refs ≤ tally Ref.ones refs ∧ tally Ref.frees refs ≤ tally Ref.ones refs := by
  induction refs with
  | nil => simp
  | cons r refs ih =>
    simp only [tally_cons]
    cases r <;> simp <;> omega

/-- What a reference in `attemptIncStrong` has seen, with `n` strong references. -/
def Ref.Seen (n : Nat) : Ref → Prop
  | .trying curCount => 0 < curCount
  | .refused => n = 0
  | .allowed => False
  | _ => True

theorem Ref.Seen.mono {n n' : Nat} {r : Ref} (h : r.Seen n) (hn : n = 0 → n' = 0) : r.Seen n' := by
  cases r with
  | refused => exact hn h
  | _ => exact h

/-- The counters are what the references stand for; the object is there as long as one of them needs
    it, and its `weakref_impl` as long as there is one. -/
def Books (s : Object) (weaks strongs news lasts frees ones : Nat) : Prop :=
  s.mWeak = weaks ∧ s.mStrong = strongs + initialStrongValue * news ∧
    (0 < strongs + news + lasts → s.destroyed = 0) ∧
    (strongs + news + lasts = 0 → s.destroyed = 1) ∧
    (0 < lasts → strongs + news = 0 ∧ lasts = 1) ∧ (0 < news + frees → ones = 1) ∧
    s.freed + min 1 ones = 1

structure Counted (s : Object) : Prop where
  books : Books s (tally Ref.weaks s.refs) (tally Ref.strongs s.refs) (tally Ref.news s.refs)
    (tally Ref.lasts s.refs) (tally Ref.frees s.refs) (tally Ref.ones s.refs)
  seen : ∀ r ∈ s.refs, r.Seen (tally Ref.strongs s.refs + tally Ref.news s.refs)

theorem counted_start : Counted start :=
  ⟨⟨rfl, rfl, fun _ => rfl, by decide, by decide, fun _ => rfl, rfl⟩, by simp [start, Ref.Seen]⟩

/-- The order of the references does not matter. -/
theorem counted_perm {s : Object} (h : Counted s) {refs : List Ref} (hperm : s.refs.Perm refs) :
    Counted { s with refs := refs } := by
  obtain ⟨hbooks, hseen⟩ := h
  simp only [tally_perm _ hperm] at *
  exact ⟨hbooks, fun r hr => hseen r (hperm.mem_iff.mpr hr)⟩

attribute [local simp] Books initialStrongValue

/-- One weak reference less. -/
theorem decWeak_counted {s : Object} (h : Counted { s with refs := .leaving :: s.refs }) :
    Counted (decWeak s) := by
  obtain ⟨hbooks, hseen⟩ := h
  obtain ⟨-, hseen⟩ := List.forall_mem_cons.mp hseen
  have hfacts := tally_facts s.refs
  simp at hbooks hseen
  by_cases hlast : s.mWeak = 1
  · rw [decWeak, if_pos hlast]
    refine ⟨by simp; omega, List.forall_mem_cons.mpr ⟨trivial, fun q hq => ?_⟩⟩
    exact (hseen q hq).mono (by simp)
  · rw [decWeak, if_neg hlast]
    exact ⟨by simp; omega, hseen⟩

theorem go_counted {s s' : Object} {r : Ref} (h : Counted { s with refs := r :: s.refs })
    (hfew : tally Ref.ones s.refs + 1 < 0x10000000) (hgo : go s r = some s') : Counted s' := by
  obtain ⟨hbooks, hseen⟩ := h
  obtain ⟨hr, hseen⟩ := List.forall_mem_cons.mp hseen
  have hfacts := tally_facts s.refs
  simp only [tally_cons] at hbooks hseen hr
  cases r with
  | raw =>
    cases hgo
    simp at hbooks
    refine ⟨by simp; omega, List.forall_mem_cons.mpr ⟨trivial, fun q hq => ?_⟩⟩
    exact (hseen q hq).mono (by simp)
  | entering =>
    cases hgo
    simp at hbooks
    have hnew : s.mStrong = initialStrongValue := by simp; omega
    rw [taken, if_pos hnew]
    refine ⟨by simp; omega, List.forall_mem_cons.mpr ⟨trivial, fun q hq => ?_⟩⟩
    exact (hseen q hq).mono (by simp)
  | first =>
    cases hgo
    simp at hbooks
    refine ⟨by simp; omega, List.forall_mem_cons.mpr ⟨trivial, fun q hq => ?_⟩⟩
    exact (hseen q hq).mono (by simp)
  | copying =>
    cases hgo
    simp at hbooks
    have hold : s.mStrong ≠ initialStrongValue := by simp; omega
    rw [taken, if_neg hold]
    refine ⟨by simp; omega, ?_⟩
    refine List.forall_mem_cons.mpr ⟨trivial, List.forall_mem_cons.mpr ⟨trivial, fun q hq => ?_⟩⟩
    exact (hseen q hq).mono (by simp)
  | last =>
    cases hgo
    simp at hbooks
    refine ⟨by simp; omega, List.forall_mem_cons.mpr ⟨trivial, fun q hq => ?_⟩⟩
    exact (hseen q hq).mono (by simp)
  | leaving =>
    cases hgo
    exact decWeak_counted ⟨hbooks, List.forall_mem_cons.mpr ⟨trivial, hseen⟩⟩
  | promoting =>
    simp at hbooks hseen
    have hold : s.mStrong ≠ initialStrongValue := by simp; omega
    simp only [go, hold, ne_eq, not_false_eq_true, and_true, if_false] at hgo
    split at hgo
    case isTrue hpos =>
      cases hgo
      exact ⟨by simp; omega, List.forall_mem_cons.mpr ⟨hpos, by simpa using hseen⟩⟩
    case isFalse hzero =>
      cases hgo
      refine ⟨by simp; omega, List.forall_mem_cons.mpr ⟨?_, by simpa using hseen⟩⟩
      simp [Ref.Seen]
      omega
  | trying curCount =>
    have hpos : 0 < curCount := hr
    simp at hbooks hseen
    rw [go] at hgo
    split at hgo
    case isTrue hsame =>
      cases hgo
      refine ⟨by simp; omega, ?_⟩
      refine List.forall_mem_cons.mpr ⟨trivial, List.forall_mem_cons.mpr ⟨trivial, fun q hq => ?_⟩⟩
      exact (hseen q hq).mono (by omega)
    case isFalse hother =>
      cases hgo
      exact ⟨by simp; omega, List.forall_mem_cons.mpr ⟨trivial, by simpa using hseen⟩⟩
  | allowed => exact hr.elim
  | refused =>
    cases hgo
    refine decWeak_counted ⟨?_, ?_⟩
    · simp at hbooks ⊢
      omega
    · simp at hseen
      exact List.forall_mem_cons.mpr
        ⟨trivial, List.forall_mem_cons.mpr ⟨trivial, by simpa using hseen⟩⟩
  | freeing =>
    cases hgo
    simp at hbooks
    have hold : s.mStrong ≠ initialStrongValue := by simp; omega
    rw [if_neg hold]
    exact ⟨by simp; omega, fun q hq => (hseen q hq).mono (by simp)⟩
  | strong => cases hgo
  | weak => cases hgo

theorem begin_counted {s s' : Object} {r : Ref} {call : Call}
    (h : Counted { s with refs := r :: s.refs }) (hfirst : ¬ (r = .raw ∧ call = .createWeak))
    (hbegin : begin s r call = some s') : Counted s' := by
  obtain ⟨hbooks, hseen⟩ := h
  obtain ⟨-, hseen⟩ := List.forall_mem_cons.mp hseen
  have hfacts := tally_facts s.refs
  simp only [tally_cons] at hbooks hseen
  unfold begin at hbegin
  split at hbegin
  · cases hbegin
    simp at hbooks
    refine ⟨by simp; omega, List.forall_mem_cons.mpr ⟨trivial, fun q hq => ?_⟩⟩
    exact (hseen q hq).mono (by simp)
  · cases hbegin
    simp at hbooks
    split
    · refine ⟨by simp; omega, List.forall_mem_cons.mpr ⟨trivial, fun q hq => ?_⟩⟩
      exact (hseen q hq).mono (by simp)
    · refine ⟨by simp; omega, List.forall_mem_cons.mpr ⟨trivial, fun q hq => ?_⟩⟩
      exact (hseen q hq).mono (by simp)
  · cases hbegin
    simp at hbooks
    refine ⟨by simp; omega, ?_⟩
    refine List.forall_mem_cons.mpr ⟨trivial, List.forall_mem_cons.mpr ⟨trivial, fun q hq => ?_⟩⟩
    exact (hseen q hq).mono (by simp)
  · cases hbegin
    simp at hbooks
    refine ⟨by simp; omega, ?_⟩
    refine List.forall_mem_cons.mpr ⟨trivial, List.forall_mem_cons.mpr ⟨trivial, fun q hq => ?_⟩⟩
    exact (hseen q hq).mono (by simp)
  · cases hbegin
    exact decWeak_counted ⟨hbooks, List.forall_mem_cons.mpr ⟨trivial, hseen⟩⟩
  · cases hbegin
    simp at hbooks
    refine ⟨by simp; omega, List.forall_mem_cons.mpr ⟨trivial, fun q hq => ?_⟩⟩
    exact (hseen q hq).mono (by simp)
  · exact absurd ⟨rfl, rfl⟩ hfirst
  · cases hbegin

/-- There are fewer references than `INITIAL_STRONG_VALUE`, and no `wp` is made of the raw pointer. -/
def orderly (s : Object) (a : Action) : Bool :=
  s.refs.length < 0x10000000 && a ≠ .begin .raw .createWeak

theorem step_counted {s s' : Object} {a : Action} (h : Counted s) (horderly : orderly s a = true)
    (hstep : step s a = some s') : Counted s' := by
  obtain ⟨hfew, hfirst⟩ : s.refs.length < 0x10000000 ∧ a ≠ .begin .raw .createWeak := by
    simpa [orderly] using horderly
  have htaken : ∀ r ∈ s.refs, Counted { without s r with refs := r :: (without s r).refs } :=
    fun r hr => counted_perm h (List.perm_cons_erase hr)
  cases a with
  | begin r call =>
    rw [step] at hstep
    split at hstep
    · next hr =>
      refine begin_counted (htaken r hr) ?_ hstep
      rintro ⟨rfl, rfl⟩
      exact hfirst rfl
    · cases hstep
  | go r =>
    rw [step] at hstep
    split at hstep
    · next hr =>
      refine go_counted (htaken r hr) ?_ hstep
      rw [(List.perm_cons_erase hr).length_eq, List.length_cons] at hfew
      rw [tally_ones]
      exact hfew
    · cases hstep

/-- The function that a reference is in reads the object, or has yet to delete it. -/
def Ref.needsObject (r : Ref) : Bool := 0 < r.strongs + r.news + r.lasts

theorem any_needsObject (refs : List Ref) : refs.any Ref.needsObject = true ↔
    0 < tally Ref.strongs refs + tally Ref.news refs + tally Ref.lasts refs := by
  induction refs with
  | nil => simp
  | cons r refs ih =>
    rw [List.any_cons, Bool.or_eq_true, ih, Ref.needsObject, decide_eq_true_iff]
    simp only [tally_cons]
    omega

/-- In every order of the atomic steps of any number of references, the first of them an `sp`, the
    object is deleted once, and not before the last reference that needs it is gone; its
    `weakref_impl` is deleted once, and not before there is no reference; and `promote` is refused
    only when there is no strong one. -/
theorem deleted_once {as : List Action} {s : Object} (hrun : run step start as = some s)
    (horderly : Along step (fun s a => orderly s a = true) start as) :
    s.destroyed = (if s.refs.any Ref.needsObject then 0 else 1) ∧
      s.freed = (if s.refs = [] then 1 else 0) ∧
      (.refused ∈ s.refs → ∀ r ∈ s.refs, r.strongs + r.news = 0) := by
  have hcounted : Counted s :=
    run_invariant (fun _ _ _ h hok hstep => step_counted h hok hstep) hrun horderly counted_start
  obtain ⟨⟨-, -, halive, hdead, -, -, hkept⟩, hseen⟩ := hcounted
  refine ⟨?_, ?_, fun hrefused r hr => ?_⟩
  · split
    · next hneeds => exact halive ((any_needsObject s.refs).mp hneeds)
    · next hneeds =>
      rw [any_needsObject] at hneeds
      exact hdead (by omega)
  · rw [tally_ones] at hkept
    split
    · next hnil =>
      rw [hnil, List.length_nil] at hkept
      omega
    · next hne =>
      have hpos := List.length_pos_iff.mpr hne
      omega
  · have hnone : tally Ref.strongs s.refs + tally Ref.news s.refs = 0 := hseen _ hrefused
    have hstrong := tally_pos (f := Ref.strongs) hr
    have hnew := tally_pos (f := Ref.news) hr
    omega

/-- An `sp` goes away between the read and the exchange of a `promote`. -/
def promoteRun : List Action :=
  [.go .raw, .go .entering, .go .first, .begin .strong .createWeak, .begin .weak .attemptIncStrong,
    .go .promoting, .begin .strong .decStrong, .go .last, .go (.trying 1), .go .promoting,
    .go .leaving, .go .refused, .begin .weak .decWeak, .go .freeing]

theorem deleted_once_promote : ∃ s, run step start promoteRun = some s ∧ s.refs = [] ∧
    s.destroyed = 1 ∧ s.freed = 1 := by
  have hfacts : (run step start promoteRun).any (fun s => s.refs = []) = true ∧
      alongCheck step orderly start promoteRun = true := by
    decide
  obtain ⟨s, hrun, hs⟩ := (Option.any_eq_true _ _).mp hfacts.1
  have hnil : s.refs = [] := of_decide_eq_true hs
  obtain ⟨hdestroyed, hfreed, -⟩ := deleted_once hrun (along_of_check hfacts.2)
  rw [hnil] at hdestroyed hfreed
  exact ⟨s, hrun, hnil, hdestroyed, hfreed⟩

/-- A `wp` that is made before the first `sp` may still be promoted when the object is gone. -/
example : ((run step start
    [.begin .raw .createWeak, .begin .weak .attemptIncStrong, .go .promoting, .go .raw,
      .go .entering, .go .first, .begin .strong .decStrong, .go .last, .go .allowed]).map fun s =>
        (s.destroyed, decide (.strong ∈ s.refs))) = some (1, true) := by
  decide

end Streambox.WifiDisplay.RefBase
