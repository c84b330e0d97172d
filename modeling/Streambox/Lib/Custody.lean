import Mathlib.Data.Finset.Insert
import Mathlib.Data.Finset.Erase
import Mathlib.Data.List.Nodup

/-! Custody of resources.

    A component takes resources and drops them again. Who hands them out does not hand out what is
    still in hand, that is `Fair`; the component is `Lawful` if it drops only what is in hand, so that
    each resource is dropped at most once each time it was taken.

    `Turns as before after` says that the acts `as` turn the holdings `before` into `after`, lawfully,
    and whatever else is held. Such facts are put together act by act and part by part. -/

namespace Streambox.Lib.Custody

/-- Something comes to hand, or leaves it. -/
inductive Act (ρ : Type*)
  | take (r : ρ)
  | drop (r : ρ)
  deriving DecidableEq, Repr

variable {ρ : Type*} [DecidableEq ρ] {h : Finset ρ} {as bs : List (Act ρ)} {r : ρ}

/-- What is in hand after one act. -/
def Act.apply (h : Finset ρ) : Act ρ → Finset ρ
  | .take r => insert r h
  | .drop r => h.erase r

/-- What is in hand after some acts. -/
def hand (h : Finset ρ) (as : List (Act ρ)) : Finset ρ := as.foldl Act.apply h

/-- Nothing is handed out that is still in hand. -/
def Fair (h : Finset ρ) : List (Act ρ) → Prop
  | [] => True
  | .take r :: as => r ∉ h ∧ Fair (insert r h) as
  | .drop r :: as => Fair (h.erase r) as

/-- Only what is in hand is dropped. -/
def Lawful (h : Finset ρ) : List (Act ρ) → Prop
  | [] => True
  | .take r :: as => Lawful (insert r h) as
  | .drop r :: as => r ∈ h ∧ Lawful (h.erase r) as

instance decidableFair : ∀ (h : Finset ρ) (as : List (Act ρ)), Decidable (Fair h as)
  | _, [] => isTrue trivial
  | h, .take r :: as => @instDecidableAnd _ _ _ (decidableFair (insert r h) as)
  | h, .drop r :: as => decidableFair (h.erase r) as

instance decidableLawful : ∀ (h : Finset ρ) (as : List (Act ρ)), Decidable (Lawful h as)
  | _, [] => isTrue trivial
  | h, .take r :: as => decidableLawful (insert r h) as
  | h, .drop r :: as => @instDecidableAnd _ _ _ (decidableLawful (h.erase r) as)

@[simp] theorem hand_nil : hand h [] = h := rfl

theorem hand_append : hand h (as ++ bs) = hand (hand h as) bs := List.foldl_append

theorem fair_append : Fair h (as ++ bs) ↔ Fair h as ∧ Fair (hand h as) bs := by
  induction as generalizing h with
  | nil => simp [Fair]
  | cons a as ih =>
    cases a with
    | take r => exact (and_congr_right fun _ => ih).trans and_assoc.symm
    | drop r => exact ih

theorem lawful_append : Lawful h (as ++ bs) ↔ Lawful h as ∧ Lawful (hand h as) bs := by
  induction as generalizing h with
  | nil => simp [Lawful]
  | cons a as ih =>
    cases a with
    | take r => exact ih
    | drop r => exact (and_congr_right fun _ => ih).trans and_assoc.symm

/-- The acts were lawful, and `held` lists what is in hand, everything once. -/
structure Accounted (as : List (Act ρ)) (held : List ρ) : Prop where
  lawful : Lawful ∅ as
  nodup : held.Nodup
  hand : ∀ r, r ∈ hand ∅ as ↔ r ∈ held

theorem Accounted.perm {held held' : List ρ} (h : Accounted as held) (hperm : held.Perm held') :
    Accounted as held' :=
  ⟨h.lawful, hperm.nodup_iff.mp h.nodup, fun r => (h.hand r).trans hperm.mem_iff⟩

/-- The acts turn `before` into `after`, lawfully, whatever was done before and whatever else is
    held. -/
def Turns (as : List (Act ρ)) (before after : List ρ) : Prop :=
  ∀ past rest, Fair ∅ (past ++ as) → Accounted past (before ++ rest) →
    Accounted (past ++ as) (after ++ rest)

variable {before mid after rest : List ρ}

theorem Turns.nil : Turns [] before before := by
  intro past rest _ hpast
  rwa [List.append_nil]

theorem Turns.append (h₁ : Turns as before mid) (h₂ : Turns bs mid after) :
    Turns (as ++ bs) before after := by
  intro past rest hfair hpast
  rw [← List.append_assoc] at hfair ⊢
  exact h₂ _ rest hfair (h₁ past rest (fair_append.mp hfair).1 hpast)

/-- What is held besides is not touched. -/
theorem Turns.frame (h : Turns as before after) : Turns as (before ++ rest) (after ++ rest) := by
  intro past more hfair hpast
  rw [List.append_assoc] at hpast ⊢
  exact h past (rest ++ more) hfair hpast

theorem Turns.perm {before' after' : List ρ} (h : Turns as before after)
    (hbefore : before'.Perm before) (hafter : after.Perm after') : Turns as before' after' := by
  intro past rest hfair hpast
  exact (h past rest hfair (hpast.perm (hbefore.append_right rest))).perm (hafter.append_right rest)

/-- What is not held is taken. -/
theorem Accounted.take {held : List ρ} (h : Accounted as held) (hr : r ∉ held) :
    Accounted (as ++ [.take r]) (r :: held) := by
  refine ⟨lawful_append.mpr ⟨h.lawful, trivial⟩, List.nodup_cons.mpr ⟨hr, h.nodup⟩, fun x => ?_⟩
  rw [hand_append]
  change x ∈ insert r _ ↔ x ∈ r :: held
  rw [Finset.mem_insert, List.mem_cons, h.hand x]

/-- What is held is dropped. -/
theorem Accounted.drop {held : List ρ} (h : Accounted as (r :: held)) :
    Accounted (as ++ [.drop r]) held := by
  have hin : r ∈ Custody.hand ∅ as := (h.hand r).mpr (List.mem_cons_self ..)
  obtain ⟨hnot, hnodup⟩ := List.nodup_cons.mp h.nodup
  refine ⟨lawful_append.mpr ⟨h.lawful, hin, trivial⟩, hnodup, fun x => ?_⟩
  rw [hand_append]
  change x ∈ Finset.erase _ r ↔ x ∈ held
  rw [Finset.mem_erase, h.hand x, List.mem_cons]
  constructor
  · rintro ⟨hne, hx⟩
    exact hx.resolve_left hne
  · intro hx
    refine ⟨?_, .inr hx⟩
    rintro rfl
    exact hnot hx

theorem Turns.take : Turns [.take r] before (r :: before) := by
  intro past rest hfair hpast
  have hfresh : r ∉ Custody.hand ∅ past := (fair_append.mp hfair).2.1
  exact hpast.take fun hr => hfresh ((hpast.hand r).mpr hr)

theorem Turns.drop : Turns [.drop r] (r :: before) before := by
  intro past rest _ hpast
  exact hpast.drop

/-- First something is taken. -/
theorem Turns.take_then (h : Turns as (r :: before) after) : Turns (.take r :: as) before after :=
  Turns.append Turns.take h

/-- First something is dropped. -/
theorem Turns.drop_then (hperm : before.Perm (r :: mid)) (h : Turns as mid after) :
    Turns (.drop r :: as) before after :=
  Turns.append (Turns.drop.perm hperm (.refl _)) h

/-- Nothing is in hand if nothing is held. -/
theorem Accounted.hand_eq_empty (h : Accounted as []) : Custody.hand ∅ as = ∅ :=
  Finset.eq_empty_of_forall_notMem fun r hr => List.not_mem_nil ((h.hand r).mp hr)

end Streambox.Lib.Custody
