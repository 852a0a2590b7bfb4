import Mathlib.Data.List.Basic
import Mathlib.Logic.Nontrivial.Basic

/-!
# Candidates in turn

A value is looked for in several places in turn, and in each it may be
absent, or be there and of no use. To take the first that is there is not
to take the first that can be used.
-/

namespace AigisZero

variable {α β : Type*} (usable : α → Option β) (candidates : List (Option α))

/-- The first candidate that is there. -/
def firstPresent : Option α := candidates.findSome? id

/-- What the first candidate that can be used is used as. -/
def firstUsable : Option β := candidates.findSome? (·.bind usable)

/-- **The first candidate that is there hides one that can be used**: it
cannot be used itself. -/
def Hides : Prop :=
  (∃ a, firstPresent candidates = some a ∧ usable a = none) ∧
    (firstUsable usable candidates).isSome

variable {usable candidates}

theorem firstPresent_cons (a : Option α) :
    firstPresent (a :: candidates) = a.or (firstPresent candidates) := by
  cases a <;> rfl

theorem firstUsable_cons (a : Option α) :
    firstUsable usable (a :: candidates) = (a.bind usable).or (firstUsable usable candidates) := by
  rw [firstUsable, List.findSome?_cons]
  cases a.bind usable <;> rfl

/-- What the first candidate is used as, where it can be used. -/
theorem firstUsable_of_firstPresent {a : α} {b : β} (h : firstPresent candidates = some a)
    (hb : usable a = some b) : firstUsable usable candidates = some b := by
  induction candidates with
  | nil => cases h
  | cons c candidates ih =>
    rw [firstPresent_cons] at h
    rw [firstUsable_cons]
    cases c with
    | none => exact ih h
    | some c =>
      obtain rfl := Option.some.inj h
      rw [Option.bind_some, hb, Option.some_or]

/-- Where nothing is there, nothing can be used. -/
theorem firstUsable_eq_none (h : firstPresent candidates = none) :
    firstUsable usable candidates = none := by
  rw [firstPresent, List.findSome?_eq_none_iff] at h
  exact List.findSome?_eq_none_iff.2 fun c hc => by rw [show c = none from h c hc]; rfl

/-- **The first that is there is the first that can be used**, unless it
hides it. -/
theorem bind_firstPresent_cases (usable : α → Option β) (candidates : List (Option α)) :
    (firstPresent candidates).bind usable = firstUsable usable candidates ∧
        ¬Hides usable candidates ∨
      (firstPresent candidates).bind usable = none ∧ Hides usable candidates := by
  cases hpresent : firstPresent candidates with
  | none =>
    refine .inl ⟨(firstUsable_eq_none hpresent).symm, ?_⟩
    rintro ⟨⟨a, ha, -⟩, -⟩
    rw [hpresent] at ha
    cases ha
  | some a =>
    rw [Option.bind_some]
    cases husable : usable a with
    | some b =>
      refine .inl ⟨(firstUsable_of_firstPresent hpresent husable).symm, ?_⟩
      rintro ⟨⟨a', ha', hnone⟩, -⟩
      obtain rfl := Option.some.inj (hpresent.symm.trans ha')
      rw [husable] at hnone
      cases hnone
    | none =>
      cases hlater : firstUsable usable candidates with
      | none => exact .inl ⟨rfl, fun h => by rw [Hides, hlater] at h; exact absurd h.2 (by simp)⟩
      | some b => exact .inr ⟨rfl, ⟨a, hpresent, husable⟩, by rw [hlater]; rfl⟩

theorem bind_firstPresent_eq_iff : (firstPresent candidates).bind usable =
    firstUsable usable candidates ↔ ¬Hides usable candidates := by
  rcases bind_firstPresent_cases usable candidates with
    ⟨heq, hnot⟩ | ⟨hnone, hhides⟩
  · exact iff_of_true heq hnot
  · refine iff_of_false (fun heq => ?_) (not_not.2 hhides)
    have hsome := hhides.2
    rw [← heq, hnone] at hsome
    cases hsome

/-- No default makes up for what is hidden. -/
theorem forall_getD_firstPresent_eq_iff [Nontrivial β] :
    (∀ d, ((firstPresent candidates).bind usable).getD d =
      (firstUsable usable candidates).getD d) ↔ ¬Hides usable candidates := by
  rcases bind_firstPresent_cases usable candidates with
    ⟨heq, hnot⟩ | ⟨hnone, hhides⟩
  · exact iff_of_true (fun d => by rw [heq]) hnot
  · refine iff_of_false (fun h => ?_) (not_not.2 hhides)
    obtain ⟨b, hb⟩ := Option.isSome_iff_exists.1 hhides.2
    obtain ⟨d, hd⟩ := exists_ne b
    have hsame := h d
    rw [hnone, hb] at hsame
    exact hd hsame

/-- With a default, what is hidden may be the default. -/
theorem getD_firstPresent_eq_iff {d : β} : ((firstPresent candidates).bind usable).getD d =
    (firstUsable usable candidates).getD d ↔
      (Hides usable candidates → firstUsable usable candidates = some d) := by
  rcases bind_firstPresent_cases usable candidates with
    ⟨heq, hnot⟩ | ⟨hnone, hhides⟩
  · exact iff_of_true (by rw [heq]) fun h => absurd h hnot
  · obtain ⟨b, hb⟩ := Option.isSome_iff_exists.1 hhides.2
    rw [hnone, hb, Option.getD_none, Option.getD_some, imp_iff_right hhides, Option.some.injEq]
    exact eq_comm

end AigisZero
