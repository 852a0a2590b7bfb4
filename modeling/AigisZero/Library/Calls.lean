import Mathlib.Data.List.Basic
import Mathlib.Order.Basic

/-!
# Calls that overlap

The calls in progress are a list, and a step of one of them puts it back
where it was. This file says what such a step leaves alone; and, of calls
that take a stamp first and write later, when the last to write is the
latest.
-/

namespace AigisZero.Calls

variable {γ β : Type*} {calls : List γ} {i j : ℕ} {c c' d : γ} {P : γ → Prop}

/-- What a step leaves of its call, it leaves of all. -/
theorem map_set {f : γ → β} (h : calls[i]? = some c) (hf : f c' = f c) :
    (calls.set i c').map f = calls.map f := by
  refine List.ext_getElem? fun j => ?_
  rw [List.getElem?_map, List.getElem?_map, List.getElem?_set]
  by_cases hij : i = j
  · subst hij
    obtain ⟨hi, -⟩ := List.getElem?_eq_some_iff.1 h
    rw [if_pos rfl, if_pos hi, h, Option.map_some, Option.map_some, hf]
  · rw [if_neg hij]

/-- After a step a call is the one that stepped, or another as it was. -/
theorem getElem?_set_cases (h : (calls.set i c')[j]? = some d) :
    (i = j ∧ d = c') ∨ (i ≠ j ∧ calls[j]? = some d) := by
  rw [List.getElem?_set] at h
  by_cases hij : i = j
  · rw [if_pos hij] at h
    obtain ⟨-, h⟩ := Option.ite_none_right_eq_some.1 h
    exact .inl ⟨hij, (Option.some.inj h).symm⟩
  · rw [if_neg hij] at h
    exact .inr ⟨hij, h⟩

/-- What holds of all calls, and of the one that stepped, holds of all
after the step. -/
theorem forall_mem_set (h : ∀ d ∈ calls, P d) (hc' : P c') : ∀ d ∈ calls.set i c', P d := by
  intro d hd
  rcases List.mem_or_eq_of_mem_set hd with hd | rfl
  · exact h d hd
  · exact hc'

/-- Two calls differ in what all calls differ in. -/
theorem ne_of_nodup {f : γ → β} (h : (calls.map f).Nodup) (hc : calls[i]? = some c)
    (hd : calls[j]? = some d) (hij : i ≠ j) : f d ≠ f c := by
  intro heq
  obtain ⟨hi, -⟩ := List.getElem?_eq_some_iff.1 hc
  refine hij ((List.getElem?_inj (by rwa [List.length_map]) h).1 ?_)
  rw [List.getElem?_map, List.getElem?_map, hc, hd, Option.map_some, Option.map_some, heq]

/-! ## Calls that write what they have stamped -/

section Stamped

variable {α τ : Type*}

/-- **The last is as good as the latest**: whatever has the greatest stamp
says the same as what was written last. -/
def LastIsLatest [LE τ] (history : List (α × τ)) : Prop :=
  ∀ last ∈ history.getLast?, ∀ h ∈ history, (∀ h' ∈ history, h'.2 ≤ h.2) → h.1 = last.1

instance [LE τ] [DecidableLE τ] [DecidableEq α] (history : List (α × τ)) :
    Decidable (LastIsLatest history) :=
  inferInstanceAs (Decidable (∀ last ∈ history.getLast?, ∀ h ∈ history, _ → h.1 = last.1))

/-- What is written in the order of the stamps ends with the latest. -/
theorem lastIsLatest_of_sorted [Preorder τ] {history : List (α × τ)}
    (hsorted : history.Pairwise fun h h' => h.2 < h'.2) : LastIsLatest history := by
  intro last hlast h hh hgreatest
  obtain ⟨before, rfl⟩ := List.getLast?_eq_some_iff.1 hlast
  rcases List.mem_append.1 hh with hh | hh
  · -- the last has a greater stamp than what comes before it
    have hless := (List.pairwise_append.1 hsorted).2.2 h hh last (List.mem_singleton_self _)
    exact absurd (hgreatest last (List.mem_append_right _ (List.mem_singleton_self _)))
      hless.not_ge
  · rw [List.mem_singleton.1 hh]

end Stamped

end AigisZero.Calls
