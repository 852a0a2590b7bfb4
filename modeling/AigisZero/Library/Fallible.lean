import Mathlib.Data.List.Basic
import Mathlib.Logic.Basic

/-!
# Fallible computations

When a computation in `Except` returns: each part of it did, and each turn
of a loop.
-/

namespace AigisZero

universe u v

variable {ε ε' α β : Type*} {a : α} {b : β}

theorem bind_eq_ok {ε α β : Type u} {x : Except ε α} {f : α → Except ε β} {b : β} :
    (x >>= f) = .ok b ↔ ∃ a, x = .ok a ∧ f a = .ok b := by
  cases x with
  | error e => exact iff_of_false nofun (by rintro ⟨a, h, -⟩; cases h)
  | ok a => exact ⟨fun h => ⟨a, rfl, h⟩, by rintro ⟨a', h, hf⟩; cases h; exact hf⟩

theorem map_eq_ok {x : Except ε α} {f : α → β} : x.map f = .ok b ↔ ∃ a, x = .ok a ∧ f a = b := by
  cases x <;> simp [Except.map]

theorem mapError_eq_ok {x : Except ε α} {f : ε → ε'} : x.mapError f = .ok a ↔ x = .ok a := by
  cases x with
  | error e => exact iff_of_false nofun nofun
  | ok x => exact ⟨fun h => by cases h; rfl, fun h => by cases h; rfl⟩

/-- Where each element can be read, all are. -/
theorem mapM_eq_some_map {α β : Type u} {f : α → Option β} {g : α → β} {l : List α}
    (h : ∀ a ∈ l, f a = some (g a)) : l.mapM f = some (l.map g) := by
  induction l with
  | nil => rfl
  | cons a l ih =>
    rw [List.mapM_cons, h a List.mem_cons_self, ih fun b hb => h b (List.mem_cons_of_mem a hb)]
    rfl

/-- **A loop that returns keeps its invariant**: what holds of the start,
and is kept by each turn that returns, holds of all turns at the end. -/
theorem foldlM_invariant {ε σ : Type u} {α : Type v} {f : σ → α → Except ε σ} {s t : σ}
    {l : List α} {I : List α → σ → Prop} (hstart : I [] s)
    (hturn : ∀ done a s t, I done s → f s a = .ok t → I (done ++ [a]) t)
    (h : l.foldlM f s = .ok t) : I l t := by
  -- the turns taken so far are a prefix of the list
  have hloop : ∀ (rest done : List α) (s : σ), I done s → rest.foldlM f s = .ok t →
      I (done ++ rest) t := by
    intro rest
    induction rest with
    | nil =>
      intro done s hs hrest
      rw [List.append_nil]
      exact Except.ok.inj hrest ▸ hs
    | cons a rest ih =>
      intro done s hs hrest
      rw [List.foldlM_cons] at hrest
      obtain ⟨s', hs', hrest⟩ := bind_eq_ok.1 hrest
      have hdone := ih (done ++ [a]) s' (hturn done a s s' hs hs') hrest
      rwa [List.append_assoc] at hdone
  exact hloop l [] s hstart h

end AigisZero
