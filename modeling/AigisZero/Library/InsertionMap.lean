import Mathlib.Data.List.Nodup

/-!
# Maps that remember the order of insertion

A map whose keys are gone through in the order in which they were first
written. Writing to a key that is there leaves it in its place; a key that
is deleted and written again comes last.
-/

namespace AigisZero

/-- **A map in the order of insertion**, each key once. -/
structure InsertionMap (κ ν : Type*) where
  entries : List (κ × ν)
  nodup : (entries.map Prod.fst).Nodup

namespace InsertionMap

variable {κ ν : Type*} [DecidableEq κ]

/-- The empty map. -/
def empty : InsertionMap κ ν := ⟨[], List.nodup_nil⟩

/-- The keys, in the order of insertion. -/
def keys (m : InsertionMap κ ν) : List κ := m.entries.map Prod.fst

/-- The value at a key. -/
def get? (m : InsertionMap κ ν) (k : κ) : Option ν :=
  (m.entries.find? fun e => e.1 = k).map Prod.snd

/-- Writing to a key of a list of entries. -/
def write (k : κ) (v : ν) : List (κ × ν) → List (κ × ν)
  | [] => [(k, v)]
  | e :: l => if e.1 = k then (k, v) :: l else e :: write k v l

theorem map_fst_write (k : κ) (v : ν) (l : List (κ × ν)) :
    (write k v l).map Prod.fst =
      if k ∈ l.map Prod.fst then l.map Prod.fst else l.map Prod.fst ++ [k] := by
  induction l with
  | nil => rfl
  | cons e l ih =>
    unfold write
    by_cases h : e.1 = k
    · rw [if_pos h, List.map_cons, List.map_cons, h, if_pos List.mem_cons_self]
    · have hmem : k ∈ (e :: l).map Prod.fst ↔ k ∈ l.map Prod.fst := by
        rw [List.map_cons, List.mem_cons]
        exact or_iff_right (Ne.symm h)
      simp only [if_neg h, hmem]
      rw [List.map_cons, ih]
      split <;> rfl

theorem nodup_write {l : List (κ × ν)} (h : (l.map Prod.fst).Nodup) (k : κ) (v : ν) :
    ((write k v l).map Prod.fst).Nodup := by
  rw [map_fst_write]
  split
  · exact h
  · next hk => exact h.append (List.nodup_singleton k) (List.disjoint_singleton.2 hk)

/-- The map with a value written at a key. -/
def set (m : InsertionMap κ ν) (k : κ) (v : ν) : InsertionMap κ ν where
  entries := write k v m.entries
  nodup := nodup_write m.nodup k v

/-- The map without a key. -/
def delete (m : InsertionMap κ ν) (k : κ) : InsertionMap κ ν where
  entries := m.entries.filter fun e => e.1 ≠ k
  nodup := m.nodup.sublist (List.filter_sublist.map _)

variable {m : InsertionMap κ ν} {k k' : κ} {v : ν}

@[simp] theorem get?_empty : (empty : InsertionMap κ ν).get? k = none := rfl

/-- **What was written is read back**, and the other keys are as before. -/
theorem get?_set : (m.set k v).get? k' = if k' = k then some v else m.get? k' := by
  obtain ⟨l, hl⟩ := m
  unfold set get?
  dsimp only
  clear hl
  induction l with
  | nil =>
    by_cases h : k' = k
    · simp [write, h]
    · simp [write, h, Ne.symm h]
  | cons e l ih =>
    unfold write
    by_cases he : e.1 = k
    · rw [if_pos he]
      by_cases h : k' = k
      · simp [h]
      · have hne : e.1 ≠ k' := fun heq => h (heq.symm.trans he)
        simp [h, Ne.symm h, hne]
    · rw [if_neg he]
      by_cases hk' : e.1 = k'
      · have hne : k' ≠ k := fun heq => he (hk'.trans heq)
        simp [hk', hne]
      · rw [List.find?_cons_of_neg (by simpa using hk'), ih,
          List.find?_cons_of_neg (by simpa using hk')]

/-- **What was deleted is gone**, and the other keys are as before. -/
theorem get?_delete : (m.delete k).get? k' = if k' = k then none else m.get? k' := by
  obtain ⟨l, hl⟩ := m
  unfold delete get?
  dsimp only
  clear hl
  induction l with
  | nil => simp
  | cons e l ih =>
    by_cases he : e.1 = k
    · rw [List.filter_cons_of_neg (by simpa using he), ih]
      by_cases h : k' = k
      · rw [if_pos h, if_pos h]
      · have hne : e.1 ≠ k' := fun heq => h (heq.symm.trans he)
        rw [if_neg h, if_neg h, List.find?_cons_of_neg (by simpa using hne)]
    · rw [List.filter_cons_of_pos (by simpa using he)]
      by_cases hk' : e.1 = k'
      · have hne : k' ≠ k := fun heq => he (hk'.trans heq)
        simp [hk', hne]
      · rw [List.find?_cons_of_neg (by simpa using hk'), ih,
          List.find?_cons_of_neg (by simpa using hk')]

theorem mem_keys_of_get? (h : m.get? k = some v) : k ∈ m.keys := by
  obtain ⟨e, he, rfl⟩ := Option.map_eq_some_iff.1 h
  have hkey : e.1 = k := by simpa using List.find?_some he
  exact List.mem_map.2 ⟨e, List.mem_of_find?_eq_some he, hkey⟩

/-- **What is left after some keys were deleted one by one.** -/
theorem get?_foldl_delete (ks : List κ) :
    (ks.foldl delete m).get? k = if k ∈ ks then none else m.get? k := by
  induction ks generalizing m with
  | nil => simp
  | cons k₀ ks ih =>
    rw [List.foldl_cons, ih, get?_delete]
    by_cases h : k ∈ ks
    · rw [if_pos h, if_pos (List.mem_cons_of_mem _ h)]
    · simp only [if_neg h, List.mem_cons, or_iff_left h]

/-- **After some writes**, a key has what was last written to it, and what
it had where nothing was. -/
theorem get?_foldl_set {α : Type*} (key : α → κ) (value : α → ν) (l : List α) :
    (l.foldl (fun m a => m.set (key a) (value a)) m).get? k =
      ((l.reverse.find? fun a => key a = k).map value).or (m.get? k) := by
  induction l generalizing m with
  | nil => rfl
  | cons a l ih =>
    rw [List.foldl_cons, ih, get?_set, List.reverse_cons, List.find?_append]
    cases l.reverse.find? fun a => key a = k with
    | some b => rfl
    | none =>
      by_cases h : k = key a
      · subst h
        simp
      · simp [h, Ne.symm h]

/-- A key has what the entry with it says. -/
theorem get?_eq_some_iff : m.get? k = some v ↔ (k, v) ∈ m.entries := by
  constructor
  · intro h
    obtain ⟨e, he, rfl⟩ := Option.map_eq_some_iff.1 h
    have hkey : e.1 = k := by simpa using List.find?_some he
    exact hkey ▸ List.mem_of_find?_eq_some he
  · intro h
    unfold get?
    cases hfind : m.entries.find? fun e => e.1 = k with
    | none =>
      have hnone := List.find?_eq_none.1 hfind (k, v) h
      exact absurd (decide_eq_true rfl) hnone
    | some e =>
      have hkey : e.1 = k := by simpa using List.find?_some hfind
      have hmem := List.mem_of_find?_eq_some hfind
      obtain rfl : e = (k, v) := List.inj_on_of_nodup_map m.nodup hmem h hkey
      rfl

end InsertionMap

end AigisZero
