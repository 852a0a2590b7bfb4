import Mathlib.Data.List.Nodup

/-!
# Tables where the first row of a key stays

A table whose rows have distinct keys, and the insert that does nothing
where the key is taken. What a list of inserts leaves is the first row of
each key.
-/

namespace AigisZero

/-- **A table under a key.** -/
structure KeyedTable {ρ κ : Type*} (key : ρ → κ) where
  rows : List ρ
  nodup : (rows.map key).Nodup

namespace KeyedTable

variable {ρ κ : Type*} {key : ρ → κ}

/-- No rows. -/
def empty : KeyedTable key := ⟨[], List.nodup_nil⟩

variable [DecidableEq κ]

/-- The row of a key. -/
def find (t : KeyedTable key) (k : κ) : Option ρ := t.rows.find? (key · = k)

/-- Insert a row; where its key is taken, do nothing. -/
def insert (t : KeyedTable key) (r : ρ) : KeyedTable key :=
  if h : key r ∈ t.rows.map key then t
  else
    ⟨t.rows ++ [r], by
      rw [List.map_append, List.nodup_append]
      refine ⟨t.nodup, List.nodup_singleton _, fun a ha b hb heq => ?_⟩
      rw [List.map_singleton, List.mem_singleton] at hb
      exact h (hb ▸ heq ▸ ha)⟩

/-- Insert rows, one after another. -/
def insertAll (t : KeyedTable key) (l : List ρ) : KeyedTable key := l.foldl insert t

/-- Change the row of a key; what changes it leaves the key alone. -/
def modify (t : KeyedTable key) (k : κ) (set : ρ → ρ) (hset : ∀ r, key (set r) = key r) :
    KeyedTable key :=
  ⟨t.rows.map fun r => if key r = k then set r else r, by
    have hkeys : (t.rows.map fun r => if key r = k then set r else r).map key = t.rows.map key := by
      rw [List.map_map]
      refine List.map_congr_left fun r _ => ?_
      by_cases h : key r = k <;> simp [h, hset]
    rw [hkeys]
    exact t.nodup⟩

variable {t : KeyedTable key} {l l' : List ρ} {r : ρ} {k : κ}

theorem mem_rows_of_find (h : t.find k = some r) : r ∈ t.rows ∧ key r = k :=
  ⟨List.mem_of_find?_eq_some h, by simpa using List.find?_some h⟩

/-- A row is the row of its key. -/
theorem find_of_mem (h : r ∈ t.rows) : t.find (key r) = some r := by
  have hsome : (t.find (key r)).isSome :=
    List.find?_isSome.2 ⟨r, h, by simp⟩
  obtain ⟨r', hr'⟩ := Option.isSome_iff_exists.1 hsome
  obtain ⟨hmem, hkey⟩ := mem_rows_of_find hr'
  rw [hr', List.inj_on_of_nodup_map t.nodup hmem h hkey]

theorem find_eq_none : t.find k = none ↔ k ∉ t.rows.map key := by
  simp only [find, List.find?_eq_none, decide_eq_true_eq, List.mem_map, not_exists, not_and]

/-- **The first row of a key stays.** -/
theorem find_insert : (t.insert r).find k = (t.find k).or (if key r = k then some r else none) := by
  unfold insert
  split
  · next h =>
    split
    · next hk =>
      subst hk
      cases hfind : t.find (key r) with
      | none => exact absurd h (find_eq_none.1 hfind)
      | some r' => rfl
    · rw [Option.or_none]
  · simp only [find, List.find?_append, List.find?_singleton, decide_eq_true_eq]

@[simp] theorem insertAll_nil : t.insertAll [] = t := rfl

@[simp] theorem insertAll_cons : t.insertAll (r :: l) = (t.insert r).insertAll l := rfl

/-- Batches of inserts are inserts. -/
theorem insertAll_append : t.insertAll (l ++ l') = (t.insertAll l).insertAll l' :=
  List.foldl_append

/-- **What is inserted comes behind what there is.** -/
theorem rows_prefix_insertAll : t.rows <+: (t.insertAll l).rows := by
  induction l generalizing t with
  | nil => exact List.prefix_refl _
  | cons r l ih =>
    have hinsert : t.rows <+: (t.insert r).rows := by
      unfold insert
      split
      · exact List.prefix_refl _
      · exact List.prefix_append _ _
    exact hinsert.trans ih

/-- **What inserts leave under a key**: the row there was, or the first of
them. -/
theorem find_insertAll : (t.insertAll l).find k = (t.find k).or (l.find? (key · = k)) := by
  induction l generalizing t with
  | nil => rw [insertAll_nil, List.find?_nil, Option.or_none]
  | cons r l ih =>
    rw [insertAll_cons, ih, find_insert, Option.or_assoc, List.find?_cons]
    by_cases hk : key r = k
    · simp only [hk, if_true, decide_true, Option.some_or]
    · simp only [if_neg hk, decide_eq_false hk, Option.none_or]

/-- A row was there, or is one of those inserted. -/
theorem mem_rows_insertAll (h : r ∈ (t.insertAll l).rows) : r ∈ t.rows ∨ r ∈ l := by
  have hfind := find_of_mem h
  rw [find_insertAll] at hfind
  rcases Option.or_eq_some_iff.1 hfind with hfind | ⟨-, hfind⟩
  · exact .inl (mem_rows_of_find hfind).1
  · exact .inr (List.mem_of_find?_eq_some hfind)

theorem find_empty : (empty : KeyedTable key).find k = none := rfl

theorem find_insertAll_empty :
    ((empty : KeyedTable key).insertAll l).find k = l.find? (key · = k) := by
  rw [find_insertAll, find_empty, Option.none_or]

/-- What inserts fill a table with has the keys it has. -/
theorem exists_mem_insertAll_empty :
    (∃ r ∈ ((empty : KeyedTable key).insertAll l).rows, key r = k) ↔ ∃ r ∈ l, key r = k := by
  have hkeys : (∃ r ∈ ((empty : KeyedTable key).insertAll l).rows, key r = k) ↔
      (((empty : KeyedTable key).insertAll l).find k).isSome := by
    rw [← not_iff_not, Bool.not_eq_true, Option.isSome_eq_false_iff, Option.isNone_iff_eq_none,
      find_eq_none, List.mem_map]
  rw [hkeys, find_insertAll_empty, List.find?_isSome]
  exact exists_congr fun r => and_congr_right fun _ => decide_eq_true_iff

/-- **Only the row of the key is changed.** -/
theorem find_modify {set : ρ → ρ} {hset : ∀ r, key (set r) = key r} {k' : κ} :
    (t.modify k set hset).find k' = (t.find k').map fun r => if k' = k then set r else r := by
  have hpred : (fun r => decide (key r = k')) ∘ (fun r => if key r = k then set r else r) =
      fun r => decide (key r = k') := by
    funext r
    by_cases h : key r = k <;> simp [h, hset]
  unfold find modify
  rw [List.find?_map, hpred]
  cases hfind : t.rows.find? fun r => decide (key r = k') with
  | none => rfl
  | some r =>
    have hkey : key r = k' := by simpa using List.find?_some hfind
    rw [Option.map_some, Option.map_some, hkey]

/-- Where there is no row of the key, nothing is changed. -/
theorem modify_of_none {set : ρ → ρ} {hset : ∀ r, key (set r) = key r} (h : t.find k = none) :
    t.modify k set hset = t := by
  have hrows : t.rows.map (fun r => if key r = k then set r else r) = t.rows := by
    refine (List.map_congr_left fun r hr => if_neg fun hkey => ?_).trans (List.map_id _)
    exact find_eq_none.1 h (hkey ▸ List.mem_map_of_mem hr)
  obtain ⟨rows, nodup⟩ := t
  simp only [modify, mk.injEq]
  exact hrows

end KeyedTable

end AigisZero
