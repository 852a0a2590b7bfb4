import AigisZero.Library.FirstWins

/-!
# Columns where the last value stays

One column of a table is written over, row by row, while the first row of
each key stays and the other columns with it. What a list of such writes
leaves is the first row of each key, with the last value of the column that
was set after it.
-/

namespace AigisZero

variable {ρ κ ν : Type*} {key : ρ → κ}

/-- **A column beside the key.** -/
structure Column (key : ρ → κ) (ν : Type*) where
  get : ρ → ν
  set : ν → ρ → ρ
  key_set : ∀ v r, key (set v r) = key r
  set_set : ∀ v w r, set v (set w r) = set v r
  set_get : ∀ r, set (get r) r = r
  get_set : ∀ v r, get (set v r) = v

namespace Column

variable [DecidableEq κ]

/-- The last value that is set under a key. -/
def last (k : κ) (l : List (κ × ν)) : Option ν := (l.filter (·.1 = k)).getLast?.map Prod.snd

/-- The row of a key gets a value. -/
def assign (c : Column key ν) (rows : List ρ) (w : κ × ν) : List ρ :=
  rows.map fun r => if key r = w.1 then c.set w.2 r else r

/-- A row with the last of the values, or as it is. -/
def updated (c : Column key ν) (l : List (κ × ν)) (r : ρ) : ρ :=
  c.set ((last (key r) l).getD (c.get r)) r

variable {c : Column key ν} {k : κ} {l : List (κ × ν)} {w : κ × ν} {r : ρ}

theorem last_cons : last k (w :: l) = (last k l).or (if w.1 = k then some w.2 else none) := by
  unfold last
  by_cases h : w.1 = k
  · rw [List.filter_cons_of_pos (by simpa using h), List.getLast?_cons, if_pos h]
    cases (l.filter (·.1 = k)).getLast? <;> rfl
  · rw [List.filter_cons_of_neg (by simpa using h), if_neg h, Option.or_none]

theorem updated_nil (r : ρ) : c.updated [] r = r := c.set_get r

/-- A value, and then the later ones. -/
theorem updated_cons :
    c.updated (w :: l) r = c.updated l (if key r = w.1 then c.set w.2 r else r) := by
  unfold updated
  by_cases h : key r = w.1
  · rw [if_pos h, c.key_set, c.set_set, c.get_set, last_cons, if_pos h.symm]
    cases last (key r) l <;> rfl
  · rw [if_neg h, last_cons, if_neg (Ne.symm h), Option.or_none]

/-- **The last value of each key stays.** -/
theorem foldl_assign (rows : List ρ) : l.foldl c.assign rows = rows.map (c.updated l) := by
  induction l generalizing rows with
  | nil => rw [List.foldl_nil, funext (@updated_nil _ _ _ key _ c), List.map_id']
  | cons w l ih =>
    rw [List.foldl_cons, ih, assign, List.map_map]
    exact List.map_congr_left fun r _ => updated_cons.symm

end Column

/-! ## Rows and values, in any order -/

/-- A write to a table: rows are inserted, or a value is set. -/
inductive TableWrite (ρ κ ν : Type*) where
  | insert (rows : List ρ)
  | assign (k : κ) (v : ν)

namespace TableWrite

/-- The rows that a write inserts. -/
def rows : TableWrite ρ κ ν → List ρ
  | insert rows => rows
  | assign _ _ => []

/-- The value that a write sets. -/
def value : TableWrite ρ κ ν → Option (κ × ν)
  | insert _ => none
  | assign k v => some (k, v)

end TableWrite

namespace KeyedTable

variable [DecidableEq κ]

/-- What a write does to a table. -/
def write (c : Column key ν) (t : KeyedTable key) : TableWrite ρ κ ν → KeyedTable key
  | .insert rows => t.insertAll rows
  | .assign k v => t.modify k (c.set v) (c.key_set v)

variable {c : Column key ν} {t : KeyedTable key} {ws : List (TableWrite ρ κ ν)} {k : κ} {r : ρ}

theorem find_assign (t : KeyedTable key) (k' : κ) (v : ν) :
    (t.write c (.assign k' v)).find k = (t.find k).map fun r => if k = k' then c.set v r else r :=
  @find_modify _ _ _ _ t k' (c.set v) (c.key_set v) k

/-- A write to a row that is there. -/
theorem find_write_of_some {w : TableWrite ρ κ ν} (h : t.find k = some r) :
    (t.write c w).find k = some (c.updated w.value.toList r) := by
  cases w with
  | insert rows =>
    show (t.insertAll rows).find k = some (c.updated [] r)
    rw [find_insertAll, h, Option.some_or, Column.updated_nil]
  | assign k' v =>
    have hvalue : (TableWrite.assign k' v : TableWrite ρ κ ν).value.toList = [(k', v)] := rfl
    rw [find_assign, h, Option.map_some, hvalue, Column.updated_cons, Column.updated_nil,
      (mem_rows_of_find h).2]

/-- A write where there is no row. -/
theorem find_write_of_none {w : TableWrite ρ κ ν} (h : t.find k = none) :
    (t.write c w).find k = w.rows.find? (key · = k) := by
  cases w with
  | insert rows =>
    show (t.insertAll rows).find k = rows.find? (key · = k)
    rw [find_insertAll, h, Option.none_or]
  | assign k' v =>
    rw [find_assign, h]
    rfl

/-- **A row that is there gets the last value.** -/
theorem find_writes_of_some (h : t.find k = some r) :
    (ws.foldl (write c) t).find k = some (c.updated (ws.filterMap TableWrite.value) r) := by
  induction ws generalizing t r with
  | nil => rw [List.filterMap_nil, Column.updated_nil, List.foldl_nil, h]
  | cons w ws ih =>
    rw [List.foldl_cons, ih (find_write_of_some h), List.filterMap_cons]
    cases w.value with
    | none => rw [Option.toList_none, Column.updated_nil]
    | some v => rw [Option.toList_some, Column.updated_cons, Column.updated_cons,
        Column.updated_nil]

theorem find?_eq_none_iff {rows : List ρ} :
    rows.find? (key · = k) = none ↔ ∀ r ∈ rows, key r ≠ k := by
  simp only [List.find?_eq_none, decide_eq_true_eq, ne_eq]

/-- **There is no row where none was inserted.** -/
theorem find_writes_eq_none (h : t.find k = none) :
    (ws.foldl (write c) t).find k = none ↔ ∀ w ∈ ws, ∀ r ∈ w.rows, key r ≠ k := by
  induction ws generalizing t with
  | nil => exact iff_of_true h fun w hw => absurd hw List.not_mem_nil
  | cons w ws ih =>
    have hwrite := find_write_of_none (c := c) (w := w) h
    rw [List.foldl_cons, List.forall_mem_cons, ← find?_eq_none_iff, ← hwrite]
    cases hfind : (t.write c w).find k with
    | none => rw [ih hfind, and_iff_right rfl]
    | some r =>
      rw [find_writes_of_some hfind]
      exact iff_of_false (by rintro ⟨⟩) (by rintro ⟨⟨⟩, -⟩)

/-- **A row that is not there is the first that is inserted**, with the last
of the values after it. -/
theorem find_writes_eq_some (h : t.find k = none) :
    (ws.foldl (write c) t).find k = some r ↔
      ∃ before w after first, ws = before ++ w :: after ∧
        (∀ w ∈ before, ∀ r ∈ w.rows, key r ≠ k) ∧ w.rows.find? (key · = k) = some first ∧
        r = c.updated (after.filterMap TableWrite.value) first := by
  constructor
  · intro hfind
    induction ws generalizing t with
    | nil => rw [List.foldl_nil, h] at hfind; cases hfind
    | cons w ws ih =>
      have hwrite := find_write_of_none (c := c) (w := w) h
      rw [List.foldl_cons] at hfind
      cases hrow : w.rows.find? (key · = k) with
      | none =>
        obtain ⟨before, w', after, first, rfl, hbefore, hlater⟩ := ih (hwrite.trans hrow) hfind
        exact ⟨w :: before, w', after, first, rfl,
          List.forall_mem_cons.2 ⟨find?_eq_none_iff.1 hrow, hbefore⟩, hlater⟩
      | some first =>
        rw [find_writes_of_some (hwrite.trans hrow)] at hfind
        exact ⟨[], w, ws, first, rfl, fun w hw => absurd hw List.not_mem_nil, hrow,
          (Option.some.inj hfind).symm⟩
  · rintro ⟨before, w, after, first, rfl, hbefore, hfirst, rfl⟩
    rw [List.foldl_append, List.foldl_cons]
    have hnone := (find_writes_eq_none (c := c) h).2 hbefore
    exact find_writes_of_some ((find_write_of_none hnone).trans hfirst)

end KeyedTable

end AigisZero
