import AigisZero.Agent.Scheduler
import AigisZero.Library.HashTable
import Mathlib.Data.List.Sort
import Mathlib.Data.String.Basic

/-!
# The difference of two responses, in hash sets

A row is a hash map, and has no order of its own; in a hash set it is hashed
by its keys in order. Whatever the maps and the sets do with the order of
their entries, what comes out is the difference of the responses as sets of
maps, as the scheduler takes it.
-/

namespace AigisZero.Agent.Diff

/-! ## Rows -/

/-- A `HashMap<String, String>`, with the order in which it is visited. -/
abbrev RowMap := AList fun _ : String => String

/-- `HashMap::eq`. -/
def hashMapEq (a b : RowMap) : Bool :=
  a.entries.length == b.entries.length && a.entries.all fun e => b.lookup e.1 == some e.2

structure HashableRow where
  row : RowMap

namespace HashableRow

instance : BEq HashableRow := ⟨fun a b => hashMapEq a.row b.row⟩

/-- `HashableRow::hash`: what a row tells a hasher. -/
def hash (r : HashableRow) : List HasherCall :=
  let keys := r.row.keys.insertionSort (· ≤ ·)
  keys.flatMap fun key =>
    hashStr key ++
      match r.row.lookup key with
      | some val => hashStr val
      | none => []

end HashableRow

theorem hashMapEq_iff {a b : RowMap} : hashMapEq a b = true ↔ a.toFinmap = b.toFinmap := by
  rw [AList.toFinmap_eq, hashMapEq, Bool.and_eq_true, List.all_eq_true, beq_iff_eq]
  constructor
  · rintro ⟨hlen, hall⟩
    have hsubset : a.entries ⊆ b.entries := by
      intro e he
      exact AList.mem_lookup_iff.1 (beq_iff_eq.1 (hall e he))
    exact (List.subperm_of_subset a.nodupKeys.nodup hsubset).perm_of_length_le hlen.ge
  · intro h
    refine ⟨h.length_eq, fun e he => beq_iff_eq.2 ?_⟩
    exact AList.mem_lookup_iff.2 (h.subset he)

namespace HashableRow

variable {r r' : HashableRow}

/-- The map of the row. -/
def toRow (r : HashableRow) : OsqueryRow := r.row.toFinmap

theorem beq_iff (r r' : HashableRow) : (r == r') = true ↔ r.toRow = r'.toRow := hashMapEq_iff

instance : EquivBEq HashableRow where
  rfl {r} := (beq_iff r r).2 rfl
  symm {r r'} h := (beq_iff r' r).2 ((beq_iff r r').1 h).symm
  trans {r₁ r₂ r₃} h h' := (beq_iff r₁ r₃).2 (((beq_iff r₁ r₂).1 h).trans ((beq_iff r₂ r₃).1 h'))

/-- **Rows that are equal are hashed alike**, in whatever order they are
visited. -/
theorem hash_eq (h : (r == r') = true) : r.hash = r'.hash := by
  have hperm : r.row.entries.Perm r'.row.entries := AList.toFinmap_eq.1 ((beq_iff r r').1 h)
  have hkeys : r.row.keys.insertionSort (· ≤ ·) = r'.row.keys.insertionSort (· ≤ ·) := by
    refine List.Perm.eq_of_pairwise' (List.pairwise_insertionSort _ _)
      (List.pairwise_insertionSort _ _) ?_
    exact (List.perm_insertionSort _ _).trans
      ((hperm.map Sigma.fst).trans (List.perm_insertionSort _ _).symm)
  unfold hash
  dsimp only
  rw [hkeys]
  congr 1
  funext key
  rw [AList.perm_lookup hperm]

/-- The columns in the order of their names. -/
def columns (r : HashableRow) : List (String × String) :=
  (r.row.keys.insertionSort (· ≤ ·)).map fun key => (key, (r.row.lookup key).getD "")

theorem hash_eq_columns (r : HashableRow) :
    r.hash = r.columns.flatMap fun c => hashStr c.1 ++ hashStr c.2 := by
  unfold hash columns
  dsimp only
  rw [List.flatMap_map]
  refine List.flatMap_congr fun key hkey => ?_
  have hmem : key ∈ r.row := AList.mem_keys.2 ((List.mem_insertionSort _).1 hkey)
  obtain ⟨val, hval⟩ := Option.isSome_iff_exists.1 (AList.lookup_isSome.2 hmem)
  rw [hval]
  rfl

theorem columns_perm (r : HashableRow) :
    r.columns.Perm (r.row.entries.map fun e => (e.1, e.2)) := by
  have hsorted := (List.perm_insertionSort (· ≤ ·) r.row.keys).map
    fun key => (key, (r.row.lookup key).getD "")
  refine hsorted.trans (List.Perm.of_eq ?_)
  rw [AList.keys, List.keys, List.map_map]
  refine List.map_congr_left fun e he => ?_
  have hval : r.row.lookup e.1 = some e.2 := AList.mem_lookup_iff.2 he
  rw [Function.comp_apply, hval]
  rfl

/-- **Only rows that are equal** are hashed alike: the columns in the order
of their names are a form of the map, one for each. -/
theorem hash_eq_iff : r.hash = r'.hash ↔ (r == r') = true := by
  refine ⟨fun h => ?_, hash_eq⟩
  rw [hash_eq_columns, hash_eq_columns] at h
  have hcolumns : r.columns = r'.columns := flatMap_hashStr_injective h
  have hperm : (r.row.entries.map fun e => (e.1, e.2)).Perm
      (r'.row.entries.map fun e => (e.1, e.2)) := by
    have hr := (columns_perm r).symm
    rw [hcolumns] at hr
    exact hr.trans (columns_perm r')
  have hinjective : Function.Injective fun e : (_ : String) × String => (e.1, e.2) := by
    rintro ⟨k, v⟩ ⟨k', v'⟩ heq
    obtain ⟨rfl, rfl⟩ := Prod.mk.inj heq
    rfl
  exact (beq_iff r r').2 (AList.toFinmap_eq.2 ((List.map_perm_map_iff hinjective).1 hperm))

end HashableRow

/-! ## The difference -/

/-- What a hash set is made with: its hasher, and where its table stores the
rows. -/
structure SetState where
  hasher : BuildHasher
  layout : Layout HashableRow fun r => hasher.hash_one r.hash

/-- The table of such a set. -/
def SetState.table (s : SetState) : HashTable HashableRow where
  hash r := s.hasher.hash_one r.hash
  hash_eq h := congrArg s.hasher.hash_one (HashableRow.hash_eq h)
  layout := s.layout

/-- Sets that keep the order in which their rows came. -/
def SetState.inOrder (hasher : BuildHasher) : SetState := ⟨hasher, Layout.inOrder _⟩

/-- `diff::compute_diff`. -/
def compute_diff (prev_state curr_state : SetState) (previous_rows current_rows : List RowMap) :
    List RowMap × List RowMap :=
  let prev_set := previous_rows.foldl (fun set row => set.insert ⟨row⟩)
    (HashSet.new prev_state.table)
  let curr_set := current_rows.foldl (fun set row => set.insert ⟨row⟩)
    (HashSet.new curr_state.table)
  let added := (curr_set.difference prev_set).map HashableRow.row
  let removed := (prev_set.difference curr_set).map HashableRow.row
  (added, removed)

/-- The rows that one response has and another has not, as the sets of the
responses tell. -/
def rowsOnlyIn (s s' : SetState) (rows others : List RowMap) : List RowMap :=
  ((HashSet.ofList s.table (rows.map HashableRow.mk)).difference
    (HashSet.ofList s'.table (others.map HashableRow.mk))).map HashableRow.row

theorem compute_diff_eq (s s' : SetState) (prev curr : List RowMap) :
    compute_diff s s' prev curr = (rowsOnlyIn s' s curr prev, rowsOnlyIn s s' prev curr) := by
  simp only [compute_diff, rowsOnlyIn, HashSet.ofList, List.foldl_map]

/-- The maps of rows. -/
abbrev maps (rows : List RowMap) : List OsqueryRow := rows.map AList.toFinmap

variable {s s' t t' : SetState} {rows others : List RowMap}

theorem maps_rowsOnlyIn : maps (rowsOnlyIn s s' rows others) =
    ((HashSet.ofList s.table (rows.map HashableRow.mk)).difference
      (HashSet.ofList s'.table (others.map HashableRow.mk))).map HashableRow.toRow := by
  rw [maps, rowsOnlyIn, List.map_map]
  rfl

theorem toRow_map_mk (rows : List RowMap) :
    (rows.map HashableRow.mk).map HashableRow.toRow = maps rows := by
  rw [List.map_map]
  rfl

theorem nodup_rowsOnlyIn : (maps (rowsOnlyIn s s' rows others)).Nodup := by
  rw [maps_rowsOnlyIn]
  exact HashSet.nodup_map_difference HashableRow.beq_iff _ _

theorem mem_rowsOnlyIn {row : OsqueryRow} :
    row ∈ maps (rowsOnlyIn s s' rows others) ↔ row ∈ maps rows ∧ row ∉ maps others := by
  rw [maps_rowsOnlyIn, HashSet.mem_map_difference HashableRow.beq_iff, toRow_map_mk, toRow_map_mk]

theorem rowsOnlyIn_self : rowsOnlyIn s s' rows rows = [] := by
  rw [rowsOnlyIn, HashSet.difference_self]
  rfl

/-- The sets only choose the order. -/
theorem rowsOnlyIn_perm :
    (rowsOnlyIn s s' rows others).Perm (rowsOnlyIn t t' rows others) :=
  ((HashSet.difference_ofList _ _ _ _).trans (HashSet.difference_ofList _ _ _ _).symm).map _

/-- **The difference of two responses**, as sets of maps. -/
structure IsSetDifference (previous_rows current_rows added removed : List RowMap) : Prop where
  nodup_added : (maps added).Nodup
  nodup_removed : (maps removed).Nodup
  disjoint : (maps added).Disjoint (maps removed)
  mem_added : ∀ row, row ∈ maps added ↔ row ∈ maps current_rows ∧ row ∉ maps previous_rows
  mem_removed : ∀ row, row ∈ maps removed ↔ row ∈ maps previous_rows ∧ row ∉ maps current_rows
  /-- The set of the one response becomes that of the other. -/
  applied : ((maps previous_rows).toFinset \ (maps removed).toFinset) ∪ (maps added).toFinset =
    (maps current_rows).toFinset

theorem isSetDifference_rowsOnlyIn (s s' : SetState) (prev curr : List RowMap) :
    IsSetDifference prev curr (rowsOnlyIn s' s curr prev) (rowsOnlyIn s s' prev curr) where
  nodup_added := nodup_rowsOnlyIn
  nodup_removed := nodup_rowsOnlyIn
  disjoint row hadded hremoved := (mem_rowsOnlyIn.1 hadded).2 (mem_rowsOnlyIn.1 hremoved).1
  mem_added _ := mem_rowsOnlyIn
  mem_removed _ := mem_rowsOnlyIn
  applied := by
    ext row
    rw [Finset.mem_union, Finset.mem_sdiff, List.mem_toFinset, List.mem_toFinset,
      List.mem_toFinset, List.mem_toFinset, mem_rowsOnlyIn, mem_rowsOnlyIn]
    tauto

/-! ## The scheduler -/

/-- The visits of a tick, where the sets of two responses are visited as
their hash sets are. -/
def hashVisits (visits : Visits) (s s' : SetState) (prev curr : List RowMap) : Visits where
  columns := visits.columns
  rows set :=
    if set = (maps (rowsOnlyIn s' s curr prev)).toFinset then maps (rowsOnlyIn s' s curr prev)
    else if set = (maps (rowsOnlyIn s s' prev curr)).toFinset then maps (rowsOnlyIn s s' prev curr)
    else visits.rows set
  columns_perm := visits.columns_perm
  rows_perm set := by
    split
    · next h => rw [h, List.toFinset_val, nodup_rowsOnlyIn.dedup]
    · split
      · next h => rw [h, List.toFinset_val, nodup_rowsOnlyIn.dedup]
      · exact visits.rows_perm set

theorem toFinset_rowsOnlyIn (s s' : SetState) : (maps (rowsOnlyIn s s' rows others)).toFinset =
    (maps rows).toFinset \ (maps others).toFinset := by
  ext row
  rw [Finset.mem_sdiff, List.mem_toFinset, List.mem_toFinset, List.mem_toFinset, mem_rowsOnlyIn]

/-- **The scheduler's difference is this one**, for some order of visits. -/
theorem maps_compute_diff (visits : Visits) (s s' : SetState) (prev curr : List RowMap) :
    (maps (compute_diff s s' prev curr).1, maps (compute_diff s s' prev curr).2) =
      Agent.compute_diff (hashVisits visits s s' prev curr) (maps prev) (maps curr) := by
  rw [compute_diff_eq, Agent.compute_diff, ← toFinset_rowsOnlyIn s' s, ← toFinset_rowsOnlyIn s s']
  refine Prod.ext (if_pos rfl).symm ?_
  show maps (rowsOnlyIn s s' prev curr) = if _ then _ else if _ then _ else _
  split
  · next h =>
    -- the sets are disjoint, so if they are one set it is empty
    have hdiff := isSetDifference_rowsOnlyIn s s' prev curr
    have hnil : ∀ row, row ∉ maps (rowsOnlyIn s s' prev curr) := by
      intro row hrow
      have hrow' : row ∈ maps (rowsOnlyIn s' s curr prev) := by
        rw [← List.mem_toFinset, ← h, List.mem_toFinset]
        exact hrow
      exact hdiff.disjoint hrow' hrow
    have hnil' : ∀ row, row ∉ maps (rowsOnlyIn s' s curr prev) := by
      intro row hrow
      refine hnil row ?_
      rw [← List.mem_toFinset, h, List.mem_toFinset]
      exact hrow
    rw [List.eq_nil_iff_forall_not_mem.2 hnil, List.eq_nil_iff_forall_not_mem.2 hnil']
  · rw [if_pos rfl]

/-! ## The difference of any two responses -/

/-- **Row diffing is the set difference of maps**: rows that are equal as
maps are hashed alike, and whatever the hashers, the tables and the orders of
visits are, the rows that came and the rows that went are the difference of
the two responses. -/
theorem compute_diff_isSetDifference :
    (∀ r r' : HashableRow, r.row.toFinmap = r'.row.toFinmap → r.hash = r'.hash) ∧
    (∀ (s s' : SetState) (prev curr : List RowMap),
      IsSetDifference prev curr (compute_diff s s' prev curr).1 (compute_diff s s' prev curr).2) ∧
    (∀ (s s' : SetState) (rows : List RowMap), compute_diff s s' rows rows = ([], [])) ∧
    ∀ (s s' t t' : SetState) (a b : List RowMap),
      (compute_diff t t' b a).1.Perm (compute_diff s s' a b).2 ∧
        (compute_diff t t' b a).2.Perm (compute_diff s s' a b).1 := by
  simp only [compute_diff_eq]
  refine ⟨?_, isSetDifference_rowsOnlyIn, ?_, ?_⟩
  · exact fun r r' h => HashableRow.hash_eq ((HashableRow.beq_iff r r').2 h)
  · exact fun s s' rows => Prod.ext rowsOnlyIn_self rowsOnlyIn_self
  · exact fun s s' t t' a b => ⟨rowsOnlyIn_perm, rowsOnlyIn_perm⟩

-- a row whose map is visited in another order has not changed
example :
    let hasher : BuildHasher := ⟨ℕ, 0, fun calls _ => calls + 1, Nat.toUInt64⟩
    let row : String → String → RowMap := fun name pid =>
      (AList.singleton "pid" pid).insert "name" name
    let visitedBackwards : String → String → RowMap := fun name pid =>
      (AList.singleton "name" name).insert "pid" pid
    compute_diff (.inOrder hasher) (.inOrder hasher) [row "sh" "7", row "sh" "7"]
      [row "vi" "9", visitedBackwards "sh" "7"] = ([row "vi" "9"], []) := by
  rfl

end AigisZero.Agent.Diff
