import AigisZero.Library.Paging
import AigisZero.Library.Uuid
import Mathlib.Algebra.Order.Ring.Int

/-!
# The lists of nodes and of alerts, page by page

Both lists are made alike: the rows that match are counted by one query
and loaded by another, the latest first, up to a limit that is held
between 1 and 100 and from an offset that the client chooses. Rows of one
time come in any order, at each query another one. A client that asks for
pages of at most 100 rows sees each of them once, unless rows of one time
stand on both sides of a boundary.
-/

namespace AigisZero.Backend

/-! ## The rows -/

/-- `NodeEntity`, with the times in microseconds. -/
structure NodeEntity where
  node_id : Uuid
  machine_id : String
  hostname : String
  os_version : String
  agent_version : String
  agent_status : String
  operator_status : String
  first_seen_at : ℤ
  last_enrolled_at : ℤ
deriving DecidableEq

/-- `NodeSummaryDto`. -/
structure NodeSummaryDto where
  node_id : Uuid
  machine_id : String
  hostname : String
  os_version : String
  agent_version : String
  agent_status : String
  operator_status : String
  first_seen_at : ℤ
  last_enrolled_at : ℤ
deriving DecidableEq

/-- What is shown of a node. -/
def NodeEntity.summary (n : NodeEntity) : NodeSummaryDto where
  node_id := n.node_id
  machine_id := n.machine_id
  hostname := n.hostname
  os_version := n.os_version
  agent_version := n.agent_version
  agent_status := n.agent_status
  operator_status := n.operator_status
  first_seen_at := n.first_seen_at
  last_enrolled_at := n.last_enrolled_at

/-- `AlertEntity`, with the bits of its score and the time in microseconds. -/
structure AlertEntity where
  alert_id : Uuid
  node_id : Uuid
  hostname : String
  severity : String
  source : String
  mitre_technique_id : Option String
  mitre_tactic : Option String
  description : String
  triggering_event_id : Option String
  threat_score : UInt32
  status : String
  created_at : ℤ
deriving DecidableEq

/-- `NodeFilterParams`. -/
structure NodeFilterParams where
  agent_status : Option String
  operator_status : Option String
  search : Option String
  limit : Option ℤ
  offset : Option ℤ

/-- `AlertFilterParams`. -/
structure AlertFilterParams where
  severity : Option String
  status : Option String
  node_id : Option Uuid
  mitre_technique : Option String
  limit : Option ℤ
  offset : Option ℤ

/-! ## The queries -/

/-- A query of a table, by the rows it selects. -/
def BoxedQuery (ρ : Type*) := ρ → Bool

/-- `into_boxed`: every row. -/
def into_boxed {ρ : Type*} : BoxedQuery ρ := fun _ => true

/-- `filter`. -/
def BoxedQuery.filter {ρ : Type*} (query : BoxedQuery ρ) (p : ρ → Bool) : BoxedQuery ρ :=
  fun row => query row && p row

/-- How the database orders the rows of a query. -/
def Ordering (ρ : Type*) (key : ρ → ℤ) := (rows : List ρ) → SortedBy key rows

/-- The end of both `find_all`: the rows are counted, and a page of them is
loaded, the latest first. -/
def findPage {ρ Dto : Type*} (key : ρ → ℤ) (query count_query : BoxedQuery ρ)
    (limit offset : Option ℤ) (dto : ρ → Dto) (table : List ρ) (order : Ordering ρ key) :
    List Dto × ℤ :=
  let total : ℤ := (table.filter count_query).length
  let limit := max 1 (min (limit.getD 50) 100)
  let offset := max (offset.getD 0) 0
  let entities := Paging.page (order (table.filter query)).list offset.toNat limit.toNat
  (entities.map dto, total)

section

-- whether a text is like a pattern, in any case
variable (ilike : String → String → Bool)

/-- `DieselNodeRepository::find_all`. -/
def DieselNodeRepository.find_all (params : NodeFilterParams) (table : List NodeEntity)
    (order : Ordering NodeEntity NodeEntity.last_enrolled_at) : List NodeSummaryDto × ℤ :=
  let query := into_boxed
  let count_query := into_boxed
  let (query, count_query) :=
    match params.agent_status with
    | some agent_st =>
      (query.filter fun n : NodeEntity => n.agent_status = agent_st,
        count_query.filter fun n : NodeEntity => n.agent_status = agent_st)
    | none => (query, count_query)
  let (query, count_query) :=
    match params.operator_status with
    | some op_st =>
      (query.filter fun n => n.operator_status = op_st,
        count_query.filter fun n => n.operator_status = op_st)
    | none => (query, count_query)
  let (query, count_query) :=
    match params.search with
    | some search_term =>
      let pattern := "%" ++ search_term ++ "%"
      (query.filter fun n => ilike n.hostname pattern || ilike n.machine_id pattern,
        count_query.filter fun n => ilike n.hostname pattern || ilike n.machine_id pattern)
    | none => (query, count_query)
  findPage NodeEntity.last_enrolled_at query count_query params.limit params.offset
    NodeEntity.summary table order

/-- `DieselAlertRepository::find_all`. A technique that is `NULL` equals
none. -/
def DieselAlertRepository.find_all (params : AlertFilterParams) (table : List AlertEntity)
    (order : Ordering AlertEntity AlertEntity.created_at) : List AlertEntity × ℤ :=
  let query := into_boxed
  let count_query := into_boxed
  let (query, count_query) :=
    match params.severity with
    | some sev =>
      (query.filter fun a : AlertEntity => a.severity = sev,
        count_query.filter fun a : AlertEntity => a.severity = sev)
    | none => (query, count_query)
  let (query, count_query) :=
    match params.status with
    | some st =>
      (query.filter fun a => a.status = st, count_query.filter fun a => a.status = st)
    | none => (query, count_query)
  let (query, count_query) :=
    match params.node_id with
    | some nid =>
      (query.filter fun a => a.node_id = nid, count_query.filter fun a => a.node_id = nid)
    | none => (query, count_query)
  let (query, count_query) :=
    match params.mitre_technique with
    | some tech =>
      (query.filter fun a => a.mitre_technique_id = some tech,
        count_query.filter fun a => a.mitre_technique_id = some tech)
    | none => (query, count_query)
  findPage AlertEntity.created_at query count_query params.limit params.offset id table order

/-! ## What is asked for -/

/-- **The nodes that match**: those with each status that is named, and
with the text that is searched for in one of their names. -/
def NodeFilterParams.matching (params : NodeFilterParams) (n : NodeEntity) : Bool :=
  (params.agent_status.all fun st => n.agent_status = st) &&
    (params.operator_status.all fun st => n.operator_status = st) &&
      params.search.all fun term =>
        ilike n.hostname ("%" ++ term ++ "%") || ilike n.machine_id ("%" ++ term ++ "%")

/-- **The alerts that match**: those with each value that is named. -/
def AlertFilterParams.matching (params : AlertFilterParams) (a : AlertEntity) : Bool :=
  (params.severity.all fun sev => a.severity = sev) &&
    (params.status.all fun st => a.status = st) &&
      (params.node_id.all fun nid => a.node_id = nid) &&
        params.mitre_technique.all fun tech => a.mitre_technique_id = some tech

end

/-- The request for a page of a size. -/
def NodeFilterParams.page (params : NodeFilterParams) (L i : ℕ) : NodeFilterParams :=
  { params with limit := some L, offset := some (i * L : ℕ) }

def AlertFilterParams.page (params : AlertFilterParams) (L i : ℕ) : AlertFilterParams :=
  { params with limit := some L, offset := some (i * L : ℕ) }

/-- **The pages of a walk**, one behind the other: page after page is asked
for until the total is reached that the first answer names. -/
def walk {Dto : Type*} (L : ℕ) (answer : ℕ → List Dto × ℤ) : List Dto :=
  (List.range (Paging.pageCount (answer 0).2.toNat L)).flatMap fun i => (answer i).1

/-- **No tie across the pages**: no matching rows of one time stand on both
sides of a boundary between two pages. -/
def CleanPages {ρ : Type*} (key : ρ → ℤ) (rows : List ρ) (L : ℕ) : Prop :=
  ∀ i, Paging.CleanAt key rows (i * L)

/-! ## Both queries select what matches -/

section

variable {ilike : String → String → Bool}

theorem findPage_congr {ρ Dto : Type*} {key : ρ → ℤ} {query count_query p : BoxedQuery ρ}
    {limit offset : Option ℤ} {dto : ρ → Dto} {table : List ρ} {order : Ordering ρ key}
    (hquery : ∀ row, query row = p row) (hcount : ∀ row, count_query row = p row) :
    findPage key query count_query limit offset dto table order =
      findPage key p p limit offset dto table order := by
  rw [funext hquery, funext hcount]

/-- **The nodes are counted and loaded by what was asked for.** -/
theorem find_all_nodes (params : NodeFilterParams) (table : List NodeEntity)
    (order : Ordering NodeEntity NodeEntity.last_enrolled_at) :
    DieselNodeRepository.find_all ilike params table order =
      findPage NodeEntity.last_enrolled_at (params.matching ilike) (params.matching ilike)
        params.limit params.offset NodeEntity.summary table order := by
  obtain ⟨agent_status, operator_status, search, limit, offset⟩ := params
  unfold DieselNodeRepository.find_all
  cases agent_status <;> cases operator_status <;> cases search <;>
    refine findPage_congr (fun n => ?_) (fun n => ?_) <;>
    simp only [NodeFilterParams.matching, Option.all_some, Option.all_none, Bool.true_and,
      Bool.and_true, BoxedQuery.filter, into_boxed, Bool.and_assoc]

/-- **The alerts are counted and loaded by what was asked for.** -/
theorem find_all_alerts (params : AlertFilterParams) (table : List AlertEntity)
    (order : Ordering AlertEntity AlertEntity.created_at) :
    DieselAlertRepository.find_all params table order =
      findPage AlertEntity.created_at params.matching params.matching params.limit params.offset
        id table order := by
  obtain ⟨severity, status, node_id, mitre_technique, limit, offset⟩ := params
  unfold DieselAlertRepository.find_all
  cases severity <;> cases status <;> cases node_id <;> cases mitre_technique <;>
    refine findPage_congr (fun a => ?_) (fun a => ?_) <;>
    simp only [AlertFilterParams.matching, Option.all_some, Option.all_none, Bool.true_and,
      Bool.and_true, BoxedQuery.filter, into_boxed, Bool.and_assoc]

end

/-! ## The pages of a walk -/

section

variable {ρ Dto : Type*} {key : ρ → ℤ} {matching : BoxedQuery ρ} {dto : ρ → Dto} {table : List ρ}
  {L : ℕ}

/-- A page as it is asked for in a walk. -/
theorem findPage_walk (hL : 0 < L) (i : ℕ) (order : Ordering ρ key) :
    findPage key matching matching (some L) (some (i * L : ℕ)) dto table order =
      ((Paging.page (order (table.filter matching)).list (i * L) (min L 100)).map dto,
        ((table.filter matching).length : ℤ)) := by
  have hlimit : (max 1 (min (L : ℤ) 100)).toNat = min L 100 := by omega
  have hoffset : (max ((i * L : ℕ) : ℤ) 0).toNat = i * L := by omega
  unfold findPage
  simp only [Option.getD_some, hlimit, hoffset]

theorem walk_findPage (hL : 0 < L) (order : ℕ → Ordering ρ key) :
    (walk L fun i => findPage key matching matching (some L) (some (i * L : ℕ)) dto table (order i))
      = ((List.range (Paging.pageCount (table.filter matching).length L)).flatMap fun i =>
        Paging.page (order i (table.filter matching)).list (i * L) (min L 100)).map dto := by
  unfold walk
  simp only [findPage_walk hL, Int.toNat_natCast, List.map_flatMap]

/-- Rows can be ordered. -/
def Ordering.insertion (key : ρ → ℤ) : Ordering ρ key := fun rows =>
  { list := rows.insertionSort fun a b => key b ≤ key a
    perm := List.perm_insertionSort _ rows
    sorted :=
      haveI : Std.Total fun a b => key b ≤ key a := ⟨fun a b => le_total (key b) (key a)⟩
      haveI : IsTrans ρ fun a b => key b ≤ key a := ⟨fun _ _ _ hab hbc => le_trans hbc hab⟩
      List.pairwise_insertionSort _ rows }

/-- **Whoever steps further than the limit misses rows**, however the rows
are ordered. -/
theorem not_perm_of_large (dto : ρ → Dto) (hsize : 100 < L)
    (hmany : 100 < (table.filter matching).length) (order : ℕ → Ordering ρ key) :
    ¬ (walk L fun i => findPage key matching matching (some L) (some (i * L : ℕ)) dto table
      (order i)).Perm ((table.filter matching).map dto) := by
  intro h
  rw [walk_findPage (by omega)] at h
  have hshort := Paging.length_pages_lt (L := L) (min L 100)
    (fun i => order i (table.filter matching)) (by omega) (by omega)
  have hlength := h.length_eq
  rw [List.length_map, List.length_map] at hlength
  omega

/-- **A walk visits each row once exactly when no page is too short**,
where no tie crosses a boundary. -/
theorem walk_perm_iff (dto : ρ → Dto) (hL : 0 < L)
    (hclean : CleanPages key (table.filter matching) L) :
    (∀ order : ℕ → Ordering ρ key, (walk L fun i => findPage key matching matching (some L)
        (some (i * L : ℕ)) dto table (order i)).Perm ((table.filter matching).map dto)) ↔
      L ≤ 100 ∨ (table.filter matching).length ≤ 100 := by
  constructor
  · intro h
    by_contra hlarge
    obtain ⟨hsize, hmany⟩ := not_or.1 hlarge
    exact not_perm_of_large dto (Nat.lt_of_not_le hsize) (Nat.lt_of_not_le hmany)
      (fun _ => Ordering.insertion key) (h _)
  · intro hsmall order
    rw [walk_findPage hL]
    refine List.Perm.map dto ?_
    generalize hrows : table.filter matching = rows at hclean hsmall ⊢
    rcases hsmall with hsize | hfew
    · rw [Nat.min_eq_left hsize]
      exact Paging.pages_perm hL hclean fun i => order i rows
    · rcases Nat.le_total L 100 with hsize | hsize
      · rw [Nat.min_eq_left hsize]
        exact Paging.pages_perm hL hclean fun i => order i rows
      · -- one page has them all
        have hcount : Paging.pageCount rows.length L = 1 := by
          have hdiv : (rows.length + (L - 1)) / L ≤ 1 := by
            rw [Nat.div_le_iff_le_mul_add_pred hL]
            omega
          unfold Paging.pageCount
          omega
        have hlist := (order 0 rows).perm
        rw [hcount, Nat.min_eq_right hsize]
        simp only [List.range_one, List.flatMap_singleton, Nat.zero_mul]
        rw [Paging.page_all (by rw [hlist.length_eq]; exact hfew)]
        exact hlist

end

/-- **Pages of at most 100 rows visit every row once**, and larger ones
only where there are no more rows than that, unless rows of one time stand
on both sides of a boundary. The total is the number of matching rows in
any case. -/
theorem pages_visit_once (ilike : String → String → Bool) :
    (∀ (params : NodeFilterParams) (table : List NodeEntity) (L : ℕ), 0 < L →
      CleanPages NodeEntity.last_enrolled_at (table.filter (params.matching ilike)) L →
      (∀ i order, (DieselNodeRepository.find_all ilike (params.page L i) table order).2 =
        (table.filter (params.matching ilike)).length) ∧
      ((∀ order : ℕ → Ordering NodeEntity NodeEntity.last_enrolled_at, (walk L fun i =>
          DieselNodeRepository.find_all ilike (params.page L i) table (order i)).Perm
            ((table.filter (params.matching ilike)).map NodeEntity.summary)) ↔
        L ≤ 100 ∨ (table.filter (params.matching ilike)).length ≤ 100)) ∧
    (∀ (params : AlertFilterParams) (table : List AlertEntity) (L : ℕ), 0 < L →
      CleanPages AlertEntity.created_at (table.filter params.matching) L →
      (∀ i order, (DieselAlertRepository.find_all (params.page L i) table order).2 =
        (table.filter params.matching).length) ∧
      ((∀ order : ℕ → Ordering AlertEntity AlertEntity.created_at, (walk L fun i =>
          DieselAlertRepository.find_all (params.page L i) table (order i)).Perm
            (table.filter params.matching)) ↔
        L ≤ 100 ∨ (table.filter params.matching).length ≤ 100)) := by
  constructor
  · intro params table L hL hclean
    have hpage : ∀ i order, DieselNodeRepository.find_all ilike (params.page L i) table order =
        findPage NodeEntity.last_enrolled_at (params.matching ilike) (params.matching ilike)
          (some L) (some (i * L : ℕ)) NodeEntity.summary table order :=
      fun i order => find_all_nodes (params.page L i) table order
    simp only [hpage]
    exact ⟨fun i order => congrArg Prod.snd (findPage_walk hL i order),
      walk_perm_iff NodeEntity.summary hL hclean⟩
  · intro params table L hL hclean
    have hpage : ∀ i order, DieselAlertRepository.find_all (params.page L i) table order =
        findPage AlertEntity.created_at params.matching params.matching (some L)
          (some (i * L : ℕ)) id table order :=
      fun i order => find_all_alerts (params.page L i) table order
    simp only [hpage]
    have hiff := walk_perm_iff (id : AlertEntity → AlertEntity) hL hclean
    rw [List.map_id] at hiff
    exact ⟨fun i order => congrArg Prod.snd (findPage_walk hL i order), hiff⟩

/-! ## Where rows are missed -/

/-- A node that enrolled at a time. -/
def nodeAt (number : ℕ) (last_enrolled_at : ℤ) : NodeEntity where
  node_id := ⟨BitVec.ofNat 128 number⟩
  machine_id := "machine"
  hostname := "host"
  os_version := "Debian 12"
  agent_version := "0.1.0"
  agent_status := "healthy"
  operator_status := "active"
  first_seen_at := 0
  last_enrolled_at := last_enrolled_at

/-- All nodes are asked for. -/
def allNodes : NodeFilterParams := ⟨none, none, none, none, none⟩

/-- A hundred and one nodes, enrolled one after the other. -/
def manyNodes : List NodeEntity := (List.range 101).map fun n => nodeAt n n

/-- Two nodes that enrolled at one time. -/
def twoNodes : List NodeEntity := [nodeAt 1 0, nodeAt 2 0]

/-- Rows of one time the other way round. -/
def Ordering.reversed {ρ : Type*} (key : ρ → ℤ) : Ordering ρ key := fun rows =>
  { Ordering.insertion key rows.reverse with
    perm := (Ordering.insertion key rows.reverse).perm.trans (List.reverse_perm rows) }

/-- **Pages of 150 rows miss a node of 101**, and pages of one row can show
one of two nodes twice and the other never. -/
theorem not_pages_visit_once :
    (¬ ∀ order : ℕ → Ordering NodeEntity NodeEntity.last_enrolled_at, (walk 150 fun i =>
      DieselNodeRepository.find_all (fun _ _ => true) (allNodes.page 150 i) manyNodes
        (order i)).Perm (manyNodes.map NodeEntity.summary)) ∧
    ¬ ∀ order : ℕ → Ordering NodeEntity NodeEntity.last_enrolled_at, (walk 1 fun i =>
      DieselNodeRepository.find_all (fun _ _ => true) (allNodes.page 1 i) twoNodes
        (order i)).Perm (twoNodes.map NodeEntity.summary) := by
  constructor
  · intro h
    have hall : manyNodes.filter (allNodes.matching fun _ _ => true) = manyNodes :=
      List.filter_eq_self.2 fun n _ => rfl
    have hmany : 100 < (manyNodes.filter (allNodes.matching fun _ _ => true)).length := by
      rw [hall, manyNodes, List.length_map, List.length_range]
      omega
    have hmiss := not_perm_of_large (L := 150) NodeEntity.summary (by omega) hmany
      fun _ => Ordering.insertion NodeEntity.last_enrolled_at
    have hpages := h fun _ => Ordering.insertion NodeEntity.last_enrolled_at
    simp only [find_all_nodes] at hpages
    rw [hall] at hmiss
    exact hmiss hpages
  · intro h
    have hpages := h fun i => if i = 0 then .insertion _ else .reversed _
    have hmem : (nodeAt 2 0).summary ∈ twoNodes.map NodeEntity.summary := by decide
    exact absurd (hpages.mem_iff.2 hmem) (by decide)

/-- Two nodes that enrolled one after the other, a page for each. -/
theorem pages_visit_once_two :
    (∀ order : ℕ → Ordering NodeEntity NodeEntity.last_enrolled_at, (walk 1 fun i =>
      DieselNodeRepository.find_all (fun _ _ => true) (allNodes.page 1 i)
        [nodeAt 1 0, nodeAt 2 1] (order i)).Perm
          ([nodeAt 1 0, nodeAt 2 1].map NodeEntity.summary)) := by
  have hclean : CleanPages NodeEntity.last_enrolled_at
      ([nodeAt 1 0, nodeAt 2 1].filter (allNodes.matching fun _ _ => true)) 1 :=
    fun i => Paging.cleanAt_of_nodup (by decide) _
  exact (((pages_visit_once fun _ _ => true).1 allNodes [nodeAt 1 0, nodeAt 2 1] 1
    Nat.one_pos hclean).2).2 (Or.inl (by decide))

end AigisZero.Backend
