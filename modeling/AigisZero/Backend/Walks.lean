import AigisZero.Backend.LiveFeed
import AigisZero.Backend.Triage

/-!
# Walks while the tables grow

A client asks for page after page until one is short, and between its
requests the consumer, the rule engine and other operators go on. New rows
push the old ones back, so a walk meets some of them twice. It misses none,
as long as no row leaves what it asks for: the logs never lose one, the
alerts only by a change of the status that is filtered by.
-/

namespace AigisZero

namespace Backend

open Api (DatabaseAction Extractors Platform Settings statusColumn)

/-! ## The pages of the logs -/

/-- The request for a page of a size. -/
def LogFilterParams.page (params : LogFilterParams) (L i : ℕ) : LogFilterParams :=
  { params with limit := some L, offset := some (i * L : ℕ) }

/-- **The events that match**: those with each value that is named, and
between the times. -/
def LogFilterParams.matching (params : LogFilterParams) (e : EventLogEntity) : Bool :=
  (params.node_id.all fun nid => e.node_id = nid) &&
    (params.event_type.all fun et => e.event_type = et) &&
      (params.from_timestamp.all fun from_t => from_t ≤ e.recorded_at) &&
        params.to_timestamp.all fun to_t => e.recorded_at ≤ to_t

/-- The events of the table that match. -/
def LogFilterParams.rows (params : LogFilterParams) (t : EventLogs) : List EventLogEntity :=
  (t.rows.map EventLogEntity.ofRow).filter params.matching

/-- The alerts of the table that match. -/
def AlertFilterParams.rows (params : AlertFilterParams) (t : Alerts) : List AlertEntity :=
  t.rows.filter params.matching

/-- **The logs are loaded by what was asked for.** -/
theorem search_logs_eq (x : Answers) (params : LogFilterParams) (t : EventLogs) :
    DieselLogRepository.search_logs x params t =
      x.query 1 (Paging.page (x.logs (params.rows t)).list (max (params.offset.getD 0) 0).toNat
        (max 1 (min (params.limit.getD 100) 500)).toNat) := by
  have hmatching : ∀ query : BoxedQuery EventLogEntity, (∀ e, query e = params.matching e) →
      x.query 1 (Paging.page (x.logs ((t.rows.map EventLogEntity.ofRow).filter query)).list
        (max (params.offset.getD 0) 0).toNat
        (max 1 (min (params.limit.getD 100) 500)).toNat) =
      x.query 1 (Paging.page (x.logs (params.rows t)).list (max (params.offset.getD 0) 0).toNat
        (max 1 (min (params.limit.getD 100) 500)).toNat) := by
    intro query hquery
    rw [funext hquery, LogFilterParams.rows]
  refine hmatching _ fun e => ?_
  obtain ⟨node_id, event_type, from_timestamp, to_timestamp, limit, offset⟩ := params
  cases node_id <;> cases event_type <;> cases from_timestamp <;> cases to_timestamp <;>
    simp only [LogFilterParams.matching, Option.all_some, Option.all_none, Bool.true_and,
      Bool.and_true, BoxedQuery.filter, into_boxed, Bool.and_assoc]

theorem query_eq_ok {x : Answers} {statements : ℕ} {α : Type} {result a : α}
    (h : x.query statements result = .ok a) : a = result := by
  unfold Answers.query at h
  split at h
  · cases h
  · split at h
    · cases h
    · exact (Except.ok.inj h).symm

/-- A page of the logs as it is asked for in a walk. -/
theorem search_logs_page {x : Answers} {params : LogFilterParams} {t : EventLogs} {L i : ℕ}
    {items : List EventLogEntity} (hL : 0 < L) (hsize : L ≤ 500)
    (h : DieselLogRepository.search_logs x (params.page L i) t = .ok items) :
    items = Paging.page (x.logs (params.rows t)).list (i * L) L := by
  rw [search_logs_eq] at h
  have hlimit : (max 1 (min (L : ℤ) 500)).toNat = L := by omega
  have hoffset : (max ((i * L : ℕ) : ℤ) 0).toNat = i * L := by omega
  have hpage := query_eq_ok h
  simp only [LogFilterParams.page, Option.getD_some, hlimit, hoffset] at hpage
  exact hpage

/-- A page of the alerts as it is asked for in a walk. -/
theorem find_all_alerts_page {params : AlertFilterParams} {t : Alerts} {L i : ℕ} (hL : 0 < L)
    (hsize : L ≤ 100) (order : Ordering AlertEntity AlertEntity.created_at) :
    (DieselAlertRepository.find_all (params.page L i) t.rows order).1 =
      Paging.page (order (params.rows t)).list (i * L) L := by
  rw [find_all_alerts]
  have hpage := @findPage_walk _ _ AlertEntity.created_at params.matching id t.rows L hL i order
  rw [Nat.min_eq_left hsize, List.map_id] at hpage
  exact congrArg Prod.fst hpage

/-! ## What the tables keep between two pages -/

/-- **The databases at the requests of a walk.** What is done between two of
them is up to all that write. -/
structure Passage (P : Platform Databases) (X : Extractors) (settings : Settings)
    (f32 : ℚ → UInt32) where
  db : ℕ → Databases
  between : ℕ → List DatabaseAction
  next : ∀ i, db (i + 1) = (between i).foldl (DatabaseAction.apply P X settings f32) (db i)

variable {P : Platform Databases} {X : Extractors} {settings : Settings} {f32 : ℚ → UInt32}
  {db : Databases} {l : List DatabaseAction} {id : Uuid}

theorem logs_prefix_apply (a : DatabaseAction) :
    db.logs.rows <+: (a.apply P X settings f32 db).logs.rows := by
  cases a with
  | request q =>
    show _ <+: (Api.Databases.respond P X settings db q).logs.rows
    rw [Api.respond_logs]
  | send_batch batch storage lost => exact List.prefix_refl _
  | registry op => exact List.prefix_refl _
  | insert_batch logs inserted =>
    cases inserted with
    | ok => exact KeyedTable.rows_prefix_insertAll
    | error e => exact List.prefix_refl _

/-- **No event leaves the logs.** -/
theorem logs_prefix_foldl (l : List DatabaseAction) (db : Databases) :
    db.logs.rows <+: (l.foldl (DatabaseAction.apply P X settings f32) db).logs.rows := by
  induction l generalizing db with
  | nil => exact List.prefix_refl _
  | cons a l ih => exact (logs_prefix_apply a).trans (ih _)

/-- What is done leaves no alert out of what a client asks for: no status
is asked for, or none is set. -/
def Keeps (P : Platform Databases) (X : Extractors) (params : AlertFilterParams)
    (l : List DatabaseAction) : Prop :=
  params.status = none ∨ ∀ a ∈ l, a.triaged P X = none

theorem matching_setStatus {params : AlertFilterParams} (h : params.status = none)
    (status : String) (a : AlertEntity) :
    params.matching (setStatus status a) = params.matching a := by
  simp only [AlertFilterParams.matching, h, setStatus, Option.all_none]
  rfl

/-- A value that is set leaves the times of the alerts that match alone. -/
theorem created_assign {params : AlertFilterParams} (h : params.status = none) (t : Alerts)
    (w : Uuid × String) :
    ((statusColumn.assign t.rows w).filter params.matching).map AlertEntity.created_at =
      (t.rows.filter params.matching).map AlertEntity.created_at := by
  unfold Column.assign
  have hmatching : params.matching ∘ (fun r => if r.alert_id = w.1 then setStatus w.2 r else r) =
      params.matching := by
    funext a
    by_cases ha : a.alert_id = w.1
    · simp only [Function.comp_apply, if_pos ha, matching_setStatus h]
    · simp only [Function.comp_apply, if_neg ha]
  have hcreated : AlertEntity.created_at ∘
      (fun r => if r.alert_id = w.1 then setStatus w.2 r else r) = AlertEntity.created_at := by
    funext a
    by_cases ha : a.alert_id = w.1
    · simp only [Function.comp_apply, if_pos ha, setStatus]
    · simp only [Function.comp_apply, if_neg ha]
  show ((t.rows.map fun r => if r.alert_id = w.1 then setStatus w.2 r else r).filter
    params.matching).map AlertEntity.created_at = _
  rw [List.filter_map, hmatching, List.map_map, hcreated]

/-- **No alert leaves what is asked for**, and each stays the alert of its
time. -/
theorem alerts_apply_keeps {params : AlertFilterParams} {a : DatabaseAction}
    (h : params.status = none ∨ a.triaged P X = none) :
    ((params.rows db.alerts).map AlertEntity.created_at).Sublist
        ((params.rows (a.apply P X settings f32 db).alerts).map AlertEntity.created_at) ∧
      ∀ r ∈ params.rows db.alerts, ∃ r' ∈ params.rows (a.apply P X settings f32 db).alerts,
        r'.alert_id = r.alert_id ∧ r'.created_at = r.created_at := by
  rw [DatabaseAction.alerts_apply]
  unfold DatabaseAction.write
  cases htriaged : a.triaged P X with
  | none =>
    have hgrown : (params.rows db.alerts).Sublist
        (params.rows (db.alerts.insertAll (a.stored f32))) :=
      KeyedTable.rows_prefix_insertAll.sublist.filter _
    exact ⟨hgrown.map _, fun r hr => ⟨r, hgrown.subset hr, rfl, rfl⟩⟩
  | some w =>
    have hstatus := h.resolve_right fun hnone => nomatch htriaged.symm.trans hnone
    refine ⟨(created_assign hstatus db.alerts w).symm ▸ List.Sublist.refl _, fun r hr => ?_⟩
    obtain ⟨hmem, hmatching⟩ := List.mem_filter.1 hr
    refine ⟨if r.alert_id = w.1 then setStatus w.2 r else r, List.mem_filter.2
      ⟨List.mem_map_of_mem (f := fun r => if r.alert_id = w.1 then setStatus w.2 r else r) hmem,
        ?_⟩, ?_⟩
    · split
      · rw [matching_setStatus hstatus, hmatching]
      · exact hmatching
    · split <;> exact ⟨rfl, rfl⟩

theorem alerts_foldl_keeps {params : AlertFilterParams} (h : Keeps P X params l)
    (db : Databases) :
    ((params.rows db.alerts).map AlertEntity.created_at).Sublist
        ((params.rows (l.foldl (DatabaseAction.apply P X settings f32) db).alerts).map
          AlertEntity.created_at) ∧
      ∀ r ∈ params.rows db.alerts,
        ∃ r' ∈ params.rows (l.foldl (DatabaseAction.apply P X settings f32) db).alerts,
          r'.alert_id = r.alert_id ∧ r'.created_at = r.created_at := by
  induction l generalizing db with
  | nil => exact ⟨List.Sublist.refl _, fun r hr => ⟨r, hr, rfl, rfl⟩⟩
  | cons a l ih =>
    have hfirst : params.status = none ∨ a.triaged P X = none :=
      h.imp id fun hnone => hnone a List.mem_cons_self
    have hrest : Keeps P X params l :=
      h.imp id fun hnone b hb => hnone b (List.mem_cons_of_mem _ hb)
    obtain ⟨hkeys, hrows⟩ := @alerts_apply_keeps P X settings f32 db params a hfirst
    obtain ⟨hkeys', hrows'⟩ := ih hrest (a.apply P X settings f32 db)
    refine ⟨hkeys.trans hkeys', fun r hr => ?_⟩
    obtain ⟨r', hr', hid, hcreated⟩ := hrows r hr
    obtain ⟨r'', hr'', hid', hcreated'⟩ := hrows' r' hr'
    exact ⟨r'', hr'', hid'.trans hid, hcreated'.trans hcreated⟩

/-! ## Nothing is missed -/

/-- **A walk misses no row that was there when it began.** Whatever is
written between its requests, a walk through the logs in pages of at most
500 rows that ends with a short page shows every event that matched at its
first request and whose time no other has. So does a walk through the
alerts in pages of at most 100 rows, unless a status is asked for and
another is set meanwhile. -/
theorem walks_miss_nothing (w : Passage P X settings f32) (L n : ℕ) :
    (∀ (params : LogFilterParams) (x : ℕ → Answers) (items : ℕ → List EventLogEntity), L ≤ 500 →
      (∀ i ≤ n, DieselLogRepository.search_logs (x i) (params.page L i) (w.db i).logs =
        .ok (items i)) → (items n).length < L →
      ∀ e ∈ params.rows (w.db 0).logs,
        (∀ i ≤ n, ((params.rows (w.db i).logs).map EventLogEntity.recorded_at).count
          e.recorded_at = 1) → ∃ i ≤ n, e ∈ items i) ∧
    ∀ (params : AlertFilterParams) (order : ℕ → Ordering AlertEntity AlertEntity.created_at)
      (items : ℕ → List AlertEntity), L ≤ 100 → (∀ i < n, Keeps P X params (w.between i)) →
      (∀ i ≤ n, (DieselAlertRepository.find_all (params.page L i) (w.db i).alerts.rows
        (order i)).1 = items i) → (items n).length < L →
      ∀ a ∈ params.rows (w.db 0).alerts,
        (∀ i ≤ n, ((params.rows (w.db i).alerts).map AlertEntity.created_at).count
          a.created_at = 1) → ∃ i ≤ n, ∃ b ∈ items i, b.alert_id = a.alert_id := by
  constructor
  · intro params x items hsize hitems hshort e he hone
    have hL : 0 < L := Nat.zero_lt_of_lt hshort
    have hpage : ∀ i ≤ n, items i = Paging.page ((x i).logs (params.rows (w.db i).logs)).list
        (i * L) L := fun i hi => search_logs_page hL hsize (hitems i hi)
    have hgrow : ∀ i, (params.rows (w.db i).logs).Sublist (params.rows (w.db (i + 1)).logs) := by
      intro i
      rw [w.next]
      exact ((logs_prefix_foldl _ _).sublist.map _).filter _
    have hmem : ∀ i, e ∈ params.rows (w.db i).logs := by
      intro i
      induction i with
      | zero => exact he
      | succ i ih => exact (hgrow i).subset ih
    obtain ⟨i, hi, hshown⟩ := Paging.exists_mem_page (a := fun _ => e)
      (fun i => (x i).logs (params.rows (w.db i).logs)) (fun i _ => (hgrow i).map _)
      (fun i _ => hmem i) (fun _ _ => rfl) hone (by rw [← hpage n le_rfl]; exact hshort)
    exact ⟨i, hi, by rw [hpage i hi]; exact hshown⟩
  · intro params order items hsize hkeeps hitems hshort a ha hone
    have hL : 0 < L := Nat.zero_lt_of_lt hshort
    have hpage : ∀ i ≤ n, items i = Paging.page (order i (params.rows (w.db i).alerts)).list
        (i * L) L := fun i hi => (hitems i hi).symm.trans (find_all_alerts_page hL hsize _)
    -- the alert as it stands at each request
    have hstays : ∀ i ≤ n, ∃ b ∈ params.rows (w.db i).alerts,
        b.alert_id = a.alert_id ∧ b.created_at = a.created_at := by
      intro i hi
      induction i with
      | zero => exact ⟨a, ha, rfl, rfl⟩
      | succ i ih =>
        obtain ⟨b, hb, hid, hcreated⟩ := ih (Nat.le_of_succ_le hi)
        rw [w.next]
        obtain ⟨b', hb', hid', hcreated'⟩ := (alerts_foldl_keeps (hkeeps i hi) (w.db i)).2 b hb
        exact ⟨b', hb', hid'.trans hid, hcreated'.trans hcreated⟩
    have hnonempty : Nonempty AlertEntity := ⟨a⟩
    choose! b hb hid hcreated using hstays
    obtain ⟨i, hi, hshown⟩ := Paging.exists_mem_page (a := b)
      (fun i => order i (params.rows (w.db i).alerts))
      (fun i hi => by rw [w.next]; exact (alerts_foldl_keeps (hkeeps i hi) (w.db i)).1)
      hb hcreated hone (by rw [← hpage n le_rfl]; exact hshort)
    exact ⟨i, hi, b i, by rw [hpage i hi]; exact hshown, hid i hi⟩

/-- A backend that reads no token. -/
def tokenlessPlatform : Platform Databases :=
  { Api.nodesPlatform with authorized := fun _ _ _ _ db => (.empty 500, db) }

def plainExtractors : Extractors where
  text := .standard
  path id := (UuidText.standard.parse id).mapError fun _ => .empty 400
  node_params _ := .error (.empty 400)
  alert_params _ := .error (.empty 400)
  log_params _ := .error (.empty 400)
  ilike a b := decide (a = b)
  datetime _ := ""
  score _ := .null

/-- An event of a process, of a time in microseconds. -/
def logOf (n : ℕ) (time : ℤ) : NewEventLogEntity :=
  ⟨⟨n⟩, ⟨1⟩, "process", "unknown", .null, none, time * 1000⟩

/-- There is one event at first, and a later one is stored after the first
request of a walk. -/
def growing : Passage tokenlessPlatform plainExtractors Api.defaultSettings fun _ => 0 where
  db
    | 0 => ⟨.empty, .empty, KeyedTable.empty.insertAll [logOf 1 10]⟩
    | _ + 1 => ⟨.empty, .empty, KeyedTable.empty.insertAll [logOf 1 10, logOf 2 20]⟩
  between
    | 0 => [.insert_batch [logOf 2 20] (.ok ())]
    | _ + 1 => []
  next
    | 0 => rfl
    | _ + 1 => rfl

/-- The database answers, and orders by insertion. -/
def answering : Answers where
  faults _ := none
  lost := false
  connect := .ok ()
  nodes := .insertion _
  health := .insertion _
  alerts := .insertion _
  logs := .insertion _

/-- The first event is on the first page, and once more on the second. -/
theorem walks_miss_nothing_growing : ∃ i ≤ 2, EventLogEntity.ofRow (logOf 1 10) ∈
    if i = 2 then [] else [EventLogEntity.ofRow (logOf 1 10)] := by
  refine (walks_miss_nothing growing 1 2).1 ⟨none, none, none, none, none, none⟩
    (fun _ => answering) _ (by decide) (fun i hi => ?_) (by decide) _ (List.mem_singleton_self _)
    fun i hi => ?_
  · match i, hi with
    | 0, _ | 1, _ | 2, _ => rfl
  · match i, hi with
    | 0, _ | 1, _ | 2, _ => rfl

end Backend

end AigisZero
