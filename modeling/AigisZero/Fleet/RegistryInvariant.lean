import AigisZero.Fleet.Registry
import Mathlib.Data.List.Nodup

/-!
# What the registry keeps

The three writers as one machine over the tables, with the log of the
calls and their results beside it. The invariant ties each node to the
log: its enrollments, its events and its operator status.
-/

namespace AigisZero.Fleet

/-- The calls that write the tables. -/
inductive RegistryOp where
  | upsert_node (record : NodeRecord) (draw : EnrollmentDraw) (faults : Faults)
  | record_heartbeat (hb : AgentHeartbeat) (health_id : Uuid) (now : ℕ) (faults : Faults)
  | update_operator_status (target_id : Uuid) (new_status : String) (now : ℕ) (faults : Faults)

/-- What they answer. -/
inductive RegistryResult where
  | enrollment (result : Except NodeEnrollmentError String)
  | heartbeat (result : Except Status Unit)
  | operator (result : Except AppError IsolateNodeResponse)

/-- The call answered an error. -/
def RegistryResult.Failed : RegistryResult → Prop
  | enrollment result => ∃ e, result = .error e
  | heartbeat result => ∃ e, result = .error e
  | operator result => ∃ e, result = .error e

variable (text : UuidText)

/-- One call: its answer, and the tables after it. -/
def RegistryOp.apply (t : Tables) : RegistryOp → RegistryResult × Tables
  | upsert_node record draw faults =>
    let (result, t) := Fleet.upsert_node text record draw faults t
    (.enrollment result, t)
  | record_heartbeat hb health_id now faults =>
    let (result, t) := Fleet.record_heartbeat text hb health_id now faults t
    (.heartbeat result, t)
  | update_operator_status target_id new_status now faults =>
    let (result, t) := Fleet.update_operator_status text target_id new_status now faults t
    (.operator result, t)

/-- The tables, and the calls made so far with their answers. -/
structure RegistryState where
  tables : Tables
  log : List (RegistryOp × RegistryResult)

/-- The registry before any call. -/
def RegistryState.init : RegistryState := ⟨Tables.empty, []⟩

/-- **The registry as a machine**: the calls, one at a time. -/
def registry : Machine RegistryState RegistryOp where
  step s op :=
    let (result, t) := op.apply text s.tables
    some ⟨t, s.log ++ [(op, result)]⟩

/-! ## What the log says -/

/-- The identifier a successful enrollment of the machine answered. -/
def enrolledAs (machine_id : String) : RegistryOp × RegistryResult → Option String
  | (.upsert_node record _ _, .enrollment (.ok node_id)) =>
    if record.machine_id = machine_id then some node_id else none
  | _ => none

/-- The answers of the successful enrollments of a machine, in order. -/
def enrollments (machine_id : String) (log : List (RegistryOp × RegistryResult)) : List String :=
  log.filterMap (enrolledAs machine_id)

/-- The status a successful status change of the node set. -/
def operatorSet (node_id : Uuid) : RegistryOp × RegistryResult → Option String
  | (.update_operator_status target_id new_status _ _, .operator (.ok _)) =>
    if target_id = node_id then some new_status else none
  | _ => none

/-- The status the operators gave the node last, `active` where none did. -/
def lastOperatorStatus (node_id : Uuid) (log : List (RegistryOp × RegistryResult)) : String :=
  ((log.filterMap (operatorSet node_id)).getLast?).getD "active"

/-- The types of the events of a node, in the order they were written. -/
def eventTypes (t : Tables) (node_id : Uuid) : List String :=
  (t.enrollment_events.filter (·.node_id = node_id)).map (·.event_type)

/-! ## The invariant -/

/-- **The registry invariant**, of the tables and the log. -/
structure RegistryInv (s : RegistryState) : Prop where
  /-- A node has been enrolled, each time under its own identifier, and
  the first of its events is its only `new_enrollment`. -/
  enrolled : ∀ n ∈ s.tables.nodes, ∃ k,
    enrollments n.machine_id s.log = List.replicate (k + 1) (text.print n.node_id) ∧
    eventTypes s.tables n.node_id = "new_enrollment" :: List.replicate k "re_enrollment"
  /-- A machine without a node was never enrolled. -/
  not_enrolled : ∀ m, m ∉ s.tables.nodes.map (·.machine_id) → enrollments m s.log = []
  operator_status : ∀ n ∈ s.tables.nodes, n.operator_status = lastOperatorStatus n.node_id s.log
  /-- No status was set of a node that is not there. -/
  not_operated : ∀ id, id ∉ s.tables.nodes.map (·.node_id) →
    s.log.filterMap (operatorSet id) = []
  agent_status : ∀ n ∈ s.tables.nodes, n.agent_status = "healthy" ∨ n.agent_status = "degraded"

variable {text} {s : RegistryState} {t : Tables} {log : List (RegistryOp × RegistryResult)}

theorem enrollments_append {m : String} {e : RegistryOp × RegistryResult} :
    enrollments m (log ++ [e]) = enrollments m log ++ (enrolledAs m e).toList := by
  rw [enrollments, List.filterMap_append]
  cases h : enrolledAs m e <;> simp [enrollments, h]

theorem filterMap_operatorSet_append {id : Uuid} {e : RegistryOp × RegistryResult} :
    (log ++ [e]).filterMap (operatorSet id) =
      log.filterMap (operatorSet id) ++ (operatorSet id e).toList := by
  rw [List.filterMap_append]
  cases h : operatorSet id e <;> simp [h]

/-- What sets no status leaves the last one. -/
theorem lastOperatorStatus_append_of_none {id : Uuid} {e : RegistryOp × RegistryResult}
    (h : operatorSet id e = none) :
    lastOperatorStatus id (log ++ [e]) = lastOperatorStatus id log := by
  rw [lastOperatorStatus, filterMap_operatorSet_append, h, Option.toList_none, List.append_nil,
    lastOperatorStatus]

theorem lastOperatorStatus_append_of_some {id : Uuid} {e : RegistryOp × RegistryResult}
    {status : String} (h : operatorSet id e = some status) :
    lastOperatorStatus id (log ++ [e]) = status := by
  rw [lastOperatorStatus, filterMap_operatorSet_append, h, Option.toList_some, List.getLast?_concat]
  rfl

/-- The events of a node once another is written. -/
theorem eventTypes_append {t' : Tables} {e : EnrollmentEventRow}
    (h : t'.enrollment_events = t.enrollment_events ++ [e]) (id : Uuid) :
    eventTypes t' id = eventTypes t id ++ if e.node_id = id then [e.event_type] else [] := by
  rw [eventTypes, h, List.filter_append, List.map_append]
  by_cases hid : e.node_id = id <;> simp [eventTypes, hid]

/-- A node that is not there has no events. -/
theorem eventTypes_eq_nil {id : Uuid} (h : id ∉ t.nodes.map (·.node_id)) :
    eventTypes t id = [] := by
  rw [eventTypes, List.map_eq_nil_iff, List.filter_eq_nil_iff]
  intro e he hid
  exact h (of_decide_eq_true hid ▸ t.event_references e he)

theorem sanitizeStatus_eq (status : String) :
    sanitizeStatus status = "healthy" ∨ sanitizeStatus status = "degraded" := by
  unfold sanitizeStatus
  split <;> simp

/-- One machine, one row. -/
theorem eq_of_machine_id {n n' : NodeRow} (hn : n ∈ t.nodes) (hn' : n' ∈ t.nodes)
    (h : n.machine_id = n'.machine_id) : n = n' :=
  List.inj_on_of_nodup_map t.machine_id_unique hn hn' h

/-- One identifier, one row. -/
theorem eq_of_node_id {n n' : NodeRow} (hn : n ∈ t.nodes) (hn' : n' ∈ t.nodes)
    (h : n.node_id = n'.node_id) : n = n' :=
  List.inj_on_of_nodup_map t.node_id_primary hn hn' h

/-! ## Each call keeps it -/

/-- What a call makes of one row: the keys stay, the operator status is
the one the call set, the agent status is the old one or one an agent may
report. -/
structure RowStep (e : RegistryOp × RegistryResult) (n₀ n : NodeRow) : Prop where
  node_id : n.node_id = n₀.node_id
  machine_id : n.machine_id = n₀.machine_id
  operator_status : n.operator_status = (operatorSet n₀.node_id e).getD n₀.operator_status
  agent_status : n.agent_status = n₀.agent_status ∨
    n.agent_status = "healthy" ∨ n.agent_status = "degraded"

/-- The rows of an update step one by one. -/
theorem forall₂_updated {e : RegistryOp × RegistryResult} {node_id : Uuid} {set : NodeRow → NodeRow}
    {rows : List NodeRow} (hset : ∀ n ∈ rows, n.node_id = node_id → RowStep e n (set n))
    (hother : ∀ n ∈ rows, n.node_id ≠ node_id → operatorSet n.node_id e = none) :
    List.Forall₂ (RowStep e) rows (Tables.updated node_id set rows) := by
  rw [Tables.updated, List.forall₂_map_right_iff]
  refine List.forall₂_same.2 fun n hn => ?_
  by_cases hid : n.node_id = node_id
  · rw [if_pos hid]
    exact hset n hn hid
  · rw [if_neg hid]
    exact ⟨rfl, rfl, by rw [hother n hn hid]; rfl, .inl rfl⟩

/-- What no step touches is the same in all rows. -/
theorem map_eq_of_forall₂ {α β : Type*} {R : α → α → Prop} {l l' : List α} {f : α → β}
    (h : List.Forall₂ R l l') (hf : ∀ a b, R a b → f b = f a) : l'.map f = l.map f := by
  induction h with
  | nil => rfl
  | cons hab _ ih => rw [List.map_cons, List.map_cons, hf _ _ hab, ih]

/-- **A call that adds no row.** Its rows step one by one, it counts for
no node that is not there, and its enrollments have their events. -/
theorem RegistryInv.of_rowStep (hi : RegistryInv text s) {t' : Tables}
    {e : RegistryOp × RegistryResult}
    (hrows : List.Forall₂ (RowStep e) s.tables.nodes t'.nodes)
    (henroll : ∀ m, m ∉ s.tables.nodes.map (·.machine_id) → enrolledAs m e = none)
    (hset : ∀ id, id ∉ s.tables.nodes.map (·.node_id) → operatorSet id e = none)
    (hevents : ∀ n ∈ s.tables.nodes, ∃ j,
      (enrolledAs n.machine_id e).toList = List.replicate j (text.print n.node_id) ∧
      eventTypes t' n.node_id =
        eventTypes s.tables n.node_id ++ List.replicate j "re_enrollment") :
    RegistryInv text ⟨t', s.log ++ [e]⟩ := by
  have hfrom : ∀ n ∈ t'.nodes, ∃ n₀ ∈ s.tables.nodes, RowStep e n₀ n := by
    intro n hn
    obtain ⟨i, hi', rfl⟩ := List.getElem_of_mem hn
    have hlen : i < s.tables.nodes.length := by rwa [hrows.length_eq]
    exact ⟨_, List.getElem_mem hlen, hrows.get hlen hi'⟩
  -- no step touches a key, so the nodes there are stay the same
  have hids : t'.nodes.map (·.node_id) = s.tables.nodes.map (·.node_id) :=
    map_eq_of_forall₂ hrows fun _ _ h => h.node_id
  have hmachines : t'.nodes.map (·.machine_id) = s.tables.nodes.map (·.machine_id) :=
    map_eq_of_forall₂ hrows fun _ _ h => h.machine_id
  constructor
  · intro n hn
    obtain ⟨n₀, hn₀, hstep⟩ := hfrom n hn
    obtain ⟨k, hlog, htypes⟩ := hi.enrolled n₀ hn₀
    obtain ⟨j, hlog', htypes'⟩ := hevents n₀ hn₀
    refine ⟨k + j, ?_, ?_⟩
    · rw [enrollments_append, hstep.machine_id, hstep.node_id, hlog, hlog', ← List.replicate_add]
      congr 1
      omega
    · rw [hstep.node_id, htypes', htypes, List.cons_append, ← List.replicate_add]
  · intro m hm
    rw [hmachines] at hm
    rw [enrollments_append, hi.not_enrolled m hm, henroll m hm]
    rfl
  · intro n hn
    obtain ⟨n₀, hn₀, hstep⟩ := hfrom n hn
    rw [hstep.operator_status, hstep.node_id]
    cases hop : operatorSet n₀.node_id e with
    | none =>
      rw [lastOperatorStatus_append_of_none hop]
      exact hi.operator_status n₀ hn₀
    | some status => rw [lastOperatorStatus_append_of_some hop]; rfl
  · intro id hid
    rw [hids] at hid
    rw [filterMap_operatorSet_append, hi.not_operated id hid, hset id hid]
    rfl
  · intro n hn
    obtain ⟨n₀, hn₀, hstep⟩ := hfrom n hn
    rcases hstep.agent_status with hag | hag
    · rw [hag]
      exact hi.agent_status n₀ hn₀
    · exact hag

/-- A call that changes no table and counts for nothing. -/
theorem RegistryInv.failed (hi : RegistryInv text s) {e : RegistryOp × RegistryResult}
    (henroll : ∀ m, enrolledAs m e = none) (hset : ∀ id, operatorSet id e = none) :
    RegistryInv text ⟨s.tables, s.log ++ [e]⟩ :=
  hi.of_rowStep (List.forall₂_same.2 fun n _ => ⟨rfl, rfl, by rw [hset]; rfl, .inl rfl⟩)
    (fun m _ => henroll m) (fun id _ => hset id)
    fun n _ => ⟨0, by rw [henroll]; rfl, by simp⟩

/-- The enrollment of a new machine. -/
theorem RegistryInv.enroll_new (hi : RegistryInv text s) {t' : Tables} {record : NodeRecord}
    {draw : EnrollmentDraw} {faults : Faults}
    (hid : draw.node_id ∉ s.tables.nodes.map (·.node_id))
    (hmachine : record.machine_id ∉ s.tables.nodes.map (·.machine_id))
    (hnodes : t'.nodes = s.tables.nodes ++ [NewNodeEntity record draw])
    (hevents : t'.enrollment_events = s.tables.enrollment_events ++
      [NewEnrollmentEventEntity record draw draw.node_id "new_enrollment"]) :
    RegistryInv text ⟨t', s.log ++ [(.upsert_node record draw faults,
      .enrollment (.ok (text.print draw.node_id)))]⟩ := by
  -- the rows there were keep what they had; the new one starts its own
  have hold : ∀ n ∈ s.tables.nodes, n.node_id ≠ draw.node_id ∧ n.machine_id ≠ record.machine_id :=
    fun n hn => ⟨fun h => hid (h ▸ List.mem_map_of_mem hn),
      fun h => hmachine (h ▸ List.mem_map_of_mem hn)⟩
  constructor
  · intro n hn
    rw [enrollments_append, eventTypes_append hevents]
    rcases List.mem_append.1 (hnodes ▸ hn) with hn | hn
    · obtain ⟨hne, hnm⟩ := hold n hn
      obtain ⟨k, hlog, htypes⟩ := hi.enrolled n hn
      refine ⟨k, ?_, ?_⟩
      · simpa [enrolledAs, Ne.symm hnm] using hlog
      · simpa [NewEnrollmentEventEntity, Ne.symm hne] using htypes
    · obtain rfl := List.mem_singleton.1 hn
      refine ⟨0, ?_, ?_⟩
      · simp [enrolledAs, NewNodeEntity, hi.not_enrolled _ hmachine]
      · simp [NewEnrollmentEventEntity, NewNodeEntity, eventTypes_eq_nil hid]
  · intro m hm
    rw [hnodes] at hm
    simp only [List.map_append, List.mem_append, not_or] at hm
    rw [enrollments_append, hi.not_enrolled m hm.1]
    have hne : record.machine_id ≠ m := fun h => hm.2 (by simp [NewNodeEntity, h])
    simp [enrolledAs, hne]
  · intro n hn
    rw [lastOperatorStatus_append_of_none rfl]
    rcases List.mem_append.1 (hnodes ▸ hn) with hn | hn
    · exact hi.operator_status n hn
    · obtain rfl := List.mem_singleton.1 hn
      simp [lastOperatorStatus, NewNodeEntity, hi.not_operated _ hid]
  · intro id hmem
    rw [hnodes] at hmem
    simp only [List.map_append, List.mem_append, not_or] at hmem
    rw [filterMap_operatorSet_append, hi.not_operated id hmem.1]
    rfl
  · intro n hn
    rcases List.mem_append.1 (hnodes ▸ hn) with hn | hn
    · exact hi.agent_status n hn
    · obtain rfl := List.mem_singleton.1 hn
      exact .inl rfl

/-- The enrollment of a known machine. -/
theorem RegistryInv.enroll_again (hi : RegistryInv text s) {t' : Tables} {record : NodeRecord}
    {draw : EnrollmentDraw} {faults : Faults} {row : NodeRow} (hrow : row ∈ s.tables.nodes)
    (hmachine : row.machine_id = record.machine_id)
    (hnodes : t'.nodes = Tables.updated row.node_id (reEnroll record draw) s.tables.nodes)
    (hevents : t'.enrollment_events = s.tables.enrollment_events ++
      [NewEnrollmentEventEntity record draw row.node_id "re_enrollment"]) :
    RegistryInv text ⟨t', s.log ++ [(.upsert_node record draw faults,
      .enrollment (.ok (text.print row.node_id)))]⟩ := by
  refine hi.of_rowStep ?_ ?_ (fun id _ => rfl) ?_
  · rw [hnodes]
    exact forall₂_updated (fun n _ _ => ⟨rfl, rfl, rfl, .inl rfl⟩) fun n _ _ => rfl
  · intro m hm
    have hne : record.machine_id ≠ m := fun h => hm (h ▸ hmachine ▸ List.mem_map_of_mem hrow)
    simp [enrolledAs, hne]
  · intro n hn
    rw [eventTypes_append hevents]
    -- only the machine that enrolled has one more enrollment, and one more event
    by_cases hsame : n = row
    · subst hsame
      exact ⟨1, by simp [enrolledAs, hmachine], by simp [NewEnrollmentEventEntity]⟩
    · have hne : record.machine_id ≠ n.machine_id :=
        fun h => hsame (eq_of_machine_id hn hrow (h.symm.trans hmachine.symm))
      have hnid : row.node_id ≠ n.node_id := fun h => hsame (eq_of_node_id hn hrow h.symm)
      exact ⟨0, by simp [enrolledAs, hne], by simp [NewEnrollmentEventEntity, hnid]⟩

/-- A heartbeat that was recorded. -/
theorem RegistryInv.heartbeat (hi : RegistryInv text s) {t' : Tables} {hb : AgentHeartbeat}
    {health_id node_id : Uuid} {now : ℕ} {faults : Faults} {result : Except Status Unit}
    (hnodes : t'.nodes =
      Tables.updated node_id (setAgentStatus (sanitizeStatus hb.status)) s.tables.nodes)
    (hevents : t'.enrollment_events = s.tables.enrollment_events) :
    RegistryInv text
      ⟨t', s.log ++ [(.record_heartbeat hb health_id now faults, .heartbeat result)]⟩ := by
  refine hi.of_rowStep ?_ (fun m _ => rfl) (fun id _ => rfl) ?_
  · rw [hnodes]
    exact forall₂_updated (fun n _ _ => ⟨rfl, rfl, rfl, .inr (sanitizeStatus_eq hb.status)⟩)
      fun n _ _ => rfl
  · intro n hn
    exact ⟨0, rfl, by simp [eventTypes, hevents]⟩

/-- A status change of a node there is. -/
theorem RegistryInv.operator (hi : RegistryInv text s) {t' : Tables} {target_id : Uuid}
    {new_status : String} {now : ℕ} {faults : Faults} {response : IsolateNodeResponse}
    (htarget : target_id ∈ s.tables.nodes.map (·.node_id))
    (hnodes : t'.nodes = Tables.updated target_id (setOperatorStatus new_status) s.tables.nodes)
    (hevents : t'.enrollment_events = s.tables.enrollment_events) :
    RegistryInv text ⟨t', s.log ++ [(.update_operator_status target_id new_status now faults,
      .operator (.ok response))]⟩ := by
  refine hi.of_rowStep ?_ (fun m _ => rfl) ?_ ?_
  · rw [hnodes]
    refine forall₂_updated (fun n _ hid => ⟨rfl, rfl, ?_, .inl rfl⟩) fun n _ hid => ?_
    · simp [operatorSet, setOperatorStatus, hid]
    · simp [operatorSet, Ne.symm hid]
  · intro id hid
    have hne : target_id ≠ id := fun h => hid (h ▸ htarget)
    simp [operatorSet, hne]
  · intro n hn
    exact ⟨0, rfl, by simp [eventTypes, hevents]⟩

/-! ## Every run keeps it -/

/-- **One call keeps the invariant.** -/
theorem registry_step {op : RegistryOp} {s' : RegistryState} (hi : RegistryInv text s)
    (h : (registry text).step s op = some s') : RegistryInv text s' := by
  obtain rfl := Option.some.inj h
  cases op with
  | upsert_node record draw faults =>
    rcases upsert_node_cases text record draw faults s.tables with
      ⟨e, hc⟩ | ⟨t', hc, hid, hm, hn, he⟩ | ⟨row, hrow, t', hm, hc, hn, he⟩ <;>
      simp only [hc]
    · exact hi.failed (fun m => rfl) fun id => rfl
    · exact hi.enroll_new hid hm hn he
    · exact hi.enroll_again hrow hm hn he
  | record_heartbeat hb health_id now faults =>
    rcases record_heartbeat_cases text hb health_id now faults s.tables with
      ⟨e, hc⟩ | ⟨node_id, t', -, hc, -, hn, he, -⟩ <;> simp only [hc]
    · exact hi.failed (fun m => rfl) fun id => rfl
    · exact hi.heartbeat hn he
  | update_operator_status target_id new_status now faults =>
    rcases update_operator_status_cases text target_id new_status now faults s.tables with
      ⟨e, hc⟩ | ⟨response, t', hc, htarget, hn, he, -⟩ <;> simp only [hc]
    · exact hi.failed (fun m => rfl) fun id => rfl
    · exact hi.operator htarget hn he

theorem registryInv_init : RegistryInv text RegistryState.init where
  enrolled := by simp [RegistryState.init, Tables.empty]
  not_enrolled m _ := rfl
  operator_status := by simp [RegistryState.init, Tables.empty]
  not_operated id _ := rfl
  agent_status := by simp [RegistryState.init, Tables.empty]

/-- A call that fails leaves the tables as they were. -/
theorem apply_failed {op : RegistryOp} (h : (op.apply text t).1.Failed) :
    (op.apply text t).2 = t := by
  cases op with
  | upsert_node record draw faults =>
    rcases upsert_node_cases text record draw faults t with
      ⟨e, hc⟩ | ⟨t', hc, -⟩ | ⟨row, -, t', -, hc, -⟩ <;>
      simp_all [RegistryOp.apply, RegistryResult.Failed]
  | record_heartbeat hb health_id now faults =>
    rcases record_heartbeat_cases text hb health_id now faults t with
      ⟨e, hc⟩ | ⟨node_id, t', -, hc, -⟩ <;>
      simp_all [RegistryOp.apply, RegistryResult.Failed]
  | update_operator_status target_id new_status now faults =>
    rcases update_operator_status_cases text target_id new_status now faults t with
      ⟨e, hc⟩ | ⟨response, t', hc, -⟩ <;>
      simp_all [RegistryOp.apply, RegistryResult.Failed]

/-- What the registry promises of its tables, given the calls made so far
and their answers. -/
structure RegistryOk (text : UuidText) (s : RegistryState) : Prop where
  /-- A machine has at most one node. -/
  one_node : ∀ n ∈ s.tables.nodes, ∀ n' ∈ s.tables.nodes, n.machine_id = n'.machine_id → n = n'
  /-- The enrollments of a machine all answer alike, -/
  stable : ∀ m, ∀ reply ∈ enrollments m s.log, ∀ reply' ∈ enrollments m s.log, reply = reply'
  /-- and what they answer is the identifier of its node. -/
  answered : ∀ m, ∀ reply ∈ enrollments m s.log,
    ∃ n ∈ s.tables.nodes, n.machine_id = m ∧ reply = text.print n.node_id
  /-- The operator status is the operators' alone. -/
  operator_status : ∀ n ∈ s.tables.nodes, n.operator_status = lastOperatorStatus n.node_id s.log
  agent_status : ∀ n ∈ s.tables.nodes, n.agent_status = "healthy" ∨ n.agent_status = "degraded"
  /-- The first event of a node is its only `new_enrollment`, and it has one
  event for each of its enrollments. -/
  events : ∀ n ∈ s.tables.nodes,
    (∃ later, eventTypes s.tables n.node_id = "new_enrollment" :: later ∧
      "new_enrollment" ∉ later) ∧
    (eventTypes s.tables n.node_id).length = (enrollments n.machine_id s.log).length
  /-- A health row is of a node there is. -/
  health : ∀ h ∈ s.tables.node_health, ∃ n ∈ s.tables.nodes, n.node_id = h.node_id
  /-- A call that fails changes no table. -/
  failed : ∀ op : RegistryOp, (op.apply text s.tables).1.Failed →
    (op.apply text s.tables).2 = s.tables

/-- The enrollments of a machine answer the identifier of its node. -/
theorem RegistryInv.answered (hi : RegistryInv text s) {m reply : String}
    (hreply : reply ∈ enrollments m s.log) :
    ∃ n ∈ s.tables.nodes, n.machine_id = m ∧ reply = text.print n.node_id := by
  by_cases hm : m ∈ s.tables.nodes.map (·.machine_id)
  · obtain ⟨n, hn, rfl⟩ := List.mem_map.1 hm
    obtain ⟨k, hlog, -⟩ := hi.enrolled n hn
    rw [hlog] at hreply
    exact ⟨n, hn, rfl, List.eq_of_mem_replicate hreply⟩
  · rw [hi.not_enrolled m hm] at hreply
    cases hreply

/-- The invariant is enough. -/
theorem RegistryInv.ok (hi : RegistryInv text s) : RegistryOk text s where
  one_node n hn n' hn' h := eq_of_machine_id hn hn' h
  stable m reply hreply reply' hreply' := by
    obtain ⟨n, hn, hm, rfl⟩ := hi.answered hreply
    obtain ⟨n', hn', hm', rfl⟩ := hi.answered hreply'
    rw [eq_of_machine_id hn hn' (hm.trans hm'.symm)]
  answered m reply hreply := hi.answered hreply
  operator_status := hi.operator_status
  agent_status := hi.agent_status
  events n hn := by
    obtain ⟨k, hlog, htypes⟩ := hi.enrolled n hn
    refine ⟨⟨_, htypes, fun h => ?_⟩, by rw [htypes, hlog]; simp⟩
    -- all its later events are re-enrollments
    exact absurd (List.eq_of_mem_replicate h) (by decide)
  health h hh := by
    obtain ⟨n, hn, hid⟩ := List.mem_map.1 (s.tables.health_references h hh)
    exact ⟨n, hn, hid⟩
  failed op h := apply_failed h

/-- **The registry keeps its promises along every run**, and any list of
calls is one. -/
theorem registry_run (text : UuidText) (ops : List RegistryOp) :
    ∃ s, (registry text).run RegistryState.init ops = some s ∧ RegistryOk text s := by
  have htotal : ∀ s op, ∃ s', (registry text).step s op = some s' := fun s op => ⟨_, rfl⟩
  obtain ⟨s, hrun⟩ := Machine.exists_run_of_total htotal RegistryState.init ops
  have hi : RegistryInv text s :=
    Machine.run_preserves (fun _ _ _ hi h => registry_step hi h) hrun registryInv_init
  exact ⟨s, hrun, hi.ok⟩

end AigisZero.Fleet
