import AigisZero.Fleet.Ports
import AigisZero.Library.Fallible
import AigisZero.Library.Machine
import AigisZero.Library.Uuid

/-!
# The node registry

Three tables hold what the platform knows of its endpoints: `nodes`,
`enrollment_events` and `node_health`. Three writers share them.
Enrollment and health tracking, of the Fleet Server, write in transactions
of several statements; the operator's status change, of the API backend,
is one statement. Any statement can fail.
-/

namespace AigisZero.Fleet

/-! ## The tables -/

/-- A row of `nodes`. -/
structure NodeRow where
  node_id : Uuid
  machine_id : String
  hostname : String
  os_version : String
  agent_version : String
  agent_status : String
  operator_status : String
  first_seen_at : ℕ
  last_enrolled_at : ℕ
deriving DecidableEq, Repr

/-- A row of `enrollment_events`. -/
structure EnrollmentEventRow where
  event_id : Uuid
  node_id : Uuid
  event_type : String
  hostname : String
  os_version : String
  agent_version : String
  enrolled_at : ℕ
deriving DecidableEq, Repr

/-- A row of `node_health`. -/
structure NodeHealthRow where
  health_id : Uuid
  node_id : Uuid
  agent_status : String
  events_buffered : Int64
  recorded_at : ℕ
deriving DecidableEq, Repr

/-- **The tables, under the constraints of the schema**: the primary keys,
the unique machine identifier and the references into `nodes`. Rows stand
in the order of their insertion. -/
structure Tables where
  nodes : List NodeRow
  enrollment_events : List EnrollmentEventRow
  node_health : List NodeHealthRow
  node_id_primary : (nodes.map (·.node_id)).Nodup
  machine_id_unique : (nodes.map (·.machine_id)).Nodup
  event_id_primary : (enrollment_events.map (·.event_id)).Nodup
  event_references : ∀ e ∈ enrollment_events, e.node_id ∈ nodes.map (·.node_id)
  health_id_primary : (node_health.map (·.health_id)).Nodup
  health_references : ∀ h ∈ node_health, h.node_id ∈ nodes.map (·.node_id)

namespace Tables

/-- The tables as the migrations create them. -/
def empty : Tables where
  nodes := []
  enrollment_events := []
  node_health := []
  node_id_primary := List.nodup_nil
  machine_id_unique := List.nodup_nil
  event_id_primary := List.nodup_nil
  event_references := by simp
  health_id_primary := List.nodup_nil
  health_references := by simp

theorem nodup_concat {α β : Type*} {f : α → β} {l : List α} {a : α} (hl : (l.map f).Nodup)
    (ha : f a ∉ l.map f) : ((l ++ [a]).map f).Nodup := by
  rw [List.map_append, List.nodup_append]
  refine ⟨hl, by simp, ?_⟩
  rintro x hx y hy rfl
  exact ha (List.mem_singleton.1 hy ▸ hx)

/-- `INSERT INTO nodes`. -/
def insertNode (t : Tables) (row : NodeRow) : Except String Tables :=
  if h : row.node_id ∉ t.nodes.map (·.node_id) ∧ row.machine_id ∉ t.nodes.map (·.machine_id) then
    .ok { t with
      nodes := t.nodes ++ [row]
      node_id_primary := nodup_concat t.node_id_primary h.1
      machine_id_unique := nodup_concat t.machine_id_unique h.2
      event_references := fun e he => by simpa using Or.inl (by simpa using t.event_references e he)
      health_references := fun e he => by
        simpa using Or.inl (by simpa using t.health_references e he) }
  else .error "duplicate key value violates unique constraint"

/-- `INSERT INTO enrollment_events`. -/
def insertEvent (t : Tables) (row : EnrollmentEventRow) : Except String Tables :=
  if hkey : row.event_id ∉ t.enrollment_events.map (·.event_id) then
    if href : row.node_id ∈ t.nodes.map (·.node_id) then
      .ok { t with
        enrollment_events := t.enrollment_events ++ [row]
        event_id_primary := nodup_concat t.event_id_primary hkey
        event_references := fun e he => by
          rcases List.mem_append.1 he with he | he
          · exact t.event_references e he
          · exact List.mem_singleton.1 he ▸ href }
    else .error "insert or update violates foreign key constraint"
  else .error "duplicate key value violates unique constraint"

/-- `INSERT INTO node_health`. -/
def insertHealth (t : Tables) (row : NodeHealthRow) : Except String Tables :=
  if hkey : row.health_id ∉ t.node_health.map (·.health_id) then
    if href : row.node_id ∈ t.nodes.map (·.node_id) then
      .ok { t with
        node_health := t.node_health ++ [row]
        health_id_primary := nodup_concat t.health_id_primary hkey
        health_references := fun e he => by
          rcases List.mem_append.1 he with he | he
          · exact t.health_references e he
          · exact List.mem_singleton.1 he ▸ href }
    else .error "insert or update violates foreign key constraint"
  else .error "duplicate key value violates unique constraint"

/-- The rows with the ones of a node changed. -/
def updated (node_id : Uuid) (set : NodeRow → NodeRow) (rows : List NodeRow) : List NodeRow :=
  rows.map fun row => if row.node_id = node_id then set row else row

/-- What leaves the keys alone leaves the columns of the keys alone. -/
theorem map_updated {β : Type*} {f : NodeRow → β} {node_id : Uuid} {set : NodeRow → NodeRow}
    (hset : ∀ row, f (set row) = f row) (rows : List NodeRow) :
    (updated node_id set rows).map f = rows.map f := by
  rw [updated, List.map_map]
  refine List.map_congr_left fun row _ => ?_
  by_cases h : row.node_id = node_id
  · simp [h, hset]
  · simp [h]

/-- `UPDATE nodes SET … WHERE node_id = …`, of columns that are not keys. -/
def updateNode (t : Tables) (node_id : Uuid) (set : NodeRow → NodeRow)
    (hset : ∀ row, (set row).node_id = row.node_id ∧ (set row).machine_id = row.machine_id) :
    Tables where
  nodes := updated node_id set t.nodes
  enrollment_events := t.enrollment_events
  node_health := t.node_health
  node_id_primary := by
    rw [map_updated fun row => (hset row).1]
    exact t.node_id_primary
  machine_id_unique := by
    rw [map_updated fun row => (hset row).2]
    exact t.machine_id_unique
  event_id_primary := t.event_id_primary
  event_references := by
    rw [map_updated fun row => (hset row).1]
    exact t.event_references
  health_id_primary := t.health_id_primary
  health_references := by
    rw [map_updated fun row => (hset row).1]
    exact t.health_references

/-- `SELECT … FROM nodes WHERE node_id = …`. -/
def findNode (t : Tables) (node_id : Uuid) : Option NodeRow :=
  t.nodes.find? (·.node_id = node_id)

/-- `SELECT node_id FROM nodes WHERE machine_id = …`. -/
def nodeOfMachine (t : Tables) (machine_id : String) : Option Uuid :=
  (t.nodes.find? (·.machine_id = machine_id)).map (·.node_id)

end Tables

/-! ## Transactions -/

/-- The points at which the database can fail a call. -/
inductive Stage where
  | pool
  | statement (n : ℕ)
  | commit
deriving DecidableEq, Repr

/-- What the database answers at each point, where it is an error of its
own. -/
abbrev Faults := Stage → Option String

namespace Faults

/-- A point of a call: its own result, unless the database fails there. -/
def guard (faults : Faults) {α : Type*} (stage : Stage) (result : Except String α) :
    Except String α :=
  match faults stage with
  | some e => .error e
  | none => result

end Faults

/-- `conn.transaction`: the writes of the body are kept when it returns and
the commit goes through, and none of them otherwise. -/
def transaction {α : Type*} (faults : Faults) (body : Tables → Except String (α × Tables))
    (t : Tables) : Except String α × Tables :=
  match body t with
  | .error e => (.error e, t)
  | .ok (a, t') =>
    match faults .commit with
    -- a commit that fails rolls the writes back
    | some e => (.error e, t)
    | none => (.ok a, t')

/-! ## Enrollment -/

/-- What enrollment knows of a node; the store assigns its identifier. -/
structure NodeRecord where
  hostname : String
  os_version : String
  agent_version : String
  machine_id : String
deriving DecidableEq, Repr

/-- The errors of enrollment. -/
inductive NodeEnrollmentError where
  | store (message : String)
  | tokenSign (message : String)
  | clock (message : String)
deriving DecidableEq, Repr

/-- The identifiers and the clock an enrollment draws. -/
structure EnrollmentDraw where
  node_id : Uuid
  event_id : Uuid
  now : ℕ
deriving DecidableEq, Repr

/-- The row of a machine not seen before. -/
def NewNodeEntity (record : NodeRecord) (draw : EnrollmentDraw) : NodeRow where
  node_id := draw.node_id
  machine_id := record.machine_id
  hostname := record.hostname
  os_version := record.os_version
  agent_version := record.agent_version
  agent_status := "healthy"
  operator_status := "active"
  first_seen_at := draw.now
  last_enrolled_at := draw.now

/-- What an enrollment sets of a machine seen before. -/
def reEnroll (record : NodeRecord) (draw : EnrollmentDraw) (row : NodeRow) : NodeRow :=
  { row with
    hostname := record.hostname
    os_version := record.os_version
    agent_version := record.agent_version
    last_enrolled_at := draw.now }

/-- The audit row of an enrollment. -/
def NewEnrollmentEventEntity (record : NodeRecord) (draw : EnrollmentDraw) (node_id : Uuid)
    (event_type : String) : EnrollmentEventRow where
  event_id := draw.event_id
  node_id := node_id
  event_type := event_type
  hostname := record.hostname
  os_version := record.os_version
  agent_version := record.agent_version
  enrolled_at := draw.now

/-- The first write of an enrollment: the row of a machine not seen before,
or the versions of one that was. -/
def writeNode (record : NodeRecord) (draw : EnrollmentDraw) (existing : Option Uuid) (t : Tables) :
    Except String (Uuid × String × Tables) :=
  match existing with
  | none =>
    (t.insertNode (NewNodeEntity record draw)).map fun t => (draw.node_id, "new_enrollment", t)
  -- the keys and both statuses stay as they are
  | some node_id =>
    .ok (node_id, "re_enrollment",
      t.updateNode node_id (reEnroll record draw) fun _ => ⟨rfl, rfl⟩)

/-- The statements of an enrollment: look the machine up, write its row,
log the event. -/
def upsertBody (record : NodeRecord) (draw : EnrollmentDraw) (faults : Faults) (t : Tables) :
    Except String (Uuid × Tables) := do
  let existing ← faults.guard (.statement 0) (.ok (t.nodeOfMachine record.machine_id))
  let (node_id, event_type, t) ← faults.guard (.statement 1) (writeNode record draw existing t)
  let t ← faults.guard (.statement 2)
    (t.insertEvent (NewEnrollmentEventEntity record draw node_id event_type))
  return (node_id, t)

/-- `PgNodeStore::upsert_node`. -/
def upsert_node (text : UuidText) (record : NodeRecord) (draw : EnrollmentDraw) (faults : Faults)
    (t : Tables) : Except NodeEnrollmentError String × Tables :=
  match faults .pool with
  | some e => (.error (.store e), t)
  | none =>
    let (result, t) := transaction faults (upsertBody record draw faults) t
    ((result.mapError .store).map text.print, t)

/-! ## Heartbeats -/

/-- A heartbeat as the server stamped it. -/
structure HeartbeatRecord where
  node_id : String
  agent_status : String
  events_buffered : Int64
  recorded_at : ℕ
deriving DecidableEq, Repr

/-- The errors of health tracking. -/
inductive HealthTrackerError where
  | store (message : String)
deriving DecidableEq, Repr

/-- The health row of a heartbeat. -/
def NewNodeHealthEntity (record : HeartbeatRecord) (node_id health_id : Uuid) : NodeHealthRow where
  health_id := health_id
  node_id := node_id
  agent_status := record.agent_status
  events_buffered := record.events_buffered
  recorded_at := record.recorded_at

/-- What a heartbeat sets of its node. -/
def setAgentStatus (status : String) (row : NodeRow) : NodeRow :=
  { row with agent_status := status }

/-- The statements of a heartbeat: append it, and copy its status to the
node. -/
def heartbeatBody (record : HeartbeatRecord) (node_id health_id : Uuid) (faults : Faults)
    (t : Tables) : Except String (Unit × Tables) := do
  let t ← faults.guard (.statement 0)
    (t.insertHealth (NewNodeHealthEntity record node_id health_id))
  let t ← faults.guard (.statement 1)
    (.ok (t.updateNode node_id (setAgentStatus record.agent_status) fun _ => ⟨rfl, rfl⟩))
  return ((), t)

/-- `PgHealthStore::record_heartbeat`. -/
def PgHealthStore.record_heartbeat (text : UuidText) (record : HeartbeatRecord) (health_id : Uuid)
    (faults : Faults) (t : Tables) : Except HealthTrackerError Unit × Tables :=
  match text.parse record.node_id with
  | .error e => (.error (.store ("invalid node_id uuid: " ++ e)), t)
  | .ok node_id =>
    match faults .pool with
    | some e => (.error (.store e), t)
    | none =>
      let (result, t) := transaction faults (heartbeatBody record node_id health_id faults) t
      (result.mapError .store, t)

/-- The status a heartbeat is recorded with: what an agent may report of
itself, and `degraded` for anything else. -/
def sanitizeStatus (status : String) : String :=
  match status with
  | "healthy" => "healthy"
  | "degraded" => "degraded"
  | _ => "degraded"

/-- `HealthTracker::record_heartbeat`. -/
def record_heartbeat (text : UuidText) (hb : AgentHeartbeat) (health_id : Uuid) (now : ℕ)
    (faults : Faults) (t : Tables) : Except Status Unit × Tables :=
  let (result, t) := PgHealthStore.record_heartbeat text {
    node_id := hb.node_id
    agent_status := sanitizeStatus hb.status
    events_buffered := hb.events_buffered
    recorded_at := now } health_id faults t
  (result.mapError fun _ => ⟨.internal, "heartbeat store failed"⟩, t)

/-! ## The operator -/

/-- The errors of the operator's status change. -/
inductive AppError where
  | notFound (message : String)
  | databaseError (message : String)
deriving DecidableEq, Repr

/-- What a status change answers. -/
structure IsolateNodeResponse where
  node_id : Uuid
  operator_status : String
  command_dispatched : Bool
  updated_at : ℕ
deriving DecidableEq, Repr

/-- What a status change sets of its node. -/
def setOperatorStatus (status : String) (row : NodeRow) : NodeRow :=
  { row with operator_status := status }

/-- `DieselNodeRepository::update_operator_status`. -/
def update_operator_status (text : UuidText) (target_id : Uuid) (new_status : String) (now : ℕ)
    (faults : Faults) (t : Tables) : Except AppError IsolateNodeResponse × Tables :=
  match faults .pool, faults (.statement 0) with
  | some e, _ => (.error (.databaseError ("Connection pool error: " ++ e)), t)
  | none, some e => (.error (.databaseError e), t)
  | none, none =>
    let updated := t.updateNode target_id (setOperatorStatus new_status) fun _ => ⟨rfl, rfl⟩
    match updated.findNode target_id with
    | none => (.error (.notFound ("Node with id '" ++ text.print target_id ++ "' not found")), t)
    | some row => (.ok {
        node_id := row.node_id
        operator_status := row.operator_status
        command_dispatched := true
        updated_at := now }, updated)

/-! ## What a call can do -/

variable {t t' : Tables} {faults : Faults}

theorem guard_eq_ok {α : Type*} {stage : Stage} {result : Except String α} {a : α} :
    faults.guard stage result = .ok a ↔ faults stage = none ∧ result = .ok a := by
  unfold Faults.guard
  cases faults stage <;> simp

/-- A transaction fails and changes nothing, or its body returned. -/
theorem transaction_cases {α : Type*} (faults : Faults)
    (body : Tables → Except String (α × Tables)) (t : Tables) :
    (∃ e, transaction faults body t = (.error e, t)) ∨
      ∃ a t', transaction faults body t = (.ok a, t') ∧ body t = .ok (a, t') := by
  unfold transaction
  cases hbody : body t with
  | error e => exact .inl ⟨e, rfl⟩
  | ok r =>
    obtain ⟨a, t'⟩ := r
    cases faults .commit with
    | some e => exact .inl ⟨e, rfl⟩
    | none => exact .inr ⟨a, t', rfl, rfl⟩

theorem insertNode_eq_ok {row : NodeRow} (h : t.insertNode row = .ok t') :
    row.node_id ∉ t.nodes.map (·.node_id) ∧ row.machine_id ∉ t.nodes.map (·.machine_id) ∧
      t'.nodes = t.nodes ++ [row] ∧ t'.enrollment_events = t.enrollment_events ∧
      t'.node_health = t.node_health := by
  unfold Tables.insertNode at h
  split at h
  · next hkeys => cases h; exact ⟨hkeys.1, hkeys.2, rfl, rfl, rfl⟩
  · cases h

theorem insertEvent_eq_ok {row : EnrollmentEventRow} (h : t.insertEvent row = .ok t') :
    t'.nodes = t.nodes ∧ t'.enrollment_events = t.enrollment_events ++ [row] ∧
      t'.node_health = t.node_health := by
  unfold Tables.insertEvent at h
  split at h
  · split at h
    · cases h; exact ⟨rfl, rfl, rfl⟩
    · cases h
  · cases h

theorem insertHealth_eq_ok {row : NodeHealthRow} (h : t.insertHealth row = .ok t') :
    row.node_id ∈ t.nodes.map (·.node_id) ∧ t'.nodes = t.nodes ∧
      t'.enrollment_events = t.enrollment_events ∧ t'.node_health = t.node_health ++ [row] := by
  unfold Tables.insertHealth at h
  split at h
  · split at h
    · next href => cases h; exact ⟨href, rfl, rfl, rfl⟩
    · cases h
  · cases h

theorem nodeOfMachine_eq_some {machine_id : String} {node_id : Uuid}
    (h : t.nodeOfMachine machine_id = some node_id) :
    ∃ row ∈ t.nodes, row.machine_id = machine_id ∧ row.node_id = node_id := by
  obtain ⟨row, hrow, rfl⟩ := Option.map_eq_some_iff.1 h
  exact ⟨row, List.mem_of_find?_eq_some hrow, by simpa using List.find?_some hrow, rfl⟩

/-- **What an enrollment can do**: fail and change nothing, add the row of
a new machine with its first event, or refresh the row of a known one and
log that. -/
theorem upsert_node_cases (text : UuidText) (record : NodeRecord) (draw : EnrollmentDraw)
    (faults : Faults) (t : Tables) :
    (∃ e, upsert_node text record draw faults t = (.error e, t)) ∨
    (∃ t', upsert_node text record draw faults t = (.ok (text.print draw.node_id), t') ∧
      draw.node_id ∉ t.nodes.map (·.node_id) ∧ record.machine_id ∉ t.nodes.map (·.machine_id) ∧
      t'.nodes = t.nodes ++ [NewNodeEntity record draw] ∧
      t'.enrollment_events = t.enrollment_events ++
        [NewEnrollmentEventEntity record draw draw.node_id "new_enrollment"]) ∨
    (∃ row ∈ t.nodes, ∃ t', row.machine_id = record.machine_id ∧
      upsert_node text record draw faults t = (.ok (text.print row.node_id), t') ∧
      t'.nodes = Tables.updated row.node_id (reEnroll record draw) t.nodes ∧
      t'.enrollment_events = t.enrollment_events ++
        [NewEnrollmentEventEntity record draw row.node_id "re_enrollment"]) := by
  unfold upsert_node
  cases faults .pool with
  | some e => exact .inl ⟨_, rfl⟩
  | none =>
    rcases transaction_cases faults (upsertBody record draw faults) t with
      ⟨e, h⟩ | ⟨id, t', h, hbody⟩
    · exact .inl ⟨.store e, by rw [h]; rfl⟩
    · right
      simp only [upsertBody, bind_eq_ok, guard_eq_ok] at hbody
      obtain ⟨existing, ⟨-, hselect⟩, ⟨node_id, event_type, t₁⟩, ⟨-, hwrite⟩, t₂, ⟨-, hevent⟩,
        hpure⟩ :=
        hbody
      -- the body returned, so each statement did, and the event names the node of the second
      obtain ⟨rfl, rfl⟩ := Prod.mk.inj (Except.ok.inj hpure)
      obtain ⟨hnodes, hevents, -⟩ := insertEvent_eq_ok hevent
      rw [h]
      cases existing with
      | none =>
        obtain ⟨t₁', hinsert, heq⟩ := map_eq_ok.1 hwrite
        cases heq
        obtain ⟨hid, hmachine, hnodes₁, hevents₁, -⟩ := insertNode_eq_ok hinsert
        exact .inl ⟨t₂, rfl, hid, hmachine, hnodes.trans hnodes₁, hevents.trans (hevents₁ ▸ rfl)⟩
      | some id =>
        obtain ⟨row, hrow, hmachine, hid⟩ := nodeOfMachine_eq_some (Except.ok.inj hselect)
        cases hwrite
        subst hid
        exact .inr ⟨row, hrow, t₂, hmachine, rfl, hnodes, hevents⟩

/-- **What a heartbeat can do**: fail and change nothing, or append its row
and copy the sanitized status to its node. -/
theorem record_heartbeat_cases (text : UuidText) (hb : AgentHeartbeat) (health_id : Uuid) (now : ℕ)
    (faults : Faults) (t : Tables) :
    (∃ e, record_heartbeat text hb health_id now faults t = (.error e, t)) ∨
    (∃ node_id t', text.parse hb.node_id = .ok node_id ∧
      record_heartbeat text hb health_id now faults t = (.ok (), t') ∧
      node_id ∈ t.nodes.map (·.node_id) ∧
      t'.nodes = Tables.updated node_id (setAgentStatus (sanitizeStatus hb.status)) t.nodes ∧
      t'.enrollment_events = t.enrollment_events ∧
      t'.node_health = t.node_health ++ [NewNodeHealthEntity
        ⟨hb.node_id, sanitizeStatus hb.status, hb.events_buffered, now⟩ node_id health_id]) := by
  unfold record_heartbeat PgHealthStore.record_heartbeat
  cases hparse : text.parse hb.node_id with
  | error e => exact .inl ⟨_, rfl⟩
  | ok node_id =>
    cases faults .pool with
    | some e => exact .inl ⟨_, rfl⟩
    | none =>
      dsimp only
      rcases transaction_cases faults (heartbeatBody _ node_id health_id faults) t with
        ⟨e, h⟩ | ⟨⟨⟩, t', h, hbody⟩
      · exact .inl ⟨_, by rw [h]; rfl⟩
      · right
        simp only [heartbeatBody, bind_eq_ok, guard_eq_ok] at hbody
        obtain ⟨t₁, ⟨-, hinsert⟩, t₂, ⟨-, hupdate⟩, hpure⟩ := hbody
        obtain ⟨href, hnodes, hevents, hhealth⟩ := insertHealth_eq_ok hinsert
        cases hupdate
        cases hpure
        refine ⟨node_id, t₁.updateNode node_id (setAgentStatus (sanitizeStatus hb.status))
          fun _ => ⟨rfl, rfl⟩, rfl, by rw [h]; rfl, href, ?_, hevents, hhealth⟩
        exact congrArg (Tables.updated _ _) hnodes

theorem map_node_id_setOperatorStatus {node_id : Uuid} {status : String} {rows : List NodeRow} :
    (Tables.updated node_id (setOperatorStatus status) rows).map (·.node_id) =
      rows.map (·.node_id) :=
  @Tables.map_updated _ (·.node_id) node_id (setOperatorStatus status) (fun _ => rfl) rows

/-- **What a status change can do**: fail and change nothing, or set the
status of a node there is. -/
theorem update_operator_status_cases (text : UuidText) (target_id : Uuid) (new_status : String)
    (now : ℕ) (faults : Faults) (t : Tables) :
    (∃ e, update_operator_status text target_id new_status now faults t = (.error e, t)) ∨
    (∃ response t', update_operator_status text target_id new_status now faults t =
        (.ok response, t') ∧
      target_id ∈ t.nodes.map (·.node_id) ∧
      t'.nodes = Tables.updated target_id (setOperatorStatus new_status) t.nodes ∧
      t'.enrollment_events = t.enrollment_events ∧ t'.node_health = t.node_health) := by
  unfold update_operator_status
  cases faults .pool with
  | some e => exact .inl ⟨_, rfl⟩
  | none =>
    cases faults (.statement 0) with
    | some e => exact .inl ⟨_, rfl⟩
    | none =>
      dsimp only
      split
      · exact .inl ⟨_, rfl⟩
      · next row hfind =>
        have hmem := List.mem_of_find?_eq_some hfind
        have hid : row.node_id = target_id := by simpa using List.find?_some hfind
        have hin : row.node_id ∈ (Tables.updated target_id (setOperatorStatus new_status)
            t.nodes).map (·.node_id) := List.mem_map_of_mem hmem
        rw [hid, map_node_id_setOperatorStatus] at hin
        exact .inr ⟨_, _, rfl, hin, rfl, rfl, rfl⟩

end AigisZero.Fleet
