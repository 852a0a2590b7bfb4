import AigisZero.Backend.Api
import AigisZero.Backend.Containment
import AigisZero.Backend.EventLog
import AigisZero.Backend.Pagination

/-!
# What the handlers do for an operator

Behind the extraction of the operator stands a handler for each route,
over a service and a repository. Seven of them read. The other three write
one column: the status of an alert, or the operator's status of a node.
Nothing a request can ask for adds a row, removes one, or touches what the
agents and the rule engine have written.
-/

namespace AigisZero

namespace Backend

open Api (AppError)
open Fleet (Faults NodeHealthRow NodeRow Tables)

/-! ## The rows of the other tables -/

/-- `NodeHealthEntity`. -/
structure NodeHealthEntity where
  health_id : Uuid
  node_id : Uuid
  agent_status : String
  events_buffered : Int64
  recorded_at : ℤ
deriving DecidableEq

/-- `EventLogEntity`, with the time in microseconds. -/
structure EventLogEntity where
  event_id : Uuid
  node_id : Uuid
  event_type : String
  hostname : String
  payload : Json
  raw_sequence_id : Option String
  recorded_at : ℤ

/-- `NodeDetailDto`. -/
structure NodeDetailDto where
  node : NodeEntity
  recent_health : List NodeHealthEntity

/-- A node as it is loaded. -/
def NodeEntity.ofRow (row : NodeRow) : NodeEntity where
  node_id := row.node_id
  machine_id := row.machine_id
  hostname := row.hostname
  os_version := row.os_version
  agent_version := row.agent_version
  agent_status := row.agent_status
  operator_status := row.operator_status
  first_seen_at := row.first_seen_at
  last_enrolled_at := row.last_enrolled_at

/-- A heartbeat as it is loaded. -/
def NodeHealthEntity.ofRow (row : NodeHealthRow) : NodeHealthEntity where
  health_id := row.health_id
  node_id := row.node_id
  agent_status := row.agent_status
  events_buffered := row.events_buffered
  recorded_at := row.recorded_at

/-- The microseconds that the database keeps of a time in nanoseconds. It
counts from the year 2000, and drops the rest on either side of it. -/
def micros (ns : ℤ) : ℤ := (ns - 946684800000000000).tdiv 1000 + 946684800000000

/-- An event as it is loaded. -/
def EventLogEntity.ofRow (row : NewEventLogEntity) : EventLogEntity where
  event_id := row.event_id
  node_id := row.node_id
  event_type := row.event_type
  hostname := row.hostname
  payload := row.payload
  raw_sequence_id := row.raw_sequence_id
  recorded_at := micros row.recorded_at

/-- The alerts table, as the API backend reads it. -/
abbrev Alerts := KeyedTable AlertEntity.alert_id

/-- The three databases. -/
structure Databases where
  nodes : Tables
  alerts : Alerts
  logs : EventLogs

/-! ## Repositories -/

/-- `UpdateAlertStatusRequest`. -/
structure UpdateAlertStatusRequest where
  status : String
  comment : Option String
deriving DecidableEq, Repr

/-- `UpdateAlertStatusResponse`. -/
structure UpdateAlertStatusResponse where
  alert_id : Uuid
  status : String
  updated_at : ℕ
deriving DecidableEq, Repr

/-- `LogFilterParams`. -/
structure LogFilterParams where
  node_id : Option Uuid
  event_type : Option String
  from_timestamp : Option ℤ
  to_timestamp : Option ℤ
  limit : Option ℤ
  offset : Option ℤ

/-- **What the databases and the Fleet Server make of a request**: which
statement fails, whether one that changes a row was carried out although
its answer is lost, and how rows are ordered. -/
structure Answers where
  faults : Faults
  lost : Bool
  connect : Except String Unit
  nodes : Ordering NodeEntity NodeEntity.last_enrolled_at
  health : Ordering NodeHealthEntity NodeHealthEntity.recorded_at
  alerts : Ordering AlertEntity AlertEntity.created_at
  logs : Ordering EventLogEntity EventLogEntity.recorded_at

section Repositories

variable (x : Answers)

/-- What queries come to: an error where the connection or a statement
fails. -/
def Answers.query {α : Type} (statements : ℕ) (result : α) : Except AppError α :=
  match x.faults .pool with
  | some e => .error (.databaseError ("Connection pool error: " ++ e))
  | none =>
    match (List.range statements).findSome? fun n => x.faults (.statement n) with
    | some e => .error (.databaseError e)
    | none => .ok result

/-- `DieselNodeRepository::find_by_id`: heartbeats are asked for only where
there is a node. -/
def DieselNodeRepository.find_by_id (target_id : Uuid) (t : Tables) :
    Except AppError (Option NodeDetailDto) :=
  match t.findNode target_id with
  | none => x.query 1 none
  | some node =>
    let health_records := (t.node_health.filter (·.node_id = target_id)).map NodeHealthEntity.ofRow
    x.query 2 (some ⟨NodeEntity.ofRow node, (x.health health_records).list.take 20⟩)

/-- `DieselAlertRepository::find_by_id`. -/
def DieselAlertRepository.find_by_id (target_id : Uuid) (t : Alerts) :
    Except AppError (Option AlertEntity) :=
  x.query 1 (t.find target_id)

/-- What a change of status sets of its alert. -/
def setStatus (status : String) (a : AlertEntity) : AlertEntity := { a with status := status }

theorem alert_id_setStatus (status : String) (a : AlertEntity) :
    (setStatus status a).alert_id = a.alert_id := rfl

/-- `DieselAlertRepository::update_status`. Any text is a status, and the
comment is kept nowhere. -/
def DieselAlertRepository.update_status (text : UuidText) (target_id : Uuid)
    (req : UpdateAlertStatusRequest) (now : ℕ) (t : Alerts) :
    Except AppError UpdateAlertStatusResponse × Alerts :=
  let updated := t.modify target_id (setStatus req.status) (alert_id_setStatus req.status)
  match x.faults .pool with
  | some e => (.error (.databaseError ("Connection pool error: " ++ e)), t)
  | none =>
    match x.faults (.statement 0) with
    | some e => (.error (.databaseError e), if x.lost then updated else t)
    | none =>
      match updated.find target_id with
      | none =>
        (.error (.notFound ("Alert with id '" ++ text.print target_id ++ "' not found")), t)
      | some row => (.ok ⟨row.alert_id, row.status, now⟩, updated)

/-- `DieselLogRepository::search_logs`. -/
def DieselLogRepository.search_logs (params : LogFilterParams) (t : EventLogs) :
    Except AppError (List EventLogEntity) :=
  let query : BoxedQuery EventLogEntity := into_boxed
  let query : BoxedQuery EventLogEntity :=
    match params.node_id with
    | some nid => query.filter fun e => e.node_id = nid
    | none => query
  let query : BoxedQuery EventLogEntity :=
    match params.event_type with
    | some et => query.filter fun e => e.event_type = et
    | none => query
  let query : BoxedQuery EventLogEntity :=
    match params.from_timestamp with
    | some from_t => query.filter fun e => from_t ≤ e.recorded_at
    | none => query
  let query : BoxedQuery EventLogEntity :=
    match params.to_timestamp with
    | some to_t => query.filter fun e => e.recorded_at ≤ to_t
    | none => query
  let limit := max 1 (min (params.limit.getD 100) 500)
  let offset := max (params.offset.getD 0) 0
  let rows := (t.rows.map EventLogEntity.ofRow).filter query
  x.query 1 (Paging.page (x.logs rows).list offset.toNat limit.toNat)

/-- `DieselLogRepository::find_by_id`. -/
def DieselLogRepository.find_by_id (target_id : Uuid) (t : EventLogs) :
    Except AppError (Option EventLogEntity) :=
  x.query 1 ((t.find target_id).map EventLogEntity.ofRow)

end Repositories

end Backend

namespace Api

open Backend (AlertEntity AlertFilterParams Alerts Answers Databases EventLogEntity EventLogs
  LogFilterParams NodeDetailDto NodeEntity NodeFilterParams NodeHealthEntity NodeSummaryDto
  UpdateAlertStatusRequest UpdateAlertStatusResponse alert_id_setStatus send_isolate_command
  setStatus)
open Fleet (IsolateNodeResponse Tables setOperatorStatus update_operator_status)

/-! ## What a request brings -/

/-- A member that may be left out, or be `null`. -/
def optionalStr : Option Json → Option (Option String)
  | none => some none
  | some .null => some none
  | some j => j.asStr?.map some

/-- `UpdateAlertStatusRequest`, from an object or from an array of its
members. -/
def updateAlertStatusRequest : Json → Option UpdateAlertStatusRequest
  | .arr [status, comment] => do
    return { status := ← status.asStr?, comment := ← optionalStr (some comment) }
  | j => do
    return {
      status := ← (j.get? "status").bind Json.asStr?
      comment := ← optionalStr (j.get? "comment") }

/-- The reason of an `IsolateNodeRequest`. -/
def isolateNodeRequest : Json → Option (Option String)
  | .arr [reason] => optionalStr (some reason)
  | .obj fields => optionalStr ((Json.obj fields).get? "reason")
  | _ => none

/-- **What reads the parts of a request**, and prints what is answered. -/
structure Extractors where
  text : UuidText
  /-- `Path<Uuid>`, of the segment of a path. -/
  path : String → Except Response Uuid
  node_params : Request → Except Response NodeFilterParams
  alert_params : Request → Except Response AlertFilterParams
  log_params : Request → Except Response LogFilterParams
  /-- Whether a text is like a pattern, in any case. -/
  ilike : String → String → Bool
  /-- The text of a time in microseconds. -/
  datetime : ℤ → String
  /-- The number that the bits of a score are. -/
  score : UInt32 → Json

/-- The segment of a path that names a row. -/
def Request.id (r : Request) : String := r.path[1]?.getD ""

/-! ## What is answered -/

section Bodies

variable (X : Extractors)

def optional (s : Option String) : Json := (s.map Json.str).getD .null

def nodeFields (n : NodeEntity) : List (String × Json) :=
  [("node_id", .str (X.text.print n.node_id)), ("machine_id", .str n.machine_id),
    ("hostname", .str n.hostname), ("os_version", .str n.os_version),
    ("agent_version", .str n.agent_version), ("agent_status", .str n.agent_status),
    ("operator_status", .str n.operator_status),
    ("first_seen_at", .str (X.datetime n.first_seen_at)),
    ("last_enrolled_at", .str (X.datetime n.last_enrolled_at))]

def summaryJson (n : NodeSummaryDto) : Json :=
  Json.object (nodeFields X ⟨n.node_id, n.machine_id, n.hostname, n.os_version, n.agent_version,
    n.agent_status, n.operator_status, n.first_seen_at, n.last_enrolled_at⟩)

def healthJson (h : NodeHealthEntity) : Json := Json.object [
  ("health_id", .str (X.text.print h.health_id)), ("node_id", .str (X.text.print h.node_id)),
  ("agent_status", .str h.agent_status), ("events_buffered", .int h.events_buffered.toInt),
  ("recorded_at", .str (X.datetime h.recorded_at))]

def detailJson (d : NodeDetailDto) : Json := Json.object [
  ("node", Json.object (nodeFields X d.node)),
  ("recent_health", .arr (d.recent_health.map (healthJson X)))]

def alertJson (a : AlertEntity) : Json := Json.object [
  ("alert_id", .str (X.text.print a.alert_id)), ("node_id", .str (X.text.print a.node_id)),
  ("hostname", .str a.hostname), ("severity", .str a.severity), ("source", .str a.source),
  ("mitre_technique_id", optional a.mitre_technique_id), ("mitre_tactic", optional a.mitre_tactic),
  ("description", .str a.description),
  ("triggering_event_id", optional a.triggering_event_id),
  ("threat_score", X.score a.threat_score), ("status", .str a.status),
  ("created_at", .str (X.datetime a.created_at))]

def logJson (e : EventLogEntity) : Json := Json.object [
  ("event_id", .str (X.text.print e.event_id)), ("node_id", .str (X.text.print e.node_id)),
  ("event_type", .str e.event_type), ("hostname", .str e.hostname), ("payload", e.payload),
  ("raw_sequence_id", optional e.raw_sequence_id),
  ("recorded_at", .str (X.datetime e.recorded_at))]

def statusJson (res : UpdateAlertStatusResponse) : Json := Json.object [
  ("alert_id", .str (X.text.print res.alert_id)), ("status", .str res.status),
  ("updated_at", .str (X.datetime res.updated_at))]

def isolateJson (res : IsolateNodeResponse) : Json := Json.object [
  ("node_id", .str (X.text.print res.node_id)), ("operator_status", .str res.operator_status),
  ("command_dispatched", .bool res.command_dispatched),
  ("updated_at", .str (X.datetime res.updated_at))]

/-- A page of a list, with the number of rows there are. -/
def listJson {α : Type} (json : α → Json) (found : List α × ℤ) : Json :=
  Json.object [("total", .int found.2), ("items", .arr (found.1.map json))]

end Bodies

/-! ## Services -/

section Handlers

variable (P : Platform Databases) (X : Extractors) (x : Answers)

/-- The error of a change of a node's status. -/
def ofFleet : Fleet.AppError → AppError
  | .notFound message => .notFound message
  | .databaseError message => .databaseError message

/-- What a service makes of a row that is not there. -/
def orNotFound {α : Type} (what : String) (id : Uuid) (found : Except AppError (Option α)) :
    Except AppError α :=
  found.bind fun row =>
    row.elim (.error (.notFound (what ++ " with id '" ++ X.text.print id ++ "' not found"))) .ok

/-- `NodeService::isolate_node` and `NodeService::unisolate_node`: the
status is set, and then the Fleet Server is told. -/
def contain (command : Backend.NodeCommand) (now : ℕ) (t : Tables) :
    Except AppError IsolateNodeResponse × Tables :=
  match update_operator_status X.text command.node_id (Backend.operatorStatus command.isolate) now
    x.faults t with
  | (.error e, t) => (.error (ofFleet e), t)
  | (.ok res, t) =>
    match send_isolate_command command x.connect with
    | .ok () => (.ok res, t)
    | .error _ => (.ok res, t)

/-! ## Handlers -/

/-- What a handler makes of the result of its service, at a time in
milliseconds. -/
def reply (now : ℕ) (result : Except AppError Json) : Response :=
  match result with
  | .error e => e.into_response (P.to_rfc3339 now)
  | .ok data => ⟨200, .json (Json.object [("success", .bool true), ("data", data),
      ("meta", Json.object [("timestamp", .str (P.to_rfc3339 now))])])⟩

/-- A handler that reads, behind an extractor. -/
def reading {α : Type} (now : ℕ) (extracted : Except Response α)
    (result : α → Except AppError Json) (db : Databases) : Response × Databases :=
  match extracted with
  | .error rejection => (rejection, db)
  | .ok a => (reply P now (result a), db)

def me (claims : Claims) (now : ℕ) (db : Databases) : Response × Databases :=
  (reply P now (.ok (Json.object [("username", .str claims.sub), ("role", .str claims.role),
    ("permissions", permissions)])), db)

def list_nodes (r : Request) (now : ℕ) (db : Databases) : Response × Databases :=
  reading P now (X.node_params r) (fun params =>
    (x.query 2 (Backend.DieselNodeRepository.find_all X.ilike params
      (db.nodes.nodes.map NodeEntity.ofRow) x.nodes)).map (listJson (summaryJson X))) db

def get_node_by_id (r : Request) (now : ℕ) (db : Databases) : Response × Databases :=
  reading P now (X.path r.id) (fun id =>
    (orNotFound X "Node" id (Backend.DieselNodeRepository.find_by_id x id db.nodes)).map
      (detailJson X)) db

/-- A node's status is changed, at a time in milliseconds. -/
def containing (command : Backend.NodeCommand) (now : ℕ) (db : Databases) :
    Response × Databases :=
  let (result, nodes) := contain X x command (now * 1000) db.nodes
  (reply P now (result.map (isolateJson X)), { db with nodes := nodes })

def isolate_node (r : Request) (now : ℕ) (db : Databases) : Response × Databases :=
  match X.path r.id with
  | .error rejection => (rejection, db)
  | .ok id =>
    match P.json isolateNodeRequest r with
    | .error rejection => (rejection, db)
    | .ok reason => containing P X x (Backend.isolate_node id reason) now db

def unisolate_node (r : Request) (now : ℕ) (db : Databases) : Response × Databases :=
  match X.path r.id with
  | .error rejection => (rejection, db)
  | .ok id => containing P X x (Backend.unisolate_node id) now db

def list_alerts (r : Request) (now : ℕ) (db : Databases) : Response × Databases :=
  reading P now (X.alert_params r) (fun params =>
    (x.query 2 (Backend.DieselAlertRepository.find_all params db.alerts.rows x.alerts)).map
      (listJson (alertJson X))) db

def get_alert_by_id (r : Request) (now : ℕ) (db : Databases) : Response × Databases :=
  reading P now (X.path r.id) (fun id =>
    (orNotFound X "Alert" id (Backend.DieselAlertRepository.find_by_id x id db.alerts)).map
      (alertJson X)) db

def update_alert_status (r : Request) (now : ℕ) (db : Databases) : Response × Databases :=
  match X.path r.id with
  | .error rejection => (rejection, db)
  | .ok id =>
    match P.json updateAlertStatusRequest r with
    | .error rejection => (rejection, db)
    | .ok payload =>
      let (result, alerts) := Backend.DieselAlertRepository.update_status x X.text id payload
        (now * 1000) db.alerts
      (reply P now (result.map (statusJson X)), { db with alerts := alerts })

def search_logs (r : Request) (now : ℕ) (db : Databases) : Response × Databases :=
  reading P now (X.log_params r) (fun params =>
    (Backend.DieselLogRepository.search_logs x params db.logs).map fun items =>
      Json.object [("items", .arr (items.map (logJson X)))]) db

def get_log_by_id (r : Request) (now : ℕ) (db : Databases) : Response × Databases :=
  reading P now (X.path r.id) (fun id =>
    (orNotFound X "Log event" id (Backend.DieselLogRepository.find_by_id x id db.logs)).map
      (logJson X)) db

/-- **What the handlers do for an operator.** -/
def authorized : Guarded → Claims → Request → ℕ → Databases → Response × Databases
  | .me, claims, _, now, db => me P claims now db
  | .list_nodes, _, r, now, db => list_nodes P X x r now db
  | .get_node_by_id, _, r, now, db => get_node_by_id P X x r now db
  | .isolate_node, _, r, now, db => isolate_node P X x r now db
  | .unisolate_node, _, r, now, db => unisolate_node P X x r now db
  | .list_alerts, _, r, now, db => list_alerts P X x r now db
  | .get_alert_by_id, _, r, now, db => get_alert_by_id P X x r now db
  | .update_alert_status, _, r, now, db => update_alert_status P X x r now db
  | .search_logs, _, r, now, db => search_logs P X x r now db
  | .get_log_by_id, _, r, now, db => get_log_by_id P X x r now db

/-- **The platform with its handlers.** -/
def Platform.backend : Platform Databases := { P with authorized := Api.authorized P X x }

end Handlers

/-! ## What a request changes -/

/-- **What a request can change**: the status of an alert, or the operator's
status of a node. -/
inductive Change where
  | alert (id : Uuid) (status : String)
  | node (id : Uuid) (status : String)
deriving DecidableEq, Repr

theorem keys_setOperatorStatus (status : String) (row : Fleet.NodeRow) :
    (setOperatorStatus status row).node_id = row.node_id ∧
      (setOperatorStatus status row).machine_id = row.machine_id := ⟨rfl, rfl⟩

/-- What a change makes of the databases. -/
def Change.apply (db : Databases) : Change → Databases
  | alert id status =>
    { db with alerts := db.alerts.modify id (setStatus status) (alert_id_setStatus status) }
  | node id status =>
    { db with nodes :=
      db.nodes.updateNode id (setOperatorStatus status) (keys_setOperatorStatus status) }

/-- The statement of a change is carried out. -/
def Change.carriedOut (x : Answers) : Change → Bool
  | alert _ _ => x.faults .pool = none && (x.faults (.statement 0) = none || x.lost)
  | node _ _ => x.faults .pool = none && x.faults (.statement 0) = none

section Changes

variable (P : Platform Databases) (X : Extractors) (x : Answers)

/-- What a request asks of its handler to change. -/
def asked (r : Request) : Guarded → Option Change
  | .isolate_node =>
    match X.path r.id, P.json isolateNodeRequest r with
    | .ok id, .ok _ => some (.node id "isolated")
    | _, _ => none
  | .unisolate_node =>
    match X.path r.id with
    | .ok id => some (.node id "active")
    | .error _ => none
  | .update_alert_status =>
    match X.path r.id, P.json updateAlertStatusRequest r with
    | .ok id, .ok payload => some (.alert id payload.status)
    | _, _ => none
  | _ => none

/-- **What a request changes**: what it asks for, where it shows a good
token and the database carries the statement out. -/
def change (now : ℕ) (r : Request) : Option Change :=
  match route r, AuthUser.from_request_parts P (now / 1000) r with
  | .ok (.guarded h), .ok _ => (asked P X r h).filter (Change.carriedOut x)
  | _, _ => none

variable {P X x} {settings : Settings} {now : ℕ} {r : Request} {db : Databases}

theorem update_status_snd (text : UuidText) (id : Uuid) (req : UpdateAlertStatusRequest)
    (t : Alerts) :
    (Backend.DieselAlertRepository.update_status x text id req now t).2 =
      if (Change.alert id req.status).carriedOut x then
        t.modify id (setStatus req.status) (alert_id_setStatus req.status)
      else t := by
  unfold Backend.DieselAlertRepository.update_status Change.carriedOut
  cases x.faults .pool with
  | some e => rfl
  | none =>
    cases x.faults (.statement 0) with
    | some e => simp
    | none =>
      simp only [decide_true, Bool.true_or, Bool.and_true, if_true]
      split
      · next hnone =>
        -- no row is found after the change, so there was none before it
        rw [KeyedTable.find_modify, Option.map_eq_none_iff] at hnone
        exact (KeyedTable.modify_of_none hnone).symm
      · rfl

/-- Where there is no node, none is changed. -/
theorem updateNode_of_none {id : Uuid} {status : String} {t : Tables}
    (h : (t.updateNode id (setOperatorStatus status) fun _ => ⟨rfl, rfl⟩).findNode id = none) :
    t.updateNode id (setOperatorStatus status) (fun _ => ⟨rfl, rfl⟩) = t := by
  rw [@Fleet.findNode_updated t _ id id (setOperatorStatus status) rfl fun _ => rfl,
    Option.map_eq_none_iff] at h
  have hrows : Tables.updated id (setOperatorStatus status) t.nodes = t.nodes := by
    refine (List.map_congr_left fun row hrow => if_neg fun hid => ?_).trans (List.map_id _)
    exact absurd (decide_eq_true hid) (List.find?_eq_none.1 h row hrow)
  obtain ⟨nodes, _, _, _, _, _, _, _, _⟩ := t
  simp only [Tables.updateNode, Tables.mk.injEq, and_true]
  exact hrows

theorem contain_snd (command : Backend.NodeCommand) (t : Tables) :
    (contain X x command now t).2 =
      if (Change.node command.node_id (Backend.operatorStatus command.isolate)).carriedOut x then
        t.updateNode command.node_id
          (setOperatorStatus (Backend.operatorStatus command.isolate)) fun _ => ⟨rfl, rfl⟩
      else t := by
  have hsnd : (contain X x command now t).2 = (update_operator_status X.text command.node_id
      (Backend.operatorStatus command.isolate) now x.faults t).2 := by
    unfold contain
    rcases update_operator_status X.text command.node_id
      (Backend.operatorStatus command.isolate) now x.faults t with ⟨e | res, t'⟩
    · rfl
    · dsimp only
      split <;> rfl
  rw [hsnd]
  unfold update_operator_status Change.carriedOut
  cases x.faults .pool with
  | some e => rfl
  | none =>
    cases x.faults (.statement 0) with
    | some e => rfl
    | none =>
      simp only [decide_true, Bool.and_true, if_true]
      split
      · next hnone => exact (updateNode_of_none hnone).symm
      · rfl

theorem containing_snd (command : Backend.NodeCommand) :
    (containing P X x command now db).2 =
      ((some (Change.node command.node_id (Backend.operatorStatus command.isolate))).filter
        (Change.carriedOut x)).elim db fun c => c.apply db := by
  show { db with nodes := (contain X x command (now * 1000) db.nodes).2 } = _
  rw [contain_snd, Option.filter_some]
  split <;> rfl

theorem reading_snd {α : Type} (extracted : Except Response α)
    (result : α → Except AppError Json) : (reading P now extracted result db).2 = db := by
  unfold reading
  cases extracted <;> rfl

theorem isolate_node_snd : (isolate_node P X x r now db).2 =
    ((asked P X r .isolate_node).filter (Change.carriedOut x)).elim db fun c => c.apply db := by
  simp only [isolate_node, asked]
  cases X.path r.id with
  | error rejection => rfl
  | ok id =>
    cases P.json isolateNodeRequest r with
    | error rejection => rfl
    | ok reason => exact containing_snd (Backend.isolate_node id reason)

theorem unisolate_node_snd : (unisolate_node P X x r now db).2 =
    ((asked P X r .unisolate_node).filter (Change.carriedOut x)).elim db fun c => c.apply db := by
  simp only [unisolate_node, asked]
  cases X.path r.id with
  | error rejection => rfl
  | ok id => exact containing_snd (Backend.unisolate_node id)

theorem update_alert_status_snd : (update_alert_status P X x r now db).2 =
    ((asked P X r .update_alert_status).filter (Change.carriedOut x)).elim db
      fun c => c.apply db := by
  simp only [update_alert_status, asked]
  cases X.path r.id with
  | error rejection => rfl
  | ok id =>
    cases P.json updateAlertStatusRequest r with
    | error rejection => rfl
    | ok payload =>
      dsimp only
      rw [update_status_snd, Option.filter_some]
      split <;> rfl

/-- A handler does what is asked of it, where the database carries it
out. -/
theorem authorized_snd (h : Guarded) (claims : Claims) :
    (authorized P X x h claims r now db).2 =
      ((asked P X r h).filter (Change.carriedOut x)).elim db fun c => c.apply db := by
  cases h with
  | me => rfl
  | list_nodes | get_node_by_id | list_alerts | get_alert_by_id | search_logs | get_log_by_id =>
    exact reading_snd _ _
  | isolate_node => exact isolate_node_snd
  | unisolate_node => exact unisolate_node_snd
  | update_alert_status => exact update_alert_status_snd

/-- **A request does to the databases what it changes, and nothing else.** -/
theorem respond_snd (P : Platform Databases) (X : Extractors) (x : Answers) (settings : Settings)
    (now : ℕ) (r : Request) (db : Databases) :
    (respond (P.backend X x) settings now r db).2 =
      (change P X x now r).elim db fun c => c.apply db := by
  unfold respond change
  cases route r with
  | error response => rfl
  | ok handler =>
    cases handler with
    | login => rfl
    | ws_handler => rfl
    | guarded h =>
      have hauth : AuthUser.from_request_parts (P.backend X x) (now / 1000) r =
          AuthUser.from_request_parts P (now / 1000) r := rfl
      dsimp only [serve]
      rw [hauth]
      cases AuthUser.from_request_parts P (now / 1000) r with
      | error e => rfl
      | ok claims => exact authorized_snd h claims

end Changes

end Api

end AigisZero
