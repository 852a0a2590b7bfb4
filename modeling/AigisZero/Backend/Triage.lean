import AigisZero.Backend.Handlers
import AigisZero.Fleet.RegistryInvariant
import AigisZero.Library.LastWins
import AigisZero.RuleEngine.Sink

/-!
# Who writes what in the databases

The Fleet Server writes the nodes, the consumer the logs, the rule engine
the alerts, and operators set the status of what is there. This file says
what requests alone can make of the databases, and what becomes of an
alert while the rule engine stores and operators work.
-/

namespace AigisZero.Api

open Backend (AlertEntity Alerts Answers Databases EventLogs NewEventLogEntity setStatus)
open Fleet (NodeRow RegistryOp Tables setOperatorStatus)

/-! ## Columns -/

/-- The status of an alert. -/
def statusColumn : Column AlertEntity.alert_id String where
  get := AlertEntity.status
  set := setStatus
  key_set _ _ := rfl
  set_set _ _ _ := rfl
  set_get _ := rfl
  get_set _ _ := rfl

/-- The operator's status of a node. -/
def operatorColumn : Column NodeRow.node_id String where
  get := NodeRow.operator_status
  set := setOperatorStatus
  key_set _ _ := rfl
  set_set _ _ _ := rfl
  set_get _ := rfl
  get_set _ _ := rfl

/-- The status that a change sets of an alert. -/
def Change.onAlert : Change → Option (Uuid × String)
  | alert id status => some (id, status)
  | node _ _ => none

/-- The operator's status that a change sets of a node. -/
def Change.onNode : Change → Option (Uuid × String)
  | alert _ _ => none
  | node id status => some (id, status)

variable (P : Platform Databases) (X : Extractors) (settings : Settings)

/-! ## Requests alone -/

/-- A request at a time, with what the databases make of it. -/
structure Answered where
  now : ℕ
  request : Request
  answers : Answers

/-- What a request changes. -/
def Answered.change (q : Answered) : Option Change := Api.change P X q.answers q.now q.request

/-- What requests make of the databases. -/
def Databases.respond (db : Databases) (q : Answered) : Databases :=
  (Api.respond (P.backend X q.answers) settings q.now q.request db).2

/-- The routes that change something, each with its method. -/
def Writes (r : Request) : Prop :=
  ∃ id, (r.method = .patch ∧ r.path = ["alerts", id, "status"]) ∨
    (r.method = .post ∧ (r.path = ["nodes", id, "isolate"] ∨ r.path = ["nodes", id, "unisolate"]))

variable {P X settings} {q : Answered} {c : Change} {r : Request}

/-- The method and the path of a handler that writes. -/
def Places (method : Method) (path : List String) : Guarded → Prop
  | .isolate_node => method = .post ∧ ∃ id, path = ["nodes", id, "isolate"]
  | .unisolate_node => method = .post ∧ ∃ id, path = ["nodes", id, "unisolate"]
  | .update_alert_status => method = .patch ∧ ∃ id, path = ["alerts", id, "status"]
  | _ => True

theorem places_of_param {id : String} {route : Method × Handler} {method : Method} {h : Guarded}
    {path : List String} (hplaces : ∀ g, route.2 = .guarded g → Places route.1 path g)
    (hroute : param id route = some (method, .guarded h)) : Places method path h := by
  unfold param at hroute
  split at hroute
  · cases hroute
  · obtain rfl := Option.some.inj hroute
    exact hplaces h rfl

theorem places_of_create_router {path : List String} {method : Method} {h : Guarded}
    (hroute : create_router path = some (method, .guarded h)) : Places method path h := by
  unfold create_router at hroute
  split at hroute
  · unfold auth_routes at hroute
    split at hroute
    · cases hroute
    · cases hroute
      trivial
    · cases hroute
  · unfold node_routes at hroute
    split at hroute
    · cases hroute
      trivial
    · exact places_of_param (fun g hg => by cases hg; trivial) hroute
    · exact places_of_param (fun g hg => by cases hg; exact ⟨rfl, _, rfl⟩) hroute
    · exact places_of_param (fun g hg => by cases hg; exact ⟨rfl, _, rfl⟩) hroute
    · cases hroute
  · unfold alert_routes at hroute
    split at hroute
    · cases hroute
      trivial
    · exact places_of_param (fun g hg => by cases hg; trivial) hroute
    · exact places_of_param (fun g hg => by cases hg; exact ⟨rfl, _, rfl⟩) hroute
    · cases hroute
  · unfold log_routes at hroute
    split at hroute
    · cases hroute
      trivial
    · exact places_of_param (fun g hg => by cases hg; trivial) hroute
    · cases hroute
  · unfold ws_routes at hroute
    split at hroute <;> cases hroute

/-- What asks for a change is on a route for it. -/
theorem writes_of_asked {h : Guarded} (hroute : route r = .ok (.guarded h))
    (hasked : asked P X r h = some c) : Writes r := by
  unfold route at hroute
  split at hroute
  · cases hroute
  · next method handler hrouter =>
    obtain ⟨hmethod, hhandler⟩ : (r.method = method ∨ r.method = .head ∧ method = .get) ∧
        handler = .guarded h := by
      split at hroute
      · next hmethod => exact ⟨hmethod, Except.ok.inj hroute⟩
      · cases hroute
    rw [hhandler] at hrouter
    have hplaces := places_of_create_router hrouter
    -- a request that is not for the method is for `GET`, and these routes are not
    cases h with
    | me | list_nodes | get_node_by_id | list_alerts | get_alert_by_id | search_logs
    | get_log_by_id => cases hasked
    | isolate_node =>
      obtain ⟨rfl, id, hpath⟩ := hplaces
      have hpost : r.method = .post := hmethod.resolve_right fun hget => nomatch hget.2
      exact ⟨id, .inr ⟨hpost, .inl hpath⟩⟩
    | unisolate_node =>
      obtain ⟨rfl, id, hpath⟩ := hplaces
      have hpost : r.method = .post := hmethod.resolve_right fun hget => nomatch hget.2
      exact ⟨id, .inr ⟨hpost, .inr hpath⟩⟩
    | update_alert_status =>
      obtain ⟨rfl, id, hpath⟩ := hplaces
      have hpatch : r.method = .patch := hmethod.resolve_right fun hget => nomatch hget.2
      exact ⟨id, .inl ⟨hpatch, hpath⟩⟩

/-- A change is made for an operator. -/
theorem authenticated_of_change (h : q.change P X = some c) :
    Writes q.request ∧
      ∃ claims, AuthUser.from_request_parts P (q.now / 1000) q.request = .ok claims := by
  unfold Answered.change change at h
  split at h
  · next g claims hroute hauth =>
    obtain ⟨hasked, -⟩ := Option.filter_eq_some_iff.1 h
    exact ⟨writes_of_asked hroute hasked, claims, hauth⟩
  · cases h

/-- What a change makes of the columns. -/
theorem apply_columns (db : Databases) (c : Change) :
    (c.apply db).alerts.rows = c.onAlert.toList.foldl statusColumn.assign db.alerts.rows ∧
    (c.apply db).nodes.nodes = c.onNode.toList.foldl operatorColumn.assign db.nodes.nodes ∧
    (c.apply db).nodes.enrollment_events = db.nodes.enrollment_events ∧
    (c.apply db).nodes.node_health = db.nodes.node_health ∧ (c.apply db).logs = db.logs := by
  cases c with
  | alert id status => exact ⟨rfl, rfl, rfl, rfl, rfl⟩
  | node id status => exact ⟨rfl, rfl, rfl, rfl, rfl⟩

theorem respond_eq (P : Platform Databases) (X : Extractors) (settings : Settings)
    (db : Databases) (q : Answered) :
    Databases.respond P X settings db q = (q.change P X).elim db fun c => c.apply db :=
  respond_snd P X q.answers settings q.now q.request db

/-- A request leaves the logs as they are. -/
theorem respond_logs (P : Platform Databases) (X : Extractors) (settings : Settings)
    (db : Databases) (q : Answered) : (Databases.respond P X settings db q).logs = db.logs := by
  rw [respond_eq]
  cases q.change P X with
  | none => rfl
  | some c => exact (apply_columns db c).2.2.2.2

/-- The values that requests set of alerts. -/
def alertValues (P : Platform Databases) (X : Extractors) (l : List Answered) :
    List (Uuid × String) :=
  (l.filterMap (Answered.change P X)).filterMap Change.onAlert

/-- The values that requests set of nodes. -/
def nodeValues (P : Platform Databases) (X : Extractors) (l : List Answered) :
    List (Uuid × String) :=
  (l.filterMap (Answered.change P X)).filterMap Change.onNode

/-- **What requests can make of the databases.** Whatever is asked, in
whatever order and by whomever, the logs, the heartbeats and the
enrollments stay, the rows of the alerts and of the nodes stay in number
and order, and each differs at most in its status, which is the last that
was set. A request that sets one is on a route for it and shows a good
token. -/
theorem requests_change (P : Platform Databases) (X : Extractors) (settings : Settings)
    (db : Databases) (l : List Answered) :
    ((l.foldl (Databases.respond P X settings) db).alerts.rows =
        db.alerts.rows.map (statusColumn.updated (alertValues P X l)) ∧
      (l.foldl (Databases.respond P X settings) db).nodes.nodes =
        db.nodes.nodes.map (operatorColumn.updated (nodeValues P X l)) ∧
      (l.foldl (Databases.respond P X settings) db).nodes.enrollment_events =
        db.nodes.enrollment_events ∧
      (l.foldl (Databases.respond P X settings) db).nodes.node_health = db.nodes.node_health ∧
      (l.foldl (Databases.respond P X settings) db).logs = db.logs) ∧
    ∀ (q : Answered) (c : Change), q.change P X = some c → Writes q.request ∧
      ∃ claims, AuthUser.from_request_parts P (q.now / 1000) q.request = .ok claims := by
  refine ⟨?_, fun q c => authenticated_of_change⟩
  have hcolumns : (l.foldl (Databases.respond P X settings) db).alerts.rows =
        (alertValues P X l).foldl statusColumn.assign db.alerts.rows ∧
      (l.foldl (Databases.respond P X settings) db).nodes.nodes =
        (nodeValues P X l).foldl operatorColumn.assign db.nodes.nodes ∧
      (l.foldl (Databases.respond P X settings) db).nodes.enrollment_events =
        db.nodes.enrollment_events ∧
      (l.foldl (Databases.respond P X settings) db).nodes.node_health = db.nodes.node_health ∧
      (l.foldl (Databases.respond P X settings) db).logs = db.logs := by
    induction l generalizing db with
    | nil => exact ⟨rfl, rfl, rfl, rfl, rfl⟩
    | cons q l ih =>
      rw [List.foldl_cons, respond_eq]
      cases hchange : q.change P X with
      | none =>
        simp only [alertValues, nodeValues, List.filterMap_cons_none hchange]
        exact ih db
      | some c =>
        obtain ⟨halerts, hnodes, hevents, hhealth, hlogs⟩ := ih (c.apply db)
        obtain ⟨halerts', hnodes', hevents', hhealth', hlogs'⟩ := apply_columns db c
        refine ⟨?_, ?_, hevents.trans hevents', hhealth.trans hhealth', hlogs.trans hlogs'⟩
        · rw [Option.elim_some, halerts, halerts', ← List.foldl_append]
          congr 1
          simp only [alertValues, List.filterMap_cons_some hchange, List.filterMap_cons]
          cases c.onAlert <;> rfl
        · rw [Option.elim_some, hnodes, hnodes', ← List.foldl_append]
          congr 1
          simp only [nodeValues, List.filterMap_cons_some hchange, List.filterMap_cons]
          cases c.onNode <;> rfl
  rw [← Column.foldl_assign, ← Column.foldl_assign]
  exact hcolumns

/-! ## The rule engine stores, operators triage -/

/-- A row of the table, as the API backend reads it; the score is kept in
32 bits. -/
def alertEntity (f32 : ℚ → UInt32) (a : RuleEngine.NewAlertEntity) : AlertEntity where
  alert_id := a.alert_id
  node_id := a.node_id
  hostname := a.hostname
  severity := a.severity
  source := a.source
  mitre_technique_id := a.mitre_technique_id
  mitre_tactic := a.mitre_tactic
  description := a.description
  triggering_event_id := a.triggering_event_id
  threat_score := f32 a.threat_score
  status := a.status
  created_at := a.created_at

/-- What can happen to the databases. -/
inductive DatabaseAction where
  | request (q : Answered)
  /-- `DualAlertSink::send_batch` of the rule engine; an insert whose answer
  is lost may have been carried out. -/
  | send_batch (batch : List RuleEngine.Alert) (storage : RuleEngine.Storage) (lost : Bool)
  /-- A call of the Fleet Server. -/
  | registry (op : RegistryOp)
  /-- `LogService::insert_batch` of the consumer. -/
  | insert_batch (logs : List NewEventLogEntity) (inserted : Except String Unit)

namespace DatabaseAction

variable (P : Platform Databases) (X : Extractors) (settings : Settings) (f32 : ℚ → UInt32)

/-- The rows that the rule engine has the table insert. -/
def stored : DatabaseAction → List AlertEntity
  | send_batch batch storage lost =>
    match storage.conn, storage.insert with
    | .ok (), .ok () => batch.map fun a => alertEntity f32 (.ofAlert a)
    | .ok (), .error _ => if lost then batch.map fun a => alertEntity f32 (.ofAlert a) else []
    | .error _, _ => []
  | _ => []

/-- The status that an operator sets, and of which alert. -/
def triaged : DatabaseAction → Option (Uuid × String)
  | request q => (q.change P X).bind Change.onAlert
  | _ => none

/-- **The three databases and all that write them.** -/
def apply (db : Databases) : DatabaseAction → Databases
  | request q => Databases.respond P X settings db q
  | send_batch batch storage lost =>
    { db with alerts := db.alerts.insertAll (stored f32 (send_batch batch storage lost)) }
  | registry op => { db with nodes := (op.apply X.text db.nodes).2 }
  | insert_batch logs inserted =>
    match inserted with
    | .ok () => { db with logs := Backend.insert_batch db.logs logs }
    | .error _ => db

/-- What an action writes of the alerts. -/
def write (a : DatabaseAction) : TableWrite AlertEntity Uuid String :=
  match a.triaged P X with
  | some (id, status) => .assign id status
  | none => .insert (a.stored f32)

variable {P X settings f32} {db : Databases} {a : DatabaseAction} {l : List DatabaseAction}
  {id : Uuid}

theorem rows_write (a : DatabaseAction) : (a.write P X f32).rows = a.stored f32 := by
  unfold write
  cases htriaged : a.triaged P X with
  | none => rfl
  | some w =>
    cases a with
    | request q => rfl
    | send_batch _ _ _ | registry _ | insert_batch _ _ => cases htriaged

theorem value_write (a : DatabaseAction) : (a.write P X f32).value = a.triaged P X := by
  unfold write
  cases a.triaged P X <;> rfl

/-- **An action does to the alerts what it writes.** -/
theorem alerts_apply (a : DatabaseAction) :
    (a.apply P X settings f32 db).alerts = db.alerts.write statusColumn (a.write P X f32) := by
  cases a with
  | send_batch batch storage lost => rfl
  | registry op => rfl
  | insert_batch logs inserted => cases inserted <;> rfl
  | request q =>
    have hsnd : Databases.respond P X settings db q = (q.change P X).elim db fun c => c.apply db :=
      respond_snd P X q.answers settings q.now q.request db
    show (Databases.respond P X settings db q).alerts = _
    rw [hsnd]
    simp only [write, triaged]
    cases q.change P X with
    | none => rfl
    | some c => cases c <;> rfl

theorem alerts_foldl (l : List DatabaseAction) (db : Databases) :
    (l.foldl (apply P X settings f32) db).alerts =
      (l.map (write P X f32)).foldl (KeyedTable.write statusColumn) db.alerts := by
  induction l generalizing db with
  | nil => rfl
  | cons a l ih => rw [List.foldl_cons, ih, alerts_apply, List.map_cons, List.foldl_cons]

theorem values_write (l : List DatabaseAction) :
    (l.map (write P X f32)).filterMap TableWrite.value = l.filterMap (triaged P X) := by
  rw [List.filterMap_map]
  exact congrArg (l.filterMap ·) (funext value_write)

/-- **What becomes of an alert.** However the rule engine's batches, the
requests of operators and the other writers take turns, an alert is in the
table once a batch with it is stored, and is never taken out; it is the
first row that was stored under its identifier, with the last status that
was set since. A batch that is stored once more changes nothing, and
neither does a status that was set before the alert was there. -/
theorem triage (P : Platform Databases) (X : Extractors) (settings : Settings) (f32 : ℚ → UInt32)
    (nodes : Tables) (logs : EventLogs) (l : List DatabaseAction) (id : Uuid) :
    ((l.foldl (apply P X settings f32) ⟨nodes, .empty, logs⟩).alerts.find id = none ↔
      ∀ a ∈ l, ∀ row ∈ a.stored f32, row.alert_id ≠ id) ∧
    ∀ row, (l.foldl (apply P X settings f32) ⟨nodes, .empty, logs⟩).alerts.find id = some row ↔
      ∃ before a after first, l = before ++ a :: after ∧
        (∀ b ∈ before, ∀ row ∈ b.stored f32, row.alert_id ≠ id) ∧
        (a.stored f32).find? (·.alert_id = id) = some first ∧
        row = { first with status :=
          (Column.last id (after.filterMap (triaged P X))).getD first.status } := by
  rw [alerts_foldl]
  constructor
  · rw [KeyedTable.find_writes_eq_none KeyedTable.find_empty, List.forall_mem_map]
    simp only [rows_write]
  · intro row
    rw [KeyedTable.find_writes_eq_some KeyedTable.find_empty]
    constructor
    · rintro ⟨before, w, after, first, hsplit, hbefore, hfirst, hrow⟩
      obtain ⟨before, after', rfl, rfl, hafter⟩ := List.map_eq_append_iff.1 hsplit
      obtain ⟨a, after, rfl, rfl, rfl⟩ := List.map_eq_cons_iff.1 hafter
      rw [List.forall_mem_map] at hbefore
      simp only [rows_write, values_write] at hbefore hfirst hrow
      refine ⟨before, a, after, first, rfl, hbefore, hfirst, ?_⟩
      have hkey : first.alert_id = id := by simpa using List.find?_some hfirst
      rw [hrow, ← hkey]
      rfl
    · rintro ⟨before, a, after, first, rfl, hbefore, hfirst, rfl⟩
      refine ⟨before.map (write P X f32), a.write P X f32, after.map (write P X f32), first,
        by simp, ?_, by rw [rows_write, hfirst], ?_⟩
      · rw [List.forall_mem_map]
        simpa only [rows_write] using hbefore
      · have hkey : first.alert_id = id := by simpa using List.find?_some hfirst
        rw [values_write, ← hkey]
        rfl

end DatabaseAction

end AigisZero.Api
