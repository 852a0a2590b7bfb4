import AigisZero.Agent.Scheduler
import AigisZero.Backend.Walks
import AigisZero.History

/-!
# The state of a host, read from the log

A scheduled query tells what changed since it last told, and each of its
results goes to the log as a row. Whoever walks through the rows of a node,
reads the results of the query out of them, and replays these in the order
of their times, has the rows of its latest response, over any number of
starts of the agent.
-/

namespace AigisZero

namespace Agent

/-! ## Results are read back -/

/-- The column a value describes. -/
def ColumnEntry.ofJson (j : Json) : Option ColumnEntry := do
  let name ← (j.get? "name").bind Json.asStr?
  let value ← (j.get? "value").bind Json.asStr?
  return { name, value }

/-- The row a value describes. -/
def OsqueryResultRow.ofJson (j : Json) : Option OsqueryResultRow := do
  let columns ← (j.get? "columns").bind Json.asArray?
  let columns ← columns.mapM ColumnEntry.ofJson
  return { columns }

/-- The action of a name. -/
def ResultAction.ofStr : String → Option ResultAction
  | "SNAPSHOT" => some Snapshot
  | "ADDED" => some Added
  | "REMOVED" => some Removed
  | _ => none

/-- The result a value describes. -/
def OsqueryResult.ofJson (j : Json) : Option OsqueryResult := do
  let query_name ← (j.get? "query_name").bind Json.asStr?
  let agent_uuid ← (j.get? "agent_uuid").bind Json.asStr?
  let timestamp_ns ← (j.get? "timestamp_ns").bind Json.asI64?
  let rows ← (j.get? "rows").bind Json.asArray?
  let rows ← rows.mapM OsqueryResultRow.ofJson
  let action ← ((j.get? "action").bind Json.asStr?).bind ResultAction.ofStr
  return { query_name, agent_uuid, timestamp_ns, rows, action }

/-- Elements that are read back are read back as a list. -/
theorem mapM_map_of_read {α : Type} {toJson : α → Json} {ofJson : Json → Option α}
    (h : ∀ a, ofJson (toJson a) = some a) (l : List α) : (l.map toJson).mapM ofJson = some l := by
  induction l with
  | nil => rfl
  | cons a l ih =>
    rw [List.map_cons, List.mapM_cons, h, ih]
    rfl

theorem ColumnEntry.ofJson_toJson (entry : ColumnEntry) :
    ColumnEntry.ofJson entry.toJson = some entry := by
  simp [ColumnEntry.ofJson, ColumnEntry.toJson, Json.object, Fields.ofList]

theorem OsqueryResultRow.ofJson_toJson (row : OsqueryResultRow) :
    OsqueryResultRow.ofJson row.toJson = some row := by
  simp [OsqueryResultRow.ofJson, OsqueryResultRow.toJson, Json.object, Fields.ofList,
    Json.asArray?, mapM_map_of_read ColumnEntry.ofJson_toJson]

theorem ResultAction.ofStr_as_str (action : ResultAction) :
    ResultAction.ofStr action.as_str = some action := by
  cases action <;> rfl

/-- **A result is read back from its value.** -/
theorem OsqueryResult.ofJson_toJson (result : OsqueryResult) :
    OsqueryResult.ofJson result.toJson = some result := by
  simp [OsqueryResult.ofJson, OsqueryResult.toJson, Json.object, Fields.ofList, Json.asArray?,
    mapM_map_of_read OsqueryResultRow.ofJson_toJson, ResultAction.ofStr_as_str]

/-! ## The results of a query over the starts of the agent -/

variable {query : ScheduledQuery} {agent_uuid : String} {s : TaskState} {t : Tick}
  {ticks : List Tick} {result : OsqueryResult}

theorem mem_send {taken : Bool} {sent : OsqueryResult}
    (h : result ∈ (s.send taken sent).emitted) : result ∈ s.emitted ∨ result = sent := by
  unfold TaskState.send at h
  split at h
  · exact (List.mem_append.1 h).imp_right List.mem_singleton.1
  · exact .inl h

theorem mem_sendRows {taken : Bool} {sent : OsqueryResult} {rows : List OsqueryRow}
    (h : result ∈ (s.sendRows taken sent rows).emitted) : result ∈ s.emitted ∨ result = sent := by
  unfold TaskState.sendRows at h
  split at h
  · exact .inl h
  · exact mem_send h

/-- What goes on with a task and sends nothing. -/
theorem mem_andThen {next : TaskState → TaskState} (hnext : (next s).emitted = s.emitted)
    (h : result ∈ (s.andThen next).emitted) : result ∈ s.emitted := by
  unfold TaskState.andThen at h
  split at h
  · exact h
  · exact hnext ▸ h

/-- What a tick sends goes by the name of the query. -/
theorem query_name_tick (h : result ∈ (s.tick query agent_uuid t).emitted) :
    result ∈ s.emitted ∨ result.query_name = query.name := by
  have hname : ∀ {taken : Bool} {rows : List OsqueryRow} {action : ResultAction} {s : TaskState},
      result ∈ (s.send taken (build_result t.visits t.now query.name agent_uuid rows
        action)).emitted → result ∈ s.emitted ∨ result.query_name = query.name := by
    intro taken rows action s h
    rcases mem_send h with h | rfl
    · exact .inl h
    · exact .inr rfl
  unfold TaskState.tick at h
  split at h
  · exact .inl h
  · split at h
    · exact .inl h
    · split at h
      · exact .inl h
      · dsimp only at h
        split at h
        · exact hname h
        · replace h := mem_andThen rfl h
          split at h
          · exact hname (mem_andThen rfl h)
          · unfold TaskState.andThen at h
            split at h
            · rcases mem_sendRows h with h | rfl
              · exact .inl h
              · exact .inr rfl
            · rcases mem_sendRows h with h | rfl
              · rcases mem_sendRows h with h | rfl
                · exact .inl h
                · exact .inr rfl
              · exact .inr rfl

/-- Every result of a task goes by the name of its query. -/
theorem query_name_runTask (h : result ∈ (runTask query agent_uuid ticks).emitted) :
    result.query_name = query.name := by
  induction ticks using List.reverseRecOn with
  | nil => cases h
  | append_singleton ticks t ih =>
    rw [runTask_append] at h
    exact (query_name_tick h).elim ih id

/-- **What a tick sends** comes behind what was sent, and does not depend on
its order: there are two results only where some rows came and others
went. -/
theorem sent_tick {latest : Finset OsqueryRow} (htracks : Tracks query s latest) (hopen : t.Open) :
    ∃ sent, (s.tick query agent_uuid t).emitted = s.emitted ++ sent ∧
      (sent.map OsqueryResult.change).Pairwise Change.Commutes := by
  have hrunning := htracks.running
  cases hsuccess : t.success with
  | none =>
    rw [tick_of_failed hsuccess]
    exact ⟨[], (List.append_nil _).symm, List.Pairwise.nil⟩
  | some rows =>
    cases hsnap : query.snapshot with
    | true =>
      exact ⟨_, congrArg TaskState.emitted (tick_snapshot hrunning hopen hsuccess hsnap),
        List.pairwise_singleton _ _⟩
    | false =>
      cases hfirst : s.first_run with
      | true =>
        exact ⟨_, congrArg TaskState.emitted (tick_first hrunning hopen hsuccess hsnap hfirst),
          List.pairwise_singleton _ _⟩
      | false =>
        obtain ⟨sent, htick, hsent⟩ := tick_difference hrunning hopen hsuccess hsnap hfirst
        refine ⟨sent, congrArg TaskState.emitted htick, ?_⟩
        rw [hsent]
        exact Change.pairwise_commutes_difference (toFinset_rows ..) (toFinset_rows ..)

/-- The results that a task sends at each tick. -/
def sentAt (query : ScheduledQuery) (agent_uuid : String) : TaskState → List Tick →
    List (List OsqueryResult)
  | _, [] => []
  | s, t :: ticks =>
    (s.tick query agent_uuid t).emitted.drop s.emitted.length ::
      sentAt query agent_uuid (s.tick query agent_uuid t) ticks

/-- Together they are what the task sends; those of one tick do not depend on
their order. -/
theorem sentAt_spec {latest : Finset OsqueryRow} (htracks : Tracks query s latest)
    (hopen : ∀ t ∈ ticks, t.Open) :
    (ticks.foldl (TaskState.tick query agent_uuid) s).emitted =
        s.emitted ++ (sentAt query agent_uuid s ticks).flatten ∧
      ∀ sent ∈ sentAt query agent_uuid s ticks,
        (sent.map OsqueryResult.change).Pairwise Change.Commutes := by
  induction ticks generalizing s latest with
  | nil => exact ⟨(List.append_nil _).symm, nofun⟩
  | cons t ticks ih =>
    have ht := hopen t List.mem_cons_self
    obtain ⟨sent, hsent, hcommutes⟩ := @sent_tick query agent_uuid s t latest htracks ht
    obtain ⟨hall, hrest⟩ := ih (htracks.tick ht) fun t' ht' => hopen t' (List.mem_cons_of_mem _ ht')
    have hdrop : (s.tick query agent_uuid t).emitted.drop s.emitted.length = sent := by
      rw [hsent, List.drop_left]
    rw [sentAt, hdrop]
    refine ⟨?_, List.forall_mem_cons.2 ⟨hcommutes, hrest⟩⟩
    rw [List.foldl_cons, hall, hsent, List.flatten_cons, List.append_assoc]

/-- The results of a query at each tick, over starts of the agent that each
run a task of it. -/
def resultsOf (agent_uuid : String) (starts : List (ScheduledQuery × List Tick)) :
    List (List OsqueryResult) :=
  starts.flatMap fun start => sentAt start.1 agent_uuid .init start.2

theorem sentAt_init (hopen : ∀ t ∈ ticks, t.Open) :
    (sentAt query agent_uuid .init ticks).flatten = (runTask query agent_uuid ticks).emitted ∧
      ∀ sent ∈ sentAt query agent_uuid .init ticks,
        (sent.map OsqueryResult.change).Pairwise Change.Commutes := by
  have hinit : Tracks query .init (latestRows []) := @tracks_runTask query agent_uuid [] nofun
  obtain ⟨hall, hcommutes⟩ := @sentAt_spec query agent_uuid .init ticks _ hinit hopen
  exact ⟨hall.symm, hcommutes⟩

end Agent

open Agent Backend Router

/-! ## What the log tells of a query -/

/-- What a row of the log tells of a query. -/
def told (name : String) (e : EventLogEntity) : Option (Change OsqueryRow) :=
  ((OsqueryResult.ofJson e.payload).filter (·.query_name = name)).map OsqueryResult.change

/-- A result without its time. -/
def Agent.OsqueryResult.unstamped (result : OsqueryResult) : OsqueryResult :=
  { result with timestamp_ns := 0 }

/-- The time of a result, as the database keeps it. -/
def Collected.time (x : Collected) : ℤ := micros x.result.timestamp_ns.toInt

/-- **The results of a query, as they are sent**: by the tasks of the query
over the starts of an agent, while their channels are open, tick for tick,
each with a time and a sequence number of its own. The clock does not go
back, and goes on between two ticks. -/
structure Sent (name agent_uuid : String) (node : Uuid)
    (starts : List (ScheduledQuery × List Tick)) (xs : List (List Collected)) : Prop where
  named : ∀ start ∈ starts, start.1.name = name
  opened : ∀ start ∈ starts, ∀ t ∈ start.2, t.Open
  results : xs.map (List.map fun x => OsqueryResult.unstamped x.result) =
    (resultsOf agent_uuid starts).map (List.map OsqueryResult.unstamped)
  of_node : ∀ x ∈ xs.flatten, x.node = node
  sequences : (xs.flatten.map Collected.sequence).Nodup
  within : ∀ sent ∈ xs, sent.Pairwise fun x y => x.time ≤ y.time
  across : xs.Pairwise fun sent later => ∀ x ∈ sent, ∀ y ∈ later, x.time < y.time

/-- A row that is of another event, and where it is of the node tells
nothing of the query. -/
def OfOther (name : String) (node : Uuid) (xs : List Collected) (r : NewEventLogEntity) : Prop :=
  (∀ x ∈ xs, r.event_id ≠ x.sequence) ∧ (r.node_id = node → told name (.ofRow r) = none)

/-- A row of one of the results, or of another event. -/
def Known (name : String) (node : Uuid) (xs : List Collected) (r : NewEventLogEntity) : Prop :=
  (∃ x ∈ xs, ∃ event_type, r = x.row event_type) ∨ OfOther name node xs r

/-- **No other message passes for a result of the query.** -/
def Own (codec : JsonCodec) (name : String) (node : Uuid) (xs : List Collected)
    (msg : TopicMessage) (draw : Draw) : Prop :=
  (∃ x ∈ xs, x.Copy codec msg) ∨
    ∀ r, parse_log_entity .standard codec msg draw = some r → OfOther name node xs r

variable {codec : JsonCodec} {name agent_uuid : String} {node : Uuid} {x : Collected}
  {starts : List (ScheduledQuery × List Tick)} {xs : List (List Collected)} {msg : TopicMessage}
  {draw : Draw} {t : LogPipeline} {logs : EventLogs}

theorem Own.known {xs : List Collected} (h : Own codec name node xs msg draw) :
    ∀ r, parse_log_entity .standard codec msg draw = some r → Known name node xs r := by
  intro r hparse
  rcases h with ⟨x, hx, hcopy⟩ | hother
  · rcases hcopy.read with hread | hread
    · exact .inl ⟨x, hx, _, Option.some.inj (hparse.symm.trans (hread draw))⟩
    · exact .inl ⟨x, hx, _, Option.some.inj (hparse.symm.trans (hread draw))⟩
  · exact .inr (hother r hparse)

namespace Sent

variable (h : Sent name agent_uuid node starts xs)
include h

theorem query_name (hx : x ∈ xs.flatten) : x.result.query_name = name := by
  obtain ⟨sent, hsent, hx⟩ := List.mem_flatten.1 hx
  have hmem : sent.map (fun x => OsqueryResult.unstamped x.result) ∈
      (resultsOf agent_uuid starts).map (List.map OsqueryResult.unstamped) :=
    h.results ▸ List.mem_map_of_mem hsent
  obtain ⟨results, hresults, heq⟩ := List.mem_map.1 hmem
  obtain ⟨result, hresult, hsame⟩ := List.mem_map.1 (heq ▸ List.mem_map_of_mem hx)
  obtain ⟨start, hstart, hsentAt⟩ := List.mem_flatMap.1 hresults
  have hemitted : result ∈ (runTask start.1 agent_uuid start.2).emitted :=
    (sentAt_init (h.opened start hstart)).1 ▸ List.mem_flatten_of_mem hsentAt hresult
  have hname : result.unstamped.query_name = x.result.unstamped.query_name :=
    congrArg OsqueryResult.query_name hsame
  exact hname.symm.trans ((query_name_runTask hemitted).trans (h.named start hstart))

/-- What the results of each tick tell. -/
theorem changes : xs.map (List.map fun x => x.result.change) =
    (resultsOf agent_uuid starts).map (List.map OsqueryResult.change) := by
  have hmap := congrArg (List.map (List.map OsqueryResult.change)) h.results
  simp only [List.map_map, Function.comp_def] at hmap
  exact hmap

theorem clock : xs.flatten.Pairwise fun x y => x.time ≤ y.time :=
  List.pairwise_flatten.2
    ⟨h.within, h.across.imp fun hlater x hx y hy => (hlater x hx y hy).le⟩

variable (hknown : ∀ r ∈ logs.rows, Known name node xs.flatten r)
include hknown

variable (hthere : ∀ x ∈ xs.flatten, ∃ r ∈ logs.rows, r.event_id = x.sequence)
include hthere

end Sent

end AigisZero
