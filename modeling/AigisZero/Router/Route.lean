import AigisZero.Library.Json

/-!
# Routing an event

The router looks into an event of the raw topic, picks the typed topic of
its type, and forwards it there under the name of its category. What it
cannot read or classify goes to the dead letter topic as it is, with the
reason in the headers.
-/

namespace AigisZero.Router

/-- The counters of the router. -/
structure PipelineMetrics where
  events_consumed : UInt64
  events_routed_process : UInt64
  events_routed_network : UInt64
  events_routed_file : UInt64
  events_routed_auth : UInt64
  events_routed_dlq : UInt64
  routing_errors : UInt64
deriving DecidableEq, Repr

namespace PipelineMetrics

/-- `PipelineMetrics::new`. -/
def new : PipelineMetrics := ⟨0, 0, 0, 0, 0, 0, 0⟩

/-- `inc_consumed`. -/
def inc_consumed (m : PipelineMetrics) : PipelineMetrics :=
  { m with events_consumed := m.events_consumed + 1 }

/-- `inc_routed`. -/
def inc_routed (m : PipelineMetrics) (target_topic : String) : PipelineMetrics :=
  match target_topic with
  | "aigis.events.process" => { m with events_routed_process := m.events_routed_process + 1 }
  | "aigis.events.network" => { m with events_routed_network := m.events_routed_network + 1 }
  | "aigis.events.file" => { m with events_routed_file := m.events_routed_file + 1 }
  | "aigis.events.auth" => { m with events_routed_auth := m.events_routed_auth + 1 }
  | _ => { m with events_routed_dlq := m.events_routed_dlq + 1 }

/-- `inc_errors`. -/
def inc_errors (m : PipelineMetrics) : PipelineMetrics :=
  { m with routing_errors := m.routing_errors + 1 }

end PipelineMetrics

/-- A record for the broker. -/
structure Record where
  topic : String
  key : Bytes
  payload : Bytes
  headers : List (String × Bytes)
deriving DecidableEq, Repr

/-- A message of the raw topic, with where it stands there. -/
structure RawMessage where
  key : Option Bytes
  payload : Bytes
  topic : String
  partition : ℤ
  offset : ℤ
deriving DecidableEq, Repr

/-- The dead letter topic. -/
def dlq : String := "aigis.events.dlq"

/-- The typed topics. -/
def typedTopics : List String :=
  ["aigis.events.process", "aigis.events.network", "aigis.events.file", "aigis.events.auth"]

/-- `EventRouterProcessor::route_topic`. -/
def route_topic (event_type : String) : Option String :=
  match event_type with
  | "process_start" | "process_end" | "process" | "process_events" | "bpf_process_events"
  | "processes" | "osquery_result" | "osquery_snapshot" | "running_processes" =>
    some "aigis.events.process"
  | "network_connect" | "network_listen" | "socket_events" | "bpf_socket_events" | "network"
  | "listening_ports" => some "aigis.events.network"
  | "file_create" | "file_modify" | "file_delete" | "file_events" | "file" =>
    some "aigis.events.file"
  | "user_login" | "user_logout" | "logged_in_users" | "auth" | "users" =>
    some "aigis.events.auth"
  | _ => none

/-- The category of a topic; other topics leave the type as it is. -/
def normalized_category (target_topic event_type : String) : String :=
  match target_topic with
  | "aigis.events.process" => "process"
  | "aigis.events.network" => "network"
  | "aigis.events.file" => "file"
  | "aigis.events.auth" => "auth"
  | _ => event_type

/-- The record of a message for the dead letter topic. -/
def dlqRecord (msg : RawMessage) (reason : String) : Record where
  topic := dlq
  key := msg.key.getD []
  payload := msg.payload
  headers :=
    [("x-source-topic", utf8 msg.topic), ("x-original-partition", utf8 (toString msg.partition)),
      ("x-original-offset", utf8 (toString msg.offset)), ("x-error-reason", utf8 reason)]

/-- The type an event is routed by: its own, or the name of its query
where that says no more than `osquery`. -/
def eventType (event : Json) : String :=
  let query_name := ((event.get? "payload").bind (·.get? "query_name")).bind Json.asStr?
  let raw_event_type := (event.get? "event_type").bind Json.asStr?
  match raw_event_type with
  | none => query_name.getD "osquery"
  | some "osquery" => query_name.getD "osquery"
  | some et => et

variable (codec : JsonCodec)

/-- What `EventRouterProcessor::process` makes of a message before the
broker answers: the record it sends, what it counts, and what it returns
once the record is sent. -/
def routed (msg : RawMessage) (metrics : PipelineMetrics) :
    Record × PipelineMetrics × Except String Unit :=
  let metrics := metrics.inc_consumed
  match codec.fromSlice msg.payload with
  | none =>
    (dlqRecord msg "Invalid JSON payload", (metrics.inc_errors).inc_routed dlq,
      .error ("Invalid JSON: " ++ codec.errorText msg.payload))
  | some event =>
    let event_type := eventType event
    let target_topic := (route_topic event_type).getD dlq
    let metrics := metrics.inc_routed target_topic
    -- an event of no known type is sent as it came, and its message counts as done
    if target_topic = dlq then
      (dlqRecord msg "Unclassified event type", metrics, .ok ())
    else
      let category := normalized_category target_topic event_type
      ({ topic := target_topic
         key := msg.key.getD []
         payload := codec.toVec (event.insert "event_type" (.str category))
         headers := [] }, metrics, .ok ())

/-- `EventRouterProcessor::process`, given what the broker answers. -/
def process (msg : RawMessage) (metrics : PipelineMetrics) (sent : Except String Unit) :
    Except String Unit × PipelineMetrics :=
  let (_, metrics, result) := routed codec msg metrics
  match sent with
  | .error err => (.error ("Kafka send error: " ++ err), metrics)
  | .ok () => (result, metrics)

variable {codec}

theorem route_topic_mem {event_type topic : String} (h : route_topic event_type = some topic) :
    topic ∈ typedTopics := by
  unfold route_topic at h
  split at h <;> cases h <;> decide

theorem ne_dlq_of_mem {topic : String} (h : topic ∈ typedTopics) : topic ≠ dlq := by
  rintro rfl
  exact absurd h (by decide)

/-- A typed topic is named after its category. -/
theorem typedTopic_eq {topic : String} (h : topic ∈ typedTopics) (event_type : String) :
    topic = "aigis.events." ++ normalized_category topic event_type := by
  simp only [typedTopics, List.mem_cons, List.not_mem_nil, or_false] at h
  rcases h with rfl | rfl | rfl | rfl <;> rfl

/-- **An event of a known type is sent to its topic under the name of its
category**, and the message is then done with. -/
theorem process_of_route {msg : RawMessage} (metrics : PipelineMetrics) {event : Json}
    {topic : String} (hread : codec.fromSlice msg.payload = some event)
    (hroute : route_topic (eventType event) = some topic) :
    (routed codec msg metrics).1 =
        { topic := topic
          key := msg.key.getD []
          payload := codec.toVec
            (event.insert "event_type" (.str (normalized_category topic (eventType event))))
          headers := [] } ∧
      (process codec msg metrics (.ok ())).1 = .ok () := by
  have htopic : topic ≠ dlq := ne_dlq_of_mem (route_topic_mem hroute)
  unfold process routed
  rw [hread]
  simp only [hroute, Option.getD_some, if_neg htopic, and_self]

/-- **A record goes to a typed topic or to the dead letter topic.** -/
theorem routed_topic (msg : RawMessage) (metrics : PipelineMetrics) :
    (routed codec msg metrics).1.topic ∈ dlq :: typedTopics := by
  unfold routed
  cases codec.fromSlice msg.payload with
  | none => exact List.mem_cons_self
  | some event =>
    dsimp only
    cases hroute : route_topic (eventType event) with
    | none => exact List.mem_cons_self
    | some topic =>
      -- the topic of a known type is one of the table
      have hmem := route_topic_mem hroute
      rw [Option.getD_some]
      split
      · exact List.mem_cons_self
      · exact List.mem_cons_of_mem _ hmem

end AigisZero.Router
