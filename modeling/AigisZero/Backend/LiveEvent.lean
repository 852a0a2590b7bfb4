import AigisZero.Backend.EventLog

/-!
# The live events of the API backend

Beside the row it makes for the log, the consumer makes a live event of
each message it can read, for the clients of the WebSocket. What kind of
event it is should follow from the topic. A payload that is already the
text of a live event is taken as it is, whatever topic it came from.
-/

namespace AigisZero.Backend

/-- `LiveEvent`. The score is the number as it stands in the message. -/
inductive LiveEvent where
  | log (node_id hostname event_type : String) (payload : Json) (timestamp_ns : Int64)
  | alert (id node_id hostname severity : String) (mitre_technique_id : Option String)
    (description : String) (threat_score : Json) (timestamp_ns : Int64)
  | heartbeat (node_id agent_status : String) (events_buffered timestamp_ns : Int64)

/-- The value of a number. -/
def asNumber? : Json → Option Json
  | .int i => some (.int i)
  | .float literal => some (.float literal)
  | _ => none

namespace LiveEvent

/-! ## The text of a live event -/

/-- The content of a variant. A member that is not named is passed over. -/
def ofContent (tag : String) (data : Json) : Option LiveEvent := do
  -- the content of a variant is read from an object only
  let _ ← data.asObject?
  match tag with
  | "log" =>
    let node_id ← (data.get? "node_id").bind Json.asStr?
    let hostname ← (data.get? "hostname").bind Json.asStr?
    let event_type ← (data.get? "event_type").bind Json.asStr?
    let payload ← data.get? "payload"
    let timestamp_ns ← (data.get? "timestamp_ns").bind Json.asI64?
    return .log node_id hostname event_type payload timestamp_ns
  | "alert" =>
    let id ← (data.get? "id").bind Json.asStr?
    let node_id ← (data.get? "node_id").bind Json.asStr?
    let hostname ← (data.get? "hostname").bind Json.asStr?
    let severity ← (data.get? "severity").bind Json.asStr?
    let mitre_technique_id ← RuleEngine.optionalStr (data.get? "mitre_technique_id")
    let description ← (data.get? "description").bind Json.asStr?
    let threat_score ← (data.get? "threat_score").bind asNumber?
    let timestamp_ns ← (data.get? "timestamp_ns").bind Json.asI64?
    return .alert id node_id hostname severity mitre_technique_id description threat_score
      timestamp_ns
  | "heartbeat" =>
    let node_id ← (data.get? "node_id").bind Json.asStr?
    let agent_status ← (data.get? "agent_status").bind Json.asStr?
    let events_buffered ← (data.get? "events_buffered").bind Json.asI64?
    let timestamp_ns ← (data.get? "timestamp_ns").bind Json.asI64?
    return .heartbeat node_id agent_status events_buffered timestamp_ns
  | _ => none

/-- The live event a value says it is: its kind under `type` and the rest
under `data`, or the two in a row. -/
def ofJson : Json → Option LiveEvent
  | .obj fields => do
    let tag ← (Fields.lookup "type" fields).bind Json.asStr?
    let data ← Fields.lookup "data" fields
    ofContent tag data
  | .arr [tag, data] => tag.asStr?.bind (ofContent · data)
  | _ => none

/-- `serde_json::from_slice::<LiveEvent>`. -/
def fromSlice (codec : JsonCodec) (payload : Bytes) : Option LiveEvent :=
  (codec.fromSlice payload).bind ofJson

end LiveEvent

/-! ## What the consumer makes of a message -/

/-- The node a log names. -/
def nodeIdOf (json : Json) : Option Json :=
  ((json.get? "node_id").or (json.get? "agent_uuid")).or
    ((json.get? "payload").bind fun p => (p.get? "agent_uuid").or (p.get? "node_id"))

/-- The host a message names. -/
def hostnameOf (json : Json) : Option String :=
  ((json.get? "hostname").or ((json.get? "payload").bind (·.get? "hostname"))).bind Json.asStr?

/-- The time of a message: its own, or that of its reading. -/
def timestampOf (json : Json) (now : Int64) : Int64 :=
  (((json.get? "timestamp_ns").or ((json.get? "payload").bind (·.get? "timestamp_ns"))).bind
    Json.asI64?).getD now

/-- A message of a telemetry topic. -/
def parseLog (json : Json) (now : Int64) : LiveEvent :=
  let event_type := ((((json.get? "event_type").or (json.get? "query_name")).or
    ((json.get? "payload").bind fun p => (p.get? "query_name").or (p.get? "event_type"))).bind
      Json.asStr?).getD "unknown"
  .log (((nodeIdOf json).bind Json.asStr?).getD "unknown")
    (((hostnameOf json).filter (· ≠ "")).getD "unknown") event_type
    ((json.get? "payload").getD json) (timestampOf json now)

/-- A message of the alerts topic. -/
def parseAlert (json : Json) (now : Int64) : LiveEvent :=
  .alert
    ((((json.get? "alert_id").or (json.get? "id")).bind Json.asStr?).getD "")
    ((((json.get? "node_id").or (json.get? "agent_uuid")).bind Json.asStr?).getD "")
    ((hostnameOf json).getD "")
    (((json.get? "severity").bind Json.asStr?).getD "medium")
    ((json.get? "mitre_technique_id").bind Json.asStr?)
    (((json.get? "description").bind Json.asStr?).getD "")
    (((json.get? "threat_score").bind asNumber?).getD (.float "5.0"))
    (timestampOf json now)

/-- A message of the health topic. -/
def parseHeartbeat (json : Json) (now : Int64) : LiveEvent :=
  .heartbeat
    ((((json.get? "node_id").or (json.get? "agent_uuid")).bind Json.asStr?).getD "")
    ((((json.get? "agent_status").or (json.get? "status")).bind Json.asStr?).getD "healthy")
    (((json.get? "events_buffered").bind Json.asI64?).getD 0)
    (timestampOf json now)

/-- `parse_kafka_message`, at a time in nanoseconds. -/
def parse_kafka_message (codec : JsonCodec) (msg : TopicMessage) (now : Int64) :
    Option LiveEvent :=
  match LiveEvent.fromSlice codec msg.payload with
  -- a live event is passed on without a look at the topic
  | some direct_event => some direct_event
  | none =>
    (codec.fromSlice msg.payload).bind fun json =>
      if starts_with msg.topic "aigis.events" then some (parseLog json now)
      else if msg.topic = "aigis.alerts" then some (parseAlert json now)
      else if msg.topic = "aigis.health" then some (parseHeartbeat json now)
      else none

/-! ## The kind of an event and its topic -/

/-- The topic an event of a kind should come from. -/
def LiveEvent.OfTopic (topic : String) : LiveEvent → Prop
  | .log .. => starts_with topic "aigis.events"
  | .alert .. => topic = "aigis.alerts"
  | .heartbeat .. => topic = "aigis.health"

variable {codec : JsonCodec} {msg : TopicMessage} {now : Int64} {event : LiveEvent}

/-- What is made of a message that is no live event itself. -/
theorem parse_of_fromSlice_eq_none (hdirect : LiveEvent.fromSlice codec msg.payload = none)
    (h : parse_kafka_message codec msg now = some event) : event.OfTopic msg.topic := by
  unfold parse_kafka_message at h
  rw [hdirect] at h
  obtain ⟨json, -, h⟩ := Option.bind_eq_some_iff.1 h
  split at h
  · next hevents =>
    obtain rfl := Option.some.inj h
    exact hevents
  · split at h
    · next halerts =>
      obtain rfl := Option.some.inj h
      exact halerts
    · split at h
      · next hhealth =>
        obtain rfl := Option.some.inj h
        exact hhealth
      · cases h

end AigisZero.Backend
