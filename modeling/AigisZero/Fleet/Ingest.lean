import AigisZero.Agent.Wire
import AigisZero.Fleet.Ports

/-!
# Event ingest

The server takes an event off the stream, puts it into the envelope of the
pipeline, and publishes the envelope under the node it names. What is
published is acknowledged; what is not, is answered with an error.
-/

namespace AigisZero.Fleet

/-- What `KafkaPublisher::publish` is given. -/
structure Publication where
  topic : String
  key : String
  payload : Bytes
deriving DecidableEq, Repr

/-- The event a message of the stream carries, as `event_stream` hands it on. -/
def incoming (event : Proto.AgentEvent) : IncomingEvent where
  node_id := event.node_id
  event_type := event.event_type
  payload := event.payload
  timestamp_ns := event.timestamp_ns
  sequence_id := event.sequence_id

variable (text : UuidText) (codec : JsonCodec)

/-- The payload as a value: what it says as JSON, or its text under `raw`. -/
def payloadVal (payload : Bytes) : Json :=
  (codec.fromSlice payload).getD (Json.object [("raw", .str (fromUtf8Lossy payload))])

/-- The identifier of an event: its sequence number, or a new one where it
has none. -/
def eventId (event : IncomingEvent) (drawn : Uuid) : String :=
  if event.sequence_id = "" then text.print drawn else event.sequence_id

/-- The envelope of an event. -/
def telemetryEnvelope (event : IncomingEvent) (drawn : Uuid) : Json :=
  Json.object
    [("id", .str (eventId text event drawn)), ("node_id", .str event.node_id),
      ("hostname", .str ""), ("event_type", .str event.event_type),
      ("timestamp_ns", .int event.timestamp_ns.toInt),
      ("payload", payloadVal codec event.payload),
      ("raw_sequence_id", .str event.sequence_id)]

/-- What `KafkaEventIngest::ingest_event` publishes. An envelope always
prints, so the fallback to the bare payload is never taken. -/
def published (topic : String) (event : IncomingEvent) (drawn : Uuid) : Publication where
  topic := topic
  key := event.node_id
  payload := codec.toVec (telemetryEnvelope text codec event drawn)

/-- What `KafkaEventIngest::ingest_event` answers, given what the broker did. -/
def ingest_event (event : IncomingEvent) (sent : Except String Unit) :
    Except Status (Option OutgoingCommand) :=
  match sent with
  | .ok () => .ok (some (.ack event.sequence_id))
  | .error _ => .error ⟨.internal, "Failed to publish event to message broker"⟩

variable {text codec}

/-- **An event is acknowledged exactly when it was published.** -/
theorem ingest_event_eq_ack {event : IncomingEvent} {sent : Except String Unit} {s : String} :
    ingest_event event sent = .ok (some (.ack s)) ↔ sent = .ok () ∧ s = event.sequence_id := by
  cases sent with
  | error _ => simp [ingest_event]
  | ok => simp [ingest_event, eq_comm]

/-- A payload that is the text of a canonical value is that value. -/
theorem payloadVal_toVec {j : Json} (h : j.Canonical 127) :
    payloadVal codec (codec.toVec j) = j := by
  rw [payloadVal, codec.fromSlice_toVec h, Option.getD_some]

/-- The envelope of an event whose payload is canonical is canonical. -/
theorem canonical_telemetryEnvelope {event : IncomingEvent} {drawn : Uuid} {j : Json} {depth : ℕ}
    (hpayload : payloadVal codec event.payload = j) (h : j.Canonical depth) :
    (telemetryEnvelope text codec event drawn).Canonical (depth + 1) := by
  refine Json.canonical_object fun m hm => ?_
  simp only [List.mem_cons, List.not_mem_nil, or_false] at hm
  rcases hm with rfl | rfl | rfl | rfl | rfl | rfl | rfl
  · exact .str
  · exact .str
  · exact .str
  · exact .str
  · exact Json.canonical_toInt _
  · exact hpayload ▸ h
  · exact .str

/-- The members of an envelope. -/
theorem telemetryEnvelope_get? (event : IncomingEvent) (drawn : Uuid) (k : String) :
    (telemetryEnvelope text codec event drawn).get? k =
      match k with
      | "id" => some (.str (eventId text event drawn))
      | "node_id" => some (.str event.node_id)
      | "hostname" => some (.str "")
      | "event_type" => some (.str event.event_type)
      | "timestamp_ns" => some (.int event.timestamp_ns.toInt)
      | "payload" => some (payloadVal codec event.payload)
      | "raw_sequence_id" => some (.str event.sequence_id)
      | _ => none := by
  split <;> simp_all [telemetryEnvelope, Json.object, Fields.ofList, eq_comm]

end AigisZero.Fleet
