import AigisZero.Agent.Types
import AigisZero.Library.Json
import AigisZero.Library.Uuid

/-!
# Events on the wire

A query result becomes the text of an event, which is what the buffer
holds. `send_events` reads a drained text back and makes of it the message
the stream carries.
-/

namespace AigisZero

/-- An event as the stream carries it, `edr.fleet.AgentEvent`. -/
structure Proto.AgentEvent where
  node_id : String
  event_type : String
  payload : Bytes
  timestamp_ns : Int64
  sequence_id : String
deriving DecidableEq, Repr

namespace Agent

/-- The value of a column. -/
def ColumnEntry.toJson (entry : ColumnEntry) : Json :=
  Json.object [("name", .str entry.name), ("value", .str entry.value)]

/-- The value of a row. -/
def OsqueryResultRow.toJson (row : OsqueryResultRow) : Json :=
  Json.object [("columns", .arr (row.columns.map ColumnEntry.toJson))]

/-- The value of a result, `serde_json::to_value`. -/
def OsqueryResult.toJson (result : OsqueryResult) : Json :=
  Json.object
    [("query_name", .str result.query_name), ("agent_uuid", .str result.agent_uuid),
      ("timestamp_ns", .int result.timestamp_ns.toInt),
      ("rows", .arr (result.rows.map OsqueryResultRow.toJson)),
      ("action", .str result.action.as_str)]

/-- What kind of event it is, by its number on the wire. -/
inductive EventType where
  | Osquery
  | Process
  | File
  | Network
deriving DecidableEq, Repr

/-- The number of a kind. -/
def EventType.toInt32 : EventType → Int32
  | Osquery => 0
  | Process => 1
  | File => 2
  | Network => 3

/-- An event as the buffer holds it. -/
structure AgentEvent where
  node_id : String
  event_type : Int32
  payload : Json
  timestamp_ns : Int64
  sequence_id : String

/-- The members of an event, in the order they are printed. -/
def AgentEvent.members (event : AgentEvent) : List (String × Json) :=
  [("node_id", .str event.node_id), ("event_type", .int event.event_type.toInt),
    ("payload", event.payload), ("timestamp_ns", .int event.timestamp_ns.toInt),
    ("sequence_id", .str event.sequence_id)]

/-- The event of a result, under a sequence number drawn for it. -/
def resultEvent (result : OsqueryResult) (sequence_id : String) : AgentEvent where
  node_id := result.agent_uuid
  event_type := EventType.Osquery.toInt32
  payload := result.toJson
  timestamp_ns := result.timestamp_ns
  sequence_id := sequence_id

variable (text : UuidText) (codec : JsonCodec)

/-- `encode_osquery_result`. Values made of texts and integers always
print, so there is always a text. -/
def encode_osquery_result (result : OsqueryResult) (drawn : Uuid) : Option String :=
  some (codec.toText (.obj (resultEvent result (text.print drawn)).members))

/-- The name of an event type: a text as it is, the known numbers by name. -/
def eventTypeName (event_type : Json) : String :=
  match event_type.asStr? with
  | some s => s
  | none =>
    match event_type.asI64? with
    | some i =>
      if i = 0 then "osquery"
      else if i = 1 then "process"
      else if i = 2 then "file"
      else if i = 3 then "network"
      else toString i
    | none => ""

/-- The message `FleetClient::send_events` makes of a value. -/
def protoEvent (val : Json) : Proto.AgentEvent where
  node_id := (val.index "node_id").asStr?.getD ""
  event_type := eventTypeName (val.index "event_type")
  payload := codec.toVec (val.index "payload")
  timestamp_ns := (val.index "timestamp_ns").asI64?.getD 0
  sequence_id := (val.index "sequence_id").asStr?.getD ""

/-! ## What is printed is canonical -/

theorem ColumnEntry.canonical_toJson (entry : ColumnEntry) : entry.toJson.Canonical 1 := by
  refine Json.canonical_object fun m hm => ?_
  simp only [List.mem_cons, List.not_mem_nil, or_false] at hm
  rcases hm with rfl | rfl <;> exact .str

theorem OsqueryResultRow.canonical_toJson (row : OsqueryResultRow) : row.toJson.Canonical 3 := by
  refine Json.canonical_object fun m hm => ?_
  obtain rfl := List.mem_singleton.1 hm
  refine .arr fun j hj => ?_
  obtain ⟨entry, -, rfl⟩ := List.mem_map.1 hj
  exact entry.canonical_toJson

theorem OsqueryResult.canonical_toJson (result : OsqueryResult) : result.toJson.Canonical 5 := by
  refine Json.canonical_object fun m hm => ?_
  simp only [List.mem_cons, List.not_mem_nil, or_false] at hm
  rcases hm with rfl | rfl | rfl | rfl | rfl
  · exact .str
  · exact .str
  · exact Json.canonical_toInt _
  · refine .arr fun j hj => ?_
    obtain ⟨row, -, rfl⟩ := List.mem_map.1 hj
    exact row.canonical_toJson
  · exact .str

variable {text codec}

/-- **An event whose payload is canonical is read back** as the object of
its members. -/
theorem ofText_members_event {event : AgentEvent} (h : event.payload.Canonical 126) :
    codec.ofText (codec.toText (.obj event.members)) = some (Json.object event.members) := by
  refine codec.ofText_members _ fun m hm => ?_
  simp only [AgentEvent.members, List.mem_cons, List.not_mem_nil, or_false] at hm
  rcases hm with rfl | rfl | rfl | rfl | rfl
  · exact .str
  · have hlow : (-2 ^ 31 : ℤ) ≤ event.event_type.toInt := event.event_type.le_toInt
    have hhigh : event.event_type.toInt < 2 ^ 31 := event.event_type.toInt_lt
    exact .int ⟨by omega, by omega⟩
  · exact h
  · exact Json.canonical_toInt _
  · exact .str

/-- **The message made of an event says what the event says.** -/
theorem protoEvent_members (event : AgentEvent) :
    protoEvent codec (Json.object event.members) =
      ⟨event.node_id, eventTypeName (.int event.event_type.toInt), codec.toVec event.payload,
        event.timestamp_ns, event.sequence_id⟩ := by
  simp [protoEvent, Json.index, Json.object, AgentEvent.members, Fields.ofList]

variable (text codec)

/-- **What becomes of a result on the wire**: an event of type `osquery`
with the value of the result as its payload. -/
theorem protoEvent_encode (result : OsqueryResult) (drawn : Uuid) :
    ((encode_osquery_result text codec result drawn).bind codec.ofText).map (protoEvent codec) =
      some ⟨result.agent_uuid, "osquery", codec.toVec result.toJson, result.timestamp_ns,
        text.print drawn⟩ := by
  have hpayload : result.toJson.Canonical 126 := result.canonical_toJson.mono (by omega)
  have hread : codec.ofText (codec.toText (.obj (resultEvent result (text.print drawn)).members)) =
      some (Json.object (resultEvent result (text.print drawn)).members) :=
    ofText_members_event hpayload
  have htype : eventTypeName (.int (EventType.Osquery.toInt32).toInt) = "osquery" := by decide
  rw [encode_osquery_result, Option.bind_some, hread, Option.map_some, protoEvent_members]
  simp only [resultEvent, htype]

end Agent

end AigisZero
