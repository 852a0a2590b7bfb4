import AigisZero.Fleet.Ingest
import AigisZero.Library.JsonText
import AigisZero.Router.Route
import AigisZero.RuleEngine.Scanner

/-!
# From a query result to the scanner

A result goes from the agent through the Fleet Server and the router to the
rule engine, and is encoded anew at each of them. This module follows one
result all the way: what the scanner reads is what osquery answered, under
the identity it was given, and no column is lost to the rules.
-/

namespace AigisZero

open Agent Fleet Router RuleEngine

/-- What is settled outside while a result is carried: the sequence number
drawn for it, the number ingest draws, where the broker puts it, and the
counters of the router. -/
structure Passage where
  sequence : Uuid
  envelope : Uuid
  agents_topic : String
  partition : ℤ
  offset : ℤ
  metrics : PipelineMetrics

/-- What a consumer reads of a publication. -/
def Passage.delivered (passage : Passage) (publication : Publication) : RawMessage where
  key := some (utf8 publication.key)
  payload := publication.payload
  topic := publication.topic
  partition := passage.partition
  offset := passage.offset

variable (text : UuidText) (codec : JsonCodec)

/-- **A result carried from the agent to the rule engine**, no send
failing: the record the router forwards and the event the rule engine
reads from it. -/
def carry (passage : Passage) (result : OsqueryResult) : Option (Record × TelemetryEvent) := do
  let encoded ← encode_osquery_result text codec result passage.sequence
  let val ← codec.ofText encoded
  let event := incoming (protoEvent codec val)
  let _ ← (ingest_event event (.ok ())).toOption
  let msg := passage.delivered (published text codec passage.agents_topic event passage.envelope)
  let record := (routed codec msg passage.metrics).1
  (process codec msg passage.metrics (.ok ())).1.toOption
  let telemetry ← TelemetryEvent.fromSlice text codec record.payload
  return (record, telemetry)

/-- **What the rule engine owes a result of a node**: it has the event
under its own identity, on the topic of its category, scans it with the
rules of that category, and finds the value of every column in the text it
scans. -/
structure Covered (passage : Passage) (result : OsqueryResult) (node : Uuid) (topic : String)
    (record : Record) (event : TelemetryEvent) : Prop where
  on_topic : record.topic = topic
  of_category : topic = "aigis.events." ++ category event
  node_id : event.node_id = node
  timestamp_ns : event.timestamp_ns = result.timestamp_ns
  id : event.id = text.print passage.sequence
  raw_sequence_id : event.raw_sequence_id = some (text.print passage.sequence)
  scanned : ∀ (yara : YaraX) (current : EngineRegistry) (draw : ℕ → AlertDraw),
    evaluate codec yara current event draw =
      match current.rule_sets (category event) with
      | none => .ok []
      | some rules =>
        ((yara.scan rules (extract_scannable_buffer codec event)).mapError
            fun e => .scanFailure event.id e).map
          fun matched => matched.mapIdx fun i rule => build_alert event rule current.mitre (draw i)
  lines : ∀ row ∈ result.rows, ∀ col ∈ row.columns,
    line col.value <:+: extract_scannable_buffer codec event

/-- The event the rule engine reads of a result. -/
def telemetryOf (passage : Passage) (result : OsqueryResult) (node : Uuid) (topic : String) :
    TelemetryEvent where
  id := text.print passage.sequence
  node_id := node
  hostname := ""
  event_type := normalized_category topic result.query_name
  timestamp_ns := result.timestamp_ns
  payload := result.toJson
  raw_sequence_id := some (text.print passage.sequence)

/-- What ingest hands on of a result. -/
def ingested (passage : Passage) (result : OsqueryResult) : IncomingEvent where
  node_id := result.agent_uuid
  event_type := "osquery"
  payload := codec.toVec result.toJson
  timestamp_ns := result.timestamp_ns
  sequence_id := text.print passage.sequence

/-- The record the router forwards of a result. -/
def forwarded (passage : Passage) (result : OsqueryResult) (topic : String) : Record where
  topic := topic
  key := utf8 result.agent_uuid
  payload := codec.toVec
    ((telemetryEnvelope text codec (ingested text codec passage result) passage.envelope).insert
      "event_type" (.str (normalized_category topic result.query_name)))
  headers := []

variable {text codec} {passage : Passage} {result : OsqueryResult} {node : Uuid} {topic : String}

/-- The agent's stages: what ingest gets of a result. -/
theorem incoming_encode {encoded : String} {val : Json}
    (hencoded : encode_osquery_result text codec result passage.sequence = some encoded)
    (hval : codec.ofText encoded = some val) :
    incoming (protoEvent codec val) = ingested text codec passage result := by
  have hproto := protoEvent_encode text codec result passage.sequence
  rw [hencoded, Option.bind_some, hval, Option.map_some] at hproto
  rw [Option.some.inj hproto]
  rfl

/-- The payload ingest puts into the envelope is the result itself. -/
theorem payloadVal_ingested :
    payloadVal codec (ingested text codec passage result).payload = result.toJson :=
  payloadVal_toVec (result.canonical_toJson.mono (by omega))

/-- An envelope goes by the name of its query. -/
theorem eventType_ingested (drawn : Uuid) :
    eventType (telemetryEnvelope text codec (ingested text codec passage result) drawn) =
      result.query_name := by
  have hname : result.toJson.get? "query_name" = some (.str result.query_name) := by
    simp [OsqueryResult.toJson, Json.object, Fields.ofList]
  simp only [eventType, telemetryEnvelope_get?, payloadVal_ingested, Option.bind_some, hname]
  rfl

/-- What is forwarded of an envelope is read as the event of the result:
ingest wrote each member under the name the rule engine looks for. -/
theorem ofJson_ingested (huuid : text.parse result.agent_uuid = .ok node) (drawn : Uuid) :
    TelemetryEvent.ofJson text
        ((telemetryEnvelope text codec (ingested text codec passage result) drawn).insert
          "event_type" (.str (normalized_category topic result.query_name))) =
      some (telemetryOf text passage result node topic) := by
  -- the router changed one member, and the rule engine reads the others as ingest wrote them
  have hget : ∀ k, ((telemetryEnvelope text codec (ingested text codec passage result) drawn).insert
      "event_type" (.str (normalized_category topic result.query_name))).get? k =
        if "event_type" = k then some (.str (normalized_category topic result.query_name))
        else (telemetryEnvelope text codec (ingested text codec passage result) drawn).get? k :=
    fun k => Json.get?_insert_obj
  have hid : eventId text (ingested text codec passage result) drawn =
      text.print passage.sequence :=
    if_neg (text.print_ne_empty passage.sequence)
  have hnode : text.parse (ingested text codec passage result).node_id = .ok node := huuid
  simp only [TelemetryEvent.ofJson, hget, telemetryEnvelope_get?, payloadVal_ingested, hid,
    String.reduceEq, if_true, if_false, Option.bind_some, Json.asStr?_str, Json.asI64?_toInt,
    optionalStr, Option.bind_eq_bind, hnode, Except.toOption]
  rfl

/-- **Carrying a result gives its event**, on the topic of its query. -/
theorem carry_eq (huuid : text.parse result.agent_uuid = .ok node)
    (hroute : route_topic result.query_name = some topic) :
    carry text codec passage result =
      some (forwarded text codec passage result topic,
        telemetryOf text passage result node topic) := by
  have henvelope : (telemetryEnvelope text codec (ingested text codec passage result)
      passage.envelope).Canonical 127 :=
    canonical_telemetryEnvelope payloadVal_ingested (result.canonical_toJson.mono (by omega))
  -- the agent: the text in the buffer is read back as the event it was made from
  obtain ⟨val, hread, -⟩ :=
    Option.map_eq_some_iff.1 (protoEvent_encode text codec result passage.sequence)
  obtain ⟨encoded, hencoded, hval⟩ := Option.bind_eq_some_iff.1 hread
  have hincoming := incoming_encode hencoded hval
  -- the router: the envelope is read back, and its query names the topic
  have hpayload : codec.fromSlice (passage.delivered (published text codec passage.agents_topic
      (ingested text codec passage result) passage.envelope)).payload =
        some (telemetryEnvelope text codec (ingested text codec passage result) passage.envelope) :=
    codec.fromSlice_toVec henvelope
  have htopic : route_topic (eventType (telemetryEnvelope text codec
      (ingested text codec passage result) passage.envelope)) = some topic := by
    rw [eventType_ingested, hroute]
  obtain ⟨hrecord, hprocess⟩ := process_of_route passage.metrics hpayload htopic
  rw [eventType_ingested] at hrecord
  have hrecord : (routed codec (passage.delivered (published text codec passage.agents_topic
      (ingested text codec passage result) passage.envelope)) passage.metrics).1 =
        forwarded text codec passage result topic := hrecord
  -- the rule engine: what is forwarded is read back as the event
  have hforwarded : ((telemetryEnvelope text codec (ingested text codec passage result)
      passage.envelope).insert "event_type"
        (.str (normalized_category topic result.query_name))).Canonical 127 :=
    Json.canonical_insert henvelope .str
  have htelemetry : TelemetryEvent.fromSlice text codec
      (forwarded text codec passage result topic).payload =
        some (telemetryOf text passage result node topic) := by
    rw [TelemetryEvent.fromSlice, forwarded, codec.fromSlice_toVec hforwarded, Option.bind_some,
      ofJson_ingested huuid]
  have hack : ingest_event (ingested text codec passage result) (.ok ()) =
      .ok (some (.ack (text.print passage.sequence))) := rfl
  unfold carry
  simp only [hencoded, hval, hincoming, hack, hrecord, hprocess, htelemetry, Except.toOption,
    Option.bind_eq_bind, Option.bind_some]
  rfl

/-- The router and the rule engine name the categories alike. -/
theorem normalized_category_mem (h : topic ∈ typedTopics) (event_type : String) :
    normalized_category topic event_type ∈ typedCategories := by
  simp only [typedTopics, List.mem_cons, List.not_mem_nil, or_false] at h
  rcases h with rfl | rfl | rfl | rfl <;> simp [normalized_category, typedCategories]

/-- The payload of a result has a line of its own: the name of its action. -/
theorem scanPayload_toJson_ne_nil (result : OsqueryResult) : scanPayload result.toJson ≠ [] := by
  have haction : Fields.lookup "action" (Fields.ofList
      [("query_name", .str result.query_name), ("agent_uuid", .str result.agent_uuid),
        ("timestamp_ns", .int result.timestamp_ns.toInt),
        ("rows", .arr (result.rows.map OsqueryResultRow.toJson)),
        ("action", .str result.action.as_str)]) = some (Json.str result.action.as_str) := by
    simp [Fields.ofList]
  exact scanPayload_ne_nil (by decide) haction

/-- **The value of each column is a line of what is scanned.** -/
theorem line_infix_scanPayload_toJson {row : OsqueryResultRow} {col : ColumnEntry}
    (hrow : row ∈ result.rows) (hcol : col ∈ row.columns) :
    line col.value <:+: scanPayload result.toJson := by
  have hrows : Fields.lookup "rows" (Fields.ofList
      [("query_name", .str result.query_name), ("agent_uuid", .str result.agent_uuid),
        ("timestamp_ns", .int result.timestamp_ns.toInt),
        ("rows", .arr (result.rows.map OsqueryResultRow.toJson)),
        ("action", .str result.action.as_str)]) =
          some (Json.arr (result.rows.map OsqueryResultRow.toJson)) := by
    simp [Fields.ofList]
  have hcolumns : Fields.lookup "columns" (Fields.ofList
      [("columns", Json.arr (row.columns.map ColumnEntry.toJson))]) =
        some (Json.arr (row.columns.map ColumnEntry.toJson)) := by
    simp [Fields.ofList]
  have hvalue : Fields.lookup "value" (Fields.ofList
      [("name", Json.str col.name), ("value", .str col.value)]) = some (Json.str col.value) := by
    simp [Fields.ofList]
  have hscanRow : line col.value <:+: scanRow row.toJson :=
    line_infix_scanRow hcolumns (List.mem_map_of_mem hcol) hvalue
  exact hscanRow.trans (scanRow_infix_scanPayload hrows (List.mem_map_of_mem hrow))

/-- **No detection is lost on the way**: a result of an enrolled node, of
any query the router knows, with whatever rows, is carried to the rule
engine, and what the rule engine owes it is done. -/
theorem carry_covers (passage : Passage) (huuid : text.parse result.agent_uuid = .ok node)
    (hroute : route_topic result.query_name = some topic) :
    ∃ record event, carry text codec passage result = some (record, event) ∧
      Covered text codec passage result node topic record event := by
  refine ⟨_, _, carry_eq huuid hroute, ?_⟩
  have hmem : topic ∈ typedTopics := route_topic_mem hroute
  have hcategory : category (telemetryOf text passage result node topic) =
      normalized_category topic result.query_name :=
    category_of_mem (normalized_category_mem hmem result.query_name)
  have hlines : scanPayload (telemetryOf text passage result node topic).payload ≠ [] :=
    scanPayload_toJson_ne_nil result
  have hbuffer : extract_scannable_buffer codec (telemetryOf text passage result node topic) =
      scanPayload result.toJson := extract_of_ne_nil hlines
  exact
    { on_topic := rfl
      of_category := by rw [hcategory]; exact typedTopic_eq hmem result.query_name
      node_id := rfl
      timestamp_ns := rfl
      id := rfl
      raw_sequence_id := rfl
      scanned := by
        intro yara current draw
        unfold evaluate EngineRegistry.matching
        rw [scanned_of_ne_nil hlines, hbuffer]
        cases current.rule_sets (category (telemetryOf text passage result node topic)) <;> rfl
      lines := by
        intro row hrow col hcol
        rw [hbuffer]
        exact line_infix_scanPayload_toJson hrow hcol }

/-- A result with one column is carried and scanned. -/
theorem carry_covers_users :
    ∃ record event,
      carry UuidText.standard JsonText.codec ⟨⟨1⟩, ⟨2⟩, "agents_events", 0, 7, .new⟩
          ⟨"users", "00000000-0000-0000-0000-00000000002a", 5, [⟨[⟨"shell", "/bin/sh"⟩]⟩], .Added⟩ =
        some (record, event) ∧
      Covered UuidText.standard JsonText.codec ⟨⟨1⟩, ⟨2⟩, "agents_events", 0, 7, .new⟩
          ⟨"users", "00000000-0000-0000-0000-00000000002a", 5, [⟨[⟨"shell", "/bin/sh"⟩]⟩], .Added⟩
          ⟨42⟩ "aigis.events.auth" record event :=
  carry_covers _ (by decide) (by decide)

end AigisZero
