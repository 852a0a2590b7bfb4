import AigisZero.Library.Json
import AigisZero.Library.Uuid
import Mathlib.Data.Rat.Defs

/-!
# Events, rules and alerts

The telemetry event as the rule engine reads it from a typed topic, the
rules it is scanned with, and the alerts that come of it.
-/

namespace AigisZero.RuleEngine

/-- The errors of the rule engine that the modelled code returns. -/
inductive AppError where
  | ruleCompilation (source_file : String) (line : ℕ) (message : String)
  | scanFailure (event_id message : String)
  | databasePool (message : String)
  | databaseQuery (message : String)
  | kafkaProduce (message : String)
  | config (message : String)
  | io (message : String)
deriving DecidableEq, Repr

/-- How grave an alert is. -/
inductive AlertSeverity where
  | Low
  | Medium
  | High
  | Critical
deriving DecidableEq, Repr

/-- What found an alert. -/
inductive DetectionSource where
  | YaraX
  | Sigma
  | Mitre
  | Behavioral
deriving DecidableEq, Repr

/-- A telemetry event. -/
structure TelemetryEvent where
  id : String
  node_id : Uuid
  hostname : String
  event_type : String
  timestamp_ns : Int64
  payload : Json
  raw_sequence_id : Option String

/-- The text of an optional member: absent and `null` are the same. -/
def optionalStr : Option Json → Option (Option String)
  | none => some none
  | some .null => some none
  | some (.str s) => some (some s)
  | some _ => none

/-- The event a JSON value describes. -/
def TelemetryEvent.ofJson (text : UuidText) (j : Json) : Option TelemetryEvent := do
  let id ← (j.get? "id").bind Json.asStr?
  let node_id ← (j.get? "node_id").bind Json.asStr?
  let node_id ← (text.parse node_id).toOption
  let hostname ← (j.get? "hostname").bind Json.asStr?
  let event_type ← (j.get? "event_type").bind Json.asStr?
  let timestamp_ns ← (j.get? "timestamp_ns").bind Json.asI64?
  let payload ← j.get? "payload"
  let raw_sequence_id ← optionalStr (j.get? "raw_sequence_id")
  return { id, node_id, hostname, event_type, timestamp_ns, payload, raw_sequence_id }

/-- The members of a value that describes an event. -/
structure TelemetryEvent.Describes (text : UuidText) (j : Json) (event : TelemetryEvent) :
    Prop where
  id : j.get? "id" = some (.str event.id)
  node_id : ∃ s, j.get? "node_id" = some (.str s) ∧ (text.parse s).toOption = some event.node_id
  hostname : j.get? "hostname" = some (.str event.hostname)
  event_type : j.get? "event_type" = some (.str event.event_type)
  timestamp_ns : (j.get? "timestamp_ns").bind Json.asI64? = some event.timestamp_ns
  payload : j.get? "payload" = some event.payload

/-- An event is what the value it was read from describes. -/
theorem TelemetryEvent.ofJson_eq_some {text : UuidText} {j : Json} {event : TelemetryEvent}
    (h : TelemetryEvent.ofJson text j = some event) : event.Describes text j := by
  unfold ofJson at h
  simp only [Option.bind_eq_bind, Option.bind_eq_some_iff, Option.pure_def, Option.some.injEq,
    Json.asStr?_eq_some] at h
  obtain ⟨id, ⟨_, hid, rfl⟩, _, ⟨_, hnode, rfl⟩, node_id, hparse, hostname, ⟨_, hhost, rfl⟩,
    event_type, ⟨_, htype, rfl⟩, timestamp_ns, htime, payload, hpayload, raw_sequence_id, -,
    rfl⟩ := h
  exact ⟨hid, ⟨_, hnode, hparse⟩, hhost, htype, Option.bind_eq_some_iff.2 htime, hpayload⟩

/-- `serde_json::from_slice::<TelemetryEvent>`. -/
def TelemetryEvent.fromSlice (text : UuidText) (codec : JsonCodec) (payload : Bytes) :
    Option TelemetryEvent :=
  (codec.fromSlice payload).bind (TelemetryEvent.ofJson text)

/-! ## An event of every type -/

/-- The members of an event of a type, with a command line to scan. -/
def probeMembers (c : String) : List (String × Json) :=
  [("id", .str "00000000-0000-0000-0000-000000000002"),
    ("node_id", .str "00000000-0000-0000-0000-000000000001"),
    ("hostname", .str ""), ("event_type", .str c), ("timestamp_ns", .int 0),
    ("payload", .obj [("cmdline", .str "id")])]

/-- An event of a type. -/
def probe (c : String) : Json := Json.object (probeMembers c)

/-- The event the rule engine reads from it. -/
def probeEvent (c : String) : TelemetryEvent :=
  ⟨"00000000-0000-0000-0000-000000000002", ⟨1⟩, "", c, 0, .obj [("cmdline", .str "id")], none⟩

theorem canonical_probe (c : String) : (probe c).Canonical 127 := by
  refine Json.canonical_object fun m hm => ?_
  simp only [probeMembers, List.mem_cons, List.not_mem_nil, or_false] at hm
  rcases hm with rfl | rfl | rfl | rfl | rfl | rfl
  · exact .str
  · exact .str
  · exact .str
  · exact .str
  · exact .int (by decide)
  · refine .obj (List.pairwise_singleton ..) fun f hf => ?_
    obtain rfl := List.mem_singleton.1 hf
    exact .str

/-- The members of such an event. -/
theorem probe_get? (c k : String) :
    (probe c).get? k =
      match k with
      | "id" => some (.str "00000000-0000-0000-0000-000000000002")
      | "node_id" => some (.str "00000000-0000-0000-0000-000000000001")
      | "hostname" => some (.str "")
      | "event_type" => some (.str c)
      | "timestamp_ns" => some (.int 0)
      | "payload" => some (.obj [("cmdline", .str "id")])
      | _ => none := by
  split <;> simp_all [probe, probeMembers, Json.object, Fields.ofList, eq_comm]

/-- What describes it is read as it. -/
theorem ofJson_probe {j : Json} {c : String} (h : ∀ k, j.get? k = (probe c).get? k) :
    TelemetryEvent.ofJson .standard j = some (probeEvent c) := by
  have hnode : UuidText.standard.parse "00000000-0000-0000-0000-000000000001" = .ok ⟨1⟩ := rfl
  unfold TelemetryEvent.ofJson
  simp only [h, probe_get?, Option.bind_eq_bind, Option.bind_some, Json.asStr?_str, hnode]
  rfl

/-! ## Rules and alerts -/

/-- A value of the metadata of a rule. -/
inductive MetaValue where
  | Integer (v : ℤ)
  | Float (v : ℚ)
  | Bool (v : Bool)
  | String (v : String)
  | Bytes (v : Bytes)
deriving DecidableEq

/-- A rule, as its matches show it. -/
structure Rule where
  identifier : String
  metadata : List (String × MetaValue)
deriving DecidableEq

/-- The compiled rules of a directory: their identifiers are distinct. -/
structure Rules where
  rules : List Rule
  nodup : (rules.map (·.identifier)).Nodup

/-- The scanner: which rules match a buffer, or why the scan failed. It
finds no rules but those it is given. -/
structure YaraX where
  scan : Rules → Bytes → Except String (List Rule)
  scan_subset : ∀ {rules buffer matched}, scan rules buffer = .ok matched → matched ⊆ rules.rules

/-- An alert. -/
structure Alert where
  alert_id : Uuid
  node_id : Uuid
  hostname : String
  severity : AlertSeverity
  source : DetectionSource
  mitre_technique_id : Option String
  mitre_tactic : Option String
  description : String
  triggering_event_id : Option String
  threat_score : ℚ
  status : String
  created_at : ℕ
deriving DecidableEq

end AigisZero.RuleEngine
