import AigisZero.Backend.LiveEvent
import AigisZero.Library.JsonText
import AigisZero.RuleEngine.Sink

/-!
# An alert, from the rule engine to the console

The rule engine writes an alert to the alerts topic as a record of its own,
and the API backend reads it member by member, each under the names it
knows and with a default where there is none. The two have no type in
common.
-/

namespace AigisZero.Backend

open RuleEngine (Alert AlertSeverity DetectionSource)

/-- **How the values of an alert that are no strings are printed.** -/
structure AlertText (codec : MemberCodec) where
  /-- A score. -/
  score : ℚ → Json
  score_readable : ∀ q, (score q).Readable codec.float 126
  /-- A time in nanoseconds, as RFC 3339 has it. -/
  rfc3339 : ℕ → String

/-- An optional string: `null` where there is none. -/
def ofOption : Option String → Json
  | none => .null
  | some s => .str s

variable (text : UuidText) {codec : MemberCodec} (form : AlertText codec)

/-- The members of an alert, in the order of its declaration. -/
def alertMembers (alert : Alert) : List (String × Json) :=
  [("alert_id", .str (text.print alert.alert_id)),
    ("node_id", .str (text.print alert.node_id)),
    ("hostname", .str alert.hostname),
    ("severity", .str alert.severity.as_str),
    ("source", .str alert.source.as_str),
    ("mitre_technique_id", ofOption alert.mitre_technique_id),
    ("mitre_tactic", ofOption alert.mitre_tactic),
    ("description", .str alert.description),
    ("triggering_event_id", ofOption alert.triggering_event_id),
    ("threat_score", form.score alert.threat_score),
    ("status", .str alert.status),
    ("created_at", .str (form.rfc3339 alert.created_at))]

/-- What `AlertKafkaProducer::publish` writes. -/
def alertPayload (alert : Alert) : Bytes := codec.toVec (.obj (alertMembers text form alert))

/-- What comes of it at the API backend. -/
def parseAlertPayload (alert : Alert) (now : Int64) : Option LiveEvent :=
  parse_kafka_message codec.toJsonCodec ⟨"aigis.alerts", alertPayload text form alert⟩ now

/-- When an event was. -/
def LiveEvent.timestamp_ns : LiveEvent → Int64
  | .log _ _ _ _ timestamp_ns => timestamp_ns
  | .alert _ _ _ _ _ _ _ timestamp_ns => timestamp_ns
  | .heartbeat _ _ _ timestamp_ns => timestamp_ns

/-- An event is the alert, but for its time. -/
def LiveEvent.Carries (alert : Alert) : LiveEvent → Prop
  | .alert id node_id hostname severity mitre_technique_id description _ _ =>
    id = text.print alert.alert_id ∧ node_id = text.print alert.node_id ∧
      hostname = alert.hostname ∧ severity = alert.severity.as_str ∧
      mitre_technique_id = alert.mitre_technique_id ∧ description = alert.description
  | _ => False

/-- **The two sides agree on an alert**: whenever it is read, it is read as
the alert, at the time it was made. -/
def CodecAgrees (alert : Alert) : Prop :=
  ∀ now, ∃ event, parseAlertPayload text form alert now = some event ∧
    event.Carries text alert ∧ event.timestamp_ns.toInt = alert.created_at

variable {text} {form}

/-! ## The record that is written -/

theorem readable_ofOption {float : String → Prop} {depth : ℕ} (o : Option String) :
    (ofOption o).Readable float depth := by
  cases o with
  | none => exact .null
  | some s => exact .str

/-- Every member can be read back. -/
theorem readable_alertMembers (alert : Alert) :
    ∀ m ∈ alertMembers text form alert, m.2.Readable codec.float 126 := by
  intro m hm
  simp only [alertMembers, List.mem_cons, List.not_mem_nil, or_false] at hm
  rcases hm with rfl | rfl | rfl | rfl | rfl | rfl | rfl | rfl | rfl | rfl | rfl | rfl
  · exact .str
  · exact .str
  · exact .str
  · exact .str
  · exact .str
  · exact readable_ofOption _
  · exact readable_ofOption _
  · exact .str
  · exact readable_ofOption _
  · exact form.score_readable _
  · exact .str
  · exact .str

/-- **The record as the reader sees it.** There is no `timestamp_ns` in it,
and no `payload`. -/
theorem alertMembers_get? (alert : Alert) (k : String) :
    (Json.object (alertMembers text form alert)).get? k =
      Fields.lookup k (alertMembers text form alert) :=
  Json.get?_object (by simp [alertMembers])

/-- It is no live event of its own. -/
theorem ofJson_alertMembers (alert : Alert) :
    LiveEvent.ofJson (Json.object (alertMembers text form alert)) = none := by
  have htype : Fields.lookup "type" (Fields.ofList (alertMembers text form alert)) = none := by
    rw [Fields.lookup_ofList (by simp [alertMembers])]
    simp [alertMembers]
  simp only [Json.object, LiveEvent.ofJson, htype, Option.bind_none, Option.bind_eq_bind]

/-! ## What is read of it -/

theorem asStr?_ofOption (o : Option String) : (ofOption o).asStr? = o := by
  cases o <;> rfl

/-- **What the backend makes of an alert**: all its members, and the time of
its reading for that of the alert. -/
theorem parseAlertPayload_eq (alert : Alert) (now : Int64) :
    parseAlertPayload text form alert now =
      some (.alert (text.print alert.alert_id) (text.print alert.node_id) alert.hostname
        alert.severity.as_str alert.mitre_technique_id alert.description
        ((asNumber? (form.score alert.threat_score)).getD (.float "5.0")) now) := by
  have hread : codec.fromSlice (alertPayload text form alert) =
      some (Json.object (alertMembers text form alert)) :=
    MemberCodec.fromSlice_toVec (readable_alertMembers alert)
  have hdirect : LiveEvent.fromSlice codec.toJsonCodec (alertPayload text form alert) = none := by
    rw [LiveEvent.fromSlice, hread, Option.bind_some, ofJson_alertMembers]
  have htopic : starts_with "aigis.alerts" "aigis.events" = false := by decide
  rw [parseAlertPayload, parse_kafka_message, hdirect, hread]
  dsimp only [Option.bind_some]
  rw [htopic, if_neg Bool.false_ne_true, if_pos rfl]
  simp only [parseAlert, hostnameOf, timestampOf, alertMembers_get?]
  simp [alertMembers, asStr?_ofOption]

/-- **The two sides agree on no alert.** Everything else is carried over,
but the time is that of the reading. -/
theorem codec_disagrees (text : UuidText) (codec : MemberCodec) (form : AlertText codec)
    (alert : Alert) :
    (∀ now, ∃ event, parseAlertPayload text form alert now = some event ∧
      event.Carries text alert ∧ event.timestamp_ns = now) ∧ ¬CodecAgrees text form alert := by
  constructor
  · intro now
    exact ⟨_, parseAlertPayload_eq alert now, ⟨rfl, rfl, rfl, rfl, rfl, rfl⟩, rfl⟩
  · intro h
    -- read at two times, it has two times
    have htime : ∀ now : Int64, now.toInt = alert.created_at := by
      intro now
      obtain ⟨event, hevent, -, htime⟩ := h now
      rw [parseAlertPayload_eq] at hevent
      obtain rfl := Option.some.inj hevent
      exact htime
    have heq : (0 : Int64).toInt = (1 : Int64).toInt := (htime 0).trans (htime 1).symm
    exact absurd heq (by decide)

/-- The text of the score 5 is that of a number. -/
theorem readable_five (depth : ℕ) :
    (Json.float "5.0").Readable JsonText.memberCodec.float depth := by
  have hread : JsonText.memberCodec.ofText "5.0" = some (.float "5.0") := rfl
  cases JsonText.memberCodec.readable hread with
  | float read => exact .float read

/-- The texts of an alert with score 5, made at the epoch. -/
def AlertText.epoch : AlertText JsonText.memberCodec where
  score _ := .float "5.0"
  score_readable _ := readable_five 126
  rfc3339 _ := "1970-01-01T00:00:00Z"

/-- An alert. -/
def epochAlert : Alert :=
  ⟨⟨1⟩, ⟨7⟩, "h-1", .High, .YaraX, some "T1059", none, "Reverse shell", none, 5, "open", 0⟩

/-- **An alert of the epoch is shown as of the time it was read.** -/
theorem not_codecAgrees_epochAlert : ¬CodecAgrees .standard .epoch epochAlert := by
  intro h
  obtain ⟨event, hevent, -, htime⟩ := h 1
  rw [parseAlertPayload_eq] at hevent
  obtain rfl := Option.some.inj hevent
  have hone : (1 : Int64).toInt = 0 := htime
  exact absurd hone (by decide)

end AigisZero.Backend
