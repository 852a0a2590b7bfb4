import AigisZero.Backend.LiveEvent
import AigisZero.Fleet.Ingest
import AigisZero.Library.Candidates

/-!
# The fields of a log

Each field of a telemetry message is looked for in several places in turn,
once for the row of the log and once for the live event. The first place
that holds anything is taken, and only then is it asked whether what it
holds can be used. So the row and the live event agree, and a place that
holds nothing of use hides those after it.
-/

namespace AigisZero.Backend

/-! ## Where the fields are looked for -/

/-- A member of the payload of a message. -/
def inPayload (json : Json) (k : String) : Option Json :=
  (json.get? "payload").bind (·.get? k)

/-- The places of the node. -/
def nodeIds (json : Json) : List (Option Json) :=
  [json.get? "node_id", json.get? "agent_uuid", inPayload json "agent_uuid",
    inPayload json "node_id"]

/-- The places of the kind of event. -/
def eventTypes (json : Json) : List (Option Json) :=
  [json.get? "event_type", json.get? "query_name", inPayload json "query_name",
    inPayload json "event_type"]

/-- The places of the host. -/
def hostnames (json : Json) : List (Option Json) :=
  [json.get? "hostname", inPayload json "hostname"]

/-- The places of the sequence number. -/
def sequenceIds (json : Json) : List (Option Json) :=
  [json.get? "raw_sequence_id", json.get? "sequence_id", inPayload json "sequence_id"]

/-- The places of the time. -/
def timestamps (json : Json) : List (Option Json) :=
  [json.get? "timestamp_ns", inPayload json "timestamp_ns"]

/-- The places of the identifier. -/
def eventIds (json : Json) : List (Option Json) := [json.get? "id", json.get? "event_id"]

/-- A text that is an identifier. -/
def asUuid (text : UuidText) (j : Json) : Option Uuid :=
  j.asStr?.bind fun s => (text.parse s).toOption

/-- A text that is not empty. -/
def asNonEmpty (j : Json) : Option String := j.asStr?.filter (· ≠ "")

variable (text : UuidText)

/-- The row of a message, each field read by a function of its places. -/
def entityBy (read : {α : Type} → (Json → Option α) → List (Option Json) → Option α) (json : Json)
    (draw : Draw) : Option NewEventLogEntity :=
  (read (asUuid text) (nodeIds json)).map fun node_id =>
    { event_id := (read (asUuid text) (eventIds json)).getD draw.event_id
      node_id := node_id
      event_type := (read Json.asStr? (eventTypes json)).getD "unknown"
      hostname := (read asNonEmpty (hostnames json)).getD "unknown"
      payload := (json.get? "payload").getD json
      raw_sequence_id := read Json.asStr? (sequenceIds json)
      recorded_at := ((read Json.asI64? (timestamps json)).map Int64.toInt).getD draw.now }

/-- What the first candidate is used as, if it can be used. -/
def readFirst {α : Type} (usable : Json → Option α) (candidates : List (Option Json)) : Option α :=
  (firstPresent candidates).bind usable

/-- The places in turn, as the consumer goes through them. -/
theorem firstPresent_outer_inner (json : Json) (a b : Option Json) (k k' : String) :
    (a.or b).or ((json.get? "payload").bind fun p => (p.get? k).or (p.get? k')) =
      firstPresent [a, b, inPayload json k, inPayload json k'] := by
  simp only [firstPresent_cons, inPayload, Option.or_assoc]
  cases json.get? "payload" with
  | none => rfl
  | some p =>
    simp only [Option.bind_some]
    cases p.get? k <;> cases p.get? k' <;> rfl

theorem firstPresent_pair (a b : Option Json) : a.or b = firstPresent [a, b] := by
  simp only [firstPresent_cons]
  cases b <;> rfl

theorem firstPresent_triple (a b c : Option Json) : (a.or b).or c = firstPresent [a, b, c] := by
  simp only [firstPresent_cons, Option.or_assoc]
  cases c <;> rfl

theorem readFirst_asUuid (candidates : List (Option Json)) : readFirst (asUuid text) candidates =
    (readFirst Json.asStr? candidates).bind fun s => (text.parse s).toOption :=
  (Option.bind_assoc ..).symm

theorem readFirst_asNonEmpty (candidates : List (Option Json)) :
    readFirst asNonEmpty candidates =
      ((firstPresent candidates).bind Json.asStr?).filter (· ≠ "") := by
  rw [readFirst]
  cases firstPresent candidates <;> rfl

/-- **The row of a message takes what is first there.** -/
theorem logEntity_eq_firstPresent (json : Json) (draw : Draw) :
    logEntity text json draw = entityBy text readFirst json draw := by
  simp only [entityBy, readFirst_asUuid, readFirst_asNonEmpty, logEntity]
  -- the longest chains first
  simp only [firstPresent_outer_inner]
  simp only [firstPresent_triple]
  simp only [firstPresent_pair]
  show ((firstPresent (nodeIds json)).bind Json.asStr?).bind _ = Option.map _
    (((firstPresent (nodeIds json)).bind Json.asStr?).bind _)
  cases (firstPresent (nodeIds json)).bind Json.asStr? with
  | none => rfl
  | some s =>
    simp only [Option.bind_some]
    cases (text.parse s).toOption with
    | none => rfl
    | some node_id => rfl

/-- The live event of a message takes the same. -/
theorem parseLog_eq (json : Json) (now : Int64) : parseLog json now =
    .log ((readFirst Json.asStr? (nodeIds json)).getD "unknown")
      ((readFirst asNonEmpty (hostnames json)).getD "unknown")
      ((readFirst Json.asStr? (eventTypes json)).getD "unknown")
      ((json.get? "payload").getD json) ((readFirst Json.asI64? (timestamps json)).getD now) := by
  rw [readFirst_asNonEmpty, parseLog, nodeIdOf, hostnameOf, timestampOf]
  simp only [firstPresent_outer_inner]
  simp only [firstPresent_pair]
  rfl

variable {text} {codec : JsonCodec} {msg : TopicMessage} {json : Json}

/-- The row of a telemetry message. -/
theorem parse_log_entity_eq (htopic : starts_with msg.topic "aigis.events")
    (hjson : codec.fromSlice msg.payload = some json) (draw : Draw) :
    parse_log_entity text codec msg draw = entityBy text readFirst json draw := by
  rw [parse_log_entity, if_pos htopic, hjson, Option.bind_some, logEntity_eq_firstPresent]

/-! ## The row and the live event -/

/-- A telemetry message that is no live event itself is read as a log. -/
theorem parse_kafka_message_eq
    (hdirect : LiveEvent.fromSlice codec msg.payload = none)
    (htopic : starts_with msg.topic "aigis.events") (now : Int64) :
    parse_kafka_message codec msg now =
      (codec.fromSlice msg.payload).map fun json => parseLog json now := by
  rw [parse_kafka_message, hdirect]
  simp only [if_pos htopic]
  cases codec.fromSlice msg.payload <;> rfl

variable (text) in
/-- **The row and the live event of a message agree**: there is a row exactly
when there is a log whose node is an identifier, and then both say the
same, and the same time where the message has one. -/
structure LogsAgree (codec : JsonCodec) (msg : TopicMessage) (draw : Draw) (now : Int64) :
    Prop where
  read : (∃ entity, parse_log_entity text codec msg draw = some entity) ↔
    ∃ node_id hostname event_type payload timestamp_ns,
      parse_kafka_message codec msg now =
        some (.log node_id hostname event_type payload timestamp_ns) ∧
      ∃ node, text.parse node_id = .ok node
  same : ∀ entity node_id hostname event_type payload timestamp_ns,
    parse_log_entity text codec msg draw = some entity →
    parse_kafka_message codec msg now =
      some (.log node_id hostname event_type payload timestamp_ns) →
    text.parse node_id = .ok entity.node_id ∧ hostname = entity.hostname ∧
      event_type = entity.event_type ∧ payload = entity.payload ∧
      ∀ json ts, codec.fromSlice msg.payload = some json →
        readFirst Json.asI64? (timestamps json) = some ts →
        entity.recorded_at = timestamp_ns.toInt

/-- Where there is no row, there is to be no log of an identifier. -/
theorem LogsAgree.of_none {draw : Draw} {now : Int64}
    (hrow : parse_log_entity text codec msg draw = none)
    (hlog : ∀ node_id hostname event_type payload timestamp_ns node, parse_kafka_message codec
      msg now = some (.log node_id hostname event_type payload timestamp_ns) →
        text.parse node_id ≠ .ok node) : LogsAgree text codec msg draw now where
  read := by
    refine iff_of_false ?_ ?_
    · rintro ⟨entity, h⟩
      rw [hrow] at h
      cases h
    · rintro ⟨node_id, hostname, event_type, payload, timestamp_ns, h, node, hnode⟩
      exact hlog _ _ _ _ _ node h hnode
  same entity _ _ _ _ _ h := by
    rw [hrow] at h
    cases h

/-- **The live feed and the stored log agree** on every message that is no
live event itself, as long as the stand-in for a missing node is no
identifier. -/
theorem logsAgree (hunknown : ∀ node, text.parse "unknown" ≠ .ok node)
    (hdirect : LiveEvent.fromSlice codec msg.payload = none) (draw : Draw) (now : Int64) :
    LogsAgree text codec msg draw now := by
  by_cases htopic : starts_with msg.topic "aigis.events"
  swap
  · -- of other topics there is no row, and no log
    exact .of_none (if_neg htopic) fun _ _ _ _ _ _ h =>
      absurd (parse_of_fromSlice_eq_none hdirect h) htopic
  have hlog := parse_kafka_message_eq hdirect htopic now
  cases hjson : codec.fromSlice msg.payload with
  | none =>
    rw [hjson] at hlog
    refine .of_none ?_ fun _ _ _ _ _ _ h => ?_
    · rw [parse_log_entity, if_pos htopic, hjson, Option.bind_none]
    · rw [hlog] at h
      cases h
  | some json =>
    have hrow : parse_log_entity text codec msg draw = entityBy text readFirst json draw :=
      parse_log_entity_eq htopic hjson draw
    rw [hjson, Option.map_some, parseLog_eq] at hlog
    have hnode : readFirst (asUuid text) (nodeIds json) =
        (text.parse ((readFirst Json.asStr? (nodeIds json)).getD "unknown")).toOption := by
      rw [readFirst_asUuid]
      cases readFirst Json.asStr? (nodeIds json) with
      | some s => rfl
      | none =>
        cases h : text.parse "unknown" with
        | error e => rw [Option.getD_none, h]; rfl
        | ok node => exact absurd h (hunknown node)
    cases hparse : text.parse ((readFirst Json.asStr? (nodeIds json)).getD "unknown") with
    | error e =>
      refine .of_none ?_ fun _ _ _ _ _ node h => ?_
      · rw [hrow, entityBy, hnode, hparse]
        rfl
      · rw [hlog] at h
        cases h
        rw [hparse]
        exact nofun
    | ok node =>
      rw [entityBy, hnode, hparse] at hrow
      refine ⟨iff_of_true ⟨_, hrow⟩ ⟨_, _, _, _, _, hlog, node, hparse⟩, ?_⟩
      intro entity _ _ _ _ _ hentity h
      rw [hlog] at h
      cases h
      obtain rfl := Option.some.inj (hrow.symm.trans hentity)
      refine ⟨hparse, rfl, rfl, rfl, fun json' ts hjson' hts => ?_⟩
      obtain rfl := Option.some.inj (hjson.symm.trans hjson')
      show ((readFirst Json.asI64? (timestamps json)).map Int64.toInt).getD draw.now = _
      rw [hts]
      rfl

/-! ## A message of the Fleet Server -/

/-- An event of a node, whose payload names the host. -/
def webEvent : Fleet.IncomingEvent :=
  ⟨"00000000-0000-0000-0000-000000000001", "process",
    JsonText.codec.toVec (Json.object [("hostname", .str "web-1")]), 7, "s-1"⟩

/-- The envelope the Fleet Server makes of it. -/
def webEnvelope : Json := Fleet.telemetryEnvelope .standard JsonText.codec webEvent ⟨0⟩

/-- The message it publishes. -/
def webMessage : TopicMessage := ⟨"aigis.events.raw", JsonText.codec.toVec webEnvelope⟩

theorem canonical_webPayload : (Json.object [("hostname", .str "web-1")]).Canonical 126 := by
  refine Json.canonical_object fun m hm => ?_
  obtain rfl := List.mem_singleton.1 hm
  exact .str

theorem payloadVal_webEvent : Fleet.payloadVal JsonText.codec webEvent.payload =
    Json.object [("hostname", .str "web-1")] :=
  Fleet.payloadVal_toVec (canonical_webPayload.mono (by omega))

theorem canonical_webEnvelope : webEnvelope.Canonical 127 :=
  Fleet.canonical_telemetryEnvelope payloadVal_webEvent canonical_webPayload

theorem fromSlice_webMessage : JsonText.codec.fromSlice webMessage.payload = some webEnvelope := by
  simp only [webMessage]
  rw [JsonText.codec.fromSlice_toVec canonical_webEnvelope]

/-- An object without a type is no live event. -/
theorem LiveEvent.ofJson_of_untyped {fields : List (String × Json)}
    (h : Fields.lookup "type" fields = none) : LiveEvent.ofJson (.obj fields) = none := by
  rw [LiveEvent.ofJson, h]
  rfl

theorem direct_webMessage : LiveEvent.fromSlice JsonText.codec webMessage.payload = none := by
  rw [LiveEvent.fromSlice, fromSlice_webMessage, Option.bind_some]
  have htype : webEnvelope.get? "type" = none := Fleet.telemetryEnvelope_get? webEvent ⟨0⟩ "type"
  exact LiveEvent.ofJson_of_untyped htype

theorem logsAgree_webMessage :
    LogsAgree .standard JsonText.codec webMessage ⟨0, ⟨0⟩⟩ 0 :=
  logsAgree (fun node h => by cases h) direct_webMessage _ _

/-! ## The first place that can be used -/

/-- **A message is read by what can be used**: each field is taken from the
first of its places that holds a value of use, and there is a row as soon
as one place names a node. -/
def TakesFirstUsable (text : UuidText) (codec : JsonCodec) (msg : TopicMessage) (json : Json) :
    Prop :=
  ∀ draw, parse_log_entity text codec msg draw =
    entityBy text (fun usable candidates => firstUsable usable candidates) json draw

/-- **Nothing of use is hidden**, but for what reads as the default does. -/
structure NothingHidden (text : UuidText) (json : Json) : Prop where
  node_id : ¬Hides (asUuid text) (nodeIds json)
  event_type : Hides Json.asStr? (eventTypes json) →
    firstUsable Json.asStr? (eventTypes json) = some "unknown"
  hostname : Hides asNonEmpty (hostnames json) →
    firstUsable asNonEmpty (hostnames json) = some "unknown"
  raw_sequence_id : ¬Hides Json.asStr? (sequenceIds json)
  recorded_at : ¬Hides Json.asI64? (timestamps json)
  event_id : ¬Hides (asUuid text) (eventIds json)

instance : Nontrivial Uuid := ⟨⟨⟨0⟩, ⟨1⟩, by decide⟩⟩

/-- The time of a message is the reader's only where it has none. -/
theorem forall_recorded_at_iff :
    (∀ now, ((readFirst Json.asI64? (timestamps json)).map Int64.toInt).getD now =
      ((firstUsable Json.asI64? (timestamps json)).map Int64.toInt).getD now) ↔
    ¬Hides Json.asI64? (timestamps json) := by
  rcases bind_firstPresent_cases Json.asI64? (timestamps json) with ⟨heq, hnot⟩ | ⟨hnone, hhides⟩
  · exact iff_of_true (fun now => by rw [readFirst, heq]) hnot
  · refine iff_of_false (fun h => ?_) (not_not.2 hhides)
    obtain ⟨ts, hts⟩ := Option.isSome_iff_exists.1 hhides.2
    have hsame := h (ts.toInt + 1)
    rw [readFirst, hnone, hts, Option.map_none, Option.getD_none, Option.map_some,
      Option.getD_some] at hsame
    omega

/-- **When a message is read by what can be used**: exactly when it names no
node at all, or hides nothing. -/
theorem takesFirstUsable_iff (htopic : starts_with msg.topic "aigis.events")
    (hjson : codec.fromSlice msg.payload = some json) :
    TakesFirstUsable text codec msg json ↔
      firstUsable (asUuid text) (nodeIds json) = none ∨ NothingHidden text json := by
  simp only [TakesFirstUsable, parse_log_entity_eq htopic hjson, entityBy, readFirst]
  rcases bind_firstPresent_cases (asUuid text) (nodeIds json) with ⟨heq, hnot⟩ | ⟨hnone, hhides⟩
  · rw [heq]
    cases hnode : firstUsable (asUuid text) (nodeIds json) with
    | none => exact iff_of_true (fun _ => rfl) (.inl rfl)
    | some node_id =>
      simp only [Option.map_some, Option.some.injEq, NewEventLogEntity.mk.injEq, true_and,
        reduceCtorEq, false_or]
      constructor
      · intro h
        refine ⟨hnot, ?_, ?_, ?_, ?_, ?_⟩
        · exact getD_firstPresent_eq_iff.1 (h ⟨0, ⟨0⟩⟩).2.1
        · exact getD_firstPresent_eq_iff.1 (h ⟨0, ⟨0⟩⟩).2.2.1
        · exact bind_firstPresent_eq_iff.1 (h ⟨0, ⟨0⟩⟩).2.2.2.1
        · exact forall_recorded_at_iff.1 fun now => (h ⟨now, ⟨0⟩⟩).2.2.2.2
        · exact forall_getD_firstPresent_eq_iff.1 fun drawn => (h ⟨0, drawn⟩).1
      · intro h draw
        exact ⟨forall_getD_firstPresent_eq_iff.2 h.event_id draw.event_id,
          getD_firstPresent_eq_iff.2 h.event_type, getD_firstPresent_eq_iff.2 h.hostname,
          bind_firstPresent_eq_iff.2 h.raw_sequence_id,
          forall_recorded_at_iff.2 h.recorded_at draw.now⟩
  · -- the message is rejected, though a later place names a node
    obtain ⟨node_id, hnode⟩ := Option.isSome_iff_exists.1 hhides.2
    rw [hnone, hnode]
    refine iff_of_false (fun h => ?_) ?_
    · cases h ⟨0, ⟨0⟩⟩
    · rintro (h | h)
      · cases h
      · exact h.node_id hhides

theorem takesFirstUsable_iff_webMessage : TakesFirstUsable .standard JsonText.codec webMessage
    webEnvelope ↔ firstUsable (asUuid .standard) (nodeIds webEnvelope) = none ∨
      NothingHidden .standard webEnvelope :=
  takesFirstUsable_iff rfl fromSlice_webMessage

/-- The places of the host in that message. -/
theorem hostnames_webEnvelope :
    hostnames webEnvelope = [some (.str ""), some (.str "web-1")] := by
  have houter : webEnvelope.get? "hostname" = some (.str "") :=
    Fleet.telemetryEnvelope_get? webEvent ⟨0⟩ "hostname"
  have hpayload : webEnvelope.get? "payload" =
      some (Fleet.payloadVal JsonText.codec webEvent.payload) :=
    Fleet.telemetryEnvelope_get? webEvent ⟨0⟩ "payload"
  rw [hostnames, inPayload, houter, hpayload, payloadVal_webEvent]
  rfl

/-- The first place of its node. -/
theorem node_webEnvelope : webEnvelope.get? "node_id" =
    some (.str "00000000-0000-0000-0000-000000000001") :=
  Fleet.telemetryEnvelope_get? webEvent ⟨0⟩ "node_id"

/-- **The host of every message of the Fleet Server is unknown** to the log,
though its payload names it. -/
theorem not_takesFirstUsable_webMessage :
    ¬TakesFirstUsable .standard JsonText.codec webMessage webEnvelope := by
  intro h
  have hsame := h ⟨0, ⟨0⟩⟩
  have hnode : UuidText.standard.parse "00000000-0000-0000-0000-000000000001" = .ok ⟨1⟩ := rfl
  have hfirst : firstUsable (asUuid .standard) (nodeIds webEnvelope) = some ⟨1⟩ := by
    rw [nodeIds, node_webEnvelope, firstUsable_cons, Option.bind_some, asUuid, Json.asStr?_str,
      Option.bind_some, hnode]
    rfl
  have hread : readFirst (asUuid .standard) (nodeIds webEnvelope) = some ⟨1⟩ := by
    rw [readFirst, nodeIds, node_webEnvelope, firstPresent_cons, Option.some_or, Option.bind_some,
      asUuid, Json.asStr?_str, Option.bind_some, hnode]
    rfl
  rw [parse_log_entity_eq rfl fromSlice_webMessage, entityBy, entityBy, hread, hfirst,
    Option.map_some, Option.map_some, Option.some.injEq, NewEventLogEntity.mk.injEq] at hsame
  obtain ⟨-, -, -, hhost, -⟩ := hsame
  rw [hostnames_webEnvelope] at hhost
  exact absurd hhost (by decide)

end AigisZero.Backend
