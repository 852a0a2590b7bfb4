import AigisZero.EndToEnd
import AigisZero.Router.Order
import AigisZero.RuleEngine.Provenance

/-!
# From an alert back to a query result

What the rule engine stores was raised for an event of a typed topic, and
there is nothing on a typed topic but what the router forwarded. So behind
every alert stands a message of the raw topic; and where ingest published
that message for a result of a node, the alert is of that node and that
result, and a rule for the category of its query matched what osquery
answered. No run of the two, with whatever crashes, tells otherwise.
-/

namespace AigisZero

open Agent Fleet Router RuleEngine

/-- **The typed topics hold what the worker forwarded to them**, and nothing
else. -/
def HoldsForwarded (typed : TypedLog) (w : WorkerState) : Prop :=
  ∀ source, ∀ message ∈ typed source, source.topic ∈ typedTopics ∧
    ∃ x ∈ w.acknowledged, x.2.topic = source.topic ∧ message = some x.2.payload

/-- What ingest publishes of a result. -/
def publishedPayload (text : UuidText) (codec : JsonCodec) (passage : Passage)
    (result : OsqueryResult) : Bytes :=
  (published text codec passage.agents_topic (ingested text codec passage result)
    passage.envelope).payload

/-- **An alert of a result**: it names the node and the event, and is built
of the result and a rule for the category of its query that matched the
values osquery answered. -/
structure DetectedIn (reader : EventReader) (yara : YaraX) (current : EngineRegistry)
    (draw : ℕ → AlertDraw) (passage : Passage) (result : OsqueryResult) (node : Uuid)
    (alert : Alert) : Prop where
  node_id : alert.node_id = node
  triggering_event_id : alert.triggering_event_id = some (reader.text.print passage.sequence)
  matched : ∃ topic rules matched i rule, route_topic result.query_name = some topic ∧
    current.rule_sets (normalized_category topic result.query_name) = some rules ∧
    yara.scan rules (scanPayload result.toJson) = .ok matched ∧ matched[i]? = some rule ∧
    rule ∈ rules.rules ∧
    alert = build_alert (telemetryOf reader.text passage result node topic) rule current.mitre
      (draw i)

variable {reader : EventReader} {yara : YaraX} {current : EngineRegistry} {draw : ℕ → AlertDraw}
  {passage : Passage} {result : OsqueryResult} {node : Uuid} {topic : String} {alert : Alert}
  {event : TelemetryEvent} {entry : LogEntry} {partition offset : ℕ}

/-- An alert is built under the identifier of its event. -/
theorem triggering_event_id_build_alert (event : TelemetryEvent) (rule : Rule)
    (mitre : MitreTaxonomy) (draw : AlertDraw) :
    (build_alert event rule mitre draw).triggering_event_id = some event.id := by
  unfold build_alert
  cases htech : rule.meta.technique_id with
  | none => simp [htech]
  | some tech_id =>
    cases hknown : mitre.techniques tech_id <;> simp [htech, hknown, MitreTaxonomy.enrich_alert]

/-- What ingest published of a result is read back as its envelope. -/
theorem fromSlice_published
    (hentry : entry.payload = publishedPayload reader.text reader.codec passage result) :
    reader.codec.fromSlice (messageAt partition offset entry).payload =
      some (telemetryEnvelope reader.text reader.codec
        (ingested reader.text reader.codec passage result) passage.envelope) := by
  show reader.codec.fromSlice entry.payload = _
  rw [hentry]
  exact reader.codec.fromSlice_toVec
    (canonical_telemetryEnvelope payloadVal_ingested (result.canonical_toJson.mono (by omega)))

/-- A result of a query that the router knows is forwarded. -/
theorem recordOf_of_route
    (hentry : entry.payload = publishedPayload reader.text reader.codec passage result)
    (hroute : route_topic result.query_name = some topic) :
    recordOf reader.codec partition offset entry =
      { forwarded reader.text reader.codec passage result topic with
        key := entry.key.getD [] } := by
  have hread : reader.codec.fromSlice (messageAt partition offset entry).payload = some _ :=
    fromSlice_published hentry
  have htype : eventType (telemetryEnvelope reader.text reader.codec
      (ingested reader.text reader.codec passage result) passage.envelope) = result.query_name :=
    eventType_ingested _
  obtain ⟨hrecord, -⟩ := process_of_route .new hread (htype.symm ▸ hroute)
  rw [htype] at hrecord
  exact hrecord

/-- A result of another query goes to the dead letters. -/
theorem topic_recordOf_of_none
    (hentry : entry.payload = publishedPayload reader.text reader.codec passage result)
    (hroute : route_topic result.query_name = none) :
    (recordOf reader.codec partition offset entry).topic = dlq := by
  unfold recordOf routed
  simp only [fromSlice_published hentry, eventType_ingested, hroute, Option.getD_none, if_true]
  rfl

/-- **What the router forwards of a result to a typed topic is read as its
event.** -/
theorem fromSlice_recordOf
    (hentry : entry.payload = publishedPayload reader.text reader.codec passage result)
    (huuid : reader.text.parse result.agent_uuid = .ok node)
    (htyped : (recordOf reader.codec partition offset entry).topic ∈ typedTopics) :
    ∃ topic, route_topic result.query_name = some topic ∧
      TelemetryEvent.fromSlice reader.text reader.codec
          (recordOf reader.codec partition offset entry).payload =
        some (telemetryOf reader.text passage result node topic) := by
  cases hroute : route_topic result.query_name with
  | none => exact absurd (topic_recordOf_of_none hentry hroute) (ne_dlq_of_mem htyped)
  | some topic =>
    have henvelope : (telemetryEnvelope reader.text reader.codec
        (ingested reader.text reader.codec passage result) passage.envelope).Canonical 127 :=
      canonical_telemetryEnvelope payloadVal_ingested (result.canonical_toJson.mono (by omega))
    have hread : reader.codec.fromSlice
        (forwarded reader.text reader.codec passage result topic).payload = some _ :=
      reader.codec.fromSlice_toVec (Json.canonical_insert henvelope .str)
    refine ⟨topic, rfl, ?_⟩
    rw [recordOf_of_route hentry hroute, TelemetryEvent.fromSlice]
    dsimp only
    rw [hread, Option.bind_some, ofJson_ingested huuid]

/-- An alert that was raised for the event of a result is an alert of the
result. -/
theorem detectedIn_of_raisedFor (hroute : route_topic result.query_name = some topic)
    (h : RaisedFor reader.codec yara current draw
      (telemetryOf reader.text passage result node topic) alert) :
    DetectedIn reader yara current draw passage result node alert := by
  obtain ⟨rules, matched, i, rule, hrules, hscan, hrule, hmem, rfl⟩ := h
  have hcategory : category (telemetryOf reader.text passage result node topic) =
      normalized_category topic result.query_name :=
    category_of_mem (normalized_category_mem (route_topic_mem hroute) result.query_name)
  have hlines : scanPayload (telemetryOf reader.text passage result node topic).payload ≠ [] :=
    scanPayload_toJson_ne_nil result
  rw [hcategory] at hrules
  rw [extract_of_ne_nil hlines] at hscan
  exact
    { node_id := build_alert_node_id ..
      triggering_event_id := triggering_event_id_build_alert ..
      matched := ⟨topic, rules, matched, i, rule, hroute, hrules, hscan, hrule, hmem, rfl⟩ }

/-- **Every alert is traced to the raw topic**, over any run of the router's
worker and any run of the rule engine that reads what it forwarded, with
whatever crashes: an alert that is stored was raised for the event that the
router forwarded of one message; and if that is what ingest published of a
result of a node, the alert is an alert of the result, whose query the
router knows. -/
theorem alert_traced {hash : Uuid → ℕ} {config : EngineConfig} {raw : RawLog} {typed : TypedLog}
    {dedup : ShardedDeduplicator} {w : WorkerState} {t : Engine} {l : List WorkerAction}
    {l' : List (Machine.OrCrash EngineAction)}
    (hworker : (worker reader.codec raw).run .init l = some w) (hholds : HoldsForwarded typed w)
    (hengine : (Engine.machine reader yara hash config typed dedup).run (Engine.init dedup) l' =
      some t)
    (halert : alert ∈ t.core.stored.map Checked.alert) :
    ∃ partition offset entry event current draw, (raw partition)[offset]? = some entry ∧
      TelemetryEvent.fromSlice reader.text reader.codec
        (recordOf reader.codec partition offset entry).payload = some event ∧
      .act (.pipeline (.receive current draw)) ∈ l' ∧
      RaisedFor reader.codec yara current draw event alert ∧
      ∀ passage result node,
        entry.payload = publishedPayload reader.text reader.codec passage result →
        reader.text.parse result.agent_uuid = .ok node →
        DetectedIn reader yara current draw passage result node alert := by
  have hraised := (Engine.stored_sublist hengine).subset halert
  obtain ⟨delivery, current, draw, ⟨message, hmessage, hread⟩, hscan, hfor⟩ :=
    Engine.reason_of_gathered hengine hraised
  obtain ⟨htopic, x, hx, hsource, rfl⟩ :=
    hholds delivery.id.source message (List.mem_of_getElem? hmessage)
  have hforwards : Forwards reader.codec raw w :=
    Machine.run_preserves (fun _ _ _ => forwards_step) hworker fun x hx =>
      absurd hx List.not_mem_nil
  obtain ⟨entry, hentry, hrecord⟩ := hforwards x hx
  rw [Option.getD_some, hrecord] at hread
  refine ⟨x.1.1, x.1.2, entry, delivery.event, current, draw, hentry, hread, hscan, hfor, ?_⟩
  intro passage result node hpayload huuid
  have htyped : (recordOf reader.codec x.1.1 x.1.2 entry).topic ∈ typedTopics := by
    rw [← hrecord, hsource]
    exact htopic
  obtain ⟨topic, hroute, hevent⟩ := fromSlice_recordOf hpayload huuid htyped
  rw [Option.some.inj (hread.symm.trans hevent)] at hfor
  exact detectedIn_of_raisedFor hroute hfor

/-- How the result below travels. -/
def firstPassage : Passage := ⟨⟨1⟩, ⟨2⟩, "aigis.events.raw", 0, 0, .new⟩

/-- A process that one node runs. -/
def shellRunning : OsqueryResult :=
  ⟨"processes", "00000000-0000-0000-0000-00000000002a", 5,
    [⟨[⟨"cmdline", "bash -i"⟩]⟩], .Added⟩

/-- Its message, as ingest published it. -/
def shellEntry : LogEntry :=
  ⟨none, publishedPayload Engine.jsonReader.text Engine.jsonReader.codec firstPassage shellRunning⟩

/-- The raw topic with that message. -/
def shellRaw : RawLog := fun partition => if partition = 0 then [shellEntry] else []

/-- The typed topics with what is forwarded of it. -/
def shellTyped : TypedLog :=
  Engine.oneMessage (recordOf Engine.jsonReader.codec 0 0 shellEntry).payload

theorem payload_shellEntry : shellEntry.payload =
    publishedPayload Engine.jsonReader.text Engine.jsonReader.codec firstPassage shellRunning := by
  simp only [shellEntry]

theorem route_shellRunning :
    route_topic shellRunning.query_name = some "aigis.events.process" := rfl

theorem topic_shellEntry :
    (recordOf Engine.jsonReader.codec 0 0 shellEntry).topic = "aigis.events.process" := by
  rw [recordOf_of_route payload_shellEntry route_shellRunning, forwarded]

/-- What is forwarded is read as the event of the result. -/
theorem fromSlice_shellEntry : TelemetryEvent.fromSlice Engine.jsonReader.text
    Engine.jsonReader.codec (recordOf Engine.jsonReader.codec 0 0 shellEntry).payload =
      some (telemetryOf Engine.jsonReader.text firstPassage shellRunning ⟨42⟩
        "aigis.events.process") := by
  have huuid : Engine.jsonReader.text.parse shellRunning.agent_uuid = .ok ⟨42⟩ := by decide
  have htyped : (recordOf Engine.jsonReader.codec 0 0 shellEntry).topic ∈ typedTopics := by
    rw [topic_shellEntry]
    decide
  obtain ⟨topic, hroute, hevent⟩ := fromSlice_recordOf payload_shellEntry huuid htyped
  rw [route_shellRunning] at hroute
  obtain rfl := Option.some.inj hroute
  exact hevent

/-- A worker that waits takes the next message, and one that is sent is
acknowledged. -/
theorem exists_receive {codec : JsonCodec} {raw : RawLog} {s : WorkerState}
    (hrunning : s.running = true) (hphase : s.phase = .idle)
    (hentry : (raw partition)[s.position partition]? = some entry) :
    ∃ t, (worker codec raw).run s [.receive partition (.ok ())] = some t ∧
      t.acknowledged = s.acknowledged ++ [((partition, s.position partition),
        recordOf codec partition (s.position partition) entry)] := by
  obtain ⟨t, ht⟩ : ∃ t, s.receive codec raw partition (.ok ()) = some t := by
    simp only [WorkerState.receive, hrunning, hphase, hentry]
    exact ⟨_, rfl⟩
  refine ⟨t, Machine.run_cons_eq_some.2 ⟨t, ht, rfl⟩, ?_⟩
  obtain ⟨-, -, entry', _, _, hentry', rfl⟩ := receive_eq_some ht
  obtain rfl := Option.some.inj (hentry.symm.trans hentry')
  rfl

/-- The worker forwards the message. -/
theorem holdsForwarded_shellTyped : ∃ w,
    (worker Engine.jsonReader.codec shellRaw).run .init [.receive 0 (.ok ())] = some w ∧
      HoldsForwarded shellTyped w := by
  have hentry : (shellRaw 0)[WorkerState.init.position 0]? = some shellEntry := rfl
  obtain ⟨w, hworker, hacknowledged⟩ : ∃ w,
      (worker Engine.jsonReader.codec shellRaw).run .init [.receive 0 (.ok ())] = some w ∧
        w.acknowledged = [] ++ [((0, 0), recordOf Engine.jsonReader.codec 0 0 shellEntry)] :=
    exists_receive rfl rfl hentry
  have hmem : ((0, 0), recordOf Engine.jsonReader.codec 0 0 shellEntry) ∈ w.acknowledged := by
    rw [hacknowledged]
    exact List.mem_append_right _ (List.mem_singleton_self _)
  refine ⟨w, hworker, fun source message hmessage => ?_⟩
  unfold shellTyped Engine.oneMessage at hmessage
  split at hmessage
  · next hsource =>
    obtain rfl := hsource
    exact ⟨by decide, _, hmem, topic_shellEntry, List.mem_singleton.1 hmessage⟩
  · exact absurd hmessage List.not_mem_nil

/-- An engine reads the one message of a log. -/
theorem poll_oneMessage {payload : Bytes} {event : TelemetryEvent} (hne : payload ≠ [])
    (hevent : TelemetryEvent.fromSlice Engine.jsonReader.text Engine.jsonReader.codec payload =
      some event) :
    (Engine.init Pipeline.smallDedup).poll Engine.jsonReader (Engine.oneMessage payload)
      Engine.processTopic = some
        { Engine.init Pipeline.smallDedup with
          position := Function.update (fun _ => 0) Engine.processTopic 1
          consumer := .sending ⟨⟨Engine.processTopic, 0⟩, event⟩ } :=
  Engine.poll_of_fromSlice rfl (show _ = some (some payload) from rfl) hne hevent

/-- The engine that has the event in hand. -/
def shellInHand : Engine :=
  { Engine.init Pipeline.smallDedup with
    position := Function.update (fun _ => 0) Engine.processTopic 1
    consumer := .sending ⟨⟨Engine.processTopic, 0⟩,
      telemetryOf Engine.jsonReader.text firstPassage shellRunning ⟨42⟩ "aigis.events.process"⟩ }

/-- It stores one alert. -/
theorem stored_shellTyped : ∃ t alert,
    (Engine.machine Engine.jsonReader allMatch (fun u => u.bits.toNat) Engine.smallConfig
      shellTyped Pipeline.smallDedup).run (Engine.init Pipeline.smallDedup)
        Engine.untilStored = some t ∧ t.core.stored.map Checked.alert = [alert] := by
  have hne : (recordOf Engine.jsonReader.codec 0 0 shellEntry).payload ≠ [] := by
    intro hnil
    have hread := fromSlice_shellEntry
    rw [hnil] at hread
    cases hread
  have hpoll : (Engine.init Pipeline.smallDedup).poll Engine.jsonReader shellTyped
      Engine.processTopic = some shellInHand :=
    poll_oneMessage hne fromSlice_shellEntry
  have hrest : ((Engine.machine Engine.jsonReader allMatch (fun u => u.bits.toNat)
      Engine.smallConfig shellTyped Pipeline.smallDedup).run shellInHand
        Engine.untilStored.tail).map (fun t => (t.core.stored.map Checked.alert).length) =
          some 1 := by
    decide +kernel
  obtain ⟨t, hrun, hlength⟩ := Option.map_eq_some_iff.1 hrest
  obtain ⟨alert, hstored⟩ := List.length_eq_one_iff.1 hlength
  exact ⟨t, alert,
    Machine.run_cons_eq_some.2 ⟨shellInHand, Engine.machine_poll.trans hpoll, hrun⟩, hstored⟩

/-- The alert of a shell is traced to the node that runs it. -/
theorem alert_traced_shellRunning : ∃ t alert current draw,
    (Engine.machine Engine.jsonReader allMatch (fun u => u.bits.toNat) Engine.smallConfig
      shellTyped Pipeline.smallDedup).run (Engine.init Pipeline.smallDedup)
        Engine.untilStored = some t ∧ t.core.stored.map Checked.alert = [alert] ∧
      DetectedIn Engine.jsonReader allMatch current draw firstPassage shellRunning ⟨42⟩ alert := by
  obtain ⟨w, hworker, hholds⟩ := holdsForwarded_shellTyped
  obtain ⟨t, alert, hengine, hstored⟩ := stored_shellTyped
  obtain ⟨partition, offset, entry, _, current, draw, hentry, -, -, -, htraced⟩ :=
    alert_traced hworker hholds hengine (hstored ▸ List.mem_singleton_self alert)
  -- there is no other message
  obtain rfl : entry = shellEntry := by
    unfold shellRaw at hentry
    split at hentry
    · exact List.mem_singleton.1 (List.mem_of_getElem? hentry)
    · cases hentry
  exact ⟨t, alert, current, draw, hengine, hstored,
    htraced firstPassage shellRunning ⟨42⟩ payload_shellEntry (by decide)⟩

end AigisZero
