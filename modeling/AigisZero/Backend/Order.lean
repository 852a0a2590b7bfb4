import AigisZero.Backend.EventLog

/-!
# Does the event log depend on the order of consumption?

Every event is consumed twice, as it came to the raw topic and as the
router forwarded it, and the two copies differ in their `event_type` where
the agent's word for it is not the router's. The row that is inserted
first stays, and a row that finds the channel full is dropped. So the log
is the same for all orders exactly where no two copies of an identifier
differ and none can be crowded out by the others.
-/

namespace AigisZero.Backend

open Router
open RuleEngine (TelemetryEvent typedCategories)

/-- **An event that is consumed twice**: a message of the raw topic that
reads as a telemetry event under a UUID, and that the router forwards to a
typed topic. -/
structure LogEvent (text : UuidText) (codec : ExactCodec) where
  msg : RawMessage
  event : TelemetryEvent
  id : Uuid
  fields : List (String × Json)
  target_topic : String
  topic : msg.topic = "aigis.events.raw"
  read : TelemetryEvent.fromSlice text codec.toJsonCodec msg.payload = some event
  uuid : text.parse event.id = .ok id
  classified : Classified codec.toJsonCodec msg.payload fields target_topic

namespace LogEvent

variable {text : UuidText} {codec : ExactCodec} (e : LogEvent text codec)

/-- The copy on the raw topic. -/
def rawCopy : TopicMessage := ⟨e.msg.topic, e.msg.payload⟩

/-- The copy the router forwards. -/
def typedCopy : TopicMessage :=
  let record := (routed codec.toJsonCodec e.msg .new).1
  ⟨record.topic, record.payload⟩

/-- The category the router gives the event. -/
def category : String := normalized_category e.target_topic e.event.event_type

/-- The row of a copy, given its type. -/
def row (event_type : String) : NewEventLogEntity where
  event_id := e.id
  node_id := e.event.node_id
  event_type := event_type
  hostname := if e.event.hostname = "" then "unknown" else e.event.hostname
  payload := e.event.payload
  raw_sequence_id :=
    let json := Json.obj e.fields
    (((json.get? "raw_sequence_id").or (json.get? "sequence_id")).or
      ((json.get? "payload").bind (·.get? "sequence_id"))).bind Json.asStr?
  recorded_at := e.event.timestamp_ns.toInt

/-- The rows of the two copies. -/
def rawRow : NewEventLogEntity := e.row e.event.event_type

/-- The row of the copy the router forwards. -/
def typedRow : NewEventLogEntity := e.row e.category

end LogEvent

section Rows

variable {text : UuidText} {codec : ExactCodec} {e : LogEvent text codec}

theorem describes : e.event.Describes text (.obj e.fields) := by
  have hread := e.read
  rw [TelemetryEvent.fromSlice, e.classified.1, Option.bind_some] at hread
  exact TelemetryEvent.ofJson_eq_some hread

/-- **What is read from a copy**: whatever is drawn, the row of its type. -/
theorem logEntity_eq {json : Json} {event_type : String}
    (htype : json.get? "event_type" = some (.str event_type))
    (hsame : ∀ k, k ≠ "event_type" → json.get? k = (Json.obj e.fields).get? k) (draw : Draw) :
    logEntity text json draw = some (e.row event_type) := by
  have hdescribes := describes (e := e)
  obtain ⟨node, hnode, hparse⟩ := hdescribes.node_id
  obtain ⟨time, htime, hi64⟩ := Option.bind_eq_some_iff.1 hdescribes.timestamp_ns
  have huuid : (text.parse e.event.id).toOption = some e.id := by rw [e.uuid]; rfl
  have hhostname : ((some e.event.hostname).filter (· ≠ "")).getD "unknown" =
      if e.event.hostname = "" then "unknown" else e.event.hostname := by
    by_cases h : e.event.hostname = ""
    · simp [h, Option.filter]
    · simp [h, Option.filter]
  unfold logEntity LogEvent.row
  simp only [htype, hsame "node_id" (by decide), hsame "hostname" (by decide),
    hsame "payload" (by decide), hsame "timestamp_ns" (by decide), hsame "id" (by decide),
    hsame "raw_sequence_id" (by decide), hsame "sequence_id" (by decide), hnode,
    hdescribes.hostname, hdescribes.payload, htime, hdescribes.id, Option.some_or, Option.bind_some,
    Json.asStr?_str, hparse, hi64, huuid, hhostname, Option.bind_eq_bind, Option.map_some,
    Option.getD_some, Option.pure_def]

theorem topic_of_starts {topic : String} (h : topic ∈ "aigis.events.raw" :: typedTopics) :
    starts_with topic "aigis.events" = true := by
  revert topic
  decide

/-- **The raw copy keeps the type the agent gave.** -/
theorem parse_rawCopy (e : LogEvent text codec) (draw : Draw) :
    parse_log_entity text codec.toJsonCodec e.rawCopy draw = some e.rawRow := by
  have htopic : starts_with e.rawCopy.topic "aigis.events" = true :=
    topic_of_starts (e.topic ▸ List.mem_cons_self)
  rw [parse_log_entity, if_pos htopic]
  show (codec.fromSlice e.msg.payload).bind _ = _
  rw [e.classified.1, Option.bind_some]
  exact logEntity_eq describes.event_type (fun _ _ => rfl) draw

/-- **The forwarded copy has its category for a type.** -/
theorem parse_typedCopy (e : LogEvent text codec) (draw : Draw) :
    parse_log_entity text codec.toJsonCodec e.typedCopy draw = some e.typedRow := by
  obtain ⟨htopic, -, category, hforwarded⟩ := routed_of_classified .new e.classified
  obtain ⟨-, name, -, hroute⟩ := e.classified
  have hmem := route_topic_mem hroute
  obtain rfl : category = e.category := by
    refine (String.append_right_inj "aigis.events.").1 ?_
    rw [← hforwarded.topic, htopic]
    exact typedTopic_eq hmem _
  have hstarts : starts_with e.typedCopy.topic "aigis.events" = true := by
    refine topic_of_starts (List.mem_cons_of_mem _ ?_)
    show (routed codec.toJsonCodec e.msg .new).1.topic ∈ typedTopics
    rw [htopic]
    exact hmem
  rw [parse_log_entity, if_pos hstarts]
  show (codec.fromSlice (routed codec.toJsonCodec e.msg .new).1.payload).bind _ = _
  rw [hforwarded.read, Option.bind_some]
  refine logEntity_eq ?_ (fun k hk => ?_) draw
  · rw [Json.get?_obj, Fields.lookup_insert, if_pos rfl]
  · rw [Json.get?_obj, Fields.lookup_insert, if_neg (Ne.symm hk), Json.get?_obj]

end Rows

/-! ## Every order and every batching -/

section Orders

variable (text : UuidText) (codec : ExactCodec) (events : List (LogEvent text codec))

/-- Both copies of every event. -/
def copies : List TopicMessage := events.flatMap fun e => [e.rawCopy, e.typedCopy]

/-- The messages a run reads, in their order. -/
def reads (l : List LogAction) : List TopicMessage :=
  l.filterMap fun a =>
    match a with
    | .receive msg _ => some msg
    | _ => none

/-- **A run over the events**: it reads each copy of each of them, in some
order, every insert succeeds, and in the end nothing is on its way. -/
structure Consumes (l : List LogAction) (t : LogPipeline) : Prop where
  run : (LogPipeline.machine text codec.toJsonCodec).run .init l = some t
  order : (reads l).Perm (copies text codec events)
  inserts : (LogPipeline.machine text codec.toJsonCodec).EveryStep LogPipeline.Inserts .init l
  channel : t.channel = []
  batch : t.batch = []

variable {text codec events} {l : List LogAction} {t : LogPipeline}

/-- Each copy is read as the row of its event, under one type or the
other. -/
theorem row_of_copy {msg : TopicMessage} (h : msg ∈ copies text codec events) :
    ∃ e ∈ events, ∃ r, (r = e.rawRow ∨ r = e.typedRow) ∧
      ∀ draw, parse_log_entity text codec.toJsonCodec msg draw = some r := by
  obtain ⟨e, he, hmsg⟩ := List.mem_flatMap.1 h
  rcases List.mem_pair.1 hmsg with rfl | rfl
  · exact ⟨e, he, _, .inl rfl, parse_rawCopy e⟩
  · exact ⟨e, he, _, .inr rfl, parse_typedCopy e⟩

variable (text codec events) in
/-- The rows of the copies. -/
def rows : List NewEventLogEntity := events.flatMap fun e => [e.rawRow, e.typedRow]

variable (text codec) in
/-- The row a message is read as, which nothing drawn has a part in. -/
def rowOf (msg : TopicMessage) : Option NewEventLogEntity :=
  parse_log_entity text codec.toJsonCodec msg ⟨0, ⟨0⟩⟩

theorem filterMap_copies (events : List (LogEvent text codec)) :
    (copies text codec events).filterMap (rowOf text codec) = rows text codec events := by
  induction events with
  | nil => rfl
  | cons e events ih =>
    have hcopies : copies text codec (e :: events) =
        e.rawCopy :: e.typedCopy :: copies text codec events := rfl
    have hraw : rowOf text codec e.rawCopy = some e.rawRow := parse_rawCopy e _
    have htyped : rowOf text codec e.typedCopy = some e.typedRow := parse_typedCopy e _
    rw [hcopies, List.filterMap_cons_some hraw, List.filterMap_cons_some htyped, ih]
    rfl

/-- What a run over copies brings are their rows, in its order. -/
theorem flatMap_brought (h : ∀ msg ∈ reads l, msg ∈ copies text codec events) :
    l.flatMap (LogPipeline.brought text codec.toJsonCodec) =
      (reads l).filterMap (rowOf text codec) := by
  induction l with
  | nil => rfl
  | cons a l ih =>
    rw [List.flatMap_cons]
    cases a with
    | receive msg draw =>
      have hreads : reads (.receive msg draw :: l) = msg :: reads l := rfl
      rw [hreads] at h ⊢
      obtain ⟨e, -, r, -, hparse⟩ := row_of_copy (h msg List.mem_cons_self)
      have hrow : rowOf text codec msg = some r := hparse _
      rw [ih fun msg' hmsg' => h msg' (List.mem_cons_of_mem _ hmsg'),
        List.filterMap_cons_some hrow, LogPipeline.brought, hparse draw]
      rfl
    | take inserted => exact ih h
    | tick inserted => exact ih h

/-- **What a run brings** are the rows of all copies. -/
theorem Consumes.perm (h : Consumes text codec events l t) :
    (l.flatMap (LogPipeline.brought text codec.toJsonCodec)).Perm (rows text codec events) := by
  rw [flatMap_brought fun msg hmsg => h.order.mem_iff.1 hmsg]
  exact filterMap_copies events ▸ h.order.filterMap _

end Orders

end AigisZero.Backend
