import AigisZero.Router.Normalisation

/-!
# The two tables of event types

The router has a table that gives an event its topic, and the scanner one
that gives it its rules. For an event that only says `osquery` both look
at the name of its query, the scanner in a table of its own. This file
says which events the two classify alike, read before the router and
after it.
-/

namespace AigisZero.Router

open RuleEngine (TelemetryEvent queryCategory)

/-- The queries the scanner has a category for. -/
def scannedQueries : List String :=
  ["running_processes", "processes", "listening_ports", "network", "users"]

/-- **The classifiers agree** on a message: what the router makes of it is an
event, and the scanner selects the same category for it as for the
original. -/
def ClassifiersAgree (text : UuidText) (codec : JsonCodec) (event : TelemetryEvent)
    (record : Record) : Prop :=
  ∃ event', TelemetryEvent.fromSlice text codec record.payload = some event' ∧
    ∃ category, Selects codec event category ∧ Selects codec event' category

/-- **The scanner knows the query** of an event that only says `osquery`. -/
def KnowsQuery (event : TelemetryEvent) : Prop :=
  event.event_type = "osquery" → ∃ query_name ∈ scannedQueries,
    event.payload.get? "query_name" = some (.str query_name)

variable {text : UuidText} {event : TelemetryEvent} {fields : List (String × Json)}
  {topic query_name : String}

/-! ## The tables -/

/-- On the event types the two tables agree. -/
theorem category_of_route (h : route_topic event.event_type = some topic) :
    RuleEngine.category event = normalized_category topic event.event_type := by
  unfold route_topic at h
  split at h <;> first
    | (next heq => obtain rfl := Option.some.inj h; simp only [RuleEngine.category, heq]; rfl)
    | cases h

/-- On the names of the queries they agree where the scanner has the name. -/
theorem queryCategory_eq_iff (h : route_topic query_name = some topic) :
    queryCategory query_name = normalized_category topic query_name ↔
      query_name ∈ scannedQueries := by
  unfold route_topic at h
  split at h <;> first
    | (obtain rfl := Option.some.inj h; decide)
    | cases h

/-! ## Before the router and after it -/

/-- An event under another type is read as the event under that type. -/
theorem ofJson_insert_event_type (category : String)
    (h : TelemetryEvent.ofJson text (.obj fields) = some event) :
    TelemetryEvent.ofJson text (.obj (Fields.insert "event_type" (.str category) fields)) =
      some { event with event_type := category } := by
  have hget : ∀ k, (Json.obj (Fields.insert "event_type" (.str category) fields)).get? k =
      if "event_type" = k then some (.str category) else (Json.obj fields).get? k := fun k =>
    Fields.lookup_insert
  unfold TelemetryEvent.ofJson at h ⊢
  simp only [hget, Option.bind_eq_bind, Option.bind_eq_some_iff, Option.pure_def,
    Option.some.injEq] at h ⊢
  obtain ⟨id, hid, node, hnode, node_id, hparse, hostname, hhost, event_type, -, timestamp_ns,
    htime, payload, hpayload, raw_sequence_id, hraw, rfl⟩ := h
  exact ⟨id, hid, node, hnode, node_id, hparse, hostname, hhost, category, ⟨_, rfl, rfl⟩,
    timestamp_ns, htime, payload, hpayload, raw_sequence_id, hraw, rfl⟩

/-- What the router goes by for an event that says no more than `osquery`. -/
theorem eventType_of_osquery (h : event.Describes text (.obj fields))
    (hosquery : event.event_type = "osquery") : eventType (.obj fields) =
      ((event.payload.get? "query_name").bind Json.asStr?).getD "osquery" := by
  have htype : ((Json.obj fields).get? "event_type").bind Json.asStr? = some "osquery" := by
    rw [h.event_type, hosquery]
    rfl
  unfold eventType
  rw [h.payload]
  simp only [htype, Option.bind_some]

/-- What it goes by for any other. -/
theorem eventType_of_ne_osquery (h : event.Describes text (.obj fields))
    (hne : event.event_type ≠ "osquery") : eventType (.obj fields) = event.event_type :=
  (ClassOf.own h.event_type hne).eventType_eq

theorem knowsQuery_iff (hosquery : event.event_type = "osquery")
    (hquery : (event.payload.get? "query_name").bind Json.asStr? = some query_name) :
    KnowsQuery event ↔ query_name ∈ scannedQueries := by
  have hname := bind_asStr?_eq_some.1 hquery
  constructor
  · intro h
    obtain ⟨name, hmem, hname'⟩ := h hosquery
    rw [hname] at hname'
    obtain rfl := Json.str.inj (Option.some.inj hname')
    exact hmem
  · exact fun hmem _ => ⟨query_name, hmem, hname⟩

/-- The scanner selects one category for two events exactly when it looks up
the same for both. -/
theorem exists_selects_iff {codec : JsonCodec} {event event' : TelemetryEvent} :
    (∃ category, Selects codec event category ∧ Selects codec event' category) ↔
      RuleEngine.category event = RuleEngine.category event' := by
  constructor
  · rintro ⟨category, h, h'⟩
    exact h.1.trans h'.1.symm
  · exact fun heq => ⟨_, selects_category codec event, heq ▸ selects_category codec event'⟩

/-- **What the scanner selects for what is forwarded** is the category of its
topic. -/
theorem classifiersAgree_iff_category {codec : ExactCodec} {msg : RawMessage}
    (metrics : PipelineMetrics) (hread : codec.fromSlice msg.payload = some (.obj fields))
    (hjson : TelemetryEvent.ofJson text (.obj fields) = some event)
    (hroute : route_topic (eventType (.obj fields)) = some topic) :
    ClassifiersAgree text codec.toJsonCodec event (routed codec.toJsonCodec msg metrics).1 ↔
      RuleEngine.category event = normalized_category topic (eventType (.obj fields)) := by
  obtain ⟨hrecord, -⟩ := process_of_route metrics hread hroute
  obtain ⟨hcategory, -, -⟩ :=
    route_topic_normalized (route_topic_mem hroute) (eventType (.obj fields))
  have hread' : codec.fromSlice (routed codec.toJsonCodec msg metrics).1.payload =
      some (.obj (Fields.insert "event_type"
        (.str (normalized_category topic (eventType (.obj fields)))) fields)) := by
    rw [hrecord]
    exact ExactCodec.fromSlice_toVec
      (Json.readable_insert (ExactCodec.readable_of_fromSlice hread) .str)
  have hevent' : TelemetryEvent.fromSlice text codec.toJsonCodec
      (routed codec.toJsonCodec msg metrics).1.payload = some { event with
        event_type := normalized_category topic (eventType (.obj fields)) } := by
    rw [TelemetryEvent.fromSlice, hread', Option.bind_some]
    exact ofJson_insert_event_type _ hjson
  have hafter : RuleEngine.category { event with
      event_type := normalized_category topic (eventType (.obj fields)) } =
        normalized_category topic (eventType (.obj fields)) :=
    RuleEngine.category_of_mem hcategory
  rw [ClassifiersAgree, hevent']
  simp only [Option.some.injEq, exists_eq_left', exists_selects_iff, hafter]

/-- **When the two classifiers agree** on an event that has a typed topic:
exactly when the scanner knows its query, where it says no more than
`osquery`. -/
theorem classifiersAgree_iff {codec : ExactCodec} {msg : RawMessage} (metrics : PipelineMetrics)
    (hevent : TelemetryEvent.fromSlice text codec.toJsonCodec msg.payload = some event)
    (htyped : (routed codec.toJsonCodec msg metrics).1.topic ∈ typedTopics) :
    ClassifiersAgree text codec.toJsonCodec event (routed codec.toJsonCodec msg metrics).1 ↔
      KnowsQuery event := by
  obtain ⟨j, hread, hjson⟩ := Option.bind_eq_some_iff.1 hevent
  have hdescribes := TelemetryEvent.ofJson_eq_some hjson
  obtain ⟨fields, rfl⟩ : ∃ fields, j = .obj fields := by
    have hid := hdescribes.id
    cases j with
    | obj fields => exact ⟨fields, rfl⟩
    | null | bool | int | float | str | arr => cases hid
  cases hroute : route_topic (eventType (.obj fields)) with
  | none =>
    -- without a topic the message is a dead letter
    have hdlq : (routed codec.toJsonCodec msg metrics).1.topic = dlq := by
      unfold routed
      rw [hread]
      simp only [hroute, Option.getD_none, if_true]
      rfl
    exact absurd hdlq (ne_dlq_of_mem htyped)
  | some topic =>
    rw [classifiersAgree_iff_category metrics hread hjson hroute]
    by_cases hosquery : event.event_type = "osquery"
    · rw [eventType_of_osquery hdescribes hosquery] at hroute ⊢
      cases hquery : (event.payload.get? "query_name").bind Json.asStr? with
      | none =>
        rw [hquery] at hroute
        cases hroute
      | some query_name =>
        rw [hquery, Option.getD_some] at hroute
        have hcategory : RuleEngine.category event = queryCategory query_name := by
          unfold RuleEngine.category
          simp only [hosquery, hquery, Option.map_some, Option.getD_some]
        rw [hcategory, Option.getD_some, queryCategory_eq_iff hroute]
        exact (knowsQuery_iff hosquery hquery).symm
    · rw [eventType_of_ne_osquery hdescribes hosquery] at hroute ⊢
      exact iff_of_true (category_of_route hroute) fun h => absurd h hosquery

/-! ## A query the scanner has no name for -/

/-- The members of an event of the logged in users. -/
def loginsMembers : List (String × Json) :=
  [("id", .str "e-1"), ("node_id", .str "00000000-0000-0000-0000-000000000001"),
    ("hostname", .str ""), ("event_type", .str "osquery"), ("timestamp_ns", .int 0),
    ("payload", .obj [("query_name", .str "logged_in_users")])]

/-- The event the rule engine reads from them. -/
def loginsEvent : TelemetryEvent :=
  ⟨"e-1", ⟨1⟩, "", "osquery", 0, .obj [("query_name", .str "logged_in_users")], none⟩

/-- The message of the raw topic. -/
def loginsMessage : RawMessage :=
  ⟨none, JsonText.exactCodec.toVec (Json.object loginsMembers), "aigis.events.raw", 0, 0⟩

theorem fromSlice_loginsMessage : JsonText.exactCodec.fromSlice loginsMessage.payload =
    some (.obj (Fields.ofList loginsMembers)) := by
  have hcanonical : (Json.object loginsMembers).Canonical 127 := by
    refine Json.canonical_object fun m hm => ?_
    simp only [loginsMembers, List.mem_cons, List.not_mem_nil, or_false] at hm
    rcases hm with rfl | rfl | rfl | rfl | rfl | rfl
    · exact .str
    · exact .str
    · exact .str
    · exact .str
    · exact .int (by decide)
    · refine .obj (List.pairwise_singleton ..) fun f hf => ?_
      obtain rfl := List.mem_singleton.1 hf
      exact .str
  simp only [loginsMessage]
  rw [JsonCodec.fromSlice_toVec _ hcanonical]
  rfl

theorem ofJson_logins :
    TelemetryEvent.ofJson .standard (.obj (Fields.ofList loginsMembers)) = some loginsEvent := by
  have hget : ∀ k, (Json.obj (Fields.ofList loginsMembers)).get? k =
      Fields.lookup k loginsMembers := fun k => Json.get?_object (by decide)
  have hnode : UuidText.standard.parse "00000000-0000-0000-0000-000000000001" = .ok ⟨1⟩ := rfl
  unfold TelemetryEvent.ofJson
  simp only [hget]
  simp [loginsMembers, hnode]
  rfl

theorem eventType_logins :
    route_topic (eventType (.obj (Fields.ofList loginsMembers))) = some "aigis.events.auth" := by
  rw [eventType_of_osquery (TelemetryEvent.ofJson_eq_some ofJson_logins) rfl]
  rfl

/-- The message goes to the topic of authentication. -/
theorem topic_logins : (routed JsonText.exactCodec.toJsonCodec loginsMessage .new).1.topic =
    "aigis.events.auth" := by
  rw [(process_of_route .new fromSlice_loginsMessage eventType_logins).1]

theorem fromSlice_loginsEvent : TelemetryEvent.fromSlice .standard JsonText.exactCodec.toJsonCodec
    loginsMessage.payload = some loginsEvent := by
  rw [TelemetryEvent.fromSlice, fromSlice_loginsMessage, Option.bind_some, ofJson_logins]

theorem classifiersAgree_iff_logins :
    ClassifiersAgree .standard JsonText.exactCodec.toJsonCodec loginsEvent
        (routed JsonText.exactCodec.toJsonCodec loginsMessage .new).1 ↔ KnowsQuery loginsEvent :=
  classifiersAgree_iff .new fromSlice_loginsEvent (by rw [topic_logins]; decide)

/-- **The scanner knows no rules for the logged in users**, of whom the router
makes an event of authentication. -/
theorem not_classifiersAgree_logins :
    (routed JsonText.exactCodec.toJsonCodec loginsMessage .new).1.topic = "aigis.events.auth" ∧
      ¬ClassifiersAgree .standard JsonText.exactCodec.toJsonCodec loginsEvent
        (routed JsonText.exactCodec.toJsonCodec loginsMessage .new).1 := by
  refine ⟨topic_logins, fun h => ?_⟩
  have hcategory := (classifiersAgree_iff_category .new fromSlice_loginsMessage ofJson_logins
    eventType_logins).1 h
  exact absurd hcategory (by decide)

end AigisZero.Router
