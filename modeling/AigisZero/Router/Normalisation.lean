import AigisZero.Library.JsonText
import AigisZero.Router.Route
import AigisZero.RuleEngine.Scanner

/-!
# What the router makes of a message

Every message is forwarded as one record. Where its payload is an object
of a known class, the record is that object under the name of its
category; everything else goes to the dead letter topic as it came. The
table of the router, read a second time, and the table of the scanner both
agree with what was forwarded.
-/

namespace AigisZero.Router

open RuleEngine (TelemetryEvent EngineRegistry YaraX AlertDraw typedCategories)

/-- The producer of the router: the records handed to it, and what the
broker answers. -/
structure Producer where
  attempted : List Record
  answer : Record → Except String Unit

/-- `FutureProducer::send`. -/
def Producer.send (producer : Producer) (record : Record) : Except String Unit × Producer :=
  (producer.answer record, { producer with attempted := producer.attempted ++ [record] })

section Process

variable (codec : JsonCodec)

end Process

/-! ## The class of an event -/

/-- **The class of an event**: its own type, unless that is absent, is no
string, or says no more than `osquery`; then the name of the query in its
payload. -/
inductive ClassOf (event : Json) : String → Prop where
  | own {event_type : String} (type : event.get? "event_type" = some (.str event_type))
    (specific : event_type ≠ "osquery") : ClassOf event event_type
  | query {payload : Json} {query_name : String}
    (type : ∀ event_type, event.get? "event_type" = some (.str event_type) →
      event_type = "osquery")
    (inner : event.get? "payload" = some payload)
    (name : payload.get? "query_name" = some (.str query_name)) : ClassOf event query_name

/-- The payload of a message is an object whose class has a topic. -/
def Classified (codec : JsonCodec) (payload : Bytes) (fields : List (String × Json))
    (topic : String) : Prop :=
  codec.fromSlice payload = some (.obj fields) ∧
    ∃ name, ClassOf (.obj fields) name ∧ route_topic name = some topic

variable {event : Json} {name topic : String} {fields : List (String × Json)}

/-- A member that is a string. -/
theorem bind_asStr?_eq_some {j : Option Json} {s : String} :
    j.bind Json.asStr? = some s ↔ j = some (.str s) := by
  simp only [Option.bind_eq_some_iff, Json.asStr?_eq_some, exists_eq_right]

theorem bind_asStr?_eq_none {j : Option Json} :
    j.bind Json.asStr? = none ↔ ∀ s, j ≠ some (.str s) := by
  rw [Option.eq_none_iff_forall_ne_some]
  exact forall_congr' fun s => not_congr bind_asStr?_eq_some

/-- The router's own words for the class. -/
theorem ClassOf.eventType_eq (h : ClassOf event name) : eventType event = name := by
  unfold eventType
  cases h with
  | own htype hspecific =>
    have hraw := bind_asStr?_eq_some.2 htype
    simp only [hraw]
  | query htype hinner hname =>
    have hquery : ((event.get? "payload").bind (·.get? "query_name")).bind Json.asStr? =
        some name := by
      rw [hinner, Option.bind_some, hname, Option.bind_some, Json.asStr?_str]
    simp only [hquery, Option.getD_some]
    split
    · rfl
    · rfl
    · next hne heq => exact absurd (htype _ (bind_asStr?_eq_some.1 heq)) hne

/-- An event without a class counts as `osquery`. -/
theorem eventType_of_not_classOf (h : ∀ name, ¬ClassOf event name) :
    eventType event = "osquery" := by
  have hquery : (∀ event_type, event.get? "event_type" = some (.str event_type) →
        event_type = "osquery") →
      ((event.get? "payload").bind (·.get? "query_name")).bind Json.asStr? = none := by
    intro htype
    refine bind_asStr?_eq_none.2 fun s hs => ?_
    obtain ⟨payload, hinner, hname⟩ := Option.bind_eq_some_iff.1 hs
    exact h s (.query htype hinner hname)
  unfold eventType
  dsimp only
  split
  · next hraw =>
    rw [hquery fun t ht => absurd ht (bind_asStr?_eq_none.1 hraw t)]
    rfl
  · next hraw =>
    have hosquery := bind_asStr?_eq_some.1 hraw
    rw [hquery fun t ht => by rw [ht] at hosquery; exact Json.str.inj (Option.some.inj hosquery)]
    rfl
  · next et hne hraw => exact absurd (.own (bind_asStr?_eq_some.1 hraw) hne) (h et)

/-- Only an object has a class. -/
theorem ClassOf.eq_obj (h : ClassOf event name) : ∃ fields, event = .obj fields := by
  have hmember : ∃ k v, event.get? k = some v := by
    cases h with
    | own htype => exact ⟨_, _, htype⟩
    | query _ hinner => exact ⟨_, _, hinner⟩
  obtain ⟨k, v, hget⟩ := hmember
  cases event with
  | obj fields => exact ⟨fields, rfl⟩
  | null | bool | int | float | str | arr => cases hget

/-- A category of the router is a class of its own, on its own topic. -/
theorem route_topic_normalized (h : topic ∈ typedTopics) (event_type : String) :
    normalized_category topic event_type ∈ typedCategories ∧
      normalized_category topic event_type ≠ "osquery" ∧
      route_topic (normalized_category topic event_type) = some topic := by
  simp only [typedTopics, List.mem_cons, List.not_mem_nil, or_false] at h
  rcases h with rfl | rfl | rfl | rfl
  all_goals
    exact ⟨by simp [normalized_category, typedCategories], by simp [normalized_category], rfl⟩

/-- **A record carries an object on**, under the name of a category and on
its topic. -/
structure Forwarded (codec : JsonCodec) (fields : List (String × Json)) (category : String)
    (record : Record) : Prop where
  topic : record.topic = "aigis.events." ++ category
  typed : category ∈ typedCategories
  specific : category ≠ "osquery"
  routed : route_topic category = some record.topic
  read : codec.fromSlice record.payload =
    some (.obj (Fields.insert "event_type" (.str category) fields))

/-- What is forwarded is classified as it was forwarded. -/
theorem Forwarded.classified {codec : JsonCodec} {category : String} {record : Record}
    (h : Forwarded codec fields category record) :
    Classified codec record.payload (Fields.insert "event_type" (.str category) fields)
      record.topic := by
  refine ⟨h.read, category, .own ?_ h.specific, h.routed⟩
  rw [Json.get?_obj, Fields.lookup_insert, if_pos rfl]

section Routed

variable {codec : ExactCodec} {msg : RawMessage} {metrics : PipelineMetrics}

/-- What becomes of a message that is classified. -/
theorem routed_of_classified (metrics : PipelineMetrics)
    (h : Classified codec.toJsonCodec msg.payload fields topic) :
    (routed codec.toJsonCodec msg metrics).1.topic = topic ∧
      (routed codec.toJsonCodec msg metrics).1.key = msg.key.getD [] ∧
      ∃ category, Forwarded codec.toJsonCodec fields category
        (routed codec.toJsonCodec msg metrics).1 := by
  obtain ⟨hread, name, hclass, hroute⟩ := h
  have hmem := route_topic_mem hroute
  rw [← hclass.eventType_eq] at hroute
  obtain ⟨hrecord, -⟩ := process_of_route metrics hread hroute
  obtain ⟨hcategory, hne, hagain⟩ := route_topic_normalized hmem (eventType (Json.obj fields))
  rw [hrecord]
  refine ⟨rfl, rfl, normalized_category topic (eventType (Json.obj fields)), ?_, hcategory, hne,
    hagain, ?_⟩
  · exact typedTopic_eq hmem _
  · -- what was read is readable, and so it is with a string put into it
    exact ExactCodec.fromSlice_toVec
      (Json.readable_insert (ExactCodec.readable_of_fromSlice hread) .str)

/-- What becomes of a message that is not. -/
theorem routed_of_not_classified (metrics : PipelineMetrics)
    (h : ∀ fields topic, ¬Classified codec.toJsonCodec msg.payload fields topic) :
    (routed codec.toJsonCodec msg metrics).1.topic = dlq ∧
      (routed codec.toJsonCodec msg metrics).1.key = msg.key.getD [] ∧
      (routed codec.toJsonCodec msg metrics).1.payload = msg.payload := by
  unfold routed
  cases hread : codec.fromSlice msg.payload with
  | none => exact ⟨rfl, rfl, rfl⟩
  | some event =>
    have hroute : route_topic (eventType event) = none := by
      by_cases hclass : ∃ name, ClassOf event name
      · obtain ⟨name, hclass⟩ := hclass
        obtain ⟨fields, rfl⟩ := hclass.eq_obj
        refine Option.eq_none_iff_forall_ne_some.2 fun topic htopic => ?_
        exact h fields topic ⟨hread, name, hclass, by rwa [hclass.eventType_eq] at htopic⟩
      · rw [eventType_of_not_classOf fun name hname => hclass ⟨name, hname⟩]
        rfl
    simp only [hroute, Option.getD_none, if_true]
    exact ⟨rfl, rfl, rfl⟩

end Routed

/-! ## The scanner reads the same category -/

/-- The rule sets without all but one of them. -/
def only (current : EngineRegistry) (category : String) : EngineRegistry :=
  { current with
    rule_sets := fun c => if c = category then current.rule_sets category else none }

/-- **The scanner selects a category**: it is the one it looks up, and no
other rules have a part in what it finds. -/
def Selects (codec : JsonCodec) (event : TelemetryEvent) (category : String) : Prop :=
  RuleEngine.category event = category ∧
    ∀ (yara : YaraX) (current : EngineRegistry) (draw : ℕ → AlertDraw),
      RuleEngine.evaluate codec yara current event draw =
        RuleEngine.evaluate codec yara (only current category) event draw

theorem selects_category (codec : JsonCodec) (event : TelemetryEvent) :
    Selects codec event (RuleEngine.category event) := by
  refine ⟨rfl, fun yara current draw => ?_⟩
  have hscanned : (only current (RuleEngine.category event)).scanned codec event =
      current.scanned codec event := by
    simp only [EngineRegistry.scanned, only, if_true]
  simp only [RuleEngine.evaluate, EngineRegistry.matching, hscanned]
  rfl

/-- An event of the rule engine has the type its bytes have. -/
theorem event_type_of_fromSlice {text : UuidText} {codec : JsonCodec} {payload : Bytes} {j : Json}
    {event : TelemetryEvent} (hread : codec.fromSlice payload = some j)
    (h : TelemetryEvent.fromSlice text codec payload = some event) :
    j.get? "event_type" = some (.str event.event_type) := by
  rw [TelemetryEvent.fromSlice, hread, Option.bind_some] at h
  exact (TelemetryEvent.ofJson_eq_some h).event_type

/-! ## Every message -/

end AigisZero.Router
