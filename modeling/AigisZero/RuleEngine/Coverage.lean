import AigisZero.Router.Normalisation
import AigisZero.RuleEngine.Compiler

/-!
# Which rule sets are ever consulted

What the rule engine scans has come through the router, and the router
knows four categories. Over all messages this module says which of the
rule sets that were loaded some event is scanned with.
-/

namespace AigisZero.RuleEngine

open Router

/-- A blank, for `str::trim`. -/
def isWhitespace (c : Char) : Bool :=
  let n := c.toNat
  (9 ≤ n && n ≤ 13) || n = 0x20 || n = 0x85 || n = 0xA0 || n = 0x1680 ||
    (0x2000 ≤ n && n ≤ 0x200A) || n = 0x2028 || n = 0x2029 || n = 0x202F || n = 0x205F || n = 0x3000

/-- `str::trim`. -/
def trim (cs : List Char) : List Char :=
  ((cs.dropWhile isWhitespace).reverse.dropWhile isWhitespace).reverse

/-- The parts of a text between its commas. -/
def splitCommas : List Char → List (List Char)
  | [] => [[]]
  | ',' :: cs => [] :: splitCommas cs
  | c :: cs =>
    match splitCommas cs with
    | [] => [[c]]
    | part :: parts => (c :: part) :: parts

/-- The topics of `RuleEngineConfig::from_env`, given `KAFKA_TOPICS`. -/
def kafka_topics (var : Option String) : List String :=
  let topics := var.getD
    "aigis.events.process,aigis.events.network,aigis.events.file,aigis.events.auth"
  (((splitCommas topics.toList).map trim).filter (· ≠ [])).map String.ofList

theorem kafka_topics_none : kafka_topics none = typedTopics := by decide

/-- The categories the scanner has a name for. -/
def knownCategories : List String := ["process", "network", "file", "auth", "custom"]

/-- **A rule set is consulted**: the router forwards some message to a
topic the rule engine subscribes to by default, and what the rule engine
reads there it scans with these rules. -/
def Consulted (text : UuidText) (codec : JsonCodec) (current : EngineRegistry) (c : String) :
    Prop :=
  ∃ (msg : RawMessage) (metrics : PipelineMetrics) (event : TelemetryEvent) (rules : Rules)
    (buffer : Bytes),
    (routed codec msg metrics).1.topic ∈ kafka_topics none ∧
    TelemetryEvent.fromSlice text codec (routed codec msg metrics).1.payload = some event ∧
    category event = c ∧ current.rule_sets c = some rules ∧
    current.scanned codec event = some (rules, buffer)

/-! ## Only the categories of the router -/

/-- **What reaches the scanner has a category of the router.** -/
theorem category_of_routed {codec : ExactCodec} {text : UuidText} {msg : RawMessage}
    {metrics : PipelineMetrics} {event : TelemetryEvent}
    (htopic : (routed codec.toJsonCodec msg metrics).1.topic ∈ kafka_topics none)
    (hevent : TelemetryEvent.fromSlice text codec.toJsonCodec
      (routed codec.toJsonCodec msg metrics).1.payload = some event) :
    category event ∈ typedCategories := by
  rw [kafka_topics_none] at htopic
  by_cases hclassified : ∃ fields topic, Classified codec.toJsonCodec msg.payload fields topic
  · obtain ⟨fields, topic, hclassified⟩ := hclassified
    obtain ⟨-, -, c, hforwarded⟩ := routed_of_classified metrics hclassified
    have htype := event_type_of_fromSlice hforwarded.read hevent
    rw [Json.get?_obj, Fields.lookup_insert, if_pos rfl] at htype
    have heq : event.event_type = c := (Json.str.inj (Option.some.inj htype)).symm
    rw [category_of_mem (heq ▸ hforwarded.typed), heq]
    exact hforwarded.typed
  · -- the dead letter topic is not subscribed to
    obtain ⟨hdlq, -⟩ := routed_of_not_classified metrics
      fun fields topic h => hclassified ⟨fields, topic, h⟩
    exact absurd hdlq (ne_dlq_of_mem htopic)

/-! ## All of the categories of the router -/

/-- The message that carries an event of a category. -/
def probeMessage (codec : JsonCodec) (c : String) : RawMessage :=
  ⟨none, codec.toVec (probe c), "aigis.events.raw", 0, 0⟩

/-- The name it is given is the one it has. -/
theorem probe_insert_get? (c k : String) :
    ((probe c).insert "event_type" (.str c)).get? k = (probe c).get? k := by
  have hobj : probe c = .obj (Fields.ofList (probeMembers c)) := rfl
  rw [hobj, Json.get?_insert_obj, ← hobj]
  split
  · next hk => subst hk; exact (probe_get? c "event_type").symm
  · rfl

theorem canonical_probe_insert (c : String) :
    ((probe c).insert "event_type" (.str c)).Canonical 127 :=
  Json.canonical_insert (canonical_probe c) .str

theorem route_topic_of_mem {c : String} (h : c ∈ typedCategories) :
    ∃ topic ∈ typedTopics, route_topic c = some topic ∧ normalized_category topic c = c ∧
      c ≠ "osquery" := by
  simp only [typedCategories, List.mem_cons, List.not_mem_nil, or_false] at h
  rcases h with rfl | rfl | rfl | rfl
  all_goals exact ⟨_, by decide, rfl, rfl, by decide⟩

/-- **An event of each of the categories is scanned** with the rules there
are for it. -/
theorem consulted_of_mem {codec : JsonCodec} {current : EngineRegistry} {c : String} {rules : Rules}
    (hc : c ∈ typedCategories) (hrules : current.rule_sets c = some rules) :
    Consulted .standard codec current c := by
  obtain ⟨topic, hmem, hroute, hcategory, hne⟩ := route_topic_of_mem hc
  have hread := codec.fromSlice_toVec (canonical_probe c)
  have hclass : eventType (probe c) = c := (ClassOf.own (probe_get? c _) hne).eventType_eq
  obtain ⟨hrecord, -⟩ := process_of_route .new
    (show codec.fromSlice (probeMessage codec c).payload = some (probe c) from hread)
    (by rw [hclass]; exact hroute)
  rw [hclass, hcategory] at hrecord
  have hforwarded := codec.fromSlice_toVec (canonical_probe_insert c)
  have hevent := ofJson_probe (probe_insert_get? c)
  have hselected : category (probeEvent c) = c :=
    category_of_mem (show (probeEvent c).event_type ∈ typedCategories from hc)
  refine ⟨probeMessage codec c, .new, probeEvent c, rules, scanPayload (probeEvent c).payload, ?_,
    ?_, hselected, hrules, ?_⟩
  · rw [hrecord, kafka_topics_none]
    exact hmem
  · rw [hrecord, TelemetryEvent.fromSlice, hforwarded, Option.bind_some]
    exact hevent
  · have hlines : scanPayload (probeEvent c).payload ≠ [] :=
      scanPayload_ne_nil (show "cmdline" ∈ scannableKeys by decide) rfl
    rw [scanned_of_ne_nil hlines, hselected, hrules]
    rfl

/-! ## Which rule sets are dead -/

/-- The custom rules are never consulted: no message has their category
once it is forwarded. -/
theorem not_consulted_custom {codec : ExactCodec} {text : UuidText} {current : EngineRegistry} :
    ¬Consulted text codec.toJsonCodec current "custom" := by
  rintro ⟨msg, metrics, event, rules, buffer, htopic, hevent, hcategory, -⟩
  have hmem := category_of_routed htopic hevent
  rw [hcategory] at hmem
  exact absurd hmem (by decide)

/-- **A loaded rule set is consulted exactly when it is not the custom
one.** Of the categories the scanner has a name for, the router gives an
event each but that. -/
theorem consulted_iff (codec : ExactCodec) (compiler : YaraCompiler) (mitre : MitreTaxonomy)
    {rules_dir : Option (Listing CategoryEntry)} {rule_sets : String → Option Rules}
    {c : String} {rules : Rules} (hloaded : compile_all compiler rules_dir = .ok rule_sets)
    (hknown : c ∈ knownCategories) (hrules : rule_sets c = some rules) :
    (∃ entry dir, .ok entry ∈ listed rules_dir ∧ entry.directory = some dir ∧
      fromUtf8Lossy entry.file_name = c ∧ compile_directory compiler dir = .ok rules) ∧
    (Consulted .standard codec.toJsonCodec ⟨rule_sets, mitre⟩ c ↔ c ≠ "custom") := by
  refine ⟨(loaded_of_compile_all hloaded c rules hrules).2, ?_, fun hne => ?_⟩
  · rintro hconsulted rfl
    exact not_consulted_custom hconsulted
  · have hc : c ∈ typedCategories := by
      simp only [knownCategories, List.mem_cons, List.not_mem_nil, or_false] at hknown
      simp only [typedCategories, List.mem_cons, List.not_mem_nil, or_false]
      tauto
    exact consulted_of_mem hc hrules

/-- A rule that matches everything. -/
def anyRule : Rules := ⟨[⟨"any", []⟩], by decide⟩

/-- A compiler that knows one source. -/
def oneSource : YaraCompiler where
  State := List String
  new := []
  add_source state source := .ok (state ++ [source])
  build state :=
    if state = ["rule any \x7b condition: true \x7d"] then anyRule else ⟨[], by decide⟩

/-- A rules directory laid out as the one that is shipped: custom rules,
and no others. -/
def customRules : Option (Listing CategoryEntry) :=
  some (.ok [.ok ⟨utf8 "custom", some (.ok [.ok ⟨utf8 "linux_process_threats.yar",
    "rules/custom/linux_process_threats.yar", true,
    .ok "rule any \x7b condition: true \x7d"⟩])⟩])

/-- What is compiled of it. -/
def customSets : String → Option Rules := Function.update (fun _ => none) "custom" (some anyRule)

theorem compile_all_customRules : compile_all oneSource customRules = .ok customSets := by
  have hname : fromUtf8Lossy (utf8 "custom") = "custom" := fromUtf8Lossy_utf8 _
  have hdir : compile_directory oneSource (.ok [.ok ⟨utf8 "linux_process_threats.yar",
      "rules/custom/linux_process_threats.yar", true,
      .ok "rule any \x7b condition: true \x7d"⟩]) = .ok anyRule := rfl
  show (List.foldlM (add_category oneSource) (fun _ => none) _ : Except AppError _) = _
  rw [List.foldlM_cons, add_category]
  simp only [hname, hdir]
  rfl

theorem consulted_iff_customRules :
    (∃ entry dir, .ok entry ∈ listed customRules ∧ entry.directory = some dir ∧
      fromUtf8Lossy entry.file_name = "custom" ∧ compile_directory oneSource dir = .ok anyRule) ∧
    (Consulted .standard JsonText.exactCodec.toJsonCodec ⟨customSets, .default⟩ "custom" ↔
      "custom" ≠ "custom") :=
  consulted_iff JsonText.exactCodec oneSource .default compile_all_customRules (by decide) rfl

/-- **The rules that are shipped are dead**: they are compiled, and no
message whatever is scanned with them. -/
theorem not_consulted_shipped :
    ¬∀ (codec : ExactCodec) (compiler : YaraCompiler) (mitre : MitreTaxonomy)
      (rules_dir : Option (Listing CategoryEntry)) (rule_sets : String → Option Rules) (c : String),
      compile_all compiler rules_dir = .ok rule_sets → c ∈ knownCategories →
      (rule_sets c).isSome →
      Consulted .standard codec.toJsonCodec ⟨rule_sets, mitre⟩ c := by
  intro h
  exact not_consulted_custom
    (h JsonText.exactCodec oneSource .default customRules customSets "custom"
      compile_all_customRules (by decide) rfl)

end AigisZero.RuleEngine
