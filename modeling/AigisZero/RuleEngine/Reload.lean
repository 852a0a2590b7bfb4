import AigisZero.Library.JsonText
import AigisZero.RuleEngine.Compiler
import AigisZero.RuleEngine.Scanner

/-!
# The reload of the rules

On a hangup signal the engine compiles the rules directory anew and reads
the taxonomy, and swaps what it has loaded for what it scans with. A
reload should be all or nothing: what is swapped in was loaded whole, and
where something cannot be loaded all stays as it was.
-/

namespace AigisZero.RuleEngine

/-- `AppError::MitreTaxonomyLoad`. -/
structure MitreTaxonomyLoad where
  message : String
deriving DecidableEq, Repr

/-- What reads the text of a taxonomy. -/
structure TaxonomyFormat where
  codec : JsonCodec
  /-- The number a value is, kept in 32 bits. -/
  f32 : Json → Option ℚ
  /-- What is said of a text that is no taxonomy. -/
  errorText : String → String

/-- A severity, of its name in small letters. -/
def AlertSeverity.ofName : String → Option AlertSeverity
  | "low" => some .Low
  | "medium" => some .Medium
  | "high" => some .High
  | "critical" => some .Critical
  | _ => none

/-- The severity a value is: its name, alone or over nothing. -/
def AlertSeverity.ofJson : Json → Option AlertSeverity
  | .str name => ofName name
  | .obj [(name, .null)] => ofName name
  | _ => none

/-- The technique a value is. -/
def MitreTechnique.ofJson (f32 : Json → Option ℚ) (j : Json) : Option MitreTechnique := do
  let technique_id ← (j.get? "technique_id").bind Json.asStr?
  let technique_name ← (j.get? "technique_name").bind Json.asStr?
  let tactic ← (j.get? "tactic").bind Json.asStr?
  let tactic_id ← (j.get? "tactic_id").bind Json.asStr?
  let default_severity ← (j.get? "default_severity").bind AlertSeverity.ofJson
  let base_threat_score ← (j.get? "base_threat_score").bind f32
  let description ← (j.get? "description").bind Json.asStr?
  return { technique_id, technique_name, tactic, tactic_id, default_severity, base_threat_score,
           description }

namespace MitreTaxonomy

variable (format : TaxonomyFormat)

/-- `MitreTaxonomy::load_from_json`. -/
def load_from_json (json_str : String) : Except String MitreTaxonomy :=
  match format.codec.ofText json_str with
  | some (.obj fields) =>
    if fields.all fun m => (MitreTechnique.ofJson format.f32 m.2).isSome then
      .ok ⟨fun id => (Fields.lookup id fields).bind (MitreTechnique.ofJson format.f32)⟩
    else .error (format.errorText json_str)
  | _ => .error (format.errorText json_str)

/-- `MitreTaxonomy::load_from_file`, of what reading the file gives. -/
def load_from_file (path : String) (content : Except String String) :
    Except MitreTaxonomyLoad MitreTaxonomy :=
  match content with
  | .error e => .error ⟨"Failed to read " ++ path ++ ": " ++ e⟩
  | .ok content =>
    (load_from_json format content).mapError fun e => ⟨"Failed to parse JSON: " ++ e⟩

end MitreTaxonomy

/-- What there is to load: the rules directory and the file of the taxonomy,
either of which may be missing. -/
structure RulesOnDisk where
  rules_dir : Option (Listing CategoryEntry)
  mitre_taxonomy : Option (Except String String)

/-- The registry in use, and how reloads have ended. -/
structure RegistryHolder where
  inner : EngineRegistry
  rule_reloads_total : UInt64
  rule_reload_failures_total : UInt64

namespace RegistryHolder

variable (compiler : YaraCompiler) (format : TaxonomyFormat) (mitre_taxonomy_path : String)

/-- What keeps the engine from starting. -/
inductive StartError where
  | mitre (e : MitreTaxonomyLoad)
  | rules (e : AppError)

/-- The taxonomy the engine starts with. A file that is there has to be one. -/
def startMitre (disk : RulesOnDisk) : Except MitreTaxonomyLoad MitreTaxonomy :=
  match disk.mitre_taxonomy with
  | some content => MitreTaxonomy.load_from_file format mitre_taxonomy_path content
  | none => .ok .default

/-- The registry the engine starts with. -/
def start (disk : RulesOnDisk) : Except StartError RegistryHolder := do
  let mitre ← (startMitre format mitre_taxonomy_path disk).mapError StartError.mitre
  let rule_sets ← (compile_all compiler disk.rules_dir).mapError StartError.rules
  return ⟨⟨rule_sets, mitre⟩, 0, 0⟩

/-- The taxonomy a reload comes to. A file that cannot be read, or is no
taxonomy, is as good as none. -/
def reloadedMitre (disk : RulesOnDisk) : MitreTaxonomy :=
  match disk.mitre_taxonomy with
  | some content =>
    (MitreTaxonomy.load_from_file format mitre_taxonomy_path content).toOption.getD .default
  | none => .default

/-- The handler of a hangup signal. -/
def reload (s : RegistryHolder) (disk : RulesOnDisk) : RegistryHolder :=
  match compile_all compiler disk.rules_dir with
  | .ok new_rules =>
    { s with
      inner := ⟨new_rules, reloadedMitre format mitre_taxonomy_path disk⟩
      rule_reloads_total := s.rule_reloads_total + 1 }
  | .error _ => { s with rule_reload_failures_total := s.rule_reload_failures_total + 1 }

end RegistryHolder

/-! ## What is loaded whole -/

/-- The rules of a directory were all read. -/
def FilesRead (dir : Listing RuleFile) : Prop :=
  ∃ entries, dir = .ok entries ∧
    ∀ e ∈ entries, ∃ entry, e = .ok entry ∧ (entry.has_rules → ∃ source, entry.source = .ok source)

/-- **The rule sets are those of the directory**, and each category was
loaded whole. -/
structure RulesLoaded (compiler : YaraCompiler) (entries : List (Except String CategoryEntry))
    (rule_sets : String → Option Rules) : Prop where
  loaded : Loaded compiler entries rule_sets
  readable : ∀ e ∈ entries, ∃ entry, e = .ok entry
  complete : ∀ entry dir, .ok entry ∈ entries → entry.directory = some dir →
    fromUtf8Lossy entry.file_name ≠ "mitre" →
      FilesRead dir ∧ (∃ rules, compile_directory compiler dir = .ok rules) ∧
        (rule_sets (fromUtf8Lossy entry.file_name)).isSome

variable {compiler : YaraCompiler} {format : TaxonomyFormat} {mitre_taxonomy_path : String}
  {disk : RulesOnDisk} {entries : List (Except String CategoryEntry)}

theorem filesRead_of_compile {dir : Listing RuleFile} {rules : Rules}
    (h : compile_directory compiler dir = .ok rules) : FilesRead dir := by
  unfold compile_directory at h
  split at h
  · cases h
  · next entries =>
    refine ⟨entries, rfl, ?_⟩
    split at h
    · cases h
    · next state hloop =>
      refine foldlM_invariant (I := fun done _ => ∀ e ∈ done, ∃ entry, e = .ok entry ∧
        (entry.has_rules → ∃ source, entry.source = .ok source))
        (fun e he => absurd he List.not_mem_nil) (fun done e s t hdone ht => ?_) hloop
      refine List.forall_mem_append.2 ⟨hdone, List.forall_mem_singleton.2 ?_⟩
      unfold add_file at ht
      split at ht
      · cases ht
      · next entry =>
        refine ⟨entry, rfl, fun hrules => ?_⟩
        rw [if_pos hrules] at ht
        split at ht
        · cases ht
        · next source hsource => exact ⟨source, hsource⟩

/-- One more entry, loaded whole. -/
theorem RulesLoaded.add_category {rule_sets t : String → Option Rules}
    {e : Except String CategoryEntry} (h : RulesLoaded compiler entries rule_sets)
    (ht : add_category compiler rule_sets e = .ok t) : RulesLoaded compiler (entries ++ [e]) t := by
  have hloaded := h.loaded.add_category ht
  unfold RuleEngine.add_category at ht
  split at ht
  · cases ht
  · next entry =>
    refine ⟨hloaded,
      List.forall_mem_append.2 ⟨h.readable, List.forall_mem_singleton.2 ⟨_, rfl⟩⟩, ?_⟩
    intro entry' dir hmem hdir hne
    rcases List.mem_append.1 hmem with hmem | hmem
    · -- a rule set that is there is not taken away
      obtain ⟨hfiles, hrules, hsome⟩ := h.complete entry' dir hmem hdir hne
      refine ⟨hfiles, hrules, ?_⟩
      split at ht
      · exact Except.ok.inj ht ▸ hsome
      · dsimp only at ht
        split at ht
        · exact Except.ok.inj ht ▸ hsome
        · split at ht
          · cases ht
          · obtain rfl := Except.ok.inj ht
            rw [Function.update_apply]
            split
            · rfl
            · exact hsome
    · obtain rfl := Except.ok.inj (List.mem_singleton.1 hmem)
      rw [hdir] at ht
      dsimp only at ht
      rw [if_neg hne] at ht
      split at ht
      · cases ht
      · next rules hrules =>
        obtain rfl := Except.ok.inj ht
        refine ⟨filesRead_of_compile hrules, ⟨rules, hrules⟩, ?_⟩
        rw [Function.update_self]
        rfl

/-- **A registry is what is on disk**, all of it. -/
structure FullyLoaded (compiler : YaraCompiler) (format : TaxonomyFormat) (disk : RulesOnDisk)
    (registry : EngineRegistry) : Prop where
  rules : ∃ entries, disk.rules_dir = some (.ok entries) ∧
    RulesLoaded compiler entries registry.rule_sets
  mitre : ∃ content, disk.mitre_taxonomy = some (.ok content) ∧
    MitreTaxonomy.load_from_json format content = .ok registry.mitre

/-- **A reload is all or nothing.** -/
structure AllOrNothing (compiler : YaraCompiler) (format : TaxonomyFormat) (disk : RulesOnDisk)
    (s t : RegistryHolder) : Prop where
  whole :
    (t.inner = s.inner ∧ t.rule_reload_failures_total = s.rule_reload_failures_total + 1 ∧
      t.rule_reloads_total = s.rule_reloads_total) ∨
    (FullyLoaded compiler format disk t.inner ∧ t.rule_reloads_total = s.rule_reloads_total + 1 ∧
      t.rule_reload_failures_total = s.rule_reload_failures_total)
  /-- What could not be loaded has emptied nothing. -/
  kept : ¬FullyLoaded compiler format disk t.inner →
    ((∃ c, (s.inner.rule_sets c).isSome) → ∃ c, (t.inner.rule_sets c).isSome) ∧
    ((∃ id, (s.inner.mitre.techniques id).isSome) → ∃ id, (t.inner.mitre.techniques id).isSome)

namespace RegistryHolder

theorem reload_of_ok (s : RegistryHolder) {new_rules : String → Option Rules}
    (h : compile_all compiler disk.rules_dir = .ok new_rules) :
    s.reload compiler format mitre_taxonomy_path disk =
      { s with
        inner := ⟨new_rules, reloadedMitre format mitre_taxonomy_path disk⟩
        rule_reloads_total := s.rule_reloads_total + 1 } := by
  rw [reload, h]

/-- **What the engine starts with it reloads**: where the engine would start
now, a reload comes to the same registry. -/
theorem inner_reload_of_start {s started : RegistryHolder}
    (h : start compiler format mitre_taxonomy_path disk = .ok started) :
    (s.reload compiler format mitre_taxonomy_path disk).inner = started.inner := by
  obtain ⟨mitre, hmitre, h⟩ := bind_eq_ok.1 h
  obtain ⟨rule_sets, hrules, h⟩ := bind_eq_ok.1 h
  obtain rfl := Except.ok.inj h
  rw [reload_of_ok s (mapError_eq_ok.1 hrules)]
  have hmitre := mapError_eq_ok.1 hmitre
  have hsame : reloadedMitre format mitre_taxonomy_path disk = mitre := by
    unfold startMitre at hmitre
    unfold reloadedMitre
    split at hmitre
    · rw [hmitre]
      rfl
    · exact Except.ok.inj hmitre
  rw [hsame]

end RegistryHolder

end AigisZero.RuleEngine
