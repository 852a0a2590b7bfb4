import AigisZero.RuleEngine.Dedup
import AigisZero.RuleEngine.Models

/-!
# From a match to an alert

The alert of a matched rule: the metadata of the rule over the defaults,
then what the MITRE taxonomy knows of its technique. Last the signature by
which two alerts count as one.
-/

namespace AigisZero.RuleEngine

/-- A technique of the taxonomy. -/
structure MitreTechnique where
  technique_id : String
  technique_name : String
  tactic : String
  tactic_id : String
  default_severity : AlertSeverity
  base_threat_score : ℚ
  description : String
deriving DecidableEq

/-- The taxonomy: what is known of each technique. -/
structure MitreTaxonomy where
  techniques : String → Option MitreTechnique

/-- `MitreTaxonomy::default`. -/
def MitreTaxonomy.default : MitreTaxonomy := ⟨fun _ => none⟩

/-- `MitreTaxonomy::enrich_alert`: the tactic of the technique, and its
description and score where the rule left none. -/
def MitreTaxonomy.enrich_alert (mitre : MitreTaxonomy) (technique_id : String) (alert : Alert) :
    Alert :=
  match mitre.techniques technique_id with
  | none => alert
  | some tech =>
    { alert with
      mitre_tactic := some tech.tactic
      description := if alert.description = "" then tech.description else alert.description
      threat_score :=
        if alert.threat_score = 0 then tech.base_threat_score else alert.threat_score }

/-- What the metadata of a rule sets. -/
structure RuleMeta where
  technique_id : Option String
  severity : AlertSeverity
  threat_score : ℚ
  description : String
deriving DecidableEq

/-- The severity of its name, in whatever case. -/
def severityOf (v : String) : AlertSeverity :=
  match v.toLower with
  | "critical" => .Critical
  | "high" => .High
  | "medium" => .Medium
  | _ => .Low

/-- One entry of the metadata; an entry of another type is passed over. -/
def RuleMeta.set (m : RuleMeta) (key : String) (value : MetaValue) : RuleMeta :=
  match key, value with
  | "mitre_technique", .String v => { m with technique_id := some v }
  | "severity", .String v => { m with severity := severityOf v }
  | "threat_score", .Integer v => { m with threat_score := v }
  | "threat_score", .Float v => { m with threat_score := v }
  | "description", .String v => { m with description := v }
  | _, _ => m

/-- What the metadata of a rule sets, over the defaults. -/
def Rule.meta (rule : Rule) : RuleMeta :=
  rule.metadata.foldl (fun m e => m.set e.1 e.2)
    ⟨none, .Medium, 5, "YARA rule '" ++ rule.identifier ++ "' matched"⟩

/-- The identifier and the clock an alert draws. -/
structure AlertDraw where
  alert_id : Uuid
  now : ℕ
deriving DecidableEq, Repr

/-- `transform::build_alert`. -/
def build_alert (event : TelemetryEvent) (rule : Rule) (mitre : MitreTaxonomy) (draw : AlertDraw) :
    Alert :=
  let m := rule.meta
  let alert : Alert := {
    alert_id := draw.alert_id
    node_id := event.node_id
    hostname := event.hostname
    severity := m.severity
    source := .YaraX
    mitre_technique_id := m.technique_id
    mitre_tactic := none
    description := m.description
    triggering_event_id := some event.id
    threat_score := m.threat_score
    status := "open"
    created_at := draw.now }
  -- the taxonomy has its say only where the rule names a technique
  match m.technique_id with
  | none => alert
  | some tech_id => mitre.enrich_alert tech_id alert

/-- The signature the scanner loop gives an alert. -/
def signatureOf (alert : Alert) : AlertSignature where
  node_id := alert.node_id
  rule_identifier := alert.description
  mitre_technique := alert.mitre_technique_id

/-- What of a rule enters the signature of its alerts: the description
they end with, and the technique. -/
def Rule.key (mitre : MitreTaxonomy) (rule : Rule) : String × Option String :=
  let m := rule.meta
  match m.technique_id with
  | none => (m.description, none)
  | some tech_id =>
    match mitre.techniques tech_id with
    | none => (m.description, some tech_id)
    | some tech =>
      (if m.description = "" then tech.description else m.description, some tech_id)

/-- **The signature of an alert is of its node and the key of its rule**,
and of nothing else. -/
theorem signatureOf_build_alert (event : TelemetryEvent) (rule : Rule) (mitre : MitreTaxonomy)
    (draw : AlertDraw) : signatureOf (build_alert event rule mitre draw) =
      ⟨event.node_id, (rule.key mitre).1, (rule.key mitre).2⟩ := by
  unfold build_alert Rule.key
  -- without a technique, with one the taxonomy does not know, with one it does
  cases htech : rule.meta.technique_id with
  | none => simp [signatureOf, htech]
  | some tech_id =>
    cases hknown : mitre.techniques tech_id <;>
      simp [signatureOf, MitreTaxonomy.enrich_alert, htech, hknown]

@[simp] theorem build_alert_node_id (event : TelemetryEvent) (rule : Rule) (mitre : MitreTaxonomy)
    (draw : AlertDraw) : (build_alert event rule mitre draw).node_id = event.node_id :=
  congrArg AlertSignature.node_id (signatureOf_build_alert event rule mitre draw)

end AigisZero.RuleEngine
