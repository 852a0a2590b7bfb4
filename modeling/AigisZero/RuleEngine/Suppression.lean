import AigisZero.Library.Fallible
import AigisZero.Library.JsonText
import AigisZero.RuleEngine.Scanner
import Mathlib.Data.List.Nodup
import Mathlib.Data.List.Pairwise

/-!
# What suppresses what

The scanner loop over a stream of events, with a deduplicator that never
forgets. An alert should be suppressed by an earlier one of its own rule.
The signature has no rule in it, only the description the alert ends with
and the technique of the rule, so this holds just where these tell the
rules apart.
-/

namespace AigisZero.RuleEngine

/-- An event at the scanner, with what its alerts draw and the clock at
the check of each. -/
structure Arrival where
  event : TelemetryEvent
  draw : ℕ → AlertDraw
  clock : ℕ → ℕ

/-- An alert with the rule that made it, by category and identifier, and
the clock at its check. -/
structure Generated where
  rule : String × String
  alert : Alert
  now : ℕ
deriving DecidableEq

/-- The signature an alert is checked under. -/
abbrev Generated.sig (g : Generated) : AlertSignature := signatureOf g.alert

variable (codec : JsonCodec) (yara : YaraX)

/-- The alerts of an event, in the order they are checked. An event that
cannot be scanned has none. -/
def EngineRegistry.generated (current : EngineRegistry) (a : Arrival) : List Generated :=
  match current.matching codec yara a.event with
  | .error _ => []
  | .ok matched =>
    matched.mapIdx fun i rule =>
      ⟨(category a.event, rule.identifier), build_alert a.event rule current.mitre (a.draw i),
        a.clock i⟩

/-- The alerts with their answers: whether each is emitted. -/
def ExactDeduplicator.trace (e : ExactDeduplicator) : List Generated → List (Generated × Bool)
  | [] => []
  | g :: gs => (g, (e.checkAndRecord g.sig g.now).1) :: (e.checkAndRecord g.sig g.now).2.trace gs

/-- **The scanner loop over a stream of events**: the alerts it generates,
each with whether it is emitted to the alert channel or suppressed. -/
def EngineRegistry.scan (current : EngineRegistry) (window : ℕ) (arrivals : List Arrival) :
    List (Generated × Bool) :=
  ExactDeduplicator.trace ⟨fun _ => none, window⟩
    (arrivals.flatMap (current.generated codec yara))

/-- Each suppressed alert has an earlier one of its own rule on its own
node, emitted less than the window before it. -/
def PerRule (window : ℕ) (outcome : List (Generated × Bool)) : Prop :=
  ∀ before g after, outcome = before ++ (g, false) :: after →
    ∃ g₀, (g₀, true) ∈ before ∧ g₀.rule = g.rule ∧ g₀.alert.node_id = g.alert.node_id ∧
      g₀.now ≤ g.now ∧ g.now - g₀.now < window

/-- The clock never goes back from one check to the next. -/
def ClockOrdered (gs : List Generated) : Prop := gs.Pairwise fun g g' => g.now ≤ g'.now

/-- **Suppression is per rule**, whatever the events. -/
def EngineRegistry.SuppressesPerRule (current : EngineRegistry) (window : ℕ) : Prop :=
  ∀ arrivals, ClockOrdered (arrivals.flatMap (current.generated codec yara)) →
    PerRule window (current.scan codec yara window arrivals)

/-- **The keys tell the rules apart**: no two rules that match some event
have alerts with one description and one technique. -/
def EngineRegistry.KeysTellApart (current : EngineRegistry) : Prop :=
  ∀ e₁ e₂ m₁ m₂, current.matching codec yara e₁ = .ok m₁ → current.matching codec yara e₂ = .ok m₂ →
    ∀ r₁ ∈ m₁, ∀ r₂ ∈ m₂, r₁.key current.mitre = r₂.key current.mitre →
      (category e₁, r₁.identifier) = (category e₂, r₂.identifier)

variable {codec yara} {current : EngineRegistry} {window : ℕ}

/-! ## What is generated -/

/-- The alerts checked are those `evaluate` returns. -/
theorem generated_alert {a : Arrival} {alerts : List Alert}
    (h : evaluate codec yara current a.event a.draw = .ok alerts) :
    (current.generated codec yara a).map Generated.alert = alerts := by
  obtain ⟨matched, hmatched, rfl⟩ := map_eq_ok.1 h
  unfold EngineRegistry.generated
  rw [hmatched]
  refine List.ext_getElem (by simp) fun i _ _ => ?_
  simp

/-- A match is a rule of the set of its category. -/
theorem mem_rules_of_matching {e : TelemetryEvent} {matched : List Rule} {r : Rule}
    (h : current.matching codec yara e = .ok matched) (hr : r ∈ matched) :
    ∃ rules, current.rule_sets (category e) = some rules ∧ r ∈ rules.rules := by
  unfold EngineRegistry.matching EngineRegistry.scanned at h
  cases hset : current.rule_sets (category e) with
  | none =>
    rw [hset] at h
    cases h
    cases hr
  | some rules =>
    refine ⟨rules, rfl, ?_⟩
    rw [hset] at h
    dsimp only at h
    split at h
    · cases h
      cases hr
    · next hscanned =>
      split at hscanned
      · cases hscanned
      · cases hscanned
        exact yara.scan_subset (mapError_eq_ok.1 h) hr

/-- Within a category the identifier is the rule. -/
theorem rule_eq_of_identifier {e₁ e₂ : TelemetryEvent} {m₁ m₂ : List Rule} {r₁ r₂ : Rule}
    (h₁ : current.matching codec yara e₁ = .ok m₁) (hr₁ : r₁ ∈ m₁)
    (h₂ : current.matching codec yara e₂ = .ok m₂) (hr₂ : r₂ ∈ m₂)
    (hid : (category e₁, r₁.identifier) = (category e₂, r₂.identifier)) : r₁ = r₂ := by
  obtain ⟨hcat, hident⟩ := Prod.mk.inj hid
  obtain ⟨rules, hset, hmem₁⟩ := mem_rules_of_matching h₁ hr₁
  obtain ⟨rules', hset', hmem₂⟩ := mem_rules_of_matching h₂ hr₂
  rw [hcat, hset'] at hset
  obtain rfl := Option.some.inj hset
  exact List.inj_on_of_nodup_map rules'.nodup hmem₁ hmem₂ hident

/-- What a generated alert comes from. -/
theorem mem_generated {a : Arrival} {g : Generated} (hg : g ∈ current.generated codec yara a) :
    ∃ matched r, current.matching codec yara a.event = .ok matched ∧ r ∈ matched ∧
      g.rule = (category a.event, r.identifier) ∧
      g.sig = ⟨a.event.node_id, (r.key current.mitre).1, (r.key current.mitre).2⟩ := by
  unfold EngineRegistry.generated at hg
  split at hg
  · cases hg
  · next matched hmatched =>
    obtain ⟨i, hi, rfl⟩ := List.mem_mapIdx.1 hg
    exact ⟨matched, matched[i], hmatched, List.getElem_mem hi, rfl, signatureOf_build_alert ..⟩

/-- A match generates an alert. -/
theorem exists_generated {a : Arrival} {matched : List Rule} {r : Rule}
    (h : current.matching codec yara a.event = .ok matched) (hr : r ∈ matched) :
    ∃ g ∈ current.generated codec yara a, g.rule = (category a.event, r.identifier) ∧
      g.sig = ⟨a.event.node_id, (r.key current.mitre).1, (r.key current.mitre).2⟩ := by
  obtain ⟨i, hi, rfl⟩ := List.getElem_of_mem hr
  unfold EngineRegistry.generated
  rw [h]
  exact ⟨_, List.mem_mapIdx.2 ⟨i, hi, rfl⟩, rfl, signatureOf_build_alert ..⟩

/-! ## What the deduplicator remembers -/

variable {e : ExactDeduplicator} {h : List (Generated × Bool)} {gs : List Generated}
  {sig : AlertSignature}

/-- Each time it remembers is that of an emitted alert. -/
def ExactDeduplicator.Remembers (e : ExactDeduplicator) (h : List (Generated × Bool)) : Prop :=
  ∀ sig t, e.last sig = some t → ∃ g, (g, true) ∈ h ∧ g.sig = sig ∧ g.now = t

/-- What a check does: it suppresses and changes nothing, or it emits and
records the clock. -/
theorem ExactDeduplicator.checkAndRecord_cases (e : ExactDeduplicator) (sig : AlertSignature)
    (now : ℕ) :
    (∃ t, e.last sig = some t ∧ now - t < e.suppressionWindow ∧
      e.checkAndRecord sig now = (false, e)) ∨
    ((∀ t, e.last sig = some t → e.suppressionWindow ≤ now - t) ∧
      e.checkAndRecord sig now =
        (true, { e with last := Function.update e.last sig (some now) })) := by
  unfold ExactDeduplicator.checkAndRecord
  cases hlast : e.last sig with
  | none => exact .inr ⟨fun t ht => absurd ht (by simp), rfl⟩
  | some t =>
    by_cases hlt : now - t < e.suppressionWindow
    · exact .inl ⟨t, rfl, hlt, if_pos hlt⟩
    · refine .inr ⟨fun t' ht' => ?_, if_neg hlt⟩
      obtain rfl := Option.some.inj ht'
      omega

@[simp] theorem ExactDeduplicator.checkAndRecord_window {now : ℕ} :
    (e.checkAndRecord sig now).2.suppressionWindow = e.suppressionWindow := by
  rcases e.checkAndRecord_cases sig now with ⟨t, -, -, heq⟩ | ⟨-, heq⟩ <;> rw [heq]

/-- One check keeps the memory true. -/
theorem ExactDeduplicator.Remembers.check (he : e.Remembers h) (g : Generated) :
    (e.checkAndRecord g.sig g.now).2.Remembers (h ++ [(g, (e.checkAndRecord g.sig g.now).1)]) := by
  rcases e.checkAndRecord_cases g.sig g.now with ⟨t, -, -, heq⟩ | ⟨-, heq⟩
  · rw [heq]
    intro sig t ht
    obtain ⟨g₀, hg₀, hsig, hnow⟩ := he sig t ht
    exact ⟨g₀, List.mem_append_left _ hg₀, hsig, hnow⟩
  · rw [heq]
    intro sig t ht
    by_cases hsig : sig = g.sig
    · subst hsig
      have hnow : g.now = t := by simpa using ht
      exact ⟨g, List.mem_append_right _ (List.mem_singleton_self _), rfl, hnow⟩
    · have hold : e.last sig = some t := by
        have ht : Function.update e.last g.sig (some g.now) sig = some t := ht
        rwa [Function.update_of_ne hsig] at ht
      obtain ⟨g₀, hg₀, hsig₀, hnow⟩ := he sig t hold
      exact ⟨g₀, List.mem_append_left _ hg₀, hsig₀, hnow⟩

/-- **A suppressed alert has a recent emission of its signature.** -/
theorem ExactDeduplicator.suppressed_recent {before after : List (Generated × Bool)}
    {g : Generated} (he : e.Remembers h) (htrace : e.trace gs = before ++ (g, false) :: after) :
    ∃ g₀, (g₀, true) ∈ h ++ before ∧ g₀.sig = g.sig ∧ g.now - g₀.now < e.suppressionWindow := by
  induction gs generalizing e h before with
  | nil => simp [trace] at htrace
  | cons g' gs ih =>
    unfold trace at htrace
    cases before with
    | nil =>
      -- the alert at the head is the suppressed one
      obtain ⟨hhead, -⟩ := List.cons.inj htrace
      obtain ⟨rfl, hans⟩ := Prod.mk.inj hhead
      rcases e.checkAndRecord_cases g'.sig g'.now with ⟨t, hlast, hlt, -⟩ | ⟨-, heq⟩
      · obtain ⟨g₀, hg₀, hsig, rfl⟩ := he _ t hlast
        exact ⟨g₀, by simpa using hg₀, hsig, hlt⟩
      · rw [heq] at hans
        cases hans
    | cons b before =>
      obtain ⟨rfl, htail⟩ := List.cons.inj htrace
      have hrec := ih (he.check g') htail
      rwa [List.append_assoc, checkAndRecord_window] at hrec

theorem ExactDeduplicator.trace_fst : (e.trace gs).map Prod.fst = gs := by
  induction gs generalizing e with
  | nil => rfl
  | cons g gs ih => rw [trace, List.map_cons, ih]

/-! ## One instant -/

/-- A remembered signature stays remembered. -/
theorem ExactDeduplicator.last_isSome_check {now : ℕ} {sig' : AlertSignature}
    (hlast : (e.last sig).isSome) : ((e.checkAndRecord sig' now).2.last sig).isSome := by
  rcases e.checkAndRecord_cases sig' now with ⟨t, -, -, heq⟩ | ⟨-, heq⟩
  · rw [heq]
    exact hlast
  · rw [heq]
    by_cases hsig : sig = sig'
    · subst hsig
      simp
    · have hkeep : Function.update e.last sig' (some now) sig = e.last sig :=
        Function.update_of_ne hsig ..
      show (Function.update e.last sig' (some now) sig).isSome = true
      rw [hkeep]
      exact hlast

/-- A checked signature is remembered. -/
theorem ExactDeduplicator.last_isSome_check_self {now : ℕ} :
    ((e.checkAndRecord sig now).2.last sig).isSome := by
  rcases e.checkAndRecord_cases sig now with ⟨t, hlast, -, heq⟩ | ⟨-, heq⟩
  · rw [heq]
    simp [hlast]
  · rw [heq]
    simp

/-- At the first instant nothing remembered is emitted again. -/
theorem ExactDeduplicator.suppressed_of_last (hwindow : 0 < e.suppressionWindow)
    (hgs : ∀ g ∈ gs, g.now = 0) (hlast : (e.last sig).isSome) :
    ∀ x ∈ e.trace gs, x.1.sig = sig → x.2 = false := by
  induction gs generalizing e with
  | nil => simp [trace]
  | cons g gs ih =>
    obtain ⟨hnow, htail⟩ := List.forall_mem_cons.1 hgs
    intro x hx hsig
    rcases List.mem_cons.1 hx with rfl | hx
    · rcases e.checkAndRecord_cases g.sig g.now with ⟨t, -, -, heq⟩ | ⟨hold, -⟩
      · rw [heq]
      · obtain ⟨t, ht⟩ := Option.isSome_iff_exists.1 hlast
        have := hold t (hsig ▸ ht)
        omega
    · exact ih (by simpa using hwindow) htail (last_isSome_check hlast) x hx hsig

/-- **At one instant a signature is emitted once.** -/
theorem ExactDeduplicator.trace_pairwise (hwindow : 0 < e.suppressionWindow)
    (hgs : ∀ g ∈ gs, g.now = 0) :
    (e.trace gs).Pairwise fun x y => x.2 = true → y.2 = true → x.1.sig ≠ y.1.sig := by
  induction gs generalizing e with
  | nil => exact .nil
  | cons g gs ih =>
    obtain ⟨-, htail⟩ := List.forall_mem_cons.1 hgs
    refine List.pairwise_cons.2 ⟨fun y hy _ hemitted hsig => ?_, ih (by simpa using hwindow) htail⟩
    -- the head is remembered once checked, so nothing after it is let through again
    have hlast : ((e.checkAndRecord g.sig g.now).2.last g.sig).isSome := last_isSome_check_self
    have hsuppressed := suppressed_of_last (by simpa using hwindow) htail hlast y hy hsig.symm
    rw [hemitted] at hsuppressed
    cases hsuppressed

/-! ## When suppression is per rule -/

variable {arrivals : List Arrival}

/-- Every alert generated is in the outcome, with its answer. -/
theorem scan_map_fst : (current.scan codec yara window arrivals).map Prod.fst =
    arrivals.flatMap (current.generated codec yara) := ExactDeduplicator.trace_fst

/-- The alert of an answer is of some event of the stream. -/
theorem mem_generated_of_mem_scan {x : Generated × Bool}
    (hx : x ∈ current.scan codec yara window arrivals) :
    ∃ a ∈ arrivals, x.1 ∈ current.generated codec yara a := by
  have hmem : x.1 ∈ (current.scan codec yara window arrivals).map Prod.fst := List.mem_map_of_mem hx
  rw [scan_map_fst] at hmem
  exact List.mem_flatMap.1 hmem

/-- **Keys that tell the rules apart suffice.** -/
theorem suppressesPerRule_of_keys (hkeys : current.KeysTellApart codec yara) :
    current.SuppressesPerRule codec yara window := by
  intro arrivals hclock before g after houtcome
  have hempty : ExactDeduplicator.Remembers ⟨fun _ => none, window⟩ [] := fun _ _ h => by cases h
  obtain ⟨g₀, hg₀, hsig, hlt⟩ := ExactDeduplicator.suppressed_recent hempty houtcome
  rw [List.nil_append] at hg₀
  -- both alerts are of this stream, the emitted one first
  have hmem : (g, false) ∈ current.scan codec yara window arrivals :=
    houtcome ▸ List.mem_append_right _ List.mem_cons_self
  have hmem₀ : (g₀, true) ∈ current.scan codec yara window arrivals :=
    houtcome ▸ List.mem_append_left _ hg₀
  obtain ⟨a, -, hga⟩ := mem_generated_of_mem_scan hmem
  obtain ⟨a₀, -, hga₀⟩ := mem_generated_of_mem_scan hmem₀
  have horder : g₀.now ≤ g.now := by
    have hfst : (current.scan codec yara window arrivals).map Prod.fst =
        arrivals.flatMap (current.generated codec yara) := scan_map_fst
    rw [← hfst, houtcome, List.map_append, List.map_cons] at hclock
    exact (List.pairwise_append.1 hclock).2.2 g₀ (List.mem_map_of_mem hg₀) g List.mem_cons_self
  -- one signature is one node and one key, and the key is of one rule
  obtain ⟨m, r, hm, hr, hrule, hsig'⟩ := mem_generated hga
  obtain ⟨m₀, r₀, hm₀, hr₀, hrule₀, hsig₀⟩ := mem_generated hga₀
  have hsame : g₀.alert.node_id = g.alert.node_id := congrArg AlertSignature.node_id hsig
  have hkey : r₀.key current.mitre = r.key current.mitre := by
    rw [hsig₀, hsig'] at hsig
    exact Prod.ext (congrArg AlertSignature.rule_identifier hsig)
      (congrArg AlertSignature.mitre_technique hsig)
  have hid := hkeys _ _ _ _ hm₀ hm r₀ hr₀ r hr hkey
  exact ⟨g₀, hg₀, by rw [hrule₀, hrule, hid], hsame, horder, hlt⟩

/-- Where suppression is per rule, each rule that matches has an alert
emitted under its signature. -/
theorem exists_emitted (hrule : PerRule window (current.scan codec yara window arrivals))
    {a : Arrival} (ha : a ∈ arrivals) {matched : List Rule} {r : Rule}
    (hm : current.matching codec yara a.event = .ok matched) (hr : r ∈ matched) :
    ∃ f, (f, true) ∈ current.scan codec yara window arrivals ∧
      f.rule = (category a.event, r.identifier) ∧
      f.sig = ⟨a.event.node_id, (r.key current.mitre).1, (r.key current.mitre).2⟩ := by
  obtain ⟨g, hg, hgrule, hgsig⟩ := exists_generated hm hr
  have hmem : g ∈ (current.scan codec yara window arrivals).map Prod.fst := by
    rw [scan_map_fst]
    exact List.mem_flatMap.2 ⟨a, ha, hg⟩
  obtain ⟨⟨g', passed⟩, hg', rfl⟩ := List.mem_map.1 hmem
  cases passed with
  | true => exact ⟨g', hg', hgrule, hgsig⟩
  | false =>
    -- it was suppressed by an emission of its own rule, which has its signature
    obtain ⟨before, after, houtcome⟩ := List.append_of_mem hg'
    obtain ⟨g₀, hg₀, hsame, hnode, -, -⟩ := hrule before g' after houtcome
    have hg₀ : (g₀, true) ∈ current.scan codec yara window arrivals :=
      houtcome ▸ List.mem_append_left _ hg₀
    obtain ⟨a₀, -, hga₀⟩ := mem_generated_of_mem_scan hg₀
    obtain ⟨m₀, r₀, hm₀, hr₀, hrule₀, hsig₀⟩ := mem_generated hga₀
    obtain rfl : r₀ = r := rule_eq_of_identifier hm₀ hr₀ hm hr (by rw [← hrule₀, ← hgrule, hsame])
    have hnode₀ : a₀.event.node_id = a.event.node_id := by
      have h₀ := congrArg AlertSignature.node_id hsig₀
      have h := congrArg AlertSignature.node_id hgsig
      exact h₀.symm.trans (hnode.trans h)
    exact ⟨g₀, hg₀, hsame.trans hgrule, by rw [hsig₀, hnode₀]⟩

/-- The node of an event has no part in what it matches. -/
theorem matching_node (e : TelemetryEvent) (node : Uuid) :
    current.matching codec yara { e with node_id := node } = current.matching codec yara e := rfl

/-- **Keys that tell the rules apart are necessary**: two events on one
node at one instant show any key two rules share. -/
theorem keys_of_suppressesPerRule (hwindow : 0 < window)
    (hper : current.SuppressesPerRule codec yara window) : current.KeysTellApart codec yara := by
  intro e₁ e₂ m₁ m₂ h₁ h₂ r₁ hr₁ r₂ hr₂ hkey
  -- the second event is moved to the node of the first, where a shared key would collide
  let a₁ : Arrival := ⟨e₁, fun _ => ⟨⟨0⟩, 0⟩, fun _ => 0⟩
  let a₂ : Arrival := ⟨{ e₂ with node_id := e₁.node_id }, fun _ => ⟨⟨0⟩, 0⟩, fun _ => 0⟩
  have hnow : ∀ g ∈ [a₁, a₂].flatMap (current.generated codec yara), g.now = 0 := by
    intro g hg
    obtain ⟨a, ha, hga⟩ := List.mem_flatMap.1 hg
    have hclock : ∀ i, a.clock i = 0 := by
      intro i
      rcases List.mem_cons.1 ha with rfl | ha
      · rfl
      · obtain rfl := List.mem_singleton.1 ha
        rfl
    unfold EngineRegistry.generated at hga
    split at hga
    · cases hga
    · obtain ⟨i, -, rfl⟩ := List.mem_mapIdx.1 hga
      exact hclock i
  have hclock : ClockOrdered ([a₁, a₂].flatMap (current.generated codec yara)) :=
    List.pairwise_of_forall_mem_list fun g hg g' hg' => by
      have h := hnow g hg
      omega
  have hrule := hper [a₁, a₂] hclock
  have ha₁ : a₁ ∈ [a₁, a₂] := List.mem_cons_self
  have ha₂ : a₂ ∈ [a₁, a₂] := List.mem_cons_of_mem _ List.mem_cons_self
  obtain ⟨f₁, hf₁, hfrule₁, hsig₁⟩ := exists_emitted hrule ha₁ h₁ hr₁
  obtain ⟨f₂, hf₂, hfrule₂, hsig₂⟩ :=
    exists_emitted hrule ha₂ ((matching_node e₂ e₁.node_id).trans h₂) hr₂
  have hsig : f₁.sig = f₂.sig := by rw [hsig₁, hsig₂, hkey]
  -- one signature is emitted once at this instant, so the two emissions are one
  have hpair : (current.scan codec yara window [a₁, a₂]).Pairwise
      fun x y => x.2 = true → y.2 = true → x.1.sig ≠ y.1.sig :=
    ExactDeduplicator.trace_pairwise hwindow hnow
  have hone : f₁ = f₂ := by
    by_contra hne
    have : Std.Symm fun x y : Generated × Bool => x.2 = true → y.2 = true → x.1.sig ≠ y.1.sig :=
      ⟨fun x y hxy hy hx => (hxy hx hy).symm⟩
    exact hpair.forall hf₁ hf₂ (fun h => hne (congrArg Prod.fst h)) rfl rfl hsig
  calc (category e₁, r₁.identifier) = f₁.rule := hfrule₁.symm
    _ = f₂.rule := by rw [hone]
    _ = (category e₂, r₂.identifier) := hfrule₂

/-- **Suppression is per rule exactly where the keys tell the rules
apart**, or nothing is suppressed at all. -/
theorem suppressesPerRule_iff (codec : JsonCodec) (yara : YaraX) (current : EngineRegistry)
    (window : ℕ) : current.SuppressesPerRule codec yara window ↔
      window = 0 ∨ current.KeysTellApart codec yara := by
  constructor
  · intro hper
    rcases Nat.eq_zero_or_pos window with hzero | hpos
    · exact .inl hzero
    · exact .inr (keys_of_suppressesPerRule hpos hper)
  · rintro (rfl | hkeys)
    · -- an empty window suppresses nothing
      intro arrivals _ before g after houtcome
      have hempty : ExactDeduplicator.Remembers ⟨fun _ => none, 0⟩ [] := fun _ _ h => by cases h
      obtain ⟨g₀, -, -, hlt⟩ := ExactDeduplicator.suppressed_recent hempty houtcome
      exact absurd hlt (Nat.not_lt_zero _)
    · exact suppressesPerRule_of_keys hkeys

/-- A rule for reverse shells and one for miners, described alike. -/
def alikeRules : Rules where
  rules :=
    [⟨"Linux_Reverse_Shell", [("description", .String "Suspicious process")]⟩,
      ⟨"Linux_Miner", [("description", .String "Suspicious process")]⟩]
  nodup := by decide

/-- A scanner that finds every rule in every buffer. -/
def allMatch : YaraX where
  scan rules _ := .ok rules.rules
  scan_subset h := by cases h; exact List.Subset.refl _

/-- The rules described alike, for events of processes. -/
def alikeRegistry : EngineRegistry :=
  ⟨fun c => if c = "process" then some alikeRules else none, .default⟩

/-- An event of a process. -/
def processEvent : TelemetryEvent :=
  ⟨"1", ⟨7⟩, "", "process", 0, .obj [("cmdline", .str "bash -i")], none⟩

/-- **The miner goes unreported**: its alert is suppressed by that of the
other rule, and no alert of its own was emitted. -/
theorem not_suppressesPerRule_alike :
    ¬ alikeRegistry.SuppressesPerRule JsonText.codec allMatch 60 := by
  intro hper
  let a : Arrival := ⟨processEvent, fun i => ⟨⟨BitVec.ofNat 128 i⟩, 0⟩, fun i => i⟩
  let shell : Generated := ⟨("process", "Linux_Reverse_Shell"),
    build_alert processEvent alikeRules.rules[0] .default ⟨⟨0⟩, 0⟩, 0⟩
  let miner : Generated := ⟨("process", "Linux_Miner"),
    build_alert processEvent alikeRules.rules[1] .default ⟨⟨1⟩, 0⟩, 1⟩
  have hgenerated : [a].flatMap (alikeRegistry.generated JsonText.codec allMatch) =
      [shell, miner] := rfl
  have hclock : ClockOrdered [shell, miner] := by
    simp [ClockOrdered, shell, miner]
  have houtcome : alikeRegistry.scan JsonText.codec allMatch 60 [a] =
      [(shell, true)] ++ (miner, false) :: [] := by
    unfold EngineRegistry.scan
    rw [hgenerated]
    rfl
  obtain ⟨g₀, hg₀, hrule, -⟩ := hper [a] (hgenerated ▸ hclock) _ _ _ houtcome
  obtain rfl : g₀ = shell := congrArg Prod.fst (List.mem_singleton.1 hg₀)
  exact absurd hrule (by decide)

end AigisZero.RuleEngine
