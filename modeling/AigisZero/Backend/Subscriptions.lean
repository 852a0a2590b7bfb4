import AigisZero.Backend.LiveFeed
import AigisZero.Library.SplitOn

/-!
# Two ways to subscribe

The filter of a WebSocket is made of the query it was opened with, and
made again of each `Subscribe` message. The query is cut at its commas and
its parts are trimmed and put in lower case; the topics of a message are
taken as they are. So the two agree on topics that are named as the live
feed names them, and an empty list means nothing in the one and everything
in the other.
-/

namespace AigisZero.Api

open Backend (LiveEvent)

variable {δ : Type*} (P : Platform δ)

/-! ## The loop of a socket -/

/-- What wakes the loop of `handle_socket`: an event that was broadcast, a
message of the client at a time of the clock, or the ping interval. -/
inductive Wakeup where
  | event (event : LiveEvent)
  | message (m : Message) (now : ℕ)
  | tick

/-- One turn of the loop: the filter it goes on with, if it does, and what
it sends. -/
def turn (filter : Filter) : Wakeup → Option Filter × List Frame
  | .event event =>
    (some filter,
      if matches_filter event filter then [.text (P.codec.toText (eventJson P.f32 event))] else [])
  | .message m now => handle_message P now filter m
  | .tick => (some filter, [.ping []])

/-- The filter after some turns, if the loop goes on. -/
def filterAfter : Filter → List Wakeup → Option Filter
  | filter, [] => some filter
  | filter, w :: ws => (turn P filter w).1.bind fun filter => filterAfter filter ws

/-- The frames of the events that a turn sends. -/
def eventFrame (filter : Filter) (w : Wakeup) : List Frame :=
  match w with
  | .event _ => (turn P filter w).2
  | _ => []

/-- The frames of the events that the client of a socket receives. -/
def eventFrames : Filter → List Wakeup → List Frame
  | _, [] => []
  | filter, w :: ws =>
    eventFrame P filter w ++
      match (turn P filter w).1 with
      | some filter => eventFrames filter ws
      | none => []

/-- The filter a socket starts with. -/
def WsQuery.filter (query : WsQuery) : Filter := ⟨query.node_id, parse_topics P query.topics⟩

/-- A `Subscribe` message as a client writes it. -/
def subscribeText (topics : List String) (node_id : Option String) : String :=
  P.codec.toText (.obj [("action", .str "subscribe"), ("topics", .arr (topics.map .str)),
    ("node_id", ofOption node_id)])

/-- A message of the client that is a `Subscribe`. -/
def IsSubscribe (w : Wakeup) : Prop :=
  ∃ text now topics node_id, w = .message (.text text) now ∧
    (P.codec.ofText text).bind WsClientMessage.ofJson = some (.subscribe topics node_id)

/-! ## What is claimed -/

/-- **Both ways of subscribing filter alike**, for these topics and this
node: the query that names them, and a `Subscribe` message on a socket
that was opened without. -/
def FilterAlike (topics : List String) (node_id : Option String) : Prop :=
  ∀ (events : List LiveEvent) (now : ℕ),
    eventFrames P (WsQuery.filter P ⟨some (",".intercalate topics), node_id⟩)
        (events.map .event) =
      eventFrames P (WsQuery.filter P ⟨none, none⟩)
        (.message (.text (subscribeText P topics node_id)) now :: events.map .event)

/-- **The filter is the one acknowledged last**: what was sent for the last
`Subscribe` message names the filter that the loop goes on with. -/
def FilterAcknowledged : Prop :=
  ∀ (filter filter' : Filter) (before after : List Wakeup) (w : Wakeup), IsSubscribe P w →
    (∀ w' ∈ after, ¬ IsSubscribe P w') →
    filterAfter P filter (before ++ w :: after) = some filter' →
      ∃ filter₁, filterAfter P filter before = some filter₁ ∧ (turn P filter₁ w).2 =
        [.text (P.codec.toText
          (WsServerMessage.subscribed filter'.topics filter'.node_id).toJson)]

/-- A list of topics asks for a topic, or for all, in some spelling. -/
def AsksFor (topics : List String) (topic : String) : Prop :=
  ∃ t ∈ topics, ∃ part ∈ t.splitOn ",",
    P.to_lowercase (trim part) = topic ∨ P.to_lowercase (trim part) = "all"

/-- **The topics are spelled as the live feed spells them**: there are
some, and each topic that they ask for is there by its own name, or by
`all`. -/
def PlainTopics (topics : List String) : Prop :=
  topics ≠ [] ∧ ∀ topic ∈ ["logs", "alerts", "heartbeats"], AsksFor P topics topic →
    topic ∈ topics ∨ "all" ∈ topics

variable {P} {filter filter' : Filter} {topics : List String} {node_id : Option String}
  {event : LiveEvent} {w : Wakeup} {ws : List Wakeup}

/-! ## What the acknowledgement says -/

theorem filterAfter_append (filter : Filter) (before ws : List Wakeup) :
    filterAfter P filter (before ++ ws) =
      (filterAfter P filter before).bind fun filter => filterAfter P filter ws := by
  induction before generalizing filter with
  | nil => rfl
  | cons w before ih =>
    show (turn P filter w).1.bind (fun filter => filterAfter P filter (before ++ ws)) =
      ((turn P filter w).1.bind fun filter => filterAfter P filter before).bind _
    rw [Option.bind_assoc]
    exact congrArg _ (funext fun filter => ih filter)

/-- **Only a `Subscribe` message changes the filter.** -/
theorem turn_of_not_subscribe (h : ¬ IsSubscribe P w) (hturn : (turn P filter w).1 = some filter') :
    filter' = filter := by
  cases w with
  | event event => exact (Option.some.inj hturn).symm
  | tick => exact (Option.some.inj hturn).symm
  | message m now =>
    unfold turn handle_message at hturn
    cases m with
    | text text =>
      dsimp only at hturn
      split at hturn
      · next topics node_id hparse => exact absurd ⟨text, now, topics, node_id, rfl, hparse⟩ h
      · exact (Option.some.inj hturn).symm
      · exact (Option.some.inj hturn).symm
    | ping payload => exact (Option.some.inj hturn).symm
    | other => exact (Option.some.inj hturn).symm
    | close => cases hturn
    | gone => cases hturn

theorem filterAfter_of_not_subscribe (h : ∀ w ∈ ws, ¬ IsSubscribe P w)
    (hafter : filterAfter P filter ws = some filter') : filter' = filter := by
  induction ws generalizing filter with
  | nil => exact (Option.some.inj hafter).symm
  | cons w ws ih =>
    obtain ⟨filter₁, hturn, hrest⟩ := Option.bind_eq_some_iff.1 hafter
    obtain rfl := turn_of_not_subscribe (h w List.mem_cons_self) hturn
    exact ih (fun w' hw' => h w' (List.mem_cons_of_mem _ hw')) hrest

/-- A `Subscribe` message is answered with the filter it leaves. -/
theorem turn_of_subscribe (h : IsSubscribe P w) (hturn : (turn P filter w).1 = some filter') :
    (turn P filter w).2 =
      [.text (P.codec.toText
        (WsServerMessage.subscribed filter'.topics filter'.node_id).toJson)] := by
  obtain ⟨text, now, topics, node_id, rfl, hparse⟩ := h
  have heq : turn P filter (.message (.text text) now) =
      (some ⟨node_id, topics.getD filter.topics⟩, [.text (P.codec.toText
        (WsServerMessage.subscribed (topics.getD filter.topics) node_id).toJson)]) := by
    unfold turn handle_message
    dsimp only
    rw [hparse]
  rw [heq] at hturn ⊢
  obtain rfl := Option.some.inj hturn
  rfl

/-- **The filter is the one acknowledged last**, in every run of the loop. -/
theorem filterAcknowledged : FilterAcknowledged P := by
  intro filter filter' before after w hw hafter hrun
  rw [filterAfter_append] at hrun
  obtain ⟨filter₁, hbefore, hrun⟩ := Option.bind_eq_some_iff.1 hrun
  obtain ⟨filter₂, hturn, hrun⟩ := Option.bind_eq_some_iff.1 hrun
  obtain rfl := filterAfter_of_not_subscribe hafter hrun
  exact ⟨filter₁, hbefore, turn_of_subscribe hw hturn⟩

/-! ## What passes the two filters -/

/-- The topics of a filter let a topic through. -/
def Passes (topics : List String) (topic : String) : Prop :=
  topics = [] ∨ topic ∈ topics ∨ "all" ∈ topics

theorem matches_filter_iff : matches_filter event filter = true ↔
    Passes filter.topics (topicAndNode event).1 ∧
      ∀ target ∈ filter.node_id, target = (topicAndNode event).2 := by
  have hany : (filter.topics.any fun t => t = (topicAndNode event).1 || t = "all") = true ↔
      (topicAndNode event).1 ∈ filter.topics ∨ "all" ∈ filter.topics := by
    rw [List.any_eq_true]
    constructor
    · rintro ⟨t, ht, hmatch⟩
      rcases (by simpa using hmatch) with rfl | rfl
      · exact Or.inl ht
      · exact Or.inr ht
    · rintro (ht | ht)
      · exact ⟨_, ht, by simp⟩
      · exact ⟨_, ht, by simp⟩
  have hnode : (filter.node_id.any fun target => target ≠ (topicAndNode event).2) = false ↔
      ∀ target ∈ filter.node_id, target = (topicAndNode event).2 := by
    cases filter.node_id with
    | none => simp
    | some target => simp
  have hempty : filter.topics.isEmpty = true ↔ filter.topics = [] := List.isEmpty_iff
  unfold matches_filter Passes
  dsimp only
  rw [← hany, ← hnode, ← hempty]
  cases filter.topics.isEmpty <;>
    cases (filter.topics.any fun t => t = (topicAndNode event).1 || t = "all") <;>
      cases (filter.node_id.any fun target => target ≠ (topicAndNode event).2) <;> simp

/-- An event of a topic and a node. -/
theorem exists_event {topic : String} (h : topic ∈ ["logs", "alerts", "heartbeats"])
    (node : String) : ∃ event, topicAndNode event = (topic, node) := by
  simp only [List.mem_cons, List.not_mem_nil, or_false] at h
  rcases h with rfl | rfl | rfl
  · exact ⟨.log node "" "" .null 0, rfl⟩
  · exact ⟨.alert "" node "" "" none "" .null 0, rfl⟩
  · exact ⟨.heartbeat node "" 0 0, rfl⟩

theorem topic_of_event (event : LiveEvent) :
    (topicAndNode event).1 ∈ ["logs", "alerts", "heartbeats"] := by
  cases event <;> simp [topicAndNode]

/-- **Filters for one node send alike exactly when their topics pass
alike.** -/
theorem eventFrames_eq_iff {other : List String} :
    (∀ events : List LiveEvent, eventFrames P ⟨node_id, topics⟩ (events.map .event) =
        eventFrames P ⟨node_id, other⟩ (events.map .event)) ↔
      ∀ topic ∈ ["logs", "alerts", "heartbeats"], Passes topics topic ↔ Passes other topic := by
  constructor
  · intro h topic htopic
    obtain ⟨event, hevent⟩ := exists_event htopic (node_id.getD "")
    have hnode : ∀ target ∈ node_id, target = (topicAndNode event).2 := by
      rw [hevent]
      rintro target htarget
      rw [Option.mem_def.1 htarget]
      rfl
    have hpass : ∀ ts, matches_filter event ⟨node_id, ts⟩ = true ↔ Passes ts topic := by
      intro ts
      rw [matches_filter_iff, hevent]
      rw [hevent] at hnode
      exact and_iff_left hnode
    have hone := h [event]
    simp only [List.map_cons, List.map_nil, eventFrames, eventFrame, turn, List.append_nil] at hone
    rw [← hpass, ← hpass]
    cases hleft : matches_filter event ⟨node_id, topics⟩ <;>
      cases hright : matches_filter event ⟨node_id, other⟩ <;> simp [hleft, hright] at hone ⊢
  · intro h events
    induction events with
    | nil => rfl
    | cons event events ih =>
      have hsame : matches_filter event ⟨node_id, topics⟩ =
          matches_filter event ⟨node_id, other⟩ := by
        rw [Bool.eq_iff_iff, matches_filter_iff, matches_filter_iff]
        exact and_congr_left fun _ => h _ (topic_of_event event)
      simp only [List.map_cons, eventFrames, eventFrame, turn, hsame, ih]

/-! ## What the query and the message make of the topics -/

theorem mapM_asStr? (topics : List String) :
    (topics.map Json.str).mapM Json.asStr? = some topics := by
  induction topics with
  | nil => rfl
  | cons t topics ih =>
    rw [List.map_cons, List.mapM_cons, ih]
    rfl

/-- **A `Subscribe` message that was written is read**, and its topics are
taken as they are. -/
theorem turn_subscribeText (now : ℕ) :
    turn P filter (.message (.text (subscribeText P topics node_id)) now) =
      (some ⟨node_id, topics⟩, [.text (P.codec.toText
        (WsServerMessage.subscribed topics node_id).toJson)]) := by
  have hcanonical : ∀ m ∈ [("action", Json.str "subscribe"),
      ("topics", Json.arr (topics.map .str)), ("node_id", ofOption node_id)],
      Json.Canonical 126 m.2 := by
    intro m hm
    simp only [List.mem_cons, List.not_mem_nil, or_false] at hm
    rcases hm with rfl | rfl | rfl
    · exact .str
    · refine .arr fun j hj => ?_
      obtain ⟨s, -, rfl⟩ := List.mem_map.1 hj
      exact .str
    · cases node_id with
      | none => exact .null
      | some s => exact .str
  have hlookup : ∀ k, Fields.lookup k (Fields.ofList [("action", Json.str "subscribe"),
      ("topics", Json.arr (topics.map .str)), ("node_id", ofOption node_id)]) = _ :=
    fun k => Fields.lookup_ofList (by simp)
  have htopics : WsClientMessage.optionalTopics (some (.arr (topics.map .str))) =
      some (some topics) := by
    unfold WsClientMessage.optionalTopics
    dsimp only
    rw [mapM_asStr?]
    rfl
  have hnode : RuleEngine.optionalStr (some (ofOption node_id)) = some node_id := by
    cases node_id <;> rfl
  have hread : (P.codec.ofText (subscribeText P topics node_id)).bind WsClientMessage.ofJson =
      some (.subscribe (some topics) node_id) := by
    rw [subscribeText, P.codec.ofText_members _ hcanonical, Option.bind_some]
    simp only [Json.object, WsClientMessage.ofJson, hlookup]
    simp only [Fields.lookup, WsClientMessage.subscription]
    simp [htopics, hnode, Json.asStr?]
  unfold turn handle_message
  dsimp only
  rw [hread]
  rfl

/-- A topic of the live feed is its own part, trimmed and in lower case. -/
theorem normalise_name (hlower : ∀ s : String, (∀ c ∈ s.toList, c.isLower) → P.to_lowercase s = s)
    {topic : String} (h : topic ∈ ["logs", "alerts", "heartbeats", "all"]) :
    topic.splitOn "," = [topic] ∧ P.to_lowercase (trim topic) = topic := by
  have hcut : ∀ s : String, ',' ∉ s.toList → s.splitOn "," = [s] := by
    intro s hs
    have hsep : "," = String.ofList [','] := rfl
    rw [hsep, splitOn_eq, List.splitOn_eq_singleton hs, List.map_singleton, String.ofList_toList]
  simp only [List.mem_cons, List.not_mem_nil, or_false] at h
  rcases h with rfl | rfl | rfl | rfl
  · exact ⟨hcut _ (by decide), hlower _ (List.all_eq_true.1 (by decide))⟩
  · exact ⟨hcut _ (by decide), hlower _ (List.all_eq_true.1 (by decide))⟩
  · exact ⟨hcut _ (by decide), hlower _ (List.all_eq_true.1 (by decide))⟩
  · exact ⟨hcut _ (by decide), hlower _ (List.all_eq_true.1 (by decide))⟩

/-- **The topics of a query**: the parts of those it names, trimmed and in
lower case. -/
theorem mem_parse_topics (h : topics ≠ []) {topic : String} :
    topic ∈ parse_topics P (some (",".intercalate topics)) ↔
      ∃ t ∈ topics, ∃ part ∈ t.splitOn ",", P.to_lowercase (trim part) = topic := by
  have hcut : (",".intercalate topics).splitOn "," = topics.flatMap (·.splitOn ",") :=
    splitOn_intercalate ',' h
  unfold parse_topics
  dsimp only
  rw [hcut, List.mem_map]
  constructor
  · rintro ⟨part, hpart, rfl⟩
    obtain ⟨t, ht, hpart⟩ := List.mem_flatMap.1 hpart
    exact ⟨t, ht, part, hpart, rfl⟩
  · rintro ⟨t, ht, part, hpart, rfl⟩
    exact ⟨part, List.mem_flatMap.2 ⟨t, ht, hpart⟩, rfl⟩

/-- The topics of a query are never none. -/
theorem parse_topics_ne_nil (t : String) : parse_topics P (some t) ≠ [] := by
  have hsep : "," = String.ofList [','] := rfl
  unfold parse_topics
  dsimp only
  rw [hsep, splitOn_eq]
  simp

theorem passes_query_iff (h : topics ≠ []) {topic : String} :
    Passes (parse_topics P (some (",".intercalate topics))) topic ↔ AsksFor P topics topic := by
  unfold Passes AsksFor
  rw [or_iff_right (parse_topics_ne_nil _), mem_parse_topics h, mem_parse_topics h]
  constructor
  · rintro (⟨t, ht, part, hpart, hname⟩ | ⟨t, ht, part, hpart, hname⟩)
    · exact ⟨t, ht, part, hpart, Or.inl hname⟩
    · exact ⟨t, ht, part, hpart, Or.inr hname⟩
  · rintro ⟨t, ht, part, hpart, hname | hname⟩
    · exact Or.inl ⟨t, ht, part, hpart, hname⟩
    · exact Or.inr ⟨t, ht, part, hpart, hname⟩

/-- Whoever names a topic as the live feed does asks for it. -/
theorem asksFor_of_mem (hlower : ∀ s : String, (∀ c ∈ s.toList, c.isLower) → P.to_lowercase s = s)
    {topic : String} (htopic : topic ∈ ["logs", "alerts", "heartbeats"])
    (h : topic ∈ topics ∨ "all" ∈ topics) : AsksFor P topics topic := by
  have hsubset : topic ∈ ["logs", "alerts", "heartbeats", "all"] := by
    simp only [List.mem_cons, List.not_mem_nil, or_false] at htopic ⊢
    tauto
  rcases h with h | h
  · obtain ⟨hcut, hname⟩ := normalise_name hlower hsubset
    exact ⟨topic, h, topic, by rw [hcut]; exact List.mem_singleton_self _, Or.inl hname⟩
  · have hall : "all" ∈ ["logs", "alerts", "heartbeats", "all"] := by decide
    obtain ⟨hcut, hname⟩ := normalise_name hlower hall
    exact ⟨"all", h, "all", by rw [hcut]; exact List.mem_singleton_self _, Or.inr hname⟩

/-- What a socket that was opened without a query receives behind its
`Subscribe` message. -/
theorem filterAlike_iff : FilterAlike P topics node_id ↔
    ∀ topic ∈ ["logs", "alerts", "heartbeats"],
      Passes (parse_topics P (some (",".intercalate topics))) topic ↔ Passes topics topic := by
  rw [← @eventFrames_eq_iff _ P _ node_id]
  have hsubscribed : ∀ (events : List LiveEvent) (now : ℕ),
      eventFrames P (WsQuery.filter P ⟨none, none⟩)
        (.message (.text (subscribeText P topics node_id)) now :: events.map .event) =
      eventFrames P ⟨node_id, topics⟩ (events.map .event) := by
    intro events now
    show [] ++ (match (turn P (WsQuery.filter P ⟨none, none⟩)
      (.message (.text (subscribeText P topics node_id)) now)).1 with
      | some filter => eventFrames P filter (events.map .event)
      | none => []) = _
    rw [turn_subscribeText]
    exact List.nil_append _
  unfold FilterAlike
  simp only [hsubscribed]
  exact ⟨fun h events => h events 0, fun h events _ => h events⟩

/-- **Both ways of subscribing filter alike exactly where the topics are
spelled as the live feed spells them**; the filter is the one acknowledged
last in any case. -/
theorem filterAlike_iff_plainTopics (P : Platform δ)
    (hlower : ∀ s : String, (∀ c ∈ s.toList, c.isLower) → P.to_lowercase s = s)
    (topics : List String) (node_id : Option String) :
    FilterAlike P topics node_id ∧ FilterAcknowledged P ↔ PlainTopics P topics := by
  rw [and_iff_left filterAcknowledged, filterAlike_iff]
  by_cases hempty : topics = []
  · subst hempty
    -- an empty list is the empty query, which names the empty topic
    have hquery : parse_topics P (some (",".intercalate [])) = [""] := by
      have hcut : (",".intercalate ([] : List String)).splitOn "," = [""] := by
        have hsep : "," = String.ofList [','] := rfl
        rw [String.intercalate_nil, hsep, splitOn_eq]
        rfl
      have hname : P.to_lowercase (trim "") = "" := hlower _ (List.all_eq_true.1 (by decide))
      unfold parse_topics
      dsimp only
      rw [hcut, List.map_singleton, hname]
    refine iff_of_false (fun h => ?_) fun h => absurd rfl h.1
    have hlogs := (h "logs" (by decide)).2 (Or.inl rfl)
    rw [hquery] at hlogs
    exact absurd hlogs (by unfold Passes; decide)
  · unfold PlainTopics
    rw [and_iff_right hempty]
    refine forall₂_congr fun topic htopic => ?_
    rw [passes_query_iff hempty]
    have hpasses : Passes topics topic ↔ topic ∈ topics ∨ "all" ∈ topics := or_iff_right hempty
    rw [hpasses]
    exact ⟨fun h => h.1, fun h => ⟨h, asksFor_of_mem hlower htopic⟩⟩

/-! ## Topics in capitals -/

/-- A backend whose `to_lowercase` knows the Latin letters. -/
def latinPlatform : Platform (List String) :=
  { nodesPlatform with to_lowercase := fun s => String.ofList (s.toList.map Char.toLower) }

theorem latinPlatform_lower (s : String) (h : ∀ c ∈ s.toList, c.isLower) :
    latinPlatform.to_lowercase s = s := by
  have hmap : s.toList.map Char.toLower = s.toList := by
    refine (List.map_congr_left fun c hc => ?_).trans (List.map_id _)
    have hlower := h c hc
    unfold Char.isLower at hlower
    unfold Char.toLower
    simp only [ge_iff_le, Bool.and_eq_true, decide_eq_true_eq] at hlower
    have hne : ¬ c.val ≤ 90 := by
      intro hle
      have h97 := hlower.1
      have hbad := UInt32.le_trans h97 hle
      exact absurd hbad (by decide)
    simp [hne]
  show String.ofList (s.toList.map Char.toLower) = s
  rw [hmap, String.ofList_toList]

/-- **Alerts in capitals are sent to whoever asks in the query**, and not
to whoever asks in a message. -/
theorem not_filterAlike_capitals :
    ¬ (FilterAlike latinPlatform ["Alerts"] none ∧ FilterAcknowledged latinPlatform) := by
  rintro ⟨halike, -⟩
  have hcut : "Alerts".splitOn "," = ["Alerts"] := by
    have hsep : "," = String.ofList [','] := rfl
    rw [hsep, splitOn_eq, List.splitOn_eq_singleton (by decide), List.map_singleton,
      String.ofList_toList]
  have hquery : AsksFor latinPlatform ["Alerts"] "alerts" :=
    ⟨"Alerts", List.mem_singleton_self _, "Alerts", by rw [hcut]; exact List.mem_singleton_self _,
      Or.inl (by decide)⟩
  have hpasses := (filterAlike_iff.1 halike "alerts" (by decide)).1
    ((passes_query_iff (by decide)).2 hquery)
  exact absurd hpasses (by unfold Passes; decide)

/-- Alerts by their own name are sent to both. -/
theorem filterAlike_iff_plainTopics_alerts :
    FilterAlike latinPlatform ["alerts"] none ∧ FilterAcknowledged latinPlatform ↔
      PlainTopics latinPlatform ["alerts"] :=
  filterAlike_iff_plainTopics latinPlatform latinPlatform_lower ["alerts"] none

end AigisZero.Api
