import AigisZero.Backend.Order
import AigisZero.EndToEnd

/-!
# From a query result to the event log

A result can reach the API backend more than once: as ingest publishes it
and as the router forwards it, again where the agent puts a failed batch
back, where the router starts over, where the consumer reads again. All
copies are read as one row, save for its type, and the log keeps the first.
This module says what the log holds of a result, whatever copies of it are
delivered, and when it holds it.
-/

namespace AigisZero

open Agent Fleet Router RuleEngine Backend

/-- **A result of an enrolled node**, with the sequence number drawn for
it. -/
structure Collected where
  result : OsqueryResult
  node : Uuid
  sequence : Uuid
  uuid : UuidText.standard.parse result.agent_uuid = .ok node

variable (codec : JsonCodec)

/-- What reaches the consumer of a result that is encoded, published and
routed once: the message of the raw topic, and what the router makes of
it. -/
def delivered (passage : Passage) (result : OsqueryResult) :
    Option (TopicMessage × TopicMessage) := do
  let encoded ← encode_osquery_result .standard codec result passage.sequence
  let val ← codec.ofText encoded
  let event := incoming (protoEvent codec val)
  let publication := published .standard codec passage.agents_topic event passage.envelope
  let record := (routed codec (passage.delivered publication) passage.metrics).1
  return (⟨publication.topic, publication.payload⟩, ⟨record.topic, record.payload⟩)

namespace Collected

/-- **A copy of a result**: however it is published and routed, and how
often. -/
def Copy (x : Collected) (msg : TopicMessage) : Prop :=
  ∃ passage copies, passage.sequence = x.sequence ∧ passage.agents_topic = "aigis.events.raw" ∧
    delivered codec passage x.result = some copies ∧ (msg = copies.1 ∨ msg = copies.2)

/-- The category of a result: that of its query, where the router knows
it. -/
def category (x : Collected) : String :=
  match route_topic x.result.query_name with
  | some topic => normalized_category topic x.result.query_name
  | none => "osquery"

/-- The row of a result, under a type. -/
def row (x : Collected) (event_type : String) : NewEventLogEntity where
  event_id := x.sequence
  node_id := x.node
  event_type := event_type
  hostname := "unknown"
  payload := x.result.toJson
  raw_sequence_id := some x.sequence.toText
  recorded_at := x.result.timestamp_ns.toInt

end Collected

variable {codec} {x : Collected} {passage : Passage}

/-! ## Each copy is read as the row -/

/-- What is read of an envelope of the result, whatever type it is
under. -/
theorem logEntity_ingested (hsequence : passage.sequence = x.sequence) {json : Json}
    {event_type : String} (htype : json.get? "event_type" = some (.str event_type))
    (hsame : ∀ k, k ≠ "event_type" → json.get? k = (telemetryEnvelope .standard codec
      (ingested .standard codec passage x.result) passage.envelope).get? k) (draw : Draw) :
    logEntity .standard json draw = some (x.row event_type) := by
  have hsequence_id : (ingested .standard codec passage x.result).sequence_id =
      x.sequence.toText := congrArg Uuid.toText hsequence
  have hnumbered : (ingested .standard codec passage x.result).sequence_id ≠ "" :=
    hsequence_id ▸ x.sequence.toText_ne_empty
  have hid : eventId .standard (ingested .standard codec passage x.result) passage.envelope =
      x.sequence.toText := by
    rw [eventId, if_neg hnumbered, hsequence_id]
  have hnode_id : (ingested .standard codec passage x.result).node_id = x.result.agent_uuid := rfl
  have htime : (ingested .standard codec passage x.result).timestamp_ns =
      x.result.timestamp_ns := rfl
  have hparse : UuidText.standard.parse = Uuid.parseStr := rfl
  have hread : UuidText.standard.parse x.sequence.toText = .ok x.sequence := by
    rw [hparse, Uuid.parseStr_toText]
  unfold logEntity Collected.row
  simp only [htype, hsame "node_id" (by decide), hsame "hostname" (by decide),
    hsame "payload" (by decide), hsame "timestamp_ns" (by decide), hsame "id" (by decide),
    hsame "raw_sequence_id" (by decide), hsame "sequence_id" (by decide), telemetryEnvelope_get?,
    payloadVal_ingested, hid, hsequence_id, hnode_id, htime, Option.some_or, Option.bind_some,
    Json.asStr?_str, Json.asI64?_toInt, x.uuid, hread, Except.toOption, Option.getD_some,
    Option.bind_eq_bind, Option.map_some]
  rfl

/-- The envelope of the result, as ingest publishes it. -/
def envelopeOf (codec : JsonCodec) (x : Collected) (passage : Passage) : Json :=
  telemetryEnvelope .standard codec (ingested .standard codec passage x.result) passage.envelope

theorem canonical_envelopeOf : (envelopeOf codec x passage).Canonical 127 :=
  canonical_telemetryEnvelope payloadVal_ingested (x.result.canonical_toJson.mono (by omega))

/-- What the router gets of a result. -/
def rawMessage (codec : JsonCodec) (x : Collected) (passage : Passage) : RawMessage :=
  passage.delivered (published .standard codec passage.agents_topic
    (ingested .standard codec passage x.result) passage.envelope)

/-- The agent's stages leave the envelope, under the topic of ingest. -/
theorem delivered_eq : delivered codec passage x.result =
    some (⟨passage.agents_topic, codec.toVec (envelopeOf codec x passage)⟩,
      ⟨(routed codec (rawMessage codec x passage) passage.metrics).1.topic,
        (routed codec (rawMessage codec x passage) passage.metrics).1.payload⟩) := by
  obtain ⟨val, hread, -⟩ := Option.map_eq_some_iff.1
    (protoEvent_encode .standard codec x.result passage.sequence)
  obtain ⟨encoded, hencoded, hval⟩ := Option.bind_eq_some_iff.1 hread
  have hincoming := incoming_encode hencoded hval
  unfold delivered
  simp only [hencoded, hval, hincoming, Option.bind_eq_bind, Option.bind_some]
  rfl

/-- The copy on the raw topic is read as the row, under the type of the
agent. -/
theorem parse_published (hsequence : passage.sequence = x.sequence) (draw : Draw) :
    parse_log_entity .standard codec
        ⟨"aigis.events.raw", codec.toVec (envelopeOf codec x passage)⟩ draw =
      some (x.row "osquery") := by
  have htopic : starts_with "aigis.events.raw" "aigis.events" = true := by decide
  rw [parse_log_entity, if_pos htopic, codec.fromSlice_toVec canonical_envelopeOf, Option.bind_some]
  exact logEntity_ingested hsequence (telemetryEnvelope_get? ..) (fun _ _ => rfl) draw

/-- The copy the router makes is read as the row, under the category. -/
theorem parse_routed (hsequence : passage.sequence = x.sequence) (draw : Draw) :
    parse_log_entity .standard codec
        ⟨(routed codec (rawMessage codec x passage) passage.metrics).1.topic,
          (routed codec (rawMessage codec x passage) passage.metrics).1.payload⟩ draw =
      some (x.row x.category) := by
  have hpayload : codec.fromSlice (rawMessage codec x passage).payload =
      some (envelopeOf codec x passage) := codec.fromSlice_toVec canonical_envelopeOf
  have htype : eventType (envelopeOf codec x passage) = x.result.query_name := eventType_ingested _
  cases hroute : route_topic x.result.query_name with
  | some topic =>
    obtain ⟨hrecord, -⟩ := process_of_route passage.metrics hpayload (htype.symm ▸ hroute)
    have hcategory : x.category = normalized_category topic x.result.query_name := by
      rw [Collected.category, hroute]
    have hget : ∀ k, ((envelopeOf codec x passage).insert "event_type" (.str x.category)).get? k =
        if "event_type" = k then some (.str x.category) else (envelopeOf codec x passage).get? k :=
      fun k => Json.get?_insert_obj
    have hread : codec.fromSlice (codec.toVec ((envelopeOf codec x passage).insert "event_type"
        (.str x.category))) = some _ :=
      codec.fromSlice_toVec (Json.canonical_insert canonical_envelopeOf .str)
    rw [htype, ← hcategory] at hrecord
    rw [hrecord, parse_log_entity,
      if_pos (topic_of_starts (List.mem_cons_of_mem _ (route_topic_mem hroute)))]
    dsimp only
    rw [hread, Option.bind_some]
    exact logEntity_ingested hsequence ((hget _).trans (if_pos rfl))
      (fun k hk => (hget k).trans (if_neg (Ne.symm hk))) draw
  | none =>
    -- nobody routes the query, and what goes to the dead letters is the message as it came
    have hcategory : x.category = "osquery" := by rw [Collected.category, hroute]
    have hdlq : starts_with dlq "aigis.events" = true := by decide
    have hrecord : (routed codec (rawMessage codec x passage) passage.metrics).1 =
        dlqRecord (rawMessage codec x passage) "Unclassified event type" := by
      unfold routed
      simp only [hpayload, htype, hroute, Option.getD_none, if_true]
    have htopic : (dlqRecord (rawMessage codec x passage) "Unclassified event type").topic = dlq :=
      rfl
    rw [hrecord, hcategory, parse_log_entity, htopic, if_pos hdlq]
    show (codec.fromSlice (rawMessage codec x passage).payload).bind _ = _
    rw [hpayload, Option.bind_some]
    exact logEntity_ingested hsequence (telemetryEnvelope_get? ..) (fun _ _ => rfl) draw

/-- **Every copy of a result is read as its row**, whatever is drawn: under
the type of the agent, or under its category. -/
theorem Collected.Copy.read {msg : TopicMessage} (h : x.Copy codec msg) :
    (∀ draw, parse_log_entity .standard codec msg draw = some (x.row "osquery")) ∨
      ∀ draw, parse_log_entity .standard codec msg draw = some (x.row x.category) := by
  obtain ⟨passage, copies, hsequence, htopic, hdelivered, hmsg⟩ := h
  rw [delivered_eq, htopic] at hdelivered
  obtain rfl := Option.some.inj hdelivered
  rcases hmsg with rfl | rfl
  · exact .inl (parse_published hsequence)
  · exact .inr (parse_routed hsequence)

/-! ## What the log holds of it -/

/-- The consumer and the worker, which can crash: what is on the channel
and in the batch is gone. -/
def logWriter (codec : JsonCodec) : Machine LogPipeline (Machine.OrCrash LogAction) :=
  (LogPipeline.machine .standard codec).crashing fun s => { s with channel := [], batch := [] }

/-- **No other message passes for the result**: a message the consumer
reads is a copy of it, or it is of another event. -/
def Collected.Own (x : Collected) (codec : JsonCodec) (msg : TopicMessage) (draw : Draw) : Prop :=
  x.Copy codec msg ∨
    ∀ r, parse_log_entity .standard codec msg draw = some r → r.event_id ≠ x.sequence

/-- What a step of the writer does: it may bring rows, and it may insert
some of those on their way. -/
structure LogMoves (s t : LogPipeline) (brought : List NewEventLogEntity) : Prop where
  pending : ∀ r ∈ t.batch ++ t.channel, r ∈ s.batch ++ s.channel ∨ r ∈ brought
  event_logs : ∃ l, (∀ r ∈ l, r ∈ s.batch ++ s.channel) ∧
    t.event_logs = s.event_logs.insertAll l

section Moves

variable {s t : LogPipeline} {brought : List NewEventLogEntity}

/-- A step that inserts nothing. -/
theorem logMoves_of_pending (h : ∀ r ∈ t.batch ++ t.channel, r ∈ s.batch ++ s.channel ∨ r ∈ brought)
    (hlogs : t.event_logs = s.event_logs) : LogMoves s t brought :=
  ⟨h, [], nofun, hlogs⟩

/-- The batch is inserted, or dropped. -/
theorem logMoves_flush (inserted : Except String Unit) : LogMoves s (s.flush inserted) [] := by
  cases inserted with
  | ok =>
    exact ⟨fun r hr => .inl (List.mem_append_right _ hr),
      s.batch, fun r hr => List.mem_append_left _ hr, rfl⟩
  | error e => exact logMoves_of_pending (fun r hr => .inl (List.mem_append_right _ hr)) rfl

theorem logMoves_take {inserted : Except String Unit} (ht : s.take inserted = some t) :
    LogMoves s t [] := by
  unfold LogPipeline.take at ht
  split at ht
  · cases ht
  · next log_entity rest hchannel =>
    -- the row goes from the channel to the batch, and with it to the table or nowhere
    have hmoved : ∀ r, r ∈ (s.batch ++ [log_entity]) ++ rest → r ∈ s.batch ++ s.channel := by
      intro r hr
      rw [hchannel]
      simpa using hr
    dsimp only at ht
    split at ht
    · obtain rfl := Option.some.inj ht
      obtain ⟨hpending, l, hl, hlogs⟩ := logMoves_flush
        (s := { s with channel := rest, batch := s.batch ++ [log_entity] }) inserted
      exact ⟨fun r hr => (hpending r hr).imp_left (hmoved r), l, fun r hr => hmoved r (hl r hr),
        hlogs⟩
    · obtain rfl := Option.some.inj ht
      exact logMoves_of_pending (fun r hr => .inl (hmoved r hr)) rfl

/-- The rows a step of the writer brings. -/
def broughtBy (codec : JsonCodec) : Machine.OrCrash LogAction → List NewEventLogEntity
  | .act a => LogPipeline.brought .standard codec a
  | .crash => []

theorem logMoves_step {a : Machine.OrCrash LogAction} (ht : (logWriter codec).step s a = some t) :
    LogMoves s t (broughtBy codec a) := by
  cases a with
  | crash =>
    obtain rfl := Option.some.inj ht
    exact logMoves_of_pending (fun r hr => absurd hr List.not_mem_nil) rfl
  | act a =>
    cases a with
    | receive msg draw =>
      obtain rfl := LogPipeline.receive_eq_some ht
      refine logMoves_of_pending (fun r hr => ?_) rfl
      rw [← List.append_assoc] at hr
      exact (List.mem_append.1 hr).imp_right fun h => LogPipeline.handedOn_sublist.subset h
    | take inserted => exact logMoves_take ht
    | tick inserted =>
      obtain rfl := Option.some.inj ht
      split
      · exact logMoves_of_pending (fun r hr => .inl hr) rfl
      · exact logMoves_flush inserted

end Moves

/-- **A row of a result**, if it is of the result at all. -/
def Collected.Fits (x : Collected) (r : NewEventLogEntity) : Prop :=
  r.event_id = x.sequence → r = x.row "osquery" ∨ r = x.row x.category

/-- **What the log holds came in with a message**: what is so of every row
that a message of the run is read as is so of every row in the log. -/
theorem rows_of_received {Q : NewEventLogEntity → Prop} {l : List (Machine.OrCrash LogAction)}
    {t : LogPipeline} (hreceived : ∀ msg draw, .act (.receive msg draw) ∈ l →
      ∀ r, parse_log_entity .standard codec msg draw = some r → Q r)
    (hrun : (logWriter codec).run .init l = some t) : ∀ r ∈ t.event_logs.rows, Q r := by
  have hinit : (∀ r ∈ LogPipeline.init.batch ++ LogPipeline.init.channel, Q r) ∧
      ∀ r ∈ LogPipeline.init.event_logs.rows, Q r := ⟨nofun, nofun⟩
  have hbrought : ∀ a ∈ l, ∀ _ : LogPipeline, ∀ r ∈ broughtBy codec a, Q r := by
    intro a ha _
    cases a with
    | crash => nofun
    | act a =>
      cases a with
      | receive msg draw =>
        exact fun r hr => hreceived msg draw ha r (Option.mem_toList.1 hr)
      | take inserted => nofun
      | tick inserted => nofun
  have hkeep : ∀ s a t, ((∀ r ∈ s.batch ++ s.channel, Q r) ∧ ∀ r ∈ s.event_logs.rows, Q r) →
      (∀ r ∈ broughtBy codec a, Q r) → (logWriter codec).step s a = some t →
      (∀ r ∈ t.batch ++ t.channel, Q r) ∧ ∀ r ∈ t.event_logs.rows, Q r := by
    rintro s a t ⟨hpending, hlogs⟩ ha ht
    obtain ⟨hmoved, rows, hrows, heq⟩ := logMoves_step ht
    refine ⟨fun r hr => (hmoved r hr).elim (hpending r) (ha r), fun r hr => ?_⟩
    rw [heq] at hr
    rcases KeyedTable.mem_rows_insertAll hr with hr | hr
    · exact hlogs r hr
    · exact hpending r (hrows r hr)
  exact ((Machine.always_of_everyStep hkeep hinit
    (Machine.everyStep_of_forall hbrought)).last hrun).2

/-- What a message of the run is read as. -/
theorem Collected.Own.fits {msg : TopicMessage} {draw : Draw} (h : x.Own codec msg draw) :
    ∀ r, parse_log_entity .standard codec msg draw = some r → x.Fits r := by
  intro r hparse hid
  rcases h with h | h
  · rcases h.read with hread | hread
    · exact .inl (Option.some.inj (hparse.symm.trans (hread draw)))
    · exact .inr (Option.some.inj (hparse.symm.trans (hread draw)))
  · exact absurd hid (h r hparse)

/-- **The log has one row for a result**, whatever copies of it are
delivered, how often and in what order, whatever the database refuses and
whenever the writer crashes: every row under its sequence number is of its
node, with the result itself for a payload, and of the type the agent or
the router gives it; there is at most one; and what is in the log stays. -/
theorem history_once {l l' : List (Machine.OrCrash LogAction)} {t u : LogPipeline}
    (hown : ∀ msg draw, .act (.receive msg draw) ∈ l → x.Own codec msg draw)
    (hrun : (logWriter codec).run .init l = some t)
    (hlater : (logWriter codec).run t l' = some u) :
    (∀ r ∈ t.event_logs.rows, r.event_id = x.sequence →
      r = x.row "osquery" ∨ r = x.row x.category) ∧
    (∀ r ∈ t.event_logs.rows, ∀ r' ∈ t.event_logs.rows,
      r.event_id = x.sequence → r'.event_id = x.sequence → r = r') ∧
    t.event_logs.rows <+: u.event_logs.rows := by
  refine ⟨fun r hr => rows_of_received (fun msg draw hmem => (hown msg draw hmem).fits) hrun r hr,
    fun r hr r' hr' hid hid' => ?_, ?_⟩
  · exact List.inj_on_of_nodup_map t.event_logs.nodup hr hr' (hid.trans hid'.symm)
  · refine Machine.run_preserves (I := fun u => t.event_logs.rows <+: u.event_logs.rows)
      (fun s a v hs hv => ?_) hlater (List.prefix_refl _)
    obtain ⟨-, rows, -, hlogs⟩ := logMoves_step hv
    exact hs.trans (hlogs ▸ KeyedTable.rows_prefix_insertAll)

/-- A result with one column, of an enrolled node. -/
def aCollected : Collected where
  result := ⟨"users", "00000000-0000-0000-0000-00000000002a", 5, [⟨[⟨"shell", "/bin/sh"⟩]⟩], .Added⟩
  node := ⟨42⟩
  sequence := ⟨1⟩
  uuid := by decide

/-- It is published once. -/
def aPassage : Passage := ⟨⟨1⟩, ⟨2⟩, "aigis.events.raw", 0, 7, .new⟩

/-- The message of the raw topic. -/
def aCopy : TopicMessage :=
  ⟨"aigis.events.raw", JsonText.codec.toVec (envelopeOf JsonText.codec aCollected aPassage)⟩

theorem own_aCopy (draw : Draw) : aCollected.Own JsonText.codec aCopy draw :=
  .inl ⟨aPassage, _, rfl, rfl, delivered_eq, .inl rfl⟩

/-- The consumer crashes with the row on the channel, and reads the message
again. -/
def rereading : List (Machine.OrCrash LogAction) :=
  [.act (.receive aCopy ⟨0, ⟨0⟩⟩), .crash, .act (.receive aCopy ⟨0, ⟨0⟩⟩)]

theorem history_once_rereading : ∃ t,
    (logWriter JsonText.codec).run .init rereading = some t ∧
      (∀ r ∈ t.event_logs.rows, r.event_id = aCollected.sequence →
        r = aCollected.row "osquery" ∨ r = aCollected.row aCollected.category) ∧
      (∀ r ∈ t.event_logs.rows, ∀ r' ∈ t.event_logs.rows,
        r.event_id = aCollected.sequence → r'.event_id = aCollected.sequence → r = r') ∧
      t.event_logs.rows <+: t.event_logs.rows := by
  have hown : ∀ msg draw, .act (.receive msg draw) ∈ rereading →
      aCollected.Own JsonText.codec msg draw := by
    intro msg draw hmem
    simp only [rereading, List.mem_cons, Machine.OrCrash.act.injEq, LogAction.receive.injEq,
      reduceCtorEq, List.not_mem_nil, or_false, false_or] at hmem
    rcases hmem with ⟨rfl, rfl⟩ | ⟨rfl, rfl⟩
    · exact own_aCopy _
    · exact own_aCopy _
  exact ⟨_, rfl, history_once hown rfl (Machine.run_nil)⟩

/-! ## When it holds it -/

/-- Where the database takes every insert, the log ends up with what the
channel had room for. -/
theorem settled_gathered {l : List LogAction} {s t : LogPipeline}
    (hinserts : (LogPipeline.machine .standard codec).EveryStep LogPipeline.Inserts s l)
    (hrun : (LogPipeline.machine .standard codec).run s l = some t) :
    t.settled = s.settled.insertAll ((LogPipeline.machine .standard codec).gathered
      (LogPipeline.handedOn .standard codec) s l) := by
  induction l generalizing s with
  | nil =>
    obtain rfl := Option.some.inj hrun
    rfl
  | cons a l ih =>
    obtain ⟨u, hu, hrun⟩ := Machine.run_cons_eq_some.1 hrun
    rw [ih (hinserts.2 u hu) hrun, (LogPipeline.settled_step hinserts.1 hu).1, Machine.gathered, hu,
      Option.map_some, Option.getD_some, KeyedTable.insertAll_append]

/-- A row is handed on where the consumer reads it and the channel has
room. -/
theorem mem_handedOn {s : LogPipeline} {a : LogAction} {r : NewEventLogEntity} :
    r ∈ LogPipeline.handedOn .standard codec s a ↔ s.channel.length < PERSIST ∧
      ∃ msg draw, a = .receive msg draw ∧ parse_log_entity .standard codec msg draw = some r := by
  unfold LogPipeline.handedOn
  by_cases hroom : s.channel.length < PERSIST
  · rw [if_pos hroom]
    cases a <;> simp [LogPipeline.brought, hroom]
  · rw [if_neg hroom]
    exact iff_of_false List.not_mem_nil fun h => hroom h.1

/-- **The log holds a result exactly when a copy of it found room**: once
nothing is on its way, the database having taken every insert, there is a
row under its sequence number exactly where the consumer has read a copy
while the channel had room for its row. -/
theorem history_iff {l : List LogAction} {t : LogPipeline}
    (hown : ∀ msg draw, .receive msg draw ∈ l → x.Own codec msg draw)
    (hinserts : (LogPipeline.machine .standard codec).EveryStep LogPipeline.Inserts .init l)
    (hrun : (LogPipeline.machine .standard codec).run .init l = some t)
    (hchannel : t.channel = []) (hbatch : t.batch = []) :
    (∃ r ∈ t.event_logs.rows, r.event_id = x.sequence) ↔
      ∃ before msg draw after s, l = before ++ .receive msg draw :: after ∧
        (LogPipeline.machine .standard codec).run .init before = some s ∧
        s.channel.length < PERSIST ∧ x.Copy codec msg := by
  have hsettled : t.event_logs = KeyedTable.empty.insertAll
      ((LogPipeline.machine .standard codec).gathered (LogPipeline.handedOn .standard codec)
        .init l) := by
    have h := settled_gathered hinserts hrun
    rw [LogPipeline.settled, hbatch, hchannel] at h
    exact h
  rw [hsettled, KeyedTable.exists_mem_insertAll_empty]
  constructor
  · rintro ⟨r, hr, hid⟩
    obtain ⟨before, a, after, s, hl, hbefore, hr⟩ := (Machine.mem_gathered hrun).1 hr
    obtain ⟨hroom, msg, draw, rfl, hparse⟩ := mem_handedOn.1 hr
    have hmem : LogAction.receive msg draw ∈ l := by
      rw [hl]
      exact List.mem_append_right _ List.mem_cons_self
    -- a message under the sequence number of the result is a copy of it
    rcases hown msg draw hmem with hcopy | hother
    · exact ⟨before, msg, draw, after, s, hl, hbefore, hroom, hcopy⟩
    · exact absurd hid (hother r hparse)
  · rintro ⟨before, msg, draw, after, s, hl, hbefore, hroom, hcopy⟩
    obtain ⟨event_type, hread⟩ : ∃ event_type,
        parse_log_entity .standard codec msg draw = some (x.row event_type) := by
      rcases hcopy.read with hread | hread
      · exact ⟨_, hread draw⟩
      · exact ⟨_, hread draw⟩
    refine ⟨x.row event_type, (Machine.mem_gathered hrun).2 ⟨before, _, after, s, hl, hbefore, ?_⟩,
      rfl⟩
    exact mem_handedOn.2 ⟨hroom, msg, draw, rfl, hread⟩

/-- The worker takes the row and inserts it. -/
def inserting : List LogAction := [.receive aCopy ⟨0, ⟨0⟩⟩, .take (.ok ()), .tick (.ok ())]

/-- The row is in the log, and the copy had found room. -/
theorem history_iff_inserting : ∃ t,
    (LogPipeline.machine .standard JsonText.codec).run .init inserting = some t ∧
      t.event_logs.rows = [aCollected.row "osquery"] ∧
      ((∃ r ∈ t.event_logs.rows, r.event_id = aCollected.sequence) ↔
        ∃ before msg draw after s, inserting = before ++ .receive msg draw :: after ∧
          (LogPipeline.machine .standard JsonText.codec).run .init before = some s ∧
          s.channel.length < PERSIST ∧ aCollected.Copy JsonText.codec msg) := by
  let written : LogPipeline := ⟨[], [], KeyedTable.empty.insertAll [aCollected.row "osquery"]⟩
  have hreceive : (LogPipeline.machine .standard JsonText.codec).step .init
      (.receive aCopy ⟨0, ⟨0⟩⟩) = some ⟨[aCollected.row "osquery"], [], .empty⟩ := by
    show some (LogPipeline.init.try_send (parse_log_entity .standard JsonText.codec aCopy _)) = _
    rw [aCopy, parse_published rfl]
    rfl
  have hrun : (LogPipeline.machine .standard JsonText.codec).run .init inserting =
      some written := Machine.run_cons_eq_some.2 ⟨_, hreceive, rfl⟩
  have hown : ∀ msg draw, .receive msg draw ∈ inserting →
      aCollected.Own JsonText.codec msg draw := by
    intro msg draw hmem
    simp only [inserting, List.mem_cons, LogAction.receive.injEq, reduceCtorEq, List.not_mem_nil,
      or_false] at hmem
    obtain ⟨rfl, rfl⟩ := hmem
    exact own_aCopy _
  have hinserts : (LogPipeline.machine .standard JsonText.codec).EveryStep LogPipeline.Inserts
      .init inserting :=
    Machine.everyStep_of_forall (by simp [inserting, LogPipeline.Inserts])
  exact ⟨written, hrun, rfl, history_iff hown hinserts hrun rfl rfl⟩

end AigisZero
