import AigisZero.Library.FirstWins
import AigisZero.RuleEngine.Pipeline

/-!
# The two sinks of an alert

An alert goes to the alerts topic, for the live feed, and to the alerts
table. Sent alone, it fails where either of them fails; sent in a batch,
it fails only where the table does. This file says when the answer of
`send_batch` means that both have the alert.
-/

namespace AigisZero.RuleEngine

/-- `AlertSeverity::as_str`. -/
def AlertSeverity.as_str : AlertSeverity → String
  | .Low => "low"
  | .Medium => "medium"
  | .High => "high"
  | .Critical => "critical"

/-- `DetectionSource::as_str`. -/
def DetectionSource.as_str : DetectionSource → String
  | .YaraX => "yara_x"
  | .Sigma => "sigma"
  | .Mitre => "mitre"
  | .Behavioral => "behavioral"

/-- A row of the alerts table. -/
structure NewAlertEntity where
  alert_id : Uuid
  node_id : Uuid
  hostname : String
  severity : String
  source : String
  mitre_technique_id : Option String
  mitre_tactic : Option String
  description : String
  triggering_event_id : Option String
  threat_score : ℚ
  status : String
  created_at : ℕ

/-- `NewAlertEntity::from`. -/
def NewAlertEntity.ofAlert (alert : Alert) : NewAlertEntity where
  alert_id := alert.alert_id
  node_id := alert.node_id
  hostname := alert.hostname
  severity := alert.severity.as_str
  source := alert.source.as_str
  mitre_technique_id := alert.mitre_technique_id
  mitre_tactic := alert.mitre_tactic
  description := alert.description
  triggering_event_id := alert.triggering_event_id
  threat_score := alert.threat_score
  status := alert.status
  created_at := alert.created_at

/-- What the two sinks have. -/
structure Sinks where
  /-- The alerts topic. -/
  published : List Alert
  /-- The alerts table. -/
  alerts : KeyedTable NewAlertEntity.alert_id

/-- An alert of a batch, with what the broker answers to it. -/
abbrev Answered := Alert × Except String Unit

namespace Sinks

/-- Nothing published, nothing stored. -/
def empty : Sinks := ⟨[], .empty⟩

/-- `AlertKafkaProducer::publish`. -/
def publish (s : Sinks) (a : Answered) : Except AppError Unit × Sinks :=
  match a.2 with
  | .ok () => (.ok (), { s with published := s.published ++ [a.1] })
  | .error e => (.error (.kafkaProduce ("Alert publish error: " ++ e)), s)

/-- `DualAlertSink::send_alert`. -/
def send_alert (s : Sinks) (a : Answered) (storage : Storage) : Except AppError Unit × Sinks :=
  match s.publish a with
  | (.error e, s) => (.error e, s)
  | (.ok (), s) =>
    match storage.conn with
    | .error e => (.error (.databasePool ("Failed to acquire connection: " ++ e)), s)
    | .ok () =>
      match storage.insert with
      | .error e => (.error (.databaseQuery ("Failed to insert alert: " ++ e)), s)
      | .ok () => (.ok (), { s with alerts := s.alerts.insert (.ofAlert a.1) })

/-- The broadcast of a batch: an alert that fails is only logged. -/
def broadcast (s : Sinks) (batch : List Answered) : Sinks :=
  batch.foldl (fun s a => (s.publish a).2) s

/-- `DualAlertSink::send_batch`. -/
def send_batch (s : Sinks) (batch : List Answered) (storage : Storage) :
    Except AppError Unit × Sinks :=
  match batch with
  | [] => (.ok (), s)
  | _ :: _ =>
    let s := s.broadcast batch
    match storage.conn with
    | .error e => (.error (.databasePool ("Failed to acquire connection: " ++ e)), s)
    | .ok () =>
      match storage.insert with
      | .error e => (.error (.databaseQuery ("Failed to batch insert alerts: " ++ e)), s)
      | .ok () =>
        (.ok (), { s with alerts := s.alerts.insertAll (batch.map fun a => .ofAlert a.1) })

/-- `send_alert` on each alert in turn, up to the first that fails. -/
def send_each (s : Sinks) (storage : Storage) : List Answered → Except AppError Unit × Sinks
  | [] => (.ok (), s)
  | a :: batch =>
    match s.send_alert a storage with
    | (.error e, s) => (.error e, s)
    | (.ok (), s) => s.send_each storage batch

/-- An alert is on the topic, and there is a row under its identifier. -/
def Has (s : Sinks) (alert : Alert) : Prop :=
  alert ∈ s.published ∧ (s.alerts.find alert.alert_id).isSome

/-- **The sinks agree on a batch**: if `send_batch` returns `Ok`, both have
every alert of it, and `send_alert` on each in turn would have come to the
same. -/
def Agrees (s : Sinks) (batch : List Answered) (storage : Storage) : Prop :=
  (s.send_batch batch storage).1 = .ok () →
    (∀ a ∈ batch, (s.send_batch batch storage).2.Has a.1) ∧
      s.send_each storage batch = s.send_batch batch storage

variable {s : Sinks} {a : Answered} {batch : List Answered} {storage : Storage}

/-! ## One call -/

/-- The answer of `send_batch` is that of the database alone. -/
theorem send_batch_fst :
    (s.send_batch batch storage).1 = RuleEngine.send_batch (batch.map Prod.fst) storage := by
  unfold send_batch RuleEngine.send_batch
  cases batch with
  | nil => rfl
  | cons a batch =>
    cases storage.conn with
    | error e => rfl
    | ok =>
      cases storage.insert with
      | error e => rfl
      | ok => rfl

/-- What the topic has after a broadcast: what the broker took of it. -/
theorem broadcast_eq (s : Sinks) (batch : List Answered) :
    s.broadcast batch =
      { s with
        published := s.published ++
          (batch.filter fun a => a.2.toOption.isSome).map Prod.fst } := by
  induction batch generalizing s with
  | nil => simp [broadcast]
  | cons a batch ih =>
    obtain ⟨alert, answer⟩ := a
    have hcons : s.broadcast ((alert, answer) :: batch) =
        (s.publish (alert, answer)).2.broadcast batch := rfl
    rw [hcons, ih]
    cases answer with
    | error e => rfl
    | ok => simp [publish, Except.toOption]

/-- Where the broker and the database take everything, a batch is each of
its alerts in turn. -/
theorem send_each_of_ok (hconn : storage.conn = .ok ()) (hinsert : storage.insert = .ok ())
    (h : ∀ a ∈ batch, a.2 = .ok ()) (s : Sinks) :
    s.send_each storage batch =
      (.ok (), ⟨s.published ++ batch.map Prod.fst,
        s.alerts.insertAll (batch.map fun a => .ofAlert a.1)⟩) := by
  induction batch generalizing s with
  | nil => simp [send_each]
  | cons a batch ih =>
    obtain ⟨hanswer, hrest⟩ := List.forall_mem_cons.1 h
    have hsend : s.send_alert a storage =
        (.ok (), ⟨s.published ++ [a.1], s.alerts.insert (.ofAlert a.1)⟩) := by
      simp only [send_alert, publish, hanswer, hconn, hinsert]
    rw [send_each, hsend]
    dsimp only
    rw [ih hrest]
    simp only [List.map_cons, KeyedTable.insertAll_cons, List.append_assoc, List.singleton_append]

theorem send_batch_of_ok (hconn : storage.conn = .ok ()) (hinsert : storage.insert = .ok ()) :
    s.send_batch batch storage =
      (.ok (), ⟨(s.broadcast batch).published,
        s.alerts.insertAll (batch.map fun a => .ofAlert a.1)⟩) := by
  cases batch with
  | nil => rfl
  | cons a batch =>
    simp only [send_batch, hconn, hinsert, broadcast_eq]

/-- What the broker refuses, `send_alert` fails on. -/
theorem answers_of_send_each (h : (s.send_each storage batch).1 = .ok ()) :
    ∀ a ∈ batch, a.2 = .ok () := by
  induction batch generalizing s with
  | nil => intro a ha; cases ha
  | cons a batch ih =>
    obtain ⟨alert, answer⟩ := a
    unfold send_each at h
    split at h
    · cases h
    · next s' hsend =>
      refine List.forall_mem_cons.2 ⟨?_, ih h⟩
      cases answer with
      | ok => rfl
      | error e => cases hsend

/-- An alert of an inserted batch has a row. -/
theorem find_insertAll_isSome {alerts : KeyedTable NewAlertEntity.alert_id} (h : a ∈ batch) :
    ((alerts.insertAll (batch.map fun a => .ofAlert a.1)).find a.1.alert_id).isSome := by
  rw [KeyedTable.find_insertAll, Option.isSome_or, Bool.or_eq_true, List.find?_isSome]
  exact .inr ⟨.ofAlert a.1, List.mem_map_of_mem h, by simp [NewAlertEntity.ofAlert]⟩

/-- **The exact condition of a call.** -/
theorem agrees_iff : s.Agrees batch storage ↔
    (storage.conn = .ok () → storage.insert = .ok () → ∀ a ∈ batch, a.2 = .ok ()) := by
  constructor
  · intro h hconn hinsert
    have hok : (s.send_batch batch storage).1 = .ok () := by rw [send_batch_of_ok hconn hinsert]
    obtain ⟨-, heach⟩ := h hok
    exact answers_of_send_each (heach ▸ hok)
  · intro h hok
    cases batch with
    | nil => exact ⟨fun a ha => (List.not_mem_nil ha).elim, rfl⟩
    | cons a batch =>
      -- a batch that went through had its connection and its insert
      have hstorage : storage.conn = .ok () ∧ storage.insert = .ok () := by
        rw [send_batch_fst] at hok
        unfold RuleEngine.send_batch at hok
        rw [if_neg (by simp)] at hok
        split at hok
        · cases hok
        · next hconn =>
          split at hok
          · cases hok
          · next hinsert => exact ⟨hconn, hinsert⟩
      have hanswers := h hstorage.1 hstorage.2
      have hfilter : (a :: batch).filter (fun a => a.2.toOption.isSome) = a :: batch :=
        List.filter_eq_self.2 fun b hb => by rw [hanswers b hb]; rfl
      have hbatch : s.send_batch (a :: batch) storage =
          (.ok (), ⟨s.published ++ (a :: batch).map Prod.fst,
            s.alerts.insertAll ((a :: batch).map fun a => .ofAlert a.1)⟩) := by
        rw [send_batch_of_ok hstorage.1 hstorage.2, broadcast_eq, hfilter]
      refine ⟨fun b hb => ?_, ?_⟩
      · rw [hbatch]
        exact ⟨List.mem_append_right _ (List.mem_map_of_mem hb), find_insertAll_isSome hb⟩
      · rw [hbatch, send_each_of_ok hstorage.1 hstorage.2 hanswers]

/-! ## Whole runs -/

/-- A step of the pipeline, with what the broker would answer to each alert
of a batch, by its place. -/
abbrev AnsweredAction := PipelineAction × (ℕ → Except String Unit)

/-- The batch the buffer makes. -/
def batchOf (buffer : List Checked) (answers : ℕ → Except String Unit) : List Answered :=
  buffer.mapIdx fun i c => (c.alert, answers i)

/-- What a step does to the sinks: a batch is sent where `send_batch`
returns. -/
def note (s : Pipeline) (a : AnsweredAction) (_ : Pipeline) (sinks : Sinks) : Sinks :=
  match a.1 with
  | .answer storage => (sinks.send_batch (batchOf s.buffer a.2) storage).2
  | _ => sinks

/-- **The pipeline with its sinks.** -/
def machine (codec : JsonCodec) (yara : YaraX) (hash : Uuid → ℕ) (config : PipelineConfig) :
    Machine (Pipeline × Sinks) AnsweredAction :=
  ((Pipeline.machine codec yara hash config).comap Prod.fst).recorded note

/-- **A batch that goes through was published**: where the database takes
it, the broker took each of its alerts. -/
def Published (s : Pipeline × Sinks) (a : AnsweredAction) : Prop :=
  match a.1 with
  | .answer storage => storage.conn = .ok () → storage.insert = .ok () →
    ∀ i < s.1.buffer.length, a.2 i = .ok ()
  | _ => True

/-- **What counts as persisted is in both sinks.** -/
structure InBoth (s : Pipeline × Sinks) : Prop where
  counted : s.1.metrics.alerts_persisted = UInt64.ofNat s.1.stored.length
  has : ∀ x ∈ s.1.stored, s.2.Has x.alert

/-- Nothing is taken off the topic or out of the table. -/
theorem Has.send_batch {alert : Alert} (h : s.Has alert) :
    (s.send_batch batch storage).2.Has alert := by
  have hbroadcast : (s.broadcast batch).Has alert := by
    rw [broadcast_eq]
    exact ⟨List.mem_append_left _ h.1, h.2⟩
  have hinsert : ∀ l : List NewAlertEntity,
      (⟨(s.broadcast batch).published, s.alerts.insertAll l⟩ : Sinks).Has alert := fun l =>
    ⟨hbroadcast.1, by rw [KeyedTable.find_insertAll, Option.isSome_or, h.2]; rfl⟩
  unfold Sinks.send_batch
  split
  · exact h
  · next b bs =>
    dsimp only
    split
    · exact hbroadcast
    · split
      · exact hbroadcast
      · rw [broadcast_eq]
        have := hinsert ((b :: bs).map fun a => .ofAlert a.1)
        rwa [broadcast_eq] at this

variable {codec : JsonCodec} {yara : YaraX} {hash : Uuid → ℕ} {config : PipelineConfig}
  {p p' : Pipeline × Sinks} {act : AnsweredAction}

theorem map_batchOf (buffer : List Checked) (answers : ℕ → Except String Unit) :
    (batchOf buffer answers).map Prod.fst = buffer.map Checked.alert := by
  rw [batchOf]
  exact List.ext_getElem (by simp) fun i h h' => by simp

/-- What is confirmed has been sent to both. -/
theorem inBoth_confirm {storage : Storage} {answers : ℕ → Except String Unit} (h : InBoth p)
    (hpublished : Published p (.answer storage, answers)) :
    InBoth (p.1.confirm storage, (p.2.send_batch (batchOf p.1.buffer answers) storage).2) := by
  have hagrees : p.2.Agrees (batchOf p.1.buffer answers) storage := by
    refine agrees_iff.2 fun hconn hinsert a ha => ?_
    obtain ⟨i, hi, rfl⟩ := List.mem_mapIdx.1 ha
    exact hpublished hconn hinsert i hi
  have hanswer : (p.2.send_batch (batchOf p.1.buffer answers) storage).1 =
      RuleEngine.send_batch (p.1.buffer.map Checked.alert) storage := by
    rw [send_batch_fst, map_batchOf]
  unfold Pipeline.confirm
  split
  · next hok =>
    obtain ⟨hhas, -⟩ := hagrees (hanswer.trans hok)
    refine ⟨?_, fun x hx => ?_⟩
    · show p.1.metrics.alerts_persisted + UInt64.ofNat p.1.buffer.length =
        UInt64.ofNat (p.1.stored ++ p.1.buffer).length
      rw [h.counted, List.length_append, UInt64.ofNat_add]
    · rcases List.mem_append.1 hx with hx | hx
      · exact (h.has x hx).send_batch
      · obtain ⟨a, ha, hax⟩ := List.mem_map.1
          (map_batchOf p.1.buffer answers ▸ List.mem_map_of_mem (f := Checked.alert) hx)
        exact hax ▸ hhas a ha
  · exact ⟨h.counted, fun x hx => (h.has x hx).send_batch⟩

/-- A step that answers no batch changes neither the sinks nor what counts
as persisted. -/
theorem stored_of_step {s t : Pipeline} {a : PipelineAction}
    (ht : (Pipeline.machine codec yara hash config).step s a = some t)
    (hanswer : ∀ storage, a ≠ .answer storage) :
    t.stored = s.stored ∧ t.metrics.alerts_persisted = s.metrics.alerts_persisted := by
  cases a with
  | tick _ | cancel | offer _ | consumerExit =>
    obtain ⟨_, _, _, _, -, -, rfl⟩ := Pipeline.outside_eq_some ht rfl
    exact ⟨rfl, rfl⟩
  | receive _ _ | scannerShutdown | scannerExit | check | finish =>
    obtain ⟨_, _, _, _, _, _, rfl, hpersisted⟩ := Pipeline.scans_eq_some ht rfl
    exact ⟨rfl, hpersisted⟩
  | send =>
    obtain ⟨_, _, -, ⟨-, rfl⟩ | ⟨-, -, rfl⟩⟩ := Pipeline.send_eq_some ht <;> exact ⟨rfl, rfl⟩
  | take | expire | batcherShutdown | drained | answer _ =>
    obtain ⟨_, _, _, _, metrics, stored, rfl, hsame⟩ := Pipeline.batches_eq_some ht rfl
    obtain ⟨rfl, rfl⟩ := hsame hanswer
    exact ⟨rfl, rfl⟩

/-- **A step whose batch was published keeps them together.** -/
theorem inBoth_step (h : InBoth p) (hpublished : Published p act)
    (ht : (machine codec yara hash config).step p act = some p') : InBoth p' := by
  obtain ⟨s, sinks⟩ := p
  obtain ⟨a, answers⟩ := act
  obtain ⟨t, hstep, rfl⟩ := Machine.recorded_step_eq_some.1 ht
  have ht : (Pipeline.machine codec yara hash config).step s a = some t := hstep
  by_cases hanswer : ∃ storage, a = .answer storage
  · obtain ⟨storage, rfl⟩ := hanswer
    have hconfirmed := inBoth_confirm h hpublished
    rcases Pipeline.answer_eq_some ht with ⟨-, rfl⟩ | ⟨-, rfl⟩
    · exact ⟨hconfirmed.counted, hconfirmed.has⟩
    · exact ⟨hconfirmed.counted, hconfirmed.has⟩
  · have hne : ∀ storage, a ≠ .answer storage := fun storage heq => hanswer ⟨storage, heq⟩
    obtain ⟨hstored, hpersisted⟩ := stored_of_step ht hne
    have hsinks : note s (a, answers) t sinks = sinks := by
      unfold note
      split
      · next storage heq => exact absurd heq (hne storage)
      · rfl
    refine ⟨?_, fun x hx => ?_⟩
    · rw [hpersisted, hstored]
      exact h.counted
    · rw [hsinks]
      exact h.has x (hstored ▸ hx)

/-- **When the two sinks agree.** A call of `send_batch` means both have
its alerts, as `send_alert` would, exactly when the broker took every alert
of a batch the database took; and in a run whose calls all meet this,
whatever counts as persisted is in both. -/
theorem sinks_agree (codec : JsonCodec) (yara : YaraX) (hash : Uuid → ℕ) (config : PipelineConfig) :
    (∀ (s : Sinks) (batch : List Answered) (storage : Storage), s.Agrees batch storage ↔
      (storage.conn = .ok () → storage.insert = .ok () → ∀ a ∈ batch, a.2 = .ok ())) ∧
    ∀ (dedup : ShardedDeduplicator) (sinks : Sinks) (l : List AnsweredAction),
      (machine codec yara hash config).EveryStep Published (.init dedup, sinks) l →
      (machine codec yara hash config).Always InBoth (.init dedup, sinks) l := by
  refine ⟨fun s batch storage => agrees_iff, fun dedup sinks l hpublished => ?_⟩
  exact Machine.always_of_everyStep (fun p a t h hG ht => inBoth_step h hG ht)
    ⟨rfl, fun x hx => (List.not_mem_nil hx).elim⟩ hpublished

/-- A batch of one alert, which the broker does not take. -/
def unpublished : List Answered :=
  [(⟨⟨1⟩, ⟨7⟩, "", .High, .YaraX, none, none, "Reverse shell", none, 5, "open", 0⟩,
    .error "message timed out")]

/-- **A batch counts though its alert is not on the topic**: the broker's
answer is only logged, where `send_alert` returns it. -/
theorem not_agrees_unpublished : ¬Sinks.empty.Agrees unpublished ⟨.ok (), .ok ()⟩ := by
  intro h
  obtain ⟨hhas, -⟩ := h rfl
  have hpublished := (hhas _ (List.mem_singleton_self _)).1
  cases hpublished

end Sinks

end AigisZero.RuleEngine
