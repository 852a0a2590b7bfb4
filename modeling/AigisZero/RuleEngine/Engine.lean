import AigisZero.Router.Route
import AigisZero.RuleEngine.Ledger

/-!
# The rule engine

The consumer, the scanner loop and the batcher as one machine. The
consumer puts the events it can read on the event channel and the other
messages on the dead letter topic, and commits the offset of each. The
scanner and the batcher are those of the pipeline. The scanner loses its
end of the channel some time after its last look at it, and what is sent
in between is taken and never read.
-/

namespace AigisZero.RuleEngine

/-- A partition of a typed topic. -/
structure TopicPartition where
  topic : String
  partition : ℕ
deriving DecidableEq, Repr

/-- The typed topics: the payload of each message, by offset. -/
abbrev TypedLog := TopicPartition → List (Option Bytes)

/-- Where a message stands. -/
structure MessageId where
  source : TopicPartition
  offset : ℕ
deriving DecidableEq, Repr

/-- An event on its channel, with the message it was read from. -/
structure Delivery where
  id : MessageId
  event : TelemetryEvent

/-- How an event is read, and what is said where it cannot be. -/
structure EventReader where
  text : UuidText
  codec : JsonCodec
  errorText : Bytes → String

/-- What the rule engine is configured with. -/
structure EngineConfig extends PipelineConfig where
  dlq_topic : String

/-- `DlqProducer::send_poison_pill`: the record for the dead letter topic,
and what is returned once the broker has answered. -/
def send_poison_pill (dlq_topic : String) (id : MessageId) (raw_payload : Bytes)
    (error_message : String) (sent : Except String Unit) : Router.Record × Except AppError Unit :=
  ({ topic := dlq_topic
     key := utf8 id.source.topic
     payload := raw_payload
     headers :=
      [("x-original-topic", utf8 id.source.topic),
        ("x-original-partition", utf8 (toString id.source.partition)),
        ("x-original-offset", utf8 (toString id.offset)),
        ("x-error-message", utf8 error_message)] },
    sent.mapError fun e => .kafkaProduce ("DLQ delivery error: " ++ e))

/-- Where `TelemetryConsumer::run` stands. -/
inductive ConsumerPc where
  /-- Waiting for a message or the shutdown. -/
  | polling
  /-- Waiting for room on the event channel. -/
  | sending (delivery : Delivery)
  /-- Waiting for the dead letter topic. -/
  | poisoned (id : MessageId) (payload : Bytes)
  /-- The commit is next. -/
  | committing (id : MessageId)
  | exited

/-- The state of the three tasks, with what the brokers keep. The lists
are those of one session of the engine, unless they say otherwise. -/
structure Engine where
  core : Pipeline
  ledger : Ledger
  consumer : ConsumerPc
  /-- The scanner still has its end of the event channel. -/
  receiving : Bool
  /-- The event channel. -/
  queued : List Delivery
  /-- The next offset to read. -/
  position : TopicPartition → ℕ
  /-- The next offset to read after a restart. -/
  committed : TopicPartition → ℕ
  /-- The commits the broker has not answered yet. -/
  inFlight : List MessageId
  /-- What was put on the event channel. -/
  enqueued : List Delivery
  /-- What the scanner took off it and evaluated. -/
  scanned : List Delivery
  /-- What was on the channel when the scanner let go of it. -/
  dropped : List Delivery
  /-- The messages the dead letter topic did not take. -/
  refused : List MessageId
  /-- What was evaluated, in all sessions. -/
  evaluated : List Delivery
  /-- What the dead letter topic took, in all sessions. -/
  deadLettered : List (MessageId × Router.Record)

/-- What can happen. -/
inductive EngineAction where
  /-- The next message of a partition arrives. -/
  | poll (source : TopicPartition)
  /-- The stream of messages yields an error. -/
  | streamError
  /-- The stream of messages ends. -/
  | streamEnd
  /-- The consumer takes the branch of the shutdown. -/
  | consumerShutdown
  /-- The consumer sends an event, or finds the channel closed. -/
  | enqueue
  /-- The broker answers for a dead letter. -/
  | deadLetter (sent : Except String Unit)
  /-- `commit_message` returns. -/
  | commit (asked : Except String Unit)
  /-- The broker answers the oldest commit. -/
  | answerCommit (accepted : Bool)
  /-- The scanner or the batcher takes a step. -/
  | pipeline (a : PipelineAction)
  /-- The scanner, done, lets go of the event channel. -/
  | letGo

namespace Engine

/-- An engine as it starts, with what earlier sessions left behind. -/
def start (dedup : ShardedDeduplicator) (committed : TopicPartition → ℕ)
    (evaluated : List Delivery) (deadLettered : List (MessageId × Router.Record)) : Engine where
  core := .init dedup
  ledger := .empty
  consumer := .polling
  receiving := true
  queued := []
  position := committed
  committed := committed
  inFlight := []
  enqueued := []
  scanned := []
  dropped := []
  refused := []
  evaluated := evaluated
  deadLettered := deadLettered

/-- An engine that has never run. -/
def init (dedup : ShardedDeduplicator) : Engine := start dedup (fun _ => 0) [] []

/-- What a restart makes of an engine that crashed. -/
def restart (dedup : ShardedDeduplicator) (s : Engine) : Engine :=
  start dedup s.committed s.evaluated s.deadLettered

/-- The consumer is done, and its end of the event channel is gone. -/
def leave (s : Engine) : Engine :=
  { s with consumer := .exited, core := { s.core with consuming := false } }

variable (reader : EventReader) (yara : YaraX) (hash : Uuid → ℕ) (config : EngineConfig)
  (log : TypedLog)

/-- One turn of the loop of `TelemetryConsumer::run`, up to where it waits
for a channel or a broker. An empty message is passed over. -/
def poll (s : Engine) (source : TopicPartition) : Option Engine :=
  match s.consumer, (log source)[s.position source]? with
  | .polling, some message =>
    let id : MessageId := ⟨source, s.position source⟩
    let payload := message.getD []
    let s := { s with position := Function.update s.position source (id.offset + 1) }
    if payload = [] then some s
    else
      match TelemetryEvent.fromSlice reader.text reader.codec payload with
      | some event => some { s with consumer := .sending ⟨id, event⟩ }
      | none => some { s with consumer := .poisoned id payload }
  | _, _ => none

/-- The consumer sends an event once there is room. On a closed channel it
stops, and the message is not committed. -/
def enqueue (s : Engine) : Option Engine :=
  match s.consumer with
  | .sending delivery =>
    if s.receiving then
      if s.queued.length < config.channel_capacity then
        some { s with
          -- after its last look the scanner reads no more
          core :=
            if s.core.scanner = .exited then s.core
            else { s.core with events := s.core.events ++ [delivery.event] }
          consumer := .committing delivery.id
          queued := s.queued ++ [delivery]
          enqueued := s.enqueued ++ [delivery] }
      else none
    else some s.leave
  | _ => none

/-- The broker answers for a dead letter. A refusal is only logged. -/
def deadLetter (s : Engine) (sent : Except String Unit) : Option Engine :=
  match s.consumer with
  | .poisoned id payload =>
    let (record, result) :=
      send_poison_pill config.dlq_topic id payload (reader.errorText payload) sent
    let s := { s with consumer := .committing id }
    match result with
    | .ok () => some { s with deadLettered := s.deadLettered ++ [(id, record)] }
    | .error _ => some { s with refused := s.refused ++ [id] }
  | _ => none

/-- `commit_message` with `CommitMode::Async`. -/
def commit (s : Engine) (asked : Except String Unit) : Option Engine :=
  match s.consumer with
  | .committing id =>
    let s := { s with consumer := .polling }
    match asked with
    | .ok () => some { s with inFlight := s.inFlight ++ [id] }
    | .error _ => some s
  | _ => none

/-- The broker's answer to the oldest commit. -/
def answerCommit (s : Engine) (accepted : Bool) : Option Engine :=
  match s.inFlight with
  | id :: rest =>
    let s := { s with inFlight := rest }
    if accepted then
      some { s with committed := Function.update s.committed id.source (id.offset + 1) }
    else some s
  | [] => none

/-- A step of the scanner or the batcher. The event the scanner takes is
evaluated at once. -/
def pipeline (s : Engine) (a : PipelineAction) : Option Engine :=
  ((Pipeline.machine reader.codec yara hash config.toPipelineConfig).step s.core a).bind fun core =>
    let s' := { s with core := core, ledger := s.ledger.note s.core a core }
    match a with
    | .offer _ => none
    | .consumerExit => none
    | .receive _ _ =>
      match s.queued with
      | delivery :: rest =>
        some { s' with
          queued := rest
          scanned := s.scanned ++ [delivery]
          evaluated := s.evaluated ++ [delivery] }
      | [] => none
    | _ => some s'

/-- The scanner lets go of the event channel, and what is on it is lost. -/
def letGo (s : Engine) : Option Engine :=
  if s.core.scanner = .exited ∧ s.receiving then
    some { s with receiving := false, queued := [], dropped := s.dropped ++ s.queued }
  else none

/-- An error of the stream is only logged. -/
def streamError (s : Engine) : Option Engine :=
  match s.consumer with
  | .polling => some s
  | _ => none

/-- The stream of messages has ended, and the consumer leaves. -/
def streamEnd (s : Engine) : Option Engine :=
  match s.consumer with
  | .polling => some s.leave
  | _ => none

/-- The consumer leaves on a shutdown. -/
def consumerShutdown (s : Engine) : Option Engine :=
  match s.consumer, s.core.cancelled with
  | .polling, true => some s.leave
  | _, _ => none

/-- **The three tasks as a machine**, for one session of the engine. -/
def session : Machine Engine EngineAction where
  step s
    | .poll source => s.poll reader log source
    | .streamError => s.streamError
    | .streamEnd => s.streamEnd
    | .consumerShutdown => s.consumerShutdown
    | .enqueue => s.enqueue config
    | .deadLetter sent => s.deadLetter reader config sent
    | .commit asked => s.commit asked
    | .answerCommit accepted => s.answerCommit accepted
    | .pipeline a => s.pipeline reader yara hash config a
    | .letGo => s.letGo

/-- **The engine**, which can crash at any point. -/
def machine (dedup : ShardedDeduplicator) : Machine Engine (Machine.OrCrash EngineAction) :=
  (session reader yara hash config log).crashing (restart dedup)

variable {reader yara hash config log} {s t : Engine} {a : EngineAction}

/-! ## What each action does -/

theorem poll_eq_some {source : TopicPartition} (ht : s.poll reader log source = some t) :
    s.consumer = .polling ∧ ∃ message, (log source)[s.position source]? = some message ∧
      ∃ pc, t = { s with
          position := Function.update s.position source (s.position source + 1)
          consumer := pc } ∧
        (message.getD [] = [] ∧ pc = .polling ∨
          message.getD [] ≠ [] ∧
            ((∃ event, TelemetryEvent.fromSlice reader.text reader.codec (message.getD []) =
                some event ∧ pc = .sending ⟨⟨source, s.position source⟩, event⟩) ∨
              pc = .poisoned ⟨source, s.position source⟩ (message.getD []))) := by
  unfold poll at ht
  split at ht
  · next message hconsumer hmessage =>
    refine ⟨hconsumer, message, hmessage, ?_⟩
    dsimp only at ht
    split at ht
    · next hempty =>
      obtain rfl := Option.some.inj ht
      exact ⟨.polling, by rw [← hconsumer], .inl ⟨hempty, rfl⟩⟩
    · next hnonempty =>
      split at ht
      · next event hevent =>
        obtain rfl := Option.some.inj ht
        exact ⟨_, rfl, .inr ⟨hnonempty, .inl ⟨event, hevent, rfl⟩⟩⟩
      · obtain rfl := Option.some.inj ht
        exact ⟨_, rfl, .inr ⟨hnonempty, .inr rfl⟩⟩
  · cases ht

/-- A message that reads as an event is in hand. -/
theorem poll_of_fromSlice {source : TopicPartition} {message : Option Bytes}
    {event : TelemetryEvent}
    (hconsumer : s.consumer = .polling)
    (hmessage : (log source)[s.position source]? = some message) (hne : message.getD [] ≠ [])
    (hevent : TelemetryEvent.fromSlice reader.text reader.codec (message.getD []) = some event) :
    s.poll reader log source = some { s with
      position := Function.update s.position source (s.position source + 1)
      consumer := .sending ⟨⟨source, s.position source⟩, event⟩ } := by
  simp only [poll, hconsumer, hmessage, if_neg hne, hevent]

/-- The pipeline once an event is on the channel. -/
def offered (s : Engine) (event : TelemetryEvent) : Pipeline :=
  if s.core.scanner = .exited then s.core
  else { s.core with events := s.core.events ++ [event] }

theorem enqueue_eq_some (ht : s.enqueue config = some t) :
    ∃ delivery, s.consumer = .sending delivery ∧
      (s.receiving = false ∧ t = s.leave ∨
        s.receiving = true ∧ s.queued.length < config.channel_capacity ∧
          t = { s with
            core := s.offered delivery.event
            consumer := .committing delivery.id
            queued := s.queued ++ [delivery]
            enqueued := s.enqueued ++ [delivery] }) := by
  unfold enqueue at ht
  split at ht
  · next delivery hconsumer =>
    refine ⟨delivery, hconsumer, ?_⟩
    split at ht
    · next hreceiving =>
      obtain ⟨hroom, ht⟩ := Option.ite_none_right_eq_some.1 ht
      exact .inr ⟨hreceiving, hroom, (Option.some.inj ht).symm⟩
    · next hclosed =>
      exact .inl ⟨Bool.eq_false_of_not_eq_true hclosed, (Option.some.inj ht).symm⟩
  · cases ht

/-- The record a message is put on the dead letter topic as. -/
def poison (reader : EventReader) (config : EngineConfig) (id : MessageId) (payload : Bytes) :
    Router.Record :=
  (send_poison_pill config.dlq_topic id payload (reader.errorText payload) (.ok ())).1

theorem deadLetter_eq_some {sent : Except String Unit}
    (ht : s.deadLetter reader config sent = some t) :
    ∃ id payload, s.consumer = .poisoned id payload ∧
      (t = { s with
          consumer := .committing id
          deadLettered := s.deadLettered ++ [(id, poison reader config id payload)] } ∨
        t = { s with consumer := .committing id, refused := s.refused ++ [id] }) := by
  unfold deadLetter at ht
  split at ht
  · next id payload hconsumer =>
    refine ⟨id, payload, hconsumer, ?_⟩
    cases sent with
    | ok => exact .inl (Option.some.inj ht).symm
    | error e => exact .inr (Option.some.inj ht).symm
  · cases ht

theorem commit_eq_some {asked : Except String Unit} (ht : s.commit asked = some t) :
    ∃ id, s.consumer = .committing id ∧
      (t = { s with consumer := .polling, inFlight := s.inFlight ++ [id] } ∨
        t = { s with consumer := .polling }) := by
  unfold commit at ht
  split at ht
  · next id hconsumer =>
    refine ⟨id, hconsumer, ?_⟩
    cases asked with
    | ok => exact .inl (Option.some.inj ht).symm
    | error e => exact .inr (Option.some.inj ht).symm
  · cases ht

theorem answerCommit_eq_some {accepted : Bool} (ht : s.answerCommit accepted = some t) :
    ∃ id rest, s.inFlight = id :: rest ∧
      (accepted = true ∧ t = { s with
          inFlight := rest
          committed := Function.update s.committed id.source (id.offset + 1) } ∨
        accepted = false ∧ t = { s with inFlight := rest }) := by
  unfold answerCommit at ht
  split at ht
  · next id rest hflight =>
    refine ⟨id, rest, hflight, ?_⟩
    cases accepted with
    | true => exact .inl ⟨rfl, (Option.some.inj ht).symm⟩
    | false => exact .inr ⟨rfl, (Option.some.inj ht).symm⟩
  · cases ht

/-- **What a step of the scanner or the batcher does** to the rest: the
event the scanner takes is evaluated. -/
theorem pipeline_eq_some {a : PipelineAction}
    (ht : s.pipeline reader yara hash config a = some t) :
    ∃ core, (Pipeline.machine reader.codec yara hash config.toPipelineConfig).step s.core a =
        some core ∧ (∀ event, a ≠ .offer event) ∧ a ≠ .consumerExit ∧
      ((∃ current draw delivery rest, a = .receive current draw ∧ s.queued = delivery :: rest ∧
          t = { s with
            core := core
            ledger := s.ledger.note s.core a core
            queued := rest
            scanned := s.scanned ++ [delivery]
            evaluated := s.evaluated ++ [delivery] }) ∨
        (∀ current draw, a ≠ .receive current draw) ∧
          t = { s with core := core, ledger := s.ledger.note s.core a core }) := by
  unfold pipeline at ht
  obtain ⟨core, hcore, ht⟩ := Option.bind_eq_some_iff.1 ht
  refine ⟨core, hcore, ?_⟩
  cases a with
  | offer event => cases ht
  | consumerExit => cases ht
  | receive current draw =>
    refine ⟨fun event h => (by cases h), fun h => (by cases h), .inl ?_⟩
    dsimp only at ht
    split at ht
    · next delivery rest hqueued =>
      exact ⟨current, draw, delivery, rest, rfl, hqueued, (Option.some.inj ht).symm⟩
    · cases ht
  | _ =>
    exact ⟨fun event h => (by cases h), fun h => (by cases h),
      .inr ⟨fun current draw h => (by cases h), (Option.some.inj ht).symm⟩⟩

theorem streamError_eq_some (ht : s.streamError = some t) : s.consumer = .polling ∧ t = s := by
  unfold streamError at ht
  split at ht
  · next hconsumer => exact ⟨hconsumer, (Option.some.inj ht).symm⟩
  · cases ht

theorem streamEnd_eq_some (ht : s.streamEnd = some t) : s.consumer = .polling ∧ t = s.leave := by
  unfold streamEnd at ht
  split at ht
  · next hconsumer => exact ⟨hconsumer, (Option.some.inj ht).symm⟩
  · cases ht

theorem consumerShutdown_eq_some (ht : s.consumerShutdown = some t) :
    s.consumer = .polling ∧ s.core.cancelled = true ∧ t = s.leave := by
  unfold consumerShutdown at ht
  split at ht
  · next hconsumer hcancelled => exact ⟨hconsumer, hcancelled, (Option.some.inj ht).symm⟩
  · cases ht

theorem letGo_eq_some (ht : s.letGo = some t) :
    s.core.scanner = .exited ∧ s.receiving = true ∧
      t = { s with receiving := false, queued := [], dropped := s.dropped ++ s.queued } := by
  obtain ⟨⟨hscanner, hreceiving⟩, ht⟩ := Option.ite_none_right_eq_some.1 ht
  exact ⟨hscanner, hreceiving, (Option.some.inj ht).symm⟩

/-! ## The tasks agree on the channel -/

/-- **The two ends of the event channel**: what the consumer put on it is
what the scanner will take, until it has looked for the last time. -/
structure Aligned (s : Engine) : Prop where
  consuming : s.core.consuming = true ∨ s.consumer = .exited
  events : s.core.scanner ≠ .exited → s.queued.map Delivery.event = s.core.events
  receiving : s.core.scanner ≠ .exited → s.receiving = true
  gone : s.receiving = false → s.queued = []

theorem aligned_start {dedup : ShardedDeduplicator} {committed : TopicPartition → ℕ}
    {evaluated : List Delivery} {deadLettered : List (MessageId × Router.Record)} :
    Aligned (start dedup committed evaluated deadLettered) :=
  ⟨.inl rfl, fun _ => rfl, fun _ => rfl, fun _ => rfl⟩

/-- What alignment is about. A step of the consumer that leaves its channel
alone keeps it. -/
theorem Aligned.of_eq (h : Aligned s) (hcore : t.core = s.core)
    (hreceiving : t.receiving = s.receiving)
    (hqueued : t.queued = s.queued) (hconsumer : s.consumer ≠ .exited) : Aligned t := by
  refine ⟨.inl ?_, ?_, ?_, ?_⟩
  · rw [hcore]
    exact h.consuming.resolve_right hconsumer
  · rw [hcore, hqueued]
    exact h.events
  · rw [hcore, hreceiving]
    exact h.receiving
  · rw [hreceiving, hqueued]
    exact h.gone

theorem Aligned.leave (h : Aligned s) : Aligned s.leave :=
  ⟨.inr rfl, h.events, h.receiving, h.gone⟩

theorem offered_of_exited (hscanner : s.core.scanner = .exited) (event : TelemetryEvent) :
    s.offered event = s.core := if_pos hscanner

theorem offered_of_running (hscanner : s.core.scanner ≠ .exited) (event : TelemetryEvent) :
    s.offered event = { s.core with events := s.core.events ++ [event] } := if_neg hscanner

theorem Aligned.enqueue (h : Aligned s) (ht : s.enqueue config = some t) : Aligned t := by
  obtain ⟨delivery, hconsumer, ⟨-, rfl⟩ | ⟨hreceiving, -, rfl⟩⟩ := enqueue_eq_some ht
  · exact h.leave
  · have hconsuming : s.core.consuming = true :=
      h.consuming.resolve_right fun hexited => by
        rw [hconsumer] at hexited
        cases hexited
    by_cases hscanner : s.core.scanner = .exited
    · rw [offered_of_exited hscanner]
      exact ⟨.inl hconsuming, fun hne => absurd hscanner hne, fun _ => hreceiving,
        fun hgone => by rw [show s.receiving = false from hgone] at hreceiving; cases hreceiving⟩
    · rw [offered_of_running hscanner]
      refine ⟨.inl hconsuming, fun _ => ?_, fun _ => hreceiving,
        fun hgone => by rw [show s.receiving = false from hgone] at hreceiving; cases hreceiving⟩
      show (s.queued ++ [delivery]).map Delivery.event = s.core.events ++ [delivery.event]
      rw [List.map_append, h.events hscanner, List.map_singleton]

/-- A step of the pipeline moves the event channel only where the scanner
takes an event, and an exit is final. -/
theorem pipeline_step_frame {s t : Pipeline} {a : PipelineAction}
    (ht : (Pipeline.machine reader.codec yara hash config.toPipelineConfig).step s a = some t)
    (hoffer : ∀ event, a ≠ .offer event) (hexit : a ≠ .consumerExit) :
    t.consuming = s.consuming ∧ (s.scanner = .exited → t.scanner = .exited) ∧
      ((∃ current draw event, a = .receive current draw ∧ s.scanner = .selecting ∧
          s.events = event :: t.events) ∨
        (∀ current draw, a ≠ .receive current draw) ∧ t.events = s.events) := by
  cases a with
  | offer event => exact absurd rfl (hoffer event)
  | consumerExit => exact absurd rfl hexit
  | receive current draw =>
    obtain ⟨event, rest, pc, hscanner, hevents, -, rfl⟩ := Pipeline.receive_eq_some ht
    refine ⟨rfl, fun hexited => ?_, .inl ⟨current, draw, event, rfl, hscanner, hevents⟩⟩
    rw [hscanner] at hexited
    cases hexited
  | tick elapsed =>
    obtain rfl := Option.some.inj ht
    exact ⟨rfl, id, .inr ⟨fun _ _ h => (by cases h), rfl⟩⟩
  | cancel =>
    obtain rfl := Option.some.inj ht
    exact ⟨rfl, id, .inr ⟨fun _ _ h => (by cases h), rfl⟩⟩
  | scannerShutdown =>
    obtain ⟨-, ht⟩ := Option.ite_none_right_eq_some.1 ht
    obtain rfl := Option.some.inj ht
    exact ⟨rfl, id, .inr ⟨fun _ _ h => (by cases h), rfl⟩⟩
  | scannerExit =>
    obtain ⟨-, -, -, rfl⟩ := Pipeline.scannerExit_eq_some ht
    exact ⟨rfl, fun _ => rfl, .inr ⟨fun _ _ h => (by cases h), rfl⟩⟩
  | check =>
    obtain ⟨_, _, hscanner, ⟨-, rfl⟩ | ⟨-, rfl⟩⟩ := Pipeline.check_eq_some ht
    all_goals
      refine ⟨rfl, fun hexited => ?_, .inr ⟨fun _ _ h => (by cases h), rfl⟩⟩
      rw [hscanner] at hexited
      cases hexited
  | finish =>
    obtain ⟨hscanner, ht⟩ := Option.ite_none_right_eq_some.1 ht
    obtain rfl := Option.some.inj ht
    refine ⟨rfl, fun hexited => ?_, .inr ⟨fun _ _ h => (by cases h), rfl⟩⟩
    rw [hscanner] at hexited
    cases hexited
  | send =>
    obtain ⟨_, _, hscanner, ⟨-, rfl⟩ | ⟨-, -, rfl⟩⟩ := Pipeline.send_eq_some ht
    all_goals
      refine ⟨rfl, fun hexited => ?_, .inr ⟨fun _ _ h => (by cases h), rfl⟩⟩
      rw [hscanner] at hexited
      cases hexited
  | take | expire | batcherShutdown | drained | answer _ =>
    obtain ⟨_, _, _, _, _, _, rfl, -⟩ := Pipeline.batches_eq_some ht rfl
    exact ⟨rfl, id, .inr ⟨fun _ _ h => (by cases h), rfl⟩⟩

theorem Aligned.pipeline {a : PipelineAction} (h : Aligned s)
    (ht : s.pipeline reader yara hash config a = some t) : Aligned t := by
  obtain ⟨core, hcore, hoffer, hexit, hcases⟩ := pipeline_eq_some ht
  obtain ⟨hconsuming, hexited, hframe⟩ := pipeline_step_frame hcore hoffer hexit
  have hrunning : core.scanner ≠ .exited → s.core.scanner ≠ .exited := mt hexited
  rcases hcases with ⟨current, draw, delivery, rest, rfl, hqueued, rfl⟩ | ⟨hnot, rfl⟩
  · rcases hframe with ⟨_, _, event, -, hscanner, hevents⟩ | ⟨hnot, -⟩
    · have hsame := h.events (fun hexited => by rw [hscanner] at hexited; cases hexited)
      rw [hqueued, hevents, List.map_cons] at hsame
      refine ⟨hconsuming ▸ h.consuming, fun _ => (List.cons.inj hsame).2,
        fun hne => h.receiving (hrunning hne), fun hgone => ?_⟩
      -- the scanner takes events only while it has its end
      have hreceiving := h.receiving (fun hexited => by rw [hscanner] at hexited; cases hexited)
      rw [show s.receiving = false from hgone] at hreceiving
      cases hreceiving
    · exact absurd rfl (hnot current draw)
  · rcases hframe with ⟨current, draw, _, rfl, -⟩ | ⟨-, hevents⟩
    · exact absurd rfl (hnot current draw)
    · exact ⟨hconsuming ▸ h.consuming, fun hne => (h.events (hrunning hne)).trans hevents.symm,
        fun hne => h.receiving (hrunning hne), h.gone⟩

/-- **Every step keeps the ends of the channel aligned.** -/
theorem aligned_step (h : Aligned s)
    (ht : (session reader yara hash config log).step s a = some t) :
    Aligned t := by
  cases a with
  | poll source =>
    obtain ⟨hconsumer, _, -, _, rfl, -⟩ := poll_eq_some ht
    exact h.of_eq rfl rfl rfl fun hexited => by rw [hconsumer] at hexited; cases hexited
  | streamError =>
    obtain ⟨-, rfl⟩ := streamError_eq_some ht
    exact h
  | streamEnd =>
    obtain ⟨-, rfl⟩ := streamEnd_eq_some ht
    exact h.leave
  | consumerShutdown =>
    obtain ⟨-, -, rfl⟩ := consumerShutdown_eq_some ht
    exact h.leave
  | enqueue => exact h.enqueue ht
  | deadLetter sent =>
    obtain ⟨_, _, hconsumer, rfl | rfl⟩ := deadLetter_eq_some ht
    all_goals exact h.of_eq rfl rfl rfl fun hexited => by rw [hconsumer] at hexited; cases hexited
  | commit asked =>
    obtain ⟨_, hconsumer, rfl | rfl⟩ := commit_eq_some ht
    all_goals exact h.of_eq rfl rfl rfl fun hexited => by rw [hconsumer] at hexited; cases hexited
  | answerCommit accepted =>
    obtain ⟨_, _, -, ⟨-, rfl⟩ | ⟨-, rfl⟩⟩ := answerCommit_eq_some ht
    · exact ⟨h.consuming, h.events, h.receiving, h.gone⟩
    · exact ⟨h.consuming, h.events, h.receiving, h.gone⟩
  | pipeline b => exact h.pipeline ht
  | letGo =>
    obtain ⟨hscanner, -, rfl⟩ := letGo_eq_some ht
    exact ⟨h.consuming, fun hne => absurd hscanner hne, fun hne => absurd hscanner hne,
      fun _ => rfl⟩

/-! ## The pipeline of the engine -/

/-- **A step of the engine is a step of its pipeline, or none.** -/
theorem ledgered_step (h : Aligned s)
    (ht : (session reader yara hash config log).step s a = some t) :
    (Pipeline.ledgered reader.codec yara hash config.toPipelineConfig).Reaches (s.core, s.ledger)
      (t.core, t.ledger) := by
  cases a with
  | poll source =>
    obtain ⟨-, _, -, _, rfl, -⟩ := poll_eq_some ht
    exact .refl
  | streamError =>
    obtain ⟨-, rfl⟩ := streamError_eq_some ht
    exact .refl
  | streamEnd =>
    obtain ⟨-, rfl⟩ := streamEnd_eq_some ht
    exact Machine.Reaches.step (a := .consumerExit) rfl
  | consumerShutdown =>
    obtain ⟨-, -, rfl⟩ := consumerShutdown_eq_some ht
    exact Machine.Reaches.step (a := .consumerExit) rfl
  | enqueue =>
    obtain ⟨delivery, hconsumer, ⟨-, rfl⟩ | ⟨-, hroom, rfl⟩⟩ := enqueue_eq_some ht
    · exact Machine.Reaches.step (a := .consumerExit) rfl
    · by_cases hscanner : s.core.scanner = .exited
      · rw [offered_of_exited hscanner]
        exact .refl
      · rw [offered_of_running hscanner]
        refine Machine.Reaches.step (a := .offer delivery.event)
          (Machine.recorded_step_eq_some.2 ⟨_, ?_, rfl⟩)
        have hconsuming : s.core.consuming = true :=
          h.consuming.resolve_right fun hexited => by
            rw [hconsumer] at hexited
            cases hexited
        have hlength : s.core.events.length = s.queued.length := by
          rw [← h.events hscanner, List.length_map]
        exact if_pos ⟨hconsuming, hscanner, hlength ▸ hroom⟩
  | deadLetter sent =>
    obtain ⟨_, _, -, rfl | rfl⟩ := deadLetter_eq_some ht <;> exact .refl
  | commit asked =>
    obtain ⟨_, -, rfl | rfl⟩ := commit_eq_some ht <;> exact .refl
  | answerCommit accepted =>
    obtain ⟨_, _, -, ⟨-, rfl⟩ | ⟨-, rfl⟩⟩ := answerCommit_eq_some ht <;> exact .refl
  | pipeline b =>
    obtain ⟨core, hcore, -, -, ⟨_, _, _, _, -, -, rfl⟩ | ⟨-, rfl⟩⟩ := pipeline_eq_some ht
    all_goals
      exact Machine.Reaches.step (Machine.recorded_step_eq_some.2 ⟨core, hcore, rfl⟩)
  | letGo =>
    obtain ⟨-, -, rfl⟩ := letGo_eq_some ht
    exact .refl

/-- **The engine refines its pipeline**: what the scanner and the batcher do
in a session is a run of the pipeline, with its ledger. -/
theorem ledgered_reaches {l : List EngineAction} (h : Aligned s)
    (hrun : (session reader yara hash config log).run s l = some t) :
    (Pipeline.ledgered reader.codec yara hash config.toPipelineConfig).Reaches (s.core, s.ledger)
      (t.core, t.ledger) := by
  refine (Machine.run_preserves (I := fun u => Aligned u ∧
    (Pipeline.ledgered reader.codec yara hash config.toPipelineConfig).Reaches (s.core, s.ledger)
      (u.core, u.ledger)) (fun u a v hu hv => ?_) hrun ⟨h, .refl⟩).2
  exact ⟨aligned_step hu.1 hv, hu.2.trans (ledgered_step hu.1 hv)⟩

end Engine

end AigisZero.RuleEngine
