import AigisZero.Library.FirstWins
import AigisZero.Library.Machine
import AigisZero.Router.Normalisation

/-!
# The event log of the API backend

The consumer of the API backend reads the raw topic and the typed topics
alike, makes a row of each event it can read, and hands the rows to a
worker that inserts them in batches. Of the rows of one event the first to
be inserted stays.
-/

namespace AigisZero.Backend

open Router
open RuleEngine (TelemetryEvent typedCategories)

/-- `NewEventLogEntity`. -/
structure NewEventLogEntity where
  event_id : Uuid
  node_id : Uuid
  event_type : String
  hostname : String
  payload : Json
  raw_sequence_id : Option String
  /-- Nanoseconds since the epoch. -/
  recorded_at : ℤ

/-- A message of the broker, as the consumer reads it. -/
structure TopicMessage where
  topic : String
  payload : Bytes
deriving DecidableEq, Repr

/-- What the consumer draws where an event has none: the clock and a new
identifier. -/
structure Draw where
  now : ℤ
  event_id : Uuid

section Parse

variable (text : UuidText) (codec : JsonCodec)

/-- `str::starts_with`. -/
def starts_with (s pattern : String) : Bool := pattern.toList.isPrefixOf s.toList

/-- The row of an event that was read as JSON. -/
def logEntity (json : Json) (draw : Draw) : Option NewEventLogEntity := do
  let inner := json.get? "payload"
  let node_id ← (((json.get? "node_id").or (json.get? "agent_uuid")).or
    (inner.bind fun p => (p.get? "agent_uuid").or (p.get? "node_id"))).bind Json.asStr?
  let node_id ← (text.parse node_id).toOption
  let event_type := ((((json.get? "event_type").or (json.get? "query_name")).or
    (inner.bind fun p => (p.get? "query_name").or (p.get? "event_type"))).bind
      Json.asStr?).getD "unknown"
  let hostname := ((((json.get? "hostname").or (inner.bind (·.get? "hostname"))).bind
    Json.asStr?).filter (· ≠ "")).getD "unknown"
  let raw_sequence_id := (((json.get? "raw_sequence_id").or (json.get? "sequence_id")).or
    (inner.bind (·.get? "sequence_id"))).bind Json.asStr?
  let recorded_at := ((((json.get? "timestamp_ns").or (inner.bind (·.get? "timestamp_ns"))).bind
    Json.asI64?).map Int64.toInt).getD draw.now
  let event_id := ((((json.get? "id").or (json.get? "event_id")).bind Json.asStr?).bind
    fun s => (text.parse s).toOption).getD draw.event_id
  return { event_id, node_id, event_type, hostname, payload := inner.getD json, raw_sequence_id,
           recorded_at }

/-- `parse_log_entity`. -/
def parse_log_entity (msg : TopicMessage) (draw : Draw) : Option NewEventLogEntity :=
  if starts_with msg.topic "aigis.events" then
    (codec.fromSlice msg.payload).bind fun json => logEntity text json draw
  else none

end Parse

/-! ## The consumer and the worker -/

/-- The table of the log. -/
abbrev EventLogs := KeyedTable NewEventLogEntity.event_id

/-- `DieselLogRepository::insert_batch`, where the database takes the
statement. -/
def insert_batch (event_logs : EventLogs) (logs : List NewEventLogEntity) : EventLogs :=
  event_logs.insertAll logs

/-- The capacity of the channel between the two tasks. -/
def PERSIST : ℕ := 10000

/-- How many rows a batch has at most. -/
def BATCH : ℕ := 50

/-- The two tasks, and the table they fill. -/
structure LogPipeline where
  channel : List NewEventLogEntity
  batch : List NewEventLogEntity
  event_logs : EventLogs

/-- What can happen while nothing is shut down. -/
inductive LogAction where
  /-- The consumer reads a message. -/
  | receive (msg : TopicMessage) (draw : Draw)
  /-- The worker takes a row; the answer is that of the database, if the
  batch is full. -/
  | take (inserted : Except String Unit)
  /-- The interval of the worker. -/
  | tick (inserted : Except String Unit)

namespace LogPipeline

/-- Nothing read. -/
def init : LogPipeline := ⟨[], [], .empty⟩

/-- The worker inserts its batch; inserted or not, the batch is cleared. -/
def flush (s : LogPipeline) (inserted : Except String Unit) : LogPipeline :=
  match inserted with
  | .ok () => { s with batch := [], event_logs := insert_batch s.event_logs s.batch }
  | .error _ => { s with batch := [] }

/-- The consumer hands a row on. Where the channel is full the row is
dropped. -/
def try_send (s : LogPipeline) (log_entity : Option NewEventLogEntity) : LogPipeline :=
  match log_entity with
  | none => s
  | some log_entity =>
    if s.channel.length < PERSIST then { s with channel := s.channel ++ [log_entity] } else s

/-- The worker takes a row into its batch, and inserts a full batch. -/
def take (s : LogPipeline) (inserted : Except String Unit) : Option LogPipeline :=
  match s.channel with
  | [] => none
  | log_entity :: rest =>
    let s := { s with channel := rest, batch := s.batch ++ [log_entity] }
    if BATCH ≤ s.batch.length then some (s.flush inserted) else some s

/-- **The consumer and the worker as a machine.** -/
def machine (text : UuidText) (codec : JsonCodec) : Machine LogPipeline LogAction where
  step s
    | .receive msg draw => some (s.try_send (parse_log_entity text codec msg draw))
    | .take inserted => s.take inserted
    | .tick inserted => some (if s.batch = [] then s else s.flush inserted)

/-- **The database takes every insert.** -/
def Inserts (_ : LogPipeline) : LogAction → Prop
  | .receive _ _ => True
  | .take inserted => inserted = .ok ()
  | .tick inserted => inserted = .ok ()

variable {text : UuidText} {codec : JsonCodec} {s t : LogPipeline} {a : LogAction}
  {l : List LogAction}

/-- The row a step brings. -/
def brought (text : UuidText) (codec : JsonCodec) : LogAction → List NewEventLogEntity
  | .receive msg draw => (parse_log_entity text codec msg draw).toList
  | _ => []

/-- What a step brings and the channel has room for. -/
def handedOn (text : UuidText) (codec : JsonCodec) (s : LogPipeline) (a : LogAction) :
    List NewEventLogEntity :=
  if s.channel.length < PERSIST then brought text codec a else []

/-- What the table will hold once all that is on its way is inserted. -/
def settled (s : LogPipeline) : EventLogs := s.event_logs.insertAll (s.batch ++ s.channel)

theorem settled_flush : (s.flush (.ok ())).settled = s.settled := by
  simp only [settled, flush, insert_batch, List.nil_append, KeyedTable.insertAll_append]

theorem handedOn_sublist : (handedOn text codec s a).Sublist (brought text codec a) := by
  unfold handedOn
  split
  · exact List.Sublist.refl _
  · exact List.nil_sublist _

/-! ## What a step does -/

/-- The consumer adds to the channel what it has room for. -/
theorem receive_eq_some {msg : TopicMessage} {draw : Draw}
    (ht : (machine text codec).step s (.receive msg draw) = some t) :
    t = { s with channel := s.channel ++ handedOn text codec s (.receive msg draw) } := by
  obtain rfl := Option.some.inj ht
  unfold try_send handedOn
  cases hparse : parse_log_entity text codec msg draw with
  | none => simp [brought, hparse]
  | some log_entity =>
    by_cases hroom : s.channel.length < PERSIST
    · simp [brought, hparse, hroom]
    · simp [hroom]

/-- The worker moves a row on. -/
theorem take_eq_some (ht : s.take (.ok ()) = some t) :
    t.settled = s.settled ∧ t.channel.length < s.channel.length := by
  unfold take at ht
  split at ht
  · cases ht
  · next log_entity rest hchannel =>
    -- the row only moves from the channel to the batch
    have hmoved : ({ s with channel := rest, batch := s.batch ++ [log_entity] } :
        LogPipeline).settled = s.settled := by
      simp only [settled, hchannel, List.append_assoc, List.singleton_append]
    have hshorter : rest.length < s.channel.length := by
      rw [hchannel, List.length_cons]
      exact Nat.lt_succ_self _
    dsimp only at ht
    split at ht
    · obtain rfl := Option.some.inj ht
      exact ⟨settled_flush.trans hmoved, hshorter⟩
    · obtain rfl := Option.some.inj ht
      exact ⟨hmoved, hshorter⟩

/-- **What a step hands on comes after all that is on its way**, where the
database takes its insert. -/
theorem settled_step (hinserts : Inserts s a) (ht : (machine text codec).step s a = some t) :
    t.settled = s.settled.insertAll (handedOn text codec s a) ∧
      t.channel.length ≤ s.channel.length + (handedOn text codec s a).length := by
  cases a with
  | receive msg draw =>
    obtain rfl := receive_eq_some ht
    constructor
    · simp only [settled, ← List.append_assoc, KeyedTable.insertAll_append]
    · rw [List.length_append]
  | take inserted =>
    obtain rfl : inserted = .ok () := hinserts
    obtain ⟨hsettled, hshorter⟩ := take_eq_some ht
    have hnothing : handedOn text codec s (.take (.ok ())) = [] := by
      unfold handedOn
      split <;> rfl
    rw [hnothing]
    exact ⟨hsettled, hshorter.le⟩
  | tick inserted =>
    obtain rfl : inserted = .ok () := hinserts
    obtain rfl := Option.some.inj ht
    have hnothing : handedOn text codec s (.tick (.ok ())) = [] := by
      unfold handedOn
      split <;> rfl
    rw [hnothing]
    split
    · exact ⟨rfl, le_rfl⟩
    · exact ⟨settled_flush, le_rfl⟩

/-! ## What a run does -/

/-- **The database answers by the rows of a statement.** -/
def AnswersBy (db : List NewEventLogEntity → Except String Unit) (s : LogPipeline) :
    LogAction → Prop
  | .receive _ _ => True
  | .take inserted => inserted = db (s.batch ++ s.channel.head?.toList)
  | .tick inserted => inserted = db s.batch

/-- A step of the worker takes a row off the channel, whatever the database
answers. -/
theorem exists_take (inserted : Except String Unit) (h : s.channel ≠ []) :
    ∃ t, s.take inserted = some t ∧ t.channel.length < s.channel.length := by
  unfold take
  cases hchannel : s.channel with
  | nil => exact absurd hchannel h
  | cons log_entity rest =>
    dsimp only
    have hflush : ∀ s : LogPipeline, (s.flush inserted).channel = s.channel := by
      intro s
      unfold flush
      split <;> rfl
    split
    · exact ⟨_, rfl, by rw [hflush]; exact Nat.lt_succ_self _⟩
    · exact ⟨_, rfl, Nat.lt_succ_self _⟩

/-- The consumer reads messages, and the worker nothing. -/
def readAll (reads : List (TopicMessage × Draw)) : List LogAction :=
  reads.map fun m => .receive m.1 m.2

end LogPipeline

end AigisZero.Backend
