import AigisZero.Backend.EventLog
import AigisZero.Library.JsonText

/-!
# What a shutdown of the API backend loses

The consumer puts rows on a channel, and the worker hands them to the log
in batches. On a shutdown each leaves by itself: the consumer after the
message it is at, and the worker with the batch it has, without a look at
its channel. This file says which runs lose no row.
-/

namespace AigisZero.Backend

/-- What the worker is at. -/
inductive LogWorker where
  /-- At its `select!`. -/
  | selecting
  /-- In a call of `insert_batch`, its last or not. -/
  | inserting (last : Bool)
  /-- Gone. -/
  | exited
deriving DecidableEq, Repr

/-- The two tasks with their shutdown, and what became of the rows. -/
structure LogTasks extends LogPipeline where
  cancelled : Bool
  /-- The consumer is in its loop. -/
  consuming : Bool
  worker : LogWorker
  /-- The rows the channel took. -/
  accepted : List NewEventLogEntity
  /-- The batches `insert_batch` was called with. -/
  handed : List (List NewEventLogEntity)

/-- What can happen. -/
inductive LogTasksAction where
  | cancel
  /-- The consumer reads a message. -/
  | receive (msg : TopicMessage) (draw : Draw)
  /-- The consumer sees the shutdown, and leaves. -/
  | consumerStop
  /-- The worker takes a row. -/
  | take
  /-- The interval of the worker. -/
  | tick
  /-- The worker sees the shutdown. -/
  | workerShutdown
  /-- The worker sees that the channel is empty and its sender gone. -/
  | workerClosed
  /-- `insert_batch` returns. -/
  | answer (inserted : Except String Unit)

namespace LogTasks

/-- Nothing read. -/
def init : LogTasks where
  toLogPipeline := .init
  cancelled := false
  consuming := true
  worker := .selecting
  accepted := []
  handed := []

/-- `persist_tx.try_send`: a channel that is full, or that nobody receives
from, takes no row. -/
def try_send (s : LogTasks) (log_entity : Option NewEventLogEntity) : LogTasks :=
  match log_entity with
  | none => s
  | some log_entity =>
    if s.worker ≠ .exited ∧ s.channel.length < PERSIST then
      { s with channel := s.channel ++ [log_entity], accepted := s.accepted ++ [log_entity] }
    else s

/-- The worker calls `insert_batch` with its batch. -/
def hand (s : LogTasks) (last : Bool) : LogTasks :=
  { s with worker := .inserting last, handed := s.handed ++ [s.batch] }

/-- The worker is gone, and the channel and the batch with it. -/
def exit (s : LogTasks) : LogTasks := { s with worker := .exited, channel := [], batch := [] }

/-- The worker takes a row into its batch, and inserts a full batch. -/
def take (s : LogTasks) : Option LogTasks :=
  match s.worker, s.channel with
  | .selecting, log_entity :: rest =>
    let s := { s with channel := rest, batch := s.batch ++ [log_entity] }
    some (if BATCH ≤ s.batch.length then s.hand false else s)
  | _, _ => none

/-- The worker leaves its loop, with the batch it has. -/
def leave (s : LogTasks) : LogTasks := if s.batch = [] then s.exit else s.hand true

/-- The database answers; inserted or not, the batch is done with. -/
def answer (s : LogTasks) (inserted : Except String Unit) : Option LogTasks :=
  match s.worker with
  | .inserting last =>
    let s := { s with toLogPipeline := s.toLogPipeline.flush inserted }
    some (if last then s.exit else { s with worker := .selecting })
  | _ => none

/-- **The consumer, the worker and their shutdown as a machine.** -/
def machine (text : UuidText) (codec : JsonCodec) : Machine LogTasks LogTasksAction where
  step s
    | .cancel => some { s with cancelled := true }
    | .receive msg draw =>
      if s.consuming then some (s.try_send (parse_log_entity text codec msg draw)) else none
    | .consumerStop =>
      if s.cancelled ∧ s.consuming then some { s with consuming := false } else none
    | .take => s.take
    | .tick =>
      if s.worker = .selecting then some (if s.batch = [] then s else s.hand false) else none
    | .workerShutdown => if s.cancelled ∧ s.worker = .selecting then some s.leave else none
    | .workerClosed =>
      if s.worker = .selecting ∧ s.channel = [] ∧ ¬s.consuming then some s.leave else none
    | .answer inserted => s.answer inserted

/-- **The worker flushes what it was given**: once it is gone, each row the
channel took was handed on once, in order; and no batch but the last is
larger than 50. -/
structure Flushed (s : LogTasks) : Prop where
  whole : s.worker = .exited → s.handed.flatten = s.accepted
  sized : ∀ b ∈ s.handed.dropLast, b.length ≤ BATCH

/-- **The worker leaves an empty channel.** -/
def LeavesNothing (s : LogTasks) : LogTasksAction → Prop
  | .workerShutdown => s.batch = [] → s.channel = []
  | .answer _ => s.worker = .inserting true → s.channel = []
  | _ => True

/-- The rows taken off the channel and not handed on. -/
def pending (s : LogTasks) : List NewEventLogEntity :=
  match s.worker with
  | .selecting => s.batch
  | _ => []

/-- **What every state keeps**: the rows handed on, those of the batch and
those of the channel are the rows the channel took; and the batches are
small. -/
structure Accounts (s : LogTasks) : Prop where
  rows : s.worker ≠ .exited → s.handed.flatten ++ s.pending ++ s.channel = s.accepted
  batch : s.worker = .selecting → s.batch.length < BATCH
  handed : ∀ b ∈ s.handed, b.length ≤ BATCH

variable {text : UuidText} {codec : JsonCodec} {s t : LogTasks} {a : LogTasksAction}

/-! ## What a step keeps -/

theorem accounts_init : Accounts init :=
  ⟨fun _ => rfl, fun _ => by decide, fun b hb => (List.not_mem_nil hb).elim⟩

/-- The worker takes a row, and calls the log with a batch that is full. -/
theorem take_eq_some (ht : s.take = some t) : s.worker = .selecting ∧
    ∃ log_entity rest, s.channel = log_entity :: rest ∧
      (BATCH ≤ (s.batch ++ [log_entity]).length ∧
          t = hand { s with channel := rest, batch := s.batch ++ [log_entity] } false ∨
        (s.batch ++ [log_entity]).length < BATCH ∧
          t = { s with channel := rest, batch := s.batch ++ [log_entity] }) := by
  unfold take at ht
  split at ht
  · next log_entity rest hworker hchannel =>
    obtain rfl := Option.some.inj ht
    refine ⟨hworker, log_entity, rest, hchannel, ?_⟩
    by_cases hfull : BATCH ≤ (s.batch ++ [log_entity]).length
    · exact .inl ⟨hfull, if_pos hfull⟩
    · exact .inr ⟨not_le.1 hfull, if_neg hfull⟩
  · cases ht

/-- A call that returns ends the worker if it was the last. -/
theorem answer_eq_some {inserted : Except String Unit} (ht : s.answer inserted = some t) :
    ∃ event_logs,
      (s.worker = .inserting true ∧ t = exit { s with event_logs := event_logs }) ∨
      (s.worker = .inserting false ∧
        t = { s with event_logs := event_logs, batch := [], worker := .selecting }) := by
  have hflush : s.toLogPipeline.flush inserted =
      ⟨s.channel, [], (s.toLogPipeline.flush inserted).event_logs⟩ := by
    unfold LogPipeline.flush
    split <;> rfl
  unfold answer at ht
  rw [hflush] at ht
  split at ht
  · next last hworker =>
    obtain rfl := Option.some.inj ht
    cases last with
    | true => exact ⟨_, .inl ⟨hworker, rfl⟩⟩
    | false => exact ⟨_, .inr ⟨hworker, rfl⟩⟩
  · cases ht

/-- A channel that takes a row still has it. -/
theorem Accounts.try_send (h : Accounts s) (log_entity : Option NewEventLogEntity) :
    Accounts (s.try_send log_entity) := by
  unfold LogTasks.try_send
  split
  · exact h
  · next log_entity =>
    split
    · refine ⟨fun hrunning => ?_, h.batch, h.handed⟩
      show s.handed.flatten ++ s.pending ++ (s.channel ++ [log_entity]) = s.accepted ++ [log_entity]
      rw [← List.append_assoc, h.rows hrunning]
    · exact h

/-- What the worker hands on was its batch. -/
theorem Accounts.hand (h : Accounts s) (hworker : s.worker = .selecting) (last : Bool) :
    Accounts (s.hand last) := by
  refine ⟨fun _ => ?_, fun hselecting => (by cases hselecting), fun b hb => ?_⟩
  · have hrows := h.rows (by rw [hworker]; exact LogWorker.noConfusion)
    simp only [pending, hworker] at hrows
    simp only [LogTasks.hand, pending, List.flatten_append, List.flatten_singleton,
      List.append_nil, hrows]
  · rcases List.mem_append.1 hb with hb | hb
    · exact h.handed b hb
    · rw [List.mem_singleton.1 hb]
      exact (h.batch hworker).le

/-- A worker that is gone hands nothing on. -/
theorem Accounts.exit (h : Accounts s) : Accounts s.exit :=
  ⟨fun hrunning => absurd rfl hrunning, fun hselecting => (by cases hselecting), h.handed⟩

theorem Accounts.leave (h : Accounts s) (hworker : s.worker = .selecting) :
    Accounts s.leave := by
  unfold LogTasks.leave
  split
  · exact h.exit
  · exact h.hand hworker true

theorem Accounts.take (h : Accounts s) (ht : s.take = some t) : Accounts t := by
  obtain ⟨hworker, log_entity, rest, hchannel, ht⟩ := take_eq_some ht
  have hrows := h.rows (by rw [hworker]; exact LogWorker.noConfusion)
  simp only [pending, hworker, hchannel] at hrows
  rcases ht with ⟨-, rfl⟩ | ⟨hroom, rfl⟩
  · refine ⟨fun _ => ?_, fun hselecting => (by cases hselecting), fun b hb => ?_⟩
    · simp only [LogTasks.hand, pending, List.flatten_append, List.flatten_singleton,
        List.append_nil, ← hrows, List.append_assoc, List.singleton_append]
    · rcases List.mem_append.1 hb with hb | hb
      · exact h.handed b hb
      · rw [List.mem_singleton.1 hb, List.length_append]
        exact h.batch hworker
  · refine ⟨fun _ => ?_, fun _ => hroom, h.handed⟩
    simp only [pending, hworker, ← hrows, List.append_assoc, List.singleton_append]

theorem Accounts.answer {inserted : Except String Unit} (h : Accounts s)
    (ht : s.answer inserted = some t) : Accounts t := by
  obtain ⟨event_logs, ⟨hworker, rfl⟩ | ⟨hworker, rfl⟩⟩ := answer_eq_some ht
  · exact ⟨fun hrunning => absurd rfl hrunning, fun hselecting => (by cases hselecting), h.handed⟩
  · have hrows := h.rows (by rw [hworker]; exact LogWorker.noConfusion)
    refine ⟨fun _ => ?_, fun _ => (by decide : 0 < BATCH), h.handed⟩
    simpa only [pending, hworker] using hrows

/-- **Every step accounts for the rows.** -/
theorem accounts_step (h : Accounts s) (ht : (machine text codec).step s a = some t) :
    Accounts t := by
  cases a with
  | cancel =>
    obtain rfl := Option.some.inj ht
    exact ⟨h.rows, h.batch, h.handed⟩
  | receive msg draw =>
    obtain ⟨-, ht⟩ := Option.ite_none_right_eq_some.1 ht
    obtain rfl := Option.some.inj ht
    exact h.try_send _
  | consumerStop =>
    obtain ⟨-, ht⟩ := Option.ite_none_right_eq_some.1 ht
    obtain rfl := Option.some.inj ht
    exact ⟨h.rows, h.batch, h.handed⟩
  | take => exact h.take ht
  | tick =>
    obtain ⟨hworker, ht⟩ := Option.ite_none_right_eq_some.1 ht
    obtain rfl := Option.some.inj ht
    split
    · exact h
    · exact h.hand hworker false
  | workerShutdown =>
    obtain ⟨⟨-, hworker⟩, ht⟩ := Option.ite_none_right_eq_some.1 ht
    exact Option.some.inj ht ▸ h.leave hworker
  | workerClosed =>
    obtain ⟨⟨hworker, -⟩, ht⟩ := Option.ite_none_right_eq_some.1 ht
    exact Option.some.inj ht ▸ h.leave hworker
  | answer inserted => exact h.answer ht

/-! ## What a step loses -/

theorem try_send_worker (log_entity : Option NewEventLogEntity) :
    (s.try_send log_entity).worker = s.worker := by
  unfold LogTasks.try_send
  split
  · rfl
  · split <;> rfl

/-- Nobody sends to a worker that is gone. -/
theorem try_send_of_exited {log_entity : Option NewEventLogEntity}
    (hexited : s.worker = .exited) : s.try_send log_entity = s := by
  unfold LogTasks.try_send
  split
  · rfl
  · exact if_neg fun h => h.1 hexited

/-- While the worker is there, nothing is lost. -/
theorem flushed_of_running (h : Accounts s) (hrunning : s.worker ≠ .exited) : Flushed s :=
  ⟨fun hexited => absurd hexited hrunning, fun b hb => h.handed b (List.mem_of_mem_dropLast hb)⟩

/-- A worker without rows in hand loses what is on its channel. -/
theorem flushed_exit_iff (h : Accounts s) (hrunning : s.worker ≠ .exited)
    (hpending : s.pending = []) : Flushed s.exit ↔ s.channel = [] := by
  have hrows := h.rows hrunning
  rw [hpending, List.append_nil] at hrows
  constructor
  · intro hflushed
    have hwhole : s.handed.flatten = s.accepted := hflushed.whole rfl
    rw [hwhole] at hrows
    exact List.append_right_eq_self.1 hrows
  · intro hchannel
    rw [hchannel, List.append_nil] at hrows
    exact ⟨fun _ => hrows, fun b hb => h.handed b (List.mem_of_mem_dropLast hb)⟩

/-- A worker that leaves loses what is on its channel, unless it has a
batch to hand on first. -/
theorem flushed_leave_iff (h : Accounts s) (hworker : s.worker = .selecting) :
    Flushed s.leave ↔ (s.batch = [] → s.channel = []) := by
  have hrunning : s.worker ≠ .exited := by rw [hworker]; exact LogWorker.noConfusion
  unfold leave
  split
  · next hbatch =>
    rw [flushed_exit_iff h hrunning (by simp only [pending, hworker, hbatch])]
    exact ⟨fun hchannel _ => hchannel, fun hchannel => hchannel hbatch⟩
  · next hbatch =>
    exact iff_of_true (flushed_of_running (h.hand hworker true) LogWorker.noConfusion)
      fun hempty => absurd hempty hbatch

theorem flushed_answer_iff {inserted : Except String Unit} (h : Accounts s)
    (ht : s.answer inserted = some t) :
    Flushed t ↔ (s.worker = .inserting true → s.channel = []) := by
  have hafter := h.answer ht
  obtain ⟨event_logs, ⟨hworker, rfl⟩ | ⟨hworker, rfl⟩⟩ := answer_eq_some ht
  · have hsame : Accounts { s with event_logs := event_logs } := ⟨h.rows, h.batch, h.handed⟩
    have hrunning : s.worker ≠ .exited := by rw [hworker]; exact LogWorker.noConfusion
    rw [flushed_exit_iff hsame hrunning (by simp only [pending, hworker])]
    exact ⟨fun hchannel _ => hchannel, fun hchannel => hchannel hworker⟩
  · refine iff_of_true (flushed_of_running hafter LogWorker.noConfusion) fun hlast => ?_
    rw [hworker] at hlast
    cases hlast

/-- **A step loses nothing exactly when the worker leaves nothing.** -/
theorem flushed_step_iff (h : Accounts s) (hs : Flushed s)
    (ht : (machine text codec).step s a = some t) : Flushed t ↔ LeavesNothing s a := by
  have hafter := accounts_step h ht
  cases a with
  | cancel =>
    obtain rfl := Option.some.inj ht
    exact iff_of_true ⟨hs.whole, hs.sized⟩ trivial
  | receive msg draw =>
    obtain ⟨-, ht⟩ := Option.ite_none_right_eq_some.1 ht
    obtain rfl := Option.some.inj ht
    refine iff_of_true ?_ trivial
    by_cases hexited : s.worker = .exited
    · rwa [try_send_of_exited hexited]
    · refine flushed_of_running hafter ?_
      rwa [try_send_worker]
  | consumerStop =>
    obtain ⟨-, ht⟩ := Option.ite_none_right_eq_some.1 ht
    obtain rfl := Option.some.inj ht
    exact iff_of_true ⟨hs.whole, hs.sized⟩ trivial
  | take =>
    refine iff_of_true (flushed_of_running hafter ?_) trivial
    obtain ⟨hworker, _, _, -, ⟨-, rfl⟩ | ⟨-, rfl⟩⟩ := take_eq_some ht
    · exact LogWorker.noConfusion
    · show s.worker ≠ .exited
      rw [hworker]
      exact LogWorker.noConfusion
  | tick =>
    obtain ⟨hworker, ht⟩ := Option.ite_none_right_eq_some.1 ht
    obtain rfl := Option.some.inj ht
    refine iff_of_true ?_ trivial
    split
    · exact hs
    · exact flushed_of_running (h.hand hworker false) LogWorker.noConfusion
  | workerShutdown =>
    obtain ⟨⟨-, hworker⟩, ht⟩ := Option.ite_none_right_eq_some.1 ht
    exact Option.some.inj ht ▸ flushed_leave_iff h hworker
  | workerClosed =>
    obtain ⟨⟨hworker, hchannel, -⟩, ht⟩ := Option.ite_none_right_eq_some.1 ht
    obtain rfl := Option.some.inj ht
    exact iff_of_true ((flushed_leave_iff h hworker).2 fun _ => hchannel) trivial
  | answer inserted => exact flushed_answer_iff h ht

/-! ## Whole runs -/

/-- **When a shutdown loses no row**: exactly when the worker never leaves
with rows on its channel. -/
theorem flushed_iff (text : UuidText) (codec : JsonCodec) (l : List LogTasksAction) (u : LogTasks)
    (hrun : (machine text codec).run init l = some u) :
    (machine text codec).Always Flushed init l ↔
      (machine text codec).EveryStep LeavesNothing init l :=
  Machine.always_iff_everyStep (fun _ _ _ h ht => accounts_step h ht)
    (fun _ _ _ h hs ht => flushed_step_iff h hs ht) accounts_init
    (flushed_of_running accounts_init LogWorker.noConfusion) hrun

/-- A telemetry message. -/
def probeMessage : TopicMessage :=
  ⟨"aigis.events.raw", JsonText.codec.toVec (RuleEngine.probe "process")⟩

/-- The row it makes. -/
def probeRow : NewEventLogEntity where
  event_id := ⟨2⟩
  node_id := ⟨1⟩
  event_type := "process"
  hostname := "unknown"
  payload := .obj [("cmdline", .str "id")]
  raw_sequence_id := none
  recorded_at := 0

theorem parse_probeMessage :
    parse_log_entity .standard JsonText.codec probeMessage ⟨0, ⟨9⟩⟩ = some probeRow := by
  have htopic : starts_with "aigis.events.raw" "aigis.events" = true := by decide
  have hread : JsonText.codec.fromSlice probeMessage.payload =
      some (RuleEngine.probe "process") := by
    rw [probeMessage, JsonText.codec.fromSlice_toVec (RuleEngine.canonical_probe "process")]
  rw [parse_log_entity, hread]
  show (if starts_with "aigis.events.raw" "aigis.events" then _ else none) = _
  rw [htopic]
  rfl

theorem step_probeMessage : (machine .standard JsonText.codec).step init
    (.receive probeMessage ⟨0, ⟨9⟩⟩) =
      some { init with channel := [probeRow], accepted := [probeRow] } := by
  have hsend : (machine .standard JsonText.codec).step init (.receive probeMessage ⟨0, ⟨9⟩⟩) =
      some (init.try_send (parse_log_entity .standard JsonText.codec probeMessage ⟨0, ⟨9⟩⟩)) := rfl
  have hroom : init.worker ≠ .exited ∧ init.channel.length < PERSIST := by decide
  rw [hsend, parse_probeMessage, try_send]
  dsimp only
  rw [if_pos hroom]
  rfl

/-- A row is read, and the worker sees the shutdown before it. -/
def early : List LogTasksAction := [.receive probeMessage ⟨0, ⟨9⟩⟩, .cancel, .workerShutdown]

/-- A row is read and taken, and both tasks leave. -/
def orderly : List LogTasksAction :=
  [.receive probeMessage ⟨0, ⟨9⟩⟩, .cancel, .consumerStop, .take, .workerShutdown, .answer (.ok ())]

theorem run_orderly : ∃ u, (machine .standard JsonText.codec).run init orderly = some u :=
  ⟨_, Machine.run_cons_eq_some.2 ⟨_, step_probeMessage, rfl⟩⟩

theorem flushed_orderly : (machine .standard JsonText.codec).Always Flushed init orderly := by
  obtain ⟨u, hu⟩ := run_orderly
  refine (flushed_iff .standard JsonText.codec orderly u hu).2 ?_
  -- the worker sees the shutdown with a row in its batch, and nothing comes after it
  refine Machine.everyStep_cons step_probeMessage trivial ?_
  refine Machine.everyStep_cons rfl trivial (Machine.everyStep_cons rfl trivial ?_)
  refine Machine.everyStep_cons rfl trivial (Machine.everyStep_cons rfl (fun h => ?_) ?_)
  · cases h
  · exact Machine.everyStep_cons rfl (fun _ => rfl) trivial

/-- **A row that was read is lost** where the worker sees the shutdown
first. -/
theorem not_flushed_early :
    ¬(machine .standard JsonText.codec).Always Flushed init early := by
  intro h
  have hflushed := h.last (Machine.run_cons_eq_some.2 ⟨_, step_probeMessage, rfl⟩)
  have hwhole : [] = [probeRow] := hflushed.whole rfl
  cases hwhole

end LogTasks

end AigisZero.Backend
