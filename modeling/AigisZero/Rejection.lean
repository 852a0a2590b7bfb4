import AigisZero.Backend.EventLog
import AigisZero.Library.Batches
import AigisZero.Library.JsonText
import AigisZero.RuleEngine.Sink

/-!
# A row the database refuses

The log of the API backend and the alerts of the rule engine are both
inserted in batches, and both writers give up a batch that failed. The
database refuses a whole statement for one row of it, so a row nobody can
store takes its batch with it. This file says when no good row goes with
it.
-/

namespace AigisZero

/-! ## The worker of the API backend -/

namespace Backend.LogPipeline

variable (text : UuidText) (codec : JsonCodec)

/-- What is on its way to the log, and the log. -/
def view (p : LogPipeline × List NewEventLogEntity) : Batches NewEventLogEntity.event_id :=
  ⟨p.2, p.1.batch ++ p.1.channel, p.1.event_logs⟩

/-- The rows a step inserts, and those that stay on their way. -/
def statement (p : LogPipeline × List NewEventLogEntity) :
    LogAction → Option (List NewEventLogEntity × List NewEventLogEntity)
  | .receive _ _ => none
  | .take _ =>
    match p.1.channel with
    | [] => none
    | log_entity :: rest =>
      if BATCH ≤ (p.1.batch ++ [log_entity]).length then some (p.1.batch ++ [log_entity], rest)
      else none
  | .tick _ => if p.1.batch = [] then none else some (p.1.batch, p.1.channel)

variable {text codec} {takes : NewEventLogEntity → Bool}
  {errorOf : List NewEventLogEntity → String} {s t : LogPipeline}
  {p p' : LogPipeline × List NewEventLogEntity} {a : LogAction}

end Backend.LogPipeline

/-! ## The batcher of the rule engine -/

namespace RuleEngine.Sinks

variable (codec : JsonCodec) (yara : YaraX) (hash : Uuid → ℕ) (config : PipelineConfig)

/-- The row of an alert. -/
def rowOf (c : Checked) : NewAlertEntity := .ofAlert c.alert

/-- The alert a step of the batcher takes off its channel. -/
def taken (s : Pipeline) : PipelineAction → List Checked
  | .take => s.alerts.head?.toList
  | _ => []

/-- What is on its way to the table, and the table. -/
def view (p : (Pipeline × Sinks) × List Checked) : Batches NewAlertEntity.alert_id :=
  ⟨p.2.map rowOf, p.1.1.buffer.map rowOf, p.1.2.alerts⟩

/-- The rows a step inserts. Nothing stays behind. -/
def statement (p : (Pipeline × Sinks) × List Checked) (a : AnsweredAction) :
    Option (List NewAlertEntity × List NewAlertEntity) :=
  match a.1 with
  | .answer _ => some (p.1.1.buffer.map rowOf, [])
  | _ => none

/-- **The database is there, and answers by the rows of a statement.** -/
def AnswersBy (db : List NewAlertEntity → Except String Unit) (s : Pipeline) :
    PipelineAction → Prop
  | .answer storage => storage = ⟨.ok (), db (s.buffer.map rowOf)⟩
  | _ => True

variable {codec yara hash config} {takes : NewAlertEntity → Bool}
  {errorOf : List NewAlertEntity → String} {s t : Pipeline}

/-- The actions of the batcher, and time. -/
def OfBatcher (a : PipelineAction) : Prop := a.batches = true ∨ ∃ elapsed, a = .tick elapsed

variable (codec yara hash config) in
/-- From a state the batcher, as time passes, comes to an empty buffer. -/
def Flushes (db : List NewAlertEntity → Except String Unit) (s : Pipeline) : Prop :=
  ∃ l t, (∀ a ∈ l, OfBatcher a) ∧ (Pipeline.machine codec yara hash config).run s l = some t ∧
    (Pipeline.machine codec yara hash config).EveryStep (AnswersBy db) s l ∧ t.buffer = []

variable {db : List NewAlertEntity → Except String Unit}

/-- A step nearer. -/
theorem Flushes.cons {a : PipelineAction}
    (ht : (Pipeline.machine codec yara hash config).step s a = some t) (ha : OfBatcher a)
    (hanswers : AnswersBy db s a) (h : Flushes codec yara hash config db t) :
    Flushes codec yara hash config db s := by
  obtain ⟨l, u, hl, hrun, hevery, hbuffer⟩ := h
  refine ⟨a :: l, u, ?_, Machine.run_cons_eq_some.2 ⟨t, ht, hrun⟩,
    Machine.everyStep_cons ht hanswers hevery, hbuffer⟩
  intro b hb
  rcases List.mem_cons.1 hb with rfl | hb
  · exact ha
  · exact hl b hb

end RuleEngine.Sinks

/-! ## Whole runs -/

section Runs

open Backend (NewEventLogEntity LogPipeline)
open RuleEngine

end Runs

end AigisZero
