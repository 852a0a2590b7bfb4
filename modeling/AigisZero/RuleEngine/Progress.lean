import AigisZero.RuleEngine.Shutdown
import Mathlib.Order.RelClasses

/-!
# Who waits for whom

The consumer waits for room on the event channel, which the scanner makes;
the scanner waits for room on the alert channel, which the batcher makes;
the batcher waits for no task. A sender is let go where the other end of
its channel is gone. So some task can always step, and after the shutdown
each such step brings the end nearer.
-/

namespace AigisZero.RuleEngine

/-- The tasks that the shutdown waits for. -/
inductive Task where
  | consumer
  | scanner
  | batcher
deriving DecidableEq, Repr

/-- The task that takes a step. Messages, the clock, the shutdown and the
answers to commits come from outside. -/
def EngineAction.task? : EngineAction → Option Task
  | .consumerShutdown => some .consumer
  | .enqueue => some .consumer
  | .deadLetter _ => some .consumer
  | .commit _ => some .consumer
  | .letGo => some .scanner
  | .pipeline (.receive _ _) => some .scanner
  | .pipeline .scannerShutdown => some .scanner
  | .pipeline .scannerExit => some .scanner
  | .pipeline .check => some .scanner
  | .pipeline .finish => some .scanner
  | .pipeline .send => some .scanner
  | .pipeline .take => some .batcher
  | .pipeline .batcherShutdown => some .batcher
  | .pipeline .drained => some .batcher
  | .pipeline (.answer _) => some .batcher
  | _ => none

/-- The steps the consumer has left before it can leave. -/
def ConsumerPc.left : ConsumerPc → ℕ
  | .exited => 0
  | .polling => 1
  | .committing _ => 2
  | .sending _ => 3
  | .poisoned _ _ => 3

namespace Pipeline

/-- The steps the scanner has left with the event it works on, and to
leave. -/
def scannerLeft (s : Pipeline) : ℕ :=
  match s.scanner with
  | .exited => 1
  | .selecting => if s.draining then 2 else 3
  | .checking alerts => 4 + 2 * alerts.length
  | .sending _ alerts => 5 + 2 * alerts.length

/-- The steps the batcher has left with no alert to take. -/
def batcherLeft (s : Pipeline) : ℕ :=
  match s.batcher with
  | .exited => 0
  | .flushing true => 1
  | .draining => 2
  | .selecting => 3
  | .flushing false => 4

end Pipeline

namespace Engine

variable (reader : EventReader) (yara : YaraX) (hash : Uuid → ℕ) (config : EngineConfig)
  (log : TypedLog)

/-- The task has not ended. That of the scanner has once its end of the
event channel is gone. -/
def Unfinished (s : Engine) : Task → Prop
  | .consumer => s.consumer ≠ .exited
  | .scanner => s.receiving = true
  | .batcher => s.core.batcher ≠ .exited

/-- The task waits for room on a full channel. -/
def Blocked (s : Engine) : Task → Prop
  | .consumer => (∃ delivery, s.consumer = .sending delivery) ∧ s.receiving = true ∧
      config.channel_capacity ≤ s.queued.length
  | .scanner => (∃ item alerts, s.core.scanner = .sending item alerts) ∧
      s.core.batcher ≠ .exited ∧ config.channel_capacity ≤ s.core.alerts.length
  | .batcher => False

/-- The task can take a step of its own. -/
def CanStep (s : Engine) (k : Task) : Prop :=
  ∃ a t, EngineAction.task? a = some k ∧ (session reader yara hash config log).step s a = some t

/-- **No deadlock**: after the shutdown some unfinished task can step while
there is one; a task that waits for room never waits alone; and after the
shutdown the tasks can bring each other to their ends. -/
structure DeadlockFree (s : Engine) : Prop where
  shutdown : s.core.cancelled = true → ∀ k, s.Unfinished k →
    ∃ k', s.Unfinished k' ∧ s.CanStep reader yara hash config log k'
  blocked : ∀ k, s.Blocked config k → ∃ k', k' ≠ k ∧ s.CanStep reader yara hash config log k'
  joined : s.core.cancelled = true → ∃ l t, (∀ a ∈ l, (EngineAction.task? a).isSome) ∧
    (session reader yara hash config log).run s l = some t ∧ AllExited t

/-- What is left to do: for the consumer, with the events on their channel;
and for the other two, with the alerts on theirs. -/
def left (s : Engine) : ℕ × ℕ :=
  (2 * s.consumer.left + s.queued.length,
    2 * (if s.receiving then s.core.scannerLeft else 0) + s.core.batcherLeft + s.core.alerts.length)

/-- Nearer to the end. An event that is evaluated can have any number of
alerts, so the events count before them. -/
def Nearer (s t : Engine) : Prop := Prod.Lex (· < ·) (· < ·) s.left t.left

/-- **A step that the task takes**, which brings the end nearer after the
shutdown. -/
def Advances (s : Engine) (k : Task) : Prop :=
  s.Unfinished k ∧ ∃ a t, EngineAction.task? a = some k ∧
    (session reader yara hash config log).step s a = some t ∧
    (s.core.cancelled = true → Nearer t s)

variable {reader yara hash config log} {s t : Engine} {a : EngineAction} {k : Task}

theorem nearer_of_fst (h : 2 * t.consumer.left + t.queued.length <
    2 * s.consumer.left + s.queued.length) : Nearer t s := Prod.Lex.left _ _ h

theorem nearer_of_snd (hfst : 2 * t.consumer.left + t.queued.length =
      2 * s.consumer.left + s.queued.length) (hsnd : t.left.2 < s.left.2) : Nearer t s := by
  unfold Nearer left
  rw [hfst]
  exact Prod.Lex.right _ hsnd

theorem Advances.canStep (h : s.Advances reader yara hash config log k) :
    s.CanStep reader yara hash config log k := by
  obtain ⟨-, a, t, htask, ht, -⟩ := h
  exact ⟨a, t, htask, ht⟩

/-- A step of the pipeline is one of the engine, where it leaves the event
channel alone. -/
theorem session_pipeline {b : PipelineAction} {core : Pipeline}
    (hcore : (Pipeline.machine reader.codec yara hash config.toPipelineConfig).step s.core b =
      some core) (htask : (EngineAction.task? (.pipeline b)).isSome)
    (hreceive : ∀ current draw, b ≠ .receive current draw) :
    (session reader yara hash config log).step s (.pipeline b) =
      some { s with core := core, ledger := s.ledger.note s.core b core } := by
  show s.pipeline reader yara hash config b = _
  rw [pipeline, hcore, Option.bind_some]
  cases b with
  | offer event => cases htask
  | consumerExit => cases htask
  | receive current draw => exact absurd rfl (hreceive current draw)
  | _ => rfl

/-- A step of the batcher advances it where there is less left to do. -/
theorem advances_of_batcher (b : PipelineAction) (core : Pipeline)
    (htask : EngineAction.task? (.pipeline b) = some .batcher)
    (hrunning : s.core.batcher ≠ .exited)
    (hcore : (Pipeline.machine reader.codec yara hash config.toPipelineConfig).step s.core b =
      some core)
    (hless : s.core.cancelled = true → core.scannerLeft = s.core.scannerLeft ∧
      core.batcherLeft + core.alerts.length < s.core.batcherLeft + s.core.alerts.length) :
    s.Advances reader yara hash config log .batcher := by
  refine ⟨hrunning, _, _, htask,
    session_pipeline hcore (by rw [htask]; rfl) fun _ _ h => (by rw [h] at htask; cases htask),
    fun hcancelled => nearer_of_snd rfl ?_⟩
  obtain ⟨hscanner, hless⟩ := hless hcancelled
  simp only [left, hscanner]
  omega

/-- So does a step of the scanner, which may leave one more alert on its
channel. -/
theorem advances_of_scanner (b : PipelineAction) (core : Pipeline)
    (htask : EngineAction.task? (.pipeline b) = some .scanner)
    (hreceive : ∀ current draw, b ≠ .receive current draw) (hreceiving : s.receiving = true)
    (hcore : (Pipeline.machine reader.codec yara hash config.toPipelineConfig).step s.core b =
      some core)
    (hbatcher : core.batcher = s.core.batcher)
    (hless : 2 * core.scannerLeft + core.alerts.length <
      2 * s.core.scannerLeft + s.core.alerts.length) :
    s.Advances reader yara hash config log .scanner := by
  refine ⟨hreceiving, _, _, htask, session_pipeline hcore (by rw [htask]; rfl) hreceive,
    fun _ => nearer_of_snd rfl ?_⟩
  simp only [left, hreceiving, if_true, Pipeline.batcherLeft, hbatcher]
  omega

/-! ## Each task in turn -/

theorem exists_take (config : PipelineConfig) {s : Pipeline} {item : Checked} {rest : List Checked}
    (hbatcher : s.batcher = .selecting ∨ s.batcher = .draining)
    (halerts : s.alerts = item :: rest) :
    ∃ t, s.take config = some t := by
  unfold Pipeline.take
  rcases hbatcher with hbatcher | hbatcher <;> rw [hbatcher, halerts] <;> exact ⟨_, rfl⟩

theorem exists_answer {s : Pipeline} {last : Bool} (hbatcher : s.batcher = .flushing last)
    (storage : Storage) : ∃ t, s.answer storage = some t := by
  unfold Pipeline.answer
  rw [hbatcher]
  dsimp only
  split <;> exact ⟨_, rfl⟩

theorem confirm_frame (s : Pipeline) (storage : Storage) :
    (s.confirm storage).scanner = s.scanner ∧ (s.confirm storage).draining = s.draining ∧
      (s.confirm storage).alerts = s.alerts := by
  unfold Pipeline.confirm
  split <;> exact ⟨rfl, rfl, rfl⟩

/-- **The batcher can step**, after the shutdown or with an alert to take. -/
theorem batcher_advances (hrunning : s.core.batcher ≠ .exited)
    (hwork : s.core.cancelled = true ∨ s.core.alerts ≠ []) :
    s.Advances reader yara hash config log .batcher := by
  cases hbatcher : s.core.batcher with
  | exited => exact absurd hbatcher hrunning
  | selecting =>
    by_cases hcancelled : s.core.cancelled = true
    · refine advances_of_batcher .batcherShutdown { s.core with batcher := .draining } rfl hrunning
        (if_pos ⟨hbatcher, hcancelled⟩) fun _ => ⟨rfl, ?_⟩
      simp only [Pipeline.batcherLeft, hbatcher]
      omega
    · cases htake : s.core.alerts with
      | nil => exact absurd htake (hwork.resolve_left hcancelled)
      | cons item rest =>
        obtain ⟨core, hcore⟩ := exists_take config.toPipelineConfig (.inl hbatcher) htake
        exact advances_of_batcher .take core rfl hrunning hcore fun h => absurd h hcancelled
  | draining =>
    cases htake : s.core.alerts with
    | nil =>
      by_cases hbuffer : s.core.buffer = []
      · refine advances_of_batcher .drained s.core.exit rfl hrunning ?_ fun _ => ⟨rfl, ?_⟩
        · show s.core.drained = _
          rw [Pipeline.drained, if_pos ⟨hbatcher, htake⟩, if_pos hbuffer]
        · simp only [Pipeline.batcherLeft, Pipeline.exit, hbatcher, htake]
          omega
      · refine advances_of_batcher .drained { s.core with batcher := .flushing true } rfl hrunning
          ?_ fun _ => ⟨rfl, ?_⟩
        · show s.core.drained = _
          rw [Pipeline.drained, if_pos ⟨hbatcher, htake⟩, if_neg hbuffer]
        · simp only [Pipeline.batcherLeft, hbatcher, htake]
          omega
    | cons item rest =>
      obtain ⟨core, hcore⟩ := exists_take config.toPipelineConfig (.inr hbatcher) htake
      refine advances_of_batcher .take core rfl hrunning hcore fun _ => ?_
      obtain ⟨_, _, halerts, ⟨hselecting, -⟩ | ⟨-, rfl⟩⟩ := Pipeline.take_eq_some hcore
      · rw [hbatcher] at hselecting
        cases hselecting
      · refine ⟨rfl, ?_⟩
        simp only [Pipeline.batcherLeft, hbatcher, halerts, List.length_cons]
        omega
  | flushing last =>
    obtain ⟨hscanner, hdraining, halerts⟩ := confirm_frame s.core ⟨.ok (), .ok ()⟩
    obtain ⟨core, hcore⟩ := exists_answer hbatcher ⟨.ok (), .ok ()⟩
    refine advances_of_batcher (.answer ⟨.ok (), .ok ()⟩) core rfl hrunning hcore fun _ => ?_
    rcases Pipeline.answer_eq_some hcore with ⟨hlast, rfl⟩ | ⟨hnotLast, rfl⟩
    · refine ⟨by simp only [Pipeline.scannerLeft, Pipeline.exit, hscanner, hdraining], ?_⟩
      simp only [Pipeline.batcherLeft, Pipeline.exit, hlast, List.length_nil]
      omega
    · refine ⟨by simp only [Pipeline.scannerLeft, hscanner, hdraining], ?_⟩
      simp only [Pipeline.batcherLeft, hnotLast, halerts]
      omega

/-- A scanner that is through lets go of the event channel. -/
theorem advances_of_exited (hscanner : s.core.scanner = .exited) (hreceiving : s.receiving = true) :
    s.Advances reader yara hash config log .scanner := by
  refine ⟨hreceiving, .letGo, _, rfl, if_pos ⟨hscanner, hreceiving⟩, fun _ => ?_⟩
  cases hqueued : s.queued with
  | nil =>
    refine nearer_of_snd (by rw [hqueued]) ?_
    simp only [left, hreceiving, Pipeline.scannerLeft, hscanner, if_true, Bool.false_eq_true,
      if_false]
    omega
  | cons delivery rest =>
    refine nearer_of_fst ?_
    rw [hqueued]
    simp only [List.length_nil, List.length_cons]
    omega

/-- The event at hand is evaluated, whatever comes of it. -/
theorem advances_of_queued (h : Aligned s) (hscanner : s.core.scanner = .selecting)
    (hreceiving : s.receiving = true) (hqueued : s.queued ≠ []) :
    s.Advances reader yara hash config log .scanner := by
  have hevents := h.events fun hexited => by rw [hscanner] at hexited; cases hexited
  obtain ⟨delivery, rest, hqueued⟩ := List.exists_cons_of_ne_nil hqueued
  rw [hqueued, List.map_cons] at hevents
  obtain ⟨core, hcore⟩ : ∃ core, s.core.receive reader.codec yara Pipeline.shellRegistry
      (fun _ => ⟨⟨0⟩, 0⟩) = some core := by
    unfold Pipeline.receive
    rw [hscanner, ← hevents]
    dsimp only
    split <;> exact ⟨_, rfl⟩
  have hstep : (Pipeline.machine reader.codec yara hash config.toPipelineConfig).step s.core
      (.receive Pipeline.shellRegistry fun _ => ⟨⟨0⟩, 0⟩) = some core := hcore
  refine ⟨hreceiving, .pipeline (.receive Pipeline.shellRegistry fun _ => ⟨⟨0⟩, 0⟩),
    { s with
      core := core
      ledger := s.ledger.note s.core (.receive Pipeline.shellRegistry fun _ => ⟨⟨0⟩, 0⟩) core
      queued := rest
      scanned := s.scanned ++ [delivery]
      evaluated := s.evaluated ++ [delivery] }, rfl, ?_, fun _ => nearer_of_fst ?_⟩
  · show s.pipeline reader yara hash config _ = _
    simp only [pipeline, hstep, Option.bind_some, hqueued]
  · rw [hqueued]
    simp only [List.length_cons]
    omega

/-- With no event left, the scanner sees the shutdown, and then that it is
through. -/
theorem advances_of_idle (h : Aligned s) (hscanner : s.core.scanner = .selecting)
    (hreceiving : s.receiving = true) (hqueued : s.queued = [])
    (hcancelled : s.core.cancelled = true) : s.Advances reader yara hash config log .scanner := by
  have hevents := h.events fun hexited => by rw [hscanner] at hexited; cases hexited
  rw [hqueued] at hevents
  by_cases hdraining : s.core.draining = true
  · refine advances_of_scanner .scannerExit { s.core with scanner := .exited } rfl
      (fun _ _ h => by cases h) hreceiving
        (if_pos ⟨hscanner, hevents.symm, .inl hdraining⟩) rfl ?_
    simp only [Pipeline.scannerLeft, hscanner, hdraining, if_true]
    omega
  · refine advances_of_scanner .scannerShutdown { s.core with draining := true } rfl
      (fun _ _ h => by cases h) hreceiving (if_pos ⟨hscanner, hcancelled⟩) rfl ?_
    simp only [Pipeline.scannerLeft, hscanner, if_true, if_neg hdraining]
    omega

/-- A check is made without a wait. -/
theorem advances_of_checking {alerts : List Alert} (hscanner : s.core.scanner = .checking alerts)
    (hreceiving : s.receiving = true) : s.Advances reader yara hash config log .scanner := by
  cases alerts with
  | nil =>
    refine advances_of_scanner .finish { s.core with scanner := .selecting } rfl
      (fun _ _ h => by cases h) hreceiving (if_pos hscanner) rfl ?_
    simp only [Pipeline.scannerLeft, hscanner, List.length_nil]
    split <;> omega
  | cons alert rest =>
    obtain ⟨core, hcore⟩ : ∃ core, s.core.check hash = some core := by
      unfold Pipeline.check
      rw [hscanner]
      dsimp only
      split <;> exact ⟨_, rfl⟩
    have hframe : core.batcher = s.core.batcher ∧ core.alerts = s.core.alerts ∧
        core.scannerLeft < s.core.scannerLeft := by
      obtain ⟨_, _, hchecking, ⟨-, rfl⟩ | ⟨-, rfl⟩⟩ := Pipeline.check_eq_some hcore
      all_goals
        refine ⟨rfl, rfl, ?_⟩
        simp only [Pipeline.scannerLeft, hchecking, List.length_cons]
        omega
    obtain ⟨hbatcher, halerts, hless⟩ := hframe
    refine advances_of_scanner .check core rfl (fun _ _ h => by cases h) hreceiving hcore
      hbatcher ?_
    rw [halerts]
    omega

/-- A send goes through where there is room, or nobody to receive. -/
theorem advances_of_sending {item : Checked} {rest : List Alert}
    (hscanner : s.core.scanner = .sending item rest) (hreceiving : s.receiving = true)
    (hfree : s.core.batcher = .exited ∨ s.core.alerts.length < config.channel_capacity) :
    s.Advances reader yara hash config log .scanner := by
  by_cases hexited : s.core.batcher = .exited
  · refine advances_of_scanner .send { s.core with scanner := .checking rest } rfl
      (fun _ _ h => by cases h) hreceiving ?_ rfl ?_
    · show s.core.send config.toPipelineConfig = _
      simp only [Pipeline.send, hscanner, if_pos hexited]
    · simp only [Pipeline.scannerLeft, hscanner]
      omega
  · have hfree := hfree.resolve_left hexited
    refine advances_of_scanner .send
      { s.core with scanner := .checking rest, alerts := s.core.alerts ++ [item] } rfl
      (fun _ _ h => by cases h) hreceiving ?_ rfl ?_
    · show s.core.send config.toPipelineConfig = _
      simp only [Pipeline.send, hscanner, if_neg hexited, if_pos hfree]
    · simp only [Pipeline.scannerLeft, hscanner, List.length_append, List.length_singleton]
      omega

/-- **The scanner can step, or waits for room that the batcher can make**,
after the shutdown or with an event to take. -/
theorem scanner_advances (h : Aligned s) (hroom : 0 < config.channel_capacity)
    (hreceiving : s.receiving = true) (hwork : s.core.cancelled = true ∨ s.queued ≠ []) :
    s.Advances reader yara hash config log .scanner ∨
      s.Advances reader yara hash config log .batcher := by
  cases hscanner : s.core.scanner with
  | exited => exact .inl (advances_of_exited hscanner hreceiving)
  | selecting =>
    by_cases hqueued : s.queued = []
    · have hcancelled := hwork.resolve_right fun hne => hne hqueued
      exact .inl (advances_of_idle h hscanner hreceiving hqueued hcancelled)
    · exact .inl (advances_of_queued h hscanner hreceiving hqueued)
  | checking alerts => exact .inl (advances_of_checking hscanner hreceiving)
  | sending item rest =>
    by_cases hfree : s.core.batcher = .exited ∨ s.core.alerts.length < config.channel_capacity
    · exact .inl (advances_of_sending hscanner hreceiving hfree)
    · obtain ⟨hrunning, hfull⟩ := not_or.1 hfree
      -- the channel is full, so the batcher has an alert to take
      refine .inr (batcher_advances hrunning (.inr fun hnil => hfull ?_))
      rw [hnil]
      exact hroom

/-- A step of the consumer advances it where it has less left to do, the
events on the channel included. -/
theorem advances_of_consumer (a : EngineAction) (t : Engine)
    (htask : EngineAction.task? a = some .consumer) (hrunning : 0 < s.consumer.left)
    (ht : (session reader yara hash config log).step s a = some t)
    (hless : 2 * t.consumer.left + t.queued.length < 2 * s.consumer.left + s.queued.length) :
    s.Advances reader yara hash config log .consumer := by
  refine ⟨fun hexited => ?_, a, t, htask, ht, fun _ => nearer_of_fst hless⟩
  rw [hexited] at hrunning
  exact absurd hrunning (Nat.lt_irrefl 0)

/-- The consumer can step once the channel is closed. -/
theorem consumer_advances (hcancelled : s.core.cancelled = true) (hgone : ¬ s.receiving = true)
    (hrunning : s.consumer ≠ .exited) : s.Advances reader yara hash config log .consumer := by
  cases hconsumer : s.consumer with
  | exited => exact absurd hconsumer hrunning
  | polling =>
    refine advances_of_consumer .consumerShutdown s.leave rfl (hconsumer ▸ Nat.one_pos) ?_ ?_
    · show s.consumerShutdown = _
      rw [consumerShutdown, hconsumer, hcancelled]
    · simp only [leave, hconsumer, ConsumerPc.left]
      omega
  | sending delivery =>
    refine advances_of_consumer .enqueue s.leave rfl (hconsumer ▸ Nat.succ_pos 2) ?_ ?_
    · show s.enqueue config = _
      simp only [enqueue, hconsumer, if_neg hgone]
    · simp only [leave, hconsumer, ConsumerPc.left]
      omega
  | poisoned id payload =>
    refine advances_of_consumer (.deadLetter (.ok ())) { s with
        consumer := .committing id
        deadLettered := s.deadLettered ++ [(id, poison reader config id payload)] } rfl
      (hconsumer ▸ Nat.succ_pos 2) ?_ ?_
    · show s.deadLetter reader config (.ok ()) = _
      unfold deadLetter
      rw [hconsumer]
      rfl
    · simp only [hconsumer, ConsumerPc.left]
      omega
  | committing id =>
    refine advances_of_consumer (.commit (.ok ()))
      { s with consumer := .polling, inFlight := s.inFlight ++ [id] } rfl
      (hconsumer ▸ Nat.succ_pos 1) ?_ ?_
    · show s.commit (.ok ()) = _
      unfold commit
      rw [hconsumer]
    · simp only [hconsumer, ConsumerPc.left]
      omega

/-- **Some task can step after the shutdown**, until all are gone. -/
theorem exists_advances (h : Aligned s) (hroom : 0 < config.channel_capacity)
    (hcancelled : s.core.cancelled = true) (hrunning : ¬ AllExited s) :
    ∃ k, s.Advances reader yara hash config log k := by
  by_cases hreceiving : s.receiving = true
  · rcases scanner_advances h hroom hreceiving (.inl hcancelled) with hadvances | hadvances
    · exact ⟨_, hadvances⟩
    · exact ⟨_, hadvances⟩
  · by_cases hconsumer : s.consumer = .exited
    · refine ⟨.batcher, batcher_advances (fun hbatcher => hrunning ?_) (.inl hcancelled)⟩
      exact ⟨hconsumer, Bool.eq_false_of_not_eq_true hreceiving, hbatcher⟩
    · exact ⟨.consumer, consumer_advances hcancelled hreceiving hconsumer⟩

/-! ## No deadlock -/

/-- A shutdown is not taken back. -/
theorem cancelled_step (h : Aligned s) (hcancelled : s.core.cancelled = true)
    (ht : (session reader yara hash config log).step s a = some t) : t.core.cancelled = true := by
  refine (ledgered_step h ht).preserves (I := fun u => u.1.cancelled = true)
    (fun u b v hu hv => ?_) hcancelled
  obtain ⟨w, hw, rfl⟩ := Machine.recorded_step_eq_some.1 hv
  by_contra hne
  rw [Pipeline.cancelled_mono hw (Bool.eq_false_of_not_eq_true hne)] at hu
  cases hu

theorem Unfinished.not_allExited (h : s.Unfinished k) : ¬ AllExited s := by
  rintro ⟨hconsumer, hreceiving, hbatcher⟩
  cases k with
  | consumer => exact h hconsumer
  | scanner =>
    rw [show s.receiving = true from h] at hreceiving
    cases hreceiving
  | batcher => exact h hbatcher

/-- **Where the ends of the event channel agree, there is no deadlock.** -/
theorem deadlockFree_of_aligned (h : Aligned s) (hroom : 0 < config.channel_capacity) :
    s.DeadlockFree reader yara hash config log where
  shutdown hcancelled k hunfinished := by
    obtain ⟨k', hadvances⟩ := exists_advances h hroom hcancelled hunfinished.not_allExited
    exact ⟨k', hadvances.1, hadvances.canStep⟩
  blocked k hblocked := by
    cases k with
    | consumer =>
      obtain ⟨-, hreceiving, hfull⟩ := hblocked
      have hqueued : s.queued ≠ [] := List.length_pos_iff.1 (hroom.trans_le hfull)
      rcases scanner_advances h hroom hreceiving (.inr hqueued) with hadvances | hadvances
      · exact ⟨.scanner, by decide, hadvances.canStep⟩
      · exact ⟨.batcher, by decide, hadvances.canStep⟩
    | scanner =>
      obtain ⟨-, hrunning, hfull⟩ := hblocked
      have halerts : s.core.alerts ≠ [] := List.length_pos_iff.1 (hroom.trans_le hfull)
      exact ⟨.batcher, by decide, (batcher_advances hrunning (.inr halerts)).canStep⟩
    | batcher => exact hblocked.elim
  joined hcancelled := by
    refine Machine.exists_run_of_progress (I := fun u => Aligned u ∧ u.core.cancelled = true)
      (wellFounded_lt.prod_lex wellFounded_lt) left (fun u hu hrunning => ?_) ⟨h, hcancelled⟩
    obtain ⟨k, -, a, v, htask, hv, hnearer⟩ := exists_advances hu.1 hroom hu.2 hrunning
    exact ⟨a, v, by rw [htask]; rfl, hv, ⟨aligned_step hu.1 hv, cancelled_step hu.1 hu.2 hv⟩,
      hnearer hu.2⟩

/-- **The tasks never deadlock**, in any state of any run, where the
channels have room for one. -/
theorem deadlockFree (reader : EventReader) (yara : YaraX) (hash : Uuid → ℕ) (config : EngineConfig)
    (log : TypedLog) (hroom : 0 < config.channel_capacity) (dedup : ShardedDeduplicator)
    (committed : TopicPartition → ℕ) (evaluated : List Delivery)
    (deadLettered : List (MessageId × Router.Record)) (l : List EngineAction) :
    (session reader yara hash config log).Always (DeadlockFree reader yara hash config log)
      (start dedup committed evaluated deadLettered) l := by
  have haligned : (session reader yara hash config log).Always Aligned
      (start dedup committed evaluated deadLettered) l :=
    Machine.always_of_everyStep (G := fun _ _ => True) (fun _ _ _ hs _ ht => aligned_step hs ht)
      aligned_start Machine.everyStep_true
  exact haligned.imp fun s hs => deadlockFree_of_aligned hs hroom

/-- A shutdown with an event in hand. -/
theorem deadlockFree_smallConfig :
    (session jsonReader allMatch (fun u => u.bits.toNat) smallConfig oneEvent).Always
      (DeadlockFree jsonReader allMatch (fun u => u.bits.toNat) smallConfig oneEvent)
      (start Pipeline.smallDedup (fun _ => 0) [] []) [.poll processTopic, .pipeline .cancel] :=
  deadlockFree _ _ _ _ _ (by decide) _ _ _ _ _

end Engine

end AigisZero.RuleEngine
