import AigisZero.Library.Machine
import AigisZero.RuleEngine.Suppression

/-!
# The scanner loop and the alert batcher

The tasks of the rule engine as one machine: the scanner loop takes events
off their channel, checks each alert with the deduplicator, and sends what
is let through to the batcher, which hands it on in batches. A signature
counts as seen once its alert is let through, long before it is stored.
This file says when the two agree.
-/

namespace AigisZero.RuleEngine

/-- The counters of the rule engine that the two tasks keep. -/
structure EngineMetrics where
  events_scanned : UInt64
  alerts_generated : UInt64
  alerts_suppressed : UInt64
  alerts_persisted : UInt64
deriving DecidableEq, Repr

namespace EngineMetrics

/-- `inc_scanned`. -/
def inc_scanned (m : EngineMetrics) : EngineMetrics :=
  { m with events_scanned := m.events_scanned + 1 }

/-- `inc_alerts_generated`. -/
def inc_alerts_generated (m : EngineMetrics) : EngineMetrics :=
  { m with alerts_generated := m.alerts_generated + 1 }

/-- `inc_alerts_suppressed`. -/
def inc_alerts_suppressed (m : EngineMetrics) : EngineMetrics :=
  { m with alerts_suppressed := m.alerts_suppressed + 1 }

/-- `inc_alerts_persisted`. -/
def inc_alerts_persisted (m : EngineMetrics) (count : UInt64) : EngineMetrics :=
  { m with alerts_persisted := m.alerts_persisted + count }

end EngineMetrics

/-- What the database does with a batch: whether a connection is got, and
whether the insert goes through. -/
structure Storage where
  conn : Except String Unit
  insert : Except String Unit

/-- `DualAlertSink::send_batch`. A broadcast to the broker that fails is
only logged, so it has no part in the answer. -/
def send_batch (alerts_batch : List Alert) (storage : Storage) : Except AppError Unit :=
  if alerts_batch = [] then .ok ()
  else
    match storage.conn with
    | .error e => .error (.databasePool ("Failed to acquire connection: " ++ e))
    | .ok () =>
      match storage.insert with
      | .error e => .error (.databaseQuery ("Failed to batch insert alerts: " ++ e))
      | .ok () => .ok ()

/-- An alert with the clock at its check. -/
structure Checked where
  alert : Alert
  now : ℕ
deriving DecidableEq

/-- The signature of a checked alert. -/
abbrev Checked.sig (c : Checked) : AlertSignature := signatureOf c.alert

/-- Where the scanner loop stands. -/
inductive ScannerPc where
  /-- Waiting for an event. -/
  | selecting
  /-- Checking the alerts of an event. -/
  | checking (alerts : List Alert)
  /-- Sending an alert, with those still to check. -/
  | sending (item : Checked) (alerts : List Alert)
  | exited
deriving DecidableEq

/-- Where the batcher stands. -/
inductive BatcherPc where
  /-- Waiting for an alert, the timer or the shutdown. -/
  | selecting
  /-- Emptying the channel after the shutdown. -/
  | draining
  /-- Waiting for `send_batch`, the last one or not. -/
  | flushing (last : Bool)
  | exited
deriving DecidableEq

/-- What the tasks are configured with. -/
structure PipelineConfig where
  channel_capacity : ℕ
  batch_max_size : ℕ
  batch_flush_interval : ℕ

/-- The state of the two tasks and of the channels, with what was stored
and what was suppressed. -/
structure Pipeline where
  /-- The monotonic clock. -/
  now : ℕ
  cancelled : Bool
  /-- The consumer still has its end of the event channel. -/
  consuming : Bool
  events : List TelemetryEvent
  scanner : ScannerPc
  /-- The scanner has seen the shutdown. -/
  draining : Bool
  dedup : ShardedDeduplicator
  alerts : List Checked
  batcher : BatcherPc
  buffer : List Checked
  last_flush : ℕ
  metrics : EngineMetrics
  /-- What was handed to a `send_batch` that returned `Ok`. -/
  stored : List Checked
  suppressed : List Checked

/-- What can happen. -/
inductive PipelineAction where
  | tick (elapsed : ℕ)
  | cancel
  /-- The consumer sends an event. -/
  | offer (event : TelemetryEvent)
  | consumerExit
  /-- The scanner takes an event and evaluates it with what rules there are. -/
  | receive (current : EngineRegistry) (draw : ℕ → AlertDraw)
  /-- The scanner takes the branch of the shutdown. -/
  | scannerShutdown
  /-- The scanner finds its channel empty, and stops. -/
  | scannerExit
  | check
  /-- The alerts of the event are done. -/
  | finish
  | send
  /-- The batcher takes an alert. -/
  | take
  /-- The timer of the batcher. -/
  | expire
  /-- The batcher takes the branch of the shutdown. -/
  | batcherShutdown
  /-- The batcher finds the channel empty after the shutdown. -/
  | drained
  /-- `send_batch` returns. -/
  | answer (storage : Storage)

namespace PipelineAction

/-- The actions of neither task: time, the shutdown, the consumer. -/
def outside : PipelineAction → Bool
  | .tick _ | .cancel | .offer _ | .consumerExit => true
  | _ => false

/-- The actions of the scanner but for its sends. -/
def scans : PipelineAction → Bool
  | .receive .. | .scannerShutdown | .scannerExit | .check | .finish => true
  | _ => false

/-- The actions of the batcher. -/
def batches : PipelineAction → Bool
  | .take | .expire | .batcherShutdown | .drained | .answer _ => true
  | _ => false

end PipelineAction

namespace Pipeline

variable (codec : JsonCodec) (yara : YaraX) (hash : Uuid → ℕ) (config : PipelineConfig)

/-- Both tasks at their loops, nothing sent. -/
def init (dedup : ShardedDeduplicator) : Pipeline :=
  ⟨0, false, true, [], .selecting, false, dedup, [], .selecting, [], 0, ⟨0, 0, 0, 0⟩, [], []⟩

/-- The scanner takes an event; one that cannot be evaluated is done with. -/
def receive (s : Pipeline) (current : EngineRegistry) (draw : ℕ → AlertDraw) : Option Pipeline :=
  match s.scanner, s.events with
  | .selecting, event :: rest =>
    let s := { s with events := rest, metrics := s.metrics.inc_scanned }
    match evaluate codec yara current event draw with
    | .ok alerts => some { s with scanner := .checking alerts }
    | .error _ => some s
  | _, _ => none

/-- The scanner stops where its channel is empty: after the shutdown, or
once the consumer is gone. -/
def scannerExit (s : Pipeline) : Option Pipeline :=
  if s.scanner = .selecting ∧ s.events = [] ∧ (s.draining ∨ ¬s.consuming) then
    some { s with scanner := .exited }
  else none

/-- The scanner checks the next alert with the deduplicator. -/
def check (s : Pipeline) : Option Pipeline :=
  match s.scanner with
  | .checking (alert :: rest) =>
    let item : Checked := ⟨alert, s.now⟩
    let (passed, dedup) := s.dedup.checkAndRecord hash item.sig s.now
    let s := { s with dedup := dedup, metrics := s.metrics.inc_alerts_generated }
    if passed then some { s with scanner := .sending item rest }
    else
      some { s with
        scanner := .checking rest
        metrics := s.metrics.inc_alerts_suppressed
        suppressed := s.suppressed ++ [item] }
  | _ => none

/-- The scanner sends an alert once there is room. On a closed channel the
alert is gone, with no more than a line in the log. -/
def send (s : Pipeline) : Option Pipeline :=
  match s.scanner with
  | .sending item rest =>
    if s.batcher = .exited then some { s with scanner := .checking rest }
    else if s.alerts.length < config.channel_capacity then
      some { s with scanner := .checking rest, alerts := s.alerts ++ [item] }
    else none
  | _ => none

/-- The batcher takes an alert. At its loop it flushes a full or an old
buffer; after the shutdown it only collects. The main task keeps a sender
of its own, so the channel is never closed under the batcher. -/
def take (s : Pipeline) : Option Pipeline :=
  match s.batcher, s.alerts with
  | .selecting, item :: rest =>
    let buffer := s.buffer ++ [item]
    let flush := config.batch_max_size ≤ buffer.length ∨
      config.batch_flush_interval ≤ s.now - s.last_flush
    some { s with
      alerts := rest, buffer := buffer
      batcher := if flush then .flushing false else .selecting }
  | .draining, item :: rest => some { s with alerts := rest, buffer := s.buffer ++ [item] }
  | _, _ => none

/-- The timer of the batcher flushes an old buffer. -/
def expire (s : Pipeline) : Option Pipeline :=
  if s.batcher = .selecting then
    if s.buffer ≠ [] ∧ config.batch_flush_interval ≤ s.now - s.last_flush then
      some { s with batcher := .flushing false }
    else some s
  else none

/-- The batcher is gone, and with it what is in its channel. -/
def exit (s : Pipeline) : Pipeline := { s with batcher := .exited, alerts := [], buffer := [] }

/-- The channel is empty: the last flush, if there is something to flush. -/
def drained (s : Pipeline) : Option Pipeline :=
  if s.batcher = .draining ∧ s.alerts = [] then
    if s.buffer = [] then some s.exit else some { s with batcher := .flushing true }
  else none

/-- `send_batch` returns. Whatever it returns, the buffer is cleared. -/
def answer (s : Pipeline) (storage : Storage) : Option Pipeline :=
  match s.batcher with
  | .flushing last =>
    let s :=
      match send_batch (s.buffer.map Checked.alert) storage with
      | .ok () =>
        { s with
          metrics := s.metrics.inc_alerts_persisted (UInt64.ofNat s.buffer.length)
          stored := s.stored ++ s.buffer }
      | .error _ => s
    -- the buffer goes, stored or not
    if last then some s.exit
    else some { s with batcher := .selecting, buffer := [], last_flush := s.now }
  | _ => none

/-- **The two tasks as a machine.** -/
def machine : Machine Pipeline PipelineAction where
  step s
    | .tick elapsed => some { s with now := s.now + elapsed }
    | .cancel => some { s with cancelled := true }
    | .offer event =>
      if s.consuming ∧ s.scanner ≠ .exited ∧ s.events.length < config.channel_capacity then
        some { s with events := s.events ++ [event] }
      else none
    | .consumerExit => some { s with consuming := false }
    | .receive current draw => s.receive codec yara current draw
    | .scannerShutdown =>
      if s.scanner = .selecting ∧ s.cancelled then some { s with draining := true } else none
    | .scannerExit => s.scannerExit
    | .check => s.check hash
    | .finish => if s.scanner = .checking [] then some { s with scanner := .selecting } else none
    | .send => s.send config
    | .take => s.take config
    | .expire => s.expire config
    | .batcherShutdown =>
      if s.batcher = .selecting ∧ s.cancelled then some { s with batcher := .draining } else none
    | .drained => s.drained
    | .answer storage => s.answer storage

/-- What was let through and not yet answered for: in the hands of the
scanner, in the channel, or in the buffer. -/
def pending (s : Pipeline) : List Checked :=
  (match s.scanner with
    | .sending item _ => [item]
    | _ => []) ++ s.alerts ++ s.buffer

/-- What was let through and is not lost. -/
def kept (s : Pipeline) : List Checked := s.stored ++ s.pending

/-- **A copy is never hidden**: a suppressed alert has another of its
signature, let through less than the window before it, that is stored or
on its way to the store. -/
def NeverHidden (window : ℕ) (s : Pipeline) : Prop :=
  ∀ x ∈ s.suppressed, ∃ y, y.sig = x.sig ∧ y.now ≤ x.now ∧ x.now - y.now < window ∧
    (y ∈ s.stored ∨ y ∈ s.pending)

/-- **A step drops nothing**: `send_batch` returns `Ok`, and the batcher
leaves only a channel that is empty and has no sender left. -/
def DropsNothing (s : Pipeline) : PipelineAction → Prop
  | .answer storage =>
    send_batch (s.buffer.map Checked.alert) storage = .ok () ∧
      (s.batcher = .flushing true → s.scanner = .exited ∧ s.alerts = [])
  | .drained => s.buffer = [] → s.scanner = .exited
  | _ => True

variable {codec yara hash config} {s t : Pipeline} {a : PipelineAction} {window : ℕ}

theorem mem_pending {y : Checked} : y ∈ s.pending ↔
    (∃ rest, s.scanner = .sending y rest) ∨ y ∈ s.alerts ∨ y ∈ s.buffer := by
  unfold pending
  cases s.scanner <;> simp [eq_comm]

theorem mem_kept {y : Checked} : y ∈ s.kept ↔ y ∈ s.stored ∨ y ∈ s.pending := List.mem_append

/-! ## What each action does -/

theorem receive_eq_some {current : EngineRegistry} {draw : ℕ → AlertDraw}
    (ht : s.receive codec yara current draw = some t) :
    ∃ event rest pc, s.scanner = .selecting ∧ s.events = event :: rest ∧
      (pc = .selecting ∨ ∃ alerts, pc = .checking alerts) ∧
      t = { s with events := rest, metrics := s.metrics.inc_scanned, scanner := pc } := by
  unfold receive at ht
  split at ht
  · next event rest hscanner hevents =>
    dsimp only at ht
    split at ht
    · next alerts _ =>
      exact ⟨event, rest, _, hscanner, hevents, .inr ⟨alerts, rfl⟩, (Option.some.inj ht).symm⟩
    · exact ⟨event, rest, _, hscanner, hevents, .inl hscanner, (Option.some.inj ht).symm⟩
  · cases ht

theorem scannerExit_eq_some (ht : s.scannerExit = some t) :
    s.scanner = .selecting ∧ s.events = [] ∧ (s.draining ∨ ¬s.consuming) ∧
      t = { s with scanner := .exited } := by
  obtain ⟨⟨hscanner, hevents, hend⟩, ht⟩ := Option.ite_none_right_eq_some.1 ht
  exact ⟨hscanner, hevents, hend, (Option.some.inj ht).symm⟩

/-- **What a check does**: the alert is counted; it is let through and in
the scanner's hands, or it is suppressed. -/
theorem check_eq_some (ht : s.check hash = some t) :
    ∃ alert rest, s.scanner = .checking (alert :: rest) ∧
      ((s.dedup.checkAndRecord hash (signatureOf alert) s.now).1 = true ∧
          t = { s with
            dedup := (s.dedup.checkAndRecord hash (signatureOf alert) s.now).2
            metrics := s.metrics.inc_alerts_generated
            scanner := .sending ⟨alert, s.now⟩ rest } ∨
        (s.dedup.checkAndRecord hash (signatureOf alert) s.now).1 = false ∧
          t = { s with
            dedup := (s.dedup.checkAndRecord hash (signatureOf alert) s.now).2
            metrics := s.metrics.inc_alerts_generated.inc_alerts_suppressed
            scanner := .checking rest
            suppressed := s.suppressed ++ [⟨alert, s.now⟩] }) := by
  unfold check at ht
  split at ht
  · next alert rest hscanner =>
    refine ⟨alert, rest, hscanner, ?_⟩
    dsimp only at ht
    split at ht
    · next hpassed => exact .inl ⟨hpassed, (Option.some.inj ht).symm⟩
    · next hsuppressed =>
      exact .inr ⟨Bool.eq_false_of_not_eq_true hsuppressed, (Option.some.inj ht).symm⟩
  · cases ht

theorem send_eq_some (ht : s.send config = some t) :
    ∃ item rest, s.scanner = .sending item rest ∧
      (s.batcher = .exited ∧ t = { s with scanner := .checking rest } ∨
        s.batcher ≠ .exited ∧ s.alerts.length < config.channel_capacity ∧
          t = { s with scanner := .checking rest, alerts := s.alerts ++ [item] }) := by
  unfold send at ht
  split at ht
  · next item rest hscanner =>
    refine ⟨item, rest, hscanner, ?_⟩
    split at ht
    · next hexited => exact .inl ⟨hexited, (Option.some.inj ht).symm⟩
    · next hrunning =>
      obtain ⟨hroom, ht⟩ := Option.ite_none_right_eq_some.1 ht
      exact .inr ⟨hrunning, hroom, (Option.some.inj ht).symm⟩
  · cases ht

theorem take_eq_some (ht : s.take config = some t) :
    ∃ item rest, s.alerts = item :: rest ∧
      (s.batcher = .selecting ∧
          t = { s with
            alerts := rest
            buffer := s.buffer ++ [item]
            batcher :=
              if config.batch_max_size ≤ (s.buffer ++ [item]).length ∨
                config.batch_flush_interval ≤ s.now - s.last_flush then .flushing false
              else .selecting } ∨
        s.batcher = .draining ∧ t = { s with alerts := rest, buffer := s.buffer ++ [item] }) := by
  unfold take at ht
  split at ht
  · next item rest hbatcher halerts =>
    exact ⟨item, rest, halerts, .inl ⟨hbatcher, (Option.some.inj ht).symm⟩⟩
  · next item rest hbatcher halerts =>
    exact ⟨item, rest, halerts, .inr ⟨hbatcher, (Option.some.inj ht).symm⟩⟩
  · cases ht

theorem expire_eq_some (ht : s.expire config = some t) :
    s.batcher = .selecting ∧
      (s.buffer ≠ [] ∧ t = { s with batcher := .flushing false } ∨ t = s) := by
  obtain ⟨hbatcher, ht⟩ := Option.ite_none_right_eq_some.1 ht
  refine ⟨hbatcher, ?_⟩
  split at ht
  · next hold => exact .inl ⟨hold.1, (Option.some.inj ht).symm⟩
  · exact .inr (Option.some.inj ht).symm

theorem drained_eq_some (ht : s.drained = some t) :
    s.batcher = .draining ∧ s.alerts = [] ∧
      (s.buffer = [] ∧ t = s.exit ∨ s.buffer ≠ [] ∧ t = { s with batcher := .flushing true }) := by
  obtain ⟨⟨hbatcher, halerts⟩, ht⟩ := Option.ite_none_right_eq_some.1 ht
  refine ⟨hbatcher, halerts, ?_⟩
  split at ht
  · next hbuffer => exact .inl ⟨hbuffer, (Option.some.inj ht).symm⟩
  · next hbuffer => exact .inr ⟨hbuffer, (Option.some.inj ht).symm⟩

/-- The state once `send_batch` has returned: what it stored is counted. -/
def confirm (s : Pipeline) (storage : Storage) : Pipeline :=
  match send_batch (s.buffer.map Checked.alert) storage with
  | .ok () =>
    { s with
      metrics := s.metrics.inc_alerts_persisted (UInt64.ofNat s.buffer.length)
      stored := s.stored ++ s.buffer }
  | .error _ => s

theorem answer_eq_some {storage : Storage} (ht : s.answer storage = some t) :
    s.batcher = .flushing true ∧ t = (s.confirm storage).exit ∨
      s.batcher = .flushing false ∧
        t = { s.confirm storage with
          batcher := .selecting, buffer := [], last_flush := (s.confirm storage).now } := by
  unfold answer at ht
  split at ht
  · next last hbatcher =>
    dsimp only at ht
    split at ht
    · next hlast =>
      subst hlast
      exact .inl ⟨hbatcher, (Option.some.inj ht).symm⟩
    · next hlast =>
      obtain rfl := Bool.eq_false_of_not_eq_true hlast
      exact .inr ⟨hbatcher, (Option.some.inj ht).symm⟩
  · cases ht

/-! ## What each action leaves alone -/

/-- Outside the tasks only the clock, the token and the event channel
change. -/
theorem outside_eq_some (ht : (machine codec yara hash config).step s a = some t)
    (ha : a.outside = true) :
    ∃ now cancelled consuming events, s.now ≤ now ∧ (cancelled = false → s.cancelled = false) ∧
      t = { s with
        now := now, cancelled := cancelled, consuming := consuming, events := events } := by
  cases a with
  | tick elapsed =>
    exact ⟨_, _, _, _, Nat.le_add_right .., id, (Option.some.inj ht).symm⟩
  | cancel => exact ⟨_, true, _, _, le_rfl, (fun h => by cases h), (Option.some.inj ht).symm⟩
  | offer event =>
    obtain ⟨-, ht⟩ := Option.ite_none_right_eq_some.1 ht
    exact ⟨_, _, _, _, le_rfl, id, (Option.some.inj ht).symm⟩
  | consumerExit => exact ⟨_, _, false, _, le_rfl, id, (Option.some.inj ht).symm⟩
  | _ => cases ha

/-- The scanner leaves the alert channel and the batcher alone, but for
its sends. -/
theorem scans_eq_some (ht : (machine codec yara hash config).step s a = some t)
    (ha : a.scans = true) :
    ∃ events scanner draining dedup metrics suppressed,
      t = { s with
        events := events, scanner := scanner, draining := draining, dedup := dedup
        metrics := metrics, suppressed := suppressed } ∧
      metrics.alerts_persisted = s.metrics.alerts_persisted := by
  cases a with
  | receive current draw =>
    obtain ⟨_, _, _, -, -, -, rfl⟩ := receive_eq_some ht
    exact ⟨_, _, _, _, _, _, rfl, rfl⟩
  | scannerShutdown =>
    obtain ⟨-, ht⟩ := Option.ite_none_right_eq_some.1 ht
    exact ⟨_, _, true, _, _, _, (Option.some.inj ht).symm, rfl⟩
  | scannerExit =>
    obtain ⟨-, -, -, rfl⟩ := scannerExit_eq_some ht
    exact ⟨_, _, _, _, _, _, rfl, rfl⟩
  | check =>
    obtain ⟨_, _, -, ⟨-, rfl⟩ | ⟨-, rfl⟩⟩ := check_eq_some ht
    · exact ⟨_, _, _, _, _, _, rfl, rfl⟩
    · exact ⟨_, _, _, _, _, _, rfl, rfl⟩
  | finish =>
    obtain ⟨-, ht⟩ := Option.ite_none_right_eq_some.1 ht
    exact ⟨_, .selecting, _, _, _, _, (Option.some.inj ht).symm, rfl⟩
  | _ => cases ha

/-- The batcher leaves the scanner and the event channel alone, and what
is stored but for its answers. -/
theorem batches_eq_some (ht : (machine codec yara hash config).step s a = some t)
    (ha : a.batches = true) :
    ∃ alerts batcher buffer last_flush metrics stored,
      t = { s with
        alerts := alerts, batcher := batcher, buffer := buffer, last_flush := last_flush
        metrics := metrics, stored := stored } ∧
      ((∀ storage, a ≠ .answer storage) → metrics = s.metrics ∧ stored = s.stored) := by
  cases a with
  | take =>
    obtain ⟨_, _, -, ⟨-, rfl⟩ | ⟨-, rfl⟩⟩ := take_eq_some ht
    · exact ⟨_, _, _, _, _, _, rfl, fun _ => ⟨rfl, rfl⟩⟩
    · exact ⟨_, _, _, _, _, _, rfl, fun _ => ⟨rfl, rfl⟩⟩
  | expire =>
    obtain ⟨-, ⟨-, rfl⟩ | rfl⟩ := expire_eq_some ht
    · exact ⟨_, _, _, _, _, _, rfl, fun _ => ⟨rfl, rfl⟩⟩
    · exact ⟨_, _, _, _, _, _, rfl, fun _ => ⟨rfl, rfl⟩⟩
  | batcherShutdown =>
    obtain ⟨-, ht⟩ := Option.ite_none_right_eq_some.1 ht
    exact ⟨_, .draining, _, _, _, _, (Option.some.inj ht).symm, fun _ => ⟨rfl, rfl⟩⟩
  | drained =>
    obtain ⟨-, -, ⟨-, rfl⟩ | ⟨-, rfl⟩⟩ := drained_eq_some ht
    · exact ⟨_, _, _, _, _, _, rfl, fun _ => ⟨rfl, rfl⟩⟩
    · exact ⟨_, _, _, _, _, _, rfl, fun _ => ⟨rfl, rfl⟩⟩
  | answer storage =>
    have hconfirm : ∃ metrics stored,
        s.confirm storage = { s with metrics := metrics, stored := stored } := by
      unfold confirm
      split
      · exact ⟨_, _, rfl⟩
      · exact ⟨s.metrics, s.stored, rfl⟩
    obtain ⟨metrics, stored, hconfirm⟩ := hconfirm
    rcases answer_eq_some ht with ⟨-, rfl⟩ | ⟨-, rfl⟩
    · rw [hconfirm]
      exact ⟨_, _, _, _, _, _, rfl, fun h => absurd rfl (h storage)⟩
    · rw [hconfirm]
      exact ⟨_, _, _, _, _, _, rfl, fun h => absurd rfl (h storage)⟩
  | _ => cases ha

/-- **What a step other than a check does**: time may pass, and what is
kept moves on, but nothing is lost and nothing is checked. -/
structure Quiet (s t : Pipeline) : Prop where
  dedup : t.dedup = s.dedup
  suppressed : t.suppressed = s.suppressed
  now : s.now ≤ t.now
  kept : ∀ y, y ∈ t.kept ↔ y ∈ s.kept
  gone : t.batcher = .exited → t.scanner = .exited

/-- The batcher does not leave before the scanner. -/
def LeavesLast (s : Pipeline) : Prop := s.batcher = .exited → s.scanner = .exited

/-- So while the scanner is there, the batcher is. -/
theorem LeavesLast.running (h : LeavesLast s) (hscanner : s.scanner ≠ .exited) :
    s.batcher ≠ .exited := mt h hscanner

theorem quiet_receive {current : EngineRegistry} {draw : ℕ → AlertDraw} (hleaves : LeavesLast s)
    (ht : s.receive codec yara current draw = some t) : Quiet s t := by
  obtain ⟨event, rest, pc, hscanner, -, hpc, rfl⟩ := receive_eq_some ht
  have hrunning : s.batcher ≠ .exited := hleaves.running (by rw [hscanner]; decide)
  refine ⟨rfl, rfl, le_rfl, fun y => ?_, fun h => absurd h hrunning⟩
  rcases hpc with rfl | ⟨alerts, rfl⟩
  · simp [mem_kept, mem_pending, hscanner]
  · simp [mem_kept, mem_pending, hscanner]

theorem quiet_scannerExit (ht : s.scannerExit = some t) : Quiet s t := by
  obtain ⟨hscanner, -, -, rfl⟩ := scannerExit_eq_some ht
  exact ⟨rfl, rfl, le_rfl, fun y => by simp [mem_kept, mem_pending, hscanner], fun _ => rfl⟩

/-- While the batcher is there, an alert that is sent is in its channel. -/
theorem quiet_send (hleaves : LeavesLast s) (ht : s.send config = some t) : Quiet s t := by
  obtain ⟨item, rest, hscanner, hcases⟩ := send_eq_some ht
  -- the scanner is still there, and the batcher does not leave before it
  have hrunning : s.batcher ≠ .exited := by
    refine hleaves.running ?_
    rw [hscanner]
    exact fun h => by cases h
  rcases hcases with ⟨hexited, -⟩ | ⟨-, -, rfl⟩
  · exact absurd hexited hrunning
  · refine ⟨rfl, rfl, le_rfl, fun y => ?_, fun h => absurd h hrunning⟩
    simp only [mem_kept, mem_pending, hscanner, List.mem_append, List.mem_singleton]
    grind

theorem quiet_take (ht : s.take config = some t) : Quiet s t := by
  obtain ⟨item, rest, halerts, ⟨-, rfl⟩ | ⟨hbatcher, rfl⟩⟩ := take_eq_some ht
  · refine ⟨rfl, rfl, le_rfl, fun y => ?_, fun h => ?_⟩
    · simp only [mem_kept, mem_pending, halerts, List.mem_append, List.mem_cons, List.not_mem_nil]
      grind
    · dsimp only at h
      split at h <;> cases h
  · refine ⟨rfl, rfl, le_rfl, fun y => ?_, fun h => ?_⟩
    · simp only [mem_kept, mem_pending, halerts, List.mem_append, List.mem_cons, List.not_mem_nil]
      grind
    · rw [hbatcher] at h
      cases h

theorem quiet_expire (hleaves : LeavesLast s) (ht : s.expire config = some t) : Quiet s t := by
  obtain ⟨-, ⟨-, rfl⟩ | rfl⟩ := expire_eq_some ht
  · exact ⟨rfl, rfl, le_rfl, fun y => Iff.rfl, fun h => by cases h⟩
  · exact ⟨rfl, rfl, le_rfl, fun y => Iff.rfl, hleaves⟩

theorem quiet_drained (hdrops : DropsNothing s .drained) (ht : s.drained = some t) : Quiet s t := by
  obtain ⟨-, halerts, ⟨hbuffer, rfl⟩ | ⟨-, rfl⟩⟩ := drained_eq_some ht
  · refine ⟨rfl, rfl, le_rfl, fun y => ?_, fun _ => hdrops hbuffer⟩
    simp [mem_kept, mem_pending, exit, halerts, hbuffer]
  · exact ⟨rfl, rfl, le_rfl, fun y => Iff.rfl, fun h => by cases h⟩

/-- A batch that is stored was kept, and the last one leaves nothing. -/
theorem quiet_answer {storage : Storage} (hdrops : DropsNothing s (.answer storage))
    (ht : s.answer storage = some t) : Quiet s t := by
  obtain ⟨hok, hlast⟩ := hdrops
  have hconfirm : s.confirm storage = { s with
      metrics := s.metrics.inc_alerts_persisted (UInt64.ofNat s.buffer.length)
      stored := s.stored ++ s.buffer } := by
    rw [confirm, hok]
  rcases answer_eq_some ht with ⟨hbatcher, rfl⟩ | ⟨-, rfl⟩
  · -- the last batch: what the batcher leaves behind is empty
    obtain ⟨hscanner, halerts⟩ := hlast hbatcher
    rw [hconfirm]
    refine ⟨rfl, rfl, le_rfl, fun y => ?_, fun _ => hscanner⟩
    simp [mem_kept, mem_pending, exit, halerts, hscanner]
  · rw [hconfirm]
    refine ⟨rfl, rfl, le_rfl, fun y => ?_, fun h => by cases h⟩
    simp only [mem_kept, mem_pending, List.mem_append, List.not_mem_nil]
    grind

/-- **What a check does** to what is kept: the alert is let through and
kept, or it is suppressed. -/
theorem check_cases (ht : s.check hash = some t) :
    ∃ alert rest, s.scanner = .checking (alert :: rest) ∧ t.now = s.now ∧
      t.batcher = s.batcher ∧
      t.dedup = (s.dedup.checkAndRecord hash (signatureOf alert) s.now).2 ∧
      (((s.dedup.checkAndRecord hash (signatureOf alert) s.now).1 = true ∧
          t.suppressed = s.suppressed ∧
          ∀ y, y ∈ t.kept ↔ y = ⟨alert, s.now⟩ ∨ y ∈ s.kept) ∨
        ((s.dedup.checkAndRecord hash (signatureOf alert) s.now).1 = false ∧
          t.suppressed = s.suppressed ++ [⟨alert, s.now⟩] ∧ ∀ y, y ∈ t.kept ↔ y ∈ s.kept)) := by
  obtain ⟨alert, rest, hscanner, ⟨hpassed, rfl⟩ | ⟨hsuppressed, rfl⟩⟩ := check_eq_some ht
  · refine ⟨alert, rest, hscanner, rfl, rfl, rfl, .inl ⟨hpassed, rfl, fun y => ?_⟩⟩
    simp only [mem_kept, mem_pending, hscanner, ScannerPc.sending.injEq]
    grind
  · refine ⟨alert, rest, hscanner, rfl, rfl, rfl, .inr ⟨hsuppressed, rfl, fun y => ?_⟩⟩
    simp [mem_kept, mem_pending, hscanner]

/-- **A step that drops nothing is quiet, or a check.** -/
theorem step_cases (hleaves : LeavesLast s) (hdrops : DropsNothing s a)
    (ht : (machine codec yara hash config).step s a = some t) :
    Quiet s t ∨ s.check hash = some t := by
  cases a with
  | tick _ | cancel | offer _ | consumerExit =>
    obtain ⟨_, _, _, _, hnow, -, rfl⟩ := outside_eq_some ht rfl
    exact .inl ⟨rfl, rfl, hnow, fun y => Iff.rfl, hleaves⟩
  | receive current draw => exact .inl (quiet_receive hleaves ht)
  | scannerShutdown =>
    obtain ⟨-, ht⟩ := Option.ite_none_right_eq_some.1 ht
    obtain rfl := Option.some.inj ht
    exact .inl ⟨rfl, rfl, le_rfl, fun y => Iff.rfl, hleaves⟩
  | scannerExit => exact .inl (quiet_scannerExit ht)
  | check => exact .inr ht
  | finish =>
    obtain ⟨hscanner, ht⟩ := Option.ite_none_right_eq_some.1 ht
    obtain rfl := Option.some.inj ht
    have hrunning : s.batcher ≠ .exited := hleaves.running (by rw [hscanner]; decide)
    exact .inl ⟨rfl, rfl, le_rfl, fun y => by simp [mem_kept, mem_pending, hscanner],
      fun h => absurd h hrunning⟩
  | send => exact .inl (quiet_send hleaves ht)
  | take => exact .inl (quiet_take ht)
  | expire => exact .inl (quiet_expire hleaves ht)
  | batcherShutdown =>
    obtain ⟨-, ht⟩ := Option.ite_none_right_eq_some.1 ht
    obtain rfl := Option.some.inj ht
    exact .inl ⟨rfl, rfl, le_rfl, fun y => Iff.rfl, fun h => by cases h⟩
  | drained => exact .inl (quiet_drained hdrops ht)
  | answer storage => exact .inl (quiet_answer hdrops ht)

/-! ## A whole run -/

/-- **What a run that drops nothing keeps**: each time the deduplicator
remembers is that of an alert that is not lost. -/
structure Sound (hash : Uuid → ℕ) (window : ℕ) (s : Pipeline) : Prop where
  window_eq : s.dedup.suppressionWindow = window
  remembered : ∀ sig t, s.dedup.lastSeen hash sig = some t → ∃ y ∈ s.kept, y.sig = sig ∧ y.now = t
  past : ∀ y ∈ s.kept, y.now ≤ s.now
  leaves : LeavesLast s
  hidden : NeverHidden window s

/-- What is covered stays so while nothing is lost. -/
theorem NeverHidden.mono (hs : NeverHidden window s) (hsuppressed : t.suppressed = s.suppressed)
    (hkept : ∀ y, y ∈ s.kept → y ∈ t.kept) : NeverHidden window t := by
  intro x hx
  obtain ⟨y, hsig, hle, hlt, hy⟩ := hs x (hsuppressed ▸ hx)
  exact ⟨y, hsig, hle, hlt, mem_kept.1 (hkept y (mem_kept.2 hy))⟩

theorem Sound.quiet (hs : Sound hash window s) (hquiet : Quiet s t) : Sound hash window t where
  window_eq := by rw [hquiet.dedup, hs.window_eq]
  remembered sig time h := by
    obtain ⟨y, hy, hsig, hnow⟩ := hs.remembered sig time (hquiet.dedup ▸ h)
    exact ⟨y, (hquiet.kept y).2 hy, hsig, hnow⟩
  past y hy := (hs.past y ((hquiet.kept y).1 hy)).trans hquiet.now
  leaves := hquiet.gone
  hidden := hs.hidden.mono hquiet.suppressed fun y => (hquiet.kept y).2

/-- **A check is sound**: it suppresses only what it remembers, and that
is not lost. -/
theorem Sound.check (hs : Sound hash window s) (ht : s.check hash = some t) :
    Sound hash window t := by
  obtain ⟨alert, rest, hscanner, hnow, hbatcher, hdedup, hcases⟩ := check_cases ht
  have hkept : ∀ y, y ∈ s.kept → y ∈ t.kept := by
    rcases hcases with ⟨-, -, hkept⟩ | ⟨-, -, hkept⟩
    · exact fun y hy => (hkept y).2 (.inr hy)
    · exact fun y hy => (hkept y).2 hy
  refine ⟨by rw [hdedup]; simpa using hs.window_eq, fun sig time hlast => ?_, fun y hy => ?_,
    fun h => ?_, ?_⟩
  · -- a time it remembers is the clock of this check, or an older one
    rw [hdedup] at hlast
    have hrecord := ShardedDeduplicator.lastSeen_of_checkAndRecord hlast
    split at hrecord
    · next hpass =>
      rcases hcases with ⟨-, -, hkept'⟩ | ⟨hfalse, -, -⟩
      · exact ⟨⟨alert, s.now⟩, (hkept' _).2 (.inl rfl), hpass.1, hrecord.symm⟩
      · rw [hfalse] at hpass
        exact absurd hpass.2 Bool.false_ne_true
    · obtain ⟨y, hy, hsig, hat⟩ := hs.remembered sig time hrecord
      exact ⟨y, hkept y hy, hsig, hat⟩
  · rw [hnow]
    rcases hcases with ⟨-, -, hkept'⟩ | ⟨-, -, hkept'⟩
    · rcases (hkept' y).1 hy with rfl | hy
      · exact le_rfl
      · exact hs.past y hy
    · exact hs.past y ((hkept' y).1 hy)
  · rw [hbatcher] at h
    rw [hs.leaves h] at hscanner
    cases hscanner
  · rcases hcases with ⟨-, hsuppressed, -⟩ | ⟨hfalse, hsuppressed, -⟩
    · exact hs.hidden.mono hsuppressed hkept
    · intro x hx
      rw [hsuppressed] at hx
      rcases List.mem_append.1 hx with hx | hx
      · obtain ⟨y, hsig, hle, hlt, hy⟩ := hs.hidden x hx
        exact ⟨y, hsig, hle, hlt, mem_kept.1 (hkept y (mem_kept.2 hy))⟩
      · obtain rfl := List.mem_singleton.1 hx
        -- the alert just suppressed: the time remembered is of a copy that is kept
        obtain ⟨time, hlast, hlt⟩ := ShardedDeduplicator.checkAndRecord_eq_false_iff.1 hfalse
        obtain ⟨y, hy, hsig, rfl⟩ := hs.remembered _ time hlast
        exact ⟨y, hsig, hs.past y hy, hs.window_eq ▸ hlt, mem_kept.1 (hkept y hy)⟩

theorem sound_init {totalCapacity : ℕ} {dedup : ShardedDeduplicator}
    (hnew : ShardedDeduplicator.new totalCapacity window = .ok dedup) :
    Sound hash window (init dedup) where
  window_eq := (ShardedDeduplicator.new_eq_ok hnew).2
  remembered sig time h := by
    have hlast : lastEmission sig [] = some time := ShardedDeduplicator.coupled_new hnew sig time h
    cases hlast
  past y hy := by
    simp [kept, pending, init] at hy
  leaves h := by cases h
  hidden x hx := by cases hx

/-- **Suppression never hides the only copy**, in a run that drops
nothing: a suppressed alert has one of its signature stored or on its way,
and once nothing is on its way, stored. -/
theorem neverHidden_of_dropsNothing {totalCapacity : ℕ} {dedup : ShardedDeduplicator}
    {l : List PipelineAction} (hnew : ShardedDeduplicator.new totalCapacity window = .ok dedup)
    (hdrops : (machine codec yara hash config).EveryStep DropsNothing (init dedup) l) :
    (machine codec yara hash config).Always
      (fun s => NeverHidden window s ∧ (s.pending = [] → ∀ x ∈ s.suppressed, ∃ y ∈ s.stored,
        y.sig = x.sig ∧ y.now ≤ x.now ∧ x.now - y.now < window)) (init dedup) l := by
  have hsound : (machine codec yara hash config).Always (Sound hash window) (init dedup) l :=
    Machine.always_of_everyStep
      (fun s a t hs hG ht => (step_cases hs.leaves hG ht).elim hs.quiet hs.check)
      (sound_init hnew) hdrops
  refine hsound.imp fun s hs => ⟨hs.hidden, fun hnone x hx => ?_⟩
  obtain ⟨y, hsig, hle, hlt, hy⟩ := hs.hidden x hx
  rcases hy with hy | hy
  · exact ⟨y, hy, hsig, hle, hlt⟩
  · rw [hnone] at hy
    cases hy

/-- One rule, for events of processes. -/
def shellRegistry : EngineRegistry where
  rule_sets c :=
    if c = "process" then
      some ⟨[⟨"Linux_Reverse_Shell", [("description", .String "Reverse shell")]⟩], by decide⟩
    else none
  mitre := .default

/-- Every alert is a batch. -/
def eager : PipelineConfig := ⟨10, 1, 5⟩

/-- A deduplicator of one entry a shard, and a window of 60. -/
def smallDedup : ShardedDeduplicator := ⟨1, Nat.one_pos, fun _ => Lru.empty, 60⟩

/-- An event whose alert reaches the database, and one second later the
same event again. -/
def twice (storage : Storage) : List PipelineAction :=
  [.offer processEvent, .receive shellRegistry fun _ => ⟨⟨1⟩, 0⟩, .check, .send, .take,
    .answer storage, .finish, .tick 1, .offer processEvent,
    .receive shellRegistry fun _ => ⟨⟨2⟩, 0⟩, .check]

/-- Where the batch is stored, the second alert is covered. -/
theorem neverHidden_of_dropsNothing_twice :
    (machine JsonText.codec allMatch (fun u => u.bits.toNat) eager).Always
      (fun s => NeverHidden 60 s ∧ (s.pending = [] → ∀ x ∈ s.suppressed, ∃ y ∈ s.stored,
        y.sig = x.sig ∧ y.now ≤ x.now ∧ x.now - y.now < 60)) (init smallDedup)
      (twice ⟨.ok (), .ok ()⟩) := by
  have hnew : ShardedDeduplicator.new 16 60 = .ok smallDedup := rfl
  have hstored : ∀ s : Pipeline, s.batcher = .flushing false →
      send_batch (s.buffer.map Checked.alert) ⟨.ok (), .ok ()⟩ = .ok () →
      DropsNothing s (.answer ⟨.ok (), .ok ()⟩) := fun s hbatcher hok =>
    ⟨hok, fun h => by rw [hbatcher] at h; cases h⟩
  refine neverHidden_of_dropsNothing hnew ?_
  -- only the answer of the database has anything to meet
  refine Machine.everyStep_cons rfl trivial (Machine.everyStep_cons rfl trivial ?_)
  refine Machine.everyStep_cons rfl trivial (Machine.everyStep_cons rfl trivial ?_)
  refine Machine.everyStep_cons rfl trivial (Machine.everyStep_cons rfl (hstored _ rfl rfl) ?_)
  refine Machine.everyStep_cons rfl trivial (Machine.everyStep_cons rfl trivial ?_)
  refine Machine.everyStep_cons rfl trivial (Machine.everyStep_cons rfl trivial ?_)
  exact Machine.everyStep_cons rfl trivial trivial

/-- **The window outlives the batch**: the alert is let through, its batch
is refused and dropped, and the next alert is suppressed all the same. -/
theorem not_neverHidden_refused :
    ∃ t, (machine JsonText.codec allMatch (fun u => u.bits.toNat) eager).run (init smallDedup)
        (twice ⟨.ok (), .error "connection reset"⟩) = some t ∧ ¬ NeverHidden 60 t := by
  have hrun : ((machine JsonText.codec allMatch (fun u => u.bits.toNat) eager).run
      (init smallDedup) (twice ⟨.ok (), .error "connection reset"⟩)).map
        (fun t => (t.suppressed, t.stored, t.pending)) =
      some ([⟨build_alert processEvent
        ⟨"Linux_Reverse_Shell", [("description", .String "Reverse shell")]⟩ .default ⟨⟨2⟩, 0⟩, 1⟩],
          [], []) := rfl
  obtain ⟨t, ht, hfields⟩ := Option.map_eq_some_iff.1 hrun
  obtain ⟨hsuppressed, hrest⟩ := Prod.mk.inj hfields
  obtain ⟨hstored, hpending⟩ := Prod.mk.inj hrest
  refine ⟨t, ht, fun hhidden => ?_⟩
  obtain ⟨y, -, -, -, hy⟩ := hhidden _ (hsuppressed ▸ List.mem_singleton_self _)
  rw [hstored, hpending] at hy
  rcases hy with hy | hy <;> cases hy

end Pipeline

end AigisZero.RuleEngine
