import AigisZero.RuleEngine.Pipeline

/-!
# The ledger of the alerts

What became of every alert before the shutdown. The ledger keeps what the
two tasks of the pipeline leave no trace of: the alerts let through and
the alerts sent, in their order, the batches handed to `send_batch`, and
those of them it returned `Ok` for. The counters and the channels account
for all of it, in every state of every run.
-/

namespace AigisZero.RuleEngine

/-- What was done with the alerts so far. -/
structure Ledger where
  /-- Let through by the deduplicator. -/
  released : List Checked
  /-- Sent to the batcher. -/
  emitted : List Checked
  /-- The batches `send_batch` was called with. -/
  handed : List (List Checked)
  /-- The batches `send_batch` returned `Ok` for. -/
  confirmed : List (List Checked)

namespace Ledger

/-- Nothing done. -/
def empty : Ledger := ⟨[], [], [], []⟩

/-- `send_batch` is called where the batcher begins to wait for it. -/
def hand (r : Ledger) (t : Pipeline) : Ledger :=
  match t.batcher with
  | .flushing _ => { r with handed := r.handed ++ [t.buffer] }
  | _ => r

/-- What a step adds to the ledger. -/
def note (s : Pipeline) (a : PipelineAction) (t : Pipeline) (r : Ledger) : Ledger :=
  match a with
  | .check =>
    match t.scanner with
    | .sending item _ => { r with released := r.released ++ [item] }
    | _ => r
  | .send =>
    match s.scanner with
    | .sending item _ =>
      if s.batcher = .exited then r else { r with emitted := r.emitted ++ [item] }
    | _ => r
  | .take => r.hand t
  | .expire => r.hand t
  | .drained => r.hand t
  | .answer storage =>
    match send_batch (s.buffer.map Checked.alert) storage with
    | .ok () => { r with confirmed := r.confirmed ++ [s.buffer] }
    | .error _ => r
  | _ => r

end Ledger

namespace Pipeline

variable (codec : JsonCodec) (yara : YaraX) (hash : Uuid → ℕ) (config : PipelineConfig)

/-- **The two tasks, with the ledger.** -/
def ledgered : Machine (Pipeline × Ledger) PipelineAction :=
  (machine codec yara hash config).recorded Ledger.note

/-- The alerts in the buffer that are not in a batch already. -/
def waiting (s : Pipeline) : List Checked :=
  match s.batcher with
  | .flushing _ => []
  | _ => s.buffer

/-- The alert the scanner has let through and not sent yet. -/
def inHand (s : Pipeline) : List Checked :=
  match s.scanner with
  | .sending item _ => [item]
  | _ => []

/-- **Conservation.** Every alert that was generated is suppressed, in the
hands of the scanner, in the channel, in the buffer, or in a batch that
was handed on. The batches, the buffer and the channel are the alerts that
were sent, in their order. No batch is empty or too large, and the alerts
that count as persisted are those of the batches that went through. -/
structure Conserved (config : PipelineConfig) (s : Pipeline) (r : Ledger) : Prop where
  generated : s.metrics.alerts_generated = s.metrics.alerts_suppressed +
    UInt64.ofNat (s.alerts.length + s.waiting.length + r.handed.flatten.length + s.inHand.length)
  processing : s.inHand.length ≤ 1
  order : r.handed.flatten ++ s.waiting ++ s.alerts = r.emitted
  size : ∀ batch ∈ r.handed, batch ≠ [] ∧ batch.length ≤ max 1 config.batch_max_size
  persisted : s.metrics.alerts_persisted = UInt64.ofNat (r.confirmed.map List.length).sum
  confirmed : r.confirmed.Sublist r.handed

/-- What holds besides before the shutdown: the batcher is at its loop
with room in its buffer, or waits for the batch it handed on last. -/
structure Batching (config : PipelineConfig) (s : Pipeline) (r : Ledger) : Prop where
  running : s.batcher = .selecting ∧ s.buffer.length < max 1 config.batch_max_size ∨
    s.batcher = .flushing false ∧ ∃ earlier, r.handed = earlier ++ [s.buffer] ∧
      r.confirmed.Sublist earlier

variable {codec yara hash config} {s t : Pipeline} {r r' : Ledger} {a : PipelineAction}

/-- What holds in every state before the shutdown. -/
structure Accounted (config : PipelineConfig) (s : Pipeline) (r : Ledger) : Prop where
  conserved : Conserved config s r
  batching : Batching config s r

theorem accounted_init (dedup : ShardedDeduplicator) :
    Accounted config (init dedup) .empty where
  conserved := by
    refine ⟨rfl, Nat.zero_le _, rfl, fun batch hbatch => ?_, rfl, List.Sublist.slnil⟩
    cases hbatch
  batching := ⟨.inl ⟨rfl, Nat.lt_of_lt_of_le Nat.one_pos (le_max_left _ _)⟩⟩

/-- What the account is made of. A step that leaves it alone keeps it. -/
theorem Accounted.of_eq (h : Accounted config s r) (halerts : t.alerts = s.alerts)
    (hbuffer : t.buffer = s.buffer) (hbatcher : t.batcher = s.batcher)
    (hinHand : t.inHand = s.inHand) (hmetrics : t.metrics.alerts_generated =
      s.metrics.alerts_generated ∧ t.metrics.alerts_suppressed = s.metrics.alerts_suppressed ∧
      t.metrics.alerts_persisted = s.metrics.alerts_persisted) : Accounted config t r := by
  obtain ⟨hgenerated, hsuppressed, hpersisted⟩ := hmetrics
  have hwaiting : t.waiting = s.waiting := by simp only [waiting, hbatcher, hbuffer]
  obtain ⟨hc, hb⟩ := h
  refine ⟨⟨?_, ?_, ?_, hc.size, ?_, hc.confirmed⟩, ⟨?_⟩⟩
  · rw [hgenerated, hsuppressed, halerts, hwaiting, hinHand, hc.generated]
  · rw [hinHand]
    exact hc.processing
  · rw [hwaiting, halerts, hc.order]
  · rw [hpersisted, hc.persisted]
  · rw [hbatcher, hbuffer]
    exact hb.running

/-- The selecting batcher has room. -/
theorem Batching.room (hb : Batching config s r) (hbatcher : s.batcher = .selecting) :
    s.buffer.length < max 1 config.batch_max_size := by
  rcases hb.running with ⟨-, hsize⟩ | ⟨hflushing, -⟩
  · exact hsize
  · rw [hbatcher] at hflushing
    cases hflushing

/-- **A batch is handed on.** It is in the buffer then, with what was in the
channel before it. -/
theorem Accounted.handOn (h : Accounted config s r)
    (hmoved : t.buffer ++ t.alerts = s.waiting ++ s.alerts) (hbatcher : t.batcher = .flushing false)
    (hbuffer : t.buffer ≠ []) (hsize : t.buffer.length ≤ max 1 config.batch_max_size)
    (hinHand : t.inHand = s.inHand) (hmetrics : t.metrics = s.metrics) :
    Accounted config t { r with handed := r.handed ++ [t.buffer] } := by
  obtain ⟨hc, -⟩ := h
  have hwaiting : t.waiting = [] := by simp only [waiting, hbatcher]
  have hlength := congrArg List.length hmoved
  rw [List.length_append, List.length_append] at hlength
  refine ⟨⟨?_, ?_, ?_, ?_, ?_, ?_⟩, ⟨.inr ⟨hbatcher, r.handed, rfl, hc.confirmed⟩⟩⟩
  · rw [hmetrics, hwaiting, hinHand, hc.generated]
    congr 2
    simp only [List.flatten_append, List.flatten_singleton, List.length_append, List.length_nil]
    omega
  · rw [hinHand]
    exact hc.processing
  · show (r.handed ++ [t.buffer]).flatten ++ t.waiting ++ t.alerts = r.emitted
    rw [hwaiting, List.flatten_append, List.flatten_singleton, List.append_nil, List.append_assoc,
      hmoved, ← List.append_assoc]
    exact hc.order
  · intro batch hbatch
    rcases List.mem_append.1 hbatch with hbatch | hbatch
    · exact hc.size batch hbatch
    · obtain rfl := List.mem_singleton.1 hbatch
      exact ⟨hbuffer, hsize⟩
  · rw [hmetrics]
    exact hc.persisted
  · exact hc.confirmed.trans (List.sublist_append_left _ _)

theorem accounted_receive {current : EngineRegistry} {draw : ℕ → AlertDraw}
    (h : Accounted config s r) (ht : s.receive codec yara current draw = some t) :
    Accounted config t r := by
  obtain ⟨event, rest, pc, hscanner, -, hpc, rfl⟩ := receive_eq_some ht
  refine h.of_eq rfl rfl rfl ?_ ⟨rfl, rfl, rfl⟩
  rcases hpc with rfl | ⟨alerts, rfl⟩ <;> simp only [inHand, hscanner]

/-- A check counts the alert, and it is in hand or suppressed. -/
theorem accounted_check (h : Accounted config s r) (ht : s.check hash = some t) :
    Accounted config t (Ledger.note s .check t r) := by
  obtain ⟨hc, hb⟩ := h
  obtain ⟨alert, rest, hscanner, ⟨-, rfl⟩ | ⟨-, rfl⟩⟩ := check_eq_some ht
  · have hinHand : s.inHand = [] := by simp only [inHand, hscanner]
    refine ⟨⟨?_, le_rfl, hc.order, hc.size, hc.persisted, hc.confirmed⟩, ⟨hb.running⟩⟩
    have hgenerated := hc.generated
    rw [hinHand] at hgenerated
    show s.metrics.alerts_generated + 1 = _
    rw [hgenerated, UInt64.add_assoc]
    congr 1
    exact (UInt64.ofNat_add _ 1).symm
  · have hinHand : s.inHand = [] := by simp only [inHand, hscanner]
    refine ⟨⟨?_, Nat.zero_le _, hc.order, hc.size, hc.persisted, hc.confirmed⟩, ⟨hb.running⟩⟩
    have hgenerated := hc.generated
    rw [hinHand] at hgenerated
    show s.metrics.alerts_generated + 1 = s.metrics.alerts_suppressed + 1 + _
    rw [hgenerated, UInt64.add_assoc, UInt64.add_assoc, UInt64.add_comm (UInt64.ofNat _) 1]
    rfl

/-- A send moves the alert from the hand to the channel. -/
theorem accounted_send (h : Accounted config s r) (ht : s.send config = some t) :
    Accounted config t (Ledger.note s .send t r) := by
  obtain ⟨hc, hb⟩ := h
  obtain ⟨item, rest, hscanner, ⟨hexited, -⟩ | ⟨hrunning, -, rfl⟩⟩ := send_eq_some ht
  · -- the batcher does not leave before the shutdown
    rcases hb.running with ⟨hbatcher, -⟩ | ⟨hbatcher, -⟩ <;>
      rw [hexited] at hbatcher <;> cases hbatcher
  · have hinHand : s.inHand = [item] := by simp only [inHand, hscanner]
    have hnote : Ledger.note s .send
        { s with scanner := .checking rest, alerts := s.alerts ++ [item] } r =
        { r with emitted := r.emitted ++ [item] } := by
      simp only [Ledger.note, hscanner, if_neg hrunning]
    rw [hnote]
    refine ⟨⟨?_, Nat.zero_le _, ?_, hc.size, hc.persisted, hc.confirmed⟩, ⟨hb.running⟩⟩
    · have hgenerated := hc.generated
      rw [hinHand] at hgenerated
      show s.metrics.alerts_generated = _
      rw [hgenerated]
      congr 2
      show _ = (s.alerts ++ [item]).length + s.waiting.length + r.handed.flatten.length + 0
      simp only [List.length_append, List.length_singleton]
      omega
    · show r.handed.flatten ++ s.waiting ++ (s.alerts ++ [item]) = r.emitted ++ [item]
      rw [← List.append_assoc, hc.order]

/-- What is taken goes into the buffer, and a full buffer is handed on. -/
theorem accounted_take (h : Accounted config s r) (ht : s.take config = some t) :
    Accounted config t (Ledger.note s .take t r) := by
  have hb := h.batching
  obtain ⟨item, rest, halerts, ⟨hbatcher, rfl⟩ | ⟨hdraining, -⟩⟩ := take_eq_some ht
  · have hwaiting : s.waiting = s.buffer := by simp only [waiting, hbatcher]
    have hmoved : (s.buffer ++ [item]) ++ rest = s.waiting ++ s.alerts := by
      rw [hwaiting, halerts, List.append_assoc, List.singleton_append]
    by_cases hflush : config.batch_max_size ≤ (s.buffer ++ [item]).length ∨
        config.batch_flush_interval ≤ s.now - s.last_flush
    · simp only [if_pos hflush]
      refine h.handOn hmoved rfl (by simp) ?_ rfl rfl
      rw [List.length_append, List.length_singleton]
      exact hb.room hbatcher
    · simp only [if_neg hflush]
      obtain ⟨hc, -⟩ := h
      have hlength := congrArg List.length hmoved
      simp only [List.length_append] at hlength
      refine ⟨⟨?_, hc.processing, ?_, hc.size, hc.persisted, hc.confirmed⟩, ⟨.inl ⟨rfl, ?_⟩⟩⟩
      · show s.metrics.alerts_generated = s.metrics.alerts_suppressed + UInt64.ofNat
          (rest.length + (s.buffer ++ [item]).length + r.handed.flatten.length + s.inHand.length)
        rw [hc.generated]
        congr 2
        simp only [List.length_append]
        omega
      · show r.handed.flatten ++ (s.buffer ++ [item]) ++ rest = r.emitted
        rw [List.append_assoc, hmoved, ← List.append_assoc]
        exact hc.order
      · -- a buffer that is not flushed has room
        exact (Nat.lt_of_not_le fun hle => hflush (.inl hle)).trans_le (le_max_right _ _)
  · rcases hb.running with ⟨hbatcher, -⟩ | ⟨hbatcher, -⟩ <;> rw [hdraining] at hbatcher <;>
      cases hbatcher

/-- The timer hands the buffer on, or nothing happens. -/
theorem accounted_expire (h : Accounted config s r) (ht : s.expire config = some t) :
    Accounted config t (Ledger.note s .expire t r) := by
  obtain ⟨hbatcher, ⟨hbuffer, rfl⟩ | rfl⟩ := expire_eq_some ht
  · have hwaiting : s.waiting = s.buffer := by simp only [waiting, hbatcher]
    exact h.handOn (congrArg (· ++ s.alerts) hwaiting.symm) rfl hbuffer
      (h.batching.room hbatcher).le rfl rfl
  · have hnote : Ledger.note t .expire t r = r := by simp only [Ledger.note, Ledger.hand, hbatcher]
    rw [hnote]
    exact h

/-- What `send_batch` returns decides whether the batch counts; the buffer
is empty either way. -/
theorem accounted_answer {storage : Storage} (h : Accounted config s r)
    (ht : s.answer storage = some t) :
    Accounted config t (Ledger.note s (.answer storage) t r) := by
  obtain ⟨hc, hb⟩ := h
  rcases answer_eq_some ht with ⟨hlast, -⟩ | ⟨hbatcher, rfl⟩
  · rcases hb.running with ⟨hbatcher, -⟩ | ⟨hbatcher, -⟩ <;>
      rw [hlast] at hbatcher <;> cases hbatcher
  · have hwaiting : s.waiting = [] := by simp only [waiting, hbatcher]
    have hgenerated := hc.generated
    have horder := hc.order
    rw [hwaiting] at hgenerated horder
    obtain ⟨earlier, hhanded, hconfirmed⟩ : ∃ earlier, r.handed = earlier ++ [s.buffer] ∧
        r.confirmed.Sublist earlier := by
      rcases hb.running with ⟨hselecting, -⟩ | ⟨-, hearlier⟩
      · rw [hbatcher] at hselecting
        cases hselecting
      · exact hearlier
    have hroom : 0 < max 1 config.batch_max_size :=
      Nat.lt_of_lt_of_le Nat.one_pos (le_max_left _ _)
    simp only [Ledger.note, confirm]
    cases send_batch (s.buffer.map Checked.alert) storage with
    | error e =>
      exact ⟨⟨hgenerated, hc.processing, horder, hc.size, hc.persisted, hc.confirmed⟩,
        ⟨.inl ⟨rfl, hroom⟩⟩⟩
    | ok =>
      refine ⟨⟨hgenerated, hc.processing, horder, hc.size, ?_, ?_⟩, ⟨.inl ⟨rfl, hroom⟩⟩⟩
      · show s.metrics.alerts_persisted + UInt64.ofNat s.buffer.length =
          UInt64.ofNat ((r.confirmed ++ [s.buffer]).map List.length).sum
        rw [hc.persisted, ← UInt64.ofNat_add, List.map_append, List.sum_append, List.map_singleton,
          List.sum_singleton]
      · show (r.confirmed ++ [s.buffer]).Sublist r.handed
        rw [hhanded]
        exact hconfirmed.append (List.Sublist.refl _)

/-- **A step before the shutdown keeps the account.** -/
theorem accounted_step (h : Accounted config s r) (hcancelled : t.cancelled = false)
    (ht : (machine codec yara hash config).step s a = some t) :
    Accounted config t (Ledger.note s a t r) := by
  cases a with
  | tick _ | offer _ | consumerExit =>
    obtain ⟨_, _, _, _, -, -, rfl⟩ := outside_eq_some ht rfl
    exact h.of_eq rfl rfl rfl rfl ⟨rfl, rfl, rfl⟩
  | cancel =>
    obtain rfl := Option.some.inj ht
    cases hcancelled
  | receive current draw => exact accounted_receive h ht
  | scannerShutdown =>
    obtain ⟨-, ht⟩ := Option.ite_none_right_eq_some.1 ht
    obtain rfl := Option.some.inj ht
    exact h.of_eq rfl rfl rfl rfl ⟨rfl, rfl, rfl⟩
  | scannerExit =>
    obtain ⟨hscanner, -, -, rfl⟩ := scannerExit_eq_some ht
    exact h.of_eq rfl rfl rfl (by simp only [inHand, hscanner]) ⟨rfl, rfl, rfl⟩
  | check => exact accounted_check h ht
  | finish =>
    obtain ⟨hscanner, ht⟩ := Option.ite_none_right_eq_some.1 ht
    obtain rfl := Option.some.inj ht
    exact h.of_eq rfl rfl rfl (by simp only [inHand, hscanner]) ⟨rfl, rfl, rfl⟩
  | send => exact accounted_send h ht
  | take => exact accounted_take h ht
  | expire => exact accounted_expire h ht
  | batcherShutdown =>
    obtain ⟨⟨-, hs⟩, ht⟩ := Option.ite_none_right_eq_some.1 ht
    obtain rfl := Option.some.inj ht
    rw [show s.cancelled = false from hcancelled] at hs
    cases hs
  | drained =>
    obtain ⟨hdraining, -⟩ := drained_eq_some ht
    rcases h.batching.running with ⟨hbatcher, -⟩ | ⟨hbatcher, -⟩ <;> rw [hdraining] at hbatcher <;>
      cases hbatcher
  | answer storage => exact accounted_answer h ht

/-- A shutdown is not taken back. -/
theorem cancelled_mono (ht : (machine codec yara hash config).step s a = some t)
    (h : t.cancelled = false) : s.cancelled = false := by
  cases a with
  | tick _ | cancel | offer _ | consumerExit =>
    obtain ⟨_, _, _, _, -, hback, rfl⟩ := outside_eq_some ht rfl
    exact hback h
  | receive _ _ | scannerShutdown | scannerExit | check | finish =>
    obtain ⟨_, _, _, _, _, _, rfl, -⟩ := scans_eq_some ht rfl
    exact h
  | send => obtain ⟨_, _, -, ⟨-, rfl⟩ | ⟨-, -, rfl⟩⟩ := send_eq_some ht <;> exact h
  | take | expire | batcherShutdown | drained | answer _ =>
    obtain ⟨_, _, _, _, _, _, rfl, -⟩ := batches_eq_some ht rfl
    exact h

/-- **Every run is accounted for** until the shutdown. -/
theorem accounted_before_cancel (dedup : ShardedDeduplicator) (l : List PipelineAction) :
    (ledgered codec yara hash config).Always
      (fun s => s.1.cancelled = false → Accounted config s.1 s.2) (init dedup, .empty) l := by
  refine Machine.always_of_everyStep (G := fun _ _ => True) (fun s a t hs _ ht hcancelled => ?_)
    (fun _ => accounted_init dedup) Machine.everyStep_true
  obtain ⟨u, hu, rfl⟩ := Machine.recorded_step_eq_some.1 ht
  exact accounted_step (hs (cancelled_mono hu hcancelled)) hcancelled hu

/-- So a run of the pipeline, which keeps no ledger, has one that accounts
for it. -/
theorem exists_accounted {dedup : ShardedDeduplicator} {l : List PipelineAction}
    (hrun : (machine codec yara hash config).run (init dedup) l = some t)
    (hcancelled : t.cancelled = false) : ∃ r, Accounted config t r := by
  obtain ⟨r, hr⟩ := Machine.exists_recorded_run hrun Ledger.empty
  exact ⟨r, (accounted_before_cancel dedup l).last hr hcancelled⟩

/-- **The pipeline conserves its alerts** until it is shut down. -/
theorem conserved_before_cancel (codec : JsonCodec) (yara : YaraX) (hash : Uuid → ℕ)
    (config : PipelineConfig) (dedup : ShardedDeduplicator) (l : List PipelineAction) :
    (ledgered codec yara hash config).Always
      (fun s => s.1.cancelled = false → Conserved config s.1 s.2) (init dedup, .empty) l :=
  (accounted_before_cancel dedup l).imp fun _ hs hcancelled => (hs hcancelled).conserved

end Pipeline

end AigisZero.RuleEngine
