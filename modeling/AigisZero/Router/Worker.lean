import AigisZero.Library.JsonText
import AigisZero.Library.Machine
import AigisZero.Router.Route
import Mathlib.Logic.Function.Basic
import Mathlib.Tactic.Common

/-!
# The consumer worker

The worker of the router takes the messages of the raw topic one at a
time: it has the processor send a record and, whatever comes of that,
commits the offset of the message. A commit covers every earlier offset
of its partition. The worker can crash anywhere; it then starts again from
what is committed.
-/

namespace AigisZero.Router

/-- A message as the broker keeps it. -/
structure LogEntry where
  key : Option Bytes
  payload : Bytes
deriving DecidableEq, Repr

/-- The raw topic: the messages of each partition, by offset. -/
abbrev RawLog := ℕ → List LogEntry

/-- A message of the raw topic as it is handed to the processor. -/
def messageAt (partition offset : ℕ) (entry : LogEntry) : RawMessage where
  key := entry.key
  payload := entry.payload
  topic := "aigis.events.raw"
  partition := partition
  offset := offset

/-- The record a message is forwarded as. -/
def recordOf (codec : JsonCodec) (partition offset : ℕ) (entry : LogEntry) : Record :=
  (routed codec (messageAt partition offset entry) .new).1

/-- Where the worker stands in its loop. -/
inductive Phase where
  /-- Waiting for a message or the shutdown. -/
  | idle
  /-- The processor has returned for a message; its commit is next. -/
  | processed (partition offset : ℕ) (sent result : Except String Unit)

/-- The state of a worker, with what the broker keeps for it. -/
structure WorkerState where
  running : Bool
  phase : Phase
  /-- The next offset to read, by partition. -/
  position : ℕ → ℕ
  /-- The next offset to read after a restart. -/
  committed : ℕ → ℕ
  /-- The commits the broker has not answered yet. -/
  inFlight : List (ℕ × ℕ)
  metrics : PipelineMetrics
  /-- The commits the worker asked for, of all its sessions. -/
  requested : List (ℕ × ℕ)
  /-- The records the broker acknowledged, with the messages they carry. -/
  acknowledged : List ((ℕ × ℕ) × Record)

/-- A worker that has never read. -/
def WorkerState.init : WorkerState :=
  ⟨true, .idle, fun _ => 0, fun _ => 0, [], .new, [], []⟩

/-- What can happen. -/
inductive WorkerAction where
  /-- The next message of a partition is processed; the broker answers the
  send. -/
  | receive (partition : ℕ) (sent : Except String Unit)
  /-- The worker commits the message it has processed. -/
  | commit
  /-- The broker answers the oldest commit. -/
  | answerCommit (accepted : Bool)
  /-- The loop ends, on a shutdown or the end of the stream. -/
  | shutdown
  | crash
  | restart

variable (codec : JsonCodec) (log : RawLog)

/-- What a send adds to the acknowledged records. -/
def ackedBy {α : Type} (sent : Except String Unit) (record : α) : List α :=
  match sent with
  | .ok () => [record]
  | .error _ => []

/-- One turn of the loop of `ConsumerWorker::run`, up to the commit. -/
def WorkerState.receive (s : WorkerState) (partition : ℕ) (sent : Except String Unit) :
    Option WorkerState :=
  let offset := s.position partition
  match s.running, s.phase, (log partition)[offset]? with
  | true, .idle, some entry =>
    let msg := messageAt partition offset entry
    let (result, metrics) := process codec msg s.metrics sent
    some { s with
      phase := .processed partition offset sent result
      position := Function.update s.position partition (offset + 1)
      metrics := metrics
      acknowledged := s.acknowledged ++
        ackedBy sent ((partition, offset), recordOf codec partition offset entry) }
  | _, _, _ => none

/-- `commit_message`, called whatever the processor returned. -/
def WorkerState.commit (s : WorkerState) : Option WorkerState :=
  match s.phase with
  | .processed partition offset _ _ =>
    some { s with
      phase := .idle
      inFlight := s.inFlight ++ [(partition, offset)]
      requested := s.requested ++ [(partition, offset)] }
  | .idle => none

/-- The broker's answer to the oldest commit. -/
def WorkerState.answerCommit (s : WorkerState) (accepted : Bool) : Option WorkerState :=
  match s.inFlight with
  | (partition, offset) :: rest =>
    some { s with
      inFlight := rest
      committed :=
        if accepted then Function.update s.committed partition (offset + 1) else s.committed }
  | [] => none

/-- **The worker as a machine.** -/
def worker : Machine WorkerState WorkerAction where
  step s
    | .receive partition sent => s.receive codec log partition sent
    | .commit => s.commit
    | .answerCommit accepted => s.answerCommit accepted
    | .shutdown =>
      match s.running, s.phase with
      | true, .idle => some { s with running := false }
      | _, _ => none
    | .crash => some { s with running := false, phase := .idle, inFlight := [] }
    | .restart =>
      if s.running then none
      else some { s with running := true, phase := .idle, position := s.committed }

/-- The broker has acknowledged the record of a message, on one of the
router's topics. -/
def Acknowledged (s : WorkerState) (partition offset : ℕ) : Prop :=
  ∀ entry, (log partition)[offset]? = some entry →
    ((partition, offset), recordOf codec partition offset entry) ∈ s.acknowledged ∧
      (recordOf codec partition offset entry).topic ∈ dlq :: typedTopics

/-- **At least once**: the messages of every commit the worker asked for,
those of earlier offsets included, were acknowledged. -/
def AtLeastOnce (s : WorkerState) : Prop :=
  ∀ partition offset, (partition, offset) ∈ s.requested →
    ∀ offset' ≤ offset, Acknowledged codec log s partition offset'

/-- The commit of a message whose send the broker acknowledged, now or in
an earlier session. Other actions are free. -/
def SendAcknowledged (s : WorkerState) : WorkerAction → Prop
  | .commit => ∀ partition offset sent result, s.phase = .processed partition offset sent result →
    sent = .ok () ∨ ∃ record, ((partition, offset), record) ∈ s.acknowledged
  | _ => True

variable {codec log} {s t : WorkerState} {a : WorkerAction} {partition offset : ℕ}

/-! ## What is read was asked to be committed -/

/-- The worker asked for a commit that covers the offset. -/
def Requested (s : WorkerState) (partition offset : ℕ) : Prop :=
  ∃ offset', offset ≤ offset' ∧ (partition, offset') ∈ s.requested

/-- **The bookkeeping of the worker.** -/
structure WorkerInv (codec : JsonCodec) (log : RawLog) (s : WorkerState) : Prop where
  /-- All that was read is covered, save the message being processed. -/
  position : s.running = true → ∀ partition offset, offset < s.position partition →
    Requested s partition offset ∨ ∃ sent result, s.phase = .processed partition offset sent result
  committed : ∀ partition offset, offset < s.committed partition → Requested s partition offset
  inFlight : ∀ c ∈ s.inFlight, c ∈ s.requested
  /-- The message being processed is the last that was read, and a send
  without error has been acknowledged. -/
  processed : ∀ partition offset sent result, s.phase = .processed partition offset sent result →
    s.running = true ∧ offset + 1 = s.position partition ∧
    (∃ entry, (log partition)[offset]? = some entry) ∧
    (sent = .ok () → Acknowledged codec log s partition offset)
  /-- Acknowledged records are the ones their messages are forwarded as. -/
  acknowledged : ∀ partition offset record, ((partition, offset), record) ∈ s.acknowledged →
    Acknowledged codec log s partition offset

theorem recordOf_topic (entry : LogEntry) :
    (recordOf codec partition offset entry).topic ∈ dlq :: typedTopics :=
  routed_topic ..

/-- What is acknowledged stays so. -/
theorem Acknowledged.mono (h : Acknowledged codec log s partition offset)
    (hsub : ∀ x ∈ s.acknowledged, x ∈ t.acknowledged) : Acknowledged codec log t partition offset :=
  fun entry hentry => ⟨hsub _ (h entry hentry).1, (h entry hentry).2⟩

/-! ## Each action keeps it -/

theorem mem_ackedBy {α : Type} {sent : Except String Unit} {record x : α} :
    x ∈ ackedBy sent record ↔ sent = .ok () ∧ x = record := by
  cases sent <;> simp [ackedBy]

theorem receive_eq_some {sent : Except String Unit}
    (h : s.receive codec log partition sent = some t) :
    s.running = true ∧ s.phase = .idle ∧ ∃ entry result metrics,
      (log partition)[s.position partition]? = some entry ∧
      t = { s with
        phase := .processed partition (s.position partition) sent result
        position := Function.update s.position partition (s.position partition + 1)
        metrics := metrics
        acknowledged := s.acknowledged ++ ackedBy sent ((partition, s.position partition),
          recordOf codec partition (s.position partition) entry) } := by
  unfold WorkerState.receive at h
  dsimp only at h
  split at h
  · next entry hrunning hphase hentry =>
    exact ⟨hrunning, hphase, entry, _, _, hentry, (Option.some.inj h).symm⟩
  · cases h

theorem commit_eq_some (h : s.commit = some t) : ∃ partition offset sent result,
    s.phase = .processed partition offset sent result ∧
      t = { s with
        phase := .idle
        inFlight := s.inFlight ++ [(partition, offset)]
        requested := s.requested ++ [(partition, offset)] } := by
  unfold WorkerState.commit at h
  split at h
  · next partition offset sent result hphase =>
    exact ⟨partition, offset, sent, result, hphase, (Option.some.inj h).symm⟩
  · cases h

/-- Processing a message. -/
theorem WorkerInv.receive {sent : Except String Unit} (hi : WorkerInv codec log s)
    (h : s.receive codec log partition sent = some t) : WorkerInv codec log t := by
  obtain ⟨hrunning, hphase, entry, result, metrics, hentry, rfl⟩ := receive_eq_some h
  -- what was read before is covered: nothing is in the middle of processing
  have hread : ∀ p n, n < s.position p → Requested s p n := by
    intro p n hn
    rcases hi.position hrunning p n hn with hreq | ⟨_, _, hproc⟩
    · exact hreq
    · rw [hphase] at hproc
      cases hproc
  have hself : sent = .ok () → ∀ entry', (log partition)[s.position partition]? = some entry' →
      ((partition, s.position partition),
          recordOf codec partition (s.position partition) entry') ∈
        s.acknowledged ++ ackedBy sent ((partition, s.position partition),
          recordOf codec partition (s.position partition) entry) := by
    intro hsent entry' hentry'
    obtain rfl : entry = entry' := Option.some.inj (hentry.symm.trans hentry')
    exact List.mem_append_right _ (mem_ackedBy.2 ⟨hsent, rfl⟩)
  constructor
  · intro _ p n hn
    by_cases hp : p = partition
    · subst hp
      simp only [Function.update_self] at hn
      -- the message just read is the one in processing
      rcases Nat.lt_succ_iff_lt_or_eq.1 hn with hn | rfl
      · exact .inl (hread p n hn)
      · exact .inr ⟨sent, result, rfl⟩
    · simp only [Function.update_of_ne hp] at hn
      exact .inl (hread p n hn)
  · exact hi.committed
  · exact hi.inFlight
  · intro p n sent' result' hproc
    cases hproc
    exact ⟨hrunning, by simp, ⟨entry, hentry⟩,
      fun hsent entry' hentry' => ⟨hself hsent entry' hentry', recordOf_topic entry'⟩⟩
  · intro p n record hrecord
    rcases List.mem_append.1 hrecord with hold | hnew
    · exact (hi.acknowledged p n record hold).mono fun x hx => List.mem_append_left _ hx
    · obtain ⟨hsent, heq⟩ := mem_ackedBy.1 hnew
      cases heq
      exact fun entry' hentry' => ⟨hself hsent entry' hentry', recordOf_topic entry'⟩

/-- Asking for a commit. -/
theorem WorkerInv.commit (hi : WorkerInv codec log s) (h : s.commit = some t) :
    WorkerInv codec log t := by
  obtain ⟨partition, offset, sent, result, hphase, rfl⟩ := commit_eq_some h
  have hmono : ∀ {p n}, Requested s p n → Requested { s with
      phase := .idle
      inFlight := s.inFlight ++ [(partition, offset)]
      requested := s.requested ++ [(partition, offset)] } p n := by
    rintro p n ⟨n', hle, hmem⟩
    exact ⟨n', hle, List.mem_append_left _ hmem⟩
  constructor
  · intro hrunning p n hn
    rcases hi.position hrunning p n hn with hreq | ⟨sent', result', hproc⟩
    · exact .inl (hmono hreq)
    · rw [hphase] at hproc
      cases hproc
      exact .inl ⟨offset, le_refl _, List.mem_append_right _ (List.mem_singleton_self _)⟩
  · exact fun p n hn => hmono (hi.committed p n hn)
  · intro c hc
    rcases List.mem_append.1 hc with hc | hc
    · exact List.mem_append_left _ (hi.inFlight c hc)
    · exact List.mem_append_right _ hc
  · exact fun p n sent' result' hproc => nomatch hproc
  · exact hi.acknowledged

/-- The broker's answer to a commit. -/
theorem WorkerInv.answerCommit {accepted : Bool} (hi : WorkerInv codec log s)
    (h : s.answerCommit accepted = some t) : WorkerInv codec log t := by
  unfold WorkerState.answerCommit at h
  split at h
  · next partition offset rest hflight =>
    cases h
    have hreq : (partition, offset) ∈ s.requested :=
      hi.inFlight _ (hflight ▸ List.mem_cons_self)
    refine ⟨hi.position, ?_, fun c hc => hi.inFlight c (hflight ▸ List.mem_cons_of_mem _ hc),
      hi.processed, hi.acknowledged⟩
    intro p n hn
    cases accepted with
    | false => exact hi.committed p n hn
    | true =>
      by_cases hp : p = partition
      · subst hp
        have hle : n ≤ offset := Nat.lt_succ_iff.1 (by simpa using hn)
        exact ⟨offset, hle, hreq⟩
      · have hold : n < s.committed p := by simpa [Function.update_of_ne hp] using hn
        exact hi.committed p n hold
  · cases h

/-- **Each action keeps the bookkeeping.** -/
theorem worker_step (hi : WorkerInv codec log s) (h : (worker codec log).step s a = some t) :
    WorkerInv codec log t := by
  cases a with
  | receive partition sent => exact hi.receive h
  | commit => exact hi.commit h
  | answerCommit accepted => exact hi.answerCommit h
  | shutdown =>
    simp only [worker] at h
    split at h
    · next hrunning hphase =>
      cases h
      refine ⟨fun hrun => (nomatch hrun), hi.committed, hi.inFlight, ?_, hi.acknowledged⟩
      intro p n sent result hproc
      rw [hphase] at hproc
      cases hproc
    · cases h
  | crash =>
    cases h
    exact ⟨fun hrun => (nomatch hrun), hi.committed, nofun, fun _ _ _ _ hproc => (nomatch hproc),
      hi.acknowledged⟩
  | restart =>
    simp only [worker] at h
    split at h
    · cases h
    · cases h
      exact ⟨fun _ p n hn => .inl (hi.committed p n hn), hi.committed, hi.inFlight,
        fun _ _ _ _ hproc => (nomatch hproc), hi.acknowledged⟩

theorem workerInv_init : WorkerInv codec log .init :=
  ⟨fun _ _ _ hn => absurd hn (Nat.not_lt_zero _), fun _ _ hn => absurd hn (Nat.not_lt_zero _),
    nofun, fun _ _ _ _ hproc => (nomatch hproc), nofun⟩

/-! ## At least once -/

/-- An action that asks for no commit keeps the promise. -/
theorem AtLeastOnce.mono (h : AtLeastOnce codec log s) (hreq : t.requested = s.requested)
    (hsub : ∀ x ∈ s.acknowledged, x ∈ t.acknowledged) : AtLeastOnce codec log t :=
  fun p n hn n' hle => (h p n (hreq ▸ hn) n' hle).mono hsub

/-- **A commit keeps the promise exactly when the message it is asked for
was acknowledged**: the earlier ones of the partition are covered already. -/
theorem atLeastOnce_commit_iff (hi : WorkerInv codec log s) (hs : AtLeastOnce codec log s)
    (h : s.commit = some t) : AtLeastOnce codec log t ↔ SendAcknowledged s .commit := by
  obtain ⟨partition, offset, sent, result, hphase, rfl⟩ := commit_eq_some h
  obtain ⟨hrunning, hposition, ⟨entry, hentry⟩, hsent⟩ := hi.processed _ _ _ _ hphase
  constructor
  · intro ht p n sent' result' hproc
    rw [hphase] at hproc
    cases hproc
    -- the commit asked for covers the message itself, so its record is acknowledged
    have hack := ht partition offset (List.mem_append_right _ (List.mem_singleton_self _)) offset
      (le_refl _) entry hentry
    exact .inr ⟨_, hack.1⟩
  · intro hguard p n hn n' hle
    rcases List.mem_append.1 hn with hn | hn
    · exact (hs p n hn n' hle).mono fun x hx => hx
    · cases List.mem_singleton.1 hn
      rcases Nat.lt_or_eq_of_le hle with hlt | rfl
      · -- an earlier offset was read before, and its commit asked for
        have hread : n' < s.position partition := by omega
        rcases hi.position hrunning partition n' hread with ⟨m, hm, hreq⟩ | ⟨_, _, hproc⟩
        · exact (hs partition m hreq n' hm).mono fun x hx => hx
        · rw [hphase] at hproc
          cases hproc
          exact absurd hlt (lt_irrefl _)
      · rcases hguard partition n' sent result hphase with hok | ⟨record, hrecord⟩
        · exact (hsent hok).mono fun x hx => hx
        · exact (hi.acknowledged partition n' record hrecord).mono fun x hx => hx

/-- Each action keeps the promise exactly when it meets the condition. -/
theorem atLeastOnce_step_iff (hi : WorkerInv codec log s) (hs : AtLeastOnce codec log s)
    (h : (worker codec log).step s a = some t) :
    AtLeastOnce codec log t ↔ SendAcknowledged s a := by
  cases a with
  | commit => exact atLeastOnce_commit_iff hi hs h
  | receive partition sent =>
    obtain ⟨-, -, entry, result, metrics, -, rfl⟩ := receive_eq_some h
    exact iff_of_true (hs.mono rfl fun x hx => List.mem_append_left _ hx) trivial
  | answerCommit accepted =>
    simp only [worker, WorkerState.answerCommit] at h
    split at h <;> cases h
    exact iff_of_true (hs.mono rfl fun x hx => hx) trivial
  | shutdown =>
    simp only [worker] at h
    split at h <;> cases h
    exact iff_of_true (hs.mono rfl fun x hx => hx) trivial
  | crash =>
    cases h
    exact iff_of_true (hs.mono rfl fun x hx => hx) trivial
  | restart =>
    simp only [worker] at h
    split at h <;> cases h
    exact iff_of_true (hs.mono rfl fun x hx => hx) trivial

/-- **The worker commits acknowledged messages only, along a run, exactly
when every commit of the run is of a message whose send the broker
acknowledged.** -/
theorem worker_atLeastOnce_iff {l : List WorkerAction}
    (hrun : (worker codec log).run .init l = some t) :
    (worker codec log).Always (AtLeastOnce codec log) .init l ↔
      (worker codec log).EveryStep SendAcknowledged .init l :=
  Machine.always_iff_everyStep (fun _ _ _ hi h => worker_step hi h)
    (fun _ _ _ hi hs h => atLeastOnce_step_iff hi hs h) workerInv_init nofun hrun

/-- A raw topic of one message, which is no JSON. -/
def oneMessage : RawLog := fun partition => if partition = 0 then [⟨none, utf8 "x"⟩] else []

/-- The broker refuses the record of the message, and the worker commits
the message. -/
def refusedThenCommitted : List WorkerAction := [.receive 0 (.error "timed out"), .commit]

/-- **A message can be committed with no record of it acknowledged.** -/
theorem not_atLeastOnce_refusedThenCommitted :
    ∃ t, (worker JsonText.codec oneMessage).run .init refusedThenCommitted = some t ∧
      ¬ AtLeastOnce JsonText.codec oneMessage t := by
  refine ⟨_, rfl, fun h => ?_⟩
  have hack := h 0 0 List.mem_cons_self 0 (le_refl 0) ⟨none, utf8 "x"⟩ rfl
  exact absurd hack.1 (List.not_mem_nil)

/-- The broker takes the record of the message, and the worker commits
it. -/
theorem worker_atLeastOnce_iff_oneMessage :
    (worker JsonText.codec oneMessage).Always (AtLeastOnce JsonText.codec oneMessage) .init
        [.receive 0 (.ok ()), .commit] ↔
      (worker JsonText.codec oneMessage).EveryStep SendAcknowledged .init
        [.receive 0 (.ok ()), .commit] :=
  worker_atLeastOnce_iff rfl

end AigisZero.Router
