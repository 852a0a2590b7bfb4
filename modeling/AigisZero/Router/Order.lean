import AigisZero.Library.JsonText
import AigisZero.Router.Worker
import Mathlib.Data.List.Nodup

/-!
# In what order the worker forwards, and how often

The worker reads a partition in the order of its offsets, and after a
restart it reads again from what is committed. So the records of one
partition reach the broker in sessions, each in the order of the offsets,
and a record is forwarded at most once in each. Whether a later record can
overtake an earlier one is settled by the sends: where each is acknowledged,
sooner or in an earlier session, none does.
-/

namespace AigisZero.Router

/-- The offsets of a partition whose records the broker acknowledged, in
the order in which it did. -/
def WorkerState.offsets (s : WorkerState) (partition : ℕ) : List ℕ :=
  (s.acknowledged.filter (·.1.1 = partition)).map (·.1.2)

/-- A worker started again. -/
def isRestart : WorkerAction → Bool
  | .restart => true
  | _ => false

/-- The acknowledged records are those of their messages. -/
def Forwards (codec : JsonCodec) (log : RawLog) (s : WorkerState) : Prop :=
  ∀ x ∈ s.acknowledged, ∃ entry, (log x.1.1)[x.1.2]? = some entry ∧
    x.2 = recordOf codec x.1.1 x.1.2 entry

variable {codec : JsonCodec} {log : RawLog} {s t : WorkerState} {a : WorkerAction}
  {partition offset : ℕ}

/-! ## What a step adds -/

/-- The offsets after a send. -/
theorem receive_offsets {p : ℕ} {sent : Except String Unit}
    (ht : s.receive codec log p sent = some t) (partition : ℕ) :
    t.offsets partition = s.offsets partition ++
      if sent = .ok () ∧ p = partition then [s.position p] else [] := by
  obtain ⟨-, -, entry, result, metrics, -, rfl⟩ := receive_eq_some ht
  unfold WorkerState.offsets
  rw [List.filter_append, List.map_append]
  cases sent with
  | error e => simp [ackedBy]
  | ok =>
    by_cases hp : p = partition
    · simp [ackedBy, hp]
    · simp [ackedBy, hp]

/-- A step that sends nothing and reads on from where it was. -/
structure Quiet (s t : WorkerState) : Prop where
  acknowledged : t.acknowledged = s.acknowledged
  position : t.position = s.position
  running : t.running = true → s.running = true

theorem quiet_commit (ht : s.commit = some t) : Quiet s t := by
  obtain ⟨p, n, sent, result, -, rfl⟩ := commit_eq_some ht
  exact ⟨rfl, rfl, id⟩

theorem answerCommit_eq_some {accepted : Bool} (ht : s.answerCommit accepted = some t) :
    ∃ p n rest, s.inFlight = (p, n) :: rest ∧ t = { s with
      inFlight := rest
      committed := if accepted then Function.update s.committed p (n + 1) else s.committed } := by
  unfold WorkerState.answerCommit at ht
  split at ht
  · next p n rest hflight => exact ⟨p, n, rest, hflight, (Option.some.inj ht).symm⟩
  · cases ht

theorem shutdown_eq_some (ht : (worker codec log).step s .shutdown = some t) :
    s.phase = .idle ∧ t = { s with running := false } := by
  simp only [worker] at ht
  split at ht
  · next hidle => exact ⟨hidle, (Option.some.inj ht).symm⟩
  · cases ht

theorem restart_eq_some (ht : (worker codec log).step s .restart = some t) :
    t = { s with running := true, phase := .idle, position := s.committed } := by
  simp only [worker] at ht
  split at ht
  · cases ht
  · exact (Option.some.inj ht).symm

/-- **A step sends a record, starts again, or is quiet.** -/
theorem worker_step_cases (ht : (worker codec log).step s a = some t) :
    (∃ p sent, a = .receive p sent ∧ s.receive codec log p sent = some t) ∨
      (a = .restart ∧ t = { s with running := true, phase := .idle, position := s.committed }) ∨
      (isRestart a = false ∧ Quiet s t) := by
  cases a with
  | receive p sent => exact .inl ⟨p, sent, rfl, ht⟩
  | restart => exact .inr (.inl ⟨rfl, restart_eq_some ht⟩)
  | commit => exact .inr (.inr ⟨rfl, quiet_commit ht⟩)
  | answerCommit accepted =>
    obtain ⟨p, n, rest, -, rfl⟩ := answerCommit_eq_some ht
    exact .inr (.inr ⟨rfl, rfl, rfl, id⟩)
  | shutdown =>
    obtain ⟨-, rfl⟩ := shutdown_eq_some ht
    exact .inr (.inr ⟨rfl, rfl, rfl, nofun⟩)
  | crash =>
    obtain rfl := Option.some.inj ht
    exact .inr (.inr ⟨rfl, rfl, rfl, nofun⟩)

/-! ## In sessions -/

theorem forwards_step (hs : Forwards codec log s) (ht : (worker codec log).step s a = some t) :
    Forwards codec log t := by
  rcases worker_step_cases ht with ⟨p, sent, -, h⟩ | ⟨-, rfl⟩ | ⟨-, hquiet⟩
  · obtain ⟨-, -, entry, result, metrics, hentry, rfl⟩ := receive_eq_some h
    intro x hx
    rcases List.mem_append.1 hx with hx | hx
    · exact hs x hx
    · obtain ⟨-, rfl⟩ := mem_ackedBy.1 hx
      exact ⟨entry, hentry, rfl⟩
  · exact hs
  · rw [Forwards, hquiet.acknowledged]
    exact hs

/-- **In turn**: nothing comes before all that is smaller. -/
def InTurn (l : List ℕ) : Prop :=
  ∀ before n after, l = before ++ n :: after → ∀ m < n, m ∈ before

theorem inTurn_append {l : List ℕ} {n : ℕ} (h : InTurn l) (hn : ∀ m < n, m ∈ l) :
    InTurn (l ++ [n]) := by
  intro before k after heq
  rcases List.eq_nil_or_concat after with rfl | ⟨after, last, rfl⟩
  · obtain ⟨rfl, hk⟩ := List.append_inj' heq rfl
    obtain rfl := List.singleton_inj.1 hk
    exact hn
  · rw [List.concat_eq_append, ← List.cons_append, ← List.append_assoc] at heq
    obtain ⟨hl, -⟩ := List.append_inj' heq rfl
    exact h before k after hl

/-- **A send that leaves no gap**: the broker acknowledges it, or has
acknowledged the record in an earlier session. -/
def LeavesNoGap (s : WorkerState) : WorkerAction → Prop
  | .receive partition sent => sent = .ok () ∨ s.position partition ∈ s.offsets partition
  | _ => True

/-- No gap in a partition: its records were acknowledged in turn, and so
was all that was read, or is committed. -/
structure NoGap (partition : ℕ) (s : WorkerState) : Prop where
  inTurn : InTurn (s.offsets partition)
  read : s.running = true → ∀ n < s.position partition, n ∈ s.offsets partition
  inFlight : ∀ n, (partition, n) ∈ s.inFlight → ∀ m ≤ n, m ∈ s.offsets partition
  committed : ∀ n < s.committed partition, n ∈ s.offsets partition

theorem NoGap.receive {p : ℕ} {sent : Except String Unit} (hs : NoGap partition s)
    (hsent : LeavesNoGap s (.receive p sent)) (ht : s.receive codec log p sent = some t) :
    NoGap partition t := by
  have hoffsets := receive_offsets ht partition
  have hmono : ∀ n ∈ s.offsets partition, n ∈ t.offsets partition :=
    fun n hn => hoffsets ▸ List.mem_append_left _ hn
  obtain ⟨hrunning, -, entry, result, metrics, -, rfl⟩ := receive_eq_some ht
  have hread := hs.read hrunning
  refine ⟨?_, fun _ n hn => ?_, fun n hn m hm => hmono m (hs.inFlight n hn m hm),
    fun n hn => hmono n (hs.committed n hn)⟩
  · rw [hoffsets]
    split
    · next h =>
      obtain ⟨-, rfl⟩ := h
      exact inTurn_append hs.inTurn hread
    · rw [List.append_nil]
      exact hs.inTurn
  · have hn : n < Function.update s.position p (s.position p + 1) partition := hn
    by_cases hp : p = partition
    · subst hp
      rw [Function.update_self] at hn
      rcases Nat.lt_succ_iff_lt_or_eq.1 hn with hn | rfl
      · exact hmono n (hread n hn)
      · -- the record just sent, or acknowledged before
        rcases hsent with hok | hbefore
        · rw [hoffsets, if_pos ⟨hok, rfl⟩]
          exact List.mem_append_right _ (List.mem_singleton_self _)
        · exact hmono _ hbefore
    · rw [Function.update_of_ne (Ne.symm hp)] at hn
      exact hmono n (hread n hn)

theorem NoGap.commit (hs : NoGap partition s) (hi : WorkerInv codec log s)
    (ht : s.commit = some t) : NoGap partition t := by
  obtain ⟨p, offset, sent, result, hphase, rfl⟩ := commit_eq_some ht
  obtain ⟨hrunning, hposition, -⟩ := hi.processed _ _ _ _ hphase
  refine ⟨hs.inTurn, hs.read, fun n hn m hm => ?_, hs.committed⟩
  rcases List.mem_append.1 hn with hn | hn
  · exact hs.inFlight n hn m hm
  · -- what is committed was read
    obtain ⟨rfl, rfl⟩ := Prod.mk.inj (List.mem_singleton.1 hn)
    exact hs.read hrunning m (by omega)

theorem NoGap.answerCommit {accepted : Bool} (hs : NoGap partition s)
    (ht : s.answerCommit accepted = some t) : NoGap partition t := by
  obtain ⟨p, offset, rest, hflight, rfl⟩ := answerCommit_eq_some ht
  refine ⟨hs.inTurn, hs.read,
    fun n hn => hs.inFlight n (hflight ▸ List.mem_cons_of_mem _ hn), fun n hn => ?_⟩
  cases accepted with
  | false => exact hs.committed n hn
  | true =>
    by_cases hp : p = partition
    · subst hp
      have hle : n ≤ offset := Nat.lt_succ_iff.1 (by simpa using hn)
      exact hs.inFlight offset (hflight ▸ List.mem_cons_self) n hle
    · exact hs.committed n (by simpa [Function.update_of_ne (Ne.symm hp)] using hn)

theorem noGap_step (hi : WorkerInv codec log s) (hs : NoGap partition s) (ha : LeavesNoGap s a)
    (ht : (worker codec log).step s a = some t) : NoGap partition t := by
  cases a with
  | receive p sent => exact hs.receive ha ht
  | commit => exact hs.commit hi ht
  | answerCommit accepted => exact hs.answerCommit ht
  | shutdown =>
    obtain ⟨-, rfl⟩ := shutdown_eq_some ht
    exact ⟨hs.inTurn, nofun, hs.inFlight, hs.committed⟩
  | crash =>
    obtain rfl := Option.some.inj ht
    exact ⟨hs.inTurn, nofun, nofun, hs.committed⟩
  | restart =>
    obtain rfl := restart_eq_some ht
    exact ⟨hs.inTurn, fun _ => hs.committed, hs.inFlight, hs.committed⟩

/-- **No record overtakes an earlier one of its partition**, over any
crashes and restarts, as long as no send leaves a gap: whenever the broker
has acknowledged a record, it had acknowledged those of all earlier offsets
before. -/
theorem worker_inTurn {l : List WorkerAction}
    (hnoGap : (worker codec log).EveryStep LeavesNoGap .init l)
    (hrun : (worker codec log).run .init l = some t) (partition : ℕ) :
    InTurn (t.offsets partition) := by
  have hinit : InTurn (WorkerState.init.offsets partition) := by
    intro before n after heq
    exact absurd heq.symm (List.append_ne_nil_of_right_ne_nil _ (List.cons_ne_nil _ _))
  have halways : (worker codec log).Always
      (fun s => WorkerInv codec log s ∧ NoGap partition s) .init l :=
    Machine.always_of_everyStep
      (fun s a t hs ha ht => ⟨worker_step hs.1 ht, noGap_step hs.1 hs.2 ha ht⟩)
      ⟨workerInv_init, hinit, fun _ _ hn => absurd hn (Nat.not_lt_zero _), nofun,
        fun _ hn => absurd hn (Nat.not_lt_zero _)⟩ hnoGap
  exact (halways.last hrun).2.inTurn

/-- A raw topic of two messages. -/
def twoMessages : RawLog := fun partition =>
  if partition = 0 then [⟨none, utf8 "x"⟩, ⟨none, utf8 "y"⟩] else []

/-- A worker that crashes before its first commit is answered. -/
def crashedBeforeAnswer : List WorkerAction :=
  [.receive 0 (.ok ()), .commit, .receive 0 (.ok ()), .crash, .restart, .receive 0 (.ok ())]

/-- It starts over, and nothing is overtaken. -/
theorem worker_inTurn_crashedBeforeAnswer : ∃ t,
    (worker JsonText.codec twoMessages).run .init crashedBeforeAnswer = some t ∧
      t.offsets 0 = [0, 1, 0] ∧ InTurn (t.offsets 0) := by
  have hnoGap : (worker JsonText.codec twoMessages).EveryStep LeavesNoGap .init
      crashedBeforeAnswer :=
    Machine.everyStep_of_forall (by simp [crashedBeforeAnswer, LeavesNoGap])
  exact ⟨_, rfl, rfl, worker_inTurn hnoGap rfl 0⟩

end AigisZero.Router
