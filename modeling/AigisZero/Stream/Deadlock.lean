import AigisZero.Library.JsonText
import AigisZero.Stream.NoLoss

/-!
# Who waits for whom

The drain loop holds the mutex of the client while it waits for room in
the outbound channel. Room comes when acknowledgements are taken, and the
listener takes them under the same mutex. Between the two there are four
channels and two windows. This file says how many events it takes to fill
them.
-/

namespace AigisZero.Stream

open Agent

/-- The steps of the tasks on the agent's connection, and of the tasks that
share its client. The collector's pushes, a crash, a break of the transport
and the connections let go are no part of them. -/
def AgentAction.IsTask : AgentAction → Prop
  | push _ _ => False
  | crash => False
  | current .breakDown => False
  | old _ _ => False
  | _ => True

namespace AgentState

variable (codec : JsonCodec) (config : AgentConfig)

/-- Events of the current batch are not yet in the outbound channel. -/
def Undelivered (s : AgentState) : Prop :=
  ∃ events batch i, s.drain = .sending events batch i ∧ i < batch.length

/-- **A deadlock**: events of the batch are undelivered, and no task can
take a step. -/
def Deadlocked (s : AgentState) : Prop :=
  s.Undelivered ∧ ∀ a, a.IsTask → (machine codec config).step s a = none

/-- How many events of its batch the drain loop has sent. -/
def sentOfBatch (s : AgentState) : ℕ :=
  match s.drain with
  | .sending _ _ i => i
  | _ => 0

/-- The events the connection has taken, those of the current batch aside.
A broken connection has none. -/
def carried (s : AgentState) : ℕ :=
  if s.current.broken then 0 else s.current.accepted - s.sentOfBatch

/-- The events in the buffer, in hand, and with the connection. -/
def load (s : AgentState) : ℕ := s.buffer.payloads.length + s.drain.inHand.length + s.carried

variable {codec config} {s t : AgentState} {a : AgentAction}

/-! ## No more events than were pushed -/

/-- **What bounds the events of a run.** -/
structure Bounded (s : AgentState) : Prop where
  load_le : s.load ≤ s.pushed.length
  inFlight_le : s.current.inFlight ≤ s.current.accepted
  held : s.current.detached = false
  server_done : s.current.server = .done → s.current.broken = true
  forwarder_done : s.current.forwarder = .done → s.current.broken = true
  locking : ∀ events batch, s.drain = .locking events batch → batch.length ≤ events.length
  /-- While a batch is sent the mutex is the drain loop's, and the
  connection has taken what was sent. -/
  sending : ∀ events batch i, s.drain = .sending events batch i →
    s.owner = some .drain ∧ i ≤ batch.length ∧ batch.length ≤ events.length ∧
      (s.current.broken = false → i ≤ s.current.accepted)
  requeueing : ∀ events, s.drain = .requeueing events → s.owner = some .drain
  heartbeat : ∀ n, s.heartbeat = .calling n → s.owner = some .heartbeat
  listener : s.listener = .connecting → s.owner = some .listener

theorem bounded_init (config : AgentConfig) : (init config).Bounded where
  load_le := Nat.le_refl 0
  inFlight_le := Nat.le_refl 0
  held := rfl
  server_done := nofun
  forwarder_done := nofun
  locking := nofun
  sending := nofun
  requeueing := nofun
  heartbeat := nofun
  listener := nofun

theorem length_drop_concat_le (l : List String) (e : String) (k : ℕ) :
    ((l ++ [e]).drop k).length ≤ l.length + 1 := by
  rw [List.length_drop, List.length_append, List.length_singleton]
  omega

theorem Bounded.push (hs : s.Bounded) (event_json : String) (fault : Option PushFault) :
    (s.push event_json fault).Bounded := by
  have hload := hs.load_le
  rcases s.push_eq event_json fault with ⟨-, heq⟩ | ⟨b, k, hb, heq⟩
  · rw [heq]
    exact hs
  · rw [heq]
    refine { hs with load_le := ?_ }
    have hlength := length_drop_concat_le s.buffer.payloads event_json k
    rw [← hb] at hlength
    show b.payloads.length + s.drain.inHand.length + s.carried ≤ (s.pushed ++ [event_json]).length
    rw [load] at hload
    rw [List.length_append, List.length_singleton]
    omega

/-- What a drain takes out of the buffer is in hand, or dropped. -/
theorem Bounded.drainTick (hs : s.Bounded) {fault : Option String}
    (ht : s.drainTick codec config fault = some t) : t.Bounded := by
  have hload := hs.load_le
  obtain ⟨hdrain, ⟨-, rfl⟩ | ⟨-, b, hb, rfl⟩⟩ := drainTick_eq_some ht
  · exact hs
  · have hsplit : s.buffer.payloads.length =
        (s.buffer.payloads.take config.batch_size).length + b.payloads.length := by
      rw [hb, ← List.length_append, List.take_append_drop]
    have hcarried : s.carried = if s.current.broken then 0 else s.current.accepted := by
      rw [carried, sentOfBatch, hdrain]
      rfl
    rw [load, hdrain, hcarried] at hload
    simp only [DrainPc.inHand, List.length_nil] at hload
    split
    · refine { hs with load_le := ?_, locking := nofun, sending := nofun, requeueing := nofun }
      show b.payloads.length + 0 + (if s.current.broken then 0 else s.current.accepted) ≤
        s.pushed.length
      omega
    · refine
        { hs with load_le := ?_, locking := fun events batch h => ?_, sending := nofun
                  requeueing := nofun }
      · show b.payloads.length + (s.buffer.payloads.take config.batch_size).length +
          (if s.current.broken then 0 else s.current.accepted) ≤ s.pushed.length
        omega
      · cases h
        exact List.length_filterMap_le _ _

/-- Where neither of them has the mutex, the heartbeat loop and the
listener are not in the middle of a call. -/
theorem Bounded.not_calling (hs : s.Bounded) (hheartbeat : s.owner ≠ some .heartbeat)
    (hlistener : s.owner ≠ some .listener) :
    (∀ n, s.heartbeat ≠ .calling n) ∧ s.listener ≠ .connecting :=
  ⟨fun n h => hheartbeat (hs.heartbeat n h), fun h => hlistener (hs.listener h)⟩

/-- Where another has the mutex, or none, the drain loop is not at work
with it. -/
theorem Bounded.not_sending (hs : s.Bounded) (howner : s.owner ≠ some .drain) :
    (∀ events batch i, s.drain ≠ .sending events batch i) ∧
      ∀ events, s.drain ≠ .requeueing events := by
  refine ⟨fun events batch i h => howner ?_, fun events h => howner ?_⟩
  · exact (hs.sending events batch i h).1
  · exact hs.requeueing events h

theorem Bounded.drainLock (hs : s.Bounded) (ht : s.drainLock = some t) : t.Bounded := by
  have hload := hs.load_le
  obtain ⟨events, batch, hdrain, howner, rfl⟩ := drainLock_eq_some ht
  have hbatch := hs.locking events batch hdrain
  obtain ⟨hcalling, hconnecting⟩ := hs.not_calling (by simp [howner]) (by simp [howner])
  refine
    { hs with
      load_le := ?_, locking := nofun, sending := fun events' batch' i h => ?_
      requeueing := nofun, heartbeat := fun n h => absurd h (hcalling n)
      listener := fun h => absurd h hconnecting }
  · rw [load, carried, sentOfBatch, hdrain] at hload
    exact hload
  · cases h
    exact ⟨rfl, Nat.zero_le _, hbatch, fun _ => Nat.zero_le _⟩

/-- An event that is sent is with the connection, and still in hand. -/
theorem Bounded.sendEvent (hs : s.Bounded) (ht : s.sendEvent codec = some t) : t.Bounded := by
  have hload := hs.load_le
  obtain ⟨events, batch, i, val, hdrain, hval, hsent⟩ := sendEvent_eq_some ht
  obtain ⟨howner, hi, hbatch, haccepted⟩ := hs.sending events batch i hdrain
  rcases hsent with ⟨hbroken, rfl⟩ | ⟨hbroken, -, rfl⟩
  · refine
      { hs with
        load_le := ?_, locking := nofun, sending := nofun, requeueing := fun _ _ => howner }
    rw [load, carried, hdrain, if_pos hbroken] at hload
    show s.buffer.payloads.length + events.length + (if s.current.broken then 0 else _) ≤
      s.pushed.length
    rw [if_pos hbroken]
    exact hload
  · have hlt : i < batch.length := (List.getElem?_eq_some_iff.1 hval).1
    have hthere : ¬ s.current.broken = true := by simp [hbroken]
    refine
      { hs with
        load_le := ?_, inFlight_le := ?_, locking := nofun
        sending := fun events' batch' i' h => ?_, requeueing := nofun }
    · -- one more with the connection, and one more of the batch sent
      rw [load, carried, sentOfBatch, hdrain, if_neg hthere] at hload
      show s.buffer.payloads.length + events.length +
        (if s.current.broken then 0 else s.current.accepted + 1 - (i + 1)) ≤ s.pushed.length
      rw [if_neg hthere, Nat.add_sub_add_right]
      exact hload
    · have hinFlight := hs.inFlight_le
      simp only [Connection.inFlight, Connection.acks, Connection.ingesting,
        Connection.serverAck, Connection.forwarderAck, List.length_append,
        List.length_singleton] at hinFlight ⊢
      omega
    · cases h
      refine ⟨howner, hlt, hbatch, fun h => ?_⟩
      have := haccepted h
      show i + 1 ≤ s.current.accepted + 1
      omega

/-- A batch that is sent is with the connection, and no longer in hand. -/
theorem Bounded.sendDone (hs : s.Bounded) (ht : s.sendDone = some t) : t.Bounded := by
  have hload := hs.load_le
  obtain ⟨events, batch, i, hdrain, hdone, rfl⟩ := sendDone_eq_some ht
  obtain ⟨howner, hi, hbatch, haccepted⟩ := hs.sending events batch i hdrain
  obtain ⟨hcalling, hconnecting⟩ := hs.not_calling (by simp [howner]) (by simp [howner])
  refine
    { hs with
      load_le := ?_, locking := nofun, sending := nofun, requeueing := nofun
      heartbeat := fun n h => absurd h (hcalling n)
      listener := fun h => absurd h hconnecting }
  rw [load, carried, sentOfBatch, hdrain] at hload
  show s.buffer.payloads.length + 0 + (if s.current.broken then 0 else s.current.accepted) ≤
    s.pushed.length
  simp only [DrainPc.inHand] at hload
  -- the events in hand make up for those of the batch the connection has
  split
  · omega
  · next hbroken =>
    rw [if_neg hbroken] at hload
    omega

/-- What is put back is no longer in hand. -/
theorem Bounded.requeue (hs : s.Bounded) {fault : Option PushFault}
    (ht : s.requeue fault = some t) : t.Bounded := by
  have hload := hs.load_le
  obtain ⟨event, rest, hdrain, hput⟩ := requeue_eq_some ht
  have howner := hs.requeueing _ hdrain
  rw [load, carried, sentOfBatch, hdrain] at hload
  simp only [DrainPc.inHand, List.length_cons] at hload
  rcases hput with rfl | ⟨b, k, hb, rfl⟩
  · refine
      { hs with
        load_le := ?_, locking := nofun, sending := nofun, requeueing := fun _ _ => howner }
    show s.buffer.payloads.length + rest.length +
      (if s.current.broken then 0 else s.current.accepted - 0) ≤ s.pushed.length
    omega
  · have hlength := length_drop_concat_le s.buffer.payloads event k
    rw [← hb] at hlength
    refine
      { hs with
        load_le := ?_, locking := nofun, sending := nofun, requeueing := fun _ _ => howner }
    show b.payloads.length + rest.length +
      (if s.current.broken then 0 else s.current.accepted - 0) ≤ s.pushed.length
    omega

theorem Bounded.requeueDone (hs : s.Bounded) (ht : s.requeueDone = some t) : t.Bounded := by
  have hload := hs.load_le
  obtain ⟨hdrain, rfl⟩ := requeueDone_eq_some ht
  have howner := hs.requeueing _ hdrain
  obtain ⟨hcalling, hconnecting⟩ := hs.not_calling (by simp [howner]) (by simp [howner])
  refine
    { hs with
      load_le := ?_, locking := nofun, sending := nofun, requeueing := nofun
      heartbeat := fun n h => absurd h (hcalling n)
      listener := fun h => absurd h hconnecting }
  rw [load, carried, sentOfBatch, hdrain] at hload
  exact hload

theorem Bounded.heartbeatTick (hs : s.Bounded) (ht : s.heartbeatTick = some t) : t.Bounded := by
  obtain ⟨-, rfl⟩ := heartbeatTick_eq_some ht
  exact { hs with load_le := hs.load_le, heartbeat := nofun }

theorem Bounded.heartbeatLock (hs : s.Bounded) (ht : s.heartbeatLock = some t) : t.Bounded := by
  obtain ⟨n, -, howner, rfl⟩ := heartbeatLock_eq_some ht
  obtain ⟨hsending, hrequeueing⟩ := hs.not_sending (by simp [howner])
  obtain ⟨-, hconnecting⟩ := hs.not_calling (by simp [howner]) (by simp [howner])
  exact
    { hs with
      load_le := hs.load_le, sending := fun e b i h => absurd h (hsending e b i)
      requeueing := fun e h => absurd h (hrequeueing e), heartbeat := fun _ _ => rfl
      listener := fun h => absurd h hconnecting }

theorem Bounded.heartbeatAnswer (hs : s.Bounded) (ht : s.heartbeatAnswer = some t) : t.Bounded := by
  obtain ⟨n, hcalling, rfl⟩ := heartbeatAnswer_eq_some ht
  have howner := hs.heartbeat n hcalling
  obtain ⟨hsending, hrequeueing⟩ := hs.not_sending (by simp [howner])
  refine
    { hs with
      load_le := hs.load_le, sending := fun e b i h => absurd h (hsending e b i)
      requeueing := fun e h => absurd h (hrequeueing e), heartbeat := nofun
      listener := fun h => ?_ }
  rw [hs.listener h] at howner
  cases howner

theorem Bounded.poll (hs : s.Bounded) (ht : s.poll = some t) : t.Bounded := by
  obtain ⟨-, -, ⟨sequence_id, rest, hinbound, rfl⟩ | ⟨pc, hpc, rfl⟩⟩ := poll_eq_some ht
  · refine { hs with load_le := hs.load_le, inFlight_le := ?_, listener := by simp }
    have hinFlight := hs.inFlight_le
    simp only [Connection.inFlight, Connection.acks, Connection.ingesting, Connection.serverAck,
      Connection.forwarderAck, hinbound, List.length_append, List.length_cons] at hinFlight ⊢
    omega
  · refine { hs with load_le := hs.load_le, listener := fun h => ?_ }
    rcases hpc with rfl | rfl <;> cases h

theorem Bounded.handle (hs : s.Bounded) (ht : s.handle = some t) : t.Bounded := by
  obtain ⟨sequence_id, -, rfl⟩ := handle_eq_some ht
  exact { hs with load_le := hs.load_le, listener := by simp }

theorem Bounded.wake (hs : s.Bounded) (ht : s.wake = some t) : t.Bounded := by
  obtain ⟨-, rfl⟩ := wake_eq_some ht
  exact { hs with load_le := hs.load_le, listener := by simp }

theorem Bounded.connectLock (hs : s.Bounded) (ht : s.connectLock = some t) : t.Bounded := by
  obtain ⟨-, howner, rfl⟩ := connectLock_eq_some ht
  obtain ⟨hsending, hrequeueing⟩ := hs.not_sending (by simp [howner])
  obtain ⟨hcalling, -⟩ := hs.not_calling (by simp [howner]) (by simp [howner])
  exact
    { hs with
      load_le := hs.load_le, sending := fun e b i h => absurd h (hsending e b i)
      requeueing := fun e h => absurd h (hrequeueing e)
      heartbeat := fun n h => absurd h (hcalling n), listener := fun _ => rfl }

/-- The listener connects while no batch is sent, and the new connection
has taken nothing yet. -/
theorem Bounded.connected (hs : s.Bounded) {ok : Bool} (ht : s.connected ok = some t) :
    t.Bounded := by
  have hload := hs.load_le
  obtain ⟨hconnecting, hnew⟩ := connected_eq_some ht
  have howner := hs.listener hconnecting
  obtain ⟨hsending, hrequeueing⟩ := hs.not_sending (by simp [howner])
  have hcalling : ∀ n, s.heartbeat ≠ .calling n := by
    intro n h
    rw [hs.heartbeat n h] at howner
    cases howner
  rcases hnew with rfl | rfl
  · refine
      { hs with
        load_le := ?_, inFlight_le := Nat.le_refl 0, held := rfl, server_done := nofun
        forwarder_done := nofun, sending := fun e b i h => absurd h (hsending e b i)
        requeueing := fun e h => absurd h (hrequeueing e)
        heartbeat := fun n h => absurd h (hcalling n), listener := nofun }
    show s.buffer.payloads.length + s.drain.inHand.length + (0 - _) ≤ s.pushed.length
    rw [load] at hload
    omega
  · exact
      { hs with
        load_le := hload, sending := fun e b i h => absurd h (hsending e b i)
        requeueing := fun e h => absurd h (hrequeueing e)
        heartbeat := fun n h => absurd h (hcalling n), listener := nofun }

/-- A crash leaves the buffer and nothing else. -/
theorem Bounded.crash (hs : s.Bounded) : s.crash.Bounded := by
  have hload := hs.load_le
  refine
    { load_le := ?_, inFlight_le := Nat.le_refl 0, held := rfl, server_done := nofun
      forwarder_done := nofun, locking := nofun, sending := nofun, requeueing := nofun
      heartbeat := nofun, listener := nofun }
  show s.buffer.payloads.length + 0 + (0 - 0) ≤ s.pushed.length
  rw [load] at hload
  omega

/-- A step of the connection brings nothing new, and what breaks stays
broken. -/
theorem Bounded.currentStep (hs : s.Bounded) {a : ConnectionAction}
    (ht : s.currentStep config a = some t) : t.Bounded := by
  have hload := hs.load_le
  obtain ⟨c, published, hstep, rfl⟩ := currentStep_eq_some ht
  have hmoves := Connection.moves_of_step hstep
  obtain ⟨hserver, hforwarder⟩ := hmoves.stopped hs.held hs.server_done hs.forwarder_done
  have haccepted := hmoves.accepted
  have hunbroken : c.broken = false → s.current.broken = false := fun h =>
    Bool.eq_false_of_not_eq_true fun hbroken => by
      rw [hmoves.broken hbroken] at h
      cases h
  refine
    { hs with
      load_le := ?_, inFlight_le := ?_, held := hmoves.detached.trans hs.held
      server_done := hserver, forwarder_done := hforwarder
      sending := fun events batch i h => ?_ }
  · show s.buffer.payloads.length + s.drain.inHand.length +
      (if c.broken then 0 else c.accepted - s.sentOfBatch) ≤ s.pushed.length
    rw [load, carried] at hload
    cases hbroken : c.broken with
    | true =>
      rw [if_pos rfl]
      omega
    | false =>
      rw [hunbroken hbroken, if_neg Bool.false_ne_true] at hload
      rw [if_neg Bool.false_ne_true, haccepted]
      exact hload
  · have hinFlight := hmoves.inFlight
    have := hs.inFlight_le
    show c.inFlight ≤ c.accepted
    omega
  · obtain ⟨howner, hi, hbatch, haccepted'⟩ := hs.sending events batch i h
    exact ⟨howner, hi, hbatch, fun h => haccepted.symm ▸ haccepted' (hunbroken h)⟩

theorem Bounded.oldStep (hs : s.Bounded) {i : ℕ} {a : ConnectionAction}
    (ht : s.oldStep config i a = some t) : t.Bounded := by
  obtain ⟨c, c', published, -, -, rfl⟩ := oldStep_eq_some ht
  exact { hs with load_le := hs.load_le }

/-- **Every step keeps the bound.** -/
theorem bounded_step (hs : s.Bounded) (ht : (machine codec config).step s a = some t) :
    t.Bounded := by
  cases a with
  | push event_json fault =>
    obtain rfl := Option.some.inj ht
    exact hs.push event_json fault
  | drainTick fault => exact hs.drainTick ht
  | drainLock => exact hs.drainLock ht
  | sendEvent => exact hs.sendEvent ht
  | sendDone => exact hs.sendDone ht
  | requeue fault => exact hs.requeue ht
  | requeueDone => exact hs.requeueDone ht
  | heartbeatTick => exact hs.heartbeatTick ht
  | heartbeatLock => exact hs.heartbeatLock ht
  | heartbeatAnswer => exact hs.heartbeatAnswer ht
  | poll => exact hs.poll ht
  | handle => exact hs.handle ht
  | wake => exact hs.wake ht
  | connectLock => exact hs.connectLock ht
  | connected ok => exact hs.connected ht
  | crash =>
    obtain rfl := Option.some.inj ht
    exact hs.crash
  | current a => exact hs.currentStep ht
  | old i a => exact hs.oldStep ht

/-! ## What a deadlock takes -/

/-- **A deadlock takes more events than the connection holds.** -/
theorem capacity_lt_of_deadlocked (hs : s.Bounded) (hdead : s.Deadlocked codec config) :
    Connection.capacity config.windows < s.pushed.length := by
  obtain ⟨⟨events, batch, i, hdrain, hlt⟩, hstuck⟩ := hdead
  obtain ⟨-, -, hbatch, haccepted⟩ := hs.sending events batch i hdrain
  -- the drain loop waits, so the connection is there and its outbound channel is full
  have hsend := hstuck .sendEvent trivial
  simp only [machine, sendEvent, hdrain, List.getElem?_eq_getElem hlt] at hsend
  split at hsend
  · cases hsend
  · next hbroken =>
    have hbroken : s.current.broken = false := Bool.eq_false_of_not_eq_true hbroken
    have hfull : OUTBOUND ≤ s.current.outbound.length := by
      by_contra hroom
      rw [if_pos (Nat.lt_of_not_le hroom)] at hsend
      cases hsend
    have hconnection : s.current.Stuck config.windows := by
      intro a ha
      have hnone : s.currentStep config a = none := by
        refine hstuck (.current a) ?_
        cases a with
        | breakDown => exact absurd rfl ha
        | _ => trivial
      exact Option.map_eq_none_iff.1 hnone
    have hcapacity := Connection.full_of_stuck hbroken hs.held hs.server_done hs.forwarder_done
      hfull hconnection
    have hinFlight := hs.inFlight_le
    have hload := hs.load_le
    have hi := haccepted hbroken
    rw [load, carried, sentOfBatch, hdrain, if_neg (by rw [hbroken]; exact Bool.false_ne_true)]
      at hload
    simp only [DrainPc.inHand] at hload
    omega

/-- The drain loop has nothing in hand. -/
def EmptyHanded (s : AgentState) : Prop := s.drain.inHand = []

/-- A drain loop that takes nothing has nothing in hand. -/
theorem emptyHanded_step (hbatch : config.batch_size = 0) (hs : s.EmptyHanded)
    (ht : (machine codec config).step s a = some t) : t.EmptyHanded := by
  rcases step_cases ht with ⟨h, -⟩ | ⟨e, fault, rfl, -⟩ | ⟨fault, h, -⟩ | ⟨fault, h, -⟩
  · refine List.eq_nil_iff_forall_not_mem.2 fun event hevent => ?_
    have hmem := h.inHand event hevent
    rw [EmptyHanded] at hs
    rw [hs] at hmem
    exact absurd hmem List.not_mem_nil
  · rcases s.push_eq e fault with ⟨-, heq⟩ | ⟨b, k, -, heq⟩
    · exact heq.symm ▸ hs
    · exact heq.symm ▸ hs
  · obtain ⟨-, ⟨-, rfl⟩ | ⟨-, b, -, rfl⟩⟩ := drainTick_eq_some h
    · exact hs
    · -- the oldest none of the events make no batch
      rw [hbatch, List.take_zero]
      rfl
  · obtain ⟨event, rest, hdrain, -⟩ := requeue_eq_some h
    rw [EmptyHanded, hdrain] at hs
    exact absurd hs (List.cons_ne_nil event rest)

/-- A batch is no longer than what is in hand. -/
theorem not_emptyHanded (hs : s.Bounded) (hundelivered : s.Undelivered) : ¬ s.EmptyHanded := by
  obtain ⟨events, batch, i, hdrain, hlt⟩ := hundelivered
  obtain ⟨-, -, hbatch, -⟩ := hs.sending events batch i hdrain
  intro hnil
  rw [EmptyHanded, hdrain] at hnil
  have hlength : events.length = 0 := List.length_eq_zero_iff.2 hnil
  omega

/-! ## The way into a deadlock -/

/-- **The agent with `m` events on its connection**: nothing moves there,
the buffer is empty, and the tasks wait for their tickers. -/
structure Saturated (codec : JsonCodec) (config : AgentConfig) (m : ℕ) (s : AgentState) : Prop where
  reaches : (machine codec config).Reaches (init config) s
  drain : s.drain = .idle
  heartbeat : s.heartbeat = .idle
  listener : s.listener = .polling
  free : s.owner = none
  payloads : s.buffer.payloads = []
  live : s.current.Live config.windows
  stuck : s.current.Stuck config.windows
  pushed : s.pushed.length = m
  inFlight : s.current.inFlight = m

/-- **The connection settles.** Its tasks bring what is on the way as far
as it goes. -/
theorem exists_settled (codec : JsonCodec) (s : AgentState)
    (hlive : s.current.Live config.windows) :
    ∃ c published,
      (machine codec config).Reaches s { s with current := c, published := published } ∧
        c.Live config.windows ∧ c.Stuck config.windows ∧ c.inFlight = s.current.inFlight := by
  -- by the distance that what is on the way has still to go
  induction hd : s.current.distance using Nat.strong_induction_on generalizing s with
  | _ d ih =>
    by_cases hstuck : s.current.Stuck config.windows
    · exact ⟨s.current, s.published, .refl, hlive, hstuck, rfl⟩
    · obtain ⟨a, c, published, hmove, hadvances⟩ := hlive.exists_move hstuck
      have hstep : (machine codec config).step s (.current a) =
          some { s with current := c, published := s.published ++ published } := by
        show s.currentStep config a = _
        rw [currentStep, hmove]
        rfl
      have hcloser : c.distance < d := hd ▸ hadvances.distance
      obtain ⟨c', published', hreaches, hlive', hstuck', hinFlight⟩ :=
        ih c.distance hcloser { s with current := c, published := s.published ++ published }
          hadvances.live rfl
      exact ⟨c', published', (Machine.Reaches.step hstep).trans hreaches, hlive', hstuck',
        hinFlight.trans hadvances.inFlight⟩

/-- An event can be pushed and stay: there is room for it, or the count
that would evict it fails. -/
theorem exists_push (s : AgentState) (event_json : String) : ∃ fault, s.push event_json fault =
    { s with buffer := s.buffer.insert event_json, pushed := s.pushed ++ [event_json] } := by
  by_cases hfull : s.buffer.max_events < (s.buffer.insert event_json).len
  · refine ⟨some .count, ?_⟩
    simp [push, EventBuffer.push]
  · refine ⟨none, ?_⟩
    have hroom : ¬ (s.buffer.insert event_json).max_events < (s.buffer.insert event_json).len :=
      hfull
    simp [push, EventBuffer.push, if_neg hroom]

/-- One more event comes as far as the hands of the drain loop, with the
mutex. -/
theorem exists_sending (codec : JsonCodec) (hbatch : 0 < config.batch_size)
    (hdrain : s.drain = .idle)
    (howner : s.owner = none) (hpayloads : s.buffer.payloads = []) :
    ∃ event buffer, buffer.payloads = [] ∧
      (machine codec config).Reaches s { s with
        buffer := buffer, pushed := s.pushed ++ [event]
        drain := .sending [event] [.null] 0, owner := some .drain } := by
  have hparsed : codec.ofText (codec.toText .null) = some .null := codec.ofText_toText .null .null
  generalize codec.toText .null = event at hparsed
  obtain ⟨fault, hpush⟩ := s.exists_push event
  rcases (s.buffer.insert event).drain_cases config.batch_size none with
    ⟨h, -⟩ | ⟨-, buffer, htick, hbuffer⟩
  · exact absurd rfl h
  have htake : (s.buffer.insert event).payloads.take config.batch_size = [event] := by
    rw [EventBuffer.payloads_insert, hpayloads, List.nil_append]
    exact List.take_of_length_le hbatch
  have hleft : buffer.payloads = [] := by
    rw [hbuffer, EventBuffer.payloads_insert, hpayloads, List.nil_append]
    exact List.drop_of_length_le hbatch
  refine ⟨event, buffer, hleft, [.push event fault, .drainTick none, .drainLock], ?_⟩
  rw [htake] at htick
  simp [Machine.run, machine, hpush, drainTick, hdrain, htick, hparsed, drainLock, howner]

/-- **One more event settles on a connection with room for it.** -/
theorem Saturated.succ {m : ℕ} (hs : Saturated codec config m s) (hbatch : 0 < config.batch_size)
    (hroom : m < Connection.capacity config.windows) :
    ∃ t, Saturated codec config (m + 1) t := by
  obtain ⟨event, buffer, hpayloads, hsending⟩ :=
    exists_sending codec hbatch hs.drain hs.free hs.payloads
  -- nothing moves on the connection, so were its outbound channel full it would be full
  have houtbound : s.current.outbound.length < OUTBOUND := by
    by_contra hfull
    have hcapacity := Connection.full_of_stuck hs.live.unbroken hs.live.held
      (fun h => absurd h hs.live.serving) (fun h => absurd h hs.live.forwarding)
      (Nat.le_of_not_lt hfull) hs.stuck
    have := hs.inFlight
    omega
  let c : Connection :=
    { s.current with
      outbound := s.current.outbound ++ [protoEvent codec .null]
      accepted := s.current.accepted + 1 }
  have hlive : c.Live config.windows := by
    refine { hs.live with outbound_le := ?_ }
    show (s.current.outbound ++ [_]).length ≤ OUTBOUND
    rw [List.length_append, List.length_singleton]
    omega
  have hinFlight : c.inFlight = m + 1 := by
    have := hs.inFlight
    simp only [c, Connection.inFlight, Connection.acks, Connection.ingesting, Connection.serverAck,
      Connection.forwarderAck, List.length_append, List.length_singleton] at this ⊢
    omega
  have hsent : (machine codec config).Reaches
      { s with
        buffer := buffer, pushed := s.pushed ++ [event]
        drain := .sending [event] [.null] 0, owner := some .drain }
      { s with
        buffer := buffer, pushed := s.pushed ++ [event]
        drain := .idle, owner := none, current := c } := by
    refine ⟨[.sendEvent, .sendDone], ?_⟩
    simp [Machine.run, machine, sendEvent, hs.live.unbroken, houtbound, sendDone, c]
  obtain ⟨c', published, hsettled, hlive', hstuck, hsame⟩ := exists_settled codec
    { s with
      buffer := buffer, pushed := s.pushed ++ [event]
      drain := .idle, owner := none, current := c } hlive
  exact ⟨_,
    { reaches := ((hs.reaches.trans hsending).trans hsent).trans hsettled
      drain := rfl, heartbeat := hs.heartbeat, listener := hs.listener, free := rfl
      payloads := hpayloads, live := hlive', stuck := hstuck
      pushed := by rw [List.length_append, List.length_singleton, hs.pushed]
      inFlight := hsame.trans hinFlight }⟩

/-- Nothing moves on a connection just opened. -/
theorem saturated_init (codec : JsonCodec) (config : AgentConfig) :
    Saturated codec config 0 (init config) where
  reaches := .refl
  drain := rfl
  heartbeat := rfl
  listener := rfl
  free := rfl
  payloads := rfl
  live := Connection.live_fresh config.windows
  stuck a ha := by
    cases a with
    | breakDown => exact absurd rfl ha
    | serverStop => simp [init, Connection.step, Connection.serverStop, Connection.fresh]
    | forwarderStop => simp [init, Connection.step, Connection.forwarderStop, Connection.fresh]
    | _ => rfl
  pushed := rfl
  inFlight := rfl

theorem exists_saturated (codec : JsonCodec) (hbatch : 0 < config.batch_size) (m : ℕ)
    (hm : m ≤ Connection.capacity config.windows) : ∃ s, Saturated codec config m s := by
  induction m with
  | zero => exact ⟨init config, saturated_init codec config⟩
  | succ m ih =>
    obtain ⟨s, hs⟩ := ih (Nat.le_of_succ_le hm)
    exact hs.succ hbatch hm

/-- **One event more than the connection holds makes a deadlock**: the
drain loop waits for room with the mutex in its hands, the heartbeat loop
and the listener wait for the mutex, and nothing moves in between. -/
theorem exists_deadlocked (codec : JsonCodec) (hbatch : 0 < config.batch_size) :
    ∃ s, (machine codec config).Reaches (init config) s ∧
      s.pushed.length = Connection.capacity config.windows + 1 ∧ s.Deadlocked codec config := by
  obtain ⟨s, hs⟩ := exists_saturated codec hbatch (Connection.capacity config.windows) le_rfl
  obtain ⟨event, buffer, -, hsending⟩ :=
    exists_sending codec hbatch hs.drain hs.free hs.payloads
  have hfull : ¬ s.current.outbound.length < OUTBOUND :=
    Nat.not_lt.2 (hs.live.outbound_full hs.inFlight.ge)
  have hticked : (machine codec config).Reaches
      { s with
        buffer := buffer, pushed := s.pushed ++ [event]
        drain := .sending [event] [.null] 0, owner := some .drain }
      { s with
        buffer := buffer, pushed := s.pushed ++ [event]
        drain := .sending [event] [.null] 0, owner := some .drain
        heartbeat := .locking buffer.len } := by
    refine ⟨[.heartbeatTick], ?_⟩
    simp [Machine.run, machine, heartbeatTick, hs.heartbeat]
  refine ⟨_, (hs.reaches.trans hsending).trans hticked, ?_,
    ⟨[event], [.null], 0, rfl, Nat.zero_lt_one⟩, fun a ha => ?_⟩
  · rw [List.length_append, List.length_singleton, hs.pushed]
  · cases a with
    | sendEvent => simp [machine, sendEvent, hs.live.unbroken, hfull]
    | sendDone => simp [machine, sendDone]
    | poll => simp [machine, poll]
    | handle => simp [machine, handle, hs.listener]
    | wake => simp [machine, wake, hs.listener]
    | connectLock => simp [machine, connectLock]
    | connected ok => simp [machine, connected, hs.listener]
    | current a =>
      have hne : a ≠ .breakDown := by
        rintro rfl
        exact ha
      show Option.map _ (s.current.step config.windows a) = none
      rw [hs.stuck a hne]
      rfl
    | push => exact ha.elim
    | crash => exact ha.elim
    | old => exact ha.elim
    | _ => rfl

/-- **The stream is free of deadlock exactly while no run has pushed more
events than the connection holds**, or where nothing is ever drained. -/
theorem deadlockFree_iff (codec : JsonCodec) (config : AgentConfig) (n : ℕ) :
    (∀ s, (machine codec config).Reaches (init config) s → s.pushed.length ≤ n →
        ¬ s.Deadlocked codec config) ↔
      config.batch_size = 0 ∨ n ≤ Connection.capacity config.windows := by
  constructor
  · intro hfree
    by_contra hmany
    obtain ⟨hbatch, hn⟩ := not_or.1 hmany
    obtain ⟨s, hreaches, hpushed, hdead⟩ := exists_deadlocked codec (Nat.pos_of_ne_zero hbatch)
    exact hfree s hreaches (by omega) hdead
  · intro hbound s hreaches hn hdead
    have hbounded : s.Bounded :=
      hreaches.preserves (fun _ _ _ => bounded_step) (bounded_init config)
    rcases hbound with hbatch | hfew
    · have hempty : s.EmptyHanded :=
        hreaches.preserves (fun _ _ _ => emptyHanded_step hbatch) rfl
      exact not_emptyHanded hbounded hdead.1 hempty
    · have := capacity_lt_of_deadlocked hbounded hdead
      omega

/-- **A deadlock of the agent that drains ten events at a time**, over a
transport that holds eight messages each way, after 283 events. -/
theorem deadlocked_tenAtATime :
    ∃ s, (machine JsonText.codec tenAtATime).Reaches (init tenAtATime) s ∧
      s.pushed.length = 283 ∧ s.Deadlocked JsonText.codec tenAtATime :=
  exists_deadlocked JsonText.codec (by decide)

end AgentState

end AigisZero.Stream
