import AigisZero.Agent.EventBuffer
import AigisZero.Library.Machine
import AigisZero.Stream.Connection

/-!
# The agent around its connection

The drain loop, the heartbeat loop and the command listener share the
client under one mutex. The drain loop takes events out of the buffer and
sends them; the listener takes the acknowledgements, and connects anew
where the connection is gone. The process can crash at any point: the
buffer is then all that is left.
-/

namespace AigisZero.Stream

open Agent

/-- The tasks that take the mutex of the client. -/
inductive Task where
  | drain
  | heartbeat
  | listener
deriving DecidableEq, Repr

/-- Where the drain loop stands. -/
inductive DrainPc where
  /-- Waiting for the ticker. -/
  | idle
  /-- Waiting for the mutex, with the drained texts and their values. -/
  | locking (events : List String) (batch : List Json)
  /-- In `send_events`, at an event of the batch, holding the mutex. -/
  | sending (events : List String) (batch : List Json) (at_event : ℕ)
  /-- Pushing the texts back, still holding the mutex. -/
  | requeueing (events : List String)

/-- Where the heartbeat loop stands. -/
inductive HeartbeatPc where
  | idle
  | locking (events_buffered : ℕ)
  /-- In `heartbeat`, holding the mutex. -/
  | calling (events_buffered : ℕ)
deriving DecidableEq, Repr

/-- Where the command listener stands. -/
inductive ListenerPc where
  /-- Waiting for the mutex, to poll. -/
  | polling
  | handling (sequence_id : String)
  | sleeping
  /-- Waiting for the mutex, to connect. -/
  | reconnecting
  /-- In `connect`, holding the mutex. -/
  | connecting
deriving DecidableEq, Repr

/-- The agent and the connections it has had, with what became of its
events. -/
structure AgentState where
  buffer : EventBuffer
  drain : DrainPc
  heartbeat : HeartbeatPc
  listener : ListenerPc
  /-- Who holds the mutex of the client. -/
  owner : Option Task
  /-- The connection the client holds. -/
  current : Connection
  /-- The connections it has let go. -/
  old : List Connection
  /-- The events pushed by the collector. -/
  pushed : List String
  /-- The events evicted from the buffer. -/
  evicted : List String
  /-- The acknowledgements the agent has received. -/
  acked : List String
  /-- The events the server has published. -/
  published : List Proto.AgentEvent

/-- What can happen. -/
inductive AgentAction where
  | push (event_json : String) (fault : Option PushFault)
  /-- The ticker of the drain loop: a drain of the buffer. -/
  | drainTick (fault : Option String)
  | drainLock
  /-- The next event of the batch goes to the outbound channel. -/
  | sendEvent
  /-- The batch is sent. -/
  | sendDone
  | requeue (fault : Option PushFault)
  | requeueDone
  | heartbeatTick
  | heartbeatLock
  /-- The heartbeat is answered, or fails. -/
  | heartbeatAnswer
  | poll
  | handle
  | wake
  | connectLock
  | connected (ok : Bool)
  /-- The process dies and is started again. -/
  | crash
  | current (a : ConnectionAction)
  | old (i : ℕ) (a : ConnectionAction)

/-- How the agent is configured, and how wide its transport is. -/
structure AgentConfig where
  max_events : ℕ
  batch_size : ℕ
  windows : Windows

namespace AgentState

variable (codec : JsonCodec) (config : AgentConfig)

/-- The agent once it has enrolled and connected. -/
def init : AgentState :=
  ⟨.new config.max_events, .idle, .idle, .polling, none, .fresh, [], [], [], [], []⟩

/-- `EventBuffer::push`, by the collector. -/
def push (s : AgentState) (event_json : String) (fault : Option PushFault) : AgentState :=
  let (_, buffer, evicted) := s.buffer.push event_json fault
  { s with
    buffer := buffer
    pushed := if fault = some .insert then s.pushed else s.pushed ++ [event_json]
    evicted := s.evicted ++ evicted }

/-- A tick of the drain loop: the oldest events leave the buffer, and those
that are JSON make the batch. -/
def drainTick (s : AgentState) (fault : Option String) : Option AgentState :=
  match s.drain with
  | .idle =>
    match s.buffer.drain config.batch_size fault with
    | (.error _, buffer) => some { s with buffer := buffer }
    | (.ok events, buffer) =>
      let parsed_events := events.filterMap codec.ofText
      some { s with
        buffer := buffer
        drain := if parsed_events = [] then .idle else .locking events parsed_events }
  | _ => none

/-- The drain loop gets the mutex. -/
def drainLock (s : AgentState) : Option AgentState :=
  match s.drain, s.owner with
  | .locking events batch, none =>
    some { s with drain := .sending events batch 0, owner := some .drain }
  | _, _ => none

/-- The loop of `send_events`, one event: it waits for room in the
outbound channel, and fails where the channel has no reader. -/
def sendEvent (s : AgentState) : Option AgentState :=
  match s.drain with
  | .sending events batch i =>
    match batch[i]? with
    | some val =>
      -- on a broken connection the receiver of the channel is gone, and the send fails
      if s.current.broken then some { s with drain := .requeueing events }
      else if s.current.outbound.length < OUTBOUND then
        some { s with
          drain := .sending events batch (i + 1)
          current := { s.current with
            outbound := s.current.outbound ++ [protoEvent codec val]
            accepted := s.current.accepted + 1 } }
      else none
    | none => none
  | _ => none

/-- `send_events` returns once the channel has taken the batch, which is
all its success says. -/
def sendDone (s : AgentState) : Option AgentState :=
  match s.drain with
  | .sending _ batch i =>
    if batch.length ≤ i then some { s with drain := .idle, owner := none } else none
  | _ => none

/-- A failed batch goes back, one text at a time. A push that fails is not
looked at. -/
def requeue (s : AgentState) (fault : Option PushFault) : Option AgentState :=
  match s.drain with
  | .requeueing (event :: rest) =>
    let (_, buffer, evicted) := s.buffer.push event fault
    some { s with
      buffer := buffer
      evicted := s.evicted ++ evicted
      drain := .requeueing rest }
  | _ => none

/-- The batch is back, and the mutex is free. -/
def requeueDone (s : AgentState) : Option AgentState :=
  match s.drain with
  | .requeueing [] => some { s with drain := .idle, owner := none }
  | _ => none

/-- A tick of the heartbeat loop. -/
def heartbeatTick (s : AgentState) : Option AgentState :=
  match s.heartbeat with
  | .idle => some { s with heartbeat := .locking s.buffer.len }
  | _ => none

/-- The heartbeat loop gets the mutex, and calls the server. -/
def heartbeatLock (s : AgentState) : Option AgentState :=
  match s.heartbeat, s.owner with
  | .locking n, none => some { s with heartbeat := .calling n, owner := some .heartbeat }
  | _, _ => none

/-- The call returns. -/
def heartbeatAnswer (s : AgentState) : Option AgentState :=
  match s.heartbeat with
  | .calling _ => some { s with heartbeat := .idle, owner := none }
  | _ => none

/-- The listener polls, with the mutex free: it takes a command, finds
none, or finds the channel closed. -/
def poll (s : AgentState) : Option AgentState :=
  match s.listener, s.owner with
  | .polling, none =>
    match s.current.inbound with
    | sequence_id :: rest =>
      some { s with
        listener := .handling sequence_id
        current := { s.current with inbound := rest }
        acked := s.acked ++ [sequence_id] }
    | [] =>
      -- an empty channel is closed once the forwarder has stopped
      if s.current.forwarder = .done then some { s with listener := .reconnecting }
      else some { s with listener := .sleeping }
  | _, _ => none

/-- What `CommandHandler::handle` returns for an acknowledgement. -/
def handled : Json := Json.object [("status", .str "acked")]

/-- The listener handles an acknowledgement: it logs what the handler
returns, and does no more. -/
def handle (s : AgentState) : Option AgentState :=
  match s.listener with
  | .handling _ => some { s with listener := .polling }
  | _ => none

/-- The sleep of the listener ends. -/
def wake (s : AgentState) : Option AgentState :=
  if s.listener = .sleeping then some { s with listener := .polling } else none

/-- The listener gets the mutex, to connect. -/
def connectLock (s : AgentState) : Option AgentState :=
  match s.listener, s.owner with
  | .reconnecting, none => some { s with listener := .connecting, owner := some .listener }
  | _, _ => none

/-- `connect` returns. A new connection takes the place of the old one. -/
def connected (s : AgentState) (ok : Bool) : Option AgentState :=
  if s.listener = .connecting then
    if ok then
      some { s with
        listener := .sleeping, owner := none
        current := .fresh, old := s.current.detach :: s.old }
    else some { s with listener := .sleeping, owner := none }
  else none

/-- A crash: what is not in the buffer, or on its way on the wire, is gone. -/
def crash (s : AgentState) : AgentState :=
  { s with
    drain := .idle, heartbeat := .idle, listener := .polling, owner := none
    current := .fresh, old := s.current.detach.breakDown :: s.old }

/-- A step on the connection the client holds. -/
def currentStep (s : AgentState) (a : ConnectionAction) : Option AgentState :=
  (s.current.step config.windows a).map fun (c, published) =>
    { s with current := c, published := s.published ++ published }

/-- A step on a connection it has let go. -/
def oldStep (s : AgentState) (i : ℕ) (a : ConnectionAction) : Option AgentState :=
  match s.old[i]? with
  | some c =>
    (c.step config.windows a).map fun (c, published) =>
      { s with old := s.old.set i c, published := s.published ++ published }
  | none => none

/-- **The agent as a machine.** -/
def machine : Machine AgentState AgentAction where
  step s
    | .push event_json fault => some (s.push event_json fault)
    | .drainTick fault => s.drainTick codec config fault
    | .drainLock => s.drainLock
    | .sendEvent => s.sendEvent codec
    | .sendDone => s.sendDone
    | .requeue fault => s.requeue fault
    | .requeueDone => s.requeueDone
    | .heartbeatTick => s.heartbeatTick
    | .heartbeatLock => s.heartbeatLock
    | .heartbeatAnswer => s.heartbeatAnswer
    | .poll => s.poll
    | .handle => s.handle
    | .wake => s.wake
    | .connectLock => s.connectLock
    | .connected ok => s.connected ok
    | .crash => some s.crash
    | .current a => s.currentStep config a
    | .old i a => s.oldStep config i a

variable {codec config} {s t : AgentState}

/-! ## What each step does -/

/-- A push that fails at once changes nothing; any other adds the event,
and what it evicts is the oldest. -/
theorem push_eq (s : AgentState) (event_json : String) (fault : Option PushFault) :
    (fault = some .insert ∧ s.push event_json fault = s) ∨
      ∃ b k, b.payloads = (s.buffer.payloads ++ [event_json]).drop k ∧
        s.push event_json fault = { s with
          buffer := b
          pushed := s.pushed ++ [event_json]
          evicted := s.evicted ++ (s.buffer.payloads ++ [event_json]).take k } := by
  rcases s.buffer.push_cases event_json fault with ⟨hfault, e, hpush⟩ | ⟨hfault, r, b, k, hpush, hb⟩
  · refine .inl ⟨hfault, ?_⟩
    simp only [push, hpush, if_pos hfault, List.append_nil]
  · refine .inr ⟨b, k, hb, ?_⟩
    simp only [push, hpush, if_neg hfault]

/-- A tick that fails changes nothing; any other takes the oldest events
out of the buffer, and what is no JSON out of the batch. -/
theorem drainTick_eq_some {fault : Option String} (ht : s.drainTick codec config fault = some t) :
    s.drain = .idle ∧ (fault ≠ none ∧ t = s ∨
      fault = none ∧ ∃ b, b.payloads = s.buffer.payloads.drop config.batch_size ∧ t = { s with
        buffer := b
        drain :=
          if (s.buffer.payloads.take config.batch_size).filterMap codec.ofText = [] then .idle
          else .locking (s.buffer.payloads.take config.batch_size)
            ((s.buffer.payloads.take config.batch_size).filterMap codec.ofText) }) := by
  unfold drainTick at ht
  split at ht
  · next hdrain =>
    refine ⟨hdrain, ?_⟩
    rcases s.buffer.drain_cases config.batch_size fault with ⟨hfault, e, h⟩ | ⟨hfault, b, h, hb⟩
    · rw [h] at ht
      exact .inl ⟨hfault, (Option.some.inj ht).symm⟩
    · rw [h] at ht
      exact .inr ⟨hfault, b, hb, (Option.some.inj ht).symm⟩
  · cases ht

theorem drainLock_eq_some (ht : s.drainLock = some t) :
    ∃ events batch, s.drain = .locking events batch ∧ s.owner = none ∧
      t = { s with drain := .sending events batch 0, owner := some .drain } := by
  unfold drainLock at ht
  split at ht
  · next events batch hdrain howner =>
    exact ⟨events, batch, hdrain, howner, (Option.some.inj ht).symm⟩
  · cases ht

/-- The next event goes into the channel, or the channel has no reader and
the batch goes back. -/
theorem sendEvent_eq_some (ht : s.sendEvent codec = some t) :
    ∃ events batch i val, s.drain = .sending events batch i ∧ batch[i]? = some val ∧
      (s.current.broken = true ∧ t = { s with drain := .requeueing events } ∨
        s.current.broken = false ∧ s.current.outbound.length < OUTBOUND ∧ t = { s with
          drain := .sending events batch (i + 1)
          current := { s.current with
            outbound := s.current.outbound ++ [protoEvent codec val]
            accepted := s.current.accepted + 1 } }) := by
  unfold sendEvent at ht
  split at ht
  · next events batch i hdrain =>
    split at ht
    · next val hval =>
      refine ⟨events, batch, i, val, hdrain, hval, ?_⟩
      split at ht
      · next hbroken => exact .inl ⟨hbroken, (Option.some.inj ht).symm⟩
      · next hbroken =>
        obtain ⟨hroom, ht⟩ := Option.ite_none_right_eq_some.1 ht
        exact .inr ⟨Bool.eq_false_of_not_eq_true hbroken, hroom, (Option.some.inj ht).symm⟩
    · cases ht
  · cases ht

theorem sendDone_eq_some (ht : s.sendDone = some t) :
    ∃ events batch i, s.drain = .sending events batch i ∧ batch.length ≤ i ∧
      t = { s with drain := .idle, owner := none } := by
  unfold sendDone at ht
  split at ht
  · next events batch i hdrain =>
    obtain ⟨hdone, ht⟩ := Option.ite_none_right_eq_some.1 ht
    exact ⟨events, batch, i, hdrain, hdone, (Option.some.inj ht).symm⟩
  · cases ht

theorem requeue_eq_some {fault : Option PushFault} (ht : s.requeue fault = some t) :
    ∃ event rest, s.drain = .requeueing (event :: rest) ∧
      (t = { s with drain := .requeueing rest } ∨
        ∃ b k, b.payloads = (s.buffer.payloads ++ [event]).drop k ∧ t = { s with
          buffer := b
          evicted := s.evicted ++ (s.buffer.payloads ++ [event]).take k
          drain := .requeueing rest }) := by
  unfold requeue at ht
  split at ht
  · next event rest hdrain =>
    refine ⟨event, rest, hdrain, ?_⟩
    rcases s.buffer.push_cases event fault with ⟨-, e, hpush⟩ | ⟨-, r, b, k, hpush, hb⟩
    · rw [hpush] at ht
      obtain rfl := Option.some.inj ht
      exact .inl (by rw [List.append_nil])
    · rw [hpush] at ht
      exact .inr ⟨b, k, hb, (Option.some.inj ht).symm⟩
  · cases ht

theorem requeueDone_eq_some (ht : s.requeueDone = some t) :
    s.drain = .requeueing [] ∧ t = { s with drain := .idle, owner := none } := by
  unfold requeueDone at ht
  split at ht
  · next hdrain => exact ⟨hdrain, (Option.some.inj ht).symm⟩
  · cases ht

theorem heartbeatTick_eq_some (ht : s.heartbeatTick = some t) :
    s.heartbeat = .idle ∧ t = { s with heartbeat := .locking s.buffer.len } := by
  unfold heartbeatTick at ht
  split at ht
  · next hidle => exact ⟨hidle, (Option.some.inj ht).symm⟩
  · cases ht

theorem heartbeatLock_eq_some (ht : s.heartbeatLock = some t) :
    ∃ n, s.heartbeat = .locking n ∧ s.owner = none ∧
      t = { s with heartbeat := .calling n, owner := some .heartbeat } := by
  unfold heartbeatLock at ht
  split at ht
  · next n hlocking howner => exact ⟨n, hlocking, howner, (Option.some.inj ht).symm⟩
  · cases ht

theorem heartbeatAnswer_eq_some (ht : s.heartbeatAnswer = some t) :
    ∃ n, s.heartbeat = .calling n ∧ t = { s with heartbeat := .idle, owner := none } := by
  unfold heartbeatAnswer at ht
  split at ht
  · next n hcalling => exact ⟨n, hcalling, (Option.some.inj ht).symm⟩
  · cases ht

/-- A poll takes the oldest acknowledgement there is, or only moves the
listener on. -/
theorem poll_eq_some (ht : s.poll = some t) :
    s.listener = .polling ∧ s.owner = none ∧
      ((∃ sequence_id rest, s.current.inbound = sequence_id :: rest ∧ t = { s with
          listener := .handling sequence_id
          current := { s.current with inbound := rest }
          acked := s.acked ++ [sequence_id] }) ∨
        ∃ pc, (pc = .reconnecting ∨ pc = .sleeping) ∧ t = { s with listener := pc }) := by
  unfold poll at ht
  split at ht
  · next hpolling howner =>
    refine ⟨hpolling, howner, ?_⟩
    split at ht
    · next sequence_id rest hinbound =>
      exact .inl ⟨sequence_id, rest, hinbound, (Option.some.inj ht).symm⟩
    · split at ht
      · exact .inr ⟨_, .inl rfl, (Option.some.inj ht).symm⟩
      · exact .inr ⟨_, .inr rfl, (Option.some.inj ht).symm⟩
  · cases ht

theorem handle_eq_some (ht : s.handle = some t) :
    ∃ sequence_id, s.listener = .handling sequence_id ∧ t = { s with listener := .polling } := by
  unfold handle at ht
  split at ht
  · next sequence_id hhandling => exact ⟨sequence_id, hhandling, (Option.some.inj ht).symm⟩
  · cases ht

theorem wake_eq_some (ht : s.wake = some t) :
    s.listener = .sleeping ∧ t = { s with listener := .polling } := by
  obtain ⟨hsleeping, ht⟩ := Option.ite_none_right_eq_some.1 ht
  exact ⟨hsleeping, (Option.some.inj ht).symm⟩

theorem connectLock_eq_some (ht : s.connectLock = some t) :
    s.listener = .reconnecting ∧ s.owner = none ∧
      t = { s with listener := .connecting, owner := some .listener } := by
  unfold connectLock at ht
  split at ht
  · next hreconnecting howner => exact ⟨hreconnecting, howner, (Option.some.inj ht).symm⟩
  · cases ht

theorem connected_eq_some {ok : Bool} (ht : s.connected ok = some t) :
    s.listener = .connecting ∧
      (t = { s with
          listener := .sleeping, owner := none
          current := .fresh, old := s.current.detach :: s.old } ∨
        t = { s with listener := .sleeping, owner := none }) := by
  obtain ⟨hconnecting, ht⟩ := Option.ite_none_right_eq_some.1 ht
  refine ⟨hconnecting, ?_⟩
  split at ht
  · exact .inl (Option.some.inj ht).symm
  · exact .inr (Option.some.inj ht).symm

theorem currentStep_eq_some {a : ConnectionAction} (ht : s.currentStep config a = some t) :
    ∃ c published, s.current.step config.windows a = some (c, published) ∧
      t = { s with current := c, published := s.published ++ published } := by
  obtain ⟨⟨c, published⟩, hstep, rfl⟩ := Option.map_eq_some_iff.1 ht
  exact ⟨c, published, hstep, rfl⟩

theorem oldStep_eq_some {i : ℕ} {a : ConnectionAction} (ht : s.oldStep config i a = some t) :
    ∃ c c' published, s.old[i]? = some c ∧ c.step config.windows a = some (c', published) ∧
      t = { s with old := s.old.set i c', published := s.published ++ published } := by
  unfold oldStep at ht
  split at ht
  · next c hc =>
    obtain ⟨⟨c', published⟩, hstep, rfl⟩ := Option.map_eq_some_iff.1 ht
    exact ⟨c, c', published, hc, hstep, rfl⟩
  · cases ht

end AgentState

end AigisZero.Stream
