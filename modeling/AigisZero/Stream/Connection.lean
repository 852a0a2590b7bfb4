import AigisZero.Fleet.Ingest

/-!
# A connection

One event stream between an agent and the Fleet Server: the channels at
both ends, the windows of the transport in both directions, the task of the
server that ingests and acknowledges, and the task of the agent that
forwards the acknowledgements to the client.
-/

namespace AigisZero.Stream

open Fleet

/-- How many messages the transport holds in each direction. -/
structure Windows where
  up : ℕ
  down : ℕ
  up_pos : 0 < up
  down_pos : 0 < down

/-- The capacity of the outbound channel. -/
def OUTBOUND : ℕ := 100

/-- The capacity of the inbound channel. -/
def INBOUND : ℕ := 100

/-- The capacity of the server's command channel. -/
def COMMANDS : ℕ := 64

/-- Where the stream task of the server stands. -/
inductive ServerPc where
  | reading
  | ingesting (event : Proto.AgentEvent)
  /-- Sending an acknowledgement to the command channel. -/
  | sending (sequence_id : String)
  | done
deriving DecidableEq, Repr

/-- Where the forwarder of the agent stands. -/
inductive ForwarderPc where
  | reading
  /-- Sending an acknowledgement to the inbound channel. -/
  | sending (sequence_id : String)
  | done
deriving DecidableEq, Repr

/-- **A connection**: the way of the events up, and the way of the
acknowledgements, by sequence number, down. -/
structure Connection where
  outbound : List Proto.AgentEvent
  upstream : List Proto.AgentEvent
  server : ServerPc
  commands : List String
  downstream : List String
  forwarder : ForwarderPc
  inbound : List String
  /-- The transport is gone. -/
  broken : Bool
  /-- The client has let go of its ends of the channels. -/
  detached : Bool
  /-- How many events the outbound channel has ever taken. -/
  accepted : ℕ
deriving DecidableEq, Repr

/-- What can happen on a connection. -/
inductive ConnectionAction where
  /-- The transport takes an event from the outbound channel. -/
  | pumpUp
  | read
  /-- The broker answers the publication of the event being ingested. -/
  | ingested (sent : Except String Unit)
  | sendCommand
  | serverStop
  /-- The transport takes an acknowledgement from the command channel. -/
  | pumpDown
  | forward
  | deliver
  | forwarderStop
  /-- The transport breaks. -/
  | breakDown

namespace Connection

/-- A connection just opened. -/
def fresh : Connection := ⟨[], [], .reading, [], [], .reading, [], false, false, 0⟩

/-- The transport moves an event up. -/
def pumpUp (w : Windows) (c : Connection) : Option Connection :=
  match c.outbound with
  | event :: rest =>
    if c.broken = false ∧ c.upstream.length < w.up then
      some { c with outbound := rest, upstream := c.upstream ++ [event] }
    else none
  | [] => none

/-- The server takes the next event. -/
def read (c : Connection) : Option Connection :=
  match c.server, c.upstream with
  | .reading, event :: rest => some { c with server := .ingesting event, upstream := rest }
  | _, _ => none

/-- Ingest returns: the acknowledgement is next, or the error is logged
and the event forgotten. With it, what was published. -/
def ingested (c : Connection) (sent : Except String Unit) :
    Option (Connection × List Proto.AgentEvent) :=
  match c.server with
  | .ingesting event =>
    match ingest_event (incoming event) sent with
    | .ok (some (.ack sequence_id)) => some ({ c with server := .sending sequence_id }, [event])
    | .ok none => some ({ c with server := .reading }, [])
    | .error _ => some ({ c with server := .reading }, [])
  | _ => none

/-- The server sends an acknowledgement once there is room. Where nobody
listens any more it stops. -/
def sendCommand (c : Connection) : Option Connection :=
  match c.server with
  | .sending sequence_id =>
    if c.broken then some { c with server := .done }
    else if c.commands.length < COMMANDS then
      some { c with server := .reading, commands := c.commands ++ [sequence_id] }
    else none
  | _ => none

/-- The server stops where the stream of events ends. -/
def serverStop (c : Connection) : Option Connection :=
  if c.server = .reading ∧ (c.broken ∨ c.detached ∧ c.outbound = [] ∧ c.upstream = []) then
    some { c with server := .done }
  else none

/-- The transport moves an acknowledgement down. -/
def pumpDown (w : Windows) (c : Connection) : Option Connection :=
  match c.commands with
  | sequence_id :: rest =>
    if c.broken = false ∧ c.downstream.length < w.down then
      some { c with commands := rest, downstream := c.downstream ++ [sequence_id] }
    else none
  | [] => none

/-- The forwarder takes the next acknowledgement. -/
def forward (c : Connection) : Option Connection :=
  match c.forwarder, c.downstream with
  | .reading, sequence_id :: rest =>
    some { c with forwarder := .sending sequence_id, downstream := rest }
  | _, _ => none

/-- The forwarder hands an acknowledgement on once there is room. -/
def deliver (c : Connection) : Option Connection :=
  match c.forwarder with
  | .sending sequence_id =>
    if c.detached then some { c with forwarder := .done }
    else if c.inbound.length < INBOUND then
      some { c with forwarder := .reading, inbound := c.inbound ++ [sequence_id] }
    else none
  | _ => none

/-- The forwarder stops where the stream of acknowledgements ends. -/
def forwarderStop (c : Connection) : Option Connection :=
  if c.forwarder = .reading ∧
      (c.broken ∨ c.server = .done ∧ c.commands = [] ∧ c.downstream = []) then
    some { c with forwarder := .done }
  else none

/-- The transport breaks: the outbound channel has no reader any more. -/
def breakDown (c : Connection) : Connection := { c with broken := true, outbound := [] }

/-- The client lets go of the connection. -/
def detach (c : Connection) : Connection := { c with detached := true, inbound := [] }

/-- One step of a connection, with what it publishes. -/
def step (w : Windows) (c : Connection) :
    ConnectionAction → Option (Connection × List Proto.AgentEvent)
  | .pumpUp => (c.pumpUp w).map (·, [])
  | .read => c.read.map (·, [])
  | .ingested sent => c.ingested sent
  | .sendCommand => c.sendCommand.map (·, [])
  | .serverStop => c.serverStop.map (·, [])
  | .pumpDown => (c.pumpDown w).map (·, [])
  | .forward => c.forward.map (·, [])
  | .deliver => c.deliver.map (·, [])
  | .forwarderStop => c.forwarderStop.map (·, [])
  | .breakDown => some (c.breakDown, [])

/-! ## What is on the way -/

/-- The event the server ingests. -/
def ingesting (c : Connection) : List Proto.AgentEvent :=
  match c.server with
  | .ingesting event => [event]
  | _ => []

/-- The acknowledgement the server sends. -/
def serverAck (c : Connection) : List String :=
  match c.server with
  | .sending sequence_id => [sequence_id]
  | _ => []

/-- The acknowledgement the forwarder sends. -/
def forwarderAck (c : Connection) : List String :=
  match c.forwarder with
  | .sending sequence_id => [sequence_id]
  | _ => []

/-- The acknowledgements on their way down. -/
def acks (c : Connection) : List String :=
  c.serverAck ++ c.commands ++ c.downstream ++ c.forwarderAck ++ c.inbound

/-- How many events and acknowledgements are on the way. -/
def inFlight (c : Connection) : ℕ :=
  c.outbound.length + c.upstream.length + c.ingesting.length + c.acks.length

variable {w : Windows} {c c' : Connection} {a : ConnectionAction}
  {published : List Proto.AgentEvent}

/-! ## What each step does -/

theorem pumpUp_eq_some (h : c.pumpUp w = some c') :
    ∃ event rest, c.outbound = event :: rest ∧ c.upstream.length < w.up ∧
      c' = { c with outbound := rest, upstream := c.upstream ++ [event] } := by
  unfold pumpUp at h
  split at h
  · next event rest houtbound =>
    obtain ⟨⟨-, hroom⟩, h⟩ := Option.ite_none_right_eq_some.1 h
    exact ⟨event, rest, houtbound, hroom, (Option.some.inj h).symm⟩
  · cases h

theorem read_eq_some (h : c.read = some c') :
    ∃ event rest, c.server = .reading ∧ c.upstream = event :: rest ∧
      c' = { c with server := .ingesting event, upstream := rest } := by
  unfold read at h
  split at h
  · next event rest hserver hupstream =>
    exact ⟨event, rest, hserver, hupstream, (Option.some.inj h).symm⟩
  · cases h

/-- Ingest publishes and the acknowledgement is next, or nothing comes of
the event. -/
theorem ingested_eq_some {sent : Except String Unit} (h : c.ingested sent = some (c', published)) :
    ∃ event, c.server = .ingesting event ∧
      (sent = .ok () ∧ c' = { c with server := .sending event.sequence_id } ∧ published = [event] ∨
        c' = { c with server := .reading } ∧ published = []) := by
  unfold ingested at h
  split at h
  · next event hserver =>
    refine ⟨event, hserver, ?_⟩
    cases sent with
    | ok =>
      cases h
      exact .inl ⟨rfl, rfl, rfl⟩
    | error e =>
      cases h
      exact .inr ⟨rfl, rfl⟩
  · cases h

theorem sendCommand_eq_some (h : c.sendCommand = some c') :
    ∃ sequence_id, c.server = .sending sequence_id ∧
      (c.broken = true ∧ c' = { c with server := .done } ∨
        c.broken = false ∧ c.commands.length < COMMANDS ∧
          c' = { c with server := .reading, commands := c.commands ++ [sequence_id] }) := by
  unfold sendCommand at h
  split at h
  · next sequence_id hserver =>
    refine ⟨sequence_id, hserver, ?_⟩
    split at h
    · next hbroken => exact .inl ⟨hbroken, (Option.some.inj h).symm⟩
    · next hbroken =>
      obtain ⟨hroom, h⟩ := Option.ite_none_right_eq_some.1 h
      exact .inr ⟨Bool.eq_false_of_not_eq_true hbroken, hroom, (Option.some.inj h).symm⟩
  · cases h

theorem serverStop_eq_some (h : c.serverStop = some c') :
    c.server = .reading ∧ (c.broken ∨ c.detached ∧ c.outbound = [] ∧ c.upstream = []) ∧
      c' = { c with server := .done } := by
  obtain ⟨⟨hserver, hends⟩, h⟩ := Option.ite_none_right_eq_some.1 h
  exact ⟨hserver, hends, (Option.some.inj h).symm⟩

theorem pumpDown_eq_some (h : c.pumpDown w = some c') :
    ∃ sequence_id rest, c.commands = sequence_id :: rest ∧ c.broken = false ∧
      c.downstream.length < w.down ∧
        c' = { c with commands := rest, downstream := c.downstream ++ [sequence_id] } := by
  unfold pumpDown at h
  split at h
  · next sequence_id rest hcommands =>
    obtain ⟨⟨hbroken, hroom⟩, h⟩ := Option.ite_none_right_eq_some.1 h
    exact ⟨sequence_id, rest, hcommands, hbroken, hroom, (Option.some.inj h).symm⟩
  · cases h

theorem forward_eq_some (h : c.forward = some c') :
    ∃ sequence_id rest, c.forwarder = .reading ∧ c.downstream = sequence_id :: rest ∧
      c' = { c with forwarder := .sending sequence_id, downstream := rest } := by
  unfold forward at h
  split at h
  · next sequence_id rest hforwarder hdownstream =>
    exact ⟨sequence_id, rest, hforwarder, hdownstream, (Option.some.inj h).symm⟩
  · cases h

theorem deliver_eq_some (h : c.deliver = some c') :
    ∃ sequence_id, c.forwarder = .sending sequence_id ∧
      (c.detached = true ∧ c' = { c with forwarder := .done } ∨
        c.detached = false ∧ c.inbound.length < INBOUND ∧
          c' = { c with forwarder := .reading, inbound := c.inbound ++ [sequence_id] }) := by
  unfold deliver at h
  split at h
  · next sequence_id hforwarder =>
    refine ⟨sequence_id, hforwarder, ?_⟩
    split at h
    · next hdetached => exact .inl ⟨hdetached, (Option.some.inj h).symm⟩
    · next hdetached =>
      obtain ⟨hroom, h⟩ := Option.ite_none_right_eq_some.1 h
      exact .inr ⟨Bool.eq_false_of_not_eq_true hdetached, hroom, (Option.some.inj h).symm⟩
  · cases h

theorem forwarderStop_eq_some (h : c.forwarderStop = some c') :
    c.forwarder = .reading ∧
      (c.broken ∨ c.server = .done ∧ c.commands = [] ∧ c.downstream = []) ∧
        c' = { c with forwarder := .done } := by
  obtain ⟨⟨hforwarder, hends⟩, h⟩ := Option.ite_none_right_eq_some.1 h
  exact ⟨hforwarder, hends, (Option.some.inj h).symm⟩

/-- A step other than ingest and a break publishes nothing. -/
theorem quiet_of_map {o : Option Connection} (h : o.map (·, []) = some (c', published)) :
    o = some c' ∧ published = [] := by
  obtain ⟨d, rfl, heq⟩ := Option.map_eq_some_iff.1 h
  cases heq
  exact ⟨rfl, rfl⟩

/-! ## What no step does -/

/-- **What a step of a connection does**: nothing new is on the way, and
an acknowledgement is of an event it publishes there and then. -/
structure Moves (c c' : Connection) (published : List Proto.AgentEvent) : Prop where
  inFlight : c'.inFlight ≤ c.inFlight
  acks : ∀ q ∈ c'.acks, q ∈ c.acks ∨ q ∈ published.map (·.sequence_id)
  accepted : c'.accepted = c.accepted
  detached : c'.detached = c.detached
  broken : c.broken = true → c'.broken = true
  /-- The ends of a connection still held stop only when it is broken. -/
  stopped : c.detached = false → (c.server = .done → c.broken = true) →
    (c.forwarder = .done → c.broken = true) →
      (c'.server = .done → c'.broken = true) ∧ (c'.forwarder = .done → c'.broken = true)

theorem inFlight_pumpUp (h : c.pumpUp w = some c') : c'.inFlight = c.inFlight := by
  obtain ⟨event, rest, houtbound, -, rfl⟩ := pumpUp_eq_some h
  simp only [inFlight, acks, ingesting, serverAck, forwarderAck, houtbound, List.length_append,
    List.length_cons, List.length_nil]
  omega

theorem moves_pumpUp (h : c.pumpUp w = some c') : Moves c c' [] := by
  have hinFlight := (inFlight_pumpUp h).le
  obtain ⟨event, rest, -, -, rfl⟩ := pumpUp_eq_some h
  exact ⟨hinFlight, fun q hq => .inl hq, rfl, rfl, id, fun _ hs hf => ⟨hs, hf⟩⟩

theorem inFlight_read (h : c.read = some c') : c'.inFlight = c.inFlight := by
  obtain ⟨event, rest, hserver, hupstream, rfl⟩ := read_eq_some h
  simp only [inFlight, acks, ingesting, serverAck, forwarderAck, hserver, hupstream,
    List.length_append, List.length_cons, List.length_nil]
  omega

theorem moves_read (h : c.read = some c') : Moves c c' [] := by
  have hinFlight := (inFlight_read h).le
  obtain ⟨event, rest, hserver, -, rfl⟩ := read_eq_some h
  refine ⟨hinFlight, fun q hq => .inl ?_, rfl, rfl, id, fun _ _ hf => ⟨nofun, hf⟩⟩
  simpa [acks, serverAck, forwarderAck, hserver] using hq

/-- An event is published before its acknowledgement is sent. -/
theorem moves_ingested {sent : Except String Unit} (h : c.ingested sent = some (c', published)) :
    Moves c c' published := by
  obtain ⟨event, hserver, ⟨-, rfl, rfl⟩ | ⟨rfl, rfl⟩⟩ := ingested_eq_some h
  · refine ⟨?_, fun q hq => ?_, rfl, rfl, id, fun _ _ hf => ⟨nofun, hf⟩⟩
    · simp only [inFlight, acks, ingesting, serverAck, forwarderAck, hserver,
        List.length_append, List.length_cons, List.length_nil]
      omega
    · -- the new acknowledgement is of the event just published, the others are old
      simp only [acks, serverAck, forwarderAck, List.mem_append, List.mem_singleton] at hq
      simp only [acks, serverAck, forwarderAck, hserver, List.mem_append, List.not_mem_nil,
        List.map_cons, List.map_nil, List.mem_singleton, false_or]
      rcases hq with (((hq | hq) | hq) | hq) | hq
      · exact .inr hq
      · exact .inl (.inl (.inl (.inl hq)))
      · exact .inl (.inl (.inl (.inr hq)))
      · exact .inl (.inl (.inr hq))
      · exact .inl (.inr hq)
  · refine ⟨?_, fun q hq => .inl ?_, rfl, rfl, id, fun _ _ hf => ⟨nofun, hf⟩⟩
    · simp only [inFlight, acks, ingesting, serverAck, forwarderAck, hserver,
        List.length_append, List.length_cons, List.length_nil]
      omega
    · simpa [acks, serverAck, forwarderAck, hserver] using hq

theorem moves_sendCommand (h : c.sendCommand = some c') : Moves c c' [] := by
  obtain ⟨sequence_id, hserver, ⟨hbroken, rfl⟩ | ⟨-, -, rfl⟩⟩ := sendCommand_eq_some h
  · refine ⟨?_, fun q hq => .inl ?_, rfl, rfl, id, fun _ _ hf => ⟨fun _ => hbroken, hf⟩⟩
    · simp only [inFlight, acks, ingesting, serverAck, forwarderAck, hserver,
        List.length_append, List.length_cons, List.length_nil]
      omega
    · simp only [acks, serverAck, forwarderAck, hserver, List.mem_append] at hq ⊢
      tauto
  · refine ⟨?_, fun q hq => .inl ?_, rfl, rfl, id, fun _ _ hf => ⟨nofun, hf⟩⟩
    · simp only [inFlight, acks, ingesting, serverAck, forwarderAck, hserver,
        List.length_append, List.length_cons, List.length_nil]
      omega
    · simp only [acks, serverAck, forwarderAck, hserver, List.mem_append, List.not_mem_nil] at hq ⊢
      tauto

theorem moves_serverStop (h : c.serverStop = some c') : Moves c c' [] := by
  obtain ⟨hserver, hends, rfl⟩ := serverStop_eq_some h
  refine ⟨?_, fun q hq => .inl ?_, rfl, rfl, id, fun hheld _ hf => ⟨fun _ => ?_, hf⟩⟩
  · simp only [inFlight, acks, ingesting, serverAck, forwarderAck, hserver, List.length_append,
      List.length_nil]
    omega
  · simpa [acks, serverAck, forwarderAck, hserver] using hq
  · rcases hends with hbroken | ⟨hdetached, -⟩
    · exact hbroken
    · rw [hheld] at hdetached
      cases hdetached

theorem inFlight_pumpDown (h : c.pumpDown w = some c') : c'.inFlight = c.inFlight := by
  obtain ⟨sequence_id, rest, hcommands, -, -, rfl⟩ := pumpDown_eq_some h
  simp only [inFlight, acks, ingesting, serverAck, forwarderAck, hcommands, List.length_append,
    List.length_cons, List.length_nil]
  omega

theorem moves_pumpDown (h : c.pumpDown w = some c') : Moves c c' [] := by
  have hinFlight := (inFlight_pumpDown h).le
  obtain ⟨sequence_id, rest, hcommands, -, -, rfl⟩ := pumpDown_eq_some h
  refine ⟨hinFlight, fun q hq => .inl ?_, rfl, rfl, id, fun _ hs hf => ⟨hs, hf⟩⟩
  simp only [acks, serverAck, forwarderAck, hcommands, List.mem_append, List.mem_cons,
    List.not_mem_nil] at hq ⊢
  tauto

theorem inFlight_forward (h : c.forward = some c') : c'.inFlight = c.inFlight := by
  obtain ⟨sequence_id, rest, hforwarder, hdownstream, rfl⟩ := forward_eq_some h
  simp only [inFlight, acks, ingesting, serverAck, forwarderAck, hforwarder, hdownstream,
    List.length_append, List.length_cons, List.length_nil]
  omega

theorem moves_forward (h : c.forward = some c') : Moves c c' [] := by
  have hinFlight := (inFlight_forward h).le
  obtain ⟨sequence_id, rest, hforwarder, hdownstream, rfl⟩ := forward_eq_some h
  refine ⟨hinFlight, fun q hq => .inl ?_, rfl, rfl, id, fun _ hs _ => ⟨hs, nofun⟩⟩
  simp only [acks, serverAck, forwarderAck, hforwarder, hdownstream, List.mem_append,
    List.mem_cons, List.not_mem_nil] at hq ⊢
  tauto

theorem moves_deliver (h : c.deliver = some c') : Moves c c' [] := by
  obtain ⟨sequence_id, hforwarder, ⟨hdetached, rfl⟩ | ⟨-, -, rfl⟩⟩ := deliver_eq_some h
  · refine ⟨?_, fun q hq => .inl ?_, rfl, rfl, id, fun hheld _ _ => ?_⟩
    · simp only [inFlight, acks, ingesting, serverAck, forwarderAck, hforwarder,
        List.length_append, List.length_cons, List.length_nil]
      omega
    · simp only [acks, serverAck, forwarderAck, hforwarder, List.mem_append] at hq ⊢
      tauto
    · rw [hheld] at hdetached
      cases hdetached
  · refine ⟨?_, fun q hq => .inl ?_, rfl, rfl, id, fun _ hs _ => ⟨hs, nofun⟩⟩
    · simp only [inFlight, acks, ingesting, serverAck, forwarderAck, hforwarder,
        List.length_append, List.length_cons, List.length_nil]
      omega
    · simp only [acks, serverAck, forwarderAck, hforwarder, List.mem_append, List.not_mem_nil]
        at hq ⊢
      tauto

theorem moves_forwarderStop (h : c.forwarderStop = some c') : Moves c c' [] := by
  obtain ⟨hforwarder, hends, rfl⟩ := forwarderStop_eq_some h
  refine ⟨?_, fun q hq => .inl ?_, rfl, rfl, id, fun _ hs _ => ⟨hs, fun _ => ?_⟩⟩
  · simp only [inFlight, acks, ingesting, serverAck, forwarderAck, hforwarder, List.length_append,
      List.length_nil]
    omega
  · simpa [acks, serverAck, forwarderAck, hforwarder] using hq
  · rcases hends with hbroken | ⟨hdone, -⟩
    · exact hbroken
    · exact hs hdone

theorem moves_breakDown (c : Connection) : Moves c c.breakDown [] := by
  refine ⟨?_, fun q hq => .inl hq, rfl, rfl, fun _ => rfl,
    fun _ _ _ => ⟨fun _ => rfl, fun _ => rfl⟩⟩
  simp only [inFlight, acks, ingesting, serverAck, forwarderAck, breakDown, List.length_append,
    List.length_nil]
  omega

theorem moves_of_step (h : c.step w a = some (c', published)) : Moves c c' published := by
  cases a with
  | ingested sent => exact moves_ingested h
  | breakDown =>
    cases h
    exact moves_breakDown c
  | pumpUp =>
    obtain ⟨hstep, rfl⟩ := quiet_of_map h
    exact moves_pumpUp hstep
  | read =>
    obtain ⟨hstep, rfl⟩ := quiet_of_map h
    exact moves_read hstep
  | sendCommand =>
    obtain ⟨hstep, rfl⟩ := quiet_of_map h
    exact moves_sendCommand hstep
  | serverStop =>
    obtain ⟨hstep, rfl⟩ := quiet_of_map h
    exact moves_serverStop hstep
  | pumpDown =>
    obtain ⟨hstep, rfl⟩ := quiet_of_map h
    exact moves_pumpDown hstep
  | forward =>
    obtain ⟨hstep, rfl⟩ := quiet_of_map h
    exact moves_forward hstep
  | deliver =>
    obtain ⟨hstep, rfl⟩ := quiet_of_map h
    exact moves_deliver hstep
  | forwarderStop =>
    obtain ⟨hstep, rfl⟩ := quiet_of_map h
    exact moves_forwarderStop hstep

/-! ## A connection that cannot move -/

/-- Nothing moves on a connection but that it may break. -/
def Stuck (w : Windows) (c : Connection) : Prop := ∀ a, a ≠ .breakDown → c.step w a = none

/-- How many events a connection takes before nothing moves on it. -/
def capacity (w : Windows) : ℕ := OUTBOUND + w.up + 1 + COMMANDS + w.down + 1 + INBOUND

namespace Stuck

variable (h : c.Stuck w) (hbroken : c.broken = false)

include h hbroken

/-- What is in the outbound channel waits for the window up. -/
theorem upstream_full (houtbound : 0 < c.outbound.length) : w.up ≤ c.upstream.length := by
  have hpump := h .pumpUp (by simp)
  by_contra hroom
  obtain ⟨event, rest, hevents⟩ := List.exists_cons_of_length_pos houtbound
  simp [step, pumpUp, hevents, hbroken, Nat.lt_of_not_le hroom] at hpump

/-- The server has an event in its hands, and it is past ingest. -/
theorem server_sending (hserver : c.server = .done → c.broken = true)
    (hup : 0 < c.upstream.length) : ∃ sequence_id, c.server = .sending sequence_id := by
  cases hpc : c.server with
  | reading =>
    have hread := h .read (by simp)
    obtain ⟨event, rest, hevents⟩ := List.exists_cons_of_length_pos hup
    simp [step, read, hpc, hevents] at hread
  | ingesting event =>
    have hingested := h (.ingested (.error "")) (by simp)
    simp [step, ingested, hpc, ingest_event] at hingested
  | sending q => exact ⟨q, rfl⟩
  | done =>
    rw [hserver hpc] at hbroken
    cases hbroken

/-- It waits for the command channel. -/
theorem commands_full {sequence_id : String} (hsending : c.server = .sending sequence_id) :
    COMMANDS ≤ c.commands.length := by
  have hsend := h .sendCommand (by simp)
  by_contra hroom
  simp [step, sendCommand, hsending, hbroken, Nat.lt_of_not_le hroom] at hsend

/-- What is in the command channel waits for the window down. -/
theorem downstream_full (hcommands : 0 < c.commands.length) : w.down ≤ c.downstream.length := by
  have hpump := h .pumpDown (by simp)
  by_contra hroom
  obtain ⟨q, rest, hacks⟩ := List.exists_cons_of_length_pos hcommands
  simp [step, pumpDown, hacks, hbroken, Nat.lt_of_not_le hroom] at hpump

/-- The forwarder has a command in its hands. -/
theorem forwarder_sending (hforwarder : c.forwarder = .done → c.broken = true)
    (hdown : 0 < c.downstream.length) : ∃ sequence_id, c.forwarder = .sending sequence_id := by
  cases hpc : c.forwarder with
  | reading =>
    have hforward := h .forward (by simp)
    obtain ⟨q, rest, hacks⟩ := List.exists_cons_of_length_pos hdown
    simp [step, forward, hpc, hacks] at hforward
  | sending q => exact ⟨q, rfl⟩
  | done =>
    rw [hforwarder hpc] at hbroken
    cases hbroken

omit hbroken in
/-- It waits for the inbound channel. -/
theorem inbound_full {sequence_id : String} (hheld : c.detached = false)
    (hforwarding : c.forwarder = .sending sequence_id) : INBOUND ≤ c.inbound.length := by
  have hdeliver := h .deliver (by simp)
  by_contra hroom
  simp [step, deliver, hforwarding, hheld, Nat.lt_of_not_le hroom] at hdeliver

end Stuck

/-- **A connection on which nothing moves is full.** Where the outbound
channel is full and no task of the connection can take a step, every
channel and window of it is. -/
theorem full_of_stuck (hbroken : c.broken = false) (hheld : c.detached = false)
    (hserver : c.server = .done → c.broken = true)
    (hforwarder : c.forwarder = .done → c.broken = true)
    (houtbound : OUTBOUND ≤ c.outbound.length)
    (hstuck : c.Stuck w) : capacity w ≤ c.inFlight := by
  have hup := hstuck.upstream_full hbroken (Nat.lt_of_lt_of_le (by decide) houtbound)
  obtain ⟨sequence_id, hsending⟩ :=
    hstuck.server_sending hbroken hserver (Nat.lt_of_lt_of_le w.up_pos hup)
  -- it waits for room in the command channel, so that is full, and so on down to the client
  have hcommands := hstuck.commands_full hbroken hsending
  have hdown := hstuck.downstream_full hbroken (Nat.lt_of_lt_of_le (by decide) hcommands)
  obtain ⟨sequence_id', hforwarding⟩ :=
    hstuck.forwarder_sending hbroken hforwarder (Nat.lt_of_lt_of_le w.down_pos hdown)
  have hinbound := hstuck.inbound_full hheld hforwarding
  simp only [capacity, inFlight, acks, ingesting, serverAck, forwarderAck, hsending, hforwarding,
    List.length_append, List.length_cons, List.length_nil]
  omega

/-- **A connection in use**: both ends are held, nothing has stopped, and
no channel or window holds more than it can. -/
structure Live (w : Windows) (c : Connection) : Prop where
  unbroken : c.broken = false
  held : c.detached = false
  serving : c.server ≠ .done
  forwarding : c.forwarder ≠ .done
  outbound_le : c.outbound.length ≤ OUTBOUND
  upstream_le : c.upstream.length ≤ w.up
  commands_le : c.commands.length ≤ COMMANDS
  downstream_le : c.downstream.length ≤ w.down
  inbound_le : c.inbound.length ≤ INBOUND

theorem live_fresh (w : Windows) : fresh.Live w :=
  ⟨rfl, rfl, nofun, nofun, Nat.zero_le _, Nat.zero_le _, Nat.zero_le _, Nat.zero_le _,
    Nat.zero_le _⟩

/-- A connection in use has its outbound channel full once it holds all it
can. -/
theorem Live.outbound_full (hc : c.Live w) (hfull : capacity w ≤ c.inFlight) :
    OUTBOUND ≤ c.outbound.length := by
  -- the server has one event or one acknowledgement in its hands, the forwarder one
  have hserver : c.ingesting.length + c.serverAck.length ≤ 1 := by
    unfold ingesting serverAck
    cases c.server <;> simp
  have hforwarder : c.forwarderAck.length ≤ 1 := by
    unfold forwarderAck
    cases c.forwarder <;> simp
  have := hc.upstream_le
  have := hc.commands_le
  have := hc.downstream_le
  have := hc.inbound_le
  simp only [capacity, inFlight, acks, List.length_append] at hfull
  omega

/-- How far all that is on the way has still to go. -/
def distance (c : Connection) : ℕ :=
  7 * c.outbound.length + 6 * c.upstream.length + 5 * c.ingesting.length +
    4 * c.serverAck.length + 3 * c.commands.length + 2 * c.downstream.length +
      c.forwarderAck.length

/-- A step that brings what is on the way closer to the client, and loses
nothing. -/
structure Advances (w : Windows) (c c' : Connection) : Prop where
  live : c'.Live w
  inFlight : c'.inFlight = c.inFlight
  distance : c'.distance < c.distance

theorem advances_pumpUp (hc : c.Live w) (h : c.pumpUp w = some c') : Advances w c c' := by
  have hinFlight := inFlight_pumpUp h
  obtain ⟨event, rest, houtbound, hroom, rfl⟩ := pumpUp_eq_some h
  have hout := hc.outbound_le
  rw [houtbound, List.length_cons] at hout
  refine ⟨{ hc with outbound_le := ?_, upstream_le := ?_ }, hinFlight, ?_⟩
  · show rest.length ≤ OUTBOUND
    omega
  · show (c.upstream ++ [event]).length ≤ w.up
    rw [List.length_append, List.length_singleton]
    omega
  · simp only [distance, ingesting, serverAck, forwarderAck, houtbound, List.length_append,
      List.length_cons, List.length_nil]
    omega

theorem advances_read (hc : c.Live w) (h : c.read = some c') : Advances w c c' := by
  have hinFlight := inFlight_read h
  obtain ⟨event, rest, hserver, hupstream, rfl⟩ := read_eq_some h
  have hup := hc.upstream_le
  rw [hupstream, List.length_cons] at hup
  refine ⟨{ hc with serving := nofun, upstream_le := ?_ }, hinFlight, ?_⟩
  · show rest.length ≤ w.up
    omega
  · simp only [distance, ingesting, serverAck, forwarderAck, hserver, hupstream,
      List.length_cons, List.length_nil]
    omega

/-- With the broker's word that the event is published. -/
theorem advances_ingested (hc : c.Live w) {event : Proto.AgentEvent}
    (hserver : c.server = .ingesting event) :
    ∃ c', c.ingested (.ok ()) = some (c', [event]) ∧ Advances w c c' := by
  refine ⟨{ c with server := .sending event.sequence_id }, ?_, { hc with serving := nofun }, ?_, ?_⟩
  · rw [ingested, hserver]
    rfl
  · simp only [inFlight, acks, ingesting, serverAck, forwarderAck, hserver, List.length_append,
      List.length_cons, List.length_nil]
    omega
  · simp only [distance, ingesting, serverAck, forwarderAck, hserver, List.length_cons,
      List.length_nil]
    omega

theorem advances_sendCommand (hc : c.Live w) (h : c.sendCommand = some c') : Advances w c c' := by
  obtain ⟨sequence_id, hserver, ⟨hbroken, -⟩ | ⟨-, hroom, rfl⟩⟩ := sendCommand_eq_some h
  · rw [hc.unbroken] at hbroken
    cases hbroken
  · refine ⟨{ hc with serving := nofun, commands_le := ?_ }, ?_, ?_⟩
    · show (c.commands ++ [sequence_id]).length ≤ COMMANDS
      rw [List.length_append, List.length_singleton]
      omega
    · simp only [inFlight, acks, ingesting, serverAck, forwarderAck, hserver, List.length_append,
        List.length_cons, List.length_nil]
      omega
    · simp only [distance, ingesting, serverAck, forwarderAck, hserver, List.length_append,
        List.length_cons, List.length_nil]
      omega

theorem advances_pumpDown (hc : c.Live w) (h : c.pumpDown w = some c') : Advances w c c' := by
  have hinFlight := inFlight_pumpDown h
  obtain ⟨sequence_id, rest, hcommands, -, hroom, rfl⟩ := pumpDown_eq_some h
  have hcmd := hc.commands_le
  rw [hcommands, List.length_cons] at hcmd
  refine ⟨{ hc with commands_le := ?_, downstream_le := ?_ }, hinFlight, ?_⟩
  · show rest.length ≤ COMMANDS
    omega
  · show (c.downstream ++ [sequence_id]).length ≤ w.down
    rw [List.length_append, List.length_singleton]
    omega
  · simp only [distance, ingesting, serverAck, forwarderAck, hcommands, List.length_append,
      List.length_cons, List.length_nil]
    omega

theorem advances_forward (hc : c.Live w) (h : c.forward = some c') : Advances w c c' := by
  have hinFlight := inFlight_forward h
  obtain ⟨sequence_id, rest, hforwarder, hdownstream, rfl⟩ := forward_eq_some h
  have hdown := hc.downstream_le
  rw [hdownstream, List.length_cons] at hdown
  refine ⟨{ hc with forwarding := nofun, downstream_le := ?_ }, hinFlight, ?_⟩
  · show rest.length ≤ w.down
    omega
  · simp only [distance, ingesting, serverAck, forwarderAck, hforwarder, hdownstream,
      List.length_cons, List.length_nil]
    omega

theorem advances_deliver (hc : c.Live w) (h : c.deliver = some c') : Advances w c c' := by
  obtain ⟨sequence_id, hforwarder, ⟨hdetached, -⟩ | ⟨-, hroom, rfl⟩⟩ := deliver_eq_some h
  · rw [hc.held] at hdetached
    cases hdetached
  · refine ⟨{ hc with forwarding := nofun, inbound_le := ?_ }, ?_, ?_⟩
    · show (c.inbound ++ [sequence_id]).length ≤ INBOUND
      rw [List.length_append, List.length_singleton]
      omega
    · simp only [inFlight, acks, ingesting, serverAck, forwarderAck, hforwarder, List.length_append,
        List.length_cons, List.length_nil]
      omega
    · simp only [distance, ingesting, serverAck, forwarderAck, hforwarder, List.length_cons,
        List.length_nil]
      omega

/-- **A connection in use moves, or is stuck.** -/
theorem Live.exists_move (hc : c.Live w) (hmoves : ¬c.Stuck w) :
    ∃ a c' published, c.step w a = some (c', published) ∧ Advances w c c' := by
  obtain ⟨a, ha, henabled⟩ : ∃ a, a ≠ .breakDown ∧ c.step w a ≠ none := by
    simpa [Stuck] using hmoves
  obtain ⟨⟨c', published⟩, hstep⟩ := Option.ne_none_iff_exists'.1 henabled
  cases a with
  | breakDown => exact absurd rfl ha
  | pumpUp => exact ⟨_, c', published, hstep, advances_pumpUp hc (quiet_of_map hstep).1⟩
  | read => exact ⟨_, c', published, hstep, advances_read hc (quiet_of_map hstep).1⟩
  | ingested sent =>
    -- whatever the broker answers here, it may as well publish
    cases hserver : c.server with
    | ingesting event =>
      obtain ⟨c'', hok, hadvances⟩ := advances_ingested hc hserver
      exact ⟨.ingested (.ok ()), c'', [event], hok, hadvances⟩
    | _ => simp [step, ingested, hserver] at hstep
  | sendCommand => exact ⟨_, c', published, hstep, advances_sendCommand hc (quiet_of_map hstep).1⟩
  | serverStop =>
    simp [step, serverStop, hc.unbroken, hc.held] at hstep
  | pumpDown => exact ⟨_, c', published, hstep, advances_pumpDown hc (quiet_of_map hstep).1⟩
  | forward => exact ⟨_, c', published, hstep, advances_forward hc (quiet_of_map hstep).1⟩
  | deliver => exact ⟨_, c', published, hstep, advances_deliver hc (quiet_of_map hstep).1⟩
  | forwarderStop =>
    simp [step, forwarderStop, hc.unbroken, hc.serving] at hstep

end Connection

end AigisZero.Stream
