import AigisZero.Stream.Acks
import AigisZero.Stream.Tasks

/-!
# The connections of the agent, as event streams

The server's side of a connection is a run of an event stream, so what is
said of the acknowledgements of one holds on every connection the agent
has had: the current one, and those it has let go of.
-/

namespace AigisZero.Stream

open Agent Fleet

namespace Connection

/-- The acknowledgements the transport has taken, on their way to the
agent. -/
def onTheirWay (c : Connection) : List String := c.inbound ++ c.forwarderAck ++ c.downstream

/-- **An event stream serves a connection.** What a break leaves on the
command channel nobody takes any more. -/
structure ServedBy (c : Connection) (s : EventStream) : Prop where
  task : s.task = c.server
  listening : s.listening = !c.broken
  commands : c.broken = false → s.commands = c.commands
  onTheirWay : c.onTheirWay.Sublist s.emitted

variable (text : UuidText) (codec : JsonCodec) (topic : String)

/-- **A connection is served**: a run of an event stream has got to where
its server is, whatever is still to come in. -/
def Served (c : Connection) : Prop :=
  ∃ yielded l, ∀ rest, ∃ s,
    (EventStream.machine text codec topic).run (.start (yielded ++ rest)) l = some s ∧
      s.inbound = rest ∧ c.ServedBy s

variable {text codec topic}
variable {w : Windows} {c c' : Connection} {s : EventStream} {a : ConnectionAction}
  {published : List Proto.AgentEvent}

theorem served_fresh : fresh.Served text codec topic :=
  ⟨[], [], fun rest => ⟨.start rest, rfl, rfl, rfl, rfl, fun _ => rfl, List.Sublist.refl _⟩⟩

/-- **The simulation rule**: a step of the connection that the event stream
follows, after what it takes in. -/
theorem Served.follow (hc : c.Served text codec topic)
    (yielded : List (Except Status Proto.AgentEvent)) (l : List EventStreamAction)
    (h : ∀ s rest, c.ServedBy s → s.inbound = yielded ++ rest → ∃ t,
      (EventStream.machine text codec topic).run s l = some t ∧ t.inbound = rest ∧
        c'.ServedBy t) :
    c'.Served text codec topic := by
  obtain ⟨before, l', hc⟩ := hc
  refine ⟨before ++ yielded, l' ++ l, fun rest => ?_⟩
  obtain ⟨s, hrun, hin, hs⟩ := hc (yielded ++ rest)
  obtain ⟨t, hstep, hrest, ht⟩ := h s rest hs hin
  refine ⟨t, ?_, hrest, ht⟩
  rw [List.append_assoc, Machine.run_append_of hrun, hstep]

/-- A step of the connection that is none of the server's. -/
theorem Served.stutter (hc : c.Served text codec topic) (hserver : c'.server = c.server)
    (hbroken : c'.broken = c.broken) (hcommands : c'.commands = c.commands)
    (hway : c'.onTheirWay.Sublist c.onTheirWay) : c'.Served text codec topic :=
  hc.follow [] [] fun s _ hs hin => ⟨s, rfl, hin, hs.task.trans hserver.symm,
    hbroken ▸ hs.listening, fun hb => (hs.commands (hbroken ▸ hb)).trans hcommands.symm,
    hway.trans hs.onTheirWay⟩

theorem Served.pumpUp (hc : c.Served text codec topic) (h : c.pumpUp w = some c') :
    c'.Served text codec topic := by
  obtain ⟨event, rest, -, -, rfl⟩ := pumpUp_eq_some h
  exact hc.stutter rfl rfl rfl (List.Sublist.refl _)

/-- A step the event stream follows with one of its own. -/
theorem Served.act (hc : c.Served text codec topic)
    (yielded : List (Except Status Proto.AgentEvent)) (b : EventStreamAction)
    (h : ∀ s rest, c.ServedBy s → s.inbound = yielded ++ rest → ∃ t,
      (EventStream.machine text codec topic).step s b = some t ∧ t.inbound = rest ∧
        c'.ServedBy t) :
    c'.Served text codec topic := by
  refine hc.follow yielded [b] fun s rest hs hin => ?_
  obtain ⟨t, hstep, ht⟩ := h s rest hs hin
  exact ⟨t, Machine.run_singleton.trans hstep, ht⟩

/-- The event read is the next the stream yields. -/
theorem Served.read (hc : c.Served text codec topic) (h : c.read = some c') :
    c'.Served text codec topic := by
  obtain ⟨event, _, hserver, -, rfl⟩ := read_eq_some h
  refine hc.act [.ok event] .next fun s rest hs hin => ?_
  have htask : s.task = .reading := hs.task.trans hserver
  exact ⟨_, EventStream.next_eq_some.2 ⟨htask, .inl ⟨event, rest, hin, rfl⟩⟩, rfl, rfl,
    hs.listening, hs.commands, hs.onTheirWay⟩

/-- Whatever the broker answers, the event stream goes where the server
does. -/
theorem Served.answered {event : Proto.AgentEvent} (hc : c.Served text codec topic)
    (hserver : c.server = .ingesting event) (sent : Except String Unit) :
    Served text codec topic { c with
      server := match sent with
        | .ok () => .sending event.sequence_id
        | .error _ => .reading } := by
  refine hc.act [] (.ingested ⟨0⟩ sent) fun s rest hs hin => ?_
  have htask : s.task = .ingesting event := hs.task.trans hserver
  have hstep : s.ingested text codec topic ⟨0⟩ sent = some _ :=
    EventStream.ingested_eq_some.2 ⟨event, htask, rfl⟩
  exact ⟨_, hstep, hin, rfl, hs.listening, hs.commands, hs.onTheirWay⟩

theorem Served.ingested {sent : Except String Unit} (hc : c.Served text codec topic)
    (h : c.ingested sent = some (c', published)) : c'.Served text codec topic := by
  obtain ⟨event, hserver, ⟨-, rfl, -⟩ | ⟨rfl, -⟩⟩ := ingested_eq_some h
  · exact hc.answered hserver (.ok ())
  · exact hc.answered hserver (.error "")

/-- The command channel has room for the one exactly where it has for the
other. -/
theorem Served.sendCommand (hc : c.Served text codec topic) (h : c.sendCommand = some c') :
    c'.Served text codec topic := by
  obtain ⟨sequence_id, hserver, hsend⟩ := sendCommand_eq_some h
  refine hc.act [] .send fun s rest hs hin => ?_
  have htask : s.task = .sending sequence_id := hs.task.trans hserver
  have hl := hs.listening
  rcases hsend with ⟨hbroken, rfl⟩ | ⟨hbroken, hroom, rfl⟩
  · rw [hbroken] at hl
    refine ⟨_, EventStream.send_eq_some.2 ⟨sequence_id, htask, .inl ⟨hl, rfl⟩⟩, hin, rfl,
      hs.listening, hs.commands, hs.onTheirWay⟩
  · rw [hbroken] at hl
    have hcommands := hs.commands hbroken
    refine ⟨_, EventStream.send_eq_some.2 ⟨sequence_id, htask, .inr ⟨hl, hcommands ▸ hroom, rfl⟩⟩,
      hin, rfl, hs.listening, fun _ => ?_, hs.onTheirWay⟩
    exact congrArg (· ++ [sequence_id]) hcommands

/-- The server stops at an error of the stream. -/
theorem Served.serverStop (hc : c.Served text codec topic) (h : c.serverStop = some c') :
    c'.Served text codec topic := by
  obtain ⟨hserver, -, rfl⟩ := serverStop_eq_some h
  refine hc.act [.error ⟨.internal, ""⟩] .next fun s rest hs hin => ?_
  have htask : s.task = .reading := hs.task.trans hserver
  exact ⟨_, EventStream.next_eq_some.2 ⟨htask, .inr (.inl ⟨_, rest, hin, rfl⟩)⟩, rfl, rfl,
    hs.listening, hs.commands, hs.onTheirWay⟩

/-- What the transport takes down, the response stream emits. -/
theorem Served.pumpDown (hc : c.Served text codec topic) (h : c.pumpDown w = some c') :
    c'.Served text codec topic := by
  obtain ⟨sequence_id, later, hcommands, hbroken, -, rfl⟩ := pumpDown_eq_some h
  refine hc.act [] .emit fun s rest hs hin => ?_
  have heq : s.commands = sequence_id :: later := (hs.commands hbroken).trans hcommands
  refine ⟨_, EventStream.emit_eq_some.2 ⟨sequence_id, later, heq, rfl⟩, hin, hs.task,
    hs.listening, fun _ => rfl, ?_⟩
  have hway := hs.onTheirWay.append (List.Sublist.refl [sequence_id])
  rwa [Connection.onTheirWay, List.append_assoc] at hway

theorem Served.forward (hc : c.Served text codec topic) (h : c.forward = some c') :
    c'.Served text codec topic := by
  obtain ⟨sequence_id, rest, hforwarder, hdownstream, rfl⟩ := forward_eq_some h
  refine hc.stutter rfl rfl rfl ?_
  simp [Connection.onTheirWay, forwarderAck, hforwarder, hdownstream]

theorem Served.deliver (hc : c.Served text codec topic) (h : c.deliver = some c') :
    c'.Served text codec topic := by
  obtain ⟨sequence_id, hforwarder, ⟨-, rfl⟩ | ⟨-, -, rfl⟩⟩ := deliver_eq_some h
  · refine hc.stutter rfl rfl rfl ?_
    simp [Connection.onTheirWay, forwarderAck, hforwarder]
  · refine hc.stutter rfl rfl rfl ?_
    simp [Connection.onTheirWay, forwarderAck, hforwarder]

theorem Served.forwarderStop (hc : c.Served text codec topic) (h : c.forwarderStop = some c') :
    c'.Served text codec topic := by
  obtain ⟨hforwarder, -, rfl⟩ := forwarderStop_eq_some h
  refine hc.stutter rfl rfl rfl ?_
  simp [Connection.onTheirWay, forwarderAck, hforwarder]

/-- Where the transport breaks, the client is gone. -/
theorem Served.breakDown (hc : c.Served text codec topic) : c.breakDown.Served text codec topic :=
  hc.act [] .disconnect fun s _ hs hin =>
    ⟨s.disconnect, rfl, hin, hs.task, rfl, nofun, hs.onTheirWay⟩

theorem Served.detach (hc : c.Served text codec topic) : c.detach.Served text codec topic :=
  hc.stutter rfl rfl rfl
    (((List.nil_sublist _).append (List.Sublist.refl _)).append (List.Sublist.refl _))

/-- **The step lemma.** -/
theorem Served.step (hc : c.Served text codec topic) (h : c.step w a = some (c', published)) :
    c'.Served text codec topic := by
  cases a with
  | pumpUp => exact hc.pumpUp (quiet_of_map h).1
  | read => exact hc.read (quiet_of_map h).1
  | ingested sent => exact hc.ingested h
  | sendCommand => exact hc.sendCommand (quiet_of_map h).1
  | serverStop => exact hc.serverStop (quiet_of_map h).1
  | pumpDown => exact hc.pumpDown (quiet_of_map h).1
  | forward => exact hc.forward (quiet_of_map h).1
  | deliver => exact hc.deliver (quiet_of_map h).1
  | forwarderStop => exact hc.forwarderStop (quiet_of_map h).1
  | breakDown =>
    obtain ⟨rfl, -⟩ := Prod.mk.inj (Option.some.inj h)
    exact hc.breakDown

/-- **What is on its way was acknowledged soundly**: it is of the events
the broker took, in the order it did. -/
theorem Served.acksSound (hc : c.Served text codec topic) :
    ∃ feed s, c.ServedBy s ∧ EventStream.AcksSound text codec topic feed s := by
  obtain ⟨yielded, l, hc⟩ := hc
  obtain ⟨s, hrun, -, hs⟩ := hc []
  exact ⟨yielded ++ [], s, hs, ((EventStream.always_inv l).last hrun).acksSound⟩

end Connection

namespace AgentState

variable (text : UuidText) (codec : JsonCodec) (topic : String)

/-- Every connection the agent has had is served. -/
def AllServed (s : AgentState) : Prop := ∀ c ∈ s.current :: s.old, c.Served text codec topic

variable {text codec topic}
variable {config : AgentConfig} {s t : AgentState} {a : AgentAction}

theorem allServed_init : (init config).AllServed text codec topic :=
  fun _ hc => List.mem_singleton.1 hc ▸ Connection.served_fresh

/-- Steps that leave the connections as they are. -/
theorem AllServed.of_eq (hs : s.AllServed text codec topic) (hcurrent : t.current = s.current)
    (hold : t.old = s.old) : t.AllServed text codec topic := by
  rw [AllServed, hcurrent, hold]
  exact hs

/-- Steps of the connection the client holds. -/
theorem AllServed.of_current (hs : s.AllServed text codec topic)
    (hcurrent : t.current.Served text codec topic) (hold : t.old = s.old) :
    t.AllServed text codec topic := by
  intro c hc
  rcases List.mem_cons.1 hc with rfl | hc
  · exact hcurrent
  · exact hs c (List.mem_cons_of_mem _ (hold ▸ hc))

theorem AllServed.current (hs : s.AllServed text codec topic) :
    s.current.Served text codec topic :=
  hs _ List.mem_cons_self

/-- The connection let go of is served on, beside a new one. -/
theorem AllServed.letGo {c : Connection} (hs : s.AllServed text codec topic)
    (hc : c.Served text codec topic) (hcurrent : t.current = .fresh) (hold : t.old = c :: s.old) :
    t.AllServed text codec topic := by
  intro d hd
  rw [hcurrent, hold] at hd
  rcases List.mem_cons.1 hd with rfl | hd
  · exact Connection.served_fresh
  · rcases List.mem_cons.1 hd with rfl | hd
    · exact hc
    · exact hs d (List.mem_cons_of_mem _ hd)

theorem AllServed.sendEvent (hs : s.AllServed text codec topic)
    (ht : s.sendEvent codec = some t) : t.AllServed text codec topic := by
  obtain ⟨events, batch, i, val, -, -, ⟨-, rfl⟩ | ⟨-, -, rfl⟩⟩ := sendEvent_eq_some ht
  · exact hs.of_eq rfl rfl
  · exact hs.of_current (hs.current.stutter rfl rfl rfl (List.Sublist.refl _)) rfl

/-- A poll takes the oldest of what is on its way. -/
theorem AllServed.poll (hs : s.AllServed text codec topic) (ht : s.poll = some t) :
    t.AllServed text codec topic := by
  obtain ⟨-, -, ⟨sequence_id, rest, hinbound, rfl⟩ | ⟨pc, -, rfl⟩⟩ := poll_eq_some ht
  · refine hs.of_current (hs.current.stutter rfl rfl rfl ?_) rfl
    rw [Connection.onTheirWay, Connection.onTheirWay, hinbound]
    exact List.sublist_cons_self _ _
  · exact hs.of_eq rfl rfl

theorem AllServed.connected {ok : Bool} (hs : s.AllServed text codec topic)
    (ht : s.connected ok = some t) : t.AllServed text codec topic := by
  obtain ⟨-, rfl | rfl⟩ := connected_eq_some ht
  · exact hs.letGo hs.current.detach rfl rfl
  · exact hs.of_eq rfl rfl

theorem AllServed.currentStep {a : ConnectionAction} (hs : s.AllServed text codec topic)
    (ht : s.currentStep config a = some t) : t.AllServed text codec topic := by
  obtain ⟨c, published, hstep, rfl⟩ := currentStep_eq_some ht
  exact hs.of_current (hs.current.step hstep) rfl

theorem AllServed.oldStep {i : ℕ} {a : ConnectionAction} (hs : s.AllServed text codec topic)
    (ht : s.oldStep config i a = some t) : t.AllServed text codec topic := by
  obtain ⟨c, c', published, hc, hstep, rfl⟩ := oldStep_eq_some ht
  have hserved := hs c (List.mem_cons_of_mem _ (List.mem_of_getElem? hc))
  intro d hd
  rcases List.mem_cons.1 hd with rfl | hd
  · exact hs.current
  · rcases List.mem_or_eq_of_mem_set hd with hd | rfl
    · exact hs d (List.mem_cons_of_mem _ hd)
    · exact hserved.step hstep

/-- **The step lemma.** -/
theorem allServed_step (hs : s.AllServed text codec topic)
    (ht : (machine codec config).step s a = some t) : t.AllServed text codec topic := by
  cases a with
  | sendEvent => exact hs.sendEvent ht
  | poll => exact hs.poll ht
  | connected ok => exact hs.connected ht
  | current a => exact hs.currentStep ht
  | old i a => exact hs.oldStep ht
  | crash =>
    obtain rfl := Option.some.inj ht
    exact hs.letGo hs.current.detach.breakDown rfl rfl
  | push event_json fault =>
    obtain rfl := Option.some.inj ht
    exact hs.of_eq rfl rfl
  | drainTick fault =>
    obtain ⟨-, ⟨-, rfl⟩ | ⟨-, b, -, rfl⟩⟩ := drainTick_eq_some ht
    · exact hs
    · exact hs.of_eq rfl rfl
  | requeue fault =>
    obtain ⟨event, rest, -, rfl | ⟨b, k, -, rfl⟩⟩ := requeue_eq_some ht
    · exact hs.of_eq rfl rfl
    · exact hs.of_eq rfl rfl
  | drainLock =>
    obtain ⟨events, batch, -, -, rfl⟩ := drainLock_eq_some ht
    exact hs.of_eq rfl rfl
  | sendDone =>
    obtain ⟨events, batch, i, -, -, rfl⟩ := sendDone_eq_some ht
    exact hs.of_eq rfl rfl
  | requeueDone =>
    obtain ⟨-, rfl⟩ := requeueDone_eq_some ht
    exact hs.of_eq rfl rfl
  | heartbeatTick =>
    obtain ⟨-, rfl⟩ := heartbeatTick_eq_some ht
    exact hs.of_eq rfl rfl
  | heartbeatLock =>
    obtain ⟨n, -, -, rfl⟩ := heartbeatLock_eq_some ht
    exact hs.of_eq rfl rfl
  | heartbeatAnswer =>
    obtain ⟨n, -, rfl⟩ := heartbeatAnswer_eq_some ht
    exact hs.of_eq rfl rfl
  | handle =>
    obtain ⟨sequence_id, -, rfl⟩ := handle_eq_some ht
    exact hs.of_eq rfl rfl
  | wake =>
    obtain ⟨-, rfl⟩ := wake_eq_some ht
    exact hs.of_eq rfl rfl
  | connectLock =>
    obtain ⟨-, -, rfl⟩ := connectLock_eq_some ht
    exact hs.of_eq rfl rfl

/-- **Every connection of every run is an event stream.** Whatever the
agent does and wherever it crashes, what is on its way on a connection it
has had was acknowledged soundly. -/
theorem always_served (text : UuidText) (codec : JsonCodec) (topic : String)
    (config : AgentConfig) (l : List AgentAction) :
    (machine codec config).Always (fun s => ∀ c ∈ s.current :: s.old, ∃ feed stream,
      c.ServedBy stream ∧ EventStream.AcksSound text codec topic feed stream) (init config) l := by
  have hserved : (machine codec config).Always (AllServed text codec topic) (init config) l :=
    Machine.always_of_everyStep (fun _ _ _ hs _ ht => allServed_step hs ht) allServed_init
      Machine.everyStep_true
  exact hserved.imp fun s hs c hc => (hs c hc).acksSound

end AgentState

end AigisZero.Stream
