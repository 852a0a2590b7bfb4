import AigisZero.Library.Machine
import AigisZero.Stream.Connection

/-!
# The acknowledgements of an event stream

The server's side of one event stream, whatever the agent sends, whatever
the broker answers, and whenever the client goes. The task takes one event
at a time, publishes it, and puts an acknowledgement on the command
channel where the broker took it; the response stream emits what is on the
channel. This file says that what is emitted is what was published.
-/

namespace AigisZero.Stream

open Fleet

/-- What `ingest_event` did with an event: the record it published, and
what the broker answered. -/
structure Attempt where
  event : Proto.AgentEvent
  record : Publication
  sent : Except String Unit

/-- **An event stream, on the server.** `attempts` and `emitted` are the
history: what went to the broker, and what went to the client. -/
structure EventStream where
  task : ServerPc
  /-- What the inbound stream has yet to yield: events, or its error. -/
  inbound : List (Except Status Proto.AgentEvent)
  commands : List String
  /-- The client still holds the response stream. -/
  listening : Bool
  attempts : List Attempt
  emitted : List String

/-- What can happen to an event stream. -/
inductive EventStreamAction where
  | next
  /-- The broker answers the publication of the event being ingested. -/
  | ingested (drawn : Uuid) (sent : Except String Unit)
  | send
  /-- The response stream yields the next command. -/
  | emit
  /-- The client lets go of the response stream. -/
  | disconnect

namespace EventStream

/-- A stream just opened. -/
def start (inbound : List (Except Status Proto.AgentEvent)) : EventStream :=
  ⟨.reading, inbound, [], true, [], []⟩

/-- `inbound.next().await`: an error ends the loop as the end does. -/
def next (s : EventStream) : Option EventStream :=
  match s.task with
  | .reading =>
    match s.inbound with
    | .ok event :: rest => some { s with task := .ingesting event, inbound := rest }
    | .error _ :: rest => some { s with task := .done, inbound := rest }
    | [] => some { s with task := .done }
  | _ => none

section
variable (text : UuidText) (codec : JsonCodec) (topic : String)

/-- Ingest returns: the acknowledgement is next, or the error is logged. -/
def ingested (s : EventStream) (drawn : Uuid) (sent : Except String Unit) : Option EventStream :=
  match s.task with
  | .ingesting event =>
    let attempts := s.attempts ++
      [⟨event, published text codec topic (incoming event) drawn, sent⟩]
    match ingest_event (incoming event) sent with
    | .ok (some (.ack sequence_id)) =>
      some { s with task := .sending sequence_id, attempts := attempts }
    | .ok none => some { s with task := .reading, attempts := attempts }
    | .error _ => some { s with task := .reading, attempts := attempts }
  | _ => none

end

/-- `cmd_tx.send`: it waits for room, and where nobody listens any more it
ends the loop. -/
def send (s : EventStream) : Option EventStream :=
  match s.task with
  | .sending sequence_id =>
    if s.listening = false then some { s with task := .done }
    else if s.commands.length < COMMANDS then
      some { s with task := .reading, commands := s.commands ++ [sequence_id] }
    else none
  | _ => none

/-- The response stream emits the oldest command. -/
def emit (s : EventStream) : Option EventStream :=
  match s.commands with
  | sequence_id :: rest =>
    some { s with commands := rest, emitted := s.emitted ++ [sequence_id] }
  | [] => none

/-- The client goes, and what is on the command channel with it. -/
def disconnect (s : EventStream) : EventStream := { s with listening := false, commands := [] }

section
variable (text : UuidText) (codec : JsonCodec) (topic : String)

/-- **The server's side of an event stream as a machine.** -/
def machine : Machine EventStream EventStreamAction where
  step s
    | .next => s.next
    | .ingested drawn sent => s.ingested text codec topic drawn sent
    | .send => s.send
    | .emit => s.emit
    | .disconnect => some s.disconnect

end

/-! ## What a step does -/

variable {text : UuidText} {codec : JsonCodec} {topic : String}
variable {s t : EventStream}
variable {drawn : Uuid} {sent : Except String Unit}

theorem next_eq_some : s.next = some t ↔ s.task = .reading ∧
    ((∃ event rest, s.inbound = .ok event :: rest ∧
        t = { s with task := .ingesting event, inbound := rest }) ∨
      (∃ e rest, s.inbound = .error e :: rest ∧ t = { s with task := .done, inbound := rest }) ∨
      s.inbound = [] ∧ t = { s with task := .done }) := by
  unfold next
  split
  · next htask =>
    split <;> simp_all [eq_comm]
  · next htask => simp_all

/-- **Ingest records the attempt**, and goes on to the acknowledgement
exactly where the broker took the record. -/
theorem ingested_eq_some : s.ingested text codec topic drawn sent = some t ↔
    ∃ event, s.task = .ingesting event ∧
      t = { s with
        task := match sent with
          | .ok () => .sending event.sequence_id
          | .error _ => .reading
        attempts := s.attempts ++
          [⟨event, published text codec topic (incoming event) drawn, sent⟩] } := by
  unfold ingested
  split
  · next event htask =>
    cases sent with
    | ok => simp [htask, ingest_event, incoming, eq_comm]
    | error e => simp [htask, ingest_event, eq_comm]
  · next htask => simp_all

theorem send_eq_some : s.send = some t ↔ ∃ sequence_id, s.task = .sending sequence_id ∧
    (s.listening = false ∧ t = { s with task := .done } ∨
      s.listening = true ∧ s.commands.length < COMMANDS ∧
        t = { s with task := .reading, commands := s.commands ++ [sequence_id] }) := by
  unfold send
  split
  · next sequence_id htask =>
    cases hl : s.listening with
    | false => simp [htask, eq_comm]
    | true =>
      by_cases hroom : s.commands.length < COMMANDS
      · simp [htask, hroom, eq_comm]
      · simp [htask, hroom]
  · next htask => simp_all

theorem emit_eq_some : s.emit = some t ↔ ∃ sequence_id rest, s.commands = sequence_id :: rest ∧
    t = { s with commands := rest, emitted := s.emitted ++ [sequence_id] } := by
  unfold emit
  split <;> simp_all [eq_comm]

/-! ## What is said of the whole -/

/-- The events of an inbound stream: those before its first error. -/
def arrivals : List (Except Status Proto.AgentEvent) → List Proto.AgentEvent
  | .ok event :: rest => event :: arrivals rest
  | _ => []

/-- The event being ingested. -/
def ingesting (s : EventStream) : List Proto.AgentEvent :=
  match s.task with
  | .ingesting event => [event]
  | _ => []

/-- The acknowledgement being sent. -/
def sending (s : EventStream) : List String :=
  match s.task with
  | .sending sequence_id => [sequence_id]
  | _ => []

/-- The sequence numbers of what the broker took, in the order it did. -/
def acked (s : EventStream) : List String :=
  s.attempts.filterMap fun a =>
    match a.sent with
    | .ok () => some a.event.sequence_id
    | .error _ => none

end EventStream

/-- **A record carries an event**: it is keyed by the node, and its text is
that of an envelope that says what the event does. -/
structure Carries (codec : JsonCodec) (record : Publication) (event : Proto.AgentEvent) :
    Prop where
  key : record.key = event.node_id
  envelope : ∃ j, record.payload = codec.toVec j ∧
    j.get? "node_id" = some (.str event.node_id) ∧
    j.get? "event_type" = some (.str event.event_type) ∧
    j.get? "timestamp_ns" = some (.int event.timestamp_ns.toInt) ∧
    j.get? "raw_sequence_id" = some (.str event.sequence_id) ∧
    j.get? "payload" = some (match codec.fromSlice event.payload with
      | some parsed => parsed
      | none => Json.object [("raw", .str (fromUtf8Lossy event.payload))])

namespace EventStream

/-- **The acknowledgements are sound**, on a stream that is fed so. -/
structure AcksSound (text : UuidText) (codec : JsonCodec) (topic : String)
    (feed : List (Except Status Proto.AgentEvent)) (s : EventStream) : Prop where
  /-- Every event is published once, in the order of arrival. -/
  inOrder : s.attempts.map Attempt.event ++ s.ingesting <+: arrivals feed
  carried : ∀ a ∈ s.attempts, a.record.topic = topic ∧ Carries codec a.record a.event
  /-- What is emitted was taken by the broker, in order, each once. -/
  acks : s.emitted <+: s.acked
  /-- And as long as the client is there, nothing else is missing from it
  than what is on its way. -/
  allAcks : s.listening = true → s.emitted ++ s.commands ++ s.sending = s.acked
  /-- The loop ends early for a client that is gone, and for nothing else. -/
  complete : s.task = .done → s.listening = true →
    s.attempts.map Attempt.event = arrivals feed
  /-- Short of its end the loop goes on, once the broker has answered and
  the response stream has made room. -/
  goesOn : s.task ≠ .done → (s.next.isSome ∨ (∀ drawn sent,
    (s.ingested text codec topic drawn sent).isSome) ∨ s.send.isSome ∨ s.emit.isSome)
  /-- A failed publication adds no acknowledgement, and the next event is
  taken as if there had been none. -/
  undeterred : ∀ event, s.task = .ingesting event → ∀ drawn e, ∃ t,
    (machine text codec topic).step s (.ingested drawn (.error e)) = some t ∧
      t.task = .reading ∧ t.acked = s.acked ∧ t.emitted = s.emitted ∧
      t.commands = s.commands ∧ t.inbound = s.inbound ∧
      ∀ event' rest, s.inbound = .ok event' :: rest → ∃ u,
        (machine text codec topic).step t .next = some u ∧ u.task = .ingesting event'

/-- What every step keeps. -/
structure Inv (codec : JsonCodec) (topic : String)
    (feed : List (Except Status Proto.AgentEvent)) (s : EventStream) : Prop where
  inOrder : ∃ later, s.attempts.map Attempt.event ++ s.ingesting ++ later = arrivals feed ∧
    (s.task ≠ .done → later = arrivals s.inbound) ∧
    (s.task = .done → s.listening = true → later = [])
  carried : ∀ a ∈ s.attempts, a.record.topic = topic ∧ Carries codec a.record a.event
  acks : s.emitted <+: s.acked
  allAcks : s.listening = true → s.emitted ++ s.commands ++ s.sending = s.acked
  gone : s.listening = false → s.commands = []

/-! ## The invariant -/

variable {text : UuidText} {codec : JsonCodec} {topic : String}
variable {feed : List (Except Status Proto.AgentEvent)} {s t : EventStream}
variable {drawn : Uuid} {sent : Except String Unit}

/-- **What is published carries the event.** -/
theorem carries_published (event : Proto.AgentEvent) (drawn : Uuid) :
    Carries codec (published text codec topic (incoming event) drawn) event where
  key := rfl
  envelope := by
    refine ⟨telemetryEnvelope text codec (incoming event) drawn, rfl, ?_, ?_, ?_, ?_, ?_⟩
    · exact telemetryEnvelope_get? _ _ "node_id"
    · exact telemetryEnvelope_get? _ _ "event_type"
    · exact telemetryEnvelope_get? _ _ "timestamp_ns"
    · exact telemetryEnvelope_get? _ _ "raw_sequence_id"
    · rw [telemetryEnvelope_get?]
      show some (payloadVal codec event.payload) = _
      unfold payloadVal
      cases codec.fromSlice event.payload with
      | none => rfl
      | some parsed => rfl

theorem inv_start : Inv codec topic feed (start feed) where
  inOrder := ⟨arrivals feed, rfl, fun _ => rfl, fun h => by cases h⟩
  carried := fun a ha => absurd ha List.not_mem_nil
  acks := List.prefix_rfl
  allAcks := fun _ => rfl
  gone := fun h => by cases h

theorem inv_next (h : s.next = some t) (hs : Inv codec topic feed s) :
    Inv codec topic feed t := by
  obtain ⟨htask, h⟩ := next_eq_some.1 h
  obtain ⟨later, heq, hlater, -⟩ := hs.inOrder
  obtain rfl := hlater (by rw [htask]; exact fun h => by cases h)
  have hing : s.ingesting = [] := by rw [ingesting, htask]
  have hsend : s.sending = [] := by rw [sending, htask]
  have hall := hs.allAcks
  rw [hing] at heq
  rw [hsend] at hall
  rcases h with ⟨event, rest, hin, rfl⟩ | ⟨e, rest, hin, rfl⟩ | ⟨hin, rfl⟩
  · refine ⟨⟨arrivals rest, ?_, fun _ => rfl, fun h => by cases h⟩, hs.carried, hs.acks, hall,
      hs.gone⟩
    rw [← heq, hin]
    simp [ingesting, arrivals]
  · refine ⟨⟨[], ?_, fun h => absurd rfl h, fun _ _ => rfl⟩, hs.carried, hs.acks, hall, hs.gone⟩
    rw [← heq, hin]
    rfl
  · refine ⟨⟨[], ?_, fun h => absurd rfl h, fun _ _ => rfl⟩, hs.carried, hs.acks, hall, hs.gone⟩
    rw [← heq, hin]
    rfl

/-- An attempt adds its acknowledgement, where the broker took the record. -/
theorem inv_ingested (h : s.ingested text codec topic drawn sent = some t)
    (hs : Inv codec topic feed s) : Inv codec topic feed t := by
  obtain ⟨event, htask, rfl⟩ := ingested_eq_some.1 h
  obtain ⟨later, heq, hlater, -⟩ := hs.inOrder
  obtain rfl := hlater (by rw [htask]; exact fun h => by cases h)
  have hing : s.ingesting = [event] := by rw [ingesting, htask]
  have hsend : s.sending = [] := by rw [sending, htask]
  have hall := hs.allAcks
  rw [hing] at heq
  rw [hsend, List.append_nil] at hall
  have hcarried : ∀ a ∈ s.attempts ++
      [⟨event, published text codec topic (incoming event) drawn, sent⟩],
      a.record.topic = topic ∧ Carries codec a.record a.event := by
    intro a ha
    rcases List.mem_append.1 ha with ha | ha
    · exact hs.carried a ha
    · obtain rfl := List.mem_singleton.1 ha
      exact ⟨rfl, carries_published event drawn⟩
  cases sent with
  | ok =>
    have hacked : acked { s with
        task := .sending event.sequence_id
        attempts := s.attempts ++
          [⟨event, published text codec topic (incoming event) drawn, .ok ()⟩] } =
        s.acked ++ [event.sequence_id] := by
      simp [acked]
    refine ⟨⟨arrivals s.inbound, ?_, fun _ => rfl, fun h => by cases h⟩, hcarried, ?_, ?_, hs.gone⟩
    · rw [← heq]
      simp [ingesting]
    · rw [hacked]
      exact hs.acks.trans (List.prefix_append _ _)
    · intro hl
      rw [hacked, ← hall hl]
      rfl
  | error e =>
    have hacked : acked { s with
        task := .reading
        attempts := s.attempts ++
          [⟨event, published text codec topic (incoming event) drawn, .error e⟩] } = s.acked := by
      simp [acked]
    refine ⟨⟨arrivals s.inbound, ?_, fun _ => rfl, fun h => by cases h⟩, hcarried, ?_, ?_, hs.gone⟩
    · rw [← heq]
      simp [ingesting]
    · rw [hacked]
      exact hs.acks
    · intro hl
      rw [hacked, ← hall hl]
      exact List.append_nil _

theorem inv_send (h : s.send = some t) (hs : Inv codec topic feed s) :
    Inv codec topic feed t := by
  obtain ⟨sequence_id, htask, h⟩ := send_eq_some.1 h
  obtain ⟨later, heq, hlater, -⟩ := hs.inOrder
  have hing : s.ingesting = [] := by rw [ingesting, htask]
  have hsend : s.sending = [sequence_id] := by rw [sending, htask]
  have hall := hs.allAcks
  rw [hing] at heq
  rw [hsend] at hall
  rcases h with ⟨hgone, rfl⟩ | ⟨hl, -, rfl⟩
  · exact ⟨⟨later, heq, fun h => absurd rfl h, fun _ hl => absurd (hgone.symm.trans hl) (by simp)⟩,
      hs.carried, hs.acks, fun hl => absurd (hgone.symm.trans hl) (by simp), hs.gone⟩
  · refine ⟨⟨later, heq, fun _ => hlater ?_, fun h => by cases h⟩, hs.carried, hs.acks, ?_, ?_⟩
    · rw [htask]
      exact fun h => by cases h
    · intro _
      show s.emitted ++ (s.commands ++ [sequence_id]) ++ [] = s.acked
      rw [← hall hl, List.append_nil, List.append_assoc]
    · intro hgone
      exact absurd (hl.symm.trans hgone) (by simp)

theorem inv_emit (h : s.emit = some t) (hs : Inv codec topic feed s) :
    Inv codec topic feed t := by
  obtain ⟨sequence_id, rest, hcommands, rfl⟩ := emit_eq_some.1 h
  have hl : s.listening = true := by
    by_contra hgone
    rw [hs.gone (by simpa using hgone)] at hcommands
    cases hcommands
  have hall : s.emitted ++ [sequence_id] ++ (rest ++ s.sending) = s.acked := by
    rw [← hs.allAcks hl, hcommands]
    simp
  refine ⟨hs.inOrder, hs.carried, ?_, ?_, ?_⟩
  · exact ⟨rest ++ s.sending, hall⟩
  · intro _
    rw [List.append_assoc]
    exact hall
  · intro hgone
    exact absurd (hl.symm.trans hgone) (by simp)

theorem inv_disconnect (hs : Inv codec topic feed s) :
    Inv codec topic feed s.disconnect := by
  obtain ⟨later, heq, hlater, -⟩ := hs.inOrder
  exact ⟨⟨later, heq, hlater, fun _ h => by cases h⟩, hs.carried, hs.acks, (fun h => by cases h),
    fun _ => rfl⟩

/-- **The step lemma.** -/
theorem inv_step {a : EventStreamAction} (hs : Inv codec topic feed s)
    (h : (machine text codec topic).step s a = some t) : Inv codec topic feed t := by
  cases a with
  | next => exact inv_next h hs
  | ingested drawn sent => exact inv_ingested h hs
  | send => exact inv_send h hs
  | emit => exact inv_emit h hs
  | disconnect => exact Option.some.inj h ▸ inv_disconnect hs

/-- **Every run keeps the invariant.** -/
theorem always_inv (l : List EventStreamAction) :
    (machine text codec topic).Always (Inv codec topic feed) (start feed) l :=
  Machine.always_of_everyStep (fun _ _ _ hs _ h => inv_step hs h) inv_start Machine.everyStep_true

/-! ## The acknowledgements -/

/-- **The loop goes on.** Where the command channel is full, there is a
command to emit. -/
theorem goesOn (htask : s.task ≠ .done) : s.next.isSome ∨ (∀ drawn sent,
    (s.ingested text codec topic drawn sent).isSome) ∨ s.send.isSome ∨ s.emit.isSome := by
  cases hpc : s.task with
  | done => exact absurd hpc htask
  | reading =>
    left
    cases hin : s.inbound with
    | nil => simp [next, hpc, hin]
    | cons result rest => cases result <;> simp [next, hpc, hin]
  | ingesting event =>
    right; left
    intro drawn sent
    exact Option.isSome_iff_exists.2 ⟨_, ingested_eq_some.2 ⟨event, hpc, rfl⟩⟩
  | sending sequence_id =>
    right; right
    cases hcommands : s.commands with
    | nil =>
      left
      cases hl : s.listening <;> simp [send, hpc, hcommands, hl, COMMANDS]
    | cons c rest => simp [emit, hcommands]

/-- The loop takes whatever event comes next. -/
theorem exists_next {event : Proto.AgentEvent} {rest : List (Except Status Proto.AgentEvent)}
    (htask : s.task = .reading) (hin : s.inbound = .ok event :: rest) :
    ∃ t, s.next = some t ∧ t.task = .ingesting event :=
  ⟨_, next_eq_some.2 ⟨htask, .inl ⟨event, rest, hin, rfl⟩⟩, rfl⟩

/-- **A failed publication is forgotten.** -/
theorem undeterred (event : Proto.AgentEvent) (htask : s.task = .ingesting event) (drawn : Uuid)
    (e : String) : ∃ t,
    (machine text codec topic).step s (.ingested drawn (.error e)) = some t ∧
      t.task = .reading ∧ t.acked = s.acked ∧ t.emitted = s.emitted ∧
      t.commands = s.commands ∧ t.inbound = s.inbound ∧
      ∀ event' rest, s.inbound = .ok event' :: rest → ∃ u,
        (machine text codec topic).step t .next = some u ∧ u.task = .ingesting event' := by
  obtain ⟨t, ht, hreading, hacked, hemitted, hcommands, hinbound⟩ :
      ∃ t, s.ingested text codec topic drawn (.error e) = some t ∧ t.task = .reading ∧
        t.acked = s.acked ∧ t.emitted = s.emitted ∧ t.commands = s.commands ∧
        t.inbound = s.inbound :=
    ⟨_, ingested_eq_some.2 ⟨event, htask, rfl⟩, rfl, by simp [acked], rfl, rfl, rfl⟩
  exact ⟨t, ht, hreading, hacked, hemitted, hcommands, hinbound,
    fun event' rest hin => exists_next hreading (hinbound.trans hin)⟩

theorem Inv.acksSound (hs : Inv codec topic feed s) :
    AcksSound text codec topic feed s where
  inOrder := by
    obtain ⟨later, heq, -⟩ := hs.inOrder
    exact ⟨later, heq⟩
  carried := hs.carried
  acks := hs.acks
  allAcks := hs.allAcks
  complete htask hl := by
    obtain ⟨later, heq, -, hlater⟩ := hs.inOrder
    rw [hlater htask hl, ingesting, htask, List.append_nil, List.append_nil] at heq
    exact heq
  goesOn := goesOn
  undeterred := undeterred

/-- **Acknowledgement is sound.** Whatever comes in, whatever the broker
answers and whenever the client goes, in every state of every run what
the response stream has emitted is what the broker has taken. -/
theorem always_acksSound (text : UuidText) (codec : JsonCodec) (topic : String)
    (feed : List (Except Status Proto.AgentEvent)) (l : List EventStreamAction) :
    (machine text codec topic).Always (AcksSound text codec topic feed) (start feed) l :=
  (always_inv l).imp fun _ hs => hs.acksSound

end EventStream

end AigisZero.Stream
