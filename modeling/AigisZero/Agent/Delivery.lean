import AigisZero.Agent.BufferCalls
import AigisZero.Library.JsonText

/-!
# A delivery that fails

The drain loop takes the oldest events out of the buffer and sends them.
Where the send fails it pushes all of them back, at the end of the queue,
while the collector goes on pushing. The statements of the buffer succeed
here; what becomes of one that fails is in `Agent.BufferCalls`.
-/

namespace AigisZero.Agent

/-- An event, known by the number it was first pushed under. -/
structure BufferedEvent where
  number : ℕ
  text : String
deriving DecidableEq, Repr

/-- **The buffer, with the events its rows hold** beside it. -/
structure EventTable where
  buffer : EventBuffer
  events : List BufferedEvent
  holds : events.map (·.text) = buffer.payloads

namespace EventBuffer

/-- What a push that succeeds leaves. -/
theorem payloads_push (b : EventBuffer) (event_json : String) :
    (b.push event_json none).2.1.payloads = (b.payloads ++ [event_json]).rtake b.max_events := by
  have hlen : (b.payloads ++ [event_json]).length = (b.insert event_json).len := by
    rw [← payloads_insert, length_payloads]
  rw [push, if_neg (by decide)]
  by_cases h : b.max_events < (b.insert event_json).len
  · simp only [max_events_insert, reduceCtorEq, if_false, if_pos h]
    rw [payloads_delete_oldest, payloads_insert, List.rtake, hlen]
  · simp only [max_events_insert, reduceCtorEq, if_false, if_neg h]
    rw [payloads_insert, Fifo.rtake_eq_self (by omega)]

@[simp] theorem max_events_push (b : EventBuffer) (event_json : String) (fault : Option PushFault) :
    (b.push event_json fault).2.1.max_events = b.max_events := by
  unfold push
  dsimp only
  split_ifs <;> rfl

/-- The events of a table, each under the number of its row. -/
def bufferedEvents (b : EventBuffer) : List BufferedEvent := b.rows.map fun r => ⟨r.id, r.payload⟩

end EventBuffer

namespace EventTable

/-- A buffer as it is. -/
def ofBuffer (b : EventBuffer) : EventTable where
  buffer := b
  events := b.bufferedEvents
  holds := by rw [EventBuffer.bufferedEvents, List.map_map]; rfl

/-- `EventBuffer::push`. -/
def push (s : EventTable) (event : BufferedEvent) : EventTable where
  buffer := (s.buffer.push event.text none).2.1
  events := (s.events ++ [event]).rtake s.buffer.max_events
  holds := by rw [Fifo.map_rtake, List.map_append, s.holds, EventBuffer.payloads_push]; rfl

@[simp] theorem events_push (s : EventTable) (event : BufferedEvent) :
    (s.push event).events = (s.events ++ [event]).rtake s.buffer.max_events := rfl

@[simp] theorem max_events_push (s : EventTable) (event : BufferedEvent) :
    (s.push event).buffer.max_events = s.buffer.max_events :=
  EventBuffer.max_events_push _ _ _

/-- `EventBuffer::drain`: the events it returns, and the table after it. -/
def drain (s : EventTable) (batch_size : ℕ) : List BufferedEvent × EventTable :=
  (s.events.take batch_size,
    { buffer := (s.buffer.drain batch_size none).2
      events := s.events.drop batch_size
      holds := by
        rw [List.map_drop, s.holds]
        exact (EventBuffer.payloads_delete_oldest s.buffer batch_size).symm })

/-- The texts are those the buffer returns. -/
theorem map_drain (s : EventTable) (batch_size : ℕ) :
    (s.buffer.drain batch_size none).1 = .ok ((s.drain batch_size).1.map (·.text)) := by
  show Except.ok ((s.buffer.oldest batch_size).map (·.payload)) = _
  rw [EventBuffer.payloads_oldest, drain, List.map_take, s.holds]

end EventTable

/-- Where the drain loop stands. Of the events it holds, it reads the
texts. -/
inductive DeliveryPc where
  /-- In `send_events`, at an event of the batch. -/
  | sending (events : List BufferedEvent) (at_event : ℕ)
  /-- Pushing the events back. -/
  | requeueing (events : List BufferedEvent)
  /-- The last is back. -/
  | requeued
  /-- `send_events` has returned `Ok`. -/
  | delivered

/-- One delivery, with what there was to deliver. -/
structure Delivery where
  table : EventTable
  drain : DeliveryPc
  /-- The number of the next event that is pushed. -/
  next : ℕ
  /-- The events that were drained, and those that were left. -/
  drained : List BufferedEvent
  rest : List BufferedEvent
  /-- The events the collector has pushed since. -/
  pushed : List BufferedEvent
  /-- The events that are on the stream. -/
  enqueued : List BufferedEvent
  /-- The pushes since the drain, of the collector and of the drain loop. -/
  arrived : List BufferedEvent

/-- What can happen during a delivery. -/
inductive DeliveryAction where
  | push (event_json : String)
  /-- The stream takes the next event of the batch. -/
  | send
  /-- There is no stream, or it does not take the event. -/
  | fail
  | requeue
deriving DecidableEq, Repr

namespace Delivery

variable (codec : JsonCodec)

/-- The events that `send_events` is given: those whose texts are JSON. -/
def parsed_events (events : List BufferedEvent) : List BufferedEvent :=
  events.filter fun event => (codec.ofText event.text).isSome

/-- A tick of the drain loop, where there is something to send. -/
def tick (b : EventBuffer) (batch_size : ℕ) : Option Delivery :=
  let (events, table) := (EventTable.ofBuffer b).drain batch_size
  if parsed_events codec events = [] then none
  else some
    { table
      drain := .sending events 0
      next := b.next
      drained := events
      rest := table.events
      pushed := []
      enqueued := []
      arrived := [] }

/-- The collector pushes an event. -/
def push (s : Delivery) (event_json : String) : Option Delivery :=
  match s.drain with
  | .requeued | .delivered => none
  | _ =>
    let event := ⟨s.next, event_json⟩
    some { s with
      table := s.table.push event
      next := s.next + 1
      pushed := s.pushed ++ [event]
      arrived := s.arrived ++ [event] }

/-- The loop of `send_events`: the stream takes an event. -/
def send (s : Delivery) : Option Delivery :=
  match s.drain with
  | .sending events i =>
    match (parsed_events codec events)[i]? with
    | some event =>
      some { s with
        drain := if (parsed_events codec events).length ≤ i + 1 then .delivered
          else .sending events (i + 1)
        enqueued := s.enqueued ++ [event] }
    | none => none
  | _ => none

/-- `send_events` returns an error, before an event is taken. -/
def fail (s : Delivery) : Option Delivery :=
  match s.drain with
  | .sending events _ => some { s with drain := .requeueing events }
  | _ => none

/-- The drain loop pushes the next event back. -/
def requeue (s : Delivery) : Option Delivery :=
  match s.drain with
  | .requeueing (event :: rest) =>
    some { s with
      table := s.table.push event
      drain := if rest = [] then .requeued else .requeueing rest
      arrived := s.arrived ++ [event] }
  | _ => none

/-- **A delivery as a machine**, from the drain on. -/
def machine : Machine Delivery DeliveryAction where
  step s
    | .push event_json => s.push event_json
    | .send => s.send codec
    | .fail => s.fail
    | .requeue => s.requeue

/-- What the buffer would hold had the batch not left it: the events that
are not on the stream, in the order of their first pushes, as many of the
newest as the cap allows. -/
def expected (s : Delivery) : List BufferedEvent :=
  (s.drained.filter (fun event => event ∉ s.enqueued) ++ s.rest ++ s.pushed).rtake
    s.table.buffer.max_events

/-- **The queue is as it was**, but for what the collector has pushed: no
event is out of order, was evicted for an older one, or is queued though it
is on the stream. -/
def LeftAsItWas (s : Delivery) : Prop := s.table.events = s.expected

/-- **Nothing can go wrong**: the batch is the whole buffer, nothing is pushed
until it is back, and what is sent lies past the cap, so that it is evicted
on the way back. -/
structure Undisturbed (b : EventBuffer) (batch_size : ℕ) (l : List DeliveryAction) : Prop where
  whole : b.len ≤ batch_size
  quiet : ∀ event_json, .push event_json ∉ l
  unsent : l.count .send ≤ (parsed_events codec (b.bufferedEvents.rdrop b.max_events)).length

variable {codec} {b : EventBuffer} {batch_size : ℕ} {s t u : Delivery} {a : DeliveryAction}
  {l : List DeliveryAction} {event : BufferedEvent}

/-! ## What each step does -/

theorem tick_eq_some (h : tick codec b batch_size = some s) :
    parsed_events codec (b.bufferedEvents.take batch_size) ≠ [] ∧
      s = { table := ((EventTable.ofBuffer b).drain batch_size).2
            drain := .sending (b.bufferedEvents.take batch_size) 0
            next := b.next
            drained := b.bufferedEvents.take batch_size
            rest := b.bufferedEvents.drop batch_size
            pushed := [], enqueued := [], arrived := [] } := by
  unfold tick at h
  dsimp only at h
  split at h
  · cases h
  · next hparsed => exact ⟨hparsed, (Option.some.inj h).symm⟩

theorem push_eq_some {event_json : String} (ht : s.push event_json = some t) :
    t = { s with
      table := s.table.push ⟨s.next, event_json⟩
      next := s.next + 1
      pushed := s.pushed ++ [⟨s.next, event_json⟩]
      arrived := s.arrived ++ [⟨s.next, event_json⟩] } ∧
      ((∃ events i, s.drain = .sending events i) ∨ ∃ events, s.drain = .requeueing events) := by
  unfold push at ht
  split at ht
  · cases ht
  · cases ht
  · next hrequeued hdelivered =>
    refine ⟨(Option.some.inj ht).symm, ?_⟩
    rcases hdrain : s.drain with ⟨events, i⟩ | ⟨events⟩ | _ | _
    · exact .inl ⟨_, _, rfl⟩
    · exact .inr ⟨_, rfl⟩
    · exact absurd hdrain hrequeued
    · exact absurd hdrain hdelivered

theorem send_eq_some (ht : s.send codec = some t) :
    ∃ events i event, s.drain = .sending events i ∧ (parsed_events codec events)[i]? = some event ∧
      t = { s with
        drain := if (parsed_events codec events).length ≤ i + 1 then .delivered
          else .sending events (i + 1)
        enqueued := s.enqueued ++ [event] } := by
  unfold send at ht
  split at ht
  · next events i hdrain =>
    split at ht
    · next event hevent => exact ⟨events, i, event, hdrain, hevent, (Option.some.inj ht).symm⟩
    · cases ht
  · cases ht

theorem fail_eq_some (ht : s.fail = some t) :
    ∃ events i, s.drain = .sending events i ∧ t = { s with drain := .requeueing events } := by
  unfold fail at ht
  split at ht
  · next events i hdrain => exact ⟨events, i, hdrain, (Option.some.inj ht).symm⟩
  · cases ht

theorem requeue_eq_some (ht : s.requeue = some t) :
    ∃ event rest, s.drain = .requeueing (event :: rest) ∧
      t = { s with
        table := s.table.push event
        drain := if rest = [] then .requeued else .requeueing rest
        arrived := s.arrived ++ [event] } := by
  unfold requeue at ht
  split at ht
  · next event rest hdrain => exact ⟨event, rest, hdrain, (Option.some.inj ht).symm⟩
  · cases ht

/-! ## What the buffer holds on the way -/

/-- The rows are those that were left and those that arrived, as far as the
cap allows. -/
def Window (max_events : ℕ) (s : Delivery) : Prop :=
  s.table.buffer.max_events = max_events ∧
    (s.arrived = [] ∧ s.table.events = s.rest ∨
      s.table.events = (s.rest ++ s.arrived).rtake max_events)

/-- What is on the stream is the beginning of the batch, not all of it. -/
def Sent (codec : JsonCodec) (s : Delivery) : Prop :=
  ∃ k < (parsed_events codec s.drained).length,
    s.enqueued = (parsed_events codec s.drained).take k

/-- What has arrived, by where the drain loop stands. -/
def Place (codec : JsonCodec) (s : Delivery) : Prop :=
  match s.drain with
  | .sending events i =>
    events = s.drained ∧ s.arrived = s.pushed ∧ i < (parsed_events codec s.drained).length ∧
      s.enqueued = (parsed_events codec s.drained).take i
  | .requeueing events =>
    Sent codec s ∧ ∃ back, s.drained = back ++ events ∧ (s.pushed = [] → s.arrived = back)
  | .requeued =>
    Sent codec s ∧ (∃ event, s.drained.getLast? = some event ∧ s.arrived.getLast? = some event) ∧
      (s.pushed = [] → s.arrived = s.drained)
  | .delivered => True

/-- What holds all along a delivery. -/
structure Sound (codec : JsonCodec) (b : EventBuffer) (batch_size : ℕ) (s : Delivery) : Prop where
  drained : s.drained = b.bufferedEvents.take batch_size
  rest : s.rest = b.bufferedEvents.drop batch_size
  next : b.next ≤ s.next
  fresh : ∀ event ∈ s.pushed, b.next ≤ event.number
  window : Window b.max_events s
  place : Place codec s

theorem sound_tick (h : tick codec b batch_size = some s) : Sound codec b batch_size s := by
  obtain ⟨hparsed, rfl⟩ := tick_eq_some h
  exact ⟨rfl, rfl, le_rfl, nofun, ⟨rfl, .inl ⟨rfl, rfl⟩⟩, rfl, rfl,
    List.length_pos_iff.2 hparsed, rfl⟩

/-- A push keeps the rows the last that there were. -/
theorem Window.push {max_events : ℕ} (h : Window max_events s) (hrest : t.rest = s.rest)
    (htable : t.table = s.table.push event) (harrived : t.arrived = s.arrived ++ [event]) :
    Window max_events t := by
  obtain ⟨hmax, hwindow⟩ := h
  refine ⟨?_, .inr ?_⟩
  · rw [htable, EventTable.max_events_push, hmax]
  · rw [htable, hrest, harrived, EventTable.events_push, hmax, ← List.append_assoc]
    rcases hwindow with ⟨hnone, hevents⟩ | hevents
    · rw [hevents, hnone, List.append_nil]
    · rw [hevents, Fifo.rtake_rtake_append]

theorem sound_push {event_json : String} (h : Sound codec b batch_size s)
    (ht : s.push event_json = some t) : Sound codec b batch_size t := by
  obtain ⟨rfl, hdrain⟩ := push_eq_some ht
  refine ⟨h.drained, h.rest, Nat.le_succ_of_le h.next, fun event hevent => ?_,
    h.window.push rfl rfl rfl, ?_⟩
  · rcases List.mem_append.1 hevent with hevent | hevent
    · exact h.fresh event hevent
    · obtain rfl := List.mem_singleton.1 hevent
      exact h.next
  · have hplace := h.place
    have hpushed : s.pushed ++ [(⟨s.next, event_json⟩ : BufferedEvent)] ≠ [] := by simp
    unfold Place at hplace ⊢
    rcases hdrain with ⟨events, i, hdrain⟩ | ⟨events, hdrain⟩
    · rw [hdrain] at hplace ⊢
      obtain ⟨hevents, harrived, hi, henqueued⟩ := hplace
      exact ⟨hevents, by rw [harrived], hi, henqueued⟩
    · rw [hdrain] at hplace ⊢
      obtain ⟨hsent, back, hback, -⟩ := hplace
      exact ⟨hsent, back, hback, fun hnil => absurd hnil hpushed⟩

theorem sound_send (h : Sound codec b batch_size s) (ht : s.send codec = some t) :
    Sound codec b batch_size t := by
  obtain ⟨events, i, event, hdrain, hevent, rfl⟩ := send_eq_some ht
  refine ⟨h.drained, h.rest, h.next, h.fresh, h.window, ?_⟩
  have hplace := h.place
  unfold Place at hplace ⊢
  rw [hdrain] at hplace
  obtain ⟨rfl, harrived, hi, henqueued⟩ := hplace
  by_cases hlast : (parsed_events codec s.drained).length ≤ i + 1
  · simp only [if_pos hlast]
  · simp only [if_neg hlast]
    refine ⟨trivial, harrived, by omega, ?_⟩
    rw [henqueued, List.take_add_one, hevent]
    rfl

theorem sound_fail (h : Sound codec b batch_size s) (ht : s.fail = some t) :
    Sound codec b batch_size t := by
  obtain ⟨events, i, hdrain, rfl⟩ := fail_eq_some ht
  refine ⟨h.drained, h.rest, h.next, h.fresh, h.window, ?_⟩
  have hplace := h.place
  unfold Place at hplace ⊢
  rw [hdrain] at hplace
  obtain ⟨rfl, harrived, hi, henqueued⟩ := hplace
  exact ⟨⟨i, hi, henqueued⟩, [], rfl, fun hpushed => harrived.trans hpushed⟩

theorem sound_requeue (h : Sound codec b batch_size s) (ht : s.requeue = some t) :
    Sound codec b batch_size t := by
  obtain ⟨event, rest, hdrain, rfl⟩ := requeue_eq_some ht
  refine ⟨h.drained, h.rest, h.next, h.fresh, h.window.push rfl rfl rfl, ?_⟩
  have hplace := h.place
  unfold Place at hplace ⊢
  rw [hdrain] at hplace
  obtain ⟨hsent, back, hback, harrived⟩ := hplace
  by_cases hrest : rest = []
  · subst hrest
    simp only [if_true]
    refine ⟨hsent, ⟨event, ?_, List.getLast?_concat⟩, fun hpushed => ?_⟩
    · rw [hback, List.getLast?_concat]
    · rw [harrived hpushed, hback]
  · simp only [if_neg hrest]
    refine ⟨hsent, back ++ [event], ?_, fun hpushed => ?_⟩
    · rw [hback, List.append_assoc]
      rfl
    · rw [harrived hpushed]

theorem sound_step (h : Sound codec b batch_size s) (ht : (machine codec).step s a = some t) :
    Sound codec b batch_size t := by
  cases a with
  | push event_json => exact sound_push h ht
  | send => exact sound_send h ht
  | fail => exact sound_fail h ht
  | requeue => exact sound_requeue h ht

/-! ## What was pushed and sent -/

/-- Nothing has been pushed exactly when no step was a push. -/
theorem pushed_eq_nil_iff (hrun : (machine codec).run s l = some t) :
    t.pushed = [] ↔ s.pushed = [] ∧ ∀ event_json, .push event_json ∉ l := by
  induction l generalizing s with
  | nil => simp [← Option.some.inj hrun]
  | cons a l ih =>
    obtain ⟨u, hu, hrun⟩ := Machine.run_cons_eq_some.1 hrun
    rw [ih hrun]
    have hother : (∀ event_json, a ≠ .push event_json) →
        ((∀ event_json, .push event_json ∉ a :: l) ↔ ∀ event_json, .push event_json ∉ l) := by
      intro ha
      refine forall_congr' fun event_json => ?_
      rw [List.mem_cons, not_or]
      exact and_iff_right (ha event_json).symm
    cases a with
    | push event_json =>
      obtain ⟨rfl, -⟩ := push_eq_some hu
      exact iff_of_false (fun h => by simp at h) fun h => h.2 event_json List.mem_cons_self
    | send =>
      obtain ⟨events, i, event, -, -, rfl⟩ := send_eq_some hu
      rw [hother nofun]
    | fail =>
      obtain ⟨events, i, -, rfl⟩ := fail_eq_some hu
      rw [hother nofun]
    | requeue =>
      obtain ⟨event, rest, -, rfl⟩ := requeue_eq_some hu
      rw [hother nofun]

/-- As many events are on the stream as were sent. -/
theorem length_enqueued (hrun : (machine codec).run s l = some t) :
    t.enqueued.length = s.enqueued.length + l.count .send := by
  induction l generalizing s with
  | nil => rw [← Option.some.inj hrun, List.count_nil, Nat.add_zero]
  | cons a l ih =>
    obtain ⟨u, hu, hrun⟩ := Machine.run_cons_eq_some.1 hrun
    rw [ih hrun, List.count_cons]
    cases a with
    | push event_json =>
      obtain ⟨rfl, -⟩ := push_eq_some hu
      rfl
    | send =>
      obtain ⟨events, i, event, -, -, rfl⟩ := send_eq_some hu
      simp only [List.length_append, List.length_singleton, beq_self_eq_true, if_true]
      omega
    | fail =>
      obtain ⟨events, i, -, rfl⟩ := fail_eq_some hu
      rfl
    | requeue =>
      obtain ⟨event, rest, -, rfl⟩ := requeue_eq_some hu
      rfl

/-! ## The order of the events -/

theorem nodup_bufferedEvents (b : EventBuffer) : b.bufferedEvents.Nodup := by
  refine List.Pairwise.map _ (fun r r' hlt heq => ?_) b.increasing
  have hid := congrArg BufferedEvent.number heq
  exact absurd hid (Nat.ne_of_lt hlt)

theorem number_lt_next {event : BufferedEvent} (h : event ∈ b.bufferedEvents) :
    event.number < b.next := by
  obtain ⟨r, hr, rfl⟩ := List.mem_map.1 h
  exact b.below r hr

/-- What is sent lies past the cap exactly when it is no more than there is
past the cap to be sent. -/
theorem sent_past_iff {events : List BufferedEvent} (hnodup : events.Nodup) {k n : ℕ}
    (hk : k ≤ (parsed_events codec events).length) :
    (∀ event ∈ events.rtake n, event ∉ (parsed_events codec events).take k) ↔
      k ≤ (parsed_events codec (events.rdrop n)).length := by
  have hsplit : parsed_events codec events =
      parsed_events codec (events.rdrop n) ++ parsed_events codec (events.rtake n) := by
    rw [parsed_events, parsed_events, parsed_events, ← List.filter_append,
      Fifo.rdrop_append_rtake]
  rw [← Fifo.rdrop_append_rtake events n] at hnodup
  obtain ⟨-, -, hdisjoint⟩ := List.nodup_append.1 hnodup
  constructor
  · intro h
    by_contra hlt
    rw [not_le] at hlt
    rw [hsplit, List.length_append] at hk
    -- the first to be sent within the cap is sent
    obtain ⟨event, rest, hwithin⟩ := List.exists_cons_of_length_pos
      (show 0 < (parsed_events codec (events.rtake n)).length by omega)
    have hmem : event ∈ events.rtake n :=
      List.mem_of_mem_filter (hwithin ▸ List.mem_cons_self : event ∈ parsed_events codec _)
    refine h event hmem ?_
    rw [hsplit, hwithin, List.take_append, List.take_of_length_le (by omega)]
    refine List.mem_append_right _ ?_
    obtain ⟨j, hj⟩ := Nat.exists_eq_add_of_lt hlt
    rw [show k - (parsed_events codec (events.rdrop n)).length = j + 1 by omega]
    exact List.mem_cons_self
  · intro hle event hevent hsent
    rw [hsplit, List.take_append_of_le_length hle] at hsent
    have hpast : event ∈ events.rdrop n := List.mem_of_mem_filter (List.mem_of_mem_take hsent)
    exact hdisjoint event hpast event hevent rfl

/-- Where the last row is the last event of the batch, nothing was left and
nothing pushed. -/
theorem nothing_else (h : Sound codec b batch_size t) {kept : List BufferedEvent}
    (hlast : t.drained.getLast? = some event)
    (heq : (kept ++ t.rest ++ t.pushed).getLast? = some event) : t.rest = [] ∧ t.pushed = [] := by
  have hmem : event ∈ b.bufferedEvents.take batch_size :=
    h.drained ▸ List.mem_of_getLast? hlast
  have hpushed : t.pushed = [] := by
    by_contra hne
    have hevent : event ∈ t.pushed := by
      rw [List.getLast?_append, List.getLast?_eq_some_getLast hne, Option.some_or] at heq
      exact Option.some.inj heq ▸ List.getLast_mem hne
    -- what is pushed has a later number
    have hnew := h.fresh event hevent
    have hold := number_lt_next (List.mem_of_mem_take hmem)
    omega
  refine ⟨?_, hpushed⟩
  by_contra hne
  have hevent : event ∈ b.bufferedEvents.drop batch_size := by
    rw [hpushed, List.append_nil, List.getLast?_append, List.getLast?_eq_some_getLast hne,
      Option.some_or] at heq
    exact h.rest ▸ Option.some.inj heq ▸ List.getLast_mem hne
  have hnodup := nodup_bufferedEvents b
  rw [← List.take_append_drop batch_size b.bufferedEvents] at hnodup
  exact (List.nodup_append.1 hnodup).2.2 event hmem event hevent rfl

/-- **When a failed delivery leaves the queue as it was**: exactly when the cap
is zero, or nothing disturbs the delivery. -/
theorem leftAsItWas_iff (htick : tick codec b batch_size = some s)
    (hrun : (machine codec).run s l = some t) (hrequeued : t.drain = .requeued) :
    t.LeftAsItWas ↔ b.max_events = 0 ∨ Undisturbed codec b batch_size l := by
  have hsound : Sound codec b batch_size t :=
    Machine.run_preserves (fun s a t h ht => sound_step h ht) hrun (sound_tick htick)
  obtain ⟨hdrained, hrest, -, -, ⟨hmax, hwindow⟩, hplace⟩ := id hsound
  unfold Place at hplace
  rw [hrequeued] at hplace
  obtain ⟨⟨k, hk, henqueued⟩, ⟨event, hlast, harrived⟩, hquiet⟩ := hplace
  have hpushed : t.pushed = [] ↔ ∀ event_json, .push event_json ∉ l := by
    rw [pushed_eq_nil_iff hrun, (tick_eq_some htick).2]
    exact and_iff_right rfl
  have hsent : l.count .send = k := by
    have hlength := length_enqueued hrun
    rw [henqueued, List.length_take, (tick_eq_some htick).2] at hlength
    simp only [List.length_nil] at hlength
    omega
  have hevents : t.table.events = (t.rest ++ t.arrived).rtake b.max_events := by
    rcases hwindow with ⟨hnone, -⟩ | hevents
    · rw [hnone] at harrived
      cases harrived
    · exact hevents
  rw [LeftAsItWas, expected, hevents, hmax]
  rcases Nat.eq_zero_or_pos b.max_events with hzero | hpos
  · exact iff_of_true (by rw [hzero, List.rtake_zero, List.rtake_zero]) (.inl hzero)
  rw [or_iff_right (Nat.ne_of_gt hpos)]
  have hkept : t.rest = [] → t.pushed = [] →
      ((t.rest ++ t.arrived).rtake b.max_events =
          (t.drained.filter (fun event => event ∉ t.enqueued) ++ t.rest ++ t.pushed).rtake
            b.max_events ↔
        k ≤ (parsed_events codec (b.bufferedEvents.rdrop b.max_events)).length) := by
    intro hnone hpushed
    have hall : t.drained = b.bufferedEvents := by
      rw [hdrained, ← List.take_append_drop batch_size b.bufferedEvents, ← hrest, hnone,
        List.append_nil, List.take_take, min_self]
    rw [hnone, hpushed, List.nil_append, List.append_nil, List.append_nil, hquiet hpushed, eq_comm,
      Fifo.rtake_filter_eq_iff, henqueued, hall]
    simp only [decide_eq_true_eq]
    exact sent_past_iff (nodup_bufferedEvents b) (hall ▸ Nat.le_of_lt hk)
  have hwhole : t.rest = [] ↔ b.len ≤ batch_size := by
    rw [hrest, List.drop_eq_nil_iff, EventBuffer.bufferedEvents, List.length_map]
    rfl
  constructor
  · intro heq
    have hends := congrArg List.getLast? heq
    rw [Fifo.getLast?_rtake hpos, Fifo.getLast?_rtake hpos, List.getLast?_append, harrived,
      Option.some_or] at hends
    obtain ⟨hnone, hnopush⟩ := nothing_else hsound hlast hends.symm
    exact ⟨hwhole.1 hnone, hpushed.1 hnopush, hsent ▸ (hkept hnone hnopush).1 heq⟩
  · rintro ⟨hle, hnopush, hunsent⟩
    exact (hkept (hwhole.2 hle) (hpushed.2 hnopush)).2 (hsent ▸ hunsent)

/-- Two events wait, and a batch is one. -/
def twoWaiting : EventBuffer :=
  ((EventBuffer.new 1000).insert "\x7b\"a\":1\x7d").insert "\x7b\"a\":2\x7d"

theorem leftAsItWas_iff_twoWaiting : ∃ s t, tick JsonText.codec twoWaiting 1 = some s ∧
    (machine JsonText.codec).run s [.fail, .requeue] = some t ∧ t.drain = .requeued ∧
      (t.LeftAsItWas ↔ twoWaiting.max_events = 0 ∨
        Undisturbed JsonText.codec twoWaiting 1 [.fail, .requeue]) :=
  ⟨_, _, rfl, rfl, rfl, leftAsItWas_iff rfl rfl rfl⟩

/-- **The first of two events comes back behind the second** when there is no
stream to send it on. -/
theorem not_leftAsItWas_twoWaiting : ∃ s t, tick JsonText.codec twoWaiting 1 = some s ∧
    (machine JsonText.codec).run s [.fail, .requeue] = some t ∧ t.drain = .requeued ∧
      ¬t.LeftAsItWas :=
  ⟨_, _, rfl, rfl, rfl, by unfold LeftAsItWas; decide⟩

end Delivery

end AigisZero.Agent
