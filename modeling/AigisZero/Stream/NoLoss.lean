import AigisZero.Library.JsonText
import AigisZero.Stream.Tasks
import Mathlib.Data.List.TakeDrop

/-!
# What becomes of a pushed event

An event should stay in the buffer until its acknowledgement has come. The
drain loop deletes what it reads, before anything is sent, and nothing is
done when the acknowledgement comes. This file says which drains lose
nothing.
-/

namespace AigisZero.Stream

open Agent

/-- The texts a drain loop has in its hands. -/
def DrainPc.inHand : DrainPc → List String
  | idle => []
  | locking events _ => events
  | sending events _ _ => events
  | requeueing events => events

namespace AgentState

variable (codec : JsonCodec) (config : AgentConfig)

/-- The sequence number an event is sent under. -/
def sequenceOf (event : String) : Option String :=
  (codec.ofText event).map fun val => (protoEvent codec val).sequence_id

/-- The agent has the acknowledgement of an event. -/
def Acked (s : AgentState) (event : String) : Prop :=
  ∃ sequence_id, sequenceOf codec event = some sequence_id ∧ sequence_id ∈ s.acked

/-- The server has published an event of this sequence number. -/
def Published (s : AgentState) (sequence_id : String) : Prop :=
  ∃ event ∈ s.published, event.sequence_id = sequence_id

/-- **No event is lost**: a pushed event is in the buffer until it is
evicted or acknowledged, so that one that is neither evicted nor in the
buffer was published. -/
structure NoLoss (s : AgentState) : Prop where
  until_acked : ∀ event ∈ s.pushed,
    event ∈ s.evicted ∨ event ∈ s.buffer.payloads ∨ s.Acked codec event
  published : ∀ event ∈ s.pushed, event ∈ s.evicted ∨ event ∈ s.buffer.payloads ∨
    ∃ sequence_id, sequenceOf codec event = some sequence_id ∧ s.Published sequence_id

variable {codec config} {s t : AgentState} {a : AgentAction}

/-! ## The bookkeeping of a run -/

/-- **What holds of any run.** -/
structure Traced (s : AgentState) : Prop where
  buffered : ∀ event ∈ s.buffer.payloads, event ∈ s.pushed
  inHand : ∀ event ∈ s.drain.inHand, event ∈ s.pushed
  /-- An acknowledgement on its way is of a published event. -/
  acks : ∀ q ∈ s.current.acks, s.Published q
  acked : ∀ q ∈ s.acked, s.Published q

/-- A step that leaves the events alone: it may move what is in hand, and
what is on the wire. -/
structure Steady (s t : AgentState) : Prop where
  payloads : t.buffer.payloads = s.buffer.payloads
  pushed : t.pushed = s.pushed
  evicted : t.evicted = s.evicted
  acked : ∀ q ∈ s.acked, q ∈ t.acked
  newlyAcked : ∀ q ∈ t.acked, q ∈ s.acked ∨ q ∈ s.current.acks
  published : ∀ q, s.Published q → t.Published q
  inHand : ∀ event ∈ t.drain.inHand, event ∈ s.drain.inHand
  acks : ∀ q ∈ t.current.acks, q ∈ s.current.acks ∨ t.Published q

theorem Acked.mono {event : String} (h : s.Acked codec event)
    (hacked : ∀ q ∈ s.acked, q ∈ t.acked) :
    t.Acked codec event := by
  obtain ⟨q, hq, hmem⟩ := h
  exact ⟨q, hq, hacked q hmem⟩

/-- A step that leaves the lists and the connection as they are. -/
theorem steady_of_eq (hbuffer : t.buffer = s.buffer) (hpushed : t.pushed = s.pushed)
    (hevicted : t.evicted = s.evicted) (hacked : t.acked = s.acked)
    (hpublished : t.published = s.published) (hacks : ∀ q ∈ t.current.acks, q ∈ s.current.acks)
    (hhand : ∀ event ∈ t.drain.inHand, event ∈ s.drain.inHand) : Steady s t where
  payloads := by rw [hbuffer]
  pushed := hpushed
  evicted := hevicted
  acked q hq := hacked ▸ hq
  newlyAcked q hq := .inl (hacked ▸ hq)
  published q hq := by rwa [Published, hpublished]
  inHand := hhand
  acks q hq := .inl (hacks q hq)

/-- A step of a connection is steady. -/
theorem steady_currentStep {a : ConnectionAction} (ht : s.currentStep config a = some t) :
    Steady s t := by
  obtain ⟨c, published, hstep, rfl⟩ := currentStep_eq_some ht
  have hmoves := Connection.moves_of_step hstep
  refine ⟨rfl, rfl, rfl, fun _ => id, fun _ => .inl, fun q hq => ?_, fun _ => id, fun q hq => ?_⟩
  · obtain ⟨event, hevent, hid⟩ := hq
    exact ⟨event, List.mem_append_left _ hevent, hid⟩
  · refine (hmoves.acks q hq).imp_right fun hq => ?_
    obtain ⟨event, hevent, hid⟩ := List.mem_map.1 hq
    exact ⟨event, List.mem_append_right _ hevent, hid⟩

theorem steady_oldStep {i : ℕ} {a : ConnectionAction} (ht : s.oldStep config i a = some t) :
    Steady s t := by
  obtain ⟨c, c', published, -, -, rfl⟩ := oldStep_eq_some ht
  refine ⟨rfl, rfl, rfl, fun _ => id, fun _ => .inl, fun q hq => ?_, fun _ => id, fun _ => .inl⟩
  obtain ⟨event, hevent, hid⟩ := hq
  exact ⟨event, List.mem_append_left _ hevent, hid⟩

/-- An event that is sent stays in hand until the batch is done with. -/
theorem steady_sendEvent (ht : s.sendEvent codec = some t) : Steady s t := by
  obtain ⟨events, batch, i, val, hdrain, -, ⟨-, rfl⟩ | ⟨-, -, rfl⟩⟩ := sendEvent_eq_some ht
  · exact steady_of_eq rfl rfl rfl rfl rfl (fun _ => id) fun event he => hdrain ▸ he
  · exact steady_of_eq rfl rfl rfl rfl rfl (fun _ => id) fun event he => hdrain ▸ he

/-- The acknowledgement a poll takes was on its way. -/
theorem steady_poll (ht : s.poll = some t) : Steady s t := by
  obtain ⟨-, -, ⟨sequence_id, rest, hinbound, rfl⟩ | ⟨pc, -, rfl⟩⟩ := poll_eq_some ht
  · have hacks : ∀ q, q ∈ s.current.acks ↔ q = sequence_id ∨
        q ∈ Connection.acks { s.current with inbound := rest } := by
      intro q
      simp only [Connection.acks, hinbound, List.mem_append, List.mem_cons]
      exact or_left_comm
    refine ⟨rfl, rfl, rfl, fun q hq => List.mem_append_left _ hq, fun q hq => ?_, fun _ => id,
      fun _ => id, fun q hq => .inl ((hacks q).2 (.inr hq))⟩
    refine (List.mem_append.1 hq).imp_right fun hq => ?_
    exact (hacks q).2 (.inl (List.mem_singleton.1 hq))
  · exact steady_of_eq rfl rfl rfl rfl rfl (fun _ => id) fun _ => id

/-- A new connection has nothing on its way. -/
theorem steady_connected {ok : Bool} (ht : s.connected ok = some t) : Steady s t := by
  obtain ⟨-, rfl | rfl⟩ := connected_eq_some ht
  · exact steady_of_eq rfl rfl rfl rfl rfl (fun _ hq => absurd hq List.not_mem_nil) fun _ => id
  · exact steady_of_eq rfl rfl rfl rfl rfl (fun _ => id) fun _ => id

theorem steady_crash (s : AgentState) : Steady s s.crash :=
  steady_of_eq rfl rfl rfl rfl rfl (fun _ hq => absurd hq List.not_mem_nil)
    fun _ he => absurd he List.not_mem_nil

/-- **A step is steady, or one of the three that touch the buffer.** -/
theorem step_cases (ht : (machine codec config).step s a = some t) :
    (Steady s t ∧ ∀ fault, a ≠ .drainTick fault) ∨
      (∃ event_json fault, t = s.push event_json fault ∧ a = .push event_json fault) ∨
      (∃ fault, s.drainTick codec config fault = some t ∧ a = .drainTick fault) ∨
      ∃ fault, s.requeue fault = some t ∧ a = .requeue fault := by
  cases a with
  | push event_json fault => exact .inr (.inl ⟨event_json, fault, (Option.some.inj ht).symm, rfl⟩)
  | drainTick fault => exact .inr (.inr (.inl ⟨fault, ht, rfl⟩))
  | requeue fault => exact .inr (.inr (.inr ⟨fault, ht, rfl⟩))
  | sendEvent => exact .inl ⟨steady_sendEvent ht, by simp⟩
  | poll => exact .inl ⟨steady_poll ht, by simp⟩
  | connected ok => exact .inl ⟨steady_connected ht, by simp⟩
  | current a => exact .inl ⟨steady_currentStep ht, by simp⟩
  | old i a => exact .inl ⟨steady_oldStep ht, by simp⟩
  | crash =>
    obtain rfl := Option.some.inj ht
    exact .inl ⟨steady_crash s, by simp⟩
  | drainLock =>
    obtain ⟨events, batch, hdrain, -, rfl⟩ := drainLock_eq_some ht
    have hhand : ∀ event ∈ events, event ∈ s.drain.inHand := fun event he => hdrain ▸ he
    exact .inl ⟨steady_of_eq rfl rfl rfl rfl rfl (fun _ => id) hhand, by simp⟩
  | sendDone =>
    obtain ⟨events, batch, i, -, -, rfl⟩ := sendDone_eq_some ht
    exact .inl ⟨steady_of_eq rfl rfl rfl rfl rfl (fun _ => id)
      fun _ he => absurd he List.not_mem_nil, by simp⟩
  | requeueDone =>
    obtain ⟨-, rfl⟩ := requeueDone_eq_some ht
    exact .inl ⟨steady_of_eq rfl rfl rfl rfl rfl (fun _ => id)
      fun _ he => absurd he List.not_mem_nil, by simp⟩
  | heartbeatTick =>
    obtain ⟨-, rfl⟩ := heartbeatTick_eq_some ht
    exact .inl ⟨steady_of_eq rfl rfl rfl rfl rfl (fun _ => id) fun _ => id, by simp⟩
  | heartbeatLock =>
    obtain ⟨n, -, -, rfl⟩ := heartbeatLock_eq_some ht
    exact .inl ⟨steady_of_eq rfl rfl rfl rfl rfl (fun _ => id) fun _ => id, by simp⟩
  | heartbeatAnswer =>
    obtain ⟨n, -, rfl⟩ := heartbeatAnswer_eq_some ht
    exact .inl ⟨steady_of_eq rfl rfl rfl rfl rfl (fun _ => id) fun _ => id, by simp⟩
  | handle =>
    obtain ⟨sequence_id, -, rfl⟩ := handle_eq_some ht
    exact .inl ⟨steady_of_eq rfl rfl rfl rfl rfl (fun _ => id) fun _ => id, by simp⟩
  | wake =>
    obtain ⟨-, rfl⟩ := wake_eq_some ht
    exact .inl ⟨steady_of_eq rfl rfl rfl rfl rfl (fun _ => id) fun _ => id, by simp⟩
  | connectLock =>
    obtain ⟨-, -, rfl⟩ := connectLock_eq_some ht
    exact .inl ⟨steady_of_eq rfl rfl rfl rfl rfl (fun _ => id) fun _ => id, by simp⟩

/-! ## One step -/

/-- What is acknowledged is published, so the first half is all there is
to show. -/
theorem noLoss_of_until_acked (ht : t.Traced) (h : ∀ event ∈ t.pushed,
    event ∈ t.evicted ∨ event ∈ t.buffer.payloads ∨ t.Acked codec event) : NoLoss codec t where
  until_acked := h
  published event hevent := by
    refine (h event hevent).imp_right fun hkept => hkept.imp_right fun hacked => ?_
    obtain ⟨q, hq, hmem⟩ := hacked
    exact ⟨q, hq, ht.acked q hmem⟩

/-- A push keeps the bookkeeping. -/
theorem Traced.push (hs : s.Traced) {event_json : String} {fault : Option PushFault} :
    (s.push event_json fault).Traced := by
  rcases s.push_eq event_json fault with ⟨-, heq⟩ | ⟨b, k, hb, heq⟩
  · rw [heq]
    exact hs
  · rw [heq]
    refine ⟨fun event he => ?_, fun event he => List.mem_append_left _ (hs.inHand event he),
      hs.acks, hs.acked⟩
    have hmem : event ∈ s.buffer.payloads ++ [event_json] := List.mem_of_mem_drop (hb ▸ he)
    exact (List.mem_append.1 hmem).elim (fun h => List.mem_append_left _ (hs.buffered event h))
      (List.mem_append_right _)

/-- A drain keeps it: what leaves the buffer is in hand. -/
theorem Traced.drainTick (hs : s.Traced) {fault : Option String}
    (ht : s.drainTick codec config fault = some t) : t.Traced := by
  obtain ⟨-, ⟨-, rfl⟩ | ⟨-, b, hb, rfl⟩⟩ := drainTick_eq_some ht
  · exact hs
  · refine ⟨fun event he => hs.buffered event (List.mem_of_mem_drop (hb ▸ he)), fun event he => ?_,
      hs.acks, hs.acked⟩
    dsimp only at he
    split at he
    · cases he
    · exact hs.buffered event (List.mem_of_mem_take he)

/-- What is in hand goes back. -/
theorem Traced.requeue (hs : s.Traced) {fault : Option PushFault} (ht : s.requeue fault = some t) :
    t.Traced := by
  obtain ⟨event, rest, hdrain, hput⟩ := requeue_eq_some ht
  have hhand : ∀ e ∈ event :: rest, e ∈ s.pushed :=
    fun e he => hs.inHand e (by rw [hdrain]; exact he)
  rcases hput with rfl | ⟨b, k, hb, rfl⟩
  · exact ⟨hs.buffered, fun e he => hhand e (List.mem_cons_of_mem _ he), hs.acks, hs.acked⟩
  · refine ⟨fun e he => ?_, fun e he => hhand e (List.mem_cons_of_mem _ he), hs.acks, hs.acked⟩
    have hmem : e ∈ s.buffer.payloads ++ [event] := List.mem_of_mem_drop (hb ▸ he)
    rcases List.mem_append.1 hmem with h | h
    · exact hs.buffered e h
    · exact hhand e (List.mem_singleton.1 h ▸ List.mem_cons_self)

/-- What an insertion with eviction loses, it evicts. -/
theorem mem_take_or_drop {event : String} {l : List String} (k : ℕ) (h : event ∈ l) :
    event ∈ l.take k ∨ event ∈ l.drop k := by
  rw [← List.take_append_drop k l] at h
  exact List.mem_append.1 h

/-- A push loses nothing: what leaves the buffer is evicted. -/
theorem NoLoss.push (hs : NoLoss codec s) (htraced : s.Traced) {event_json : String}
    {fault : Option PushFault} : NoLoss codec (s.push event_json fault) := by
  refine noLoss_of_until_acked htraced.push ?_
  rcases s.push_eq event_json fault with ⟨-, heq⟩ | ⟨b, k, hb, heq⟩
  · rw [heq]
    exact hs.until_acked
  · simp only [heq, hb]
    have hnew : ∀ event ∈ s.buffer.payloads ++ [event_json],
        event ∈ s.evicted ++ (s.buffer.payloads ++ [event_json]).take k ∨
          event ∈ (s.buffer.payloads ++ [event_json]).drop k := fun event h =>
      (mem_take_or_drop k h).imp_left (List.mem_append_right _)
    intro event hevent
    rcases List.mem_append.1 hevent with hevent | hevent
    · rcases hs.until_acked event hevent with h | h | h
      · exact .inl (List.mem_append_left _ h)
      · exact (hnew event (List.mem_append_left _ h)).imp_right .inl
      · exact .inr (.inr h)
    · exact (hnew event (List.mem_append_right _ hevent)).imp_right .inl

/-- So does putting an event back. -/
theorem NoLoss.requeue (hs : NoLoss codec s) (htraced : s.Traced) {fault : Option PushFault}
    (ht : s.requeue fault = some t) : NoLoss codec t := by
  refine noLoss_of_until_acked (htraced.requeue ht) ?_
  obtain ⟨event, rest, -, rfl | ⟨b, k, hb, rfl⟩⟩ := requeue_eq_some ht
  · exact hs.until_acked
  · simp only [hb]
    intro e hevent
    rcases hs.until_acked e hevent with h | h | h
    · exact .inl (List.mem_append_left _ h)
    · exact ((mem_take_or_drop k (List.mem_append_left [event] h)).imp_left
        (List.mem_append_right _)).imp_right .inl
    · exact .inr (.inr h)

/-- An agent that drains ten events at a time. -/
def tenAtATime : AgentConfig := ⟨1000, 10, ⟨8, 8, by decide, by decide⟩⟩

/-- The text of an event. -/
def anEvent : String := JsonText.codec.toText (Json.object [("sequence_id", .str "s1")])

end AgentState

end AigisZero.Stream
