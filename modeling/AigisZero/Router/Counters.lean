import AigisZero.Library.JsonText
import AigisZero.Library.Machine
import AigisZero.Router.Route
import Mathlib.Algebra.Order.BigOperators.Group.List
import Mathlib.Algebra.Order.Ring.Nat

/-!
# What the counters of the router say

The router counts a message as it takes it up, and counts its record as
routed before the record is handed to the broker. So the counters account
for what the broker acknowledged as long as it acknowledges every record,
and no longer.
-/

namespace AigisZero.Router

/-- The topics a record can be routed to. -/
def topics : List String := dlq :: typedTopics

/-- The routed counter of a topic. -/
def PipelineMetrics.counter (m : PipelineMetrics) (target_topic : String) : UInt64 :=
  match target_topic with
  | "aigis.events.process" => m.events_routed_process
  | "aigis.events.network" => m.events_routed_network
  | "aigis.events.file" => m.events_routed_file
  | "aigis.events.auth" => m.events_routed_auth
  | _ => m.events_routed_dlq

/-- The router between two messages: its counters, and the records that
the broker acknowledged of each message processed, oldest first. -/
structure Tally where
  metrics : PipelineMetrics
  reached : List (List Record)

namespace Tally

/-- Nothing processed. -/
def new : Tally := ⟨.new, []⟩

/-- How many records the broker acknowledged on a topic. -/
def acknowledged (s : Tally) (topic : String) : ℕ :=
  s.reached.flatten.countP (·.topic = topic)

/-- How many messages reached no topic. -/
def lost (s : Tally) : ℕ := s.reached.countP (·.isEmpty)

variable (codec : JsonCodec)

/-- A message processed, and what the broker answers to its record. -/
def receive (s : Tally) (msg : RawMessage) (sent : Except String Unit) : Tally where
  metrics := (process codec msg s.metrics sent).2
  reached := s.reached ++
    [match sent with
      | .ok () => [(routed codec msg s.metrics).1]
      | .error _ => []]

/-- **The router, message after message.** -/
def machine : Machine Tally (RawMessage × Except String Unit) where
  step s a := some (s.receive codec a.1 a.2)

end Tally

/-- **The counters account for the deliveries**: for the messages
processed, for the records acknowledged on each topic, and so, between
them, for the messages that reached no topic. -/
structure Accounts (s : Tally) : Prop where
  consumed : s.metrics.events_consumed.toNat = s.reached.length
  routed : ∀ topic ∈ topics, (s.metrics.counter topic).toNat = s.acknowledged topic
  unreached : (s.metrics.events_consumed.toNat : ℤ) -
    ((topics.map fun topic => (s.metrics.counter topic).toNat).sum : ℕ) = s.lost

/-! ## One message -/

section Message

variable {codec : JsonCodec} {m : PipelineMetrics} {msg : RawMessage} {topic target : String}

theorem counter_inc_routed (htopic : topic ∈ topics) (htarget : target ∈ topics) :
    (m.inc_routed target).counter topic =
      if topic = target then m.counter topic + 1 else m.counter topic := by
  simp only [topics, dlq, typedTopics, List.mem_cons, List.not_mem_nil, or_false] at htopic htarget
  rcases htopic with rfl | rfl | rfl | rfl | rfl <;>
    rcases htarget with rfl | rfl | rfl | rfl | rfl <;> rfl

theorem consumed_inc_routed (target : String) :
    (m.inc_routed target).events_consumed = m.events_consumed := by
  unfold PipelineMetrics.inc_routed
  split <;> rfl

/-- **A message is counted as consumed, and its record as routed**, before
anything is known of the record. -/
theorem routed_metrics (codec : JsonCodec) (msg : RawMessage) (m : PipelineMetrics) :
    (routed codec msg m).2.1 = (m.inc_consumed.inc_errors).inc_routed (routed codec msg m).1.topic ∨
      (routed codec msg m).2.1 = m.inc_consumed.inc_routed (routed codec msg m).1.topic := by
  unfold routed
  cases codec.fromSlice msg.payload with
  | none => exact Or.inl rfl
  | some event =>
    right
    dsimp only
    split
    · next h =>
        rw [h]
        rfl
    · rfl

/-- What the broker answers changes no counter. -/
theorem process_metrics (sent : Except String Unit) :
    (process codec msg m sent).2 = (routed codec msg m).2.1 := by
  cases sent <;> rfl

theorem consumed_process (sent : Except String Unit) :
    (process codec msg m sent).2.events_consumed = m.events_consumed + 1 := by
  rw [process_metrics]
  rcases routed_metrics codec msg m with h | h <;>
    rw [h, consumed_inc_routed] <;> rfl

theorem counter_process (codec : JsonCodec) (msg : RawMessage) (sent : Except String Unit)
    (htopic : topic ∈ topics) :
    (process codec msg m sent).2.counter topic =
      if topic = (routed codec msg m).1.topic then m.counter topic + 1 else m.counter topic := by
  have htarget : (routed codec msg m).1.topic ∈ topics := routed_topic msg m
  rw [process_metrics]
  rcases routed_metrics codec msg m with h | h <;>
    rw [h, counter_inc_routed htopic htarget] <;> rfl

end Message

/-! ## One step of the tally -/

namespace Tally

variable {codec : JsonCodec} {s t : Tally} {msg : RawMessage} {sent : Except String Unit}
  {topic : String}

theorem length_receive : (s.receive codec msg sent).reached.length = s.reached.length + 1 :=
  List.length_append

theorem acknowledged_receive_ok :
    (s.receive codec msg (.ok ())).acknowledged topic =
      s.acknowledged topic + if topic = (routed codec msg s.metrics).1.topic then 1 else 0 := by
  simp only [acknowledged, receive, List.flatten_append, List.countP_append, List.flatten_cons,
    List.flatten_nil, List.append_nil, List.countP_singleton, decide_eq_true_eq]
  simp only [eq_comm]

theorem acknowledged_receive_error {err : String} :
    (s.receive codec msg (.error err)).acknowledged topic = s.acknowledged topic := by
  simp only [acknowledged, receive, List.flatten_append, List.flatten_cons, List.flatten_nil,
    List.append_nil]

/-- Of each message the broker acknowledged one record, on a topic, or none. -/
def OneRecord (s : Tally) : Prop :=
  ∀ records ∈ s.reached, records = [] ∨ ∃ record, records = [record] ∧ record.topic ∈ topics

theorem oneRecord_receive (hs : s.OneRecord) : (s.receive codec msg sent).OneRecord := by
  intro records hmem
  rcases List.mem_append.1 hmem with hmem | hmem
  · exact hs records hmem
  · obtain rfl := List.mem_singleton.1 hmem
    cases sent with
    | error err => exact Or.inl rfl
    | ok u => exact Or.inr ⟨_, rfl, routed_topic msg s.metrics⟩

/-- A record on a topic is on one of them. -/
theorem sum_topics_eq_one (h : topic ∈ topics) :
    (topics.map fun target => if topic = target then 1 else 0).sum = 1 := by
  simp only [topics, dlq, typedTopics, List.mem_cons, List.not_mem_nil, or_false] at h
  rcases h with rfl | rfl | rfl | rfl | rfl <;> decide

/-- **What reached a topic and what reached none** is all that was
processed. -/
theorem sum_acknowledged_add_lost (hs : s.OneRecord) :
    (topics.map s.acknowledged).sum + s.lost = s.reached.length := by
  obtain ⟨metrics, reached⟩ := s
  unfold OneRecord at hs
  unfold acknowledged lost
  dsimp only at hs ⊢
  induction reached with
  | nil => decide
  | cons records reached ih =>
    have hrest := ih fun rs hmem => hs rs (List.mem_cons_of_mem _ hmem)
    rcases hs records List.mem_cons_self with rfl | ⟨record, rfl, htopic⟩
    · have hcons : (([] : List Record) :: reached).countP (·.isEmpty) =
          reached.countP (·.isEmpty) + 1 := List.countP_cons_of_pos rfl
      rw [List.flatten_cons, List.nil_append, hcons, List.length_cons, ← hrest]
      exact (Nat.add_assoc _ _ _).symm
    · have hcons : ([record] :: reached).countP (·.isEmpty) = reached.countP (·.isEmpty) :=
        List.countP_cons_of_neg Bool.false_ne_true
      have hsplit : ∀ target, ([record] :: reached).flatten.countP (·.topic = target) =
          reached.flatten.countP (·.topic = target) + if record.topic = target then 1 else 0 := by
        intro target
        rw [List.flatten_cons, List.singleton_append, List.countP_cons]
        simp only [decide_eq_true_eq]
      rw [hcons, List.length_cons, ← hrest]
      simp only [hsplit, List.sum_map_add]
      rw [sum_topics_eq_one htopic]
      omega

theorem sum_counters
    (h : ∀ topic ∈ topics, (s.metrics.counter topic).toNat = s.acknowledged topic) :
    (topics.map fun topic => (s.metrics.counter topic).toNat).sum =
      (topics.map s.acknowledged).sum :=
  congrArg List.sum (List.map_congr_left h)

end Tally

/-! ## What a message does to the accounts -/

section Accounts

variable {codec : JsonCodec} {s t : Tally} {msg : RawMessage} {sent : Except String Unit}
  {l : List (RawMessage × Except String Unit)}

/-- The counters that are right on their own are right together. -/
theorem accounts_of (hs : s.OneRecord)
    (hconsumed : s.metrics.events_consumed.toNat = s.reached.length)
    (hrouted : ∀ topic ∈ topics, (s.metrics.counter topic).toNat = s.acknowledged topic) :
    Accounts s := by
  refine ⟨hconsumed, hrouted, ?_⟩
  have hall := s.sum_acknowledged_add_lost hs
  have hsum := s.sum_counters hrouted
  omega

/-- No counter runs ahead of the messages. -/
theorem Accounts.counter_le (h : Accounts s) (hs : s.OneRecord) {topic : String}
    (htopic : topic ∈ topics) : (s.metrics.counter topic).toNat ≤ s.reached.length := by
  have hall := s.sum_acknowledged_add_lost hs
  have hle : s.acknowledged topic ≤ (topics.map s.acknowledged).sum :=
    List.le_sum_of_mem (List.mem_map_of_mem htopic)
  have hrouted := h.routed topic htopic
  omega

theorem toNat_succ {n : UInt64} (h : n.toNat + 1 < 2 ^ 64) : (n + 1).toNat = n.toNat + 1 := by
  rw [UInt64.toNat_add]
  exact Nat.mod_eq_of_lt h

/-- **A message keeps the accounts exactly when the broker acknowledges its
record**, short of the last number a counter can hold. -/
theorem accounts_receive_iff (hs : s.OneRecord) (h : Accounts s) :
    Accounts (s.receive codec msg sent) ↔ sent = .ok () ∧ s.reached.length + 1 < 2 ^ 64 := by
  have htarget : (routed codec msg s.metrics).1.topic ∈ topics := routed_topic msg s.metrics
  constructor
  · intro ht
    have hnew := ht.consumed
    have hlt : ((s.receive codec msg sent).metrics.events_consumed).toNat < 2 ^ 64 :=
      UInt64.toNat_lt _
    rw [Tally.length_receive] at hnew
    refine ⟨?_, by omega⟩
    cases sent with
    | ok u => rfl
    | error err =>
      -- the counter of the record's topic moved, and what was acknowledged there did not
      have hcount := ht.routed _ htarget
      rw [Tally.acknowledged_receive_error, ← h.routed _ htarget] at hcount
      have hmoved := counter_process codec msg (m := s.metrics) (.error err) htarget
      rw [if_pos rfl] at hmoved
      have hbound := h.counter_le hs htarget
      have hsucc := toNat_succ (n := s.metrics.counter (routed codec msg s.metrics).1.topic)
        (by omega)
      rw [← hmoved] at hsucc
      have hsame : (process codec msg s.metrics (.error err)).2 =
        (s.receive codec msg (.error err)).metrics := rfl
      rw [hsame] at hsucc
      omega
  · rintro ⟨rfl, hlt⟩
    refine accounts_of (Tally.oneRecord_receive hs) ?_ ?_
    · have hmoved : (s.receive codec msg (.ok ())).metrics.events_consumed =
          s.metrics.events_consumed + 1 := consumed_process _
      have hconsumed := h.consumed
      rw [hmoved, Tally.length_receive, toNat_succ (by omega)]
      omega
    · intro topic htopic
      have hmoved : (s.receive codec msg (.ok ())).metrics.counter topic = _ :=
        counter_process codec msg (.ok ()) htopic
      have hrouted := h.routed topic htopic
      have hbound := h.counter_le hs htopic
      rw [hmoved, Tally.acknowledged_receive_ok]
      split
      · rw [toNat_succ (by omega), hrouted]
      · exact hrouted

/-- A message whose record the broker acknowledges, while the counters can
still count. -/
def Delivered (s : Tally) (a : RawMessage × Except String Unit) : Prop :=
  a.2 = .ok () ∧ s.reached.length + 1 < 2 ^ 64

theorem everyStep_delivered_iff (hs : s.reached.length < 2 ^ 64) :
    (Tally.machine codec).EveryStep Delivered s l ↔
      (∀ a ∈ l, a.2 = .ok ()) ∧ s.reached.length + l.length < 2 ^ 64 := by
  induction l generalizing s with
  | nil => exact iff_of_true trivial ⟨fun a ha => absurd ha List.not_mem_nil, hs⟩
  | cons a l ih =>
    have hlength : (s.receive codec a.1 a.2).reached.length = s.reached.length + 1 :=
      Tally.length_receive
    rw [List.forall_mem_cons, List.length_cons]
    constructor
    · rintro ⟨⟨hok, hlt⟩, hrest⟩
      have hl := (ih (by omega)).1 (hrest _ rfl)
      exact ⟨⟨hok, hl.1⟩, by omega⟩
    · rintro ⟨⟨hok, hall⟩, hlt⟩
      refine Machine.everyStep_cons rfl ⟨hok, by omega⟩ ?_
      exact (ih (by omega)).2 ⟨hall, by omega⟩

/-- **The counters account for the deliveries at every message boundary
exactly when no send fails**, up to the last number they can hold. -/
theorem counters_account_iff (codec : JsonCodec) (l : List (RawMessage × Except String Unit)) :
    (Tally.machine codec).Always Accounts .new l ↔
      (∀ a ∈ l, a.2 = .ok ()) ∧ l.length < 2 ^ 64 := by
  have hnew : Tally.new.OneRecord := fun records hmem => absurd hmem List.not_mem_nil
  have hstart : Accounts .new := accounts_of hnew rfl (by decide)
  obtain ⟨t, hrun⟩ := (Tally.machine codec).exists_run_of_total (fun s a => ⟨_, rfl⟩) .new l
  have hkey : (Tally.machine codec).Always Accounts .new l ↔
      (Tally.machine codec).EveryStep Delivered .new l := by
    refine Machine.always_iff_everyStep (I := Tally.OneRecord) ?_ ?_ hnew hstart hrun
    · intro s a t hs ht
      obtain rfl := Option.some.inj ht
      exact Tally.oneRecord_receive hs
    · intro s a t hs hP ht
      obtain rfl := Option.some.inj ht
      exact accounts_receive_iff hs hP
  have hlength : Tally.new.reached.length = 0 := rfl
  rw [hkey, everyStep_delivered_iff (by decide), hlength, Nat.zero_add]

/-- A file event that the broker does not take. -/
def refused : RawMessage × Except String Unit :=
  ({ key := none
     payload := utf8 "\x7b\"event_type\":\"file\"\x7d"
     topic := "aigis.events.raw"
     partition := 0
     offset := 0 }, .error "Message timed out")

/-- **A record the broker refused is counted as routed.** -/
theorem refused_record_counted :
    ¬ (Tally.machine JsonText.codec).Always Accounts .new [refused] := by
  intro h
  have hrouted := (h.2 _ rfl).routed "aigis.events.file" (by decide)
  exact absurd hrouted (by decide)

end Accounts

end AigisZero.Router
