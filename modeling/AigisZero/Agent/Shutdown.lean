import AigisZero.Agent.Delivery
import AigisZero.Agent.Wire
import Mathlib.Data.Finset.Card
import Mathlib.Order.Interval.Finset.Nat

/-!
# What a shutdown of the agent loses

The scheduler puts results on a channel, and the polling task of the core
takes them off it and pushes them into the buffer. The core has a token on
which the polling task pushes what is left on the channel before it leaves.
On the termination signal `main` returns, and the tasks end wherever they
are. The statements of the buffer succeed here.
-/

namespace AigisZero.Agent

/-- The room of the result channel. -/
def RESULTS : ℕ := 100

/-- What the polling task is at. -/
inductive PollingPc where
  /-- At its `select!`. -/
  | selecting
  /-- Its token has fired: pushing what is on the channel. -/
  | draining
  | exited
deriving DecidableEq, Repr

/-- Where the drain loop stands. -/
inductive DrainPc where
  | idle
  | sending (events : List BufferedEvent)
  | requeueing (events : List BufferedEvent)

/-- The agent from the results to the buffer. Results are numbered in the
order in which the channel takes them. -/
structure AgentTasks where
  channel : List (ℕ × OsqueryResult)
  polling : PollingPc
  /-- The event of the result the polling task is at. -/
  hand : Option BufferedEvent
  table : EventTable
  drain : DrainPc
  /-- The token of `AgentCore` has been cancelled. -/
  shutdown : Bool
  signalled : Bool
  exited : Bool
  /-- The number of the first result, and of the next. -/
  first : ℕ
  next : ℕ
  /-- The number of the next result when the signal came. -/
  next_at_signal : ℕ
  /-- The events that have ever been drained. -/
  drained : List BufferedEvent

/-- What can happen. -/
inductive AgentTasksAction where
  /-- The scheduler puts a result on the channel. -/
  | collect (result : OsqueryResult)
  /-- The polling task takes a result, and makes an event of it. -/
  | receive (drawn : Uuid)
  /-- It pushes the event. -/
  | push
  /-- It sees that its token has fired. -/
  | cancelled
  /-- It finds the channel empty, and leaves. -/
  | drainedDry
  /-- A tick of the drain loop. -/
  | drainTick
  | sent
  | sendFails
  | requeue
  | requeueDone
  /-- The termination signal. -/
  | ctrl_c
  /-- `main` has returned, and the process ends. -/
  | exit

namespace AgentTasks

variable (text : UuidText) (codec : JsonCodec) (batch_size : ℕ)

/-- An agent that has just started, with the buffer it found. -/
def init (b : EventBuffer) : AgentTasks where
  channel := []
  polling := .selecting
  hand := none
  table := .ofBuffer b
  drain := .idle
  shutdown := false
  signalled := false
  exited := false
  first := b.next
  next := b.next
  next_at_signal := b.next
  drained := []

/-- The channel takes a result, where it has room. -/
def collect (s : AgentTasks) (result : OsqueryResult) : Option AgentTasks :=
  if s.channel.length < RESULTS then
    some { s with channel := s.channel ++ [(s.next, result)], next := s.next + 1 }
  else none

/-- The polling task takes a result off the channel. Its `select!` looks at
the token first. -/
def receive (s : AgentTasks) (drawn : Uuid) : Option AgentTasks :=
  if s.polling = .draining ∨ s.polling = .selecting ∧ s.shutdown = false then
    match s.hand, s.channel with
    | none, (number, result) :: rest =>
      some { s with
        channel := rest
        hand := (encode_osquery_result text codec result drawn).map fun event_json =>
          ⟨number, event_json⟩ }
    | _, _ => none
  else none

/-- `EventBuffer::push`, by the polling task. -/
def push (s : AgentTasks) : Option AgentTasks :=
  match s.hand with
  | some event => some { s with table := s.table.push event, hand := none }
  | none => none

/-- The polling task sees its token. -/
def cancelled (s : AgentTasks) : Option AgentTasks :=
  if s.shutdown ∧ s.polling = .selecting ∧ s.hand = none then
    some { s with polling := .draining }
  else none

/-- The polling task has pushed all there was on the channel. -/
def drainedDry (s : AgentTasks) : Option AgentTasks :=
  if s.polling = .draining ∧ s.hand = none ∧ s.channel = [] then
    some { s with polling := .exited }
  else none

/-- A tick of the drain loop. -/
def drainTick (s : AgentTasks) : Option AgentTasks :=
  match s.drain with
  | .idle =>
    let (events, table) := s.table.drain batch_size
    some { s with
      table := table
      drain := if Delivery.parsed_events codec events = [] then .idle else .sending events
      drained := s.drained ++ events }
  | _ => none

/-- `send_events` returns `Ok`. -/
def sent (s : AgentTasks) : Option AgentTasks :=
  match s.drain with
  | .sending _ => some { s with drain := .idle }
  | _ => none

/-- `send_events` returns an error. -/
def sendFails (s : AgentTasks) : Option AgentTasks :=
  match s.drain with
  | .sending events => some { s with drain := .requeueing events }
  | _ => none

/-- The drain loop pushes an event back. -/
def requeue (s : AgentTasks) : Option AgentTasks :=
  match s.drain with
  | .requeueing (event :: rest) =>
    some { s with table := s.table.push event, drain := .requeueing rest }
  | _ => none

/-- All events are back. -/
def requeueDone (s : AgentTasks) : Option AgentTasks :=
  match s.drain with
  | .requeueing [] => some { s with drain := .idle }
  | _ => none

/-- The termination signal. `main` returns on it; it holds no clone of the
token of the core. -/
def ctrl_c (s : AgentTasks) : Option AgentTasks :=
  if s.signalled then none else some { s with signalled := true, next_at_signal := s.next }

/-- The process ends: of the buffer alone something is left. A push that is
under way at the database is waited for, so it has been made. -/
def exit (s : AgentTasks) : Option AgentTasks :=
  if s.signalled then
    some { s with exited := true, channel := [], hand := none, drain := .idle }
  else none

/-- **The tasks of the agent as a machine**, until the process ends. -/
def machine : Machine AgentTasks AgentTasksAction where
  step s a :=
    if s.exited then none
    else match a with
      | .collect result => s.collect result
      | .receive drawn => s.receive text codec drawn
      | .push => s.push
      | .cancelled => s.cancelled
      | .drainedDry => s.drainedDry
      | .drainTick => s.drainTick codec batch_size
      | .sent => s.sent
      | .sendFails => s.sendFails
      | .requeue => s.requeue
      | .requeueDone => s.requeueDone
      | .ctrl_c => s.ctrl_c
      | .exit => s.exit

/-- **The results are kept**: each that the channel took before the signal is
in the buffer, or was drained from it. -/
def KeepsCollected (s : AgentTasks) : Prop :=
  ∀ number, s.first ≤ number → number < s.next_at_signal →
    ∃ event ∈ s.table.events ++ s.drained, event.number = number

/-- The results that are to be kept: all so far, or all before the signal. -/
def limit (s : AgentTasks) : ℕ := if s.signalled then s.next_at_signal else s.next

/-- The event that a push would be of. -/
def pushed (s : AgentTasks) : AgentTasksAction → Option BufferedEvent
  | .push => s.hand
  | .requeue =>
    match s.drain with
    | .requeueing (event :: _) => some event
    | _ => none
  | _ => none

/-- **A step loses nothing**: a push evicts no result from before the signal
that was never drained, and the process ends when none is on the channel or
in the hand of the polling task. -/
def LosesNothing (s : AgentTasks) (a : AgentTasksAction) : Prop :=
  (∀ event, s.pushed a = some event →
    ∀ evicted ∈ (s.table.events ++ [event]).rdrop s.table.buffer.max_events,
      (∃ event ∈ s.drained, event.number = evicted.number) ∨ s.limit ≤ evicted.number ∨
        evicted.number < s.first) ∧
    (a = .exit → (∀ entry ∈ s.channel, s.next_at_signal ≤ entry.1) ∧
      ∀ event ∈ s.hand, s.next_at_signal ≤ event.number)

/-! ## Where the results are -/

/-- The numbers of some events. -/
def numbers (events : List BufferedEvent) : List ℕ := events.map (·.number)

/-- The numbers of the results that are not in the buffer yet. -/
def outside (s : AgentTasks) : List ℕ := numbers s.hand.toList ++ s.channel.map (·.1)

/-- The numbers of all there is. -/
def places (s : AgentTasks) : List ℕ := numbers (s.drained ++ s.table.events) ++ s.outside

/-- The results of this run that are nowhere, and should be somewhere. -/
def lost (s : AgentTasks) : Finset ℕ := (Finset.Ico s.first s.limit).filter (· ∉ s.places)

/-- The events that were never drained. -/
def undrained (s : AgentTasks) (events : List BufferedEvent) : List BufferedEvent :=
  events.filter fun event => event.number ∉ numbers s.drained

/-- What is read off the list of the events that the drain loop holds. -/
def inFlight (s : AgentTasks) : List BufferedEvent :=
  match s.drain with
  | .idle => []
  | .sending events => events
  | .requeueing events => events

/-- **What every state keeps**: the results that were never drained stand in
the order they were taken in, through the buffer, the hand of the polling
task and the channel. No one cancels the token. -/
structure Ordered (s : AgentTasks) : Prop where
  increasing : (numbers (s.undrained s.table.events) ++ s.outside).Pairwise (· < ·)
  below : ∀ n ∈ numbers (s.undrained s.table.events) ++ s.outside, n < s.next
  drained_below : ∀ n ∈ numbers s.drained, n < s.next
  fresh : ∀ n ∈ s.outside, s.first ≤ n ∧ n ∉ numbers s.drained
  started : s.first ≤ s.next
  inFlight : ∀ event ∈ s.inFlight, event.number ∈ numbers s.drained
  shutdown : s.shutdown = false
  polling : s.polling = .selecting
  signal : s.signalled → s.next_at_signal ≤ s.next

variable {text codec batch_size} {s t : AgentTasks} {b : EventBuffer} {a : AgentTasksAction}
  {l : List AgentTasksAction} {event : BufferedEvent} {n : ℕ}

theorem mem_numbers {events : List BufferedEvent} :
    n ∈ numbers events ↔ ∃ event ∈ events, event.number = n := List.mem_map

@[simp] theorem numbers_append (events events' : List BufferedEvent) :
    numbers (events ++ events') = numbers events ++ numbers events' := List.map_append

@[simp] theorem numbers_singleton (event : BufferedEvent) : numbers [event] = [event.number] := rfl

theorem mem_lost : n ∈ s.lost ↔ (s.first ≤ n ∧ n < s.limit) ∧ n ∉ s.places := by
  rw [lost, Finset.mem_filter, Finset.mem_Ico]

/-- **What a step loses** that brings nothing new: what is in no place any
more. -/
theorem lost_of_subset (hfirst : t.first = s.first) (hlimit : t.limit = s.limit)
    (hsub : ∀ n ∈ t.places, n ∈ s.places) :
    s.lost ⊆ t.lost ∧
      (t.lost = s.lost ↔ ∀ n ∈ s.places, n ∉ t.places → s.limit ≤ n ∨ n < s.first) := by
  have hle : s.lost ⊆ t.lost := by
    intro n hn
    obtain ⟨hrange, hplace⟩ := mem_lost.1 hn
    exact mem_lost.2 ⟨by rwa [hfirst, hlimit], mt (hsub n) hplace⟩
  refine ⟨hle, fun heq n hn hgone => ?_, fun h => Finset.Subset.antisymm (fun n hn => ?_) hle⟩
  · by_contra hrange
    have hlost : n ∈ t.lost := mem_lost.2 ⟨⟨by omega, by omega⟩, hgone⟩
    exact (mem_lost.1 (heq ▸ hlost)).2 hn
  · obtain ⟨hrange, hgone⟩ := mem_lost.1 hn
    rw [hfirst, hlimit] at hrange
    refine mem_lost.2 ⟨hrange, fun hplace => ?_⟩
    rcases h n hplace hgone with hlimit | hfirst <;> omega

/-- A step that moves the results about loses none. -/
theorem lost_of_places (hfirst : t.first = s.first) (hlimit : t.limit = s.limit)
    (hplaces : ∀ n, n ∈ t.places ↔ n ∈ s.places) : t.lost = s.lost :=
  (lost_of_subset hfirst hlimit fun n => (hplaces n).1).2.2 fun n hn hgone =>
    absurd ((hplaces n).2 hn) hgone

/-- An event whose result was never drained is among those that never were. -/
theorem mem_undrained {events : List BufferedEvent} (hevent : event ∈ events)
    (hfresh : event.number ∉ numbers s.drained) :
    event.number ∈ numbers (s.undrained events) :=
  mem_numbers.2 ⟨event, List.mem_filter.2 ⟨hevent, decide_eq_true hfresh⟩, rfl⟩

/-- **What an eviction loses**: the events it evicts that were never drained,
and no other; for each stands in one place. -/
theorem evicted_iff {events : List BufferedEvent} {others : List ℕ} {Q : ℕ → Prop} {cap : ℕ}
    (h : (numbers (s.undrained events) ++ others).Pairwise (· < ·)) :
    (∀ n ∈ numbers (s.drained ++ events) ++ others,
      n ∉ numbers (s.drained ++ events.rtake cap) ++ others → Q n) ↔
    ∀ evicted ∈ events.rdrop cap,
      (∃ event ∈ s.drained, event.number = evicted.number) ∨ Q evicted.number := by
  have hsplit : events = events.rdrop cap ++ events.rtake cap :=
    (Fifo.rdrop_append_rtake events cap).symm
  constructor
  · intro hall evicted hevicted
    by_cases hdrained : evicted.number ∈ numbers s.drained
    · exact .inl (mem_numbers.1 hdrained)
    · refine .inr (hall _ ?_ ?_)
      · rw [hsplit]
        simp only [numbers_append, List.mem_append]
        exact .inl (.inr (.inl (mem_numbers.2 ⟨evicted, hevicted, rfl⟩)))
      · -- an event that is evicted comes before all that stay
        have hless : ∀ m ∈ numbers (s.undrained (events.rtake cap)) ++ others,
            evicted.number < m := by
          rw [hsplit, undrained, List.filter_append, numbers_append, List.append_assoc] at h
          exact (List.pairwise_append.1 h).2.2 _ (mem_undrained hevicted hdrained)
        intro hmem
        simp only [numbers_append, List.mem_append] at hmem
        rcases hmem with (hmem | hmem) | hmem
        · exact hdrained hmem
        · obtain ⟨event, hevent, hnumber⟩ := mem_numbers.1 hmem
          have hstays := mem_undrained hevent (hnumber ▸ hdrained)
          have := hless _ (List.mem_append_left _ hstays)
          omega
        · exact absurd (hless _ (List.mem_append_right _ hmem)) (lt_irrefl _)
  · intro hall n hn hgone
    simp only [numbers_append, List.mem_append, not_or] at hn hgone
    obtain ⟨⟨hdrained, hstays⟩, hothers⟩ := hgone
    rcases hn with (hn | hn) | hn
    · exact absurd hn hdrained
    · rw [hsplit, numbers_append, List.mem_append] at hn
      rcases hn with hn | hn
      · obtain ⟨evicted, hevicted, rfl⟩ := mem_numbers.1 hn
        rcases hall evicted hevicted with hwas | hQ
        · exact absurd (mem_numbers.2 hwas) hdrained
        · exact hQ
      · exact absurd hn hstays
    · exact absurd hn hothers

/-- A step that drains nothing: what has not been drained moves on, or
leaves. -/
theorem Ordered.of_sublist (h : Ordered s)
    (hsub : (numbers (s.undrained t.table.events) ++ t.outside).Sublist
      (numbers (s.undrained s.table.events) ++ s.outside))
    (houtside : t.outside ⊆ s.outside) (hdrained : t.drained = s.drained)
    (hfirst : t.first = s.first) (hnext : t.next = s.next)
    (hflight : ∀ event ∈ t.inFlight, event.number ∈ numbers s.drained)
    (hshutdown : t.shutdown = s.shutdown) (hpolling : t.polling = s.polling)
    (hsignal : t.signalled → t.next_at_signal ≤ t.next) : Ordered t := by
  have hundrained : t.undrained = s.undrained := by
    funext events
    rw [undrained, undrained, hdrained]
  refine ⟨?_, ?_, ?_, ?_, ?_, hdrained ▸ hflight, hshutdown.trans h.shutdown,
    hpolling.trans h.polling, hsignal⟩
  · exact hundrained ▸ h.increasing.sublist hsub
  · exact fun n hn => hnext ▸ h.below n (hsub.subset (hundrained ▸ hn))
  · exact hdrained ▸ hnext ▸ h.drained_below
  · exact fun n hn => hdrained ▸ hfirst ▸ h.fresh n (houtside hn)
  · exact hfirst ▸ hnext ▸ h.started

/-- What is not in the buffer yet was never there. -/
theorem Ordered.not_mem_of_outside (h : Ordered s) (hn : n ∈ s.outside) :
    n ∉ numbers (s.drained ++ s.table.events) := by
  rw [numbers_append, List.mem_append, not_or]
  have hfresh := (h.fresh n hn).2
  refine ⟨hfresh, fun hmem => ?_⟩
  obtain ⟨event, hevent, rfl⟩ := mem_numbers.1 hmem
  exact lt_irrefl _ ((List.pairwise_append.1 h.increasing).2.2 _ (mem_undrained hevent hfresh) _ hn)

/-- What has been in the buffer was taken in. -/
theorem Ordered.lt_next (h : Ordered s) (hn : n ∈ numbers (s.drained ++ s.table.events)) :
    n < s.next := by
  by_cases hdrained : n ∈ numbers s.drained
  · exact h.drained_below n hdrained
  · rw [numbers_append, List.mem_append, or_iff_right hdrained] at hn
    obtain ⟨event, hevent, rfl⟩ := mem_numbers.1 hn
    exact h.below _ (List.mem_append_left _ (mem_undrained hevent hdrained))

/-! ## What each step does -/

/-- What is shown of a step. -/
structure StepSpec (s : AgentTasks) (a : AgentTasksAction) (t : AgentTasks) : Prop where
  ordered : Ordered t
  mono : s.lost ⊆ t.lost
  exactly : t.lost = s.lost ↔ s.LosesNothing a
  stays : a ≠ .exit → t.exited = s.exited

/-- A step that is no push and not the end loses nothing if it only moves
the results about. -/
theorem StepSpec.of_lost (hordered : Ordered t) (hlost : t.lost = s.lost)
    (hpushed : s.pushed a = none) (hexit : a ≠ .exit) (hstays : t.exited = s.exited) :
    StepSpec s a t where
  ordered := hordered
  mono := hlost ▸ Finset.Subset.refl _
  exactly := by
    refine iff_of_true hlost ⟨fun event h => ?_, fun h => absurd h hexit⟩
    rw [hpushed] at h
    cases h
  stays _ := hstays

theorem spec_collect {result : OsqueryResult} (h : Ordered s) (ht : s.collect result = some t) :
    StepSpec s (.collect result) t := by
  unfold collect at ht
  split at ht
  · obtain rfl := Option.some.inj ht
    have houtside : outside { s with
        channel := s.channel ++ [(s.next, result)], next := s.next + 1 } =
          s.outside ++ [s.next] := by
      rw [outside, outside, List.map_append, List.append_assoc]
      rfl
    refine .of_lost ⟨?_, fun n hn => ?_, fun n hn => Nat.lt_succ_of_lt (h.drained_below n hn),
      fun n hn => ?_, Nat.le_succ_of_le h.started, h.inFlight, h.shutdown, h.polling,
      fun hs => Nat.le_succ_of_le (h.signal hs)⟩ ?_ rfl nofun rfl
    · rw [houtside, ← List.append_assoc]
      exact List.pairwise_append.2 ⟨h.increasing, List.pairwise_singleton .., fun n hn m hm =>
        List.mem_singleton.1 hm ▸ h.below n hn⟩
    · rw [houtside, ← List.append_assoc] at hn
      rcases List.mem_append.1 hn with hn | hn
      · exact Nat.lt_succ_of_lt (h.below n hn)
      · rw [List.mem_singleton.1 hn]
        exact Nat.lt_succ_self _
    · rw [houtside] at hn
      rcases List.mem_append.1 hn with hn | hn
      · exact h.fresh n hn
      · rw [List.mem_singleton.1 hn]
        exact ⟨h.started, fun hdrained => lt_irrefl _ (h.drained_below _ hdrained)⟩
    · ext n
      rw [mem_lost, mem_lost, places, houtside, ← List.append_assoc, List.mem_append,
        List.mem_singleton]
      show (s.first ≤ n ∧ n < if s.signalled then s.next_at_signal else s.next + 1) ∧
        ¬(n ∈ s.places ∨ n = s.next) ↔ (s.first ≤ n ∧
          n < if s.signalled then s.next_at_signal else s.next) ∧ n ∉ s.places
      rw [not_or]
      by_cases hs : s.signalled
      · have hle := h.signal hs
        rw [if_pos hs, if_pos hs]
        constructor
        · exact fun ⟨hrange, hplace, _⟩ => ⟨hrange, hplace⟩
        · exact fun ⟨hrange, hplace⟩ => ⟨hrange, hplace, by omega⟩
      · rw [if_neg hs, if_neg hs]
        constructor
        · exact fun ⟨hrange, hplace, hne⟩ => ⟨⟨hrange.1, by omega⟩, hplace⟩
        · exact fun ⟨hrange, hplace⟩ => ⟨⟨hrange.1, by omega⟩, hplace, by omega⟩
  · cases ht

theorem spec_receive {drawn : Uuid} (h : Ordered s) (ht : s.receive text codec drawn = some t) :
    StepSpec s (.receive drawn) t := by
  unfold receive at ht
  split at ht
  · split at ht
    · next number result rest hhand hchannel =>
      obtain rfl := Option.some.inj ht
      have houtside : outside { s with
          channel := rest
          hand := (encode_osquery_result text codec result drawn).map fun event_json =>
            ⟨number, event_json⟩ } = s.outside := by
        rw [outside, outside, hhand, hchannel]
        rfl
      refine .of_lost (h.of_sublist ?_ ?_ rfl rfl rfl h.inFlight rfl rfl h.signal) ?_ rfl nofun rfl
      · rw [houtside]
      · rw [houtside]
        exact List.Subset.refl _
      · exact lost_of_places rfl rfl fun n => by rw [places, houtside, places]
    · cases ht
  · cases ht

/-- **A push loses what it evicts**, where that was never drained. -/
theorem spec_table_push {others : List ℕ} (hordered : Ordered t) (hfirst : t.first = s.first)
    (hlimit : t.limit = s.limit) (hpushed : s.pushed a = some event) (hexit : a ≠ .exit)
    (hstays : t.exited = s.exited) (hdrained : t.drained = s.drained)
    (htable : t.table = s.table.push event)
    (houtside : t.outside = others)
    (hplaces : ∀ n, n ∈ s.places ↔
      n ∈ numbers (s.drained ++ (s.table.events ++ [event])) ++ others)
    (hincreasing : (numbers (s.undrained (s.table.events ++ [event])) ++ others).Pairwise (· < ·)) :
    StepSpec s a t := by
  have hplaces' : t.places =
      numbers (s.drained ++ (s.table.events ++ [event]).rtake s.table.buffer.max_events) ++
        others := by
    rw [places, hdrained, htable, houtside, EventTable.events_push]
  obtain ⟨hmono, hexactly⟩ := lost_of_subset hfirst hlimit fun n hn => by
    rw [hplaces'] at hn
    rw [hplaces]
    simp only [numbers_append, List.mem_append] at hn ⊢
    rcases hn with (hn | hn) | hn
    · exact .inl (.inl hn)
    · obtain ⟨e, he, rfl⟩ := mem_numbers.1 hn
      have hmem : e.number ∈ numbers (s.table.events ++ [event]) :=
        mem_numbers.2 ⟨e, List.mem_of_mem_drop he, rfl⟩
      rw [numbers_append, List.mem_append] at hmem
      exact .inl (.inr hmem)
    · exact .inr hn
  refine ⟨hordered, hmono, hexactly.trans ?_, fun _ => hstays⟩
  simp only [hplaces, hplaces']
  rw [evicted_iff hincreasing]
  constructor
  · intro h
    refine ⟨fun event' hevent' => ?_, fun h => absurd h hexit⟩
    obtain rfl := Option.some.inj (hpushed.symm.trans hevent')
    exact h
  · exact fun h => h.1 event hpushed

/-- The undrained events of a table after a push are among those before it
and the event. -/
theorem sublist_push (s : AgentTasks) (event : BufferedEvent) (others : List ℕ) :
    (numbers (s.undrained (s.table.push event).events) ++ others).Sublist
      (numbers (s.undrained (s.table.events ++ [event])) ++ others) := by
  rw [EventTable.events_push]
  exact (((List.drop_sublist _ _).filter _).map _).append_right _

theorem spec_push (h : Ordered s) (ht : s.push = some t) : StepSpec s .push t := by
  unfold push at ht
  split at ht
  · next event hhand =>
    obtain rfl := Option.some.inj ht
    have houtside : s.outside = event.number :: s.channel.map (·.1) := by
      rw [outside, hhand]
      rfl
    have hsub : (numbers (s.undrained (s.table.events ++ [event])) ++ s.channel.map (·.1)).Sublist
        (numbers (s.undrained s.table.events) ++ s.outside) := by
      rw [undrained, List.filter_append, numbers_append, List.append_assoc, houtside]
      exact ((List.filter_sublist.map _).append_right _).append_left _
    refine spec_table_push
      (h.of_sublist ((sublist_push s event _).trans hsub) (houtside ▸ List.subset_cons_self _ _)
        rfl rfl rfl h.inFlight rfl rfl h.signal)
      rfl rfl hhand nofun rfl rfl rfl rfl (fun n => ?_) (h.increasing.sublist hsub)
    rw [places, houtside]
    simp only [numbers_append, numbers_singleton, List.mem_append, List.mem_cons, List.not_mem_nil,
      or_false]
    tauto
  · cases ht

theorem spec_requeue (h : Ordered s) (ht : s.requeue = some t) : StepSpec s .requeue t := by
  unfold requeue at ht
  split at ht
  · next event rest hdrain =>
    obtain rfl := Option.some.inj ht
    have hflight : ∀ e ∈ event :: rest, e.number ∈ numbers s.drained := fun e he =>
      h.inFlight e (by rw [inFlight, hdrain]; exact he)
    have hevent := hflight event List.mem_cons_self
    have hundrained : s.undrained (s.table.events ++ [event]) = s.undrained s.table.events := by
      rw [undrained, List.filter_append, undrained, List.filter_singleton]
      simp only [hevent, not_true_eq_false, decide_false, cond_false, List.append_nil]
    have hsub : (numbers (s.undrained (s.table.push event).events) ++ s.outside).Sublist
        (numbers (s.undrained s.table.events) ++ s.outside) :=
      hundrained ▸ sublist_push s event s.outside
    have hincreasing : (numbers (s.undrained (s.table.events ++ [event])) ++ s.outside).Pairwise
        (· < ·) := hundrained ▸ h.increasing
    refine spec_table_push
      (h.of_sublist hsub (List.Subset.refl _) rfl rfl rfl
        (fun e he => hflight e (List.mem_cons_of_mem _ he)) rfl rfl h.signal)
      rfl rfl (by rw [pushed, hdrain]) nofun rfl rfl rfl rfl (fun n => ?_) hincreasing
    have hin : n = event.number → n ∈ numbers s.drained := fun hn => hn ▸ hevent
    rw [places]
    simp only [numbers_append, numbers_singleton, List.mem_append, List.mem_cons, List.not_mem_nil,
      or_false]
    tauto
  · cases ht

theorem spec_drainTick (h : Ordered s) (ht : s.drainTick codec batch_size = some t) :
    StepSpec s .drainTick t := by
  unfold drainTick at ht
  split at ht
  · next hdrain =>
    obtain rfl := Option.some.inj ht
    have hsub : (numbers ((s.table.events.drop batch_size).filter fun event =>
        event.number ∉ numbers (s.drained ++ s.table.events.take batch_size)) ++ s.outside).Sublist
        (numbers (s.undrained s.table.events) ++ s.outside) := by
      -- fewer events, and more of them drained
      refine List.Sublist.append_right (List.Sublist.map _ ?_) _
      refine (List.monotone_filter_right _ fun e he => ?_).trans ((List.drop_sublist batch_size
        s.table.events).filter _)
      have hnot : e.number ∉ numbers (s.drained ++ s.table.events.take batch_size) :=
        of_decide_eq_true he
      rw [numbers_append, List.mem_append, not_or] at hnot
      exact decide_eq_true hnot.1
    have hheld : ∀ n ∈ numbers (s.drained ++ s.table.events.take batch_size),
        n ∈ numbers (s.drained ++ s.table.events) := fun n hn =>
      (((List.take_sublist batch_size s.table.events).append_left s.drained).map _).subset hn
    refine .of_lost ⟨h.increasing.sublist hsub, fun n hn => h.below n (hsub.subset hn),
      fun n hn => h.lt_next (hheld n hn),
      fun n hn => ⟨(h.fresh n hn).1, mt (hheld n) (h.not_mem_of_outside hn)⟩, h.started, ?_,
      h.shutdown, h.polling, h.signal⟩ (lost_of_places rfl rfl fun n => ?_) rfl nofun rfl
    · intro event hevent
      have htaken : event ∈ s.table.events.take batch_size := by
        by_cases hparsed : Delivery.parsed_events codec (s.table.events.take batch_size) = []
        · simp only [inFlight, if_pos hparsed] at hevent
          cases hevent
        · simp only [inFlight, if_neg hparsed] at hevent
          exact hevent
      exact mem_numbers.2 ⟨event, List.mem_append_right _ htaken, rfl⟩
    · show n ∈ numbers ((s.drained ++ s.table.events.take batch_size) ++
        s.table.events.drop batch_size) ++ s.outside ↔ n ∈ s.places
      rw [List.append_assoc, List.take_append_drop, places]
  · cases ht

/-- Where the drain loop only moves on, nothing is lost. -/
theorem spec_drain {pc : DrainPc} (h : Ordered s)
    (hflight : ∀ event ∈ inFlight { s with drain := pc }, event.number ∈ numbers s.drained)
    (hpushed : s.pushed a = none) (hexit : a ≠ .exit) : StepSpec s a { s with drain := pc } :=
  .of_lost
    (h.of_sublist (List.Sublist.refl _) (List.Subset.refl _) rfl rfl rfl hflight rfl rfl h.signal)
    (lost_of_places rfl rfl fun _ => Iff.rfl) hpushed hexit rfl

theorem spec_sent (h : Ordered s) (ht : s.sent = some t) : StepSpec s .sent t := by
  unfold sent at ht
  split at ht
  · exact Option.some.inj ht ▸ spec_drain h nofun rfl nofun
  · cases ht

theorem spec_sendFails (h : Ordered s) (ht : s.sendFails = some t) : StepSpec s .sendFails t := by
  unfold sendFails at ht
  split at ht
  · next events hdrain =>
    have hflight : ∀ event ∈ events, event.number ∈ numbers s.drained := fun event hevent =>
      h.inFlight event (by rw [inFlight, hdrain]; exact hevent)
    exact Option.some.inj ht ▸ spec_drain h hflight rfl nofun
  · cases ht

theorem spec_requeueDone (h : Ordered s) (ht : s.requeueDone = some t) :
    StepSpec s .requeueDone t := by
  unfold requeueDone at ht
  split at ht
  · exact Option.some.inj ht ▸ spec_drain h nofun rfl nofun
  · cases ht

theorem spec_ctrl_c (h : Ordered s) (ht : s.ctrl_c = some t) : StepSpec s .ctrl_c t := by
  unfold ctrl_c at ht
  split at ht
  · cases ht
  · next hsignalled =>
    obtain rfl := Option.some.inj ht
    have hlimit : limit { s with signalled := true, next_at_signal := s.next } = s.limit := by
      rw [limit, if_pos rfl, limit, if_neg hsignalled]
    exact .of_lost (h.of_sublist (List.Sublist.refl _) (List.Subset.refl _) rfl rfl rfl h.inFlight
      rfl rfl fun _ => le_rfl)
      (lost_of_places rfl hlimit fun n => Iff.rfl) rfl nofun rfl

/-- **The end loses what is not in the buffer.** -/
theorem spec_exit (h : Ordered s) (ht : s.exit = some t) : StepSpec s .exit t := by
  unfold exit at ht
  split at ht
  · next hsignalled =>
    obtain rfl := Option.some.inj ht
    have hlimit : s.limit = s.next_at_signal := if_pos hsignalled
    have hplaces : ∀ n, n ∈ s.places ↔ n ∈ numbers (s.drained ++ s.table.events) ∨ n ∈ s.outside :=
      fun n => List.mem_append
    obtain ⟨hmono, hexactly⟩ := lost_of_subset (s := s) (t := { s with
      exited := true, channel := [], hand := none, drain := .idle }) rfl rfl fun n hn =>
        (hplaces n).2 (.inl ((List.append_nil (numbers _)).symm ▸ hn))
    refine ⟨h.of_sublist ((List.nil_sublist _).append_left _) (List.nil_subset _) rfl rfl rfl nofun
      rfl rfl h.signal, hmono, hexactly.trans ?_, fun hne => absurd rfl hne⟩
    constructor
    · intro hall
      have hlate : ∀ n ∈ s.outside, s.next_at_signal ≤ n := by
        intro n hn
        have hgone := h.not_mem_of_outside hn
        rw [← List.append_nil (numbers _)] at hgone
        rcases hall n ((hplaces n).2 (.inr hn)) hgone with hle | hless
        · exact hlimit ▸ hle
        · exact absurd hless (Nat.not_lt.2 (h.fresh n hn).1)
      exact ⟨nofun, fun _ => ⟨fun entry hentry => hlate _ (List.mem_append_right _
        (List.mem_map_of_mem hentry)), fun event hevent => hlate _ (List.mem_append_left _
          (mem_numbers.2 ⟨event, Option.mem_toList.2 hevent, rfl⟩))⟩⟩
    · rintro ⟨-, hend⟩ n hn hgone
      obtain ⟨hchannel, hhand⟩ := hend rfl
      rw [hlimit]
      refine .inl ?_
      rcases (hplaces n).1 hn with hn | hn
      · exact absurd (List.mem_append_left _ hn) hgone
      · rcases List.mem_append.1 hn with hn | hn
        · obtain ⟨event, hevent, rfl⟩ := mem_numbers.1 hn
          exact hhand event (Option.mem_toList.1 hevent)
        · obtain ⟨entry, hentry, rfl⟩ := List.mem_map.1 hn
          exact hchannel entry hentry
  · cases ht

/-- A step of the machine meets its spec: no token is ever cancelled. -/
theorem spec_step (h : Ordered s) (ht : (machine text codec batch_size).step s a = some t) :
    StepSpec s a t := by
  simp only [machine] at ht
  split at ht
  · cases ht
  cases a with
  | collect result => exact spec_collect h ht
  | receive drawn => exact spec_receive h ht
  | push => exact spec_push h ht
  | cancelled =>
    simp [cancelled, h.shutdown] at ht
  | drainedDry =>
    simp [drainedDry, h.polling] at ht
  | drainTick => exact spec_drainTick h ht
  | sent => exact spec_sent h ht
  | sendFails => exact spec_sendFails h ht
  | requeue => exact spec_requeue h ht
  | requeueDone => exact spec_requeueDone h ht
  | ctrl_c => exact spec_ctrl_c h ht
  | exit => exact spec_exit h ht

/-! ## The end -/

/-- The rows that were there before the first result stand in order. -/
theorem ordered_init (b : EventBuffer) : Ordered (init b) := by
  have hundrained : (init b).undrained b.bufferedEvents = b.bufferedEvents :=
    List.filter_eq_self.2 fun event _ => decide_eq_true List.not_mem_nil
  have hnumbers : numbers b.bufferedEvents = b.rows.map (·.id) := by
    rw [numbers, EventBuffer.bufferedEvents, List.map_map]
    rfl
  have hwaiting : numbers ((init b).undrained (init b).table.events) ++ (init b).outside =
      b.rows.map (·.id) := by
    show numbers ((init b).undrained b.bufferedEvents) ++ [] = _
    rw [List.append_nil, hundrained, hnumbers]
  refine ⟨?_, ?_, nofun, nofun, le_rfl, nofun, rfl, rfl, nofun⟩
  · rw [hwaiting]
    exact List.pairwise_map.2 b.increasing
  · rw [hwaiting]
    intro n hn
    obtain ⟨r, hr, rfl⟩ := List.mem_map.1 hn
    exact b.below r hr

/-- Once the process has ended, of the results only the buffer is left. -/
theorem ended_step (h : Ordered s) (ht : (machine text codec batch_size).step s a = some t)
    (hexited : t.exited) : t.signalled ∧ t.outside = [] := by
  have hspec := spec_step h ht
  simp only [machine] at ht
  split at ht
  · cases ht
  next hrunning =>
  by_cases hexit : a = .exit
  · subst hexit
    change s.exit = some t at ht
    unfold exit at ht
    split at ht
    · next hsignalled =>
      obtain rfl := Option.some.inj ht
      exact ⟨hsignalled, rfl⟩
    · cases ht
  · rw [hspec.stays hexit] at hexited
    exact absurd hexited hrunning

/-- The results are kept exactly when none is lost. -/
theorem keepsCollected_iff_lost (hsignalled : t.signalled) (houtside : t.outside = []) :
    t.KeepsCollected ↔ t.lost = ∅ := by
  have hplaces : ∀ n, n ∈ t.places ↔
      ∃ event ∈ t.table.events ++ t.drained, event.number = n := by
    intro n
    rw [places, houtside, List.append_nil, mem_numbers]
    simp only [List.mem_append, or_comm]
  rw [Finset.eq_empty_iff_forall_notMem]
  constructor
  · intro h n hn
    obtain ⟨⟨hfirst, hlimit⟩, hgone⟩ := mem_lost.1 hn
    rw [limit, if_pos hsignalled] at hlimit
    exact hgone ((hplaces n).2 (h n hfirst hlimit))
  · intro h n hfirst hlimit
    by_contra hgone
    refine h n (mem_lost.2 ⟨⟨hfirst, ?_⟩, mt (hplaces n).1 hgone⟩)
    rw [limit, if_pos hsignalled]
    exact hlimit

/-- **When a shutdown keeps the results**: in a run that ends with the process,
exactly when no step of it loses any. -/
theorem keepsCollected_iff (b : EventBuffer)
    (hrun : (machine text codec batch_size).run (init b) l = some t) (hexited : t.exited) :
    t.KeepsCollected ↔ (machine text codec batch_size).EveryStep LosesNothing (init b) l := by
  have hordered : ∀ s a t, Ordered s → (machine text codec batch_size).step s a = some t →
      Ordered t := fun s a t h ht => (spec_step h ht).ordered
  obtain ⟨-, hended⟩ := Machine.run_preserves
    (I := fun s => Ordered s ∧ (s.exited → s.signalled ∧ s.outside = []))
    (fun s a t h ht => ⟨hordered s a t h.1 ht, ended_step h.1 ht⟩) hrun ⟨ordered_init b, nofun⟩
  obtain ⟨hsignalled, houtside⟩ := hended hexited
  rw [keepsCollected_iff_lost hsignalled houtside, ← Finset.card_eq_zero]
  have hnone : (init b).lost.card = 0 := by
    have hlimit : (init b).limit = (init b).first := rfl
    rw [lost, hlimit, Finset.Ico_self, Finset.filter_empty, Finset.card_empty]
  rw [← hnone]
  let count : AgentTasks → ℕ := fun s => s.lost.card
  have hmono : ∀ s a t, Ordered s → (machine text codec batch_size).step s a = some t →
      count s ≤ count t := fun s a t h ht => Finset.card_le_card (spec_step h ht).mono
  have hexact : ∀ s a t, Ordered s → (machine text codec batch_size).step s a = some t →
      (count t = count s ↔ LosesNothing s a) := by
    intro s a t h ht
    have hspec := spec_step h ht
    rw [← hspec.exactly]
    exact ⟨fun hcard => (Finset.eq_of_subset_of_card_le hspec.mono hcard.le).symm,
      fun heq => congrArg Finset.card heq⟩
  exact Machine.count_eq_iff_everyStep hordered hmono hexact (ordered_init b) hrun

/-- A result of one row. -/
def oneResult : OsqueryResult := ⟨"processes", "node", 0, [], .Snapshot⟩

theorem keepsCollected_iff_oneResult : ∃ t,
    (machine .standard JsonText.codec 100).run (init (.new 1000))
      [.collect oneResult, .ctrl_c, .exit] = some t ∧ t.exited ∧
      (t.KeepsCollected ↔ (machine .standard JsonText.codec 100).EveryStep LosesNothing
        (init (.new 1000)) [.collect oneResult, .ctrl_c, .exit]) :=
  ⟨_, rfl, rfl, keepsCollected_iff (.new 1000) rfl rfl⟩

/-- **A result on the channel when the signal comes is lost.** -/
theorem not_keepsCollected_oneResult : ∃ t,
    (machine .standard JsonText.codec 100).run (init (.new 1000))
      [.collect oneResult, .ctrl_c, .exit] = some t ∧ t.exited ∧ ¬t.KeepsCollected := by
  refine ⟨_, rfl, rfl, fun h => ?_⟩
  obtain ⟨event, hevent, -⟩ := h 0 le_rfl Nat.zero_lt_one
  exact absurd hevent List.not_mem_nil

end AgentTasks

end AigisZero.Agent
