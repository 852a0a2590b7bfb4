import AigisZero.Agent.EventBuffer
import AigisZero.Library.BoundedFifo
import AigisZero.Library.Machine
import AigisZero.Library.Script
import Mathlib.Algebra.Group.Nat.Defs

/-!
# The calls of the event buffer

A push makes up to three statements one after the other, each of which may
fail; a drain makes its statements in a transaction. As long as the calls
succeed, the table is a bounded queue. Where a statement fails, a drain
changes nothing, while a push may have its row in the table.
-/

namespace AigisZero.Agent

open Script

/-- The statements the calls make. -/
inductive BufferStatement where
  | insert
  | count
  | evict
  | begin
  | select
  | delete
  | commit
deriving DecidableEq, Repr

/-- Which statements of a call fail, and with what. -/
abbrev BufferFaults := BufferStatement → Option String

/-- A call. -/
inductive BufferCall where
  | push (event_json : String)
  | drain (batch_size : ℕ)
deriving DecidableEq, Repr

namespace EventBuffer

/-- `max_events as i64`. -/
def cap (max_events : ℕ) : ℤ := (Int64.ofNat max_events).toInt

/-- The statements of `EventBuffer::push`. Each is a transaction of its own. -/
def pushScript (max_events : ℕ) (event_json : String) (faults : BufferFaults) :
    Script EventBuffer String Unit := do
  execute (faults .insert) (·.insert event_json)
  let count ← query (faults .count) fun b => (b.len : ℤ)
  if cap max_events < count then
    let to_delete := count - cap max_events
    execute (faults .evict) fun b => b.delete ((b.oldest to_delete.toNat).map (·.id))

/-- A batch size is a limit in a statement if it is an `i64`. -/
def bindLimit (batch_size : ℕ) : Option String :=
  if batch_size < 2 ^ 63 then none else some "out of range integral type conversion attempted"

/-- The rows that were read are deleted, where there are any. -/
def deleteRead (rows : List BufferRow) (fault : Option String) : Script EventBuffer String Unit :=
  if rows = [] then pure () else execute fault (·.delete (rows.map (·.id)))

/-- The statements of `EventBuffer::drain`, in one transaction. A payload
that reads as a number is stored as one; it is no text, and the select that
meets it fails. -/
def drainScript (batch_size : ℕ) (faults : BufferFaults) :
    Script EventBuffer String (List String) :=
  transaction do
    execute (faults .begin) id
    let events ← query (bindLimit batch_size <|> faults .select) (·.oldest batch_size)
    deleteRead events (faults .delete)
    execute (faults .commit) id
    return events.map (·.payload)

/-- A call: what it returns, nothing for a push, and the table after it. -/
def call (b : EventBuffer) (faults : BufferFaults) :
    BufferCall → Except String (List String) × EventBuffer
  | .push event_json =>
    let (result, b') := pushScript b.max_events event_json faults b
    (result.map fun _ => [], b')
  | .drain batch_size => drainScript batch_size faults b

end EventBuffer

/-- The table, what the drains returned, and the table before the last call
where that call failed. -/
structure BufferCalls where
  buffer : EventBuffer
  drained : List String
  failed : Option EventBuffer

namespace BufferCalls

/-- Before the first call. -/
def init (b : EventBuffer) : BufferCalls := ⟨b, [], none⟩

/-- **The buffer as a machine**: call after call, with the faults of each. -/
def machine : Machine BufferCalls (BufferCall × BufferFaults) where
  step s a :=
    match s.buffer.call a.2 a.1 with
    | (.ok events, buffer) => some ⟨buffer, s.drained ++ events, none⟩
    | (.error _, buffer) => some ⟨buffer, s.drained, some s.buffer⟩

/-- A call that returns `Ok`. -/
def Succeeds (s : BufferCalls) (a : BufferCall × BufferFaults) : Prop :=
  ∃ events, (s.buffer.call a.2 a.1).1 = .ok events

/-- What a call does with a bounded queue. -/
def op : BufferCall → FifoOp String
  | .push event_json => .push event_json
  | .drain batch_size => .pop batch_size

/-- What the calls of a run push. -/
def pushed (l : List (BufferCall × BufferFaults)) : List String :=
  (l.map fun a => op a.1).flatMap FifoOp.pushed

/-- The bounded queue after the calls of a run. -/
def fifo (b : EventBuffer) (l : List (BufferCall × BufferFaults)) : Fifo String :=
  (l.map fun a => op a.1).foldl (Fifo.apply b.max_events) ⟨b.payloads, []⟩

/-- **A call does what it does to a bounded queue**: a push leaves the last
events within the bound, a drain returns the first and leaves the rest. -/
def Bounded (s : BufferCalls) (a : BufferCall × BufferFaults) : Prop :=
  ∀ t, machine.step s a = some t →
    match a.1 with
    | .push event_json =>
      t.buffer.payloads = (s.buffer.payloads ++ [event_json]).rtake s.buffer.max_events ∧
        t.buffer.len ≤ s.buffer.max_events ∧ t.drained = s.drained
    | .drain batch_size =>
      t.drained = s.drained ++ s.buffer.payloads.take batch_size ∧
        t.buffer.payloads = s.buffer.payloads.drop batch_size

/-- **The buffer is a bounded queue** over a run: each call is one of its
operations, and what the drains returned, was evicted and is still there
is together, in order, what was there and what was pushed. -/
structure RefinesFifo (b : EventBuffer) (l : List (BufferCall × BufferFaults)) (t : BufferCalls) :
    Prop where
  each : machine.EveryStep Bounded (init b) l
  content : (fifo b l).content = t.buffer.payloads
  drained : (fifo b l).popped = t.drained
  accounts : (fifo b l).items = b.payloads ++ pushed l
  inOrder : t.drained.Sublist (b.payloads ++ pushed l)

/-- **Errors are atomic**: a call that failed has left the buffer as it was,
and the buffer is within its cap. -/
def AtomicOnError (s : BufferCalls) : Prop :=
  (∀ before, s.failed = some before → s.buffer = before) ∧ s.buffer.len ≤ s.buffer.max_events

/-- **A push whose insert goes through goes through**: neither the count nor
an eviction that is due fails. -/
def InsertsLast (s : BufferCalls) (a : BufferCall × BufferFaults) : Prop :=
  ∀ event_json, a.1 = .push event_json → a.2 .insert = none →
    a.2 .count = none ∧
      (EventBuffer.cap s.buffer.max_events < s.buffer.len + 1 → a.2 .evict = none)

end BufferCalls

namespace EventBuffer

variable {b b' : EventBuffer} {faults : BufferFaults} {event_json e : String} {n max_events : ℕ}

@[simp] theorem length_payloads (b : EventBuffer) : b.payloads.length = b.len :=
  List.length_map _

theorem len_insert (b : EventBuffer) (event_json : String) :
    (b.insert event_json).len = b.len + 1 := List.length_append

theorem max_events_insert (b : EventBuffer) (event_json : String) :
    (b.insert event_json).max_events = b.max_events := rfl

/-- A row that goes in is seen. -/
theorem insert_ne (b : EventBuffer) (event_json : String) : b.insert event_json ≠ b := by
  intro h
  have hlen := congrArg len h
  rw [len_insert] at hlen
  omega

theorem cap_le (max_events : ℕ) : cap max_events ≤ max_events := by
  have hsize : Int64.size = 2 ^ 64 := rfl
  rw [cap, Int64.toInt_ofNat', hsize, Int.bmod_def]
  split <;> omega

theorem cap_of_lt (h : max_events < 2 ^ 63) : cap max_events = max_events :=
  Int64.toInt_ofNat_of_lt h

/-! ## What the statements do -/

/-- What an eviction leaves, when one is due. -/
def evictTo (b : EventBuffer) (max_events : ℕ) : EventBuffer :=
  if cap max_events < b.len then
    b.delete ((b.oldest (b.len - cap max_events).toNat).map (·.id))
  else b

theorem max_events_evictTo (b : EventBuffer) (max_events : ℕ) :
    (b.evictTo max_events).max_events = b.max_events := by
  unfold evictTo
  split <;> rfl

theorem len_delete_oldest (b : EventBuffer) (n : ℕ) :
    (b.delete ((b.oldest n).map (·.id))).len = b.len - n := by
  rw [len, rows_delete_oldest, List.length_drop, len]

/-- What is left is within the bound. -/
theorem len_evictTo_le (b : EventBuffer) (max_events : ℕ) :
    (b.evictTo max_events).len ≤ max_events := by
  have hcap := cap_le max_events
  unfold evictTo
  split
  · rw [len_delete_oldest]
    omega
  · omega

/-- What is left are the last events within the bound. -/
theorem payloads_evictTo (h : max_events < 2 ^ 63) (b : EventBuffer) :
    (b.evictTo max_events).payloads = b.payloads.rtake max_events := by
  rw [evictTo, cap_of_lt h]
  by_cases hover : (max_events : ℤ) < b.len
  · have hdelete : ((b.len : ℤ) - max_events).toNat = b.payloads.length - max_events := by
      rw [length_payloads]
      omega
    rw [if_pos hover, payloads_delete_oldest, hdelete, List.rtake]
  · rw [if_neg hover, Fifo.rtake_eq_self]
    rw [length_payloads]
    omega

/-- **When a push returns `Ok`**, and what it does. -/
theorem pushScript_eq_ok {x : Unit} : pushScript max_events event_json faults b = (.ok x, b') ↔
    faults .insert = none ∧ faults .count = none ∧
      (cap max_events < b.len + 1 → faults .evict = none) ∧
      b' = (b.insert event_json).evictTo max_events := by
  have hlen : ((b.insert event_json).len : ℤ) = b.len + 1 := by
    rw [len_insert]
    rfl
  unfold pushScript
  simp only [Script.bind_eq_ok, execute_eq_ok, query_eq_ok]
  constructor
  · rintro ⟨_, _, ⟨hinsert, rfl⟩, count, _, ⟨hcount, rfl, rfl⟩, hrest⟩
    refine ⟨hinsert, hcount, ?_⟩
    unfold evictTo
    by_cases hover : cap max_events < (b.insert event_json).len
    · rw [if_pos hover] at hrest ⊢
      obtain ⟨hevict, rfl⟩ := execute_eq_ok.1 hrest
      exact ⟨fun _ => hevict, rfl⟩
    · rw [if_neg hover] at hrest ⊢
      exact ⟨fun h => absurd (hlen ▸ h) hover, (Prod.ext_iff.1 hrest).2.symm⟩
  · rintro ⟨hinsert, hcount, hevict, rfl⟩
    refine ⟨⟨⟩, _, ⟨hinsert, rfl⟩, _, _, ⟨hcount, rfl, rfl⟩, ?_⟩
    unfold evictTo
    by_cases hover : cap max_events < (b.insert event_json).len
    · rw [if_pos hover, if_pos hover]
      exact execute_eq_ok.2 ⟨hevict (hlen ▸ hover), rfl⟩
    · rw [if_neg hover, if_neg hover]
      rfl

/-- **When a push returns an error**, and what it has done: nothing where
the insert failed, and else its row is in the table. -/
theorem pushScript_eq_error : pushScript max_events event_json faults b = (.error e, b') ↔
    faults .insert = some e ∧ b' = b ∨
      faults .insert = none ∧ b' = b.insert event_json ∧
        (faults .count = some e ∨
          faults .count = none ∧ cap max_events < b.len + 1 ∧ faults .evict = some e) := by
  have hlen : ((b.insert event_json).len : ℤ) = b.len + 1 := by
    rw [len_insert]
    rfl
  unfold pushScript
  simp only [Script.bind_eq_error, execute_eq_ok, execute_eq_error, query_eq_ok, query_eq_error]
  refine or_congr_right ?_
  constructor
  · rintro ⟨_, _, ⟨hinsert, rfl⟩, ⟨hcount, rfl⟩ | ⟨count, _, ⟨hcount, rfl, rfl⟩, hrest⟩⟩
    · exact ⟨hinsert, rfl, .inl hcount⟩
    · by_cases hover : cap max_events < (b.insert event_json).len
      · rw [if_pos hover] at hrest
        obtain ⟨hevict, rfl⟩ := execute_eq_error.1 hrest
        exact ⟨hinsert, rfl, .inr ⟨hcount, hlen ▸ hover, hevict⟩⟩
      · rw [if_neg hover] at hrest
        cases hrest
  · rintro ⟨hinsert, rfl, hcount | ⟨hcount, hover, hevict⟩⟩
    · exact ⟨⟨⟩, _, ⟨hinsert, rfl⟩, .inl ⟨hcount, rfl⟩⟩
    · refine ⟨⟨⟩, _, ⟨hinsert, rfl⟩, .inr ⟨_, _, ⟨hcount, rfl, rfl⟩, ?_⟩⟩
      rw [← hlen] at hover
      rw [if_pos hover]
      exact execute_eq_error.2 ⟨hevict, rfl⟩

theorem deleteRead_eq_ok {fault : Option String} {x : Unit}
    (h : deleteRead (b.oldest n) fault b = (.ok x, b')) :
    b'.payloads = b.payloads.drop n ∧ b'.max_events = b.max_events := by
  unfold deleteRead at h
  by_cases hnil : b.oldest n = []
  · rw [if_pos hnil] at h
    have hb : b = b' := (Prod.ext_iff.1 h).2
    have hdrop : b.rows.drop n = b.rows := by
      conv_rhs => rw [← List.take_append_drop n b.rows, show b.rows.take n = [] from hnil]
      rfl
    rw [← hb, payloads, ← List.map_drop, hdrop]
    exact ⟨rfl, rfl⟩
  · rw [if_neg hnil] at h
    obtain ⟨-, rfl⟩ := execute_eq_ok.1 h
    exact ⟨payloads_delete_oldest b n, rfl⟩

/-- **What a drain that returns does**: the oldest events leave the table. -/
theorem drainScript_eq_ok {events : List String}
    (h : drainScript n faults b = (.ok events, b')) :
    events = b.payloads.take n ∧ b'.payloads = b.payloads.drop n ∧
      b'.max_events = b.max_events := by
  unfold drainScript at h
  simp only [transaction_eq_ok, Script.bind_eq_ok, execute_eq_ok, query_eq_ok] at h
  obtain ⟨_, _, ⟨-, rfl⟩, rows, _, ⟨-, rfl, rfl⟩, _, _, hdelete, _, _, ⟨-, rfl⟩, hreturn⟩ := h
  obtain ⟨hevents, rfl⟩ := Prod.ext_iff.1 hreturn
  obtain ⟨hpayloads, hmax⟩ := deleteRead_eq_ok hdelete
  exact ⟨(Except.ok.inj hevents).symm.trans (payloads_oldest _ n), hpayloads, hmax⟩

/-- A drain that fails changes nothing. -/
theorem drainScript_eq_error (h : drainScript n faults b = (.error e, b')) : b' = b :=
  atomic_transaction _ b e b' h

/-- The fault of a push, by the statement that fails. -/
def faultsOf : Option PushFault → BufferFaults
  | some .insert => fun statement => if statement = .insert then some "insert" else none
  | some .count => fun statement => if statement = .count then some "count" else none
  | some .evict => fun statement => if statement = .evict then some "evict" else none
  | none => fun _ => none

/-- **The statements of a push make the push**, under a cap that is an
`i64`. -/
theorem pushScript_eq_push (hmax : b.max_events < 2 ^ 63) (event_json : String)
    (fault : Option PushFault) : pushScript b.max_events event_json (faultsOf fault) b =
      ((b.push event_json fault).1, (b.push event_json fault).2.1) := by
  have hover : cap b.max_events < b.len + 1 ↔ b.max_events < (b.insert event_json).len := by
    rw [cap_of_lt hmax, len_insert]
    omega
  have hdue : cap b.max_events < (b.insert event_json).len ↔
      b.max_events < (b.insert event_json).len := by
    rw [cap_of_lt hmax]
    omega
  have hdelete : (((b.insert event_json).len : ℤ) - cap b.max_events).toNat =
      (b.insert event_json).len - b.max_events := by
    rw [cap_of_lt hmax]
    omega
  have hpush : ∀ fault, fault ≠ some .insert → fault ≠ some .count →
      b.push event_json fault =
        if b.max_events < (b.insert event_json).len then
          if fault = some .evict then (.error "evict", b.insert event_json, [])
          else
            let evicted := (b.insert event_json).oldest ((b.insert event_json).len - b.max_events)
            (.ok (), (b.insert event_json).delete (evicted.map (·.id)), evicted.map (·.payload))
        else (.ok (), b.insert event_json, []) := by
    intro fault hinsert hcount
    rw [push, if_neg hinsert]
    exact if_neg hcount
  rcases fault with _ | _ | _ | _
  · rw [hpush none (by decide) (by decide)]
    by_cases h : b.max_events < (b.insert event_json).len
    · rw [if_pos h, if_neg (by decide)]
      refine pushScript_eq_ok.2 ⟨rfl, rfl, fun _ => rfl, ?_⟩
      rw [evictTo, if_pos (hdue.2 h), hdelete]
    · rw [if_neg h]
      refine pushScript_eq_ok.2 ⟨rfl, rfl, fun _ => rfl, ?_⟩
      rw [evictTo, if_neg (mt hdue.1 h)]
  · exact pushScript_eq_error.2 (.inl ⟨rfl, rfl⟩)
  · exact pushScript_eq_error.2 (.inr ⟨rfl, rfl, .inl rfl⟩)
  · rw [hpush (some .evict) (by decide) (by decide)]
    by_cases h : b.max_events < (b.insert event_json).len
    · rw [if_pos h, if_pos rfl]
      exact pushScript_eq_error.2 (.inr ⟨rfl, rfl, .inr ⟨rfl, hover.2 h, rfl⟩⟩)
    · rw [if_neg h]
      refine pushScript_eq_ok.2 ⟨rfl, rfl, fun h' => absurd (hover.1 h') h, ?_⟩
      rw [evictTo, if_neg (mt hdue.1 h)]

/-! ## What the calls do -/

/-- A push that fails: nothing has changed, or its row is in the table. -/
theorem call_push_eq_error : b.call faults (.push event_json) = (.error e, b') ↔
    pushScript b.max_events event_json faults b = (.error e, b') := by
  show ((pushScript b.max_events event_json faults b).1.map fun _ => [],
    (pushScript b.max_events event_json faults b).2) = _ ↔ _
  rcases pushScript b.max_events event_json faults b with ⟨_ | x, b''⟩
  · simp [Except.map]
  · exact iff_of_false nofun nofun

theorem call_push_eq_ok {events : List String} :
    b.call faults (.push event_json) = (.ok events, b') ↔
      events = [] ∧ pushScript b.max_events event_json faults b = (.ok (), b') := by
  show ((pushScript b.max_events event_json faults b).1.map fun _ => [],
    (pushScript b.max_events event_json faults b).2) = _ ↔ _
  rcases pushScript b.max_events event_json faults b with ⟨_ | x, b''⟩
  · exact iff_of_false nofun (fun h => nomatch h.2)
  · simp [Except.map, eq_comm]

/-- A call keeps the cap. -/
theorem max_events_call {c : BufferCall} {result : Except String (List String)}
    (h : b.call faults c = (result, b')) : b'.max_events = b.max_events := by
  cases c with
  | push event_json =>
    cases result with
    | error e =>
      rcases pushScript_eq_error.1 (call_push_eq_error.1 h) with ⟨-, rfl⟩ | ⟨-, rfl, -⟩ <;> rfl
    | ok events =>
      obtain ⟨-, -, -, rfl⟩ := pushScript_eq_ok.1 (call_push_eq_ok.1 h).2
      exact max_events_evictTo _ _
  | drain n =>
    cases result with
    | error e => rw [drainScript_eq_error h]
    | ok events => exact (drainScript_eq_ok h).2.2

end EventBuffer

namespace BufferCalls

variable {b : EventBuffer} {s t : BufferCalls} {a : BufferCall × BufferFaults}
  {l : List (BufferCall × BufferFaults)}

/-- **What a step does**: the call returns, or it has failed. -/
theorem step_cases (ht : machine.step s a = some t) :
    (∃ events b', s.buffer.call a.2 a.1 = (.ok events, b') ∧ t = ⟨b', s.drained ++ events, none⟩) ∨
      ∃ e b', s.buffer.call a.2 a.1 = (.error e, b') ∧ t = ⟨b', s.drained, some s.buffer⟩ := by
  simp only [machine] at ht
  rcases h : s.buffer.call a.2 a.1 with ⟨e | events, b'⟩
  · rw [h] at ht
    exact .inr ⟨e, b', rfl, (Option.some.inj ht).symm⟩
  · rw [h] at ht
    exact .inl ⟨events, b', rfl, (Option.some.inj ht).symm⟩

theorem exists_step (s : BufferCalls) (a : BufferCall × BufferFaults) :
    ∃ t, machine.step s a = some t := by
  simp only [machine]
  rcases s.buffer.call a.2 a.1 with ⟨e | events, b'⟩
  · exact ⟨_, rfl⟩
  · exact ⟨_, rfl⟩

/-- The cap is kept. -/
theorem max_events_step (ht : machine.step s a = some t) :
    t.buffer.max_events = s.buffer.max_events := by
  rcases step_cases ht with ⟨events, b', hcall, rfl⟩ | ⟨e, b', hcall, rfl⟩
  · exact EventBuffer.max_events_call hcall
  · exact EventBuffer.max_events_call hcall

/-! ## The bounded queue -/

/-- A call that succeeds does what it does to a bounded queue. -/
theorem bounded_of_succeeds (hmax : s.buffer.max_events < 2 ^ 63) (hok : Succeeds s a) :
    Bounded s a := by
  intro t ht
  obtain ⟨events, hevents⟩ := hok
  rcases step_cases ht with ⟨events', b', hcall, rfl⟩ | ⟨e, b', hcall, rfl⟩
  · obtain ⟨c, faults⟩ := a
    cases c with
    | push event_json =>
      obtain ⟨rfl, hscript⟩ := EventBuffer.call_push_eq_ok.1 hcall
      obtain ⟨-, -, -, rfl⟩ := EventBuffer.pushScript_eq_ok.1 hscript
      refine ⟨?_, EventBuffer.len_evictTo_le _ _, List.append_nil _⟩
      rw [EventBuffer.payloads_evictTo hmax, EventBuffer.payloads_insert]
    | drain n =>
      obtain ⟨rfl, hpayloads, -⟩ := EventBuffer.drainScript_eq_ok hcall
      exact ⟨rfl, hpayloads⟩
  · rw [hcall] at hevents
    cases hevents

/-- The bounded queue an initial table is. -/
def Simulates (max_events : ℕ) (s : BufferCalls) (q : Fifo String) : Prop :=
  s.buffer.max_events = max_events ∧ q.content = s.buffer.payloads ∧ q.popped = s.drained

/-- A call that succeeds is an operation of the queue. -/
theorem simulates_step {max_events : ℕ} {q : Fifo String} (hmax : max_events < 2 ^ 63)
    (hsim : Simulates max_events s q) (hok : Succeeds s a) (ht : machine.step s a = some t) :
    Simulates max_events t (q.apply max_events (op a.1)) := by
  obtain ⟨rfl, hcontent, hpopped⟩ := hsim
  have hbounded := bounded_of_succeeds hmax hok t ht
  refine ⟨max_events_step ht, ?_⟩
  obtain ⟨c, faults⟩ := a
  cases c with
  | push event_json =>
    obtain ⟨hpayloads, -, hdrained⟩ := hbounded
    rw [hpayloads, hdrained, op, Fifo.apply, Fifo.popped_push, ← hcontent]
    exact ⟨rfl, hpopped⟩
  | drain n =>
    obtain ⟨hdrained, hpayloads⟩ := hbounded
    rw [hpayloads, hdrained, op, Fifo.apply, Fifo.popped_pop, ← hcontent, hpopped]
    exact ⟨rfl, rfl⟩

/-- **The buffer refines a bounded queue**, whatever it held at first, as
long as its calls succeed. -/
theorem refinesFifo (hmax : b.max_events < 2 ^ 63) (hok : machine.EveryStep Succeeds (init b) l)
    (hrun : machine.run (init b) l = some t) : RefinesFifo b l t := by
  have heach : machine.EveryStep Bounded (init b) l :=
    hok.imp_of (I := fun s => s.buffer.max_events < 2 ^ 63)
      (fun s a t h _ ht => by rwa [max_events_step ht])
      (fun s a h hok => bounded_of_succeeds h hok) hmax
  have hsim : Simulates b.max_events t (fifo b l) := by
    rw [fifo, List.foldl_map]
    exact Machine.simulates_run (fun s q a t h hok ht => simulates_step hmax h hok ht) hok hrun
      ⟨rfl, rfl, rfl⟩
  have hitems : (fifo b l).items = b.payloads ++ pushed l := Fifo.items_foldl _ _ _
  refine ⟨heach, hsim.2.1, hsim.2.2, hitems, ?_⟩
  rw [← hsim.2.2, ← hitems]
  exact Fifo.popped_sublist_items _

/-- A table that another agent left, over the cap of this one: the push of
an event evicts two, and the drain returns the event that was last. -/
def overfull : EventBuffer :=
  { ((EventBuffer.new 2).insert "a").insert "b" with max_events := 1 }

theorem refinesFifo_overfull : ∃ t,
    machine.run (init overfull)
        [(.push "\x7b\x7d", fun _ => none), (.drain 7, fun _ => none)] = some t ∧
      RefinesFifo overfull [(.push "\x7b\x7d", fun _ => none), (.drain 7, fun _ => none)] t :=
  ⟨_, rfl, refinesFifo (by decide)
    (Machine.everyStep_cons rfl ⟨_, rfl⟩ (Machine.everyStep_cons rfl ⟨_, rfl⟩ trivial)) rfl⟩

/-! ## Errors -/

/-- **A call leaves the buffer as it should exactly when it is no push that
fails past its insert.** -/
theorem atomicOnError_step_iff (hs : AtomicOnError s) (ht : machine.step s a = some t) :
    AtomicOnError t ↔ InsertsLast s a := by
  obtain ⟨c, faults⟩ := a
  rcases step_cases ht with ⟨events, b', hcall, rfl⟩ | ⟨e, b', hcall, rfl⟩
  · cases c with
    | push event_json =>
      obtain ⟨-, hscript⟩ := EventBuffer.call_push_eq_ok.1 hcall
      obtain ⟨hinsert, hcount, hevict, rfl⟩ := EventBuffer.pushScript_eq_ok.1 hscript
      have hle : (EventBuffer.evictTo (s.buffer.insert event_json) s.buffer.max_events).len ≤
          (EventBuffer.evictTo (s.buffer.insert event_json) s.buffer.max_events).max_events := by
        rw [EventBuffer.max_events_evictTo]
        exact EventBuffer.len_evictTo_le _ _
      exact iff_of_true ⟨nofun, hle⟩ fun _ _ _ => ⟨hcount, hevict⟩
    | drain n =>
      obtain ⟨-, hpayloads, hmax⟩ := EventBuffer.drainScript_eq_ok hcall
      refine iff_of_true ⟨nofun, ?_⟩ nofun
      have hle := hs.2
      show b'.len ≤ b'.max_events
      rw [hmax, ← EventBuffer.length_payloads, hpayloads, List.length_drop,
        EventBuffer.length_payloads]
      omega
  · cases c with
    | push event_json =>
      rcases EventBuffer.pushScript_eq_error.1 (EventBuffer.call_push_eq_error.1 hcall) with
        ⟨hinsert, rfl⟩ | ⟨hinsert, rfl, hlate⟩
      · refine iff_of_true ⟨fun before hbefore => Option.some.inj hbefore, hs.2⟩ ?_
        intro _ _ hnone
        exact absurd (hinsert.symm.trans hnone) nofun
      · refine iff_of_false (fun h => s.buffer.insert_ne event_json (h.1 _ rfl)) fun h => ?_
        -- the row is in, and a later statement has failed
        obtain ⟨hcount, hevict⟩ := h event_json rfl hinsert
        rcases hlate with hlate | ⟨-, hover, hlate⟩
        · exact absurd (hlate.symm.trans hcount) nofun
        · exact absurd (hlate.symm.trans (hevict hover)) nofun
    | drain n =>
      obtain rfl := EventBuffer.drainScript_eq_error hcall
      exact iff_of_true ⟨fun before hbefore => Option.some.inj hbefore, hs.2⟩ nofun

/-- **When the calls are atomic on error**, over a whole run of calls in
which any statement may fail: exactly when no push fails past its insert. -/
theorem atomicOnError_iff (h : b.len ≤ b.max_events) (l : List (BufferCall × BufferFaults)) :
    machine.Always AtomicOnError (init b) l ↔ machine.EveryStep InsertsLast (init b) l := by
  obtain ⟨t, ht⟩ := Machine.exists_run_of_total exists_step (init b) l
  exact Machine.always_iff_everyStep (I := fun _ => True) (fun _ _ _ _ _ => trivial)
    (fun s a t _ hs ht => atomicOnError_step_iff hs ht) trivial ⟨nofun, h⟩ ht

/-- The disk fails under the count of a push. -/
def failingCount : BufferFaults := fun statement =>
  if statement = .count then some "disk I/O error" else none

theorem atomicOnError_iff_failingCount : (EventBuffer.new 1000).len ≤ 1000 ∧
    (machine.Always AtomicOnError (init (.new 1000)) [(.push "\x7b\x7d", failingCount)] ↔
      machine.EveryStep InsertsLast (init (.new 1000)) [(.push "\x7b\x7d", failingCount)]) :=
  ⟨by decide, atomicOnError_iff (by decide) _⟩

/-- A push into an empty table whose count fails returns an error, and its
row is there. -/
theorem not_atomicOnError_failingCount :
    ¬ machine.Always AtomicOnError (init (.new 1000)) [(.push "\x7b\x7d", failingCount)] := by
  intro h
  have hlast := h.2 _ rfl
  exact EventBuffer.insert_ne _ _ (hlast.1 _ rfl)

end BufferCalls

end AigisZero.Agent
