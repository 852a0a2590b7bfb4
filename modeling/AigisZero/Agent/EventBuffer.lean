import Mathlib.Data.List.Basic
import Mathlib.Data.List.Pairwise
import Mathlib.Tactic.Common

/-!
# The event buffer

The table in which the agent keeps events until they are sent. A push adds
a row and evicts the oldest where there are too many; a drain reads the
oldest rows and deletes them. The numbers of the rows only go up.
-/

namespace AigisZero.Agent

/-- A row of `event_buffer`. -/
structure BufferRow where
  id : ℕ
  payload : String
deriving DecidableEq, Repr

/-- **The table**: the rows stand in the order of their numbers, and no
number is given twice. -/
structure EventBuffer where
  max_events : ℕ
  rows : List BufferRow
  /-- The number the next row gets. -/
  next : ℕ
  increasing : rows.Pairwise fun r r' => r.id < r'.id
  below : ∀ r ∈ rows, r.id < next

/-- Where a push can fail. -/
inductive PushFault where
  | insert
  | count
  | evict
deriving DecidableEq, Repr

namespace EventBuffer

/-- `EventBuffer::new`, on a new file. -/
def new (max_events : ℕ) : EventBuffer := ⟨max_events, [], 0, .nil, by simp⟩

/-- `EventBuffer::len`. -/
def len (b : EventBuffer) : ℕ := b.rows.length

/-- What the rows hold, oldest first. -/
def payloads (b : EventBuffer) : List String := b.rows.map (·.payload)

/-- `INSERT INTO event_buffer`. -/
def insert (b : EventBuffer) (event_json : String) : EventBuffer where
  max_events := b.max_events
  rows := b.rows ++ [⟨b.next, event_json⟩]
  next := b.next + 1
  increasing := by
    refine List.pairwise_append.2 ⟨b.increasing, List.pairwise_singleton .., fun r hr r' hr' => ?_⟩
    obtain rfl := List.mem_singleton.1 hr'
    exact b.below r hr
  below r hr := by
    rcases List.mem_append.1 hr with hr | hr
    · exact Nat.lt_succ_of_lt (b.below r hr)
    · obtain rfl := List.mem_singleton.1 hr
      exact Nat.lt_succ_self _

/-- `DELETE FROM event_buffer WHERE id IN …`. -/
def delete (b : EventBuffer) (ids : List ℕ) : EventBuffer where
  max_events := b.max_events
  rows := b.rows.filter fun r => r.id ∉ ids
  next := b.next
  increasing := b.increasing.filter _
  below r hr := b.below r (List.mem_filter.1 hr).1

/-- `SELECT … ORDER BY id ASC LIMIT n`. -/
def oldest (b : EventBuffer) (n : ℕ) : List BufferRow := b.rows.take n

/-- `EventBuffer::push`: what it returns, the table after it, and the
events it evicts. The statements are not in one transaction, so a push
that fails late has its row in the table. -/
def push (b : EventBuffer) (event_json : String) (fault : Option PushFault) :
    Except String Unit × EventBuffer × List String :=
  if fault = some .insert then (.error "insert", b, [])
  else
    let b := b.insert event_json
    if fault = some .count then (.error "count", b, [])
    else if b.max_events < b.len then
      if fault = some .evict then (.error "evict", b, [])
      else
        let evicted := b.oldest (b.len - b.max_events)
        (.ok (), b.delete (evicted.map (·.id)), evicted.map (·.payload))
    else (.ok (), b, [])

/-- `EventBuffer::drain`, in one transaction: the oldest events, and the
table without them. -/
def drain (b : EventBuffer) (batch_size : ℕ) (fault : Option String) :
    Except String (List String) × EventBuffer :=
  match fault with
  | some e => (.error e, b)
  | none =>
    let events := b.oldest batch_size
    (.ok (events.map (·.payload)), b.delete (events.map (·.id)))

variable {b : EventBuffer} {n : ℕ}

/-- **Deleting the oldest rows leaves the others.** -/
theorem rows_delete_oldest (b : EventBuffer) (n : ℕ) :
    (b.delete ((b.oldest n).map (·.id))).rows = b.rows.drop n := by
  have hsplit : b.rows = b.rows.take n ++ b.rows.drop n := (List.take_append_drop n b.rows).symm
  have hincreasing := b.increasing
  rw [hsplit] at hincreasing
  obtain ⟨-, -, hlt⟩ := List.pairwise_append.1 hincreasing
  have htaken : (b.rows.take n).filter (fun r => r.id ∉ (b.rows.take n).map (·.id)) = [] :=
    List.filter_eq_nil_iff.2 fun r hr => by
      have hmem : r.id ∈ (b.rows.take n).map (·.id) := List.mem_map_of_mem hr
      simp only [hmem, not_true_eq_false, decide_false, Bool.false_eq_true, not_false_iff]
  have hleft : (b.rows.drop n).filter (fun r => r.id ∉ (b.rows.take n).map (·.id)) =
      b.rows.drop n := by
    refine List.filter_eq_self.2 fun r hr => ?_
    -- a row that stays is younger than every row that goes
    have hne : r.id ∉ (b.rows.take n).map (·.id) := by
      intro hmem
      obtain ⟨r', hr', hid⟩ := List.mem_map.1 hmem
      have := hlt r' hr' r hr
      omega
    exact decide_eq_true hne
  calc (b.delete ((b.oldest n).map (·.id))).rows
      = (b.rows.take n ++ b.rows.drop n).filter
          (fun r => r.id ∉ (b.rows.take n).map (·.id)) := by rw [← hsplit]; rfl
    _ = b.rows.drop n := by rw [List.filter_append, htaken, hleft, List.nil_append]

theorem payloads_delete_oldest (b : EventBuffer) (n : ℕ) :
    (b.delete ((b.oldest n).map (·.id))).payloads = b.payloads.drop n := by
  rw [payloads, rows_delete_oldest, payloads, List.map_drop]

@[simp] theorem payloads_insert (b : EventBuffer) (event_json : String) :
    (b.insert event_json).payloads = b.payloads ++ [event_json] := by
  simp [payloads, insert]

theorem payloads_oldest (b : EventBuffer) (n : ℕ) :
    (b.oldest n).map (·.payload) = b.payloads.take n := List.map_take

/-- **What a push does**: nothing, where the insert fails; else the event
is in the table, and what was evicted was the oldest. -/
theorem push_cases (b : EventBuffer) (event_json : String) (fault : Option PushFault) :
    (fault = some .insert ∧ ∃ e, b.push event_json fault = (.error e, b, [])) ∨
      fault ≠ some .insert ∧ ∃ result b' k,
        b.push event_json fault = (result, b', (b.payloads ++ [event_json]).take k) ∧
        b'.payloads = (b.payloads ++ [event_json]).drop k := by
  unfold push
  by_cases hinsert : fault = some .insert
  · rw [if_pos hinsert]
    exact .inl ⟨hinsert, _, rfl⟩
  · rw [if_neg hinsert]
    refine .inr ⟨hinsert, ?_⟩
    dsimp only
    split
    · exact ⟨_, b.insert event_json, 0, rfl, payloads_insert b event_json⟩
    · split
      · split
        · exact ⟨_, b.insert event_json, 0, rfl, payloads_insert b event_json⟩
        · rw [payloads_oldest, payloads_insert]
          refine ⟨_, _, (b.insert event_json).len - (b.insert event_json).max_events, rfl, ?_⟩
          rw [payloads_delete_oldest, payloads_insert]
      · exact ⟨_, b.insert event_json, 0, rfl, payloads_insert b event_json⟩

/-- **What a drain does**: nothing, or the oldest events leave the table. -/
theorem drain_cases (b : EventBuffer) (batch_size : ℕ) (fault : Option String) :
    (fault ≠ none ∧ ∃ e, b.drain batch_size fault = (.error e, b)) ∨
      fault = none ∧ ∃ b', b.drain batch_size fault = (.ok (b.payloads.take batch_size), b') ∧
        b'.payloads = b.payloads.drop batch_size := by
  unfold drain
  cases fault with
  | some e => exact .inl ⟨nofun, e, rfl⟩
  | none =>
    dsimp only
    rw [payloads_oldest]
    exact .inr ⟨rfl, _, rfl, payloads_delete_oldest b batch_size⟩

/-- Pushes within the cap stay, in order, and the next evicts the oldest. -/
example : (((new 2).push "a" none).2.1.push "b" none).2.1.payloads = ["a", "b"] ∧
    ((((new 2).push "a" none).2.1.push "b" none).2.1.push "c" none).2.2 = ["a"] := by decide

end EventBuffer

end AigisZero.Agent
