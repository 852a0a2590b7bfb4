import Mathlib.Data.List.DropRight
import Mathlib.Tactic.Common

/-!
# Bounded queues

A queue that holds at most so many items: what is pushed past the bound
evicts the oldest. What has left the queue, popped or evicted, is kept
beside it, so that every item is accounted for.
-/

namespace AigisZero

/-- How an item leaves a queue. -/
inductive Fate where
  | popped
  | evicted
deriving DecidableEq, Repr

/-- **A bounded queue**, oldest item first, and what has left it. -/
structure Fifo (α : Type*) where
  content : List α
  left : List (Fate × α)

/-- What is done with a queue. -/
inductive FifoOp (α : Type*) where
  | push (a : α)
  | pop (n : ℕ)

/-- What an operation adds. -/
def FifoOp.pushed {α : Type*} : FifoOp α → List α
  | .push a => [a]
  | .pop _ => []

namespace Fifo

variable {α β : Type*}

/-- What evicts nothing stays; else the last `bound` items do. -/
def push (bound : ℕ) (q : Fifo α) (a : α) : Fifo α where
  content := (q.content ++ [a]).rtake bound
  left := q.left ++ ((q.content ++ [a]).rdrop bound).map (Fate.evicted, ·)

/-- The first items leave the queue. -/
def pop (q : Fifo α) (n : ℕ) : Fifo α where
  content := q.content.drop n
  left := q.left ++ (q.content.take n).map (Fate.popped, ·)

/-- One operation. -/
def apply (bound : ℕ) (q : Fifo α) : FifoOp α → Fifo α
  | .push a => q.push bound a
  | .pop n => q.pop n

/-- All items a queue has ever held. -/
def items (q : Fifo α) : List α := q.left.map (·.2) ++ q.content

/-- Those that were popped. -/
def popped (q : Fifo α) : List α := (q.left.filter (·.1 = .popped)).map (·.2)

variable {bound : ℕ} {q : Fifo α} {a : α} {l : List α} {ops : List (FifoOp α)}

/-! ## The last items of a list -/

theorem rdrop_append_rtake (l : List α) (n : ℕ) : l.rdrop n ++ l.rtake n = l :=
  List.take_append_drop _ l

theorem length_rtake (l : List α) (n : ℕ) : (l.rtake n).length = min n l.length := by
  rw [List.rtake, List.length_drop]
  omega

/-- A list within the bound is its last items. -/
theorem rtake_eq_self {n : ℕ} (h : l.length ≤ n) : l.rtake n = l := by
  rw [List.rtake, Nat.sub_eq_zero_of_le h, List.drop_zero]

/-- The last items of the last items and more. -/
theorem rtake_rtake_append (l l' : List α) (n : ℕ) :
    (l.rtake n ++ l').rtake n = (l ++ l').rtake n := by
  rw [List.rtake, List.rtake, List.rtake, List.length_append, List.length_drop,
    List.length_append]
  by_cases h : l.length ≤ n
  · rw [Nat.sub_eq_zero_of_le h, List.drop_zero, Nat.sub_zero]
  · have hdrop : l.drop (l.length - n) ++ l' = (l ++ l').drop (l.length - n) := by
      rw [List.drop_append_of_le_length (by omega)]
    rw [hdrop, List.drop_drop]
    congr 1
    omega

/-- The last items of a list are the last of what it ends with. -/
theorem rtake_append_of_le {l' : List α} {n : ℕ} (h : n ≤ l'.length) :
    (l ++ l').rtake n = l'.rtake n := by
  rw [List.rtake, List.rtake, List.length_append,
    List.drop_append, List.drop_eq_nil_of_le (by omega), List.nil_append]
  congr 1
  omega

theorem map_rtake (f : α → β) (l : List α) (n : ℕ) : (l.rtake n).map f = (l.map f).rtake n := by
  rw [List.rtake, List.rtake, List.map_drop, List.length_map]

/-- The last item is among the last ones. -/
theorem getLast?_rtake {n : ℕ} (hn : 0 < n) (l : List α) :
    (l.rtake n).getLast? = l.getLast? := by
  rw [List.rtake, List.getLast?_drop]
  split
  · next h =>
    have hnil : l = [] := List.length_eq_zero_iff.1 (by omega)
    rw [hnil]
    rfl
  · rfl

/-- A filter leaves the last items as they are exactly when it takes all of
them. -/
theorem rtake_filter_eq_iff (p : α → Bool) (l : List α) (n : ℕ) :
    (l.filter p).rtake n = l.rtake n ↔ ∀ a ∈ l.rtake n, p a := by
  constructor
  · intro h a ha
    rw [← h] at ha
    exact (List.mem_filter.1 (List.mem_of_mem_drop ha)).2
  · intro h
    conv_lhs => rw [← rdrop_append_rtake l n, List.filter_append, List.filter_eq_self.2 h]
    by_cases hn : n ≤ l.length
    · rw [rtake_append_of_le (by rw [length_rtake]; omega), rtake_eq_self]
      rw [length_rtake]
      omega
    · have hnone : l.rdrop n = [] := by
        rw [List.rdrop, Nat.sub_eq_zero_of_le (by omega), List.take_zero]
      rw [hnone, List.filter_nil, List.nil_append, rtake_eq_self]
      rw [length_rtake]
      omega

/-! ## What a queue holds -/

@[simp] theorem items_push (bound : ℕ) (q : Fifo α) (a : α) :
    (q.push bound a).items = q.items ++ [a] := by
  rw [items, push, List.map_append, List.map_map, List.append_assoc]
  show q.left.map (·.2) ++ (((q.content ++ [a]).rdrop bound).map id ++ _) = _
  rw [List.map_id, rdrop_append_rtake, items, List.append_assoc]

@[simp] theorem items_pop (q : Fifo α) (n : ℕ) : (q.pop n).items = q.items := by
  rw [items, pop, List.map_append, List.map_map, List.append_assoc]
  show q.left.map (·.2) ++ ((q.content.take n).map id ++ _) = _
  rw [List.map_id, List.take_append_drop, items]

@[simp] theorem popped_push (bound : ℕ) (q : Fifo α) (a : α) :
    (q.push bound a).popped = q.popped := by
  have hnone : (((q.content ++ [a]).rdrop bound).map (Fate.evicted, ·)).filter
      (·.1 = Fate.popped) = [] := by
    refine List.filter_eq_nil_iff.2 fun p hp => ?_
    obtain ⟨b, -, rfl⟩ := List.mem_map.1 hp
    simp
  rw [popped, push, List.filter_append, hnone, List.append_nil, popped]

@[simp] theorem popped_pop (q : Fifo α) (n : ℕ) :
    (q.pop n).popped = q.popped ++ q.content.take n := by
  have hall : ((q.content.take n).map (Fate.popped, ·)).filter (·.1 = Fate.popped) =
      (q.content.take n).map (Fate.popped, ·) := by
    refine List.filter_eq_self.2 fun p hp => ?_
    obtain ⟨b, -, rfl⟩ := List.mem_map.1 hp
    simp
  rw [popped, pop, List.filter_append, hall, List.map_append, List.map_map]
  show _ ++ (q.content.take n).map id = _
  rw [List.map_id, popped]

/-- **Every item is accounted for**: what has left a queue, and then what
it holds, is what it held at first and then what was pushed. -/
theorem items_foldl (bound : ℕ) (q : Fifo α) (ops : List (FifoOp α)) :
    (ops.foldl (apply bound) q).items = q.items ++ ops.flatMap FifoOp.pushed := by
  induction ops generalizing q with
  | nil => rw [List.foldl_nil, List.flatMap_nil, List.append_nil]
  | cons op ops ih =>
    rw [List.foldl_cons, ih, List.flatMap_cons, ← List.append_assoc]
    cases op with
    | push a => rw [apply, items_push]; rfl
    | pop n => rw [apply, items_pop]; exact congrArg (· ++ _) (List.append_nil _).symm

/-- What is popped is popped in the order it was pushed. -/
theorem popped_sublist_items (q : Fifo α) : q.popped.Sublist q.items :=
  (List.filter_sublist.map _).trans (List.sublist_append_left _ _)

end Fifo

end AigisZero
