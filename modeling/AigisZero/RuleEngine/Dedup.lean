import AigisZero.Library.Lru
import AigisZero.Library.Uuid
import Mathlib.Data.Fin.VecNotation
import Mathlib.Algebra.BigOperators.Fin
import Mathlib.Algebra.Order.BigOperators.Group.Finset

/-!
# The sharded deduplicator

The deduplicator of the rule engine keeps, per shard, a bounded map from
the signature of an alert to the time of its last emission. An alert is
let through unless one of its signature was emitted less than the window
ago; a suppressed one leaves the recorded time as it is. Being bounded,
the map forgets. This file says what it forgets: a signature only once
as many others as the shard holds were checked in that shard after it.
-/

namespace AigisZero.RuleEngine

/-- What makes two alerts duplicates. -/
structure AlertSignature where
  node_id : Uuid
  rule_identifier : String
  mitre_technique : Option String
deriving DecidableEq, Repr

/-- The number of shards. -/
def SHARD_COUNT : ℕ := 16

/-- **The deduplicator**: one map per shard, each of `perShard` entries,
from a signature to the time it was last let through and the number of
alerts since. Times and the window are in one unit, on one monotonic
clock. -/
structure ShardedDeduplicator where
  /-- The capacity of a shard. -/
  perShard : ℕ
  perShard_pos : 0 < perShard
  /-- The maps. -/
  shards : Fin SHARD_COUNT → Lru AlertSignature (ℕ × ℕ) perShard
  /-- How long a signature is suppressed once let through. -/
  suppressionWindow : ℕ

/-- One `check_and_record` call: the signature and the clock. -/
structure Call where
  sig : AlertSignature
  now : ℕ
deriving DecidableEq, Repr

namespace ShardedDeduplicator

/-- `ShardedDeduplicator::new`: the capacity is dealt out evenly, and a
shard must get some. -/
def new (totalCapacity suppressionWindow : ℕ) : Except String ShardedDeduplicator :=
  if h : 0 < totalCapacity / SHARD_COUNT then
    .ok ⟨totalCapacity / SHARD_COUNT, h, fun _ => Lru.empty, suppressionWindow⟩
  else .error "dedup capacity must be >= SHARD_COUNT (16)"

variable (hash : Uuid → ℕ)

/-- The shard of a signature: the node alone decides it. -/
def shardIndex (sig : AlertSignature) : Fin SHARD_COUNT :=
  ⟨hash sig.node_id % SHARD_COUNT, Nat.mod_lt _ (by decide)⟩

/-- What a call makes of the shard it locks: whether the alert is let
through, and the map after the check. The count wraps at 64 bits. -/
def checkShard {perShard : ℕ} (suppressionWindow : ℕ)
    (lock : Lru AlertSignature (ℕ × ℕ) perShard) (sig : AlertSignature) (now : ℕ) :
    Bool × Lru AlertSignature (ℕ × ℕ) perShard :=
  match lock.getMut sig with
  | some ((lastSeen, count), write) =>
    -- a suppressed call counts up and leaves the time alone
    if now - lastSeen < suppressionWindow then
      (false, write (lastSeen, (count + 1) % 2 ^ 64))
    else (true, write (now, 1))
  | none => (true, lock.put sig (now, 1))

/-- The deduplicator with another map in one shard. -/
abbrev store (d : ShardedDeduplicator) (i : Fin SHARD_COUNT)
    (lock : Lru AlertSignature (ℕ × ℕ) d.perShard) : ShardedDeduplicator :=
  { d with shards := Function.update d.shards i lock }

/-- `check_and_record`: whether the alert is let through, and the
deduplicator after the check. -/
def checkAndRecord (d : ShardedDeduplicator) (sig : AlertSignature) (now : ℕ) :
    Bool × ShardedDeduplicator :=
  let idx := shardIndex hash sig
  let (passed, lock) := checkShard d.suppressionWindow (d.shards idx) sig now
  (passed, d.store idx lock)

/-- The deduplicator after a sequence of calls. -/
def run (d : ShardedDeduplicator) : List Call → ShardedDeduplicator
  | [] => d
  | c :: cs => (d.checkAndRecord hash c.sig c.now).2.run cs

/-- The calls of a sequence, each with its answer. -/
def trace (d : ShardedDeduplicator) : List Call → List (Call × Bool)
  | [] => []
  | c :: cs =>
    (c, (d.checkAndRecord hash c.sig c.now).1) :: (d.checkAndRecord hash c.sig c.now).2.trace cs

/-- How many entries the maps hold. -/
def size (d : ShardedDeduplicator) : ℕ := ∑ i, (d.shards i).entries.length

/-- When the signature was last let through, as far as its shard
remembers. -/
def lastSeen (d : ShardedDeduplicator) (sig : AlertSignature) : Option ℕ :=
  ((d.shards (shardIndex hash sig)).peek sig).map Prod.fst

end ShardedDeduplicator

/-! ## One call -/

namespace ShardedDeduplicator

variable {hash : Uuid → ℕ} {d : ShardedDeduplicator} {sig sig' : AlertSignature} {now t : ℕ}

/-- A call puts the entry of its signature, and suppresses when the one it
finds is recent. -/
theorem checkShard_cases {perShard : ℕ} (window : ℕ) (lock : Lru AlertSignature (ℕ × ℕ) perShard)
    (sig : AlertSignature) (now : ℕ) : ∃ passed v,
      checkShard window lock sig now = (passed, lock.put sig v) ∧
      (passed = true → v.1 = now ∧
        ∀ t, (lock.peek sig).map Prod.fst = some t → window ≤ now - t) ∧
      (passed = false → (lock.peek sig).map Prod.fst = some v.1 ∧ now - v.1 < window) := by
  simp only [checkShard, Lru.getMut]
  cases hpeek : lock.peek sig with
  | none => exact ⟨true, (now, 1), by simp⟩
  | some v =>
    obtain ⟨lastSeen, count⟩ := v
    by_cases hw : now - lastSeen < window
    · exact ⟨false, (lastSeen, (count + 1) % 2 ^ 64), by simp [hw]⟩
    · exact ⟨true, (now, 1), by simp [hw]; omega⟩

theorem checkAndRecord_cases (hash : Uuid → ℕ) (d : ShardedDeduplicator) (sig : AlertSignature)
    (now : ℕ) : ∃ passed v,
      d.checkAndRecord hash sig now = (passed, d.store (shardIndex hash sig)
        ((d.shards (shardIndex hash sig)).put sig v)) ∧
      (passed = true → v.1 = now ∧
        ∀ t, d.lastSeen hash sig = some t → d.suppressionWindow ≤ now - t) ∧
      (passed = false → d.lastSeen hash sig = some v.1 ∧ now - v.1 < d.suppressionWindow) := by
  obtain ⟨passed, v, hcheck, h⟩ :=
    checkShard_cases d.suppressionWindow (d.shards (shardIndex hash sig)) sig now
  exact ⟨passed, v, by rw [checkAndRecord, hcheck], h⟩

@[simp] theorem checkAndRecord_suppressionWindow :
    (d.checkAndRecord hash sig now).2.suppressionWindow = d.suppressionWindow := by
  obtain ⟨passed, v, hd, -⟩ := checkAndRecord_cases hash d sig now
  rw [hd, store]

@[simp] theorem checkAndRecord_perShard :
    (d.checkAndRecord hash sig now).2.perShard = d.perShard := by
  obtain ⟨passed, v, hd, -⟩ := checkAndRecord_cases hash d sig now
  rw [hd, store]

/-- **A call is suppressed exactly while its signature was last let
through less than the window ago**, as far as the shard remembers. -/
theorem checkAndRecord_eq_false_iff : (d.checkAndRecord hash sig now).1 = false ↔
    ∃ t, d.lastSeen hash sig = some t ∧ now - t < d.suppressionWindow := by
  obtain ⟨passed, v, hd, hpass, hsup⟩ := checkAndRecord_cases hash d sig now
  rw [hd]
  constructor
  · intro h
    exact ⟨v.1, hsup h⟩
  · rintro ⟨t, ht, hlt⟩
    cases passed with
    | false => rfl
    | true => exact absurd hlt (Nat.not_lt.2 ((hpass rfl).2 t ht))

/-- **What a call makes of the recorded times**: the one of its own
signature becomes the clock when it is let through, and no other time
appears. -/
theorem lastSeen_of_checkAndRecord
    (h : (d.checkAndRecord hash sig now).2.lastSeen hash sig' = some t) :
    if sig = sig' ∧ (d.checkAndRecord hash sig now).1 = true then t = now
    else d.lastSeen hash sig' = some t := by
  obtain ⟨passed, v, hd, hpass, hsup⟩ := checkAndRecord_cases hash d sig now
  rw [hd] at h ⊢
  simp only [lastSeen, Option.map_eq_some_iff] at h hsup ⊢
  -- the entry of the call is the one just put; another may only have been evicted
  obtain ⟨w, hw, rfl⟩ := h
  by_cases hsig : sig = sig'
  · subst hsig
    rw [Function.update_self, Lru.peek_put_self d.perShard_pos] at hw
    obtain rfl := Option.some.inj hw
    cases passed with
    | true => simpa using (hpass rfl).1
    | false => simpa using (hsup rfl).1
  · simp only [hsig, false_and, if_false]
    by_cases hshard : shardIndex hash sig' = shardIndex hash sig
    · rw [hshard, Function.update_self] at hw
      exact ⟨w, hshard ▸ Lru.peek_of_peek_put (Ne.symm hsig) hw, rfl⟩
    · rw [Function.update_of_ne hshard] at hw
      exact ⟨w, hw, rfl⟩

end ShardedDeduplicator

/-! ## The exact deduplicator -/

/-- A deduplicator without a bound on what it remembers: when each
signature was last let through. -/
structure ExactDeduplicator where
  /-- The last emission of a signature. -/
  last : AlertSignature → Option ℕ
  suppressionWindow : ℕ

/-- The exact check: a signature is suppressed while its last emission is
less than the window ago. -/
def ExactDeduplicator.checkAndRecord (e : ExactDeduplicator) (sig : AlertSignature) (now : ℕ) :
    Bool × ExactDeduplicator :=
  match e.last sig with
  | some t₀ =>
    if now - t₀ < e.suppressionWindow then (false, e)
    else (true, { e with last := Function.update e.last sig (some now) })
  | none => (true, { e with last := Function.update e.last sig (some now) })

/-- When a call of the signature was last let through. -/
def lastEmission (sig : AlertSignature) : List (Call × Bool) → Option ℕ
  | [] => none
  | (c, passed) :: h =>
    (lastEmission sig h).or (if c.sig = sig ∧ passed = true then some c.now else none)

variable {sig : AlertSignature} {h h' : List (Call × Bool)} {t : ℕ}

theorem lastEmission_append :
    lastEmission sig (h ++ h') = (lastEmission sig h').or (lastEmission sig h) := by
  induction h with
  | nil => simp [lastEmission]
  | cons e h ih => rw [List.cons_append, lastEmission, ih, lastEmission, Option.or_assoc]

theorem lastEmission_eq_none :
    lastEmission sig h = none ↔ ∀ e ∈ h, e.1.sig = sig → e.2 = false := by
  induction h with
  | nil => simp [lastEmission]
  | cons e h ih =>
    obtain ⟨c, passed⟩ := e
    simp only [lastEmission, Option.or_eq_none_iff, ih, List.forall_mem_cons]
    cases passed <;> simp [and_comm]

/-- The last emission is the time of a call that was let through, with
none of its signature let through after it. -/
theorem lastEmission_eq_some : lastEmission sig h = some t ↔
    ∃ h₁ c₀ h₂, h = h₁ ++ (c₀, true) :: h₂ ∧ c₀.sig = sig ∧ c₀.now = t ∧
      ∀ e ∈ h₂, e.1.sig = sig → e.2 = false := by
  constructor
  · intro hlast
    induction h with
    | nil => simp [lastEmission] at hlast
    | cons e h ih =>
      obtain ⟨c, passed⟩ := e
      rcases Option.or_eq_some_iff.1 hlast with hlast | ⟨hnone, hif⟩
      · obtain ⟨h₁, c₀, h₂, rfl, hc₀⟩ := ih hlast
        exact ⟨(c, passed) :: h₁, c₀, h₂, rfl, hc₀⟩
      · obtain ⟨⟨hsig, rfl⟩, ht⟩ := Option.ite_none_right_eq_some.1 hif
        exact ⟨[], c, h, rfl, hsig, Option.some.inj ht, lastEmission_eq_none.1 hnone⟩
  · rintro ⟨h₁, c₀, h₂, rfl, hsig, rfl, hlater⟩
    rw [lastEmission_append, lastEmission, lastEmission_eq_none.2 hlater]
    simp [hsig]

namespace ShardedDeduplicator

variable {hash : Uuid → ℕ} {d : ShardedDeduplicator} {calls : List Call}

@[simp] theorem run_suppressionWindow :
    (d.run hash calls).suppressionWindow = d.suppressionWindow := by
  induction calls generalizing d with
  | nil => rfl
  | cons c cs ih => rw [run, ih, checkAndRecord_suppressionWindow]

@[simp] theorem run_perShard : (d.run hash calls).perShard = d.perShard := by
  induction calls generalizing d with
  | nil => rfl
  | cons c cs ih => rw [run, ih, checkAndRecord_perShard]

theorem run_append {calls' : List Call} :
    d.run hash (calls ++ calls') = (d.run hash calls).run hash calls' := by
  induction calls generalizing d with
  | nil => rfl
  | cons c cs ih => exact ih

/-! ## What is remembered is true -/

/-- **The coupling**: a time the deduplicator remembers for a signature
is that of its last emission. -/
def Coupled (hash : Uuid → ℕ) (h : List (Call × Bool)) (d : ShardedDeduplicator) : Prop :=
  ∀ sig t, d.lastSeen hash sig = some t → lastEmission sig h = some t

/-- One call keeps the coupling. -/
theorem Coupled.checkAndRecord {c : Call} (hd : Coupled hash h d) :
    Coupled hash (h ++ [(c, (d.checkAndRecord hash c.sig c.now).1)])
      (d.checkAndRecord hash c.sig c.now).2 := by
  intro sig t ht
  have hcall := lastSeen_of_checkAndRecord ht
  rw [lastEmission_append]
  split at hcall
  · next hpass => rw [lastEmission, lastEmission, if_pos hpass, hcall]; rfl
  · next hpass => rw [lastEmission, lastEmission, if_neg hpass, hd sig t hcall]; rfl

/-- A sequence of calls keeps it. -/
theorem Coupled.run (hd : Coupled hash h d) :
    Coupled hash (h ++ d.trace hash calls) (d.run hash calls) := by
  induction calls generalizing d h with
  | nil => simpa [trace, ShardedDeduplicator.run] using hd
  | cons c cs ih =>
    -- the first call joins the past, and the rest go on from there
    rw [trace, List.append_cons]
    exact ih hd.checkAndRecord

/-- A fresh deduplicator remembers nothing. -/
theorem coupled_new {totalCapacity window : ℕ} (hnew : new totalCapacity window = .ok d) :
    Coupled hash [] d := by
  simp only [new] at hnew
  split at hnew
  · cases hnew
    intro sig t ht
    simp [lastSeen] at ht
  · cases hnew

/-! ## What is forgotten had to go -/

/-- The entry of `sig` is in its shard with value `v`, and only signatures
of `D` were checked there since. -/
def Holds (hash : Uuid → ℕ) (d : ShardedDeduplicator) (sig : AlertSignature) (v : ℕ × ℕ)
    (D : Finset AlertSignature) : Prop :=
  (d.shards (shardIndex hash sig)).Within sig v D

variable {v : ℕ × ℕ} {D : Finset AlertSignature} {now : ℕ} {c : Call}

theorem Holds.lastSeen (hv : d.Holds hash sig v D) : d.lastSeen hash sig = some v.1 := by
  rw [ShardedDeduplicator.lastSeen, Lru.Within.peek hv]; rfl

theorem holds_store_self {lock : Lru AlertSignature (ℕ × ℕ) d.perShard} :
    (d.store (shardIndex hash sig) lock).Holds hash sig v D ↔ lock.Within sig v D := by
  simp only [Holds, Function.update_self]

theorem holds_store_of_ne {i : Fin SHARD_COUNT} {lock : Lru AlertSignature (ℕ × ℕ) d.perShard}
    (h : shardIndex hash sig ≠ i) : (d.store i lock).Holds hash sig v D ↔ d.Holds hash sig v D := by
  simp only [Holds, Function.update_of_ne h]

/-- A signature just checked is held, with nothing after it. -/
theorem holds_checkAndRecord_self (hash : Uuid → ℕ) (d : ShardedDeduplicator)
    (sig : AlertSignature) (now : ℕ) :
    ∃ v, (d.checkAndRecord hash sig now).2.Holds hash sig v ∅ := by
  obtain ⟨passed, v, hd, -⟩ := checkAndRecord_cases hash d sig now
  refine ⟨v, ?_⟩
  rw [hd]
  exact holds_store_self.2 (Lru.within_put_self d.perShard_pos)

/-- The signatures a sequence of calls checks in the shard of `sig`. -/
def checkedBeside (hash : Uuid → ℕ) (sig : AlertSignature) (calls : List Call) :
    Finset AlertSignature :=
  ((calls.map Call.sig).filter (shardIndex hash · = shardIndex hash sig)).toFinset

/-- A call of another signature leaves it held, while the shard has room
for what was checked since. -/
theorem Holds.checkAndRecord (hv : d.Holds hash sig v D) (hne : c.sig ≠ sig)
    (hroom : (checkedBeside hash sig [c] ∪ D).card < d.perShard) :
    (d.checkAndRecord hash c.sig c.now).2.Holds hash sig v (checkedBeside hash sig [c] ∪ D) := by
  obtain ⟨passed, w, hd, -⟩ := checkAndRecord_cases hash d c.sig c.now
  rw [hd]
  by_cases hshard : shardIndex hash c.sig = shardIndex hash sig
  · have hbeside : checkedBeside hash sig [c] ∪ D = insert c.sig D := by
      simp [checkedBeside, hshard]
    rw [hbeside] at hroom ⊢
    rw [hshard]
    exact holds_store_self.2 (Lru.Within.put hv hne hroom)
  · have hbeside : checkedBeside hash sig [c] ∪ D = D := by
      simp [checkedBeside, hshard]
    rw [hbeside]
    exact (holds_store_of_ne (Ne.symm hshard)).2 hv

/-- A sequence of calls of other signatures leaves it held, with room. -/
theorem Holds.run (hv : d.Holds hash sig v D) (hne : ∀ c ∈ calls, c.sig ≠ sig)
    (hroom : (checkedBeside hash sig calls ∪ D).card < d.perShard) :
    (d.run hash calls).Holds hash sig v (checkedBeside hash sig calls ∪ D) := by
  induction calls generalizing d D with
  | nil => simpa [checkedBeside, ShardedDeduplicator.run] using hv
  | cons c cs ih =>
    have hbeside : checkedBeside hash sig (c :: cs) ∪ D =
        checkedBeside hash sig cs ∪ (checkedBeside hash sig [c] ∪ D) := by
      ext s
      simp only [checkedBeside, List.map_cons, List.map_nil, Finset.mem_union, List.mem_toFinset,
        List.mem_filter, List.mem_cons, List.not_mem_nil]
      tauto
    rw [hbeside] at hroom ⊢
    -- what one call checks is among what all of them do, so there is room for it
    have hroomc : (checkedBeside hash sig [c] ∪ D).card < d.perShard :=
      (Finset.card_le_card Finset.subset_union_right).trans_lt hroom
    refine ih (hv.checkAndRecord (hne c List.mem_cons_self) hroomc)
      (fun c' hc' => hne c' (List.mem_cons_of_mem _ hc')) ?_
    rwa [checkAndRecord_perShard]

/-! ## Shards do not meet -/

/-- Two deduplicators that agree on one shard. -/
def AgreeAt (i : Fin SHARD_COUNT) (d d' : ShardedDeduplicator) : Prop :=
  ∃ shards, d' = { d with shards := shards } ∧ shards i = d.shards i

/-- A call answers alike where its shard is alike, and leaves it alike. -/
theorem AgreeAt.checkAndRecord {d' : ShardedDeduplicator} (h : AgreeAt (shardIndex hash sig) d d')
    (now : ℕ) :
    (d'.checkAndRecord hash sig now).1 = (d.checkAndRecord hash sig now).1 ∧
      AgreeAt (shardIndex hash sig) (d.checkAndRecord hash sig now).2
        (d'.checkAndRecord hash sig now).2 := by
  obtain ⟨shards, rfl, hshard⟩ := h
  simp only [ShardedDeduplicator.checkAndRecord, hshard]
  exact ⟨trivial, _, rfl, by simp only [store, Function.update_self]⟩

/-- A call in another shard leaves it alike. -/
theorem AgreeAt.checkAndRecord_of_ne {d' : ShardedDeduplicator} {i : Fin SHARD_COUNT}
    (h : AgreeAt i d d') (hi : shardIndex hash sig ≠ i) :
    AgreeAt i (d.checkAndRecord hash sig now).2 d' := by
  obtain ⟨shards, rfl, hshard⟩ := h
  obtain ⟨passed, v, hd, -⟩ := checkAndRecord_cases hash d sig now
  rw [hd]
  exact ⟨shards, rfl, by simp only [store, hshard, Function.update_of_ne (Ne.symm hi)]⟩

/-- **The calls of one shard are answered as if they were all there are.** -/
theorem trace_filter {i : Fin SHARD_COUNT} {d' : ShardedDeduplicator} (h : AgreeAt i d d') :
    (d.trace hash calls).filter (shardIndex hash ·.1.sig = i) =
      d'.trace hash (calls.filter (shardIndex hash ·.sig = i)) := by
  induction calls generalizing d d' with
  | nil => rfl
  | cons c cs ih =>
    -- a call of the shard is answered alike by both; any other is not asked of the second
    by_cases hc : shardIndex hash c.sig = i
    · subst hc
      obtain ⟨hans, hagree⟩ := h.checkAndRecord c.now
      simp only [trace, decide_true, List.filter_cons_of_pos]
      rw [hans, ih hagree]
    · rw [trace, List.filter_cons_of_neg (by simpa using hc),
        List.filter_cons_of_neg (by simpa using hc)]
      exact ih (h.checkAndRecord_of_ne hc)

/-! ## The refinement -/

theorem size_le (d : ShardedDeduplicator) : d.size ≤ SHARD_COUNT * d.perShard := by
  calc d.size ≤ ∑ _i : Fin SHARD_COUNT, d.perShard :=
        Finset.sum_le_sum fun i _ => (d.shards i).length_le
    _ = SHARD_COUNT * d.perShard := by simp

theorem new_eq_ok {totalCapacity window : ℕ} (hnew : new totalCapacity window = .ok d) :
    d.perShard = totalCapacity / SHARD_COUNT ∧ d.suppressionWindow = window := by
  simp only [new] at hnew
  split at hnew
  · cases hnew; exact ⟨rfl, rfl⟩
  · cases hnew

/-- What it is for the deduplicator to do the work of an exact one within
`totalCapacity` entries. -/
structure RefinesExact (hash : Uuid → ℕ) (totalCapacity window : ℕ) (d : ShardedDeduplicator) :
    Prop where
  /-- A suppressed call has an emission of its signature less than the
  window before it, and none of its signature since: what is suppressed
  does not extend the window. -/
  suppressed_recent : ∀ (before : List Call) (c : Call),
    ((d.run hash before).checkAndRecord hash c.sig c.now).1 = false →
    ∃ h₁ c₀ h₂, d.trace hash before = h₁ ++ (c₀, true) :: h₂ ∧ c₀.sig = c.sig ∧
      c.now - c₀.now < window ∧ ∀ e ∈ h₂, e.1.sig = c.sig → e.2 = false
  /-- A call of a signature checked before is answered exactly, where
  fewer others than a shard holds were checked in its shard since. -/
  exact_while_room : ∀ (b₁ : List Call) (c₀ : Call) (b₂ : List Call) (c : Call),
    c₀.sig = c.sig → (∀ c' ∈ b₂, c'.sig ≠ c.sig) →
    (checkedBeside hash c.sig b₂).card < totalCapacity / SHARD_COUNT →
    let before := b₁ ++ c₀ :: b₂
    let answer := ((d.run hash before).checkAndRecord hash c.sig c.now).1
    (∃ t₀, lastEmission c.sig (d.trace hash before) = some t₀ ∧
      (answer = false ↔ c.now - t₀ < window)) ∧
    answer = (ExactDeduplicator.checkAndRecord
      ⟨fun sig => lastEmission sig (d.trace hash before), window⟩ c.sig c.now).1
  /-- The calls of a shard are answered as they would be without the calls
  of the others. -/
  shard_local : ∀ i calls, (d.trace hash calls).filter (shardIndex hash ·.1.sig = i) =
    d.trace hash (calls.filter (shardIndex hash ·.sig = i))
  /-- The maps never hold more than the capacity. -/
  size_le : ∀ calls, (d.run hash calls).size ≤ totalCapacity

/-- A suppressed call has a recent emission. -/
theorem suppressed_recent (hcoupled : Coupled hash [] d) (before : List Call) (c : Call)
    (hans : ((d.run hash before).checkAndRecord hash c.sig c.now).1 = false) :
    ∃ h₁ c₀ h₂, d.trace hash before = h₁ ++ (c₀, true) :: h₂ ∧ c₀.sig = c.sig ∧
      c.now - c₀.now < d.suppressionWindow ∧ ∀ e ∈ h₂, e.1.sig = c.sig → e.2 = false := by
  obtain ⟨t, hlast, hlt⟩ := checkAndRecord_eq_false_iff.1 hans
  rw [run_suppressionWindow] at hlt
  have hemit := hcoupled.run _ _ hlast
  rw [List.nil_append] at hemit
  obtain ⟨h₁, c₀, h₂, htrace, hsig, rfl, hlater⟩ := lastEmission_eq_some.1 hemit
  exact ⟨h₁, c₀, h₂, htrace, hsig, hlt, hlater⟩

/-- A signature checked before is remembered, while there is room. -/
theorem lastSeen_run (d : ShardedDeduplicator) (b₁ : List Call) {b₂ : List Call} {c₀ : Call}
    (hsig : c₀.sig = sig) (hne : ∀ c ∈ b₂, c.sig ≠ sig)
    (hroom : (checkedBeside hash sig b₂).card < d.perShard) :
    ∃ t, (d.run hash (b₁ ++ c₀ :: b₂)).lastSeen hash sig = some t := by
  obtain ⟨v, hv⟩ := holds_checkAndRecord_self hash (d.run hash b₁) sig c₀.now
  rw [run_append, run, hsig]
  refine ⟨v.1, Holds.lastSeen (hv.run hne ?_)⟩
  simpa using hroom

/-- **The sharded deduplicator refines the exact one.** -/
theorem new_refinesExact {totalCapacity window : ℕ} (hnew : new totalCapacity window = .ok d) :
    RefinesExact hash totalCapacity window d := by
  obtain ⟨hcap, rfl⟩ := new_eq_ok hnew
  have hcoupled : Coupled hash [] d := coupled_new hnew
  refine ⟨suppressed_recent hcoupled, ?_, fun i calls => trace_filter ⟨d.shards, rfl, rfl⟩, ?_⟩
  · intro b₁ c₀ b₂ c hsig hne hroom before answer
    -- there is room, so the shard remembers; and what it remembers is the last emission
    obtain ⟨t₀, hlast⟩ := lastSeen_run d b₁ hsig hne (hcap ▸ hroom)
    have hemit : lastEmission c.sig (d.trace hash before) = some t₀ := by
      simpa using hcoupled.run _ _ hlast
    have hans : answer = false ↔ c.now - t₀ < d.suppressionWindow := by
      refine checkAndRecord_eq_false_iff.trans ?_
      rw [hlast, run_suppressionWindow]
      simp
    refine ⟨⟨t₀, hemit, hans⟩, ?_⟩
    simp only [ExactDeduplicator.checkAndRecord, hemit]
    by_cases hlt : c.now - t₀ < d.suppressionWindow
    · rw [if_pos hlt, hans.2 hlt]
    · rw [if_neg hlt]
      exact Bool.eq_true_of_not_eq_false fun h => hlt (hans.1 h)
  · intro calls
    have hsize := ShardedDeduplicator.size_le (d.run hash calls)
    rw [run_perShard, hcap] at hsize
    exact hsize.trans (Nat.mul_div_le totalCapacity SHARD_COUNT)

/-- A deduplicator of one entry a shard. -/
theorem new_refinesExact_sixteen : RefinesExact (fun u => u.bits.toNat) 16 60
    ⟨1, Nat.one_pos, fun _ => Lru.empty, 60⟩ :=
  new_refinesExact rfl

end ShardedDeduplicator

end AigisZero.RuleEngine
