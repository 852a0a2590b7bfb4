import AigisZero.Library.InsertionMap
import Mathlib.Data.Int.Notation

/-!
# The query cache of the console

What was fetched is kept under its key, with the time it was kept at, and
a fetch that is under way is shared by all who ask for its key meanwhile.
A fetch is known here by the number of its promise. Data is a value or
`null`, and `null` is what `get` says of a key that has none.
-/

namespace AigisZero.Frontend

/-! ## Regular expressions -/

/-- A regular expression object: where the match ends that it finds in a
string from an index on (at that index, where it is sticky), its flags,
and the index its next match starts from. -/
structure RegExp where
  find : String → ℕ → Option ℕ
  global : Bool
  sticky : Bool
  lastIndex : ℕ

namespace RegExp

/-- `RegExp.prototype.test`: with the g or y flag the match starts at
`lastIndex`, which is left at its end, or at 0 where there was none. -/
def test (pattern : RegExp) (s : String) : Bool × RegExp :=
  if pattern.global || pattern.sticky then
    match pattern.find s pattern.lastIndex with
    | some index => (true, { pattern with lastIndex := index })
    | none => (false, { pattern with lastIndex := 0 })
  else ((pattern.find s 0).isSome, pattern)

/-- The expression matches a string. -/
def matching (pattern : RegExp) (s : String) : Bool := (pattern.find s 0).isSome

/-- The keys that test positive when they are tested one after the other. -/
def hits (pattern : RegExp) : List String → List String
  | [] => []
  | key :: keys =>
    match pattern.test key with
    | (true, pattern) => key :: pattern.hits keys
    | (false, pattern) => pattern.hits keys

/-- The keys that the expression matches and that test negative in their
turn. -/
def passedOver (pattern : RegExp) (keys : List String) : List String :=
  keys.filter fun key => pattern.matching key && key ∉ pattern.hits keys

/-- **Without the g and y flags every key is tested alike.** -/
theorem hits_of_stateless {pattern : RegExp} (h : (pattern.global || pattern.sticky) = false)
    (keys : List String) : pattern.hits keys = keys.filter pattern.matching := by
  induction keys with
  | nil => rfl
  | cons key keys ih =>
    have htest : pattern.test key = (pattern.matching key, pattern) := by
      unfold test
      rw [h]
      rfl
    unfold hits
    rw [htest]
    cases hkey : pattern.matching key with
    | true =>
      rw [List.filter_cons_of_pos hkey, ← ih]
    | false =>
      rw [List.filter_cons_of_neg (by simp [hkey]), ← ih]

/-- Such an expression passes over no key. -/
theorem passedOver_of_stateless {pattern : RegExp}
    (h : (pattern.global || pattern.sticky) = false) (keys : List String) :
    pattern.passedOver keys = [] := by
  unfold passedOver
  rw [hits_of_stateless h, List.filter_eq_nil_iff]
  intro key hkey
  simp [hkey]

end RegExp

/-! ## The cache -/

variable {V : Type*}

/-- `CacheEntry`. -/
structure CacheEntry (V : Type*) where
  data : Option V
  timestamp : ℤ

/-- `QueryCache`. -/
structure QueryCache (V : Type*) where
  cache : InsertionMap String (CacheEntry V)
  inFlight : InsertionMap String ℕ
  defaultTtlMs : ℤ

/-- What `fetchWithDedupe` comes to before it first waits: cached data, a
promise that was in flight, the promise of a fetch it started, or the error
of a fetcher that threw. -/
inductive Asked (V : Type*) where
  | cached (data : V)
  | existing (promise : ℕ)
  | started (promise : ℕ)
  | threw

namespace QueryCache

/-- `new QueryCache(defaultTtlMs)`. -/
def new (defaultTtlMs : ℤ) : QueryCache V := ⟨.empty, .empty, defaultTtlMs⟩

/-- `get`. -/
def get (q : QueryCache V) (key : String) : Option V :=
  match q.cache.get? key with
  | none => none
  | some entry => entry.data

/-- `isFresh`, at a time of the clock. -/
def isFresh (q : QueryCache V) (key : String) (ttlMs : Option ℤ) (now : ℤ) : Bool :=
  match q.cache.get? key with
  | none => false
  | some entry =>
    let ttl := ttlMs.getD q.defaultTtlMs
    now - entry.timestamp < ttl

/-- `set`. -/
def set (q : QueryCache V) (key : String) (data : Option V) (now : ℤ) : QueryCache V :=
  { q with cache := q.cache.set key { data := data, timestamp := now } }

/-- `invalidate`. -/
def invalidate (q : QueryCache V) (key : String) : QueryCache V :=
  { q with cache := q.cache.delete key }

/-- `invalidatePattern`, and the expression as it leaves it. The keys are
gone through in the order of insertion. -/
def invalidatePattern (q : QueryCache V) (pattern : RegExp) : QueryCache V × RegExp :=
  q.cache.keys.foldl (fun (q, pattern) key =>
    match pattern.test key with
    | (true, pattern) => ({ q with cache := q.cache.delete key }, pattern)
    | (false, pattern) => (q, pattern)) (q, pattern)

/-- `clear`. -/
def clear (q : QueryCache V) : QueryCache V :=
  { q with cache := .empty, inFlight := .empty }

/-- `fetchWithDedupe`, up to where it waits: `fetcher` is the promise a call
of the fetcher returns, or nothing where the call throws. -/
def fetchWithDedupe (q : QueryCache V) (key : String) (fetcher : Option ℕ) (ttlMs : Option ℤ)
    (now : ℤ) : Asked V × QueryCache V :=
  match if q.isFresh key ttlMs now then q.get key else none with
  | some cached => (.cached cached, q)
  | none =>
    match q.inFlight.get? key with
    | some existingPromise => (.existing existingPromise, q)
    | none =>
      match fetcher with
      | none => (.threw, q)
      | some promise => (.started promise, { q with inFlight := q.inFlight.set key promise })

/-- What `fetchWithDedupe` does once its fetcher has resolved. -/
def fulfilled (q : QueryCache V) (key : String) (data : Option V) (now : ℤ) : QueryCache V :=
  let q := q.set key data now
  { q with inFlight := q.inFlight.delete key }

/-- What `fetchWithDedupe` does once its fetcher has failed. -/
def rejected (q : QueryCache V) (key : String) : QueryCache V :=
  { q with inFlight := q.inFlight.delete key }

/-! ## What the operations do -/

variable {q : QueryCache V} {key key' : String} {data : Option V} {ttlMs : Option ℤ} {now : ℤ}
  {fetcher : Option ℕ}

theorem get_set : (q.set key data now).get key' = if key' = key then data else q.get key' := by
  unfold get set
  dsimp only
  rw [InsertionMap.get?_set]
  by_cases h : key' = key
  · rw [if_pos h, if_pos h]
  · rw [if_neg h, if_neg h]

theorem get_invalidate : (q.invalidate key).get key' = if key' = key then none else q.get key' := by
  unfold get invalidate
  dsimp only
  rw [InsertionMap.get?_delete]
  by_cases h : key' = key
  · rw [if_pos h, if_pos h]
  · rw [if_neg h, if_neg h]

theorem get_fulfilled :
    (q.fulfilled key data now).get key' = if key' = key then data else q.get key' := get_set

/-- **The keys that test positive are deleted**, and nothing else changes. -/
theorem invalidatePattern_eq (pattern : RegExp) :
    (q.invalidatePattern pattern).1 =
      { q with cache := (pattern.hits q.cache.keys).foldl InsertionMap.delete q.cache } := by
  unfold invalidatePattern
  generalize q.cache.keys = keys
  induction keys generalizing q pattern with
  | nil => rfl
  | cons key keys ih =>
    rw [List.foldl_cons]
    unfold RegExp.hits
    cases htest : pattern.test key with
    | mk hit pattern' =>
      simp only [htest]
      cases hit with
      | true => exact ih (q := { q with cache := q.cache.delete key }) pattern'
      | false => exact ih (q := q) pattern'

theorem get_invalidatePattern (pattern : RegExp) :
    (q.invalidatePattern pattern).1.get key =
      if key ∈ pattern.hits q.cache.keys then none else q.get key := by
  rw [invalidatePattern_eq]
  unfold get
  dsimp only
  rw [InsertionMap.get?_foldl_delete]
  by_cases h : key ∈ pattern.hits q.cache.keys
  · rw [if_pos h, if_pos h]
  · rw [if_neg h, if_neg h]

theorem mem_keys_of_get {data : V} (h : q.get key = some data) : key ∈ q.cache.keys := by
  unfold get at h
  split at h
  · cases h
  · next entry hentry => exact InsertionMap.mem_keys_of_get? hentry

/-- **What `fetchWithDedupe` can come to.** -/
theorem fetchWithDedupe_cases (q : QueryCache V) (key : String) (fetcher : Option ℕ)
    (ttlMs : Option ℤ) (now : ℤ) :
    (∃ data, q.get key = some data ∧
      q.fetchWithDedupe key fetcher ttlMs now = (.cached data, q)) ∨
    (∃ promise, q.inFlight.get? key = some promise ∧
      q.fetchWithDedupe key fetcher ttlMs now = (.existing promise, q)) ∨
    (q.inFlight.get? key = none ∧ fetcher = none ∧
      q.fetchWithDedupe key fetcher ttlMs now = (.threw, q)) ∨
    (∃ promise, q.inFlight.get? key = none ∧ fetcher = some promise ∧
      q.fetchWithDedupe key fetcher ttlMs now =
        (.started promise, { q with inFlight := q.inFlight.set key promise })) := by
  unfold fetchWithDedupe
  cases hcached : if q.isFresh key ttlMs now then q.get key else none with
  | some data =>
    refine Or.inl ⟨data, ?_, rfl⟩
    split at hcached
    · exact hcached
    · cases hcached
  | none =>
    right
    cases hflight : q.inFlight.get? key with
    | some promise => exact Or.inl ⟨promise, rfl, rfl⟩
    | none =>
      right
      cases fetcher with
      | none => exact Or.inl ⟨rfl, rfl, rfl⟩
      | some promise => exact Or.inr ⟨promise, rfl, rfl, rfl⟩

end QueryCache

end AigisZero.Frontend
