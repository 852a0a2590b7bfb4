import AigisZero.Frontend.QueryCache
import AigisZero.Library.Machine

/-!
# The fetches of the console

The cache together with the promises its users hold: the fetches that
were started, numbered in their order, and the calls of `fetchWithDedupe`,
each with the promise it joined. Data carries the number of the fetch that
produced it, which the cache, being the same for data of every kind, does
not look at.
-/

namespace AigisZero.Frontend

variable {V : Type*}

/-- Data, and the fetch it came from where it came from one. -/
structure Sourced (V : Type*) where
  value : V
  source : Option ℕ

/-- How a promise settled. -/
inductive Outcome (V : Type*) where
  | resolved (data : Option (Sourced V))
  | rejected (err : String)

/-- A fetch that was started, and how it settled, unless it is pending. -/
structure Fetch (V : Type*) where
  key : String
  outcome : Option (Outcome V)

/-- A call of `fetchWithDedupe`, the promise it joined, and how it settled,
unless it still waits. -/
structure Call (V : Type*) where
  key : String
  promise : Option ℕ
  outcome : Option (Outcome V)
  /-- How many fetches had been started when the key was last invalidated
  before the call. -/
  fence : ℕ

/-- The cache, the fetches and the calls, and what was invalidated when. -/
structure Console (V : Type*) where
  queryCache : QueryCache (Sourced V)
  fetches : List (Fetch V)
  calls : List (Call V)
  /-- How many fetches had been started when a key was last invalidated. -/
  barrier : String → ℕ
  /-- How many fetches had been started at the last `clear`. -/
  era : ℕ

/-- What users of the cache and fetches under way can do. -/
inductive CacheAction (V : Type*) where
  /-- A call of `fetchWithDedupe`; calling its fetcher returns a promise, or
  throws. -/
  | fetch (key : String) (returns : Bool) (ttlMs : Option ℤ) (now : ℤ)
  | resolve (promise : ℕ) (data : Option V) (now : ℤ)
  | reject (promise : ℕ) (err : String)
  | set (key : String) (data : Option V) (now : ℤ)
  | invalidate (key : String)
  | invalidatePattern (pattern : RegExp)
  | clear

namespace Console

/-- A new cache. -/
def new (defaultTtlMs : ℤ) : Console V := ⟨.new defaultTtlMs, [], [], fun _ => 0, 0⟩

/-- A fetch for a key is pending. -/
def Pending (s : Console V) (promise : ℕ) (key : String) : Prop :=
  s.fetches[promise]? = some ⟨key, none⟩

/-- A call settles with the promise it joined. -/
def settleCall (promise : ℕ) (outcome : Outcome V) (call : Call V) : Call V :=
  if call.promise = some promise then { call with outcome := some outcome } else call

/-- A pending fetch settles, and the cache with it. -/
def settle (s : Console V) (promise : ℕ) (key : String) (outcome : Outcome V)
    (queryCache : QueryCache (Sourced V)) : Console V :=
  { s with
    queryCache := queryCache
    fetches := s.fetches.set promise ⟨key, some outcome⟩
    calls := s.calls.map (settleCall promise outcome) }

/-- A call of `fetchWithDedupe`. -/
def call (s : Console V) (key : String) (returns : Bool) (ttlMs : Option ℤ) (now : ℤ) :
    Console V :=
  let fetcher := if returns then some s.fetches.length else none
  match s.queryCache.fetchWithDedupe key fetcher ttlMs now with
  | (.cached data, queryCache) =>
    { s with
      queryCache := queryCache
      calls := s.calls ++ [⟨key, none, some (.resolved (some data)), s.barrier key⟩] }
  | (.existing promise, queryCache) =>
    { s with
      queryCache := queryCache
      calls := s.calls ++ [⟨key, some promise, none, s.barrier key⟩] }
  | (.started promise, queryCache) =>
    { s with
      queryCache := queryCache
      fetches := s.fetches ++ [⟨key, none⟩]
      calls := s.calls ++ [⟨key, some promise, none, s.barrier key⟩] }
  | (.threw, queryCache) =>
    { s with
      queryCache := queryCache
      calls := s.calls ++ [⟨key, none, some (.rejected "the fetcher threw"), s.barrier key⟩] }

/-- What an action makes of the console. A promise that settled is not
settled again. -/
def act (s : Console V) : CacheAction V → Console V
  | .fetch key returns ttlMs now => s.call key returns ttlMs now
  | .resolve promise data now =>
    match s.fetches[promise]? with
    | some ⟨key, none⟩ =>
      let data := data.map fun value => ⟨value, some promise⟩
      s.settle promise key (.resolved data) (s.queryCache.fulfilled key data now)
    | _ => s
  | .reject promise err =>
    match s.fetches[promise]? with
    | some ⟨key, none⟩ => s.settle promise key (.rejected err) (s.queryCache.rejected key)
    | _ => s
  | .set key data now =>
    { s with queryCache := s.queryCache.set key (data.map fun value => ⟨value, none⟩) now }
  | .invalidate key =>
    { s with
      queryCache := s.queryCache.invalidate key
      barrier := fun k => if k = key then s.fetches.length else s.barrier k }
  | .invalidatePattern pattern =>
    { s with
      queryCache := (s.queryCache.invalidatePattern pattern).1
      barrier := fun k => if pattern.matching k then s.fetches.length else s.barrier k }
  | .clear =>
    { s with
      queryCache := s.queryCache.clear
      barrier := fun _ => s.fetches.length
      era := s.fetches.length }

/-- **The cache and its users**, in any interleaving. -/
def machine (V : Type*) : Machine (Console V) (CacheAction V) where
  step s a := some (s.act a)

/-! ## What an action does -/

variable {s : Console V} {key : String} {i j : ℕ}

/-- **What a call does**: it is answered from the cache, it joins a fetch
in flight, it fails with its fetcher, or it starts a fetch. -/
theorem call_cases (s : Console V) (key : String) (returns : Bool) (ttlMs : Option ℤ) (now : ℤ) :
    (∃ data, s.queryCache.get key = some data ∧ s.call key returns ttlMs now =
      { s with calls := s.calls ++ [⟨key, none, some (.resolved (some data)), s.barrier key⟩] }) ∨
    (∃ i, s.queryCache.inFlight.get? key = some i ∧ s.call key returns ttlMs now =
      { s with calls := s.calls ++ [⟨key, some i, none, s.barrier key⟩] }) ∨
    (∃ err, s.call key returns ttlMs now =
      { s with calls := s.calls ++ [⟨key, none, some (.rejected err), s.barrier key⟩] }) ∨
    (s.queryCache.inFlight.get? key = none ∧ s.call key returns ttlMs now =
      { s with
        queryCache := { s.queryCache with
          inFlight := s.queryCache.inFlight.set key s.fetches.length }
        fetches := s.fetches ++ [⟨key, none⟩]
        calls := s.calls ++ [⟨key, some s.fetches.length, none, s.barrier key⟩] }) := by
  unfold call
  dsimp only
  generalize hfetcher : (if returns then some s.fetches.length else none) = fetcher
  rcases s.queryCache.fetchWithDedupe_cases key fetcher ttlMs now with
    ⟨data, hget, h⟩ | ⟨i, hflight, h⟩ | ⟨-, -, h⟩ | ⟨i, hflight, hi, h⟩
  · rw [h]
    exact Or.inl ⟨data, hget, rfl⟩
  · rw [h]
    exact Or.inr (Or.inl ⟨i, hflight, rfl⟩)
  · rw [h]
    exact Or.inr (Or.inr (Or.inl ⟨_, rfl⟩))
  · obtain rfl : s.fetches.length = i := by
      rw [hi] at hfetcher
      split at hfetcher
      · exact Option.some.inj hfetcher
      · cases hfetcher
    rw [h]
    exact Or.inr (Or.inr (Or.inr ⟨hflight, rfl⟩))

/-- **What a settling promise does**: a pending fetch settles, and nothing
happens where none is pending. -/
theorem act_resolve_cases (s : Console V) (promise : ℕ) (data : Option V) (now : ℤ) :
    (∃ key, s.Pending promise key ∧ s.act (.resolve promise data now) =
      s.settle promise key (.resolved (data.map fun value => ⟨value, some promise⟩))
        (s.queryCache.fulfilled key (data.map fun value => ⟨value, some promise⟩) now)) ∨
    ((∀ key, ¬ s.Pending promise key) ∧ s.act (.resolve promise data now) = s) := by
  simp only [act, Pending]
  split
  · next key hkey => exact Or.inl ⟨key, hkey, rfl⟩
  · next hne => exact Or.inr ⟨fun key hkey => hne key hkey, rfl⟩

theorem act_reject_cases (s : Console V) (promise : ℕ) (err : String) :
    (∃ key, s.Pending promise key ∧ s.act (.reject promise err) =
      s.settle promise key (.rejected err) (s.queryCache.rejected key)) ∨
    ((∀ key, ¬ s.Pending promise key) ∧ s.act (.reject promise err) = s) := by
  simp only [act, Pending]
  split
  · next key hkey => exact Or.inl ⟨key, hkey, rfl⟩
  · next hne => exact Or.inr ⟨fun key hkey => hne key hkey, rfl⟩

theorem Pending.lt (h : s.Pending i key) : i < s.fetches.length :=
  (List.getElem?_eq_some_iff.1 h).1

/-- A fetch is pending for one key. -/
theorem Pending.key_eq {key' : String} (h : s.Pending i key) (h' : s.Pending i key') :
    key = key' := by
  have heq := Option.some.inj (h.symm.trans h')
  exact congrArg Fetch.key heq

/-- What is pending once a fetch has settled. -/
theorem pending_settle {key' : String} {outcome : Outcome V} {queryCache : QueryCache (Sourced V)} :
    (s.settle i key outcome queryCache).Pending j key' ↔ s.Pending j key' ∧ j ≠ i := by
  unfold Pending settle
  dsimp only
  rw [List.getElem?_set]
  by_cases hij : i = j
  · rw [if_pos hij]
    constructor
    · intro h
      split at h
      · cases h
      · cases h
    · rintro ⟨-, hne⟩
      exact absurd hij.symm hne
  · rw [if_neg hij]
    exact (and_iff_left (Ne.symm hij)).symm

/-- The fetches once another has been started. -/
theorem getElem?_started {fetch : Fetch V} :
    (s.fetches ++ [(⟨key, none⟩ : Fetch V)])[j]? = some fetch ↔
      s.fetches[j]? = some fetch ∨ j = s.fetches.length ∧ fetch = ⟨key, none⟩ := by
  rcases Nat.lt_trichotomy j s.fetches.length with hlt | rfl | hgt
  · rw [List.getElem?_append_left hlt]
    exact (or_iff_left fun h => absurd h.1 (Nat.ne_of_lt hlt)).symm
  · rw [List.getElem?_concat_length, List.getElem?_eq_none (Nat.le_refl _)]
    simp [eq_comm]
  · rw [List.getElem?_eq_none (by rw [List.length_append]; exact hgt),
      List.getElem?_eq_none (Nat.le_of_lt hgt)]
    simp [Nat.ne_of_gt hgt]

/-- What is pending once a fetch has been started. -/
theorem pending_started {t : Console V} {key' : String}
    (hfetches : t.fetches = s.fetches ++ [⟨key, none⟩]) :
    t.Pending j key' ↔ s.Pending j key' ∨ j = s.fetches.length ∧ key' = key := by
  unfold Pending
  rw [hfetches, getElem?_started]
  refine or_congr Iff.rfl (and_congr_right fun _ => ?_)
  constructor
  · intro heq
    exact congrArg Fetch.key heq
  · rintro rfl
    rfl

end Console

end AigisZero.Frontend
