import AigisZero.Frontend.Fetches
import Mathlib.Data.List.Basic

/-!
# What comes back after an invalidation

An invalidation empties the cache and leaves the fetches under way alone.
What such a fetch brings is written to the cache when it resolves, and goes
to whoever joined it. An expression with the g or y flag moves on from key
to key and can pass over one that it matches. Data from before an
invalidation comes back in these two ways, and in no other.
-/

namespace AigisZero.Frontend

namespace Console

variable {V : Type*}

/-- **Invalidated data does not come back**: neither `get` nor a call that
was made since has data from a fetch that was started before the key was
last invalidated. -/
structure NoReturn (s : Console V) : Prop where
  get : ∀ key data i, s.queryCache.get key = some data → data.source = some i → s.barrier key ≤ i
  calls : ∀ call ∈ s.calls, ∀ data i, call.outcome = some (.resolved (some data)) →
    data.source = some i → call.fence ≤ i

/-- No fetch resolves with data whose key was invalidated since it was
started, and no expression passes over a key with fetched data that it
matches. -/
def LeavesNothing (s : Console V) : CacheAction V → Prop
  | .resolve promise (some _) _ => ∀ key, s.Pending promise key → s.barrier key ≤ promise
  | .invalidatePattern pattern =>
    ∀ key ∈ pattern.passedOver s.queryCache.cache.keys, ∀ data,
      s.queryCache.get key = some data → data.source = none
  | _ => True

/-- What holds of the history of any run. -/
structure Dated (s : Console V) : Prop where
  barrier : ∀ key, s.barrier key ≤ s.fetches.length
  source : ∀ key data i, s.queryCache.get key = some data → data.source = some i →
    i < s.fetches.length
  fence : ∀ call ∈ s.calls, call.fence ≤ s.barrier call.key
  inFlight : ∀ key i, s.queryCache.inFlight.get? key = some i →
    ∃ fetch, s.fetches[i]? = some fetch ∧ fetch.key = key
  joined : ∀ call ∈ s.calls, ∀ i, call.promise = some i →
    ∃ fetch, s.fetches[i]? = some fetch ∧ fetch.key = call.key

variable {s t : Console V} {key : String} {i j : ℕ} {outcome : Outcome V}
  {queryCache : QueryCache (Sourced V)}

/-! ## The history -/

theorem settleCall_key (i : ℕ) (outcome : Outcome V) (call : Call V) :
    (settleCall i outcome call).key = call.key ∧
      (settleCall i outcome call).fence = call.fence ∧
      (settleCall i outcome call).promise = call.promise := by
  unfold settleCall
  split
  · exact ⟨rfl, rfl, rfl⟩
  · exact ⟨rfl, rfl, rfl⟩

/-- A fetch keeps its key. -/
theorem getElem?_settle (outcome : Outcome V) (queryCache : QueryCache (Sourced V))
    (hi : s.Pending i key) {fetch : Fetch V}
    (hfetch : s.fetches[j]? = some fetch) :
    ∃ fetch', (s.settle i key outcome queryCache).fetches[j]? = some fetch' ∧
      fetch'.key = fetch.key := by
  unfold settle
  dsimp only
  rw [List.getElem?_set]
  by_cases hij : i = j
  · subst hij
    obtain rfl := Option.some.inj (hi.symm.trans hfetch)
    rw [if_pos rfl, if_pos hi.lt]
    exact ⟨_, rfl, rfl⟩
  · rw [if_neg hij]
    exact ⟨fetch, hfetch, rfl⟩

/-- Another call, with what it says of the fetch it joined. -/
theorem Dated.call {call : Call V} (h : s.Dated) (hfence : call.fence ≤ s.barrier call.key)
    (hcall : ∀ i, call.promise = some i →
      ∃ fetch, s.fetches[i]? = some fetch ∧ fetch.key = call.key) :
    ({ s with calls := s.calls ++ [call] } : Console V).Dated := by
  refine ⟨h.barrier, h.source, ?_, h.inFlight, ?_⟩
  · intro other hmem
    rcases List.mem_append.1 hmem with hmem | hmem
    · exact h.fence other hmem
    · obtain rfl := List.mem_singleton.1 hmem
      exact hfence
  · intro other hmem
    rcases List.mem_append.1 hmem with hmem | hmem
    · exact h.joined other hmem
    · obtain rfl := List.mem_singleton.1 hmem
      exact hcall

theorem Dated.started (h : s.Dated) (key : String) :
    ({ s with
      queryCache := { s.queryCache with
        inFlight := s.queryCache.inFlight.set key s.fetches.length }
      fetches := s.fetches ++ [⟨key, none⟩] } : Console V).Dated := by
  have hlength : (s.fetches ++ [(⟨key, none⟩ : Fetch V)]).length = s.fetches.length + 1 :=
    List.length_append
  have hkeep : ∀ i fetch, s.fetches[i]? = some fetch →
      (s.fetches ++ [(⟨key, none⟩ : Fetch V)])[i]? = some fetch :=
    fun i fetch hfetch => getElem?_started.2 (Or.inl hfetch)
  refine ⟨?_, ?_, h.fence, ?_, ?_⟩
  · intro key'
    have hle := h.barrier key'
    show s.barrier key' ≤ (s.fetches ++ [_]).length
    omega
  · intro key' data i hget hsource
    have hlt := h.source key' data i hget hsource
    show i < (s.fetches ++ [_]).length
    omega
  · intro key' i hflight
    have hflight : (s.queryCache.inFlight.set key s.fetches.length).get? key' = some i := hflight
    rw [InsertionMap.get?_set] at hflight
    split at hflight
    · next heq =>
        obtain rfl := Option.some.inj hflight
        exact ⟨⟨key, none⟩, getElem?_started.2 (Or.inr ⟨rfl, rfl⟩), heq.symm⟩
    · obtain ⟨fetch, hfetch, hkey⟩ := h.inFlight key' i hflight
      exact ⟨fetch, hkeep i fetch hfetch, hkey⟩
  · intro call hmem i hi
    obtain ⟨fetch, hfetch, hkey⟩ := h.joined call hmem i hi
    exact ⟨fetch, hkeep i fetch hfetch, hkey⟩

theorem Dated.settle (h : s.Dated) (hi : s.Pending i key)
    (hflight : queryCache.inFlight = s.queryCache.inFlight.delete key)
    (hsource : ∀ key' data j, queryCache.get key' = some data → data.source = some j →
      j < s.fetches.length) :
    (s.settle i key outcome queryCache).Dated := by
  have hlength : (s.settle i key outcome queryCache).fetches.length = s.fetches.length :=
    List.length_set
  refine ⟨?_, ?_, ?_, ?_, ?_⟩
  · rw [hlength]
    exact h.barrier
  · rw [hlength]
    exact hsource
  · intro call hmem
    obtain ⟨old, hold, rfl⟩ := List.mem_map.1 hmem
    obtain ⟨hkey, hfence, -⟩ := settleCall_key i outcome old
    rw [hkey, hfence]
    exact h.fence old hold
  · intro key' j hget
    have hget : queryCache.inFlight.get? key' = some j := hget
    rw [hflight, InsertionMap.get?_delete] at hget
    split at hget
    · cases hget
    · obtain ⟨fetch, hfetch, rfl⟩ := h.inFlight key' j hget
      exact getElem?_settle outcome queryCache hi hfetch
  · intro call hmem j hj
    obtain ⟨old, hold, rfl⟩ := List.mem_map.1 hmem
    obtain ⟨hkey, -, hpromise⟩ := settleCall_key i outcome old
    rw [hpromise] at hj
    obtain ⟨fetch, hfetch, hsame⟩ := h.joined old hold j hj
    obtain ⟨fetch', hfetch', hsame'⟩ := getElem?_settle outcome queryCache hi hfetch
    exact ⟨fetch', hfetch', by rw [hkey, hsame', hsame]⟩

/-- An invalidation: less is cached, the fetches are as before, and the
keys it is about are marked. -/
theorem Dated.invalidate (h : s.Dated) (p : String → Bool)
    (hfetches : t.fetches = s.fetches) (hcalls : t.calls = s.calls)
    (hbarrier : ∀ k, t.barrier k = if p k then s.fetches.length else s.barrier k)
    (hget : ∀ k data, t.queryCache.get k = some data → s.queryCache.get k = some data)
    (hflight : ∀ k i, t.queryCache.inFlight.get? k = some i →
      s.queryCache.inFlight.get? k = some i) : t.Dated := by
  have hmono : ∀ k, s.barrier k ≤ t.barrier k := by
    intro k
    rw [hbarrier]
    split
    · exact h.barrier k
    · exact Nat.le_refl _
  refine ⟨?_, ?_, ?_, ?_, ?_⟩
  · intro k
    rw [hbarrier, hfetches]
    split
    · exact Nat.le_refl _
    · exact h.barrier k
  · intro k data i hk
    rw [hfetches]
    exact h.source k data i (hget k data hk)
  · intro call hmem
    rw [hcalls] at hmem
    exact Nat.le_trans (h.fence call hmem) (hmono _)
  · intro k i hk
    rw [hfetches]
    exact h.inFlight k i (hflight k i hk)
  · rw [hfetches, hcalls]
    exact h.joined

/-- What was fetched and is there after a `set` was there before. -/
theorem get_of_get_set {q : QueryCache (Sourced V)} {key' : String} {data : Option V} {now : ℤ}
    {found : Sourced V}
    (h : (q.set key (data.map fun value => ⟨value, none⟩) now).get key' = some found)
    (hsource : found.source = some j) : q.get key' = some found := by
  rw [QueryCache.get_set] at h
  split at h
  · obtain ⟨value, -, rfl⟩ := Option.map_eq_some_iff.1 h
    cases hsource
  · exact h

/-- What is left after a key was there before. -/
theorem get_of_get_invalidate {q : QueryCache (Sourced V)} {key' : String} {found : Sourced V}
    (h : (q.invalidate key).get key' = some found) : key' ≠ key ∧ q.get key' = some found := by
  rw [QueryCache.get_invalidate] at h
  split at h
  · cases h
  · next hkey => exact ⟨hkey, h⟩

/-- What is left after a pattern was there before. -/
theorem get_of_get_invalidatePattern {q : QueryCache (Sourced V)} {pattern : RegExp}
    {data : Sourced V} (h : (q.invalidatePattern pattern).1.get key = some data) :
    key ∉ pattern.hits q.cache.keys ∧ q.get key = some data := by
  rw [QueryCache.get_invalidatePattern] at h
  split at h
  · cases h
  · next hkey => exact ⟨hkey, h⟩

theorem Dated.fetch (h : s.Dated) (returns : Bool) (ttlMs : Option ℤ) (now : ℤ) :
    (s.call key returns ttlMs now).Dated := by
  rcases s.call_cases key returns ttlMs now with
    ⟨data, -, hcall⟩ | ⟨i, hflight, hcall⟩ | ⟨err, hcall⟩ | ⟨-, hcall⟩ <;> rw [hcall]
  · exact h.call (Nat.le_refl _) fun i hi => by cases hi
  · refine h.call (Nat.le_refl _) fun j hj => ?_
    obtain rfl := Option.some.inj hj
    exact h.inFlight key i hflight
  · exact h.call (Nat.le_refl _) fun i hi => by cases hi
  · refine (h.started key).call (Nat.le_refl _) fun j hj => ?_
    obtain rfl := Option.some.inj hj
    exact ⟨⟨key, none⟩, getElem?_started.2 (Or.inr ⟨rfl, rfl⟩), rfl⟩

/-- **The history is kept by every step.** -/
theorem dated_act (h : s.Dated) (a : CacheAction V) : (s.act a).Dated := by
  cases a with
  | fetch key returns ttlMs now => exact h.fetch returns ttlMs now
  | resolve promise data now =>
    rcases s.act_resolve_cases promise data now with ⟨key, hkey, hact⟩ | ⟨-, hact⟩ <;> rw [hact]
    · refine h.settle hkey rfl ?_
      intro key' found j hget hsource
      rw [QueryCache.get_fulfilled] at hget
      split at hget
      · obtain ⟨value, -, rfl⟩ := Option.map_eq_some_iff.1 hget
        obtain rfl := Option.some.inj hsource
        exact hkey.lt
      · exact h.source key' found j hget hsource
    · exact h
  | reject promise err =>
    rcases s.act_reject_cases promise err with ⟨key, hkey, hact⟩ | ⟨-, hact⟩ <;> rw [hact]
    · exact h.settle hkey rfl h.source
    · exact h
  | set key data now =>
    refine ⟨h.barrier, ?_, h.fence, h.inFlight, h.joined⟩
    intro key' found j hget hsource
    exact h.source key' found j (get_of_get_set hget hsource) hsource
  | invalidate key =>
    refine h.invalidate (fun k => k = key) rfl rfl ?_ ?_ fun k i hk => hk
    · intro k
      simp only [act, decide_eq_true_eq]
    · exact fun k found hget => (get_of_get_invalidate hget).2
  | invalidatePattern pattern =>
    refine h.invalidate pattern.matching rfl rfl (fun k => rfl) ?_ ?_
    · exact fun k found hget => (get_of_get_invalidatePattern hget).2
    · intro k i hk
      have hk : (s.queryCache.invalidatePattern pattern).1.inFlight.get? k = some i := hk
      rw [QueryCache.invalidatePattern_eq] at hk
      exact hk
  | clear =>
    refine h.invalidate (fun _ => true) rfl rfl (fun k => rfl) ?_ ?_
    · intro k found hget
      cases hget
    · intro k i hk
      cases hk

/-! ## What comes back -/

theorem NoReturn.call {call : Call V} (h : s.NoReturn)
    (hcall : ∀ data i, call.outcome = some (.resolved (some data)) → data.source = some i →
      call.fence ≤ i) :
    ({ s with calls := s.calls ++ [call] } : Console V).NoReturn := by
  refine ⟨h.get, ?_⟩
  intro other hmem
  rcases List.mem_append.1 hmem with hmem | hmem
  · exact h.calls other hmem
  · obtain rfl := List.mem_singleton.1 hmem
    exact hcall

/-- **A call brings nothing back by itself.** -/
theorem NoReturn.fetch (h : s.NoReturn) (returns : Bool) (ttlMs : Option ℤ) (now : ℤ) :
    (s.call key returns ttlMs now).NoReturn := by
  rcases s.call_cases key returns ttlMs now with
    ⟨data, hget, hcall⟩ | ⟨i, -, hcall⟩ | ⟨err, hcall⟩ | ⟨-, hcall⟩ <;> rw [hcall]
  · refine h.call fun found i houtcome hsource => ?_
    cases houtcome
    exact h.get key data i hget hsource
  · exact h.call fun found i houtcome => by cases houtcome
  · exact h.call fun found i houtcome => by cases houtcome
  · have hstarted : ({ s with
        queryCache := { s.queryCache with
          inFlight := s.queryCache.inFlight.set key s.fetches.length }
        fetches := s.fetches ++ [⟨key, none⟩] } : Console V).NoReturn := ⟨h.get, h.calls⟩
    exact hstarted.call fun found i houtcome => by cases houtcome

/-- What a settling fetch brings to those who joined it. -/
theorem NoReturn.calls_settle (h : s.NoReturn) (hs : s.Dated) (hi : s.Pending i key)
    (hnew : ∀ data j, outcome = .resolved (some data) → data.source = some j →
      j = i ∧ s.barrier key ≤ i) :
    ∀ call ∈ (s.settle i key outcome queryCache).calls, ∀ data j,
      call.outcome = some (.resolved (some data)) → data.source = some j → call.fence ≤ j := by
  intro call hmem data j houtcome hsource
  obtain ⟨old, hold, rfl⟩ := List.mem_map.1 hmem
  obtain ⟨-, hfence, -⟩ := settleCall_key i outcome old
  rw [hfence]
  unfold settleCall at houtcome
  split at houtcome
  · next hpromise =>
      obtain ⟨rfl, hbarrier⟩ := hnew data j (Option.some.inj houtcome) hsource
      -- whoever joined asked for the key of the fetch, before it was last invalidated or since
      obtain ⟨fetch, hfetch, hsame⟩ := hs.joined old hold j hpromise
      obtain rfl := Option.some.inj (hi.symm.trans hfetch)
      have hle := hs.fence old hold
      rw [← hsame] at hle
      exact Nat.le_trans hle hbarrier
  · exact h.calls old hold data j houtcome hsource

theorem NoReturn.reject (h : s.NoReturn) (hs : s.Dated) (hi : s.Pending i key) (err : String) :
    (s.settle i key (.rejected err) (s.queryCache.rejected key)).NoReturn :=
  ⟨h.get, h.calls_settle hs hi fun data j houtcome => by cases houtcome⟩

/-- **A fetch that resolves with data brings none back exactly when its key
was not invalidated since it was started.** -/
theorem noReturn_resolve_iff (h : s.NoReturn) (hs : s.Dated) (hi : s.Pending i key) (value : V)
    (now : ℤ) :
    (s.settle i key (.resolved (some ⟨value, some i⟩))
      (s.queryCache.fulfilled key (some ⟨value, some i⟩) now)).NoReturn ↔ s.barrier key ≤ i := by
  constructor
  · intro ht
    refine ht.get key ⟨value, some i⟩ i ?_ rfl
    show (s.queryCache.fulfilled key _ now).get key = _
    rw [QueryCache.get_fulfilled, if_pos rfl]
  · intro hbarrier
    refine ⟨?_, h.calls_settle hs hi ?_⟩
    · intro key' found j hget hsource
      have hget : (s.queryCache.fulfilled key (some ⟨value, some i⟩) now).get key' = some found :=
        hget
      rw [QueryCache.get_fulfilled] at hget
      split at hget
      · next heq =>
          obtain rfl := Option.some.inj hget
          obtain rfl := Option.some.inj hsource
          exact heq ▸ hbarrier
      · exact h.get key' found j hget hsource
    · intro data j houtcome hsource
      cases houtcome
      exact ⟨(Option.some.inj hsource).symm, hbarrier⟩

/-- A fetch that resolves with `null` brings no data. -/
theorem NoReturn.resolve_null (h : s.NoReturn) (hs : s.Dated) (hi : s.Pending i key) (now : ℤ) :
    (s.settle i key (.resolved none) (s.queryCache.fulfilled key none now)).NoReturn := by
  refine ⟨?_, h.calls_settle hs hi fun data j houtcome => by cases houtcome⟩
  intro key' found j hget
  have hget : (s.queryCache.fulfilled key none now).get key' = some found := hget
  rw [QueryCache.get_fulfilled] at hget
  split at hget
  · cases hget
  · exact h.get key' found j hget

/-- **A pattern leaves nothing behind exactly when it passes over no key
with fetched data.** -/
theorem noReturn_invalidatePattern_iff (h : s.NoReturn) (hs : s.Dated) (pattern : RegExp) :
    (s.act (.invalidatePattern pattern)).NoReturn ↔
      s.LeavesNothing (.invalidatePattern pattern) := by
  constructor
  · intro ht key hkey data hget
    obtain ⟨hmem, hover⟩ := List.mem_filter.1 hkey
    obtain ⟨hmatching, hmiss⟩ : pattern.matching key = true ∧
        key ∉ pattern.hits s.queryCache.cache.keys := by simpa using hover
    cases hsource : data.source with
    | none => rfl
    | some i =>
      have hleft : (s.queryCache.invalidatePattern pattern).1.get key = some data := by
        rw [QueryCache.get_invalidatePattern, if_neg hmiss]
        exact hget
      have hbarrier := ht.get key data i hleft hsource
      have hmarked : (s.act (.invalidatePattern pattern)).barrier key = s.fetches.length :=
        if_pos hmatching
      have hlt := hs.source key data i hget hsource
      omega
  · intro hleaves
    refine ⟨?_, h.calls⟩
    intro key data i hget hsource
    obtain ⟨hmiss, hget⟩ := get_of_get_invalidatePattern hget
    show (if pattern.matching key then s.fetches.length else s.barrier key) ≤ i
    split
    · next hmatching =>
        have hmem : key ∈ pattern.passedOver s.queryCache.cache.keys :=
          List.mem_filter.2 ⟨QueryCache.mem_keys_of_get hget, by simp [hmatching, hmiss]⟩
        rw [hleaves key hmem data hget] at hsource
        cases hsource
    · exact h.get key data i hget hsource

/-- **A step brings nothing back exactly when it leaves nothing behind.** -/
theorem noReturn_act_iff (hs : s.Dated) (h : s.NoReturn) (a : CacheAction V) :
    (s.act a).NoReturn ↔ s.LeavesNothing a := by
  cases a with
  | fetch key returns ttlMs now => exact iff_of_true (h.fetch returns ttlMs now) trivial
  | resolve promise data now =>
    rcases s.act_resolve_cases promise data now with ⟨key, hkey, hact⟩ | ⟨hnone, hact⟩ <;>
      rw [hact]
    · cases data with
      | none => exact iff_of_true (h.resolve_null hs hkey now) trivial
      | some value =>
        rw [Option.map_some, noReturn_resolve_iff h hs hkey value now]
        constructor
        · intro hbarrier key' hkey'
          exact hkey.key_eq hkey' ▸ hbarrier
        · intro hall
          exact hall key hkey
    · refine iff_of_true h ?_
      cases data with
      | none => trivial
      | some value => exact fun key hkey => absurd hkey (hnone key)
  | reject promise err =>
    refine iff_of_true ?_ trivial
    rcases s.act_reject_cases promise err with ⟨key, hkey, hact⟩ | ⟨-, hact⟩ <;> rw [hact]
    · exact h.reject hs hkey err
    · exact h
  | set key data now =>
    refine iff_of_true ⟨?_, h.calls⟩ trivial
    intro key' found j hget hsource
    exact h.get key' found j (get_of_get_set hget hsource) hsource
  | invalidate key =>
    refine iff_of_true ⟨?_, h.calls⟩ trivial
    intro key' found j hget hsource
    obtain ⟨hne, hget⟩ := get_of_get_invalidate hget
    show (if key' = key then s.fetches.length else s.barrier key') ≤ j
    rw [if_neg hne]
    exact h.get key' found j hget hsource
  | invalidatePattern pattern => exact noReturn_invalidatePattern_iff h hs pattern
  | clear =>
    refine iff_of_true ⟨?_, h.calls⟩ trivial
    intro key data i hget
    cases hget

/-- **Invalidated data stays away in every state of a run exactly when no
step leaves any of it behind.** -/
theorem machine_noReturn_iff (defaultTtlMs : ℤ) (l : List (CacheAction V)) :
    (machine V).Always NoReturn (new defaultTtlMs) l ↔
      (machine V).EveryStep LeavesNothing (new defaultTtlMs) l := by
  obtain ⟨t, hrun⟩ :=
    (machine V).exists_run_of_total (fun s a => ⟨_, rfl⟩) (new defaultTtlMs) l
  have hdated : (new defaultTtlMs : Console V).Dated :=
    ⟨fun key => Nat.le_refl 0, fun key data i hget => (by cases hget),
      fun call hmem => absurd hmem List.not_mem_nil, fun key i hget => (by cases hget),
      fun call hmem => absurd hmem List.not_mem_nil⟩
  have hnew : (new defaultTtlMs : Console V).NoReturn :=
    ⟨fun key data i hget => (by cases hget), fun call hmem => absurd hmem List.not_mem_nil⟩
  refine Machine.always_iff_everyStep (I := Dated) ?_ ?_ hdated hnew hrun
  · intro s a t hs ht
    obtain rfl := Option.some.inj ht
    exact dated_act hs a
  · intro s a t hs hP ht
    obtain rfl := Option.some.inj ht
    exact noReturn_act_iff hs hP a

/-- The nodes are fetched, an isolation invalidates them, and the fetch
resolves. -/
def invalidatedWhileFetched : List (CacheAction String) :=
  [.fetch "nodes" true none 0, .invalidate "nodes", .resolve 0 (some "not isolated") 1]

/-- **A fetch that was under way brings back what was invalidated.** -/
theorem not_noReturn_invalidatedWhileFetched :
    ¬ (machine String).Always NoReturn (new 15000) invalidatedWhileFetched := by
  intro h
  have hlast : ((machine String).run (new 15000) invalidatedWhileFetched) = some _ := rfl
  have hget := (h.last hlast).get "nodes" ⟨"not isolated", some 0⟩ 0 rfl rfl
  exact absurd hget (by decide)

end Console

end AigisZero.Frontend
