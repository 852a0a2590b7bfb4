import AigisZero.Frontend.Fetches
import Mathlib.Data.List.Basic

/-!
# One fetch at a time

The map of the fetches in flight forgets all of them at a `clear`, and
forgets a key whenever a fetch of that key settles, whichever fetch that
is. So a fetch from before a `clear` takes away the entry of the one that
came after it, and only that can break the map.
-/

namespace AigisZero.Frontend

namespace Console

variable {V : Type*}

/-- **Single flight**: one fetch of a key is pending that was started since
the last `clear`, the map has the key exactly then, and holds that fetch,
and the calls that joined a fetch settle as it does. -/
structure SingleFlight (s : Console V) : Prop where
  single : ∀ key i j, s.Pending i key → s.Pending j key → s.era ≤ i → s.era ≤ j → i = j
  inFlight : ∀ key i, s.queryCache.inFlight.get? key = some i ↔ s.Pending i key ∧ s.era ≤ i
  joined : ∀ call ∈ s.calls, ∀ i, call.promise = some i →
    ∃ fetch, s.fetches[i]? = some fetch ∧ call.outcome = fetch.outcome

/-- A fetch settles while no fetch of its key is pending that was started
after a `clear` it was started before. -/
def NoneSince (s : Console V) (promise : ℕ) : Prop :=
  ∀ key, s.Pending promise key → s.era ≤ promise ∨ ∀ i, s.Pending i key → i < s.era

/-- The steps that leave the map in order. -/
def SettlesAlone (s : Console V) : CacheAction V → Prop
  | .resolve promise _ _ => s.NoneSince promise
  | .reject promise _ => s.NoneSince promise
  | _ => True

variable {s : Console V} {key : String} {i j : ℕ} {outcome : Outcome V}
  {queryCache : QueryCache (Sourced V)}

theorem SingleFlight.pending (h : s.SingleFlight)
    (hflight : s.queryCache.inFlight.get? key = some i) : s.Pending i key :=
  ((h.inFlight key i).1 hflight).1

/-- Where none is in flight, no fetch is pending that counts. -/
theorem SingleFlight.not_pending (h : s.SingleFlight)
    (hnone : s.queryCache.inFlight.get? key = none) (hi : s.Pending i key) : ¬ s.era ≤ i := by
  intro hle
  have hsome := (h.inFlight key i).2 ⟨hi, hle⟩
  rw [hnone] at hsome
  cases hsome

/-- What a step leaves alone stays in order. -/
theorem SingleFlight.congr {t : Console V} (h : s.SingleFlight) (hfetches : t.fetches = s.fetches)
    (hera : t.era = s.era) (hflight : t.queryCache.inFlight = s.queryCache.inFlight)
    (hcalls : t.calls = s.calls) : t.SingleFlight := by
  obtain ⟨hsingle, hmap, hjoined⟩ := h
  unfold Pending at hsingle hmap
  refine ⟨?_, ?_, ?_⟩
  · unfold Pending
    rw [hfetches, hera]
    exact hsingle
  · unfold Pending
    rw [hfetches, hera, hflight]
    exact hmap
  · rw [hfetches, hcalls]
    exact hjoined

/-- Another call, with what it says of the fetch it joined. -/
theorem SingleFlight.call {call : Call V} (h : s.SingleFlight)
    (hcall : ∀ i, call.promise = some i →
      ∃ fetch, s.fetches[i]? = some fetch ∧ call.outcome = fetch.outcome) :
    ({ s with calls := s.calls ++ [call] } : Console V).SingleFlight := by
  refine ⟨h.single, h.inFlight, ?_⟩
  intro other hmem
  rcases List.mem_append.1 hmem with hmem | hmem
  · exact h.joined other hmem
  · obtain rfl := List.mem_singleton.1 hmem
    exact hcall

/-! ## A fetch is started -/

/-- **A fetch is started where none is in flight.** -/
theorem SingleFlight.started (h : s.SingleFlight) (hera : s.era ≤ s.fetches.length)
    (hnone : s.queryCache.inFlight.get? key = none) (fence : ℕ) :
    ({ s with
      queryCache := { s.queryCache with
        inFlight := s.queryCache.inFlight.set key s.fetches.length }
      fetches := s.fetches ++ [⟨key, none⟩]
      calls := s.calls ++ [⟨key, some s.fetches.length, none, fence⟩] } :
      Console V).SingleFlight := by
  refine ⟨?_, ?_, ?_⟩
  · intro key' i j hi hj hlei hlej
    have hlei : s.era ≤ i := hlei
    have hlej : s.era ≤ j := hlej
    rcases (pending_started rfl).1 hi with hi | ⟨rfl, rfl⟩ <;>
      rcases (pending_started rfl).1 hj with hj | ⟨rfl, hkey⟩
    · exact h.single key' i j hi hj hlei hlej
    · exact absurd hlei (h.not_pending hnone (hkey ▸ hi))
    · exact absurd hlej (h.not_pending hnone hj)
    · rfl
  · intro key' i
    rw [pending_started rfl]
    show (s.queryCache.inFlight.set key s.fetches.length).get? key' = some i ↔ _ ∧ s.era ≤ i
    rw [InsertionMap.get?_set]
    by_cases hkey : key' = key
    · subst hkey
      rw [if_pos rfl, Option.some.injEq]
      constructor
      · rintro rfl
        exact ⟨Or.inr ⟨rfl, rfl⟩, hera⟩
      · rintro ⟨hi | ⟨hi, -⟩, hle⟩
        · exact absurd hle (h.not_pending hnone hi)
        · exact hi.symm
    · rw [if_neg hkey, h.inFlight key' i]
      simp [hkey]
  · intro other hmem i hi
    rcases List.mem_append.1 hmem with hmem | hmem
    · obtain ⟨fetch, hfetch, hsame⟩ := h.joined other hmem i hi
      exact ⟨fetch, getElem?_started.2 (Or.inl hfetch), hsame⟩
    · obtain rfl := List.mem_singleton.1 hmem
      obtain rfl := Option.some.inj hi
      exact ⟨⟨key, none⟩, getElem?_started.2 (Or.inr ⟨rfl, rfl⟩), rfl⟩

/-! ## A fetch settles -/

/-- The calls that joined a fetch settle with it, and the others do not. -/
theorem SingleFlight.joined_settle (h : s.SingleFlight) (hi : s.Pending i key) :
    ∀ call ∈ (s.settle i key outcome queryCache).calls, ∀ j, call.promise = some j →
      ∃ fetch, (s.settle i key outcome queryCache).fetches[j]? = some fetch ∧
        call.outcome = fetch.outcome := by
  intro call hmem j hj
  obtain ⟨old, hold, rfl⟩ := List.mem_map.1 hmem
  have hpromise : old.promise = some j := by
    unfold settleCall at hj
    split at hj
    · exact hj
    · exact hj
  obtain ⟨fetch, hfetch, hsame⟩ := h.joined old hold j hpromise
  unfold settle settleCall
  dsimp only
  rw [hpromise, List.getElem?_set]
  by_cases hij : i = j
  · subst hij
    rw [if_pos rfl, if_pos hi.lt, if_pos rfl]
    exact ⟨_, rfl, rfl⟩
  · have hne : (some j = some i) = False := by simp [Ne.symm hij]
    rw [if_neg hij]
    simp only [hne, if_false]
    exact ⟨fetch, hfetch, hsame⟩

/-- **A fetch that settles keeps the map in order exactly when it takes no
other's entry away.** -/
theorem singleFlight_settle_iff (h : s.SingleFlight) (hi : s.Pending i key)
    (hflight : queryCache.inFlight = s.queryCache.inFlight.delete key) :
    (s.settle i key outcome queryCache).SingleFlight ↔ s.NoneSince i := by
  constructor
  · intro ht key' hkey'
    obtain rfl := hi.key_eq hkey'
    rcases Nat.lt_or_ge i s.era with hlt | hge
    · right
      intro j hj
      by_contra hle
      have hne : j ≠ i := by omega
      -- the other fetch is pending still, and the map has lost its key
      have hsome := (ht.inFlight key j).2 ⟨pending_settle.2 ⟨hj, hne⟩, Nat.le_of_not_lt hle⟩
      have hnone : (s.settle i key outcome queryCache).queryCache.inFlight.get? key = none := by
        show queryCache.inFlight.get? key = none
        rw [hflight, InsertionMap.get?_delete, if_pos rfl]
      rw [hnone] at hsome
      cases hsome
    · exact Or.inl hge
  · intro halone
    refine ⟨?_, ?_, h.joined_settle hi⟩
    · intro key' j k hj hk
      exact h.single key' j k (pending_settle.1 hj).1 (pending_settle.1 hk).1
    · intro key' j
      have hera : (s.settle i key outcome queryCache).era = s.era := rfl
      have hmap : (s.settle i key outcome queryCache).queryCache.inFlight.get? key' =
          if key' = key then none else s.queryCache.inFlight.get? key' := by
        show queryCache.inFlight.get? key' = _
        rw [hflight, InsertionMap.get?_delete]
      rw [hmap, pending_settle, hera]
      by_cases hkey : key' = key
      · subst hkey
        rw [if_pos rfl]
        refine iff_of_false (fun h => by cases h) ?_
        rintro ⟨⟨hj, hne⟩, hle⟩
        rcases halone key' hi with hge | hall
        · exact hne (h.single key' j i hj hi hle hge)
        · exact absurd (hall j hj) (Nat.not_lt.2 hle)
      · rw [if_neg hkey, h.inFlight key' j]
        have hne : s.Pending j key' → j ≠ i := by
          rintro hj rfl
          exact hkey (hj.key_eq hi)
        exact and_congr_left fun _ => (and_iff_left_of_imp hne).symm

/-! ## A step, and a run -/

theorem noneSince_of_not_pending (h : ∀ key, ¬ s.Pending i key) : s.NoneSince i :=
  fun key hkey => absurd hkey (h key)

/-- The last `clear` is behind. -/
theorem era_act (s : Console V) (a : CacheAction V) (hs : s.era ≤ s.fetches.length) :
    (s.act a).era ≤ (s.act a).fetches.length := by
  cases a with
  | fetch key returns ttlMs now =>
    show (s.call key returns ttlMs now).era ≤ (s.call key returns ttlMs now).fetches.length
    rcases s.call_cases key returns ttlMs now with
      ⟨data, -, h⟩ | ⟨i, -, h⟩ | ⟨err, h⟩ | ⟨-, h⟩ <;> rw [h]
    · exact hs
    · exact hs
    · exact hs
    · show s.era ≤ (s.fetches ++ [_]).length
      rw [List.length_append]
      exact Nat.le_succ_of_le hs
  | resolve promise data now =>
    rcases s.act_resolve_cases promise data now with ⟨key, -, h⟩ | ⟨-, h⟩ <;> rw [h]
    · show s.era ≤ (s.fetches.set _ _).length
      rwa [List.length_set]
    · exact hs
  | reject promise err =>
    rcases s.act_reject_cases promise err with ⟨key, -, h⟩ | ⟨-, h⟩ <;> rw [h]
    · show s.era ≤ (s.fetches.set _ _).length
      rwa [List.length_set]
    · exact hs
  | set key data now => exact hs
  | invalidate key => exact hs
  | invalidatePattern pattern => exact hs
  | clear => exact Nat.le_refl _

/-- After a `clear` nothing counts. -/
theorem SingleFlight.clear (h : s.SingleFlight) : (s.act .clear).SingleFlight := by
  have hold : ∀ key i, s.Pending i key → ¬ s.fetches.length ≤ i :=
    fun key i hi => Nat.not_le.2 hi.lt
  refine ⟨?_, ?_, h.joined⟩
  · intro key i j hi hj hle
    exact absurd hle (hold key i hi)
  · intro key i
    exact iff_of_false (fun hsome => by cases hsome) fun hi => hold key i hi.1 hi.2

/-- **A step keeps the map in order exactly when it settles alone.** -/
theorem singleFlight_act_iff (hs : s.era ≤ s.fetches.length) (h : s.SingleFlight)
    (a : CacheAction V) : (s.act a).SingleFlight ↔ s.SettlesAlone a := by
  cases a with
  | fetch key returns ttlMs now =>
    refine iff_of_true ?_ trivial
    show (s.call key returns ttlMs now).SingleFlight
    rcases s.call_cases key returns ttlMs now with
      ⟨data, -, hcall⟩ | ⟨i, hflight, hcall⟩ | ⟨err, hcall⟩ | ⟨hnone, hcall⟩ <;> rw [hcall]
    · exact h.call fun i hi => by cases hi
    · refine h.call fun j hj => ?_
      obtain rfl := Option.some.inj hj
      exact ⟨_, h.pending hflight, rfl⟩
    · exact h.call fun i hi => by cases hi
    · exact h.started hs hnone _
  | resolve promise data now =>
    show _ ↔ s.NoneSince promise
    rcases s.act_resolve_cases promise data now with ⟨key, hkey, hact⟩ | ⟨hnone, hact⟩
    · rw [hact]
      exact singleFlight_settle_iff h hkey rfl
    · rw [hact]
      exact iff_of_true h (noneSince_of_not_pending hnone)
  | reject promise err =>
    show _ ↔ s.NoneSince promise
    rcases s.act_reject_cases promise err with ⟨key, hkey, hact⟩ | ⟨hnone, hact⟩
    · rw [hact]
      exact singleFlight_settle_iff h hkey rfl
    · rw [hact]
      exact iff_of_true h (noneSince_of_not_pending hnone)
  | set key data now => exact iff_of_true (h.congr rfl rfl rfl rfl) trivial
  | invalidate key => exact iff_of_true (h.congr rfl rfl rfl rfl) trivial
  | invalidatePattern pattern =>
    have hflight : (s.queryCache.invalidatePattern pattern).1.inFlight = s.queryCache.inFlight := by
      rw [QueryCache.invalidatePattern_eq]
    exact iff_of_true (h.congr rfl rfl hflight rfl) trivial
  | clear => exact iff_of_true h.clear trivial

theorem singleFlight_new (defaultTtlMs : ℤ) : (new defaultTtlMs : Console V).SingleFlight := by
  have hnone : ∀ key i, ¬ (new defaultTtlMs : Console V).Pending i key :=
    fun key i hi => absurd hi.lt (Nat.not_lt_zero i)
  refine ⟨fun key i j hi => absurd hi (hnone key i), fun key i => ?_,
    fun call hmem => absurd hmem List.not_mem_nil⟩
  exact iff_of_false (fun hsome => by cases hsome) fun hi => hnone key i hi.1

/-- **Fetches are single in every state of a run exactly when none settles
while another of its key is pending that a `clear` came before.** -/
theorem machine_singleFlight_iff (defaultTtlMs : ℤ) (l : List (CacheAction V)) :
    (machine V).Always SingleFlight (new defaultTtlMs) l ↔
      (machine V).EveryStep SettlesAlone (new defaultTtlMs) l := by
  obtain ⟨t, hrun⟩ :=
    (machine V).exists_run_of_total (fun s a => ⟨_, rfl⟩) (new defaultTtlMs) l
  refine Machine.always_iff_everyStep (I := fun s => s.era ≤ s.fetches.length) ?_ ?_
    (Nat.le_refl 0) (singleFlight_new defaultTtlMs) hrun
  · intro s a t hs ht
    obtain rfl := Option.some.inj ht
    exact era_act s a hs
  · intro s a t hs hP ht
    obtain rfl := Option.some.inj ht
    exact singleFlight_act_iff hs hP a

/-- A fetch is started, the cache is cleared, the fetch is started again,
and the first one resolves. -/
def clearedAndFetchedAgain : List (CacheAction String) :=
  [.fetch "nodes" true none 0, .clear, .fetch "nodes" true none 1, .resolve 0 (some "old") 2]

/-- **The fetch from before the `clear` takes away the entry of the other.** -/
theorem not_singleFlight_clearedAndFetchedAgain :
    ¬ (machine String).Always SingleFlight (new 15000) clearedAndFetchedAgain := by
  intro h
  have hlast : ((machine String).run (new 15000) clearedAndFetchedAgain) = some _ := rfl
  have hflight := (h.last hlast).inFlight "nodes" 1
  have hpending := hflight.2 ⟨rfl, by decide⟩
  exact absurd hpending (by decide)

end Console

end AigisZero.Frontend
