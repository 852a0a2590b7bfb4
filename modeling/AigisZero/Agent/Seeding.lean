import AigisZero.Agent.Schedule
import Mathlib.Data.List.Basic

/-!
# The default queries

An empty table gets its three defaults one statement after the other, and
only an empty table gets them. So a table that was left with some of them is
never given the rest. This file says what leaves it so.
-/

namespace AigisZero.Agent

/-- All default queries are in the table, under whatever text. -/
def HasDefaults (table : ScheduleTable) : Prop := ∀ q ∈ defaults, (table.get? q.name).isSome

instance (table : ScheduleTable) : Decidable (HasDefaults table) :=
  inferInstanceAs (Decidable (∀ q ∈ defaults, (table.get? q.name).isSome))

/-- A call that inserts the defaults. -/
def ScheduleCall.Seeding (c : ScheduleCall) : Prop := ∃ k, c.point = .seed k

namespace ScheduleState

variable {s t u : ScheduleState} {a : ScheduleAction} {l l' : List ScheduleAction} {i : ℕ}
  {table : ScheduleTable} {c : ScheduleCall}

/-- The table has something, and not all defaults. -/
def Partial (s : ScheduleState) : Prop :=
  ∃ table, s.table = some table ∧ table.entries ≠ [] ∧ ¬ HasDefaults table

/-- **Nobody will insert what is missing.** -/
def Stuck (s : ScheduleState) : Prop := s.Partial ∧ ∀ c ∈ s.calls, ¬ c.Seeding

/-- The call is the only one that inserts the defaults. -/
def OnlySeeder (s : ScheduleState) (i : ℕ) : Prop :=
  (∃ c, s.calls[i]? = some c ∧ c.Seeding) ∧
    ∀ j c, j ≠ i → s.calls[j]? = some c → ¬ c.Seeding

/-- The default that a call would insert is there already. -/
def Conflicts (s : ScheduleState) (i : ℕ) : Prop :=
  ∃ c k q table, s.calls[i]? = some c ∧ c.point = .seed k ∧ defaults[k]? = some q ∧
    s.table = some table ∧ (table.get? q.name).isSome

/-- **The last call to insert defaults is cut off**: with some of them
inserted and others not, it fails, meets one that is there, or is killed. -/
def CutsSeeding (s : ScheduleState) : ScheduleAction → Prop
  | .call _ => False
  | .next i => s.Partial ∧ s.OnlySeeder i ∧ s.Conflicts i
  | .fault i => s.Partial ∧ s.OnlySeeder i
  | .crash => s.Partial

/-! ## What is there stays there -/

/-- The name is in the table. -/
def Has (s : ScheduleState) (name : String) : Prop :=
  ∃ table, s.table = some table ∧ (table.get? name).isSome

/-- A call that inserts a default has inserted those before it, and a
scheduler is opened on a table that has something. -/
structure Seeded (s : ScheduleState) : Prop where
  before : ∀ (i : ℕ) (c : ScheduleCall) k, s.calls[i]? = some c → c.point = .seed k →
    k < defaults.length ∧ ∀ j < k, ∀ q, defaults[j]? = some q → s.Has q.name
  opened : ∀ (i : ℕ) (c : ScheduleCall), s.calls[i]? = some c → c.point = .opened →
    ∃ name, s.Has name

theorem entries_ne_nil_of_get? {name : String} (h : (table.get? name).isSome) :
    table.entries ≠ [] := by
  obtain ⟨row, hrow⟩ := Option.isSome_iff_exists.1 h
  exact List.ne_nil_of_mem (InsertionMap.get?_eq_some_iff.1 hrow)

theorem isSome_get?_set {name name' : String} {row : ScheduleRow}
    (h : (table.get? name).isSome) : ((table.set name' row).get? name).isSome := by
  rw [InsertionMap.get?_set]
  split
  · rfl
  · exact h

/-- What is in the table before a transaction is there after it. -/
theorem isSome_get?_upsert_queries {table' : ScheduleTable} {queries : List ScheduledQuery}
    {name : String} (hup : upsert_queries table queries = some table')
    (h : (table.get? name).isSome) : (table'.get? name).isSome := by
  obtain ⟨-, rfl⟩ := upsert_queries_eq_some.1 hup
  rw [InsertionMap.get?_foldl_set]
  cases queries.reverse.find? _ <;> simp [h]

theorem entries_ne_nil_iff : table.entries ≠ [] ↔ ∃ name, (table.get? name).isSome := by
  constructor
  · intro h
    obtain ⟨⟨name, row⟩, he⟩ := List.exists_mem_of_ne_nil _ h
    exact ⟨name, by rw [InsertionMap.get?_eq_some_iff.2 he]; rfl⟩
  · rintro ⟨name, h⟩
    exact entries_ne_nil_of_get? h

theorem partial_iff : s.Partial ↔ (∃ name, s.Has name) ∧ ∃ q ∈ defaults, ¬ s.Has q.name := by
  constructor
  · rintro ⟨table, htable, hne, hdefaults⟩
    obtain ⟨name, hname⟩ := entries_ne_nil_iff.1 hne
    unfold HasDefaults at hdefaults
    push Not at hdefaults
    obtain ⟨q, hq, hmissing⟩ := hdefaults
    refine ⟨⟨name, table, htable, hname⟩, q, hq, ?_⟩
    rintro ⟨table', htable', hthere⟩
    obtain rfl := Option.some.inj (htable.symm.trans htable')
    exact absurd hthere hmissing
  · rintro ⟨⟨name, table, htable, hname⟩, q, hq, hmissing⟩
    exact ⟨table, htable, entries_ne_nil_of_get? hname,
      fun hdefaults => hmissing ⟨table, htable, hdefaults q hq⟩⟩

/-- A step takes no name away, and a partial table had something. -/
theorem has_step (ht : machine.step s a = some t) {name : String} (h : s.Has name) :
    t.Has name := by
  obtain ⟨table, htable, hname⟩ := h
  cases a with
  | call job =>
    obtain rfl := Option.some.inj ht
    exact ⟨table, htable, hname⟩
  | next i =>
    obtain ⟨c, hi, hnext⟩ := Option.bind_eq_some_iff.1 ht
    cases next_cases hnext with
    | created hpoint => exact ⟨table, by rw [htable]; rfl, hname⟩
    | counted hpoint _ => exact ⟨table, htable, hname⟩
    | conflict hpoint _ hq hthere => exact ⟨table, htable, hname⟩
    | seeded hpoint hsame hq hfree =>
      obtain rfl := Option.some.inj (htable.symm.trans hsame)
      exact ⟨_, rfl, isSome_get?_set hname⟩
    | unread hpoint => exact ⟨table, htable, hname⟩
    | started hpoint hjob _ hload => exact ⟨table, htable, hname⟩
    | updated hpoint hjob hsame hup =>
      obtain rfl := Option.some.inj (htable.symm.trans hsame)
      exact ⟨_, rfl, isSome_get?_upsert_queries hup hname⟩
  | fault i =>
    obtain ⟨c, -, -, rfl⟩ := step_fault ht
    exact ⟨table, htable, hname⟩
  | crash =>
    obtain rfl := Option.some.inj ht
    exact ⟨table, htable, hname⟩

/-- Only the call that moves comes to another point. -/
theorem Seeded.of_moves (h : s.Seeded) (hhas : ∀ name, s.Has name → t.Has name)
    (point : SchedulePoint)
    (hcalls : ∀ (k : ℕ) (c : ScheduleCall), t.calls[k]? = some c →
      c.point = point ∨ s.calls[k]? = some c)
    (hseed : ∀ k, point = .seed k → k < defaults.length ∧
      ∀ j < k, ∀ q, defaults[j]? = some q → t.Has q.name)
    (hopened : point = .opened → ∃ name, t.Has name) : t.Seeded := by
  refine ⟨fun i c k hi hpoint => ?_, fun i c hi hpoint => ?_⟩
  · rcases hcalls i c hi with heq | hi
    · exact hseed k (heq.symm.trans hpoint)
    · obtain ⟨hlt, hbefore⟩ := h.before i c k hi hpoint
      exact ⟨hlt, fun j hj q hq => hhas q.name (hbefore j hj q hq)⟩
  · rcases hcalls i c hi with heq | hi
    · exact hopened (heq.symm.trans hpoint)
    · obtain ⟨name, hname⟩ := h.opened i c hi hpoint
      exact ⟨name, hhas name hname⟩

theorem moves_goto {point : SchedulePoint} (k : ℕ) (d : ScheduleCall)
    (h : (s.goto i c point).calls[k]? = some d) : d.point = point ∨ s.calls[k]? = some d := by
  rcases getElem?_goto h with ⟨-, -, hpoint⟩ | ⟨-, hk⟩
  · exact .inl hpoint
  · exact .inr hk

theorem point_fail (c : ScheduleCall) :
    (c.fail).point = .ended .failed ∨ c.fail = c := by
  obtain ⟨job, point⟩ := c
  cases point
  case ended outcome => exact .inr rfl
  all_goals exact .inl rfl

theorem Seeded.step (h : s.Seeded) (ht : machine.step s a = some t) : t.Seeded := by
  have hhas : ∀ name, s.Has name → t.Has name := fun name => has_step ht
  cases a with
  | call job =>
    obtain rfl := Option.some.inj ht
    refine h.of_moves hhas .create (fun k d hk => ?_) nofun nofun
    rcases Nat.lt_or_ge k s.calls.length with hlt | hge
    · exact .inr ((List.getElem?_append_left hlt).symm.trans hk)
    · have hk : (s.calls ++ [_])[k]? = some d := hk
      rw [List.getElem?_append_right hge] at hk
      exact .inl (List.mem_singleton.1 (List.mem_of_getElem? hk) ▸ rfl)
  | next i =>
    obtain ⟨c, hi, hnext⟩ := Option.bind_eq_some_iff.1 ht
    cases next_cases hnext with
    | created hpoint => exact h.of_moves hhas _ moves_goto nofun nofun
    | @counted table hpoint htable =>
      refine h.of_moves hhas _ moves_goto (fun k heq => ?_) fun heq => ?_
      · split at heq
        · cases heq
          exact ⟨by decide, fun j hj => absurd hj (Nat.not_lt_zero j)⟩
        · cases heq
      · split at heq
        · cases heq
        · rename_i hne
          obtain ⟨name, hname⟩ := entries_ne_nil_iff.1 (fun hnil => hne (List.isEmpty_iff.2 hnil))
          exact ⟨name, table, htable, hname⟩
    | conflict hpoint htable hq hthere => exact h.of_moves hhas _ moves_goto nofun nofun
    | @seeded k q table hpoint htable hq hfree =>
      obtain ⟨-, hbefore⟩ := h.before i c k hi hpoint
      have hset : ((table.set q.name q.row).get? q.name).isSome := by
        rw [InsertionMap.get?_set, if_pos rfl]
        rfl
      refine h.of_moves hhas _ moves_goto (fun k' heq => ?_) fun _ => ⟨q.name, _, rfl, hset⟩
      unfold afterSeed at heq
      split at heq
      · rename_i hlt
        cases heq
        refine ⟨hlt, fun j hj other hother => ?_⟩
        rcases Nat.lt_succ_iff_lt_or_eq.1 hj with hj | rfl
        · exact hhas other.name (hbefore j hj other hother)
        · obtain rfl := Option.some.inj (hq.symm.trans hother)
          exact ⟨_, rfl, hset⟩
      · cases heq
    | unread hpoint => exact h.of_moves hhas _ moves_goto nofun nofun
    | started hpoint hjob htable hload => exact h.of_moves hhas _ moves_goto nofun nofun
    | updated hpoint hjob htable hup => exact h.of_moves hhas _ moves_goto nofun nofun
  | fault i =>
    obtain ⟨c, hi, -, rfl⟩ := step_fault ht
    refine h.of_moves hhas (.ended .failed) (fun k d hk => ?_) nofun nofun
    have hk : (s.calls.set i c.fail)[k]? = some d := hk
    rw [List.getElem?_set] at hk
    split at hk
    · rename_i hik
      split at hk
      · obtain rfl := Option.some.inj hk
        rcases point_fail c with hfail | hfail
        · exact .inl hfail
        · exact .inr (hik ▸ hfail.symm ▸ hi)
      · cases hk
    · exact .inr hk
  | crash =>
    obtain rfl := Option.some.inj ht
    refine h.of_moves hhas (.ended .failed) (fun k d hk => ?_) nofun nofun
    have hk : (s.calls.map ScheduleCall.fail)[k]? = some d := hk
    rw [List.getElem?_map] at hk
    obtain ⟨c, hc, rfl⟩ := Option.map_eq_some_iff.1 hk
    rcases point_fail c with hfail | hfail
    · exact .inl hfail
    · exact .inr (hfail.symm ▸ hc)

theorem seeded_init : init.Seeded where
  before i c k hi := by cases hi
  opened i c hi := by cases hi

/-! ## When the defaults are cut off -/

/-- Where a call is put that inserts nothing, the others are what counts. -/
theorem no_seeder_set {d : ScheduleCall} (hlt : i < s.calls.length) (hd : ¬ d.Seeding) :
    (∀ c ∈ s.calls.set i d, ¬ c.Seeding) ↔
      ∀ (j : ℕ) (c : ScheduleCall), j ≠ i → s.calls[j]? = some c → ¬ c.Seeding := by
  constructor
  · intro h j other hne hj
    refine h other (List.mem_of_getElem? (i := j) ?_)
    rw [List.getElem?_set_ne hne.symm]
    exact hj
  · intro h other hmem
    obtain ⟨j, hj⟩ := List.mem_iff_getElem?.1 hmem
    rw [List.getElem?_set] at hj
    split at hj
    · exact Option.some.inj hj ▸ hd
    · rename_i hne
      exact h j other (fun heq => hne heq.symm) hj

/-- A call that inserts no defaults leaves nothing stuck. -/
theorem not_stuck_of_not_seeding {d : ScheduleCall} (h : ¬ s.Stuck) (hi : s.calls[i]? = some c)
    (hc : ¬ c.Seeding) (hd : ¬ d.Seeding) (hcalls : t.calls = s.calls.set i d)
    (hbegun : t.Partial → s.Partial) : ¬ t.Stuck := by
  rintro ⟨htbegun, hnone⟩
  rw [hcalls, no_seeder_set (List.getElem?_eq_some_iff.1 hi).1 hd] at hnone
  refine h ⟨hbegun htbegun, fun other hmem => ?_⟩
  obtain ⟨j, hj⟩ := List.mem_iff_getElem?.1 hmem
  by_cases hji : j = i
  · subst hji
    exact Option.some.inj (hi.symm.trans hj) ▸ hc
  · exact hnone j other hji hj

/-- A call that ends while it inserts the defaults leaves them stuck exactly
when it is the last. -/
theorem stuck_iff_of_seeding {d : ScheduleCall} (hi : s.calls[i]? = some c) (hc : c.Seeding)
    (hd : ¬ d.Seeding) (hcalls : t.calls = s.calls.set i d) (htable : t.table = s.table) :
    t.Stuck ↔ s.Partial ∧ s.OnlySeeder i := by
  unfold Stuck Partial OnlySeeder
  rw [htable, hcalls, no_seeder_set (List.getElem?_eq_some_iff.1 hi).1 hd]
  exact and_congr_right fun _ => (and_iff_right ⟨c, hi, hc⟩).symm

theorem not_seeding_mk (job : ScheduleJob) (point : SchedulePoint)
    (hne : ∀ k, point ≠ .seed k) : ¬ (ScheduleCall.mk job point).Seeding := by
  rintro ⟨k, hk⟩
  exact hne k hk

theorem not_seeding_of_point {point : SchedulePoint} (hpoint : c.point = point)
    (hne : ∀ k, point ≠ .seed k) : ¬ c.Seeding := by
  rintro ⟨k, hk⟩
  exact hne k (hpoint.symm.trans hk)

/-- Who inserts nothing cuts nothing off. -/
theorem not_onlySeeder (hi : s.calls[i]? = some c) (hc : ¬ c.Seeding) : ¬ s.OnlySeeder i := by
  rintro ⟨⟨other, hother, hseeding⟩, -⟩
  exact hc (Option.some.inj (hi.symm.trans hother) ▸ hseeding)

/-- A transaction completes a table, or leaves what was missing of it. -/
theorem partial_of_updated {queries : List ScheduledQuery} {table' : ScheduleTable}
    (hseeded : s.Seeded) (hi : s.calls[i]? = some c) (hpoint : c.point = .opened)
    (htable : s.table = some table) (hup : upsert_queries table queries = some table')
    (ht : t.table = some table') (h : t.Partial) : s.Partial := by
  obtain ⟨-, q, hq, hmissing⟩ := partial_iff.1 h
  refine partial_iff.2 ⟨hseeded.opened i c hi hpoint, q, hq, ?_⟩
  rintro ⟨other, hother, hthere⟩
  obtain rfl := Option.some.inj (htable.symm.trans hother)
  exact hmissing ⟨table', ht, isSome_get?_upsert_queries hup hthere⟩

/-- **A step leaves the defaults stuck exactly when it cuts them off.** -/
theorem stuck_step_iff (hseeded : s.Seeded) (h : ¬ s.Stuck) (ht : machine.step s a = some t) :
    ¬ t.Stuck ↔ ¬ s.CutsSeeding a := by
  cases a with
  | call job =>
    obtain rfl := Option.some.inj ht
    refine iff_of_true (fun hstuck => h ⟨hstuck.1, fun c hc => ?_⟩) id
    exact hstuck.2 c (List.mem_append_left _ hc)
  | next i =>
    obtain ⟨c, hi, hnext⟩ := Option.bind_eq_some_iff.1 ht
    cases next_cases hnext with
    | created hpoint =>
      have hc := not_seeding_of_point hpoint nofun
      refine iff_of_true ?_ fun hcuts => not_onlySeeder hi hc hcuts.2.1
      refine not_stuck_of_not_seeding h hi hc (not_seeding_mk c.job .count nofun) rfl ?_
      rintro ⟨table, htable, hne, hdefaults⟩
      cases hs : s.table with
      | none =>
        obtain rfl : s.table.getD .empty = table := Option.some.inj htable
        rw [hs] at hne
        exact absurd rfl hne
      | some table' =>
        obtain rfl : s.table.getD .empty = table := Option.some.inj htable
        rw [hs] at hne hdefaults
        exact ⟨table', hs, hne, hdefaults⟩
    | @counted table hpoint htable =>
      have hc := not_seeding_of_point hpoint nofun
      refine iff_of_true ?_ fun hcuts => not_onlySeeder hi hc hcuts.2.1
      by_cases hempty : table.entries.isEmpty
      · -- what is empty is not stuck
        rintro ⟨⟨other, hother, hne, -⟩, -⟩
        obtain rfl := Option.some.inj (htable.symm.trans hother)
        exact hne (List.isEmpty_iff.1 hempty)
      · refine not_stuck_of_not_seeding h hi hc (d := ⟨c.job, _⟩) ?_ rfl id
        rw [if_neg hempty]
        exact not_seeding_mk c.job .opened nofun
    | conflict hpoint htable hq hthere =>
      have hfailed : ¬ (ScheduleCall.mk c.job (.ended .failed)).Seeding :=
        not_seeding_mk c.job _ nofun
      rw [stuck_iff_of_seeding (t := s.goto i c (.ended .failed)) hi ⟨_, hpoint⟩ hfailed rfl rfl]
      have hconflict : s.Conflicts i := ⟨c, _, _, _, hi, hpoint, hq, htable, hthere⟩
      exact not_congr ⟨fun hcuts => ⟨hcuts.1, hcuts.2, hconflict⟩,
        fun hcuts => ⟨hcuts.1, hcuts.2.1⟩⟩
    | @seeded k q table hpoint htable hq hfree =>
      refine iff_of_true ?_ fun hcuts => ?_
      · by_cases hlt : k + 1 < defaults.length
        · -- it goes on to the next
          intro hstuck
          refine hstuck.2 { c with point := afterSeed k } ?_ ⟨k + 1, if_pos hlt⟩
          refine List.mem_of_getElem? (i := i) ?_
          show (s.calls.set i _)[i]? = _
          rw [List.getElem?_set, if_pos rfl, if_pos (List.getElem?_eq_some_iff.1 hi).1]
        · -- it was the last
          intro hstuck
          obtain ⟨-, other, hother, hmissing⟩ := partial_iff.1 hstuck.1
          obtain ⟨hk, hbefore⟩ := hseeded.before i c k hi hpoint
          obtain ⟨j, hj⟩ := List.mem_iff_getElem?.1 hother
          have hjlen := (List.getElem?_eq_some_iff.1 hj).1
          refine hmissing ?_
          by_cases hjk : j = k
          · subst hjk
            obtain rfl := Option.some.inj (hq.symm.trans hj)
            refine ⟨_, rfl, ?_⟩
            rw [InsertionMap.get?_set, if_pos rfl]
            rfl
          · exact has_step ht (hbefore j (by omega) other hj)
      · obtain ⟨c', k', q', table', hi', hpoint', hq', htable', hthere⟩ := hcuts.2.2
        obtain rfl := Option.some.inj (hi.symm.trans hi')
        cases hpoint.symm.trans hpoint'
        obtain rfl := Option.some.inj (hq.symm.trans hq')
        obtain rfl := Option.some.inj (htable.symm.trans htable')
        rw [hfree] at hthere
        cases hthere
    | unread hpoint =>
      have hc := not_seeding_of_point hpoint nofun
      refine iff_of_true ?_ fun hcuts => not_onlySeeder hi hc hcuts.2.1
      exact not_stuck_of_not_seeding h hi hc (not_seeding_mk c.job (.ended .failed) nofun) rfl id
    | started hpoint hjob htable hload =>
      have hc := not_seeding_of_point hpoint nofun
      refine iff_of_true ?_ fun hcuts => not_onlySeeder hi hc hcuts.2.1
      exact not_stuck_of_not_seeding h hi hc (not_seeding_mk c.job (.ended (.started _)) nofun) rfl
        id
    | updated hpoint hjob htable hup =>
      have hc := not_seeding_of_point hpoint nofun
      refine iff_of_true ?_ fun hcuts => not_onlySeeder hi hc hcuts.2.1
      exact not_stuck_of_not_seeding h hi hc (not_seeding_mk c.job (.ended .updated) nofun) rfl
        (partial_of_updated hseeded hi hpoint htable hup rfl)
  | fault i =>
    obtain ⟨c, hi, hended, rfl⟩ := step_fault ht
    have hfail : ¬ c.fail.Seeding := by
      rcases point_fail c with hfail | hfail
      · exact not_seeding_of_point hfail nofun
      · rw [hfail]
        obtain ⟨job, point⟩ := c
        cases point
        case ended outcome => exact absurd rfl (hended outcome)
        all_goals cases hfail
    by_cases hc : c.Seeding
    · exact not_congr (stuck_iff_of_seeding hi hc hfail rfl rfl)
    · refine iff_of_true ?_ fun hcuts => not_onlySeeder hi hc hcuts.2
      exact not_stuck_of_not_seeding h hi hc hfail rfl id
  | crash =>
    obtain rfl := Option.some.inj ht
    refine not_congr ⟨fun hstuck => hstuck.1, fun hbegun => ⟨hbegun, fun c hc => ?_⟩⟩
    obtain ⟨old, -, rfl⟩ := List.mem_map.1 hc
    obtain ⟨job, point⟩ := old
    cases point <;> exact not_seeding_of_point rfl nofun

/-! ## What is missing stays missing -/

/-- What has ended has ended for good. -/
theorem ended_step {job : ScheduleJob} {outcome : ScheduleOutcome} {k : ℕ}
    (ht : machine.step s a = some t) (hk : s.calls[k]? = some ⟨job, .ended outcome⟩) :
    t.calls[k]? = some ⟨job, .ended outcome⟩ := by
  cases a with
  | call job' =>
    obtain rfl := Option.some.inj ht
    exact (List.getElem?_append_left (List.getElem?_eq_some_iff.1 hk).1).trans hk
  | next i =>
    obtain ⟨c, hi, hnext⟩ := Option.bind_eq_some_iff.1 ht
    have hkeep : ∀ {table : Option ScheduleTable} {commits point},
        (∀ outcome, c.point ≠ .ended outcome) →
        (ScheduleState.goto ⟨table, s.calls, commits⟩ i c point).calls[k]? =
          some ⟨job, .ended outcome⟩ :=
      fun hpoint => getElem?_goto_of_ended (s := ⟨_, s.calls, _⟩) hi hpoint hk
    cases next_cases hnext with
    | created hpoint => exact hkeep fun outcome heq => by cases hpoint.symm.trans heq
    | counted hpoint _ => exact hkeep fun outcome heq => by cases hpoint.symm.trans heq
    | conflict hpoint _ _ _ => exact hkeep fun outcome heq => by cases hpoint.symm.trans heq
    | seeded hpoint _ _ _ => exact hkeep fun outcome heq => by cases hpoint.symm.trans heq
    | unread hpoint => exact hkeep fun outcome heq => by cases hpoint.symm.trans heq
    | started hpoint _ _ _ => exact hkeep fun outcome heq => by cases hpoint.symm.trans heq
    | updated hpoint _ _ _ => exact hkeep fun outcome heq => by cases hpoint.symm.trans heq
  | fault i =>
    obtain ⟨c, hi, hended, rfl⟩ := step_fault ht
    have hne : i ≠ k := by
      rintro rfl
      obtain rfl := Option.some.inj (hi.symm.trans hk)
      exact hended outcome rfl
    exact (List.getElem?_set_ne hne).trans hk
  | crash =>
    obtain rfl := Option.some.inj ht
    show (s.calls.map ScheduleCall.fail)[k]? = _
    rw [List.getElem?_map, hk]
    rfl

/-- The table has something, and nobody inserts defaults. -/
def Settled (s : ScheduleState) : Prop :=
  (∃ name, s.Has name) ∧ ∀ c ∈ s.calls, ¬ c.Seeding

/-- An update that wrote a name has returned. -/
def Updated (s : ScheduleState) (name : String) : Prop :=
  ∃ (i : ℕ) (queries : List ScheduledQuery),
    s.calls[i]? = some ⟨.update queries, .ended .updated⟩ ∧ ∃ q ∈ queries, q.name = name

theorem Updated.step {name : String} (h : s.Updated name) (ht : machine.step s a = some t) :
    t.Updated name := by
  obtain ⟨i, queries, hi, hname⟩ := h
  exact ⟨i, queries, ended_step ht hi, hname⟩

theorem settled_set {d : ScheduleCall} (h : ∀ c ∈ s.calls, ¬ c.Seeding) (hd : ¬ d.Seeding) :
    ∀ c ∈ s.calls.set i d, ¬ c.Seeding := by
  intro c hc
  rcases List.mem_or_eq_of_mem_set hc with hc | rfl
  · exact h c hc
  · exact hd

/-- **From a settled state no default is inserted**: a name that comes, comes
by an update. -/
theorem Settled.step (h : s.Settled) (ht : machine.step s a = some t) :
    t.Settled ∧ ∀ name, t.Has name → s.Has name ∨ t.Updated name := by
  obtain ⟨⟨name₀, hname₀⟩, hnone⟩ := h
  have hsome : ∃ name, t.Has name := ⟨name₀, has_step ht hname₀⟩
  cases a with
  | call job =>
    obtain rfl := Option.some.inj ht
    refine ⟨⟨hsome, fun c hc => ?_⟩, fun _ => .inl⟩
    rcases List.mem_append.1 hc with hc | hc
    · exact hnone c hc
    · exact List.mem_singleton.1 hc ▸ not_seeding_mk job .create nofun
  | next i =>
    obtain ⟨c, hi, hnext⟩ := Option.bind_eq_some_iff.1 ht
    cases next_cases hnext with
    | created hpoint =>
      refine ⟨⟨hsome, settled_set hnone (not_seeding_mk c.job .count nofun)⟩, ?_⟩
      rintro name ⟨table, htable, hname⟩
      cases hs : s.table with
      | none =>
        obtain rfl : s.table.getD .empty = table := Option.some.inj htable
        rw [hs] at hname
        cases hname
      | some table' =>
        obtain rfl : s.table.getD .empty = table := Option.some.inj htable
        rw [hs] at hname
        exact .inl ⟨table', hs, hname⟩
    | @counted table hpoint htable =>
      -- the table that is counted is not empty
      have hempty : table.entries.isEmpty = false := by
        obtain ⟨table', htable', hname⟩ := hname₀
        obtain rfl := Option.some.inj (htable.symm.trans htable')
        rw [← Bool.not_eq_true, List.isEmpty_iff]
        exact entries_ne_nil_of_get? hname
      rw [hempty] at hsome ⊢
      exact ⟨⟨hsome, settled_set hnone (not_seeding_mk c.job .opened nofun)⟩, fun _ => .inl⟩
    | conflict hpoint _ _ _ =>
      exact ⟨⟨hsome, settled_set hnone (not_seeding_mk c.job (.ended .failed) nofun)⟩,
        fun _ => .inl⟩
    | @seeded k q table hpoint _ _ _ =>
      exact absurd ⟨k, hpoint⟩ (hnone c (List.mem_of_getElem? hi))
    | unread hpoint =>
      exact ⟨⟨hsome, settled_set hnone (not_seeding_mk c.job (.ended .failed) nofun)⟩,
        fun _ => .inl⟩
    | @started queries table hpoint _ _ _ =>
      exact ⟨⟨hsome, settled_set hnone
        (not_seeding_mk c.job (.ended (.started queries)) nofun)⟩, fun _ => .inl⟩
    | @updated queries table table' hpoint hjob htable hup =>
      refine ⟨⟨hsome, settled_set hnone (not_seeding_mk c.job (.ended .updated) nofun)⟩, ?_⟩
      rintro name ⟨other, hother, hname⟩
      obtain rfl := Option.some.inj hother
      obtain ⟨-, rfl⟩ := upsert_queries_eq_some.1 hup
      rw [InsertionMap.get?_foldl_set] at hname
      cases hfind : queries.reverse.find? (·.name = name) with
      | none =>
        rw [hfind] at hname
        exact .inl ⟨table, htable, hname⟩
      | some q =>
        right
        refine ⟨i, queries, ?_, q, mem_of_lastWrite hfind, name_of_lastWrite hfind⟩
        show (s.calls.set i _)[i]? = _
        rw [List.getElem?_set, if_pos rfl, if_pos (List.getElem?_eq_some_iff.1 hi).1, hjob]
  | fault i =>
    obtain ⟨c, hi, -, rfl⟩ := step_fault ht
    refine ⟨⟨hsome, settled_set hnone ?_⟩, fun _ => .inl⟩
    rcases point_fail c with hfail | hfail
    · exact not_seeding_of_point hfail nofun
    · exact hfail.symm ▸ hnone c (List.mem_of_getElem? hi)
  | crash =>
    obtain rfl := Option.some.inj ht
    refine ⟨⟨hsome, fun c hc => ?_⟩, fun _ => .inl⟩
    obtain ⟨old, -, rfl⟩ := List.mem_map.1 hc
    obtain ⟨job, point⟩ := old
    cases point <;> exact not_seeding_of_point rfl nofun

/-- **When the default queries are never completed.** In every run the table
is at no time left with some defaults and no call that inserts the others if
and only if the last such call is never cut off in between, by a fault, by a
default that is there already, or by a kill. And where it is left so, a
default that is missing never comes, however often the agent starts, but by
an update that names it. -/
theorem defaults_cut_off (hrun : machine.run init l = some t) :
    (machine.Always (¬ ·.Stuck) init l ↔ machine.EveryStep (fun s a => ¬ s.CutsSeeding a) init l) ∧
    (t.Stuck → ∀ l' u, machine.run t l' = some u → ∀ name, ¬ t.Has name → u.Has name →
      u.Updated name) := by
  constructor
  · refine Machine.always_iff_everyStep (I := Seeded) (fun s a t hs ht => hs.step ht)
      (fun s a t hs h ht => stuck_step_iff hs h ht) seeded_init ?_ hrun
    rintro ⟨⟨table, htable, -⟩, -⟩
    cases htable
  · intro hstuck l' u hu name hmissing hhas
    have hsettled : t.Settled := ⟨(partial_iff.1 hstuck.1).1, hstuck.2⟩
    have hkeep := Machine.run_preserves
      (I := fun u => u.Settled ∧ ∀ name, u.Has name → t.Has name ∨ u.Updated name)
      (fun s a v hs hv => ?_) hu ⟨hsettled, fun _ => .inl⟩
    · exact (hkeep.2 name hhas).resolve_left hmissing
    · obtain ⟨hnext, hnames⟩ := hs.1.step hv
      refine ⟨hnext, fun name hname => ?_⟩
      rcases hnames name hname with hname | hname
      · exact (hs.2 name hname).imp_right fun hupdated => hupdated.step hv
      · exact .inr hname

/-- The agent is killed after the first default was inserted, and starts
again. -/
def killedWhileSeeding : List ScheduleAction :=
  [.call .start, .next 0, .next 0, .next 0, .crash]

/-- It goes on without the listening ports and the users. -/
theorem stuck_killedWhileSeeding : ∃ t, machine.run init killedWhileSeeding = some t ∧
    t.Stuck ∧ ∀ l' u, machine.run t l' = some u → u.Has "users" → u.Updated "users" := by
  have hstuck : Stuck ⟨some (.set .empty "running_processes" (defaults[0].row)),
      [⟨.start, .ended .failed⟩], [(0, [defaults[0]])]⟩ := by
    refine ⟨⟨_, rfl, nofun, by decide⟩, fun c hc => ?_⟩
    exact List.mem_singleton.1 hc ▸ not_seeding_mk .start (.ended .failed) nofun
  refine ⟨_, rfl, hstuck, fun l' u hu => ?_⟩
  refine (@defaults_cut_off _ killedWhileSeeding rfl).2 hstuck l' u hu "users" ?_
  rintro ⟨table, htable, hname⟩
  obtain rfl := Option.some.inj htable
  cases hname

end ScheduleState

end AigisZero.Agent
