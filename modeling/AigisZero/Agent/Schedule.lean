import AigisZero.Agent.Types
import AigisZero.Library.Fallible
import AigisZero.Library.InsertionMap
import AigisZero.Library.Machine

/-!
# The schedule of the queries

The queries that the agent runs are the rows of a table of its local
database. Whoever opens the table creates it and, where it is empty, fills
it with three default queries, each inserted by a statement of its own. An
update writes its queries in one transaction. The collector loads the table
once, when it starts.
-/

namespace AigisZero.Agent

/-! ## The table -/

/-- A row of `scheduled_queries`, but for its key and for when it was
written, which nothing reads. -/
structure ScheduleRow where
  query : String
  interval_secs : ℤ
  snapshot : ℤ
deriving DecidableEq, Repr

/-- The table, in the order in which the names came. -/
abbrev ScheduleTable := InsertionMap String ScheduleRow

/-- `i64::MAX`. -/
def I64_MAX : ℕ := 9223372036854775807

/-- `i32::MIN`. -/
def I32_MIN : ℤ := -2147483648

/-- `i32::MAX`. -/
def I32_MAX : ℤ := 2147483647

namespace ScheduledQuery

def row (q : ScheduledQuery) : ScheduleRow :=
  ⟨q.query, q.interval_secs, if q.snapshot then 1 else 0⟩

/-- The row of a query. An interval that is no signed number of 64 bits
cannot be bound. -/
def toRow (q : ScheduledQuery) : Option ScheduleRow :=
  if q.interval_secs ≤ I64_MAX then some q.row else none

def read (name : String) (row : ScheduleRow) : ScheduledQuery :=
  ⟨name, row.query, row.interval_secs.toNat, row.snapshot ≠ 0⟩

/-- The query of a row. A negative interval is no `u64`, and the flag is
read as an `i32`. -/
def ofRow (name : String) (row : ScheduleRow) : Option ScheduledQuery :=
  if I32_MIN ≤ row.snapshot ∧ row.snapshot ≤ I32_MAX ∧ 0 ≤ row.interval_secs then
    some (read name row)
  else none

end ScheduledQuery

/-- `QueryScheduler::load_queries`. -/
def load_queries (table : ScheduleTable) : Option (List ScheduledQuery) :=
  table.entries.mapM fun e => ScheduledQuery.ofRow e.1 e.2

/-- `INSERT … ON CONFLICT(name) DO UPDATE`, of one query. -/
def upsert (table : ScheduleTable) (q : ScheduledQuery) : Option ScheduleTable :=
  q.toRow.map (table.set q.name)

/-- `QueryScheduler::upsert_queries`: none where the transaction is rolled
back. -/
def upsert_queries (table : ScheduleTable) (queries : List ScheduledQuery) :
    Option ScheduleTable :=
  queries.foldlM upsert table

/-- The queries that an empty table is filled with. -/
def defaults : List ScheduledQuery :=
  [⟨"running_processes", "SELECT pid, name, path, cmdline, uid FROM processes;", 30, false⟩,
    ⟨"listening_ports", "SELECT pid, port, protocol, address FROM listening_ports;", 30, false⟩,
    ⟨"users", "SELECT username, uid, gid, shell, directory FROM users;", 300, false⟩]

/-! ## The calls -/

/-- What the table is opened for. -/
inductive ScheduleJob where
  /-- The task of `OsqueryCollector::start`. -/
  | start
  /-- `OsqueryCollector::update_schedule`. -/
  | update (queries : List ScheduledQuery)
deriving DecidableEq, Repr

/-- How a call ends. -/
inductive ScheduleOutcome where
  | failed
  | updated
  /-- The queries that the tasks were spawned for. -/
  | started (queries : List ScheduledQuery)
deriving DecidableEq, Repr

/-- The statement a call comes to next. -/
inductive SchedulePoint where
  | create
  | count
  /-- The default that is inserted next. -/
  | seed (k : ℕ)
  /-- The scheduler is open: it loads the table, or updates it. -/
  | opened
  | ended (outcome : ScheduleOutcome)
deriving DecidableEq, Repr

structure ScheduleCall where
  job : ScheduleJob
  point : SchedulePoint
deriving DecidableEq, Repr

/-- The database, and the calls that opened it. -/
structure ScheduleState where
  /-- None until the table is created. -/
  table : Option ScheduleTable
  calls : List ScheduleCall
  /-- What was committed, each with the call it is of. -/
  commits : List (ℕ × List ScheduledQuery)

/-- What happens. -/
inductive ScheduleAction where
  | call (job : ScheduleJob)
  /-- The next statement of a call. -/
  | next (call : ℕ)
  /-- The next statement of a call fails: the database is busy, or full. -/
  | fault (call : ℕ)
  /-- The agent is killed. -/
  | crash
deriving DecidableEq, Repr

/-- A call that has not ended fails. -/
def ScheduleCall.fail (c : ScheduleCall) : ScheduleCall :=
  match c.point with
  | .ended _ => c
  | _ => { c with point := .ended .failed }

namespace ScheduleState

def init : ScheduleState := ⟨none, [], []⟩

/-- A call comes to another point. -/
def goto (s : ScheduleState) (i : ℕ) (c : ScheduleCall) (point : SchedulePoint) :
    ScheduleState :=
  { s with calls := s.calls.set i { c with point := point } }

/-- After the default that was inserted, the next, or none. -/
def afterSeed (k : ℕ) : SchedulePoint := if k + 1 < defaults.length then .seed (k + 1) else .opened

/-- The next statement of a call. -/
def next (s : ScheduleState) (i : ℕ) (c : ScheduleCall) : Option ScheduleState :=
  match c.point, s.table with
  | .create, table => some ({ s with table := some (table.getD .empty) }.goto i c .count)
  | .count, some table => some (s.goto i c (if table.entries.isEmpty then .seed 0 else .opened))
  | .seed k, some table =>
    match defaults[k]? with
    | none => none
    | some q =>
      -- a name that is there is a conflict, and nothing is inserted
      if (table.get? q.name).isSome then some (s.goto i c (.ended .failed))
      else
        match upsert table q with
        | none => some (s.goto i c (.ended .failed))
        | some table => some ({ s with
            table := some table
            commits := s.commits ++ [(i, [q])] }.goto i c (afterSeed k))
  | .opened, some table =>
    match c.job with
    | .start =>
      match load_queries table with
      | none => some (s.goto i c (.ended .failed))
      | some queries => some (s.goto i c (.ended (.started queries)))
    | .update queries =>
      match upsert_queries table queries with
      | none => some (s.goto i c (.ended .failed))
      | some table => some ({ s with
          table := some table
          commits := s.commits ++ [(i, queries)] }.goto i c (.ended .updated))
  | .ended _, _ => none
  | _, none => none

/-- **The schedule as a machine**: statements of any calls in any order. -/
def machine : Machine ScheduleState ScheduleAction where
  step s
    | .call job => some { s with calls := s.calls ++ [⟨job, .create⟩] }
    | .next i => s.calls[i]?.bind (s.next i)
    | .fault i =>
      match s.calls[i]? with
      | some ⟨_, .ended _⟩ => none
      | some c => some { s with calls := s.calls.set i c.fail }
      | none => none
    | .crash => some { s with calls := s.calls.map ScheduleCall.fail }

end ScheduleState

/-! ## Rows and queries -/

namespace ScheduledQuery

variable {q : ScheduledQuery}

theorem read_row (q : ScheduledQuery) : read q.name q.row = q := by
  obtain ⟨name, query, interval_secs, snapshot⟩ := q
  cases snapshot <;> simp [read, row]

/-- What was bound can be read. -/
theorem ofRow_row (q : ScheduledQuery) : ofRow q.name q.row = some q := by
  have hflag : I32_MIN ≤ q.row.snapshot ∧ q.row.snapshot ≤ I32_MAX := by
    unfold row I32_MIN I32_MAX
    cases q.snapshot <;> simp
  have hinterval : 0 ≤ q.row.interval_secs := Int.natCast_nonneg _
  rw [ofRow, if_pos ⟨hflag.1, hflag.2, hinterval⟩, read_row]

end ScheduledQuery

/-! ## The last write -/

/-- What was last written under a name. -/
def lastWrite (written : List ScheduledQuery) (name : String) : Option ScheduledQuery :=
  written.reverse.find? (·.name = name)

theorem lastWrite_append (l l' : List ScheduledQuery) (name : String) :
    lastWrite (l ++ l') name = (lastWrite l' name).or (lastWrite l name) := by
  unfold lastWrite
  rw [List.reverse_append, List.find?_append]

theorem name_of_lastWrite {l : List ScheduledQuery} {name : String} {q : ScheduledQuery}
    (h : lastWrite l name = some q) : q.name = name := by
  simpa using List.find?_some h

theorem mem_of_lastWrite {l : List ScheduledQuery} {name : String} {q : ScheduledQuery}
    (h : lastWrite l name = some q) : q ∈ l :=
  List.mem_reverse.1 (List.mem_of_find?_eq_some h)

/-- **A transaction writes all of its queries or none.** -/
theorem upsert_queries_eq_some {table table' : ScheduleTable} {queries : List ScheduledQuery} :
    upsert_queries table queries = some table' ↔
      (∀ q ∈ queries, q.interval_secs ≤ I64_MAX) ∧
        table' = queries.foldl (fun t q => t.set q.name q.row) table := by
  induction queries generalizing table with
  | nil =>
    constructor
    · intro h
      exact ⟨fun q hq => absurd hq List.not_mem_nil, (Option.some.inj h).symm⟩
    · rintro ⟨-, rfl⟩
      rfl
  | cons q queries ih =>
    have hcons : upsert_queries table (q :: queries) =
        (upsert table q).bind fun t => upsert_queries t queries := rfl
    rw [hcons, List.forall_mem_cons, List.foldl_cons]
    unfold upsert ScheduledQuery.toRow
    by_cases hq : q.interval_secs ≤ I64_MAX
    · rw [if_pos hq]
      exact ih.trans (and_congr_left fun _ => (and_iff_right hq).symm)
    · rw [if_neg hq]
      exact iff_of_false nofun fun h => hq h.1.1

namespace ScheduleState

variable {s t : ScheduleState} {a : ScheduleAction} {l : List ScheduleAction} {i : ℕ}
  {table : ScheduleTable}

/-- **The table is what was last written under each name.** -/
structure Holds (table : ScheduleTable) (written : List ScheduledQuery) : Prop where
  get : ∀ name, table.get? name = (lastWrite written name).map ScheduledQuery.row
  bound : ∀ q ∈ written, q.interval_secs ≤ I64_MAX

theorem holds_empty : Holds .empty [] :=
  ⟨fun _ => rfl, fun _ h => absurd h List.not_mem_nil⟩

/-- A transaction adds its queries to what was written. -/
theorem Holds.upsert_queries {table' : ScheduleTable} {written queries : List ScheduledQuery}
    (h : Holds table written) (hup : upsert_queries table queries = some table') :
    Holds table' (written ++ queries) := by
  obtain ⟨hbound, rfl⟩ := upsert_queries_eq_some.1 hup
  refine ⟨fun name => ?_, fun q hq => ?_⟩
  · rw [InsertionMap.get?_foldl_set, lastWrite_append, h.get name]
    show ((lastWrite queries name).map _).or _ = _
    cases lastWrite queries name <;> rfl
  · rcases List.mem_append.1 hq with hq | hq
    · exact h.bound q hq
    · exact hbound q hq

/-! ## What a statement does -/

/-- **What the next statement of a call makes of the database.** -/
inductive Next (s : ScheduleState) (i : ℕ) (c : ScheduleCall) : ScheduleState → Prop where
  | created (hpoint : c.point = .create) :
      Next s i c ({ s with table := some (s.table.getD .empty) }.goto i c .count)
  | counted {table : ScheduleTable} (hpoint : c.point = .count) (htable : s.table = some table) :
      Next s i c (s.goto i c (if table.entries.isEmpty then .seed 0 else .opened))
  | conflict {k : ℕ} {q : ScheduledQuery} {table : ScheduleTable} (hpoint : c.point = .seed k)
      (htable : s.table = some table) (hq : defaults[k]? = some q)
      (hthere : (table.get? q.name).isSome) : Next s i c (s.goto i c (.ended .failed))
  | seeded {k : ℕ} {q : ScheduledQuery} {table : ScheduleTable} (hpoint : c.point = .seed k)
      (htable : s.table = some table) (hq : defaults[k]? = some q)
      (hfree : table.get? q.name = none) :
      Next s i c ({ s with
        table := some (table.set q.name q.row)
        commits := s.commits ++ [(i, [q])] }.goto i c (afterSeed k))
  | unread (hpoint : c.point = .opened) : Next s i c (s.goto i c (.ended .failed))
  | started {queries : List ScheduledQuery} {table : ScheduleTable} (hpoint : c.point = .opened)
      (hjob : c.job = .start) (htable : s.table = some table)
      (hload : load_queries table = some queries) :
      Next s i c (s.goto i c (.ended (.started queries)))
  | updated {queries : List ScheduledQuery} {table table' : ScheduleTable}
      (hpoint : c.point = .opened) (hjob : c.job = .update queries) (htable : s.table = some table)
      (hup : upsert_queries table queries = some table') :
      Next s i c ({ s with
        table := some table'
        commits := s.commits ++ [(i, queries)] }.goto i c (.ended .updated))

/-- What has ended does not fail. -/
theorem step_fault (h : machine.step s (.fault i) = some t) :
    ∃ c, s.calls[i]? = some c ∧ (∀ outcome, c.point ≠ .ended outcome) ∧
      t = { s with calls := s.calls.set i c.fail } := by
  simp only [machine] at h
  split at h
  · cases h
  · rename_i c hended hi
    refine ⟨c, hi, fun outcome hpoint => ?_, (Option.some.inj h).symm⟩
    obtain ⟨job, point⟩ := c
    obtain rfl : point = .ended outcome := hpoint
    exact hended job outcome rfl
  · cases h

/-- The defaults can be bound. -/
theorem interval_secs_le_of_default {q : ScheduledQuery} (h : q ∈ defaults) :
    q.interval_secs ≤ I64_MAX := by
  have hall : ∀ q ∈ defaults, q.interval_secs ≤ I64_MAX := by decide
  exact hall q h

theorem next_cases {c : ScheduleCall} (h : s.next i c = some t) : Next s i c t := by
  obtain ⟨job, point⟩ := c
  cases point with
  | create =>
    obtain rfl := Option.some.inj h
    exact .created rfl
  | count =>
    cases htable : s.table with
    | none => simp [next, htable] at h
    | some table =>
      simp only [next, htable, Option.some.injEq] at h
      exact h ▸ .counted rfl htable
  | seed k =>
    cases htable : s.table with
    | none => simp [next, htable] at h
    | some table =>
      cases hq : defaults[k]? with
      | none => simp [next, htable, hq] at h
      | some q =>
        have hbound := interval_secs_le_of_default (List.mem_of_getElem? hq)
        have hup : upsert table q = some (table.set q.name q.row) := by
          rw [upsert, ScheduledQuery.toRow, if_pos hbound]
          rfl
        cases hget : table.get? q.name with
        | some row =>
          simp only [next, htable, hq, hget, Option.isSome_some, if_true, Option.some.injEq] at h
          exact h ▸ .conflict rfl htable hq (by rw [hget]; rfl)
        | none =>
          simp only [next, htable, hq, hget, hup, Option.isSome_none, Bool.false_eq_true, if_false,
            Option.some.injEq] at h
          exact h ▸ .seeded rfl htable hq hget
  | opened =>
    cases htable : s.table with
    | none => simp [next, htable] at h
    | some table =>
      cases job with
      | start =>
        cases hload : load_queries table with
        | none =>
          simp only [next, htable, hload, Option.some.injEq] at h
          exact h ▸ .unread rfl
        | some queries =>
          simp only [next, htable, hload, Option.some.injEq] at h
          exact h ▸ .started rfl rfl htable hload
      | update queries =>
        cases hup : upsert_queries table queries with
        | none =>
          simp only [next, htable, hup, Option.some.injEq] at h
          exact h ▸ .unread rfl
        | some table' =>
          simp only [next, htable, hup, Option.some.injEq] at h
          exact h ▸ .updated rfl rfl htable hup
  | ended outcome => cases s.table <;> simp [next] at h

/-- **What is loaded is what was last written under each name**, each once. -/
theorem Holds.load {written : List ScheduledQuery} (h : Holds table written) :
    ∃ queries, load_queries table = some queries ∧ (queries.map ScheduledQuery.name).Nodup ∧
      ∀ q, q ∈ queries ↔ lastWrite written q.name = some q := by
  have hread : ∀ e ∈ table.entries, ∃ q, lastWrite written e.1 = some q ∧ q.row = e.2 := by
    rintro ⟨name, row⟩ he
    have hget := InsertionMap.get?_eq_some_iff.2 he
    rw [h.get name] at hget
    exact Option.map_eq_some_iff.1 hget
  have hload : load_queries table =
      some (table.entries.map fun e => ScheduledQuery.read e.1 e.2) := by
    refine mapM_eq_some_map fun e he => ?_
    obtain ⟨q, hq, hrow⟩ := hread e he
    rw [← name_of_lastWrite hq, ← hrow, ScheduledQuery.ofRow_row, ScheduledQuery.read_row]
  refine ⟨_, hload, ?_, fun q => ?_⟩
  · have hnames : (table.entries.map fun e => ScheduledQuery.read e.1 e.2).map ScheduledQuery.name =
        table.entries.map Prod.fst := by
      rw [List.map_map]
      rfl
    rw [hnames]
    exact table.nodup
  · constructor
    · intro hmem
      obtain ⟨e, he, rfl⟩ := List.mem_map.1 hmem
      obtain ⟨q, hq, hrow⟩ := hread e he
      have hname := name_of_lastWrite hq
      rw [← hrow, ← hname, ScheduledQuery.read_row, hname]
      exact hq
    · intro hlast
      have hget : table.get? q.name = some q.row := by rw [h.get, hlast]; rfl
      refine List.mem_map.2 ⟨(q.name, q.row), InsertionMap.get?_eq_some_iff.1 hget, ?_⟩
      exact ScheduledQuery.read_row q

/-! ## All or nothing -/

/-- What was written by some commits. -/
def writtenBy (commits : List (ℕ × List ScheduledQuery)) : List ScheduledQuery :=
  commits.flatMap Prod.snd

/-- The queries are what the commits wrote last under each name, each once. -/
def LastOf (commits : List (ℕ × List ScheduledQuery)) (queries : List ScheduledQuery) : Prop :=
  (queries.map ScheduledQuery.name).Nodup ∧
    ∀ q, q ∈ queries ↔ lastWrite (writtenBy commits) q.name = some q

/-- **What is known of the database and its calls**, as they have been since
some of the commits. -/
structure Sound (base : List (ℕ × List ScheduledQuery)) (first : ℕ) (s : ScheduleState) :
    Prop where
  holds : ∀ table, s.table = some table → Holds table (writtenBy s.commits)
  empty : s.table = none → s.commits = []
  base_prefix : base <+: s.commits
  /-- An update that returned has written its queries. -/
  updated : ∀ i queries, s.calls[i]? = some ⟨.update queries, .ended .updated⟩ →
    (i, queries) ∈ s.commits
  /-- Nothing else was written but defaults. -/
  source : ∀ c ∈ s.commits, (∃ q ∈ defaults, c.2 = [q]) ∨
    s.calls[c.1]? = some ⟨.update c.2, .ended .updated⟩
  /-- A start took the table as it was at some time since. -/
  started : ∀ i queries job, first ≤ i → s.calls[i]? = some ⟨job, .ended (.started queries)⟩ →
    ∃ earlier, base <+: earlier ∧ earlier <+: s.commits ∧ LastOf earlier queries

variable {base : List (ℕ × List ScheduledQuery)} {first : ℕ}

theorem getElem?_goto {c : ScheduleCall} {point : SchedulePoint} {k : ℕ} {other : ScheduleCall}
    (h : (s.goto i c point).calls[k]? = some other) :
    (k = i ∧ other.job = c.job ∧ other.point = point) ∨
      (k ≠ i ∧ s.calls[k]? = some other) := by
  have h : (s.calls.set i { c with point := point })[k]? = some other := h
  rw [List.getElem?_set] at h
  by_cases hik : i = k
  · rw [if_pos hik] at h
    split at h
    · obtain rfl := Option.some.inj h
      exact .inl ⟨hik.symm, rfl, rfl⟩
    · cases h
  · rw [if_neg hik] at h
    exact .inr ⟨fun hki => hik hki.symm, h⟩

/-- A call that goes on does not change what others have done. -/
theorem getElem?_goto_of_ended {c : ScheduleCall} {point : SchedulePoint} {k : ℕ}
    {job : ScheduleJob} {outcome : ScheduleOutcome} (hi : s.calls[i]? = some c)
    (hpoint : ∀ outcome, c.point ≠ .ended outcome)
    (hk : s.calls[k]? = some ⟨job, .ended outcome⟩) :
    (s.goto i c point).calls[k]? = some ⟨job, .ended outcome⟩ := by
  have hne : i ≠ k := by
    rintro rfl
    obtain rfl := Option.some.inj (hi.symm.trans hk)
    exact hpoint outcome rfl
  show (s.calls.set i _)[k]? = _
  rw [List.getElem?_set_ne hne]
  exact hk

/-- **A call that goes on without writing.** -/
theorem Sound.goto {c : ScheduleCall} {point : SchedulePoint} (h : s.Sound base first)
    (hi : s.calls[i]? = some c) (hpoint : ∀ outcome, c.point ≠ .ended outcome)
    (hupdated : point ≠ .ended .updated)
    (hstarted : ∀ queries, point = .ended (.started queries) → LastOf s.commits queries) :
    (s.goto i c point).Sound base first where
  holds := h.holds
  empty := h.empty
  base_prefix := h.base_prefix
  updated k queries hk := by
    rcases getElem?_goto hk with ⟨-, -, hpt⟩ | ⟨-, hk⟩
    · exact absurd hpt.symm hupdated
    · exact h.updated k queries hk
  source commit hcommit := (h.source commit hcommit).imp_right fun hcall =>
    getElem?_goto_of_ended hi hpoint hcall
  started k queries job hfirst hk := by
    rcases getElem?_goto hk with ⟨-, -, hpt⟩ | ⟨-, hk⟩
    · exact ⟨s.commits, h.base_prefix, List.prefix_rfl, hstarted queries hpt.symm⟩
    · exact h.started k queries job hfirst hk

/-- **A call that commits.** -/
theorem Sound.commit {c : ScheduleCall} {point : SchedulePoint} {table table' : ScheduleTable}
    {queries : List ScheduledQuery} (h : s.Sound base first) (hi : s.calls[i]? = some c)
    (hpoint : ∀ outcome, c.point ≠ .ended outcome) (htable : s.table = some table)
    (hup : upsert_queries table queries = some table')
    (hkind : (point = .ended .updated ∧ c.job = .update queries) ∨
      (∃ q ∈ defaults, queries = [q]) ∧ ∀ outcome, point ≠ .ended outcome) :
    ({ s with
      table := some table'
      commits := s.commits ++ [(i, queries)] }.goto i c point).Sound base first := by
  refine ⟨?_, nofun, h.base_prefix.trans (List.prefix_append ..), ?_, ?_, ?_⟩
  · intro other hother
    obtain rfl := Option.some.inj hother
    have hwritten : writtenBy (s.commits ++ [(i, queries)]) = writtenBy s.commits ++ queries := by
      simp [writtenBy]
    show Holds table' (writtenBy (s.commits ++ [(i, queries)]))
    rw [hwritten]
    exact (h.holds table htable).upsert_queries hup
  · intro k other hk
    rcases getElem?_goto hk with ⟨rfl, hother, hpt⟩ | ⟨-, hk⟩
    · rcases hkind with ⟨-, hjob⟩ | ⟨-, hnot⟩
      · cases hother.trans hjob
        exact List.mem_append_right _ (List.mem_singleton.2 rfl)
      · exact absurd hpt.symm (hnot _)
    · exact List.mem_append_left _ (h.updated k other hk)
  · intro commit hcommit
    rcases List.mem_append.1 hcommit with hcommit | hcommit
    · exact (h.source commit hcommit).imp_right fun hcall =>
        getElem?_goto_of_ended (s := { s with table := some table', commits := _ }) hi hpoint hcall
    · obtain rfl := List.mem_singleton.1 hcommit
      rcases hkind with ⟨rfl, hjob⟩ | ⟨hdefault, -⟩
      · right
        show (s.calls.set i _)[i]? = _
        rw [List.getElem?_set, if_pos rfl, if_pos (List.getElem?_eq_some_iff.1 hi).1, hjob]
      · exact .inl hdefault
  · intro k other job hfirst hk
    have hgrow : s.commits <+: s.commits ++ [(i, queries)] := List.prefix_append ..
    rcases getElem?_goto hk with ⟨-, -, hpt⟩ | ⟨-, hk⟩
    · rcases hkind with ⟨rfl, -⟩ | ⟨-, hnot⟩
      · cases hpt
      · exact absurd hpt.symm (hnot _)
    · obtain ⟨earlier, hbase, hprefix, hlast⟩ := h.started k other job hfirst hk
      exact ⟨earlier, hbase, hprefix.trans hgrow, hlast⟩

/-- Calls that fail change nothing that was done. -/
theorem Sound.fail {calls : List ScheduleCall} (h : s.Sound base first)
    (hcalls : ∀ (k : ℕ) (c : ScheduleCall) outcome, outcome ≠ .failed →
      c.point = .ended outcome → (calls[k]? = some c ↔ s.calls[k]? = some c)) :
    ({ s with calls := calls } : ScheduleState).Sound base first where
  holds := h.holds
  empty := h.empty
  base_prefix := h.base_prefix
  updated k queries hk := h.updated k queries ((hcalls k _ .updated nofun rfl).1 hk)
  source commit hcommit := (h.source commit hcommit).imp_right
    (hcalls commit.1 _ .updated nofun rfl).2
  started k queries job hfirst hk :=
    h.started k queries job hfirst ((hcalls k _ (.started queries) nofun rfl).1 hk)

theorem fail_eq_of_ended {c d : ScheduleCall} {outcome : ScheduleOutcome}
    (houtcome : outcome ≠ .failed) (hd : d.point = .ended outcome) : c.fail = d ↔ c = d := by
  obtain ⟨job, point⟩ := c
  cases point with
  | ended other => exact Iff.rfl
  | _ =>
    refine iff_of_false ?_ ?_ <;> rintro rfl
    · exact houtcome (by simpa [ScheduleCall.fail] using hd.symm)
    · cases hd

/-- A call that begins has done nothing. -/
theorem Sound.call (h : s.Sound base first) (job : ScheduleJob) :
    ({ s with calls := s.calls ++ [⟨job, .create⟩] } : ScheduleState).Sound base first := by
  refine h.fail fun k c outcome _ hc => ?_
  rcases Nat.lt_or_ge k s.calls.length with hlt | hge
  · rw [List.getElem?_append_left hlt]
  · rw [List.getElem?_append_right hge, List.getElem?_eq_none hge]
    refine iff_of_false (fun hk => ?_) nofun
    cases List.mem_singleton.1 (List.mem_of_getElem? hk)
    cases hc

/-- **A step keeps what is known of the database.** -/
theorem Sound.step (h : s.Sound base first) (ht : machine.step s a = some t) :
    t.Sound base first := by
  cases a with
  | call job =>
    obtain rfl := Option.some.inj ht
    exact h.call job
  | next i =>
    obtain ⟨c, hi, hnext⟩ := Option.bind_eq_some_iff.1 ht
    cases next_cases hnext with
    | created hpoint =>
      have hcreated : ({ s with table := some (s.table.getD .empty) } :
          ScheduleState).Sound base first := by
        refine ⟨fun table htable => ?_, nofun, h.base_prefix, h.updated, h.source, h.started⟩
        obtain rfl := Option.some.inj htable
        cases hs : s.table with
        | none =>
          show Holds .empty (writtenBy s.commits)
          rw [h.empty hs]
          exact holds_empty
        | some table => exact h.holds table hs
      exact hcreated.goto hi (fun outcome heq => by cases hpoint.symm.trans heq) nofun nofun
    | @counted table hpoint htable =>
      refine h.goto hi (fun outcome heq => by cases hpoint.symm.trans heq) ?_ ?_
      · split <;> nofun
      · intro queries heq
        split at heq <;> cases heq
    | conflict hpoint htable hq hthere =>
      exact h.goto hi (fun outcome heq => by cases hpoint.symm.trans heq) nofun nofun
    | @seeded k q table hpoint htable hq hfree =>
      have hmem := List.mem_of_getElem? hq
      have hup : upsert_queries table [q] = some (table.set q.name q.row) :=
        upsert_queries_eq_some.2 ⟨fun other hother => List.mem_singleton.1 hother ▸
          interval_secs_le_of_default hmem, rfl⟩
      refine h.commit hi (fun outcome heq => by cases hpoint.symm.trans heq) htable hup
        (.inr ⟨⟨q, hmem, rfl⟩, fun outcome heq => ?_⟩)
      unfold afterSeed at heq
      split at heq <;> cases heq
    | unread hpoint =>
      exact h.goto hi (fun outcome heq => by cases hpoint.symm.trans heq) nofun nofun
    | @started queries table hpoint hjob htable hload =>
      refine h.goto hi (fun outcome heq => by cases hpoint.symm.trans heq) nofun ?_
      intro other heq
      cases heq
      obtain ⟨loaded, hloaded, hnodup, hlast⟩ := (h.holds table htable).load
      obtain rfl := Option.some.inj (hload.symm.trans hloaded)
      exact ⟨hnodup, hlast⟩
    | updated hpoint hjob htable hup =>
      exact h.commit hi (fun outcome heq => by cases hpoint.symm.trans heq) htable hup
        (.inl ⟨rfl, hjob⟩)
  | fault i =>
    obtain ⟨c, hi, -, rfl⟩ := step_fault ht
    refine h.fail fun k d outcome houtcome hd => ?_
    rw [List.getElem?_set]
    by_cases hik : i = k
    · subst hik
      rw [if_pos rfl, if_pos (List.getElem?_eq_some_iff.1 hi).1, hi, Option.some.injEq,
        Option.some.injEq]
      exact fail_eq_of_ended houtcome hd
    · rw [if_neg hik]
  | crash =>
    obtain rfl := Option.some.inj ht
    refine h.fail fun k c outcome houtcome hc => ?_
    rw [List.getElem?_map, Option.map_eq_some_iff]
    constructor
    · rintro ⟨old, hold, hfail⟩
      exact (fail_eq_of_ended houtcome hc).1 hfail ▸ hold
    · intro hk
      exact ⟨c, hk, (fail_eq_of_ended houtcome hc).2 rfl⟩

theorem sound_init : init.Sound [] 0 where
  holds table h := by cases h
  empty _ := rfl
  base_prefix := List.prefix_rfl
  updated i queries h := by cases h
  source c h := absurd h List.not_mem_nil
  started i queries job _ h := by cases h

end ScheduleState

end AigisZero.Agent
