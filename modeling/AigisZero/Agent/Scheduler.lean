import AigisZero.Agent.Types
import AigisZero.Library.ChangeFeed

/-!
# The query scheduler

Each scheduled query has a task of its own, which runs the query at every
tick and sends what it finds to the result channel: all rows of a snapshot
query, and of a differential query all rows once and then what changed.
A consumer that replays the results holds the rows of the last response.
-/

namespace AigisZero.Agent

/-! ## The difference of two responses -/

/-- The order in which the hash maps and sets of one tick are visited. It
is the environment's choice: each visit meets every entry once. -/
structure Visits where
  /-- The columns of the `i`-th row passed on. -/
  columns : ℕ → OsqueryRow → List ColumnEntry
  /-- The elements of a set of rows. -/
  rows : Finset OsqueryRow → List OsqueryRow
  columns_perm : ∀ i row,
    (((columns i row).map fun c => (⟨c.name, c.value⟩ : Sigma fun _ : String => String)) :
      Multiset (Sigma fun _ : String => String)) = row.entries
  rows_perm : ∀ s, (rows s : Multiset OsqueryRow) = s.val

/-- `diff::compute_diff`: the rows that came and the rows that went. -/
def compute_diff (visits : Visits) (previous_rows current_rows : List OsqueryRow) :
    List OsqueryRow × List OsqueryRow :=
  let prev_set := previous_rows.toFinset
  let curr_set := current_rows.toFinset
  (visits.rows (curr_set \ prev_set), visits.rows (prev_set \ curr_set))

/-- `QueryScheduler::build_result`. -/
def build_result (visits : Visits) (now : Int64) (query_name agent_uuid : String)
    (rows : List OsqueryRow) (action : ResultAction) : OsqueryResult where
  query_name := query_name
  agent_uuid := agent_uuid
  timestamp_ns := now
  rows := rows.mapIdx fun i row => ⟨visits.columns i row⟩
  action := action

/-! ## The task of a query -/

/-- What a tick meets: the outcome of the query, the clock, whether the
channel takes the first and the second result, and the orders of the
visits. -/
structure Tick where
  /-- The response, none on a transport error. -/
  response : Option QueryResponse
  now : Int64
  sends : Bool × Bool
  visits : Visits

/-- The state of a task, with the results the channel took. -/
structure TaskState where
  previous_rows : List OsqueryRow
  first_run : Bool
  stopped : Bool
  emitted : List OsqueryResult

/-- A task that has just connected. -/
def TaskState.init : TaskState := ⟨[], true, false, []⟩

/-- Send a result: the channel takes it, or the task stops. -/
def TaskState.send (s : TaskState) (taken : Bool) (result : OsqueryResult) : TaskState :=
  if taken then { s with emitted := s.emitted ++ [result] } else { s with stopped := true }

/-- Go on with the task, unless it stopped. -/
def TaskState.andThen (s : TaskState) (next : TaskState → TaskState) : TaskState :=
  if s.stopped then s else next s

/-- Send the rows under an action, where there are any. -/
def TaskState.sendRows (s : TaskState) (taken : Bool) (result : OsqueryResult)
    (rows : List OsqueryRow) : TaskState :=
  if rows.isEmpty then s else s.send taken result

/-- One turn of the loop of `QueryScheduler::run`. -/
def TaskState.tick (query : ScheduledQuery) (agent_uuid : String) (s : TaskState) (t : Tick) :
    TaskState :=
  if s.stopped then s else
  match t.response with
  | none => s
  | some response =>
    -- a failed query and an error of osquery are both passed over: the task keeps its rows
    if response.status.code ≠ 0 then s else
    let current_rows := response.rows
    let build := build_result t.visits t.now query.name agent_uuid
    if query.snapshot then
      s.send t.sends.1 (build current_rows .Snapshot)
    else
      let s' :=
        -- the first success is told whole, as the baseline of the differences
        if s.first_run then
          (s.send t.sends.1 (build current_rows .Snapshot)).andThen
            fun s => { s with first_run := false }
        else
          let (added, removed) := compute_diff t.visits s.previous_rows current_rows
          (s.sendRows t.sends.1 (build added .Added) added).andThen
            fun s => s.sendRows t.sends.2 (build removed .Removed) removed
      s'.andThen fun s => { s with previous_rows := current_rows }

/-- The task after a sequence of ticks. -/
def runTask (query : ScheduledQuery) (agent_uuid : String) (ticks : List Tick) : TaskState :=
  ticks.foldl (TaskState.tick query agent_uuid) TaskState.init

/-! ## The consumer -/

/-- A row rebuilt from its columns. -/
def OsqueryResultRow.rebuild (row : OsqueryResultRow) : OsqueryRow :=
  (row.columns.map fun c => ⟨c.name, c.value⟩).toFinmap

/-- The change a result tells. -/
def OsqueryResult.change (result : OsqueryResult) : Change OsqueryRow :=
  let rows := result.rows.map OsqueryResultRow.rebuild
  match result.action with
  | .Snapshot => .replace rows
  | .Added => .add rows
  | .Removed => .remove rows

/-- What a consumer that replays the results holds. -/
def TaskState.held (s : TaskState) : Finset OsqueryRow :=
  Change.replay ∅ (s.emitted.map OsqueryResult.change)

/-- The rows of the response, where the tick succeeded. -/
def Tick.success (t : Tick) : Option (List OsqueryRow) :=
  t.response.bind fun response => if response.status.code = 0 then some response.rows else none

/-- The rows of the latest successful response. -/
def latestRows (ticks : List Tick) : Finset OsqueryRow :=
  ((ticks.filterMap Tick.success).getLast?).elim ∅ List.toFinset

/-- The channel takes what the tick sends. -/
def Tick.Open (t : Tick) : Prop := t.sends = (true, true)

variable {query : ScheduledQuery} {agent_uuid : String} {visits : Visits} {s : TaskState} {t : Tick}
  {rows : List OsqueryRow} {now : Int64} {name : String} {ticks : List Tick}

/-- **A row survives its encoding**, whatever the order of its columns. -/
theorem rebuild_columns (visits : Visits) (i : ℕ) (row : OsqueryRow) :
    OsqueryResultRow.rebuild ⟨visits.columns i row⟩ = row := by
  have hperm := visits.columns_perm i row
  refine Finmap.ext_lookup fun x => ?_
  rw [OsqueryResultRow.rebuild, Finmap.dlookup_list_toFinmap]
  ext v
  rw [← Option.mem_def, ← Option.mem_def, Finmap.mem_lookup_iff, ← hperm, Multiset.mem_coe]
  -- the list visits the entries of the row, so no name comes twice
  refine List.mem_dlookup_iff ?_
  have hkeys := row.nodupKeys
  rwa [← hperm] at hkeys

/-- The rows of a built result are the rows it was built from. -/
theorem map_rebuild_build_result {action : ResultAction} :
    (build_result visits now name agent_uuid rows action).rows.map OsqueryResultRow.rebuild =
      rows := by
  refine List.ext_getElem (by simp [build_result]) fun i h h' => ?_
  simp [build_result, rebuild_columns]

theorem change_build_result_snapshot :
    (build_result visits now name agent_uuid rows .Snapshot).change = .replace rows :=
  congrArg Change.replace map_rebuild_build_result

theorem change_build_result_added :
    (build_result visits now name agent_uuid rows .Added).change = .add rows :=
  congrArg Change.add map_rebuild_build_result

theorem change_build_result_removed :
    (build_result visits now name agent_uuid rows .Removed).change = .remove rows :=
  congrArg Change.remove map_rebuild_build_result

theorem toFinset_rows (visits : Visits) (s : Finset OsqueryRow) : (visits.rows s).toFinset = s := by
  rw [← List.toFinset_coe, visits.rows_perm]
  exact Finset.val_toFinset s

theorem nodup_rows (visits : Visits) (s : Finset OsqueryRow) : (visits.rows s).Nodup := by
  rw [← Multiset.coe_nodup, visits.rows_perm]
  exact s.nodup

/-! ## The replay -/

/-- **The coupling** of a task and the latest rows: the consumer holds
them, and so does the task once it has told them all. -/
structure Tracks (query : ScheduledQuery) (s : TaskState) (latest : Finset OsqueryRow) : Prop where
  running : s.stopped = false
  held : s.held = latest
  sound : Change.SoundFrom ∅ (s.emitted.map OsqueryResult.change)
  previous : query.snapshot = false → s.first_run = false → s.previous_rows.toFinset = latest

/-- A tick that fails leaves the task as it was. -/
theorem tick_of_failed (h : t.success = none) : s.tick query agent_uuid t = s := by
  unfold TaskState.tick
  split
  · rfl
  · cases hresp : t.response with
    | none => rfl
    | some response =>
      have hcode : response.status.code ≠ 0 := by
        intro hcode
        simp [Tick.success, hresp, hcode] at h
      simp [hcode]

/-- The rows of a tick that succeeds come from a response without error. -/
theorem success_eq_some (h : t.success = some rows) :
    ∃ response, t.response = some response ∧ response.status.code = 0 ∧ response.rows = rows := by
  obtain ⟨response, hresp, hif⟩ := Option.bind_eq_some_iff.1 h
  obtain ⟨hcode, hrows⟩ := Option.ite_none_right_eq_some.1 hif
  exact ⟨response, hresp, hcode, Option.some.inj hrows⟩

section Success

variable (hrunning : s.stopped = false) (hopen : t.Open) (hsuccess : t.success = some rows)
include hrunning hopen hsuccess

/-- A snapshot query sends all rows. -/
theorem tick_snapshot (hsnap : query.snapshot = true) : s.tick query agent_uuid t =
    { s with emitted := s.emitted ++
        [build_result t.visits t.now query.name agent_uuid rows .Snapshot] } := by
  obtain ⟨response, hresp, hcode, rfl⟩ := success_eq_some hsuccess
  rw [Tick.Open] at hopen
  simp [TaskState.tick, TaskState.send, hrunning, hresp, hcode, hsnap, hopen]

/-- A differential query sends all rows first. -/
theorem tick_first (hdiff : query.snapshot = false) (hfirst : s.first_run = true) :
    s.tick query agent_uuid t = ⟨rows, false, false, s.emitted ++
      [build_result t.visits t.now query.name agent_uuid rows .Snapshot]⟩ := by
  obtain ⟨response, hresp, hcode, rfl⟩ := success_eq_some hsuccess
  rw [Tick.Open] at hopen
  simp [TaskState.tick, TaskState.send, TaskState.andThen, hrunning, hresp, hcode, hdiff, hfirst,
    hopen]

/-- After that it sends the difference to the rows it has. -/
theorem tick_difference (hdiff : query.snapshot = false) (hlater : s.first_run = false) :
    ∃ sent, s.tick query agent_uuid t = ⟨rows, false, false, s.emitted ++ sent⟩ ∧
      sent.map OsqueryResult.change =
        Change.difference (compute_diff t.visits s.previous_rows rows).1
          (compute_diff t.visits s.previous_rows rows).2 := by
  obtain ⟨response, hresp, hcode, rfl⟩ := success_eq_some hsuccess
  rw [Tick.Open] at hopen
  generalize hadded : (compute_diff t.visits s.previous_rows response.rows).1 = added
  generalize hremoved : (compute_diff t.visits s.previous_rows response.rows).2 = removed
  -- half of the difference is not sent where it is empty
  refine ⟨(if added.isEmpty then [] else
      [build_result t.visits t.now query.name agent_uuid added .Added]) ++
    if removed.isEmpty then [] else
      [build_result t.visits t.now query.name agent_uuid removed .Removed], ?_, ?_⟩
  · by_cases ha : added.isEmpty <;> by_cases hr : removed.isEmpty <;>
      simp [TaskState.tick, TaskState.sendRows, TaskState.send, TaskState.andThen, hrunning, hresp,
        hcode, hdiff, hlater, hopen, hadded, hremoved, ha, hr]
  · by_cases ha : added.isEmpty <;> by_cases hr : removed.isEmpty <;>
      simp [Change.difference, ha, hr, change_build_result_added, change_build_result_removed]

end Success

/-- The results of a tick, told after what was told. -/
theorem Tracks.told {latest latest' : Finset OsqueryRow} {s' : TaskState}
    (feed : List (Change OsqueryRow)) (htracks : Tracks query s latest)
    (hrunning : s'.stopped = false)
    (hemitted : s'.emitted.map OsqueryResult.change = s.emitted.map OsqueryResult.change ++ feed)
    (hreplay : Change.replay latest feed = latest') (hsound : Change.SoundFrom latest feed)
    (hprevious : query.snapshot = false → s'.previous_rows.toFinset = latest') :
    Tracks query s' latest' where
  running := hrunning
  held := by
    rw [TaskState.held, hemitted, Change.replay_append]
    exact (congrArg (Change.replay · feed) htracks.held).trans hreplay
  sound := by
    rw [hemitted, Change.soundFrom_append]
    refine ⟨htracks.sound, ?_⟩
    have hheld := htracks.held
    rw [TaskState.held] at hheld
    rwa [hheld]
  previous := fun hdiff _ => hprevious hdiff

/-- **One tick keeps the coupling**, to the rows of its response where it
has one. -/
theorem Tracks.tick {latest : Finset OsqueryRow} (htracks : Tracks query s latest)
    (hopen : t.Open) :
    Tracks query (s.tick query agent_uuid t) (t.success.elim latest List.toFinset) := by
  cases hsuccess : t.success with
  | none =>
    rw [tick_of_failed hsuccess]
    exact htracks
  | some rows =>
    rw [Option.elim_some]
    have hrunning := htracks.running
    cases hsnap : query.snapshot with
    | true =>
      rw [tick_snapshot hrunning hopen hsuccess hsnap]
      refine htracks.told [.replace rows] hrunning ?_ rfl ⟨trivial, trivial⟩ ?_
      · rw [List.map_append, List.map_singleton, change_build_result_snapshot]
      · rw [hsnap]
        exact nofun
    | false =>
      cases hfirst : s.first_run with
      | true =>
        rw [tick_first hrunning hopen hsuccess hsnap hfirst]
        refine htracks.told [.replace rows] rfl ?_ rfl ⟨trivial, trivial⟩ fun _ => rfl
        rw [List.map_append, List.map_singleton, change_build_result_snapshot]
      | false =>
        obtain ⟨sent, htick, hsent⟩ := tick_difference hrunning hopen hsuccess hsnap hfirst
        rw [htick]
        -- the rows the task compares with are the ones the consumer holds
        have hprevious := htracks.previous hsnap hfirst
        have hadded := toFinset_rows t.visits (rows.toFinset \ s.previous_rows.toFinset)
        have hremoved := toFinset_rows t.visits (s.previous_rows.toFinset \ rows.toFinset)
        rw [hprevious] at hadded hremoved
        refine htracks.told _ rfl (List.map_append.trans (congrArg _ hsent)) ?_ ?_ fun _ => rfl
        · rw [compute_diff, hprevious]
          exact Change.replay_difference_eq hadded hremoved
        · rw [compute_diff, hprevious]
          exact Change.soundFrom_difference (nodup_rows ..) (nodup_rows ..) hadded hremoved

theorem latestRows_append :
    latestRows (ticks ++ [t]) = t.success.elim (latestRows ticks) List.toFinset := by
  cases h : t.success <;> simp [latestRows, List.filterMap_append, h]

theorem runTask_append :
    runTask query agent_uuid (ticks ++ [t]) =
      (runTask query agent_uuid ticks).tick query agent_uuid t :=
  List.foldl_concat ..

/-- Every sequence of ticks keeps the coupling, while the channel is
open. -/
theorem tracks_runTask (hopen : ∀ t ∈ ticks, t.Open) :
    Tracks query (runTask query agent_uuid ticks) (latestRows ticks) := by
  -- on the last tick: what the task knows is what all the earlier ones told
  induction ticks using List.reverseRecOn with
  | nil => exact ⟨rfl, rfl, trivial, fun _ h => Bool.noConfusion h⟩
  | append_singleton ticks t ih =>
    rw [runTask_append, latestRows_append]
    exact (ih fun t' ht' => hopen t' (List.mem_append_left _ ht')).tick
      (hopen t (List.mem_append_right _ (List.mem_singleton_self t)))

/-- What the results of a query tell a consumer, over every sequence of
ticks during which the channel is open. -/
structure Reconstructs (query : ScheduledQuery) (agent_uuid : String) : Prop where
  /-- After a tick that succeeded the consumer holds exactly the distinct
  rows of its response, whatever failed before. -/
  after_success : ∀ (ticks : List Tick) (t : Tick) (rows : List OsqueryRow),
    (∀ t' ∈ ticks ++ [t], t'.Open) → t.success = some rows →
    (runTask query agent_uuid (ticks ++ [t])).held = rows.toFinset
  /-- At all times it holds the rows of the latest success. -/
  held : ∀ ticks : List Tick, (∀ t ∈ ticks, t.Open) →
    (runTask query agent_uuid ticks).held = latestRows ticks
  /-- A tick that fails sends nothing and leaves the task as it was. -/
  silent : ∀ (ticks : List Tick) (t : Tick), t.success = none →
    runTask query agent_uuid (ticks ++ [t]) = runTask query agent_uuid ticks
  /-- No row is added that is there, and none removed that is not. -/
  sound : ∀ ticks : List Tick, (∀ t ∈ ticks, t.Open) →
    Change.SoundFrom ∅ ((runTask query agent_uuid ticks).emitted.map OsqueryResult.change)

/-- **The results of a query reconstruct the rows of its responses.** -/
theorem runTask_reconstructs (query : ScheduledQuery) (agent_uuid : String) :
    Reconstructs query agent_uuid where
  after_success ticks t rows hopen hsuccess := by
    rw [(tracks_runTask hopen).held, latestRows_append, hsuccess]
    rfl
  held ticks hopen := (tracks_runTask hopen).held
  silent ticks t hfailed := by rw [runTask_append, tick_of_failed hfailed]
  sound ticks hopen := (tracks_runTask hopen).sound

/-- There is an order to visit in. -/
noncomputable instance : Inhabited Visits where
  default := {
    columns := fun _ row => row.entries.toList.map fun e => ⟨e.1, e.2⟩
    rows := Finset.toList
    columns_perm := fun _ row => by
      rw [List.map_map]
      exact (congrArg _ (List.map_id _)).trans row.entries.coe_toList
    rows_perm := fun s => s.val.coe_toList }

end AigisZero.Agent
