import AigisZero.Fleet.Service
import AigisZero.Library.Calls

/-!
# Heartbeats that overlap

A heartbeat is stamped when its call starts, and recorded in a transaction
of its own later on: a row of the history, and the status of its node over
whatever was there. The history is ordered by the stamps and the status by
the transactions. This file says when the two come to the same, whatever
calls overlap.
-/

namespace AigisZero.Fleet

/-- Where a call of `HealthTracker::record_heartbeat` stands. -/
inductive HeartbeatPc where
  | stamped
  | returned (result : Except Status Unit)

/-- A call, with the time it has stamped its heartbeat with. -/
structure HeartbeatCall where
  hb : AgentHeartbeat
  recorded_at : ℕ
  pc : HeartbeatPc

/-- What a call was made with. -/
def HeartbeatCall.input (c : HeartbeatCall) : AgentHeartbeat × ℕ := (c.hb, c.recorded_at)

/-- What is committed, and the calls. -/
structure Tracking where
  tables : Tables
  calls : List HeartbeatCall

/-- What can happen. -/
inductive TrackingAction where
  /-- A call starts, and takes its time stamp. -/
  | stamp (hb : AgentHeartbeat) (now : ℕ)
  /-- The transaction of a call. It holds the row of the node from its
  update to its commit, so those of one node come one after another. -/
  | execute (call : ℕ) (health_id : Uuid) (faults : Faults)
  | upsert_node (record : NodeRecord) (draw : EnrollmentDraw) (faults : Faults)
  | update_operator_status (target_id : Uuid) (new_status : String) (now : ℕ) (faults : Faults)

namespace Tracking

variable (text : UuidText)

/-- No node, and no call. -/
def init : Tracking := ⟨Tables.empty, []⟩

/-- The transaction of a call that has its stamp. -/
def execute (s : Tracking) (i : ℕ) (health_id : Uuid) (faults : Faults) : Option Tracking :=
  match s.calls[i]? with
  | some ⟨hb, recorded_at, .stamped⟩ =>
    let (result, tables) := record_heartbeat text hb health_id recorded_at faults s.tables
    some ⟨tables, s.calls.set i ⟨hb, recorded_at, .returned result⟩⟩
  | _ => none

/-- **Health tracking as a machine**, with the other writers of the
registry. -/
def machine : Machine Tracking TrackingAction where
  step s
    | .stamp hb now => some { s with calls := s.calls ++ [⟨hb, now, .stamped⟩] }
    | .execute i health_id faults => s.execute text i health_id faults
    | .upsert_node record draw faults =>
      some { s with tables := (Fleet.upsert_node text record draw faults s.tables).2 }
    | .update_operator_status target_id new_status now faults =>
      some { s with
        tables := (Fleet.update_operator_status text target_id new_status now faults s.tables).2 }

/-- **The status of a node is that of its latest heartbeat.** -/
def Current (t : Tables) (node_id : Uuid) : Prop :=
  ∀ row ∈ healthHistory t node_id,
    (∀ row' ∈ healthHistory t node_id, row'.recorded_at ≤ row.recorded_at) →
      agentStatus t node_id = some row.agent_status

/-- The heartbeat an action stamps. -/
def stamps : TrackingAction → List (AgentHeartbeat × ℕ)
  | .stamp hb now => [(hb, now)]
  | _ => []

/-- The status and the stamp that the transaction of an action is to record
of a node, where these heartbeats have been stamped. -/
def records (node_id : Uuid) (stamped : List (AgentHeartbeat × ℕ)) :
    TrackingAction → List (String × ℕ)
  | .execute i _ _ =>
    match stamped[i]? with
    | some (hb, now) =>
      if text.parse hb.node_id = .ok node_id then [(sanitizeStatus hb.status, now)] else []
    | none => []
  | _ => []

/-- The heartbeats of a node, in the order of their transactions. -/
def heartbeats (node_id : Uuid) :
    List (AgentHeartbeat × ℕ) → List TrackingAction → List (String × ℕ)
  | _, [] => []
  | stamped, a :: l =>
    records text node_id stamped a ++ heartbeats node_id (stamped ++ stamps a) l

/-! ## What a step records -/

variable {text} {s s' u : Tracking} {a : TrackingAction} {l : List TrackingAction}
  {node_id : Uuid} {t t' : Tables}

/-- The history of a node: what each heartbeat said, and when it was
stamped. -/
def readings (t : Tables) (node_id : Uuid) : List (String × ℕ) :=
  (healthHistory t node_id).map fun row => (row.agent_status, row.recorded_at)

/-- A call whose transaction was not committed. -/
def Failed (s : Tracking) : Prop := ∃ c ∈ s.calls, ∃ e, c.pc = .returned (.error e)

/-- **The status of a node is that of the row written last.** -/
def Copied (t : Tables) : Prop :=
  ∀ (node_id : Uuid), ∀ row ∈ (healthHistory t node_id).getLast?,
    agentStatus t node_id = some row.agent_status

/-! ### The tables -/

theorem readings_congr (hhealth : t'.node_health = t.node_health) :
    readings t' node_id = readings t node_id := by
  rw [readings, healthHistory, hhealth, readings, healthHistory]

/-- Where no history and no status changes, the statuses are those written
last as before. -/
theorem Copied.congr (h : Copied t) (hhealth : t'.node_health = t.node_health)
    (hstatus : ∀ node_id ∈ t.nodes.map (·.node_id),
      agentStatus t' node_id = agentStatus t node_id) : Copied t' := by
  intro node_id row hrow
  have hhistory : healthHistory t' node_id = healthHistory t node_id := by
    rw [healthHistory, hhealth, healthHistory]
  rw [hhistory] at hrow
  -- a node with a history is there
  obtain ⟨hmem, hof⟩ := List.mem_filter.1 (List.mem_of_mem_getLast? hrow)
  have hnode : node_id ∈ t.nodes.map (·.node_id) :=
    of_decide_eq_true hof ▸ t.health_references row hmem
  rw [hstatus node_id hnode]
  exact h node_id row hrow

theorem copied_empty : Copied Tables.empty := by
  intro node_id row hrow
  cases hrow

theorem Copied.upsert_node (h : Copied t) {record : NodeRecord} {draw : EnrollmentDraw}
    {faults : Faults} : Copied (Fleet.upsert_node text record draw faults t).2 :=
  h.congr (upsert_node_health text record draw faults t)
    fun _ hnode => agentStatus_upsert_node text record draw faults hnode

/-- An operator changes no history, and no status but his own. -/
theorem update_operator_status_health (text : UuidText) (target_id : Uuid) (new_status : String)
    (now : ℕ) (faults : Faults) (t : Tables) :
    (Fleet.update_operator_status text target_id new_status now faults t).2.node_health =
        t.node_health ∧
      ∀ node_id, agentStatus (Fleet.update_operator_status text target_id new_status now faults
        t).2 node_id = agentStatus t node_id := by
  rcases update_operator_status_cases text target_id new_status now faults t with
    ⟨e, h⟩ | ⟨response, t', h, -, hnodes, -, hhealth⟩
  · rw [h]
    exact ⟨rfl, fun _ => rfl⟩
  · rw [h]
    refine ⟨hhealth, fun node_id => ?_⟩
    rw [agentStatus, agentStatus, findNode_updated hnodes fun _ => rfl, Option.map_map]
    congr 1
    funext row
    by_cases hrow : row.node_id = target_id <;> simp [hrow, setOperatorStatus]

/-- **What the transaction of a heartbeat does to the history**: where it
is committed, one more row of its node. -/
theorem readings_record_heartbeat {hb : AgentHeartbeat} {health_id : Uuid} {now : ℕ}
    {faults : Faults} (hok : (record_heartbeat text hb health_id now faults t).1 = .ok ()) :
    readings (record_heartbeat text hb health_id now faults t).2 node_id =
      readings t node_id ++
        if text.parse hb.node_id = .ok node_id then [(sanitizeStatus hb.status, now)] else [] := by
  rcases record_heartbeat_cases text hb health_id now faults t with
    ⟨e, h⟩ | ⟨target, t', hparse, h, -, -, -, hhealth⟩
  · rw [h] at hok
    cases hok
  · rw [h, readings, healthHistory_append hhealth, List.map_append, hparse, readings]
    simp only [Except.ok.injEq, NewNodeHealthEntity]
    by_cases htarget : target = node_id <;> simp [htarget]

/-- **And to the status**: it is what the row says. -/
theorem Copied.record_heartbeat (hcopied : Copied t) {hb : AgentHeartbeat} {health_id : Uuid}
    {now : ℕ} {faults : Faults} :
    Copied (Fleet.record_heartbeat text hb health_id now faults t).2 := by
  rcases record_heartbeat_cases text hb health_id now faults t with
    ⟨e, h⟩ | ⟨target, t', -, h, hnode, hnodes, -, hhealth⟩
  · rw [h]
    exact hcopied
  · rw [h]
    intro node_id row hrow
    rw [healthHistory_append hhealth] at hrow
    rw [agentStatus_updated hnodes]
    by_cases htarget : node_id = target
    · subst htarget
      rw [NewNodeHealthEntity, if_pos rfl, List.getLast?_concat] at hrow
      obtain ⟨found, hfound⟩ : ∃ found, t.findNode node_id = some found := by
        refine Option.isSome_iff_exists.1 (List.find?_isSome.2 ?_)
        obtain ⟨found, hmem, hid⟩ := List.mem_map.1 hnode
        exact ⟨found, hmem, by simpa using hid⟩
      rw [agentStatus, hfound, ← Option.some.inj hrow]
      simp
    · rw [NewNodeHealthEntity, if_neg (Ne.symm htarget), List.append_nil] at hrow
      rw [hcopied node_id row hrow]
      simp [htarget]

/-! ### The machine -/

/-- **What the transaction of a call is**: that of a call which has its
stamp, and it returns with the answer. -/
theorem execute_eq_some {i : ℕ} {health_id : Uuid} {faults : Faults} :
    s.execute text i health_id faults = some s' ↔ ∃ hb now,
      s.calls[i]? = some ⟨hb, now, .stamped⟩ ∧
        s' = ⟨(record_heartbeat text hb health_id now faults s.tables).2,
          s.calls.set i ⟨hb, now,
            .returned (record_heartbeat text hb health_id now faults s.tables).1⟩⟩ := by
  unfold execute
  constructor
  · intro h
    split at h
    · next hb now hcall => exact ⟨hb, now, hcall, (Option.some.inj h).symm⟩
    · cases h
  · rintro ⟨hb, now, hcall, rfl⟩
    rw [hcall]

/-- A step changes nothing of what the calls were made with. -/
theorem map_input_step (ht : (machine text).step s a = some s') :
    s'.calls.map HeartbeatCall.input = s.calls.map HeartbeatCall.input ++ stamps a := by
  cases a with
  | stamp hb now =>
    obtain rfl := Option.some.inj ht
    exact List.map_append
  | execute i health_id faults =>
    obtain ⟨hb, now, hcall, rfl⟩ := execute_eq_some.1 ht
    have hset : (s.calls.set i ⟨hb, now,
        .returned (record_heartbeat text hb health_id now faults s.tables).1⟩).map
          HeartbeatCall.input = s.calls.map HeartbeatCall.input := Calls.map_set hcall rfl
    exact hset.trans (List.append_nil _).symm
  | upsert_node record draw faults =>
    obtain rfl := Option.some.inj ht
    exact (List.append_nil _).symm
  | update_operator_status target_id new_status now faults =>
    obtain rfl := Option.some.inj ht
    exact (List.append_nil _).symm

/-- A call that has failed stays so. -/
theorem failed_step (h : Failed s) (ht : (machine text).step s a = some s') : Failed s' := by
  obtain ⟨c, hc, e, hpc⟩ := h
  cases a with
  | stamp hb now =>
    obtain rfl := Option.some.inj ht
    exact ⟨c, List.mem_append_left _ hc, e, hpc⟩
  | execute i health_id faults =>
    obtain ⟨hb, now, hcall, rfl⟩ := execute_eq_some.1 ht
    -- the call that has failed is not the one whose transaction comes
    obtain ⟨j, hj⟩ := List.getElem?_of_mem hc
    have hne : i ≠ j := by
      rintro rfl
      rw [hcall] at hj
      cases hj
      cases hpc
    exact ⟨c, List.mem_of_getElem? (i := j) (by rw [List.getElem?_set_ne hne, hj]), e, hpc⟩
  | upsert_node record draw faults =>
    obtain rfl := Option.some.inj ht
    exact ⟨c, hc, e, hpc⟩
  | update_operator_status target_id new_status now faults =>
    obtain rfl := Option.some.inj ht
    exact ⟨c, hc, e, hpc⟩

/-- **A step adds to the history what its transaction records**, unless it
fails. -/
theorem readings_step (ht : (machine text).step s a = some s') (hok : ¬Failed s') :
    readings s'.tables node_id =
      readings s.tables node_id ++
        records text node_id (s.calls.map HeartbeatCall.input) a := by
  cases a with
  | stamp hb now =>
    obtain rfl := Option.some.inj ht
    exact (List.append_nil _).symm
  | execute i health_id faults =>
    obtain ⟨hb, now, hcall, rfl⟩ := execute_eq_some.1 ht
    have hinput : (s.calls.map HeartbeatCall.input)[i]? = some (hb, now) := by
      rw [List.getElem?_map, hcall]
      rfl
    rw [records, hinput]
    obtain ⟨hi, -⟩ := List.getElem?_eq_some_iff.1 hcall
    refine readings_record_heartbeat ?_
    cases hresult : (record_heartbeat text hb health_id now faults s.tables).1 with
    | ok => rfl
    | error e =>
      refine absurd ⟨_, List.mem_set hi _, e, ?_⟩ hok
      rw [hresult]
  | upsert_node record draw faults =>
    obtain rfl := Option.some.inj ht
    exact (readings_congr (upsert_node_health text record draw faults s.tables)).trans
      (List.append_nil _).symm
  | update_operator_status target_id new_status now faults =>
    obtain rfl := Option.some.inj ht
    exact (readings_congr (update_operator_status_health text target_id new_status now faults
      s.tables).1).trans (List.append_nil _).symm

/-- **Every step copies**: the status of a node is that of the row written
last. -/
theorem copied_step (h : Copied s.tables) (ht : (machine text).step s a = some s') :
    Copied s'.tables := by
  cases a with
  | stamp hb now =>
    obtain rfl := Option.some.inj ht
    exact h
  | execute i health_id faults =>
    obtain ⟨hb, now, hcall, rfl⟩ := execute_eq_some.1 ht
    exact h.record_heartbeat
  | upsert_node record draw faults =>
    obtain rfl := Option.some.inj ht
    exact h.upsert_node
  | update_operator_status target_id new_status now faults =>
    obtain rfl := Option.some.inj ht
    obtain ⟨hhealth, hstatus⟩ :=
      update_operator_status_health text target_id new_status now faults s.tables
    exact h.congr hhealth fun node_id _ => hstatus node_id

/-! ## What a run records -/

/-- **The history of a node is its heartbeats**, in the order of their
transactions. -/
theorem readings_run (hrun : (machine text).run s l = some u) (hok : ¬Failed u) :
    readings u.tables node_id =
      readings s.tables node_id ++
        heartbeats text node_id (s.calls.map HeartbeatCall.input) l := by
  induction l generalizing s with
  | nil =>
    obtain rfl := Option.some.inj hrun
    exact (List.append_nil _).symm
  | cons a l ih =>
    obtain ⟨s', ht, hrun⟩ := Machine.run_cons_eq_some.1 hrun
    have hok' : ¬Failed s' := fun h =>
      hok (Machine.run_preserves (fun _ _ _ h ht => failed_step h ht) hrun h)
    rw [ih hrun, readings_step ht hok', map_input_step ht, List.append_assoc, heartbeats]

/-- **Where the status is that of the row written last**, it is that of the
latest heartbeat exactly when the last is as good as the latest. -/
theorem current_iff (hcopied : Copied t) :
    Current t node_id ↔ Calls.LastIsLatest (readings t node_id) := by
  have hlast : (readings t node_id).getLast? =
      (healthHistory t node_id).getLast?.map fun row => (row.agent_status, row.recorded_at) :=
    List.getLast?_map
  rw [Calls.LastIsLatest, hlast, Current]
  cases hrow : (healthHistory t node_id).getLast? with
  | none => simp [readings, List.getLast?_eq_none_iff.1 hrow]
  | some last =>
    simp only [hcopied node_id last hrow, readings, List.forall_mem_map, Option.map_some,
      Option.mem_def, Option.some.injEq, forall_eq', eq_comm (a := last.agent_status)]

theorem copied_run (hrun : (machine text).run init l = some u) : Copied u.tables :=
  Machine.run_preserves (I := fun s => Copied s.tables) (fun _ _ _ h ht => copied_step h ht) hrun
    copied_empty

theorem readings_of_done (hrun : (machine text).run init l = some u)
    (hdone : ∀ c ∈ u.calls, c.pc = .returned (.ok ())) :
    readings u.tables node_id = heartbeats text node_id [] l := by
  refine readings_run hrun ?_
  rintro ⟨c, hc, e, hpc⟩
  rw [hdone c hc] at hpc
  cases hpc

/-- **Where all heartbeats are recorded, the status of a node is that of its
latest heartbeat exactly when the one whose transaction comes last says the
same as the one with the greatest stamp.** -/
theorem current_iff_lastIsLatest (node_id : Uuid) (l : List TrackingAction) (u : Tracking)
    (hrun : (machine text).run init l = some u)
    (hdone : ∀ c ∈ u.calls, c.pc = .returned (.ok ())) :
    Current u.tables node_id ↔ Calls.LastIsLatest (heartbeats text node_id [] l) := by
  rw [current_iff (copied_run hrun), readings_of_done hrun hdone]

/-- So it is where the transactions come in the order of the stamps. -/
theorem current_of_sorted (hrun : (machine text).run init l = some u)
    (hdone : ∀ c ∈ u.calls, c.pc = .returned (.ok ()))
    (hsorted : (heartbeats text node_id [] l).Pairwise fun h h' => h.2 < h'.2) :
    Current u.tables node_id := by
  rw [current_iff (copied_run hrun), readings_of_done hrun hdone]
  exact Calls.lastIsLatest_of_sorted hsorted

/-! ## Two heartbeats that overlap -/

/-- A node is enrolled, and two of its heartbeats are stamped: first it is
degraded, then healthy again. -/
def twoHeartbeats (last : List TrackingAction) : List TrackingAction :=
  .upsert_node ⟨"a", "linux", "1", "m1"⟩ ⟨⟨1⟩, ⟨11⟩, 0⟩ (fun _ => none) ::
    .stamp ⟨UuidText.standard.print ⟨1⟩, "degraded", 0⟩ 10 ::
    .stamp ⟨UuidText.standard.print ⟨1⟩, "healthy", 0⟩ 20 :: last

/-- The transaction of a call, where nothing fails. -/
def executeOf (i : ℕ) : TrackingAction := .execute i ⟨21 + i⟩ fun _ => none

/-- **The status stays degraded**: the transaction of the later heartbeat
comes first. -/
theorem not_current_crossed : ∃ u,
    (machine .standard).run init (twoHeartbeats [executeOf 1, executeOf 0]) = some u ∧
      (∀ c ∈ u.calls, c.pc = .returned (.ok ())) ∧ (u.calls.map (·.recorded_at)).Nodup ∧
      ¬Current u.tables ⟨1⟩ := by
  have hrun : ((machine .standard).run init (twoHeartbeats [executeOf 1, executeOf 0])).map
      (fun u => (u.calls.map (·.pc), u.calls.map (·.recorded_at), readings u.tables ⟨1⟩)) =
      some ([.returned (.ok ()), .returned (.ok ())], [10, 20],
        [("healthy", 20), ("degraded", 10)]) := rfl
  obtain ⟨u, hu, hfields⟩ := Option.map_eq_some_iff.1 hrun
  simp only [Prod.mk.injEq] at hfields
  obtain ⟨hpcs, hstamps, hreadings⟩ := hfields
  refine ⟨u, hu, fun c hc => ?_, hstamps ▸ by decide, fun hcurrent => ?_⟩
  · have hpc : c.pc ∈ u.calls.map (·.pc) := List.mem_map_of_mem hc
    rw [hpcs] at hpc
    simpa using hpc
  · have hlatest := (current_iff (copied_run hu)).1 hcurrent
    rw [hreadings] at hlatest
    exact absurd hlatest (by decide)

/-- Transactions in the order of the stamps keep the status current. -/
theorem current_inOrder : ∃ u,
    (machine .standard).run init (twoHeartbeats [executeOf 0, executeOf 1]) = some u ∧
      Current u.tables ⟨1⟩ := by
  have hrun : ((machine .standard).run init (twoHeartbeats [executeOf 0, executeOf 1])).map
      (fun u => u.calls.map (·.pc)) = some [.returned (.ok ()), .returned (.ok ())] := rfl
  obtain ⟨u, hu, hpcs⟩ := Option.map_eq_some_iff.1 hrun
  refine ⟨u, hu, (current_iff_lastIsLatest ⟨1⟩ _ u hu fun c hc => ?_).2 (by decide)⟩
  have hpc : c.pc ∈ u.calls.map (·.pc) := List.mem_map_of_mem hc
  rw [hpcs] at hpc
  simpa using hpc

end Tracking

end AigisZero.Fleet
