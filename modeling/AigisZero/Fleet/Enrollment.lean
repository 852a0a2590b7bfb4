import AigisZero.Fleet.Auth
import AigisZero.Library.Calls

/-!
# Enrollments that overlap

An enrollment is a transaction of three statements: look the machine up,
write its row, log the event. Each statement sees what is committed when it
starts, and what its own transaction has written; and it waits for a
transaction that has written the row, or the machine, it is about to write.
This file says when the enrollments of one machine all come to one node,
whatever their statements are interleaved with.
-/

namespace AigisZero.Fleet

/-- Where the transaction of a call stands. -/
inductive UpsertPc where
  | begun
  /-- The machine is looked up. -/
  | selected (existing : Option Uuid)
  /-- The row is written. -/
  | wrote (existing : Option Uuid)
  /-- The event is logged. -/
  | logged (existing : Option Uuid)
  /-- Committed, or rolled back with an error. -/
  | returned (stored : Except NodeEnrollmentError Uuid)

/-- The node a call has found, or come to. -/
def UpsertPc.found : UpsertPc → Option Uuid
  | .selected existing => existing
  | .wrote existing => existing
  | .logged existing => existing
  | .returned (.ok node_id) => some node_id
  | _ => none

/-- A call of `PgNodeStore::upsert_node`. -/
structure UpsertCall where
  record : NodeRecord
  draw : EnrollmentDraw
  pc : UpsertPc

/-- What a transaction that has written holds until it ends: the machine of
a new row, or a row there was. -/
inductive Lock where
  | machine (machine_id : String)
  | row (node_id : Uuid)
deriving DecidableEq

/-- What a call holds once it has written. -/
def UpsertCall.lock (c : UpsertCall) (existing : Option Uuid) : Lock :=
  match existing with
  | none => .machine c.record.machine_id
  | some node_id => .row node_id

/-- What a call holds. -/
def UpsertCall.holds (c : UpsertCall) : Option Lock :=
  match c.pc with
  | .wrote existing => some (c.lock existing)
  | .logged existing => some (c.lock existing)
  | _ => none

/-- The two writes of a call, on top of what is committed. -/
def UpsertCall.writes (c : UpsertCall) (existing : Option Uuid) (t : Tables) :
    Except String (Uuid × Tables) := do
  let (node_id, event_type, t) ← writeNode c.record c.draw existing t
  let t ← t.insertEvent (NewEnrollmentEventEntity c.record c.draw node_id event_type)
  return (node_id, t)

/-- What is committed, and the calls. -/
structure Enrolling where
  tables : Tables
  calls : List UpsertCall

namespace Enrolling

/-- The next statement of a call, or its commit: where the call stands
after it, and what is committed. -/
def statement (s : Enrolling) (c : UpsertCall) : Option (UpsertPc × Tables) :=
  match c.pc with
  | .begun => some (.selected (s.tables.nodeOfMachine c.record.machine_id), s.tables)
  | .selected existing =>
    -- another transaction holds what this one is about to write
    if s.calls.any fun c' => c'.holds = some (c.lock existing) then none
    else
      match writeNode c.record c.draw existing s.tables with
      | .ok _ => some (.wrote existing, s.tables)
      | .error e => some (.returned (.error (.store e)), s.tables)
  | .wrote existing =>
    match c.writes existing s.tables with
    | .ok _ => some (.logged existing, s.tables)
    | .error e => some (.returned (.error (.store e)), s.tables)
  | .logged existing =>
    match c.writes existing s.tables with
    | .ok (node_id, tables) => some (.returned (.ok node_id), tables)
    | .error e => some (.returned (.error (.store e)), s.tables)
  | .returned _ => none

/-- **Enrollments as a machine**: an action is the call whose next statement
is executed. -/
def machine : Machine Enrolling ℕ where
  step s i :=
    (s.calls[i]?).bind fun c =>
      (s.statement c).map fun r => ⟨r.2, s.calls.set i { c with pc := r.1 }⟩

/-- The calls are made. -/
def start (tables : Tables) (calls : List (NodeRecord × EnrollmentDraw)) : Enrolling :=
  ⟨tables, calls.map fun c => ⟨c.1, c.2, .begun⟩⟩

end Enrolling

/-- What a registration makes of the answer of the store. -/
def NodeEnroller.answer (text : UuidText) (jwt : Jwt) (now_secs : Except String ℕ)
    (stored : Except NodeEnrollmentError Uuid) : Except Status RegistrationResult :=
  match stored.map text.print with
  | .error _ => .error ⟨.internal, "enrollment failed"⟩
  | .ok node_id =>
    match sign_token jwt node_id now_secs with
    | .error _ => .error ⟨.internal, "token signing failed"⟩
    | .ok token => .ok ⟨node_id, token⟩

namespace Enrolling

variable (text : UuidText) (jwt : Jwt)

/-- **Enrollment is idempotent**: every call that has returned has
succeeded, whenever its token was signed, and all with one node. -/
def Idempotent (s : Enrolling) : Prop :=
  ∃ node_id, ∀ c ∈ s.calls, ∀ stored, c.pc = .returned stored → ∀ now,
    ∃ token, NodeEnroller.answer text jwt (.ok now) stored = .ok ⟨node_id, token⟩

/-- **A call that found no row inserts before another has committed one.** -/
def InsertsFirst (s : Enrolling) (i : ℕ) : Prop :=
  ∀ c, s.calls[i]? = some c → c.pc = .selected none →
    s.tables.nodeOfMachine c.record.machine_id = none

/-- **Identifiers that are drawn are new.** -/
structure Fresh (tables : Tables) (calls : List (NodeRecord × EnrollmentDraw)) : Prop where
  node_ids : (calls.map (·.2.node_id)).Nodup
  event_ids : (calls.map (·.2.event_id)).Nodup
  node_id : ∀ c ∈ calls, c.2.node_id ∉ tables.nodes.map (·.node_id)
  event_id : ∀ c ∈ calls, c.2.event_id ∉ tables.enrollment_events.map (·.event_id)

/-! ## The writes of a call -/

variable {text jwt} {s t : Enrolling} {i : ℕ} {c : UpsertCall} {tables : Tables}
  {machine_id : String}

theorem nodeOfMachine_eq_none :
    tables.nodeOfMachine machine_id = none ↔ machine_id ∉ tables.nodes.map (·.machine_id) := by
  simp only [Tables.nodeOfMachine, Option.map_eq_none_iff, List.find?_eq_none, decide_eq_true_eq,
    List.mem_map, not_exists, not_and]

/-- The event of a call can be logged. -/
theorem insertEvent_of_new {row : EnrollmentEventRow}
    (hevent : row.event_id ∉ tables.enrollment_events.map (·.event_id))
    (hnode : row.node_id ∈ tables.nodes.map (·.node_id)) :
    ∃ t, tables.insertEvent row = .ok t ∧ t.nodes = tables.nodes ∧
      t.enrollment_events = tables.enrollment_events ++ [row] := by
  unfold Tables.insertEvent
  rw [dif_pos hevent, dif_pos hnode]
  exact ⟨_, rfl, rfl, rfl⟩

/-- A machine there is no row of gets one. -/
theorem insertNode_of_new {row : NodeRow} (hid : row.node_id ∉ tables.nodes.map (·.node_id))
    (hmachine : tables.nodeOfMachine row.machine_id = none) :
    ∃ t, tables.insertNode row = .ok t ∧ t.nodes = tables.nodes ++ [row] ∧
      t.enrollment_events = tables.enrollment_events := by
  unfold Tables.insertNode
  rw [dif_pos ⟨hid, nodeOfMachine_eq_none.1 hmachine⟩]
  exact ⟨_, rfl, rfl, rfl⟩

/-- And a machine there is a row of does not. -/
theorem writeNode_eq_error {record : NodeRecord} {draw : EnrollmentDraw}
    (hmachine : tables.nodeOfMachine record.machine_id ≠ none) :
    ∃ e, writeNode record draw none tables = .error e := by
  have htaken : ¬((NewNodeEntity record draw).node_id ∉ tables.nodes.map (·.node_id) ∧
      (NewNodeEntity record draw).machine_id ∉ tables.nodes.map (·.machine_id)) :=
    fun h => hmachine (nodeOfMachine_eq_none.2 h.2)
  refine ⟨"duplicate key value violates unique constraint", ?_⟩
  simp only [writeNode, Tables.insertNode, dif_neg htaken]
  rfl

/-- **The writes of a call that found no row**, where there is none: the row
of a new node. -/
theorem writes_none (hid : c.draw.node_id ∉ tables.nodes.map (·.node_id))
    (hevent : c.draw.event_id ∉ tables.enrollment_events.map (·.event_id))
    (hmachine : tables.nodeOfMachine c.record.machine_id = none) :
    (∃ r, writeNode c.record c.draw none tables = .ok r) ∧
      ∃ t, c.writes none tables = .ok (c.draw.node_id, t) ∧
        t.nodes = tables.nodes ++ [NewNodeEntity c.record c.draw] ∧
        t.enrollment_events = tables.enrollment_events ++
          [NewEnrollmentEventEntity c.record c.draw c.draw.node_id "new_enrollment"] := by
  have hnew : ∃ t, tables.insertNode (NewNodeEntity c.record c.draw) = .ok t ∧ _ :=
    insertNode_of_new hid hmachine
  obtain ⟨t, hinsert, hnodes, hevents⟩ := hnew
  have hlogged : ∃ t', t.insertEvent (NewEnrollmentEventEntity c.record c.draw c.draw.node_id
      "new_enrollment") = .ok t' ∧ _ :=
    insertEvent_of_new (hevents ▸ hevent)
      (hnodes ▸ List.mem_map_of_mem (List.mem_append_right _ (List.mem_singleton_self _)))
  obtain ⟨t', hlog, hnodes', hevents'⟩ := hlogged
  have hwrite : writeNode c.record c.draw none tables =
      .ok (c.draw.node_id, "new_enrollment", t) := by
    simp only [writeNode, hinsert]
    rfl
  refine ⟨⟨_, hwrite⟩, t', ?_, hnodes'.trans hnodes, hevents'.trans (hevents ▸ rfl)⟩
  simp only [UpsertCall.writes, hwrite, hlog, bind, Except.bind, pure, Except.pure]

/-- **The writes of a call that found a row**: its versions. -/
theorem writes_some {node_id : Uuid} (hnode : node_id ∈ tables.nodes.map (·.node_id))
    (hevent : c.draw.event_id ∉ tables.enrollment_events.map (·.event_id)) :
    ∃ t, c.writes (some node_id) tables = .ok (node_id, t) ∧
      t.nodes = Tables.updated node_id (reEnroll c.record c.draw) tables.nodes ∧
      t.enrollment_events = tables.enrollment_events ++
        [NewEnrollmentEventEntity c.record c.draw node_id "re_enrollment"] := by
  have hkeys : ∀ row, (reEnroll c.record c.draw row).node_id = row.node_id ∧
      (reEnroll c.record c.draw row).machine_id = row.machine_id := fun _ => ⟨rfl, rfl⟩
  have hmem : node_id ∈ (tables.updateNode node_id (reEnroll c.record c.draw) hkeys).nodes.map
      (·.node_id) := by
    rw [show (tables.updateNode node_id (reEnroll c.record c.draw) hkeys).nodes.map (·.node_id) =
      tables.nodes.map (·.node_id) from Tables.map_updated (fun row => (hkeys row).1) _]
    exact hnode
  have hlogged : ∃ t, (tables.updateNode node_id (reEnroll c.record c.draw) hkeys).insertEvent
      (NewEnrollmentEventEntity c.record c.draw node_id "re_enrollment") = .ok t ∧ _ :=
    insertEvent_of_new hevent hmem
  obtain ⟨t, hlog, hnodes, hevents⟩ := hlogged
  refine ⟨t, ?_, hnodes, hevents⟩
  simp only [UpsertCall.writes, writeNode, hlog, bind, Except.bind, pure, Except.pure]

/-- A new row is the row of its machine. -/
theorem nodeOfMachine_append {row : NodeRow} {t : Tables} (hnodes : t.nodes = tables.nodes ++ [row])
    (hmachine : tables.nodeOfMachine row.machine_id = none) :
    t.nodeOfMachine row.machine_id = some row.node_id := by
  have hnone : tables.nodes.find? (·.machine_id = row.machine_id) = none :=
    Option.map_eq_none_iff.1 hmachine
  rw [Tables.nodeOfMachine, hnodes, List.find?_append, hnone]
  simp

/-- An update of other columns leaves the rows with their machines. -/
theorem nodeOfMachine_updated {node_id : Uuid} {set : NodeRow → NodeRow} {t : Tables}
    (hnodes : t.nodes = Tables.updated node_id set tables.nodes)
    (hset : ∀ row, (set row).node_id = row.node_id ∧ (set row).machine_id = row.machine_id) :
    t.nodeOfMachine machine_id = tables.nodeOfMachine machine_id := by
  have hsame : ∀ row : NodeRow, (if row.node_id = node_id then set row else row).machine_id =
      row.machine_id ∧ (if row.node_id = node_id then set row else row).node_id = row.node_id := by
    intro row
    split
    · exact ⟨(hset row).2, (hset row).1⟩
    · exact ⟨rfl, rfl⟩
  rw [Tables.nodeOfMachine, Tables.nodeOfMachine, hnodes, Tables.updated, List.find?_map,
    Option.map_map]
  congr 1
  · funext row
    exact (hsame row).2
  · congr 1
    funext row
    simp only [Function.comp_apply, (hsame row).1]

/-! ## A call by itself -/

/-- A call whose own statement comes next. -/
theorem step_alone {record : NodeRecord} {draw : EnrollmentDraw} {pc pc' : UpsertPc}
    {tables tables' : Tables}
    (h : statement ⟨tables, [⟨record, draw, pc⟩]⟩ ⟨record, draw, pc⟩ = some (pc', tables')) :
    machine.step ⟨tables, [⟨record, draw, pc⟩]⟩ 0 = some ⟨tables', [⟨record, draw, pc'⟩]⟩ :=
  Option.bind_eq_some_iff.2 ⟨_, rfl, Option.map_eq_some_iff.2 ⟨_, h, rfl⟩⟩

/-- **A call by itself does what `upsert_node` does.** -/
theorem exists_run_alone (text : UuidText) (record : NodeRecord) (draw : EnrollmentDraw)
    (tables : Tables) : ∃ l stored t,
      machine.run (start tables [(record, draw)]) l = some ⟨t, [⟨record, draw, .returned stored⟩]⟩ ∧
      upsert_node text record draw (fun _ => none) tables = (stored.map text.print, t) := by
  have hselect : machine.step (start tables [(record, draw)]) 0 =
      some ⟨tables, [⟨record, draw, .selected (tables.nodeOfMachine record.machine_id)⟩]⟩ := rfl
  cases hwrite : writeNode record draw (tables.nodeOfMachine record.machine_id) tables with
  | error e =>
    refine ⟨[0, 0], .error (.store e), tables, Machine.run_cons_eq_some.2 ⟨_, hselect,
      Machine.run_cons_eq_some.2 ⟨_, step_alone ?_, rfl⟩⟩, ?_⟩
    · simp [statement, UpsertCall.holds, hwrite]
    · simp [upsert_node, transaction, upsertBody, Faults.guard, hwrite, bind, Except.bind,
        Except.mapError, Except.map]
  | ok r =>
    obtain ⟨node_id, event_type, t⟩ := r
    have hwrote : machine.step
        ⟨tables, [⟨record, draw, .selected (tables.nodeOfMachine record.machine_id)⟩]⟩ 0 =
        some ⟨tables, [⟨record, draw, .wrote (tables.nodeOfMachine record.machine_id)⟩]⟩ :=
      step_alone (by simp [statement, UpsertCall.holds, hwrite])
    cases hlog : t.insertEvent (NewEnrollmentEventEntity record draw node_id event_type) with
    | error e =>
      refine ⟨[0, 0, 0], .error (.store e), tables, Machine.run_cons_eq_some.2 ⟨_, hselect,
        Machine.run_cons_eq_some.2 ⟨_, hwrote,
          Machine.run_cons_eq_some.2 ⟨_, step_alone ?_, rfl⟩⟩⟩, ?_⟩
      · simp [statement, UpsertCall.writes, hwrite, hlog, bind, Except.bind]
      · simp [upsert_node, transaction, upsertBody, Faults.guard, hwrite, hlog, bind, Except.bind,
          Except.mapError, Except.map]
    | ok t' =>
      have hwrites : ∀ pc, UpsertCall.writes ⟨record, draw, pc⟩
          (tables.nodeOfMachine record.machine_id) tables = .ok (node_id, t') := by
        intro pc
        simp only [UpsertCall.writes, hwrite, hlog, bind, Except.bind, pure, Except.pure]
      have hlogged : machine.step
          ⟨tables, [⟨record, draw, .wrote (tables.nodeOfMachine record.machine_id)⟩]⟩ 0 =
          some ⟨tables, [⟨record, draw, .logged (tables.nodeOfMachine record.machine_id)⟩]⟩ :=
        step_alone (by simp only [statement, hwrites])
      have hcommitted : machine.step
          ⟨tables, [⟨record, draw, .logged (tables.nodeOfMachine record.machine_id)⟩]⟩ 0 =
          some ⟨t', [⟨record, draw, .returned (.ok node_id)⟩]⟩ :=
        step_alone (by simp only [statement, hwrites])
      refine ⟨[0, 0, 0, 0], .ok node_id, t', Machine.run_cons_eq_some.2 ⟨_, hselect,
        Machine.run_cons_eq_some.2 ⟨_, hwrote, Machine.run_cons_eq_some.2 ⟨_, hlogged,
          Machine.run_cons_eq_some.2 ⟨_, hcommitted, rfl⟩⟩⟩⟩, ?_⟩
      simp [upsert_node, transaction, upsertBody, Faults.guard, hwrite, hlog, bind, Except.bind,
        pure, Except.pure, Except.mapError, Except.map]

/-- **And a registration answers with what comes of it.** -/
theorem register_agent_eq {reg : AgentRegistration} {draw : EnrollmentDraw}
    {now_secs : Except String ℕ} {stored : Except NodeEnrollmentError Uuid} {t : Tables}
    (h : upsert_node text ⟨reg.hostname, reg.os_version, reg.agent_version, reg.machine_id⟩ draw
      (fun _ => none) tables = (stored.map text.print, t)) :
    NodeEnroller.register_agent text jwt reg draw (fun _ => none) now_secs tables =
      (NodeEnroller.answer text jwt now_secs stored, t) := by
  unfold NodeEnroller.register_agent NodeEnroller.answer
  rw [h]
  cases stored with
  | error e => rfl
  | ok node_id =>
    dsimp only [Except.map]
    cases sign_token jwt (text.print node_id) now_secs <;> rfl

/-! ## What every schedule keeps -/

/-- **What every state keeps**, of calls for one machine: what a call has
found is there; at most one call holds anything; and while one holds the
machine, no row of it is committed. -/
structure Orderly (machine_id : String) (s : Enrolling) : Prop where
  machine : ∀ c ∈ s.calls, c.record.machine_id = machine_id
  node_ids : (s.calls.map (·.draw.node_id)).Nodup
  event_ids : (s.calls.map (·.draw.event_id)).Nodup
  /-- What a call draws is new until it commits. -/
  fresh : ∀ c ∈ s.calls, (∀ node_id, c.pc ≠ .returned (.ok node_id)) →
    c.draw.node_id ∉ s.tables.nodes.map (·.node_id) ∧
      c.draw.event_id ∉ s.tables.enrollment_events.map (·.event_id)
  found : ∀ c ∈ s.calls, ∀ node_id, c.pc.found = some node_id →
    s.tables.nodeOfMachine machine_id = some node_id
  inserting : ∀ c ∈ s.calls, c.holds = some (.machine machine_id) →
    s.tables.nodeOfMachine machine_id = none
  single : ∀ (i j : ℕ) (c d : UpsertCall), s.calls[i]? = some c → s.calls[j]? = some d →
    c.holds.isSome → d.holds.isSome → i = j

theorem orderly_start {calls : List (NodeRecord × EnrollmentDraw)}
    (hmachine : ∀ c ∈ calls, c.1.machine_id = machine_id) (hfresh : Fresh tables calls) :
    Orderly machine_id (start tables calls) := by
  have hmem : ∀ c ∈ (start tables calls).calls, c.pc = .begun ∧ (c.record, c.draw) ∈ calls := by
    intro c hc
    obtain ⟨d, hd, rfl⟩ := List.mem_map.1 hc
    exact ⟨rfl, hd⟩
  have hidle : ∀ c ∈ (start tables calls).calls, c.holds = none := by
    intro c hc
    rw [UpsertCall.holds, (hmem c hc).1]
  refine ⟨fun c hc => hmachine _ (hmem c hc).2, ?_, ?_, fun c hc _ => ?_, fun c hc node_id h => ?_,
    fun c hc h => ?_, fun i j c d hc hd h _ => ?_⟩
  · simpa [start, List.map_map, Function.comp_def] using hfresh.node_ids
  · simpa [start, List.map_map, Function.comp_def] using hfresh.event_ids
  · exact ⟨hfresh.node_id _ (hmem c hc).2, hfresh.event_id _ (hmem c hc).2⟩
  · rw [(hmem c hc).1] at h
    cases h
  · rw [hidle c hc] at h
    cases h
  · rw [hidle c (List.mem_of_getElem? hc)] at h
    cases h

/-- A statement that commits nothing. -/
theorem Orderly.set (h : Orderly machine_id s) (hc : s.calls[i]? = some c) {pc : UpsertPc}
    (hopen : ∀ node_id, c.pc ≠ .returned (.ok node_id))
    (hfound : ∀ node_id, pc.found = some node_id →
      s.tables.nodeOfMachine machine_id = some node_id)
    (hinserting : UpsertCall.holds { c with pc := pc } = some (.machine machine_id) →
      s.tables.nodeOfMachine machine_id = none)
    (hsingle : (UpsertCall.holds { c with pc := pc }).isSome →
      ∀ (j : ℕ) (d : UpsertCall), s.calls[j]? = some d → d.holds.isSome → j = i) :
    Orderly machine_id ⟨s.tables, s.calls.set i { c with pc := pc }⟩ := by
  have hmem := List.mem_of_getElem? hc
  have hnode_ids : (s.calls.set i { c with pc := pc }).map (·.draw.node_id) =
      s.calls.map (·.draw.node_id) := Calls.map_set hc rfl
  have hevent_ids : (s.calls.set i { c with pc := pc }).map (·.draw.event_id) =
      s.calls.map (·.draw.event_id) := Calls.map_set hc rfl
  refine ⟨Calls.forall_mem_set h.machine (h.machine c hmem), hnode_ids ▸ h.node_ids,
    hevent_ids ▸ h.event_ids, Calls.forall_mem_set h.fresh fun _ => h.fresh c hmem hopen,
    Calls.forall_mem_set h.found hfound, Calls.forall_mem_set h.inserting hinserting, ?_⟩
  intro j k d e hd he hdholds heholds
  rcases Calls.getElem?_set_cases hd with ⟨rfl, rfl⟩ | ⟨-, hd⟩ <;>
    rcases Calls.getElem?_set_cases he with ⟨rfl, rfl⟩ | ⟨-, he⟩
  · rfl
  · exact (hsingle hdholds k e he heholds).symm
  · exact hsingle heholds j d hd hdholds
  · exact h.single j k d e hd he hdholds heholds

/-- What the writes of a call make of the tables. -/
structure Commits (machine_id : String) (c : UpsertCall) (before : Tables) (node_id : Uuid)
    (after : Tables) : Prop where
  node : after.nodeOfMachine machine_id = some node_id
  keeps : ∀ node_id', before.nodeOfMachine machine_id = some node_id' → node_id' = node_id
  nodes : ∀ row ∈ after.nodes.map (·.node_id),
    row ∈ before.nodes.map (·.node_id) ∨ row = c.draw.node_id
  events : ∀ row ∈ after.enrollment_events.map (·.event_id),
    row ∈ before.enrollment_events.map (·.event_id) ∨ row = c.draw.event_id

/-- **A call that is right about the machine can write**, and comes to its
node. -/
theorem exists_commits (h : Orderly machine_id s) (hc : c ∈ s.calls)
    (hopen : ∀ node_id, c.pc ≠ .returned (.ok node_id)) {existing : Option Uuid}
    (hexisting : s.tables.nodeOfMachine machine_id = existing) :
    (∃ r, writeNode c.record c.draw existing s.tables = .ok r) ∧
      ∃ node_id t, c.writes existing s.tables = .ok (node_id, t) ∧
        Commits machine_id c s.tables node_id t := by
  obtain ⟨hid, hevent⟩ := h.fresh c hc hopen
  have hmachine := h.machine c hc
  cases existing with
  | none =>
    obtain ⟨hwrite, t, hwrites, hnodes, hevents⟩ := writes_none hid hevent (hmachine ▸ hexisting)
    refine ⟨hwrite, _, t, hwrites, ?_, fun node_id' h' => ?_, fun row hrow => ?_,
      fun row hrow => ?_⟩
    · have hnone : s.tables.nodeOfMachine c.record.machine_id = none := hmachine ▸ hexisting
      have hnode : t.nodeOfMachine c.record.machine_id = _ := nodeOfMachine_append hnodes hnone
      rwa [hmachine] at hnode
    · rw [hexisting] at h'
      cases h'
    · rw [hnodes, List.map_append] at hrow
      exact (List.mem_append.1 hrow).imp_right List.mem_singleton.1
    · rw [hevents, List.map_append] at hrow
      exact (List.mem_append.1 hrow).imp_right List.mem_singleton.1
  | some node_id =>
    have hnode : node_id ∈ s.tables.nodes.map (·.node_id) := by
      obtain ⟨row, hrow, -, rfl⟩ := nodeOfMachine_eq_some hexisting
      exact List.mem_map_of_mem hrow
    obtain ⟨t, hwrites, hnodes, hevents⟩ := writes_some hnode hevent
    refine ⟨⟨_, rfl⟩, node_id, t, hwrites, ?_, fun node_id' h' => ?_, fun row hrow => .inl ?_,
      fun row hrow => ?_⟩
    · rw [nodeOfMachine_updated hnodes fun _ => ⟨rfl, rfl⟩, hexisting]
    · exact Option.some.inj (h'.symm.trans hexisting)
    · rw [hnodes] at hrow
      have hkey : ∀ row, (reEnroll c.record c.draw row).node_id = row.node_id := fun _ => rfl
      rwa [Tables.map_updated hkey] at hrow
    · rw [hevents, List.map_append] at hrow
      exact (List.mem_append.1 hrow).imp_right List.mem_singleton.1

/-- A call that has written holds what it wrote. -/
theorem holds_eq {existing : Option Uuid} (hpc : c.pc = .wrote existing ∨ c.pc = .logged existing) :
    c.holds = some (c.lock existing) := by
  rcases hpc with hpc | hpc <;> rw [UpsertCall.holds, hpc]

/-- A call that holds anything has written. -/
theorem exists_of_holds (hholds : c.holds.isSome) :
    ∃ existing, c.pc = .wrote existing ∨ c.pc = .logged existing := by
  unfold UpsertCall.holds at hholds
  split at hholds
  · next existing hpc => exact ⟨existing, .inl hpc⟩
  · next existing hpc => exact ⟨existing, .inr hpc⟩
  · cases hholds

/-- Calls for one machine hold the same once they have written the same. -/
theorem Orderly.lock_eq (h : Orderly machine_id s) {d : UpsertCall} (hc : c ∈ s.calls)
    (hd : d ∈ s.calls) (existing : Option Uuid) : d.lock existing = c.lock existing := by
  cases existing with
  | none => rw [UpsertCall.lock, UpsertCall.lock, h.machine c hc, h.machine d hd]
  | some node_id => rfl

/-- A call that has written is right about the machine. -/
theorem nodeOfMachine_of_holds (h : Orderly machine_id s) (hc : c ∈ s.calls)
    {existing : Option Uuid} (hpc : c.pc = .wrote existing ∨ c.pc = .logged existing) :
    s.tables.nodeOfMachine machine_id = existing := by
  cases existing with
  | none =>
    refine h.inserting c hc ?_
    rw [holds_eq hpc, UpsertCall.lock, h.machine c hc]
  | some node_id =>
    refine h.found c hc node_id ?_
    rcases hpc with hpc | hpc <;> rw [hpc] <;> rfl

/-- **A commit** ends the only call that held anything. -/
theorem Orderly.commit (h : Orderly machine_id s) (hc : s.calls[i]? = some c)
    (hholds : c.holds.isSome) {node_id : Uuid} {t : Tables}
    (ht : Commits machine_id c s.tables node_id t) :
    Orderly machine_id ⟨t, s.calls.set i { c with pc := .returned (.ok node_id) }⟩ := by
  have hmem := List.mem_of_getElem? hc
  have hnode_ids : (s.calls.set i { c with pc := .returned (.ok node_id) }).map (·.draw.node_id) =
      s.calls.map (·.draw.node_id) := Calls.map_set hc rfl
  have hevent_ids : (s.calls.set i { c with pc := .returned (.ok node_id) }).map
      (·.draw.event_id) = s.calls.map (·.draw.event_id) := Calls.map_set hc rfl
  refine ⟨Calls.forall_mem_set h.machine (h.machine c hmem), hnode_ids ▸ h.node_ids,
    hevent_ids ▸ h.event_ids, fun d hd hdopen => ?_, fun d hd node_id' hfound => ?_,
    fun d hd hdholds => ?_, fun j k d e hd he hdholds heholds => ?_⟩
  · obtain ⟨j, hj⟩ := List.getElem?_of_mem hd
    rcases Calls.getElem?_set_cases hj with ⟨-, rfl⟩ | ⟨hij, hj⟩
    · exact absurd rfl (hdopen node_id)
    · -- another call has drawn other identifiers
      have hnode : d.draw.node_id ≠ c.draw.node_id :=
        Calls.ne_of_nodup (f := fun c => c.draw.node_id) h.node_ids hc hj hij
      have hevent : d.draw.event_id ≠ c.draw.event_id :=
        Calls.ne_of_nodup (f := fun c => c.draw.event_id) h.event_ids hc hj hij
      obtain ⟨hid, heventid⟩ := h.fresh d (List.mem_of_getElem? hj) hdopen
      exact ⟨fun hin => (ht.nodes _ hin).elim hid hnode,
        fun hin => (ht.events _ hin).elim heventid hevent⟩
  · rw [ht.node]
    rcases List.mem_or_eq_of_mem_set hd with hd | rfl
    · rw [ht.keeps node_id' (h.found d hd node_id' hfound)]
    · exact hfound
  · obtain ⟨j, hj⟩ := List.getElem?_of_mem hd
    rcases Calls.getElem?_set_cases hj with ⟨-, rfl⟩ | ⟨hij, hj⟩
    · cases hdholds
    · exact absurd (h.single i j c d hc hj hholds (by rw [hdholds]; rfl)) hij
  · rcases Calls.getElem?_set_cases hd with ⟨-, rfl⟩ | ⟨hij, hd⟩
    · cases hdholds
    · exact absurd (h.single i j c d hc hd hholds hdholds) hij

/-! ## One statement -/

/-- No call has failed. -/
def NoneFailed (s : Enrolling) : Prop := ∀ c ∈ s.calls, ∀ e, c.pc ≠ .returned (.error e)

/-- **What a statement does**: the calls stay in order, and one fails
exactly when it inserts after another has committed. -/
structure StepSpec (machine_id : String) (s : Enrolling) (i : ℕ) (t : Enrolling) : Prop where
  orderly : Orderly machine_id t
  noneFailed_iff : NoneFailed s → (NoneFailed t ↔ InsertsFirst s i)

/-- A statement that goes through, and is no late insert. -/
theorem stepSpec_of_ok {pc : UpsertPc}
    (horderly : Orderly machine_id ⟨tables, s.calls.set i { c with pc := pc }⟩)
    (hpc : ∀ e, pc ≠ .returned (.error e)) (hfirst : InsertsFirst s i) :
    StepSpec machine_id s i ⟨tables, s.calls.set i { c with pc := pc }⟩ :=
  ⟨horderly, fun hnone => iff_of_true (Calls.forall_mem_set hnone hpc) hfirst⟩

/-- A call at another statement does not insert. -/
theorem insertsFirst_of_ne (hc : s.calls[i]? = some c) (hpc : c.pc ≠ .selected none) :
    InsertsFirst s i := by
  intro d hd hselected
  obtain rfl := Option.some.inj (hc.symm.trans hd)
  exact absurd hselected hpc

theorem stepSpec_select (h : Orderly machine_id s) (hc : s.calls[i]? = some c)
    (hpc : c.pc = .begun) : StepSpec machine_id s i
      ⟨s.tables, s.calls.set i
        { c with pc := .selected (s.tables.nodeOfMachine c.record.machine_id) }⟩ := by
  have hmachine := h.machine c (List.mem_of_getElem? hc)
  refine stepSpec_of_ok (h.set hc ?_ ?_ ?_ ?_) (fun e heq => by cases heq)
    (insertsFirst_of_ne hc ?_)
  · rw [hpc]
    exact fun _ heq => by cases heq
  · rw [hmachine]
    exact fun _ hfound => hfound
  · exact fun heq => by cases heq
  · exact fun heq => by cases heq
  · rw [hpc]
    exact fun heq => by cases heq

/-- Where a call that is right about the machine need not wait, no other
holds anything. -/
theorem holds_eq_none_of_right (h : Orderly machine_id s) (hc : c ∈ s.calls)
    {existing : Option Uuid} (hright : s.tables.nodeOfMachine machine_id = existing)
    (hwaits : ¬(s.calls.any fun d => d.holds = some (c.lock existing)) = true) :
    ∀ d ∈ s.calls, d.holds = none := by
  intro d hd
  by_contra hholds
  obtain ⟨existing', hdpc⟩ := exists_of_holds (Option.isSome_iff_ne_none.2 hholds)
  -- whoever holds anything is right about the machine too, and so holds what is wanted
  obtain rfl : existing = existing' := hright.symm.trans (nodeOfMachine_of_holds h hd hdpc)
  have hsame : d.holds = some (c.lock existing) := by rw [holds_eq hdpc, h.lock_eq hc hd]
  exact hwaits (List.any_eq_true.2 ⟨d, hd, decide_eq_true hsame⟩)

/-- **A write that is right about the machine** goes through. -/
theorem stepSpec_right (h : Orderly machine_id s) (hc : s.calls[i]? = some c)
    {existing : Option Uuid} (hpc : c.pc = .selected existing)
    (hwaits : ¬(s.calls.any fun d => d.holds = some (c.lock existing)) = true)
    (hright : s.tables.nodeOfMachine machine_id = existing) :
    (∃ r, writeNode c.record c.draw existing s.tables = .ok r) ∧
      StepSpec machine_id s i ⟨s.tables, s.calls.set i { c with pc := .wrote existing }⟩ := by
  have hmem := List.mem_of_getElem? hc
  have hopen : ∀ node_id, c.pc ≠ .returned (.ok node_id) := by
    rw [hpc]
    exact fun _ heq => by cases heq
  obtain ⟨hwrite, -⟩ := exists_commits h hmem hopen hright
  have hfree := holds_eq_none_of_right h hmem hright hwaits
  refine ⟨hwrite, stepSpec_of_ok (h.set hc hopen ?_ ?_ ?_) (fun e heq => by cases heq) ?_⟩
  · exact fun node_id hfound => hright.trans hfound
  · intro hholds
    cases existing with
    | none => exact hright
    | some node_id => cases hholds
  · intro _ j d hd hdholds
    rw [hfree d (List.mem_of_getElem? hd)] at hdholds
    cases hdholds
  · intro d hd hselected
    obtain rfl := Option.some.inj (hc.symm.trans hd)
    rw [hpc] at hselected
    cases hselected
    rw [h.machine c hmem, hright]

/-- **A write that is wrong about the machine** comes after another call has
committed a row for it, and fails. -/
theorem stepSpec_late (h : Orderly machine_id s) (hc : s.calls[i]? = some c)
    {existing : Option Uuid} (hpc : c.pc = .selected existing)
    (hwrong : s.tables.nodeOfMachine machine_id ≠ existing) :
    ∃ e, writeNode c.record c.draw existing s.tables = .error e ∧
      StepSpec machine_id s i
        ⟨s.tables, s.calls.set i { c with pc := .returned (.error (.store e)) }⟩ := by
  have hmem := List.mem_of_getElem? hc
  have hmachine := h.machine c hmem
  have hopen : ∀ node_id, c.pc ≠ .returned (.ok node_id) := by
    rw [hpc]
    exact fun _ heq => by cases heq
  -- a row that was found is still there, so the call has found none
  obtain rfl : existing = none := by
    cases existing with
    | none => rfl
    | some node_id => exact absurd (h.found c hmem node_id (by rw [hpc]; rfl)) hwrong
  obtain ⟨e, hwrite⟩ : ∃ e, writeNode c.record c.draw none s.tables = .error e :=
    writeNode_eq_error (hmachine ▸ hwrong)
  refine ⟨e, hwrite, h.set hc hopen ?_ ?_ ?_, fun _ => iff_of_false (fun hnone => ?_)
    fun hfirst => ?_⟩
  · exact fun _ heq => by cases heq
  · exact fun heq => by cases heq
  · exact fun heq => by cases heq
  · obtain ⟨hi, -⟩ := List.getElem?_eq_some_iff.1 hc
    exact hnone _ (List.mem_set hi _) _ rfl
  · exact hwrong (hmachine ▸ hfirst c hc hpc)

theorem stepSpec_log (h : Orderly machine_id s) (hc : s.calls[i]? = some c)
    {existing : Option Uuid} (hpc : c.pc = .wrote existing) :
    (∃ r, c.writes existing s.tables = .ok r) ∧
      StepSpec machine_id s i ⟨s.tables, s.calls.set i { c with pc := .logged existing }⟩ := by
  have hmem := List.mem_of_getElem? hc
  have hright := nodeOfMachine_of_holds h hmem (.inl hpc)
  have hopen : ∀ node_id, c.pc ≠ .returned (.ok node_id) := by
    rw [hpc]
    exact fun _ heq => by cases heq
  have hholds := holds_eq (.inl hpc)
  obtain ⟨-, node_id, t, hwrites, -⟩ := exists_commits h hmem hopen hright
  refine ⟨⟨_, hwrites⟩, stepSpec_of_ok (h.set hc hopen ?_ ?_ ?_) (fun e heq => by cases heq)
    (insertsFirst_of_ne hc ?_)⟩
  · exact fun node_id hfound => hright.trans hfound
  · exact fun hlock => h.inserting c hmem (hholds.trans hlock)
  · exact fun _ j d hd hdholds => h.single j i d c hd hc hdholds (by rw [hholds]; rfl)
  · rw [hpc]
    exact fun heq => by cases heq

theorem stepSpec_commit (h : Orderly machine_id s) (hc : s.calls[i]? = some c)
    {existing : Option Uuid} (hpc : c.pc = .logged existing) :
    ∃ node_id tables, c.writes existing s.tables = .ok (node_id, tables) ∧
      StepSpec machine_id s i
        ⟨tables, s.calls.set i { c with pc := .returned (.ok node_id) }⟩ := by
  have hmem := List.mem_of_getElem? hc
  have hright := nodeOfMachine_of_holds h hmem (.inr hpc)
  have hopen : ∀ node_id, c.pc ≠ .returned (.ok node_id) := by
    rw [hpc]
    exact fun _ heq => by cases heq
  have hholds : c.holds.isSome := Option.isSome_of_eq_some (holds_eq (.inr hpc))
  obtain ⟨-, node_id, t, hwrites, hcommits⟩ := exists_commits h hmem hopen hright
  refine ⟨node_id, t, hwrites, stepSpec_of_ok (h.commit hc hholds hcommits)
    (fun e heq => by cases heq) (insertsFirst_of_ne hc ?_)⟩
  rw [hpc]
  exact fun heq => by cases heq

/-- **Every statement keeps the calls in order.** -/
theorem stepSpec (h : Orderly machine_id s) (ht : machine.step s i = some t) :
    StepSpec machine_id s i t := by
  obtain ⟨c, hc, ht⟩ := Option.bind_eq_some_iff.1 ht
  obtain ⟨⟨pc, tables⟩, hstatement, rfl⟩ := Option.map_eq_some_iff.1 ht
  unfold statement at hstatement
  split at hstatement
  · next hpc =>
    cases hstatement
    exact stepSpec_select h hc hpc
  · next existing hpc =>
    obtain ⟨hwaits, hstatement⟩ := Option.ite_none_left_eq_some.1 hstatement
    by_cases hright : s.tables.nodeOfMachine machine_id = existing
    · obtain ⟨⟨r, hwrite⟩, hspec⟩ := stepSpec_right h hc hpc hwaits hright
      rw [hwrite] at hstatement
      cases hstatement
      exact hspec
    · obtain ⟨e, hwrite, hspec⟩ := stepSpec_late h hc hpc hright
      rw [hwrite] at hstatement
      cases hstatement
      exact hspec
  · next existing hpc =>
    obtain ⟨⟨r, hwrites⟩, hspec⟩ := stepSpec_log h hc hpc
    rw [hwrites] at hstatement
    cases hstatement
    exact hspec
  · next existing hpc =>
    obtain ⟨node_id, t, hwrites, hspec⟩ := stepSpec_commit h hc hpc
    rw [hwrites] at hstatement
    cases hstatement
    exact hspec
  · cases hstatement

/-! ## Whole schedules -/

/-- **Calls that have all succeeded have come to one node.** -/
theorem idempotent_iff (hsign : ∀ claims, ∃ token, jwt.encode claims = .ok token)
    (h : Orderly machine_id s) : Idempotent text jwt s ↔ NoneFailed s := by
  constructor
  · rintro ⟨node_id, hsame⟩ c hc e hpc
    obtain ⟨token, htoken⟩ := hsame c hc _ hpc 0
    cases htoken
  · intro hnone
    refine ⟨((s.tables.nodeOfMachine machine_id).map text.print).getD "", ?_⟩
    intro c hc stored hpc now
    cases stored with
    | error e => exact absurd hpc (hnone c hc e)
    | ok node_id =>
      have hfound := h.found c hc node_id (by rw [hpc]; rfl)
      obtain ⟨token, htoken⟩ := hsign ⟨text.print node_id, min (now + TOKEN_TTL_SECS) (2 ^ 64 - 1)⟩
      refine ⟨token, ?_⟩
      rw [hfound]
      simp only [NodeEnroller.answer, Except.map, sign_token, htoken, Except.mapError,
        Option.map_some, Option.getD_some]

/-- A call that has a statement left to execute can go on. -/
theorem exists_step_of_statement {r : UpsertPc × Tables} (hc : s.calls[i]? = some c)
    (hr : s.statement c = some r) : ∃ i t, machine.step s i = some t :=
  ⟨i, ⟨r.2, s.calls.set i { c with pc := r.1 }⟩, Option.bind_eq_some_iff.2
    ⟨c, hc, Option.map_eq_some_iff.2 ⟨r, hr, rfl⟩⟩⟩

/-- Who holds anything waits for nobody. -/
theorem exists_step_of_holds (h : Orderly machine_id s) (hc : c ∈ s.calls)
    (hholds : c.holds.isSome) : ∃ i t, machine.step s i = some t := by
  obtain ⟨i, hi⟩ := List.getElem?_of_mem hc
  obtain ⟨existing, hpc | hpc⟩ := exists_of_holds hholds
  · obtain ⟨⟨r, hwrites⟩, -⟩ := stepSpec_log h hi hpc
    refine exists_step_of_statement hi (r := (.logged existing, s.tables)) ?_
    simp only [statement, hpc, hwrites]
  · obtain ⟨node_id, t, hwrites, -⟩ := stepSpec_commit h hi hpc
    refine exists_step_of_statement hi (r := (.returned (.ok node_id), t)) ?_
    simp only [statement, hpc, hwrites]

/-- Where nobody holds anything nobody waits. -/
theorem exists_step_of_free (hfree : ∀ d ∈ s.calls, d.holds = none) (hc : c ∈ s.calls)
    (hopen : ∀ stored, c.pc ≠ .returned stored) : ∃ i t, machine.step s i = some t := by
  obtain ⟨i, hi⟩ := List.getElem?_of_mem hc
  have hlock : ∀ lock, (s.calls.any fun d => d.holds = some lock) = false := by
    intro lock
    refine List.any_eq_false.2 fun d hd hlock => ?_
    rw [hfree d hd] at hlock
    cases hlock
  have hidle := hfree c hc
  cases hpc : c.pc with
  | begun =>
    refine exists_step_of_statement hi
      (r := (.selected (s.tables.nodeOfMachine c.record.machine_id), s.tables)) ?_
    simp only [statement, hpc]
  | selected existing =>
    cases hwrite : writeNode c.record c.draw existing s.tables with
    | ok r =>
      refine exists_step_of_statement hi (r := (.wrote existing, s.tables)) ?_
      simp only [statement, hpc, hlock, hwrite, Bool.false_eq_true, if_false]
    | error e =>
      refine exists_step_of_statement hi (r := (.returned (.error (.store e)), s.tables)) ?_
      simp only [statement, hpc, hlock, hwrite, Bool.false_eq_true, if_false]
  | wrote existing =>
    rw [holds_eq (.inl hpc)] at hidle
    cases hidle
  | logged existing =>
    rw [holds_eq (.inr hpc)] at hidle
    cases hidle
  | returned stored => exact absurd hpc (hopen stored)

/-- **Some call can always go on**, until all have returned. -/
theorem exists_step (h : Orderly machine_id s)
    (hc : ∃ c ∈ s.calls, ∀ stored, c.pc ≠ .returned stored) : ∃ i t, machine.step s i = some t := by
  by_cases hholder : ∃ d ∈ s.calls, d.holds.isSome
  · obtain ⟨d, hd, hholds⟩ := hholder
    exact exists_step_of_holds h hd hholds
  · obtain ⟨c, hc, hopen⟩ := hc
    have hfree : ∀ d ∈ s.calls, d.holds = none := fun d hd =>
      Option.not_isSome_iff_eq_none.1 fun hholds => hholder ⟨d, hd, hholds⟩
    exact exists_step_of_free hfree hc hopen

/-- **When concurrent enrollments are idempotent.** Of calls for one machine,
whatever their statements are interleaved with, those that have returned
have all succeeded with one node, in every state, exactly when no call that
found no row inserts one after another has committed one. And until all have
returned, some call can go on. -/
theorem enrollment_idempotent_iff (text : UuidText) (jwt : Jwt) (machine_id : String)
    (tables : Tables) (calls : List (NodeRecord × EnrollmentDraw)) (l : List ℕ) (u : Enrolling)
    (hsign : ∀ claims, ∃ token, jwt.encode claims = .ok token)
    (hmachine : ∀ c ∈ calls, c.1.machine_id = machine_id) (hfresh : Fresh tables calls)
    (hrun : machine.run (start tables calls) l = some u) :
    (machine.Always (Idempotent text jwt) (start tables calls) l ↔
      machine.EveryStep InsertsFirst (start tables calls) l) ∧
    ((∃ c ∈ u.calls, ∀ stored, c.pc ≠ .returned stored) → ∃ i t, machine.step u i = some t) := by
  have hstart := orderly_start hmachine hfresh
  refine ⟨Machine.always_iff_everyStep (I := Orderly machine_id)
    (fun s i t h ht => (stepSpec h ht).orderly) (fun s i t h hs ht => ?_) hstart ?_ hrun,
    fun hc => ?_⟩
  · rw [idempotent_iff hsign (stepSpec h ht).orderly]
    exact (stepSpec h ht).noneFailed_iff ((idempotent_iff hsign h).1 hs)
  · refine (idempotent_iff hsign hstart).2 fun c hc e hpc => ?_
    obtain ⟨d, -, rfl⟩ := List.mem_map.1 hc
    cases hpc
  · exact exists_step (Machine.run_preserves (I := Orderly machine_id)
      (fun s i t h ht => (stepSpec h ht).orderly) hrun hstart) hc

/-! ## Two calls -/

/-- A signer that signs everything. -/
def signsAll : Jwt := ⟨fun _ => .ok "token", fun _ _ => .error "InvalidToken"⟩

/-- Two enrollments of one machine. -/
def twoCalls : List (NodeRecord × EnrollmentDraw) :=
  [(⟨"a", "linux", "1", "m1"⟩, ⟨⟨1⟩, ⟨11⟩, 0⟩), (⟨"a", "linux", "2", "m1"⟩, ⟨⟨2⟩, ⟨12⟩, 0⟩)]

/-- A call that has failed. -/
def failed (c : UpsertCall) : Bool :=
  match c.pc with
  | .returned (.error _) => true
  | _ => false

/-- **The second of two enrollments fails**: both look the machine up before
the first commits its row. -/
theorem not_idempotent_raced :
    ¬machine.Always (Idempotent .standard signsAll) (start .empty twoCalls) [0, 1, 0, 0, 0, 1] := by
  intro h
  have hrun : (machine.run (start .empty twoCalls) [0, 1, 0, 0, 0, 1]).map
      (fun u => u.calls.any failed) = some true := rfl
  obtain ⟨u, hu, hany⟩ := Option.map_eq_some_iff.1 hrun
  obtain ⟨c, hc, hfailed⟩ := List.any_eq_true.1 hany
  obtain ⟨node_id, hsame⟩ := h.last hu
  unfold failed at hfailed
  split at hfailed
  · next e hpc =>
    obtain ⟨token, htoken⟩ := hsame c hc _ hpc 0
    cases htoken
  · cases hfailed

theorem fresh_twoCalls : Fresh .empty twoCalls := by
  refine ⟨by decide, by decide, fun _ _ h => ?_, fun _ _ h => ?_⟩
  · exact List.not_mem_nil h
  · exact List.not_mem_nil h

/-- Enrollments one after the other come to one node. -/
theorem idempotent_inTurn : machine.Always (Idempotent .standard signsAll)
    (start .empty twoCalls) [0, 0, 0, 0, 1, 1, 1, 1] := by
  obtain ⟨u, hu⟩ : ∃ u, machine.run (start .empty twoCalls) [0, 0, 0, 0, 1, 1, 1, 1] = some u :=
    ⟨_, rfl⟩
  refine (enrollment_idempotent_iff .standard signsAll "m1" .empty twoCalls _ u
    (fun _ => ⟨"token", rfl⟩) (by decide) fresh_twoCalls hu).1.2 ?_
  refine Machine.everyStep_cons rfl (fun c hc hpc => by cases hc; cases hpc) ?_
  refine Machine.everyStep_cons rfl (fun c hc hpc => by cases hc; rfl) ?_
  refine Machine.everyStep_cons rfl (fun c hc hpc => by cases hc; cases hpc) ?_
  refine Machine.everyStep_cons rfl (fun c hc hpc => by cases hc; cases hpc) ?_
  refine Machine.everyStep_cons rfl (fun c hc hpc => by cases hc; cases hpc) ?_
  refine Machine.everyStep_cons rfl (fun c hc hpc => by cases hc; cases hpc) ?_
  refine Machine.everyStep_cons rfl (fun c hc hpc => by cases hc; cases hpc) ?_
  exact Machine.everyStep_cons rfl (fun c hc hpc => by cases hc; cases hpc) trivial

end Enrolling

end AigisZero.Fleet
