import AigisZero.Fleet.Service
import AigisZero.Library.Calls

/-!
# Containment

An operator isolates a node in two steps: the API backend sets its status
in the registry, and tells the Fleet Server, which has a stream to the
agent. Nothing orders the steps of calls that overlap. This file says when
the last command agrees with the status, and when an answer that says a
command was dispatched is true.
-/

namespace AigisZero

namespace Fleet

/-- `ServerCommand`. What a new configuration holds is left out: the server
sends none. -/
inductive Proto.ServerCommand where
  | isolate (isolate : Bool) (reason : String)
  | config_update
  | ack (sequence_id : String)
deriving DecidableEq, Repr

/-- What the task of a stream writes for a command. -/
def serverCommand : OutgoingCommand → Proto.ServerCommand
  | .ack sequence_id => .ack sequence_id

end Fleet

namespace Backend

open Fleet (AppError Faults IsolateNodeResponse Jwt NodeRow Server ServerAction Tables
  findNode_updated serverCommand update_operator_status update_operator_status_cases)

/-- What an operator asks of a node. -/
structure NodeCommand where
  node_id : Uuid
  isolate : Bool
  reason : String
deriving DecidableEq, Repr

/-- What `NodeService::isolate_node` is called for. -/
def isolate_node (node_id : Uuid) (reason : Option String) : NodeCommand :=
  ⟨node_id, true, reason.getD "Operator manual isolation"⟩

/-- What `NodeService::unisolate_node` is called for. -/
def unisolate_node (node_id : Uuid) : NodeCommand := ⟨node_id, false, "Operator un-isolation"⟩

/-- The status a command sets. -/
def operatorStatus (isolate : Bool) : String := if isolate then "isolated" else "active"

/-- `FleetClient::send_isolate_command`, with what comes of its `connect`.
No call is made on the connection, and `Ok` is returned without one too. -/
def send_isolate_command (_command : NodeCommand) (connect : Except String Unit) :
    Except String Unit :=
  match connect with
  | .ok () => .ok ()
  | .error _ => .ok ()

/-- Where a call stands. -/
inductive CallPc where
  | called
  /-- The status is set. -/
  | dispatching (res : IsolateNodeResponse)
  | returned (result : Except AppError IsolateNodeResponse)

/-- A call of `NodeService`. -/
structure NodeCall where
  command : NodeCommand
  pc : CallPc

/-- The call has returned. -/
def NodeCall.done (c : NodeCall) : Bool :=
  match c.pc with
  | .returned _ => true
  | _ => false

/-- The Fleet Server with the registry, and the calls of the API backend. -/
structure Control where
  server : Server
  calls : List NodeCall
  /-- What `send_isolate_command` was called with. -/
  dispatched : List NodeCommand

/-- What can happen. -/
inductive ControlAction where
  | server (a : ServerAction)
  | isolate_node (node_id : Uuid) (reason : Option String)
  | unisolate_node (node_id : Uuid)
  /-- A call sets the status. -/
  | update (call : ℕ) (now : ℕ) (faults : Faults)
  /-- A call tells the Fleet Server, and returns. -/
  | dispatch (call : ℕ) (connect : Except String Unit)

namespace Control

variable (text : UuidText) (codec : JsonCodec) (jwt : Jwt) (enrollment_secret : Option String)
  (topic : String)

/-- No call made. -/
def init (now : ℕ) : Control := ⟨.init now, [], []⟩

/-- A call is made. -/
def call (s : Control) (command : NodeCommand) : Control :=
  { s with calls := s.calls ++ [⟨command, .called⟩] }

/-- The first step of a call. One that fails is all there is of it. -/
def update (s : Control) (i : ℕ) (now : ℕ) (faults : Faults) : Option Control :=
  match s.calls[i]? with
  | some ⟨command, .called⟩ =>
    let (result, tables) := update_operator_status text command.node_id
      (operatorStatus command.isolate) now faults s.server.tables
    let pc : CallPc :=
      match result with
      | .error e => .returned (.error e)
      | .ok res => .dispatching res
    some { s with
      server := { s.server with tables := tables }
      calls := s.calls.set i ⟨command, pc⟩ }
  | _ => none

/-- The second step. What the client returns is only logged. -/
def dispatch (s : Control) (i : ℕ) (connect : Except String Unit) : Option Control :=
  match s.calls[i]? with
  | some ⟨command, .dispatching res⟩ =>
    let s := { s with
      calls := s.calls.set i ⟨command, .returned (.ok res)⟩
      dispatched := s.dispatched ++ [command] }
    match send_isolate_command command connect with
    | .ok () => some s
    | .error _ => some s
  | _ => none

/-- **The control plane as a machine.** -/
def machine : Machine Control ControlAction where
  step s
    | .server a =>
      ((Server.machine text codec jwt enrollment_secret topic).step s.server a).map
        fun server => { s with server := server }
    | .isolate_node node_id reason => some (s.call (Backend.isolate_node node_id reason))
    | .unisolate_node node_id => some (s.call (Backend.unisolate_node node_id))
    | .update i now faults => s.update text i now faults
    | .dispatch i connect => s.dispatch i connect

variable {text codec jwt enrollment_secret topic} {s t : Control} {a : ControlAction}

/-! ## What a call does -/

/-- Where a call stands after its first step. -/
def afterUpdate (result : Except AppError IsolateNodeResponse) : CallPc :=
  match result with
  | .error e => .returned (.error e)
  | .ok res => .dispatching res

theorem update_eq_some {i now : ℕ} {faults : Faults} (ht : s.update text i now faults = some t) :
    ∃ command result tables, s.calls[i]? = some ⟨command, .called⟩ ∧
      update_operator_status text command.node_id (operatorStatus command.isolate) now faults
        s.server.tables = (result, tables) ∧
      t = { s with
        server := { s.server with tables := tables }
        calls := s.calls.set i ⟨command, afterUpdate result⟩ } := by
  unfold update at ht
  split at ht
  · next command hcall => exact ⟨command, _, _, hcall, rfl, (Option.some.inj ht).symm⟩
  · cases ht

theorem dispatch_eq_some {i : ℕ} {connect : Except String Unit}
    (ht : s.dispatch i connect = some t) :
    ∃ command res, s.calls[i]? = some ⟨command, .dispatching res⟩ ∧
      t = { s with
        calls := s.calls.set i ⟨command, .returned (.ok res)⟩
        dispatched := s.dispatched ++ [command] } := by
  unfold dispatch at ht
  split at ht
  · next command res hcall =>
    refine ⟨command, res, hcall, ?_⟩
    split at ht <;> exact (Option.some.inj ht).symm
  · cases ht

/-- The status of a node there is can be set, where nothing fails. -/
theorem update_of_mem {target_id : Uuid} {faults : Faults} {tables : Tables} (status : String)
    (now : ℕ) (hnode : target_id ∈ tables.nodes.map (·.node_id))
    (hfaults : ∀ stage, faults stage = none) : ∃ res tables',
      update_operator_status text target_id status now faults tables = (.ok res, tables') ∧
      target_id ∈ tables'.nodes.map (·.node_id) ∧
      (tables'.findNode target_id).map (·.operator_status) = some status := by
  obtain ⟨row, hrow, hid⟩ := List.mem_map.1 hnode
  have hsome : (tables.findNode target_id).isSome :=
    List.find?_isSome.2 ⟨row, hrow, by simpa using hid⟩
  obtain ⟨found, hfound⟩ := Option.isSome_iff_exists.1 hsome
  have hfoundId : found.node_id = target_id := by simpa using List.find?_some hfound
  -- the node is found again, with its new status
  have hnodes : (tables.updateNode target_id (Fleet.setOperatorStatus status)
      fun _ => ⟨rfl, rfl⟩).nodes =
        Tables.updated target_id (Fleet.setOperatorStatus status) tables.nodes := rfl
  have hafter : (tables.updateNode target_id (Fleet.setOperatorStatus status)
      fun _ => ⟨rfl, rfl⟩).findNode target_id = some (Fleet.setOperatorStatus status found) := by
    rw [findNode_updated hnodes fun _ => rfl, hfound, Option.map_some, if_pos hfoundId]
  have hupdate : update_operator_status text target_id status now faults tables =
      (.ok ⟨found.node_id, status, true, now⟩,
        tables.updateNode target_id (Fleet.setOperatorStatus status) fun _ => ⟨rfl, rfl⟩) := by
    unfold update_operator_status
    rw [hfaults, hfaults]
    dsimp only
    rw [hafter]
    rfl
  refine ⟨_, _, hupdate, ?_, by rw [hafter]; rfl⟩
  rw [hnodes, Fleet.map_node_id_setOperatorStatus]
  exact hnode

/-! ## Calls for one node that overlap -/

/-- Calls that are made, none of which has taken a step. -/
def start (server : Server) (commands : List NodeCommand) : Control :=
  ⟨server, commands.map fun command => ⟨command, .called⟩, []⟩

/-- The calls that set the status, in the order in which they do. -/
def updates (l : List ControlAction) : List ℕ :=
  l.filterMap fun
    | .update i _ _ => some i
    | _ => none

/-- The calls that tell the Fleet Server, in the order in which they do. -/
def dispatches (l : List ControlAction) : List ℕ :=
  l.filterMap fun
    | .dispatch i _ => some i
    | _ => none

/-- A step of a call that goes through. -/
def Succeeds : ControlAction → Prop
  | .update _ _ faults => ∀ stage, faults stage = none
  | .dispatch _ connect => connect = .ok ()
  | _ => False

/-- **The last command agrees with the record.** -/
def CommandsAgree (node_id : Uuid) (s : Control) : Prop :=
  ∀ command, s.dispatched.getLast? = some command →
    (s.server.tables.findNode node_id).map (·.operator_status) =
      some (operatorStatus command.isolate)

/-- **What the calls have come to** after some steps: the status is that of
the last to set it, and the last command that of the last to send one. -/
structure After (node_id : Uuid) (commands : List NodeCommand) (l : List ControlAction)
    (s : Control) : Prop where
  made : s.calls.map (·.command) = commands
  node : node_id ∈ s.server.tables.nodes.map (·.node_id)
  status : ∀ i, (updates l).getLast? = some i → ∃ command, commands[i]? = some command ∧
    (s.server.tables.findNode node_id).map (·.operator_status) =
      some (operatorStatus command.isolate)
  last : ∀ i, (dispatches l).getLast? = some i → ∃ command, commands[i]? = some command ∧
    s.dispatched.getLast? = some command
  silent : dispatches l = [] → s.dispatched = []
  /-- No call sends a command before it has set the status. -/
  begun : updates l = [] → dispatches l = [] ∧ ∀ c ∈ s.calls, c.pc = .called

theorem operatorStatus_inj {b b' : Bool} : operatorStatus b = operatorStatus b' ↔ b = b' := by
  cases b <;> cases b' <;> decide

theorem after_start {server : Server} {node_id : Uuid} {commands : List NodeCommand}
    (hnode : node_id ∈ server.tables.nodes.map (·.node_id)) :
    After node_id commands [] (start server commands) where
  made := by
    show (commands.map fun command => (⟨command, .called⟩ : NodeCall)).map (·.command) = commands
    rw [List.map_map]
    exact List.map_id commands
  node := hnode
  status i h := by cases h
  last i h := by cases h
  silent _ := rfl
  begun _ := by
    refine ⟨rfl, fun c hc => ?_⟩
    obtain ⟨command, -, rfl⟩ := List.mem_map.1 hc
    rfl

/-- The command of a call is the one it was made with. -/
theorem After.getElem? {node_id : Uuid} {commands : List NodeCommand} {l : List ControlAction}
    (h : After node_id commands l s) {i : ℕ} {c : NodeCall} (hc : s.calls[i]? = some c) :
    commands[i]? = some c.command := by
  rw [← h.made, List.getElem?_map, hc]
  rfl

/-- A step of a call leaves the commands alone. -/
theorem map_command_set {calls : List NodeCall} {i : ℕ} {command : NodeCommand} {pc pc' : CallPc}
    (hcall : calls[i]? = some ⟨command, pc⟩) :
    (calls.set i ⟨command, pc'⟩).map (·.command) = calls.map (·.command) :=
  Calls.map_set hcall rfl

theorem updates_concat (l : List ControlAction) (a : ControlAction) :
    updates (l ++ [a]) = updates l ++ updates [a] := List.filterMap_append ..

theorem dispatches_concat (l : List ControlAction) (a : ControlAction) :
    dispatches (l ++ [a]) = dispatches l ++ dispatches [a] := List.filterMap_append ..

/-- **One more step.** -/
theorem After.step {node_id : Uuid} {commands : List NodeCommand} {l : List ControlAction}
    (h : After node_id commands l s) (hnode : ∀ command ∈ commands, command.node_id = node_id)
    (ha : Succeeds a) (ht : (machine text codec jwt enrollment_secret topic).step s a = some t) :
    After node_id commands (l ++ [a]) t := by
  cases a with
  | server _ | isolate_node _ _ | unisolate_node _ => exact ha.elim
  | update i now faults =>
    obtain ⟨command, result, tables, hcall, hupdate, rfl⟩ := update_eq_some ht
    have hcommand := h.getElem? hcall
    obtain rfl : command.node_id = node_id := hnode _ (List.mem_of_getElem? hcommand)
    -- the node is there, so the update goes through
    obtain ⟨res, tables', hsucceeds, hmem, hstatus⟩ :=
      update_of_mem (operatorStatus command.isolate) now h.node ha
    obtain ⟨rfl, rfl⟩ := Prod.mk.inj (hupdate.symm.trans hsucceeds)
    have hupdates : updates (l ++ [.update i now faults]) = updates l ++ [i] := updates_concat ..
    have hdispatches : dispatches (l ++ [.update i now faults]) = dispatches l := by
      rw [dispatches_concat]
      exact List.append_nil _
    refine ⟨(map_command_set hcall).trans h.made, hmem, fun j hj => ?_, ?_, ?_, fun hempty => ?_⟩
    · rw [hupdates, List.getLast?_concat] at hj
      obtain rfl := Option.some.inj hj
      exact ⟨command, hcommand, hstatus⟩
    · rw [hdispatches]
      exact h.last
    · rw [hdispatches]
      exact h.silent
    · rw [hupdates] at hempty
      exact absurd hempty (List.append_ne_nil_of_right_ne_nil _ (List.cons_ne_nil _ _))
  | dispatch i connect =>
    obtain ⟨command, res, hcall, rfl⟩ := dispatch_eq_some ht
    have hupdates : updates (l ++ [.dispatch i connect]) = updates l := by
      rw [updates_concat]
      exact List.append_nil _
    have hdispatches : dispatches (l ++ [.dispatch i connect]) = dispatches l ++ [i] :=
      dispatches_concat ..
    refine ⟨(map_command_set hcall).trans h.made, h.node, ?_, fun j hj => ?_, fun hempty => ?_,
      fun hempty => ?_⟩
    · rw [hupdates]
      exact h.status
    · rw [hdispatches, List.getLast?_concat] at hj
      obtain rfl := Option.some.inj hj
      exact ⟨command, h.getElem? hcall, List.getLast?_concat⟩
    · rw [hdispatches] at hempty
      exact absurd hempty (List.append_ne_nil_of_right_ne_nil _ (List.cons_ne_nil _ _))
    · -- a call that dispatches has set the status
      rw [hupdates] at hempty
      have hcalled := (h.begun hempty).2 _ (List.mem_of_getElem? hcall)
      cases hcalled

theorem After.run {node_id : Uuid} {commands : List NodeCommand} {l l' : List ControlAction}
    (h : After node_id commands l s) (hnode : ∀ command ∈ commands, command.node_id = node_id)
    (hl' : ∀ a ∈ l', Succeeds a)
    (ht : (machine text codec jwt enrollment_secret topic).run s l' = some t) :
    After node_id commands (l ++ l') t := by
  induction l' generalizing s l with
  | nil =>
    obtain rfl := Option.some.inj ht
    rwa [List.append_nil]
  | cons a l' ih =>
    obtain ⟨u, hu, hrun⟩ := Machine.run_cons_eq_some.1 ht
    obtain ⟨ha, hl'⟩ := List.forall_mem_cons.1 hl'
    have hafter := ih (h.step hnode ha hu) hl' hrun
    rwa [List.append_assoc] at hafter

/-- **When the last command agrees with the record**: of calls for one node
whose steps all go through, in whatever order these are taken, exactly when
the call that sets the status last and the call that tells the Fleet Server
last ask for the same. -/
theorem commandsAgree_iff (text : UuidText) (codec : JsonCodec) (jwt : Jwt)
    (enrollment_secret : Option String) (topic : String) (server : Server) (node_id : Uuid)
    (commands : List NodeCommand) (l : List ControlAction) (u : Control)
    (hnode : node_id ∈ server.tables.nodes.map (·.node_id))
    (hcommands : ∀ command ∈ commands, command.node_id = node_id) (hl : ∀ a ∈ l, Succeeds a)
    (hrun : (machine text codec jwt enrollment_secret topic).run (start server commands) l =
      some u) :
    CommandsAgree node_id u ↔ ∀ i j, (updates l).getLast? = some i →
      (dispatches l).getLast? = some j →
        commands[i]?.map (·.isolate) = commands[j]?.map (·.isolate) := by
  have hafter : After node_id commands l u := (after_start hnode).run hcommands hl hrun
  constructor
  · intro hagree i j hi hj
    obtain ⟨updated, hupdated, hstatus⟩ := hafter.status i hi
    obtain ⟨dispatched, hdispatched, hlast⟩ := hafter.last j hj
    have hsame := hagree dispatched hlast
    rw [hstatus, Option.some.injEq, operatorStatus_inj] at hsame
    rw [hupdated, hdispatched, Option.map_some, Option.map_some, hsame]
  · intro hsame command hlast
    -- a command was sent, so some call was the last to send one, and some the last to set the
    -- status
    cases hj : (dispatches l).getLast? with
    | none =>
      rw [hafter.silent (List.getLast?_eq_none_iff.1 hj)] at hlast
      cases hlast
    | some j =>
      obtain ⟨dispatched, hdispatched, hlast'⟩ := hafter.last j hj
      obtain rfl := Option.some.inj (hlast.symm.trans hlast')
      cases hi : (updates l).getLast? with
      | none =>
        rw [(hafter.begun (List.getLast?_eq_none_iff.1 hi)).1] at hj
        cases hj
      | some i =>
        obtain ⟨updated, hupdated, hstatus⟩ := hafter.status i hi
        have hkinds := hsame i j hi hj
        rw [hupdated, hdispatched, Option.map_some, Option.map_some, Option.some.injEq] at hkinds
        rw [hstatus, hkinds]

/-! ## Two calls -/

/-- A registry of one node. -/
def oneNode : Tables :=
  { Tables.empty with
    nodes := [⟨⟨1⟩, "m1", "a", "linux", "1", "healthy", "active", 0, 0⟩]
    node_id_primary := List.nodup_singleton _
    machine_id_unique := List.nodup_singleton _
    event_references := fun _ h => (List.not_mem_nil h).elim
    health_references := fun _ h => (List.not_mem_nil h).elim }

/-- The Fleet Server with this registry. -/
def oneNodeServer : Server := { Server.init 0 with tables := oneNode }

/-- One operator isolates the node, and another lifts that. -/
def twoCommands : List NodeCommand := [isolate_node ⟨1⟩ none, unisolate_node ⟨1⟩]

/-- A step of the status, where nothing fails. -/
def updateOf (i : ℕ) : ControlAction := .update i 0 fun _ => none

/-- A step to the Fleet Server, where nothing fails. -/
def dispatchOf (i : ℕ) : ControlAction := .dispatch i (.ok ())

/-- **The node is isolated and its status is not**: the first call sets the
status first and sends its command last. -/
theorem not_commandsAgree_crossed : ∃ u,
    (machine .standard JsonText.codec Server.twoTokens none "agents_events").run
      (start oneNodeServer twoCommands) [updateOf 0, updateOf 1, dispatchOf 1, dispatchOf 0] =
        some u ∧ (∀ c ∈ u.calls, c.done) ∧ ¬CommandsAgree ⟨1⟩ u := by
  have hrun : ((machine .standard JsonText.codec Server.twoTokens none "agents_events").run
      (start oneNodeServer twoCommands) [updateOf 0, updateOf 1, dispatchOf 1, dispatchOf 0]).map
        (fun u => (u.calls.all NodeCall.done, u.dispatched.getLast?,
          (u.server.tables.findNode ⟨1⟩).map (·.operator_status))) =
      some (true, some (isolate_node ⟨1⟩ none), some "active") := rfl
  obtain ⟨u, hu, hfields⟩ := Option.map_eq_some_iff.1 hrun
  obtain ⟨hdone, hfields⟩ := Prod.mk.inj hfields
  obtain ⟨hlast, hstatus⟩ := Prod.mk.inj hfields
  refine ⟨u, hu, List.all_eq_true.1 hdone, fun hagree => ?_⟩
  have hisolated := hagree _ hlast
  rw [hstatus] at hisolated
  exact absurd hisolated (by decide)

/-- Calls that do not overlap agree with the record. -/
theorem commandsAgree_inTurn : ∃ u,
    (machine .standard JsonText.codec Server.twoTokens none "agents_events").run
      (start oneNodeServer twoCommands) [updateOf 0, dispatchOf 0, updateOf 1, dispatchOf 1] =
        some u ∧ CommandsAgree ⟨1⟩ u := by
  obtain ⟨u, hu⟩ : ∃ u,
      (machine .standard JsonText.codec Server.twoTokens none "agents_events").run
        (start oneNodeServer twoCommands) [updateOf 0, dispatchOf 0, updateOf 1, dispatchOf 1] =
          some u := ⟨_, rfl⟩
  have hsteps : ∀ a ∈ [updateOf 0, dispatchOf 0, updateOf 1, dispatchOf 1], Succeeds a := by
    intro a ha
    simp only [List.mem_cons, List.not_mem_nil, or_false] at ha
    rcases ha with rfl | rfl | rfl | rfl
    · exact fun _ => rfl
    · rfl
    · exact fun _ => rfl
    · rfl
  refine ⟨u, hu, (commandsAgree_iff .standard JsonText.codec Server.twoTokens none "agents_events"
    oneNodeServer ⟨1⟩ twoCommands _ u (List.mem_singleton_self _) (by decide) hsteps hu).2 ?_⟩
  intro i j hi hj
  cases hi
  cases hj
  rfl

end Control

end Backend

end AigisZero
