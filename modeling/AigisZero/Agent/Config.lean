import AigisZero.Library.Toml
import AigisZero.Library.Uuid

/-!
# The configuration of the agent

The records of the agent's configuration and how they are read from a TOML
document. Fields that are not known are passed over, and all that are known
are required but three.
-/

namespace AigisZero.Agent.Config

open Toml

structure AgentServerSection where
  bind_addr : String
  port : UInt16
deriving DecidableEq, Repr

/-- Agent identity and runtime settings. -/
structure AgentSection where
  /-- `none` while not yet enrolled. -/
  node_id : Option Uuid
  name : String
  log_level : String
  log_format : String
  log_dir : String
  data_dir : String
  event_buffer_db : String
  event_buffer_max : UInt64
  event_drain_batch : UInt32
  event_drain_interval_secs : UInt64
  server : AgentServerSection
deriving DecidableEq, Repr

/-- OSQuery daemon configuration. -/
structure OsquerySection where
  socket_path : String
  conf_path : String
  flags_path : String
  pid_file : String
  log_path : String
  connect_timeout_secs : UInt64
  query_timeout_secs : UInt64
deriving DecidableEq, Repr

/-- Fleet server connection settings. -/
structure FleetSection where
  host : String
  port : UInt16
  endpoint : String
  enrollment_secret : String
  tls_ca_cert : String
  tls_client_cert : Option String
  tls_client_key : Option String
  heartbeat_interval_secs : UInt64
  reconnect_interval_secs : UInt64
  max_reconnect_attempts : UInt32
deriving DecidableEq, Repr

structure IsolationSection where
  enabled : Bool
  fleet_ip : String
  fleet_port : UInt16
deriving DecidableEq, Repr

/-- Root agent configuration. -/
structure AgentConfig where
  agent : AgentSection
  osquery : OsquerySection
  fleet : FleetSection
  isolation : IsolationSection
deriving DecidableEq, Repr

/-- The configuration with another node id. -/
def AgentConfig.withNodeId (node_id : Option Uuid) (config : AgentConfig) : AgentConfig :=
  { config with agent := { config.agent with node_id := node_id } }

/-! ## Reading -/

def readString : Option Found → Option String
  | some (.value (.str s)) => some (String.ofList s)
  | _ => none

def readBool : Option Found → Option Bool
  | some (.value (.bool b)) => some b
  | _ => none

/-- A number below a size. -/
def readBelow (size : ℕ) : Option Found → Option ℕ
  | some (.value (.int n)) => if 0 ≤ n ∧ n < size then some n.toNat else none
  | _ => none

def readU16 (found : Option Found) : Option UInt16 := (readBelow UInt16.size found).map UInt16.ofNat
def readU32 (found : Option Found) : Option UInt32 := (readBelow UInt32.size found).map UInt32.ofNat
def readU64 (found : Option Found) : Option UInt64 := (readBelow UInt64.size found).map UInt64.ofNat

def readUuid (found : Option Found) : Option Uuid :=
  (readString found).bind fun s => (Uuid.parseStr s).toOption

/-- What is absent is `none`. -/
def readOption {α : Type} (read : Option Found → Option α) : Option Found → Option (Option α)
  | none => some none
  | some found => (read (some found)).map some

def field (name : String) (position : ℕ) : Field := ⟨name.toList, position⟩

/-- What is at a field. -/
abbrev Look := List Field → Option Found

def AgentServerSection.read (look : Look) : Option AgentServerSection := do
  let at_ := fun name position => look [field "agent" 0, field "server" 10, field name position]
  let bind_addr ← readString (at_ "bind_addr" 0)
  let port ← readU16 (at_ "port" 1)
  return ⟨bind_addr, port⟩

/-- The section, once its node id is read. -/
def AgentSection.read (look : Look) (node_id : Option Uuid) : Option AgentSection := do
  let at_ := fun name position => look [field "agent" 0, field name position]
  let name ← readString (at_ "name" 1)
  let log_level ← readString (at_ "log_level" 2)
  let log_format ← readString (at_ "log_format" 3)
  let log_dir ← readString (at_ "log_dir" 4)
  let data_dir ← readString (at_ "data_dir" 5)
  let event_buffer_db ← readString (at_ "event_buffer_db" 6)
  let event_buffer_max ← readU64 (at_ "event_buffer_max" 7)
  let event_drain_batch ← readU32 (at_ "event_drain_batch" 8)
  let event_drain_interval_secs ← readU64 (at_ "event_drain_interval_secs" 9)
  let server ← AgentServerSection.read look
  return ⟨node_id, name, log_level, log_format, log_dir, data_dir, event_buffer_db,
    event_buffer_max, event_drain_batch, event_drain_interval_secs, server⟩

def OsquerySection.read (look : Look) : Option OsquerySection := do
  let at_ := fun name position => look [field "osquery" 1, field name position]
  let socket_path ← readString (at_ "socket_path" 0)
  let conf_path ← readString (at_ "conf_path" 1)
  let flags_path ← readString (at_ "flags_path" 2)
  let pid_file ← readString (at_ "pid_file" 3)
  let log_path ← readString (at_ "log_path" 4)
  let connect_timeout_secs ← readU64 (at_ "connect_timeout_secs" 5)
  let query_timeout_secs ← readU64 (at_ "query_timeout_secs" 6)
  return ⟨socket_path, conf_path, flags_path, pid_file, log_path, connect_timeout_secs,
    query_timeout_secs⟩

def FleetSection.read (look : Look) : Option FleetSection := do
  let at_ := fun name position => look [field "fleet" 2, field name position]
  let host ← readString (at_ "host" 0)
  let port ← readU16 (at_ "port" 1)
  let endpoint ← readString (at_ "endpoint" 2)
  let enrollment_secret ← readString (at_ "enrollment_secret" 3)
  let tls_ca_cert ← readString (at_ "tls_ca_cert" 4)
  let tls_client_cert ← readOption readString (at_ "tls_client_cert" 5)
  let tls_client_key ← readOption readString (at_ "tls_client_key" 6)
  let heartbeat_interval_secs ← readU64 (at_ "heartbeat_interval_secs" 7)
  let reconnect_interval_secs ← readU64 (at_ "reconnect_interval_secs" 8)
  let max_reconnect_attempts ← readU32 (at_ "max_reconnect_attempts" 9)
  return ⟨host, port, endpoint, enrollment_secret, tls_ca_cert, tls_client_cert, tls_client_key,
    heartbeat_interval_secs, reconnect_interval_secs, max_reconnect_attempts⟩

def IsolationSection.read (look : Look) : Option IsolationSection := do
  let at_ := fun name position => look [field "isolation" 3, field name position]
  let enabled ← readBool (at_ "enabled" 0)
  let fleet_ip ← readString (at_ "fleet_ip" 1)
  let fleet_port ← readU16 (at_ "fleet_port" 2)
  return ⟨enabled, fleet_ip, fleet_port⟩

/-- The fields of the node id. -/
def nodeIdFields : List Field := [field "agent" 0, field "node_id" 0]

/-- All but the node id. -/
def AgentConfig.readOthers (look : Look) : Option AgentConfig := do
  let agent ← AgentSection.read look none
  let osquery ← OsquerySection.read look
  let fleet ← FleetSection.read look
  let isolation ← IsolationSection.read look
  return ⟨agent, osquery, fleet, isolation⟩

def AgentConfig.read (look : Look) : Option AgentConfig := do
  let node_id ← readOption readUuid (look nodeIdFields)
  let agent ← AgentSection.read look node_id
  let osquery ← OsquerySection.read look
  let fleet ← FleetSection.read look
  let isolation ← IsolationSection.read look
  return ⟨agent, osquery, fleet, isolation⟩

/-! ## The node id and the others -/

theorem AgentSection.read_node_id (look : Look) (node_id : Option Uuid) :
    AgentSection.read look node_id =
      (AgentSection.read look none).map fun agent => { agent with node_id := node_id } := by
  simp only [AgentSection.read, Option.bind_eq_bind, Option.map_bind, Option.pure_def,
    Option.map_some, Function.comp_def]

/-- **The node id is read apart from the others.** -/
theorem AgentConfig.read_eq (look : Look) :
    AgentConfig.read look = (readOption readUuid (look nodeIdFields)).bind fun node_id =>
      (AgentConfig.readOthers look).map (AgentConfig.withNodeId node_id) := by
  simp only [AgentConfig.read, AgentConfig.readOthers, Option.bind_eq_bind, Option.map_bind,
    Option.pure_def, Option.map_some, Function.comp_def, AgentConfig.withNodeId]
  refine congrArg (Option.bind (readOption readUuid (look nodeIdFields))) (funext fun node_id => ?_)
  rw [AgentSection.read_node_id, Option.bind_map]
  rfl

/-- The others are not below the node id. -/
theorem AgentConfig.readOthers_congr {look look' : Look}
    (h : ∀ ks : List Field, ¬ nodeIdFields.map Field.name <+: ks.map Field.name →
      look ks = look' ks) :
    AgentConfig.readOthers look = AgentConfig.readOthers look' := by
  have hagent : AgentSection.read look none = AgentSection.read look' none := by
    simp (disch := decide) only [AgentSection.read, AgentServerSection.read, h]
  have hosquery : OsquerySection.read look = OsquerySection.read look' := by
    simp (disch := decide) only [OsquerySection.read, h]
  have hfleet : FleetSection.read look = FleetSection.read look' := by
    simp (disch := decide) only [FleetSection.read, h]
  have hisolation : IsolationSection.read look = IsolationSection.read look' := by
    simp (disch := decide) only [IsolationSection.read, h]
  unfold AgentConfig.readOthers
  rw [hagent, hosquery, hfleet, hisolation]

end AigisZero.Agent.Config
