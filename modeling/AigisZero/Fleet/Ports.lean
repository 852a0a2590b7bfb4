import Mathlib.Data.Int.Notation
import AigisZero.Library.Utf8

/-!
# The ports of the Fleet Server

The records the gRPC boundary hands to enrollment, health tracking and
event ingest, and the status it answers with.
-/

namespace AigisZero.Fleet

/-- The status codes the server answers with. -/
inductive Code where
  | internal
  | unauthenticated
deriving DecidableEq, Repr

/-- A gRPC status: a code and its message. -/
structure Status where
  code : Code
  message : String
deriving DecidableEq, Repr

/-- A registration request. -/
structure AgentRegistration where
  hostname : String
  os_version : String
  agent_version : String
  machine_id : String
deriving DecidableEq, Repr

/-- What an enrollment answers. -/
structure RegistrationResult where
  node_id : String
  token : String
deriving DecidableEq, Repr

/-- A heartbeat. -/
structure AgentHeartbeat where
  node_id : String
  status : String
  events_buffered : Int64
deriving DecidableEq, Repr

/-- An event as the agent sent it. -/
structure IncomingEvent where
  node_id : String
  event_type : String
  payload : Bytes
  timestamp_ns : Int64
  sequence_id : String
deriving DecidableEq, Repr

/-- A command for the agent. -/
inductive OutgoingCommand where
  | ack (sequence_id : String)
deriving DecidableEq, Repr

end AigisZero.Fleet
