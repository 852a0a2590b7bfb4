import Mathlib.Data.Int.Notation
import Mathlib.Data.Finmap

/-!
# Query results

What osquery answers the agent, and the form in which the agent passes it
on.
-/

namespace AigisZero.Agent

/-- A scheduled query. -/
structure ScheduledQuery where
  name : String
  query : String
  interval_secs : ℕ
  snapshot : Bool
deriving DecidableEq, Repr

/-- A row: the value of each column. -/
abbrev OsqueryRow := Finmap fun _ : String => String

/-- The status of a response, `0` for success. -/
structure QueryStatus where
  code : ℤ
  message : String
deriving DecidableEq, Repr

/-- A response to a query. -/
structure QueryResponse where
  status : QueryStatus
  rows : List OsqueryRow

/-- A column of a row, as it is passed on. -/
structure ColumnEntry where
  name : String
  value : String
deriving DecidableEq, Repr

/-- A row, as it is passed on. -/
structure OsqueryResultRow where
  columns : List ColumnEntry
deriving DecidableEq, Repr

/-- Whether a result is all there is, or what came or went. -/
inductive ResultAction where
  | Snapshot
  | Added
  | Removed
deriving DecidableEq, Repr

/-- `ResultAction::as_str`. -/
def ResultAction.as_str : ResultAction → String
  | Snapshot => "SNAPSHOT"
  | Added => "ADDED"
  | Removed => "REMOVED"

/-- The result of a query, as it is passed on. -/
structure OsqueryResult where
  query_name : String
  agent_uuid : String
  timestamp_ns : Int64
  rows : List OsqueryResultRow
  action : ResultAction
deriving DecidableEq, Repr

end AigisZero.Agent
