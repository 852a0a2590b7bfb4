import AigisZero.RuleEngine.Transform

/-!
# The scanner

What the rule engine does with one event: the rule set of its category,
the text of its fields as one buffer, and an alert for each rule that
matches the buffer.
-/

namespace AigisZero.RuleEngine

/-- The fields of an object that are scanned, in their order. -/
def scannableKeys : List String :=
  ["cmdline", "cmd", "command_line", "path", "target_path", "parent_path", "cwd", "name",
    "remote_address", "local_address", "user", "description", "args", "syscall", "action"]

/-- A text as a line of the buffer. -/
def line (val : String) : Bytes := utf8 val ++ [10]

/-- The line of a member, where it is a string. -/
def lineOf : Option Json → Bytes
  | some (.str val) => line val
  | _ => []

/-- `scan_object`. -/
def scan_object (obj : List (String × Json)) : Bytes :=
  scannableKeys.flatMap fun key => lineOf (Fields.lookup key obj)

/-- The lines of the columns of a row. -/
def scanColumn (col : Json) : Bytes :=
  match col with
  | .obj fields => lineOf (Fields.lookup "value" fields)
  | _ => []

/-- The lines of a row: its own fields, then its columns. -/
def scanRow (row : Json) : Bytes :=
  match row with
  | .obj fields =>
    scan_object fields ++
      (((Fields.lookup "columns" fields).bind Json.asArray?).getD []).flatMap scanColumn
  | _ => []

/-- The lines of a payload. -/
def scanPayload (payload : Json) : Bytes :=
  match payload with
  | .obj fields =>
    scan_object fields ++
      (((Fields.lookup "rows" fields).bind Json.asArray?).getD []).flatMap scanRow
  | _ => []

/-- `extract_scannable_buffer`: the lines of the payload, or its whole
text where it has none. -/
def extract_scannable_buffer (codec : JsonCodec) (event : TelemetryEvent) : Bytes :=
  let buffer := scanPayload event.payload
  -- nothing that is scanned as such: the whole payload is, as its text
  if buffer.isEmpty then codec.toVec event.payload else buffer

/-- The category of a query name, for events that only say `osquery`. -/
def queryCategory (qn : String) : String :=
  match qn with
  | "running_processes" | "processes" => "process"
  | "listening_ports" | "network" => "network"
  | "users" => "auth"
  | _ => "custom"

/-- The category of an event: what chooses its rule set. -/
def category (event : TelemetryEvent) : String :=
  match event.event_type with
  | "process" | "processes" | "running_processes" | "process_start" | "process_end"
  | "process_events" | "bpf_process_events" | "osquery_result" | "osquery_snapshot" => "process"
  | "network" | "listening_ports" | "network_connect" | "network_listen" | "socket_events"
  | "bpf_socket_events" => "network"
  | "file" | "file_create" | "file_modify" | "file_delete" | "file_events" => "file"
  | "auth" | "users" | "user_login" | "user_logout" | "logged_in_users" => "auth"
  | "custom" => "custom"
  | "osquery" =>
    (((event.payload.get? "query_name").bind Json.asStr?).map queryCategory).getD "custom"
  | other => other

/-- The categories of the typed topics. -/
def typedCategories : List String := ["process", "network", "file", "auth"]

/-- An event that says its category is of that category. -/
theorem category_of_mem {event : TelemetryEvent} (h : event.event_type ∈ typedCategories) :
    category event = event.event_type := by
  simp only [typedCategories, List.mem_cons, List.not_mem_nil, or_false] at h
  unfold category
  rcases h with h | h | h | h <;> simp only [h]

/-- The rule sets, by category, and the taxonomy. -/
structure EngineRegistry where
  rule_sets : String → Option Rules
  mitre : MitreTaxonomy

variable (codec : JsonCodec) (yara : YaraX)

/-- What an event is scanned with: the rules of its category and its
buffer, where there are both. -/
def EngineRegistry.scanned (current : EngineRegistry) (event : TelemetryEvent) :
    Option (Rules × Bytes) :=
  match current.rule_sets (category event) with
  | none => none
  | some rules =>
    let scan_buffer := extract_scannable_buffer codec event
    if scan_buffer.isEmpty then none else some (rules, scan_buffer)

/-- The rules an event matches, in the order the scanner gives them. -/
def EngineRegistry.matching (current : EngineRegistry) (event : TelemetryEvent) :
    Except AppError (List Rule) :=
  match current.scanned codec event with
  | none => .ok []
  | some (rules, scan_buffer) =>
    (yara.scan rules scan_buffer).mapError fun e => .scanFailure event.id e

/-- `YaraScannerEngine::evaluate`. -/
def evaluate (current : EngineRegistry) (event : TelemetryEvent) (draw : ℕ → AlertDraw) :
    Except AppError (List Alert) :=
  (current.matching codec yara event).map fun matched =>
    matched.mapIdx fun i rule => build_alert event rule current.mitre (draw i)

variable {codec yara}

/-- What each element contributes is a stretch of the whole. -/
theorem infix_flatMap {α : Type} (f : α → Bytes) {a : α} {l : List α} (h : a ∈ l) :
    f a <:+: l.flatMap f := by
  rw [List.flatMap_def]
  exact List.infix_of_mem_flatten (List.mem_map_of_mem h)

/-- The line of the value of a column is a stretch of its row's. -/
theorem line_infix_scanRow {row col : List (String × Json)} {columns : List Json} {val : String}
    (hcolumns : Fields.lookup "columns" row = some (.arr columns)) (hcol : Json.obj col ∈ columns)
    (hval : Fields.lookup "value" col = some (.str val)) :
    line val <:+: scanRow (.obj row) := by
  have hline : scanColumn (.obj col) = line val := by rw [scanColumn, hval, lineOf]
  have hinfix : line val <:+: columns.flatMap scanColumn := hline ▸ infix_flatMap scanColumn hcol
  rw [scanRow, hcolumns]
  exact hinfix.trans (List.suffix_append _ _).isInfix

/-- The lines of a row are a stretch of the payload's. -/
theorem scanRow_infix_scanPayload {payload : List (String × Json)} {row : Json} {rows : List Json}
    (hrows : Fields.lookup "rows" payload = some (.arr rows)) (hrow : row ∈ rows) :
    scanRow row <:+: scanPayload (.obj payload) := by
  have hinfix : scanRow row <:+: rows.flatMap scanRow :=
    infix_flatMap scanRow hrow
  rw [scanPayload, hrows]
  exact hinfix.trans (List.suffix_append _ _).isInfix

/-- A payload with a scannable field has lines of its own. -/
theorem scanPayload_ne_nil {payload : List (String × Json)} {key val : String}
    (hkey : key ∈ scannableKeys) (hval : Fields.lookup key payload = some (.str val)) :
    scanPayload (.obj payload) ≠ [] := by
  have hline : line val <:+: scan_object payload := by
    have hinfix : lineOf (Fields.lookup key payload) <:+: scan_object payload :=
      infix_flatMap (fun key => lineOf (Fields.lookup key payload)) hkey
    rwa [hval] at hinfix
  -- the line of the field is not empty, and it is part of the whole
  intro hnil
  have hobj : scan_object payload = [] := (List.append_eq_nil_iff.1 hnil).1
  rw [hobj] at hline
  have hempty := List.infix_nil.1 hline
  simp [line] at hempty

/-- The buffer of an event whose payload has lines is these lines. -/
theorem extract_of_ne_nil {event : TelemetryEvent} (h : scanPayload event.payload ≠ []) :
    extract_scannable_buffer codec event = scanPayload event.payload := by
  unfold extract_scannable_buffer
  rw [if_neg (by simpa using h)]

/-- An event of a category with rules is scanned with just these. -/
theorem scanned_of_ne_nil {current : EngineRegistry} {event : TelemetryEvent}
    (h : scanPayload event.payload ≠ []) :
    current.scanned codec event =
      (current.rule_sets (category event)).map fun rules => (rules, scanPayload event.payload) := by
  unfold EngineRegistry.scanned
  rw [extract_of_ne_nil h]
  cases current.rule_sets (category event) with
  | none => rfl
  | some rules => exact if_neg (by simpa using h)

end AigisZero.RuleEngine
