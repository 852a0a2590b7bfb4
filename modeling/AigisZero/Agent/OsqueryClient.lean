import AigisZero.Agent.Isolation
import AigisZero.Agent.Types
import AigisZero.Library.Thrift

/-!
# The osquery client

A query is one message to the socket of osquery and one message back. The
answer comes in pieces. After each the client parses all it has from the
start: an error that reads like the end of a file means there is more to
come, and anything else is the outcome.
-/

namespace AigisZero.Agent

open Thrift Reader

/-! ## Reading a response -/

variable {σ : Type}

/-- The loop over the fields of a struct: `on_field` reads the value of a
field that is not the end of them. -/
def readField (P : TInputProtocol) (on_field : TFieldIdentifier → σ → Reader Failure σ) (s : σ) :
    Reader Failure (σ ⊕ σ) := do
  let field ← P.read_field_begin
  if field.field_type = .Stop then
    pure (.inr s)
  else
    let s ← on_field field s
    P.read_field_end
    pure (.inl s)

/-- A struct: its beginning, its fields and its end. -/
def readStruct (P : TInputProtocol) (on_field : TFieldIdentifier → σ → Reader Failure σ) (s : σ) :
    Reader Failure σ := do
  P.read_struct_begin
  let s ← forever (readField P on_field) s
  P.read_struct_end
  pure s

/-- The value of a field of no interest. -/
def skipField (P : TInputProtocol) (field : TFieldIdentifier) (s : σ) : Reader Failure σ := do
  P.skip field.field_type
  pure s

/-- A field of `ExtensionStatus`. -/
def st_field (P : TInputProtocol) (field : TFieldIdentifier) (status : QueryStatus) :
    Reader Failure QueryStatus :=
  match field.id with
  | some 1 => do
    let code ← P.read_i32
    pure { status with code }
  | some 2 => do
    let message ← P.read_string
    pure { status with message }
  | _ => skipField P field status

/-- A column of a row. -/
def readEntry (P : TInputProtocol) (row : OsqueryRow) : Reader Failure OsqueryRow := do
  let k ← P.read_string
  let v ← P.read_string
  pure (row.insert k v)

/-- A row, added to those there are. -/
def readRow (P : TInputProtocol) (rows : List OsqueryRow) : Reader Failure (List OsqueryRow) := do
  let map_ident ← P.read_map_begin
  let row ← times map_ident.size.toNat (readEntry P) ∅
  P.read_map_end
  pure (rows ++ [row])

/-- A field of `ExtensionResponse`. -/
def res_field (P : TInputProtocol) (field : TFieldIdentifier) (resp : QueryResponse) :
    Reader Failure QueryResponse :=
  match field.id with
  | some 1 => do
    let status ← readStruct P (st_field P) resp.status
    pure { resp with status }
  | some 2 => do
    let list_ident ← P.read_list_begin
    let rows ← times list_ident.size.toNat (readRow P) resp.rows
    P.read_list_end
    pure { resp with rows }
  | _ => skipField P field resp

/-- A field of the result: the answer stands in the struct under `0`. -/
def result_field (P : TInputProtocol) (field : TFieldIdentifier) (resp : QueryResponse) :
    Reader Failure QueryResponse :=
  if field.id = some 0 ∧ field.field_type = .Struct then
    readStruct P (res_field P) resp
  else
    skipField P field resp

/-- `OsqueryClient::parse_query_response`. -/
def parse_query_response (P : TInputProtocol) : Reader Failure QueryResponse := do
  let msg_ident ← P.read_message_begin
  if msg_ident.message_type = .Exception then
    P.read_application_error
    fail (.error "Thrift exception returned")
  else
    let resp ← readStruct P (result_field P) ⟨⟨-1, ""⟩, []⟩
    P.read_message_end
    pure resp

/-! ### What comes later

Every reader above is sequential where the operations of the protocol are.
-/

section Sequential

variable {P : TInputProtocol} {short : Failure → Bool}
  {on_field : TFieldIdentifier → σ → Reader Failure σ}

theorem sequential_readStruct (hP : P.IsSequential short)
    (h : ∀ field s, Sequential short (on_field field s)) (s : σ) :
    Sequential short (readStruct P on_field s) := by
  have hfield : ∀ s, Sequential short (readField P on_field s) := by
    intro s
    refine hP.read_field_begin.bind fun field => ?_
    split
    · exact sequential_pure _
    · exact (h field s).bind fun s' => hP.read_field_end.bind fun _ => sequential_pure _
  exact hP.read_struct_begin.bind fun _ => (Sequential.forever hfield s).bind fun s' =>
    hP.read_struct_end.bind fun _ => sequential_pure s'

theorem sequential_skipField (hP : P.IsSequential short) (field : TFieldIdentifier) (s : σ) :
    Sequential short (skipField P field s) :=
  (hP.skip field.field_type).bind fun _ => sequential_pure s

theorem sequential_st_field (hP : P.IsSequential short) (field : TFieldIdentifier)
    (status : QueryStatus) : Sequential short (st_field P field status) := by
  unfold st_field
  split
  · exact hP.read_i32.bind fun _ => sequential_pure _
  · exact hP.read_string.bind fun _ => sequential_pure _
  · exact sequential_skipField hP field status

theorem sequential_readRow (hP : P.IsSequential short) (rows : List OsqueryRow) :
    Sequential short (readRow P rows) := by
  have hentry : ∀ row, Sequential short (readEntry P row) := fun row =>
    hP.read_string.bind fun _ => hP.read_string.bind fun _ => sequential_pure _
  exact hP.read_map_begin.bind fun _ => (Sequential.times hentry _ _).bind fun _ =>
    hP.read_map_end.bind fun _ => sequential_pure _

theorem sequential_res_field (hP : P.IsSequential short) (field : TFieldIdentifier)
    (resp : QueryResponse) : Sequential short (res_field P field resp) := by
  unfold res_field
  split
  · exact (sequential_readStruct hP (sequential_st_field hP) _).bind fun _ => sequential_pure _
  · exact hP.read_list_begin.bind fun _ => (Sequential.times (sequential_readRow hP) _ _).bind
      fun _ => hP.read_list_end.bind fun _ => sequential_pure _
  · exact sequential_skipField hP field resp

theorem sequential_result_field (hP : P.IsSequential short) (field : TFieldIdentifier)
    (resp : QueryResponse) : Sequential short (result_field P field resp) := by
  unfold result_field
  split
  · exact sequential_readStruct hP (sequential_res_field hP) resp
  · exact sequential_skipField hP field resp

/-- **The parser is sequential.** -/
theorem sequential_parse_query_response (hP : P.IsSequential short) :
    Sequential short (parse_query_response P) := by
  refine hP.read_message_begin.bind fun msg_ident => ?_
  split
  · exact hP.read_application_error.bind fun _ => sequential_fail _
  · exact (sequential_readStruct hP (sequential_result_field hP) _).bind fun _ =>
      hP.read_message_end.bind fun _ => sequential_pure _

end Sequential

/-! ### How much is read

With five reads to a byte, a marking operation costs one more than its
bytes allow, and any other leaves three. A struct pays for the marks around
it and around its fields.
-/

section Within

variable {P : TInputProtocol} {on_field : TFieldIdentifier → σ → Reader Failure σ}

/-- The operations of a frugal protocol, five reads to a byte. -/
def IsPaid (P : TInputProtocol) : Prop :=
  P.Each (Within 5 1 2) (Within 5 (-3) 2)

theorem isPaid_of_isFrugal (hP : P.IsFrugal) : IsPaid P := by
  refine hP.imp (fun r hr b => ?_) (fun r hr => ?_)
  · rw [hr b]
    simp only [Reading.Within]
    omega
  · have hwide := hr.within.widen hr.takes 3
    exact hwide.mono (by simp) le_rfl

theorem within_readStruct (hP : IsPaid P) (h : ∀ field s, Within 5 (-1) 3 (on_field field s))
    (s : σ) : Within 5 (-1) 3 (readStruct P on_field s) := by
  have hfield : ∀ s, Within 5 (-3) 2 (readField P on_field s) := by
    intro s
    have hrest : ∀ field : TFieldIdentifier, Within 5 0 3
        (if field.field_type = .Stop then pure (.inr s) else do
          let s ← on_field field s
          P.read_field_end
          pure (.inl s) : Reader Failure (σ ⊕ σ)) := by
      intro field
      split
      · exact within_pure _ le_rfl
      · exact (h field s).bind (fun s' => hP.read_field_end.bind_pure fun _ => Sum.inl s')
          (by omega) le_rfl (by omega)
    exact hP.read_field_begin.bind hrest (by omega) le_rfl (by omega)
  have hfields : Within 5 (-2) 2 (do
      let s ← forever (readField P on_field) s
      P.read_struct_end
      pure s) :=
    (Within.forever hfield (by omega) s).bind
      (fun s' => hP.read_struct_end.bind_pure fun _ => s') (by omega) le_rfl (by omega)
  exact hP.read_struct_begin.bind (fun _ => hfields) (by omega) (by omega) (by omega)

theorem within_skipField (hP : IsPaid P) (field : TFieldIdentifier) (s : σ) :
    Within 5 (-1) 3 (skipField P field s) :=
  ((hP.skip field.field_type).bind_pure fun _ => s).mono (by omega) (by omega)

theorem within_st_field (hP : IsPaid P) (field : TFieldIdentifier) (status : QueryStatus) :
    Within 5 (-1) 3 (st_field P field status) := by
  unfold st_field
  split
  · exact (hP.read_i32.bind_pure _).mono (by omega) (by omega)
  · exact (hP.read_string.bind_pure _).mono (by omega) (by omega)
  · exact within_skipField hP field status

theorem within_readRow (hP : IsPaid P) (rows : List OsqueryRow) :
    Within 5 (-2) 2 (readRow P rows) := by
  have hentry : ∀ row, Within 5 (-6) 2 (readEntry P row) := fun row =>
    hP.read_string.bind (fun _ => hP.read_string.bind_pure _) (by omega) le_rfl (by omega)
  have hrest : ∀ size : ℕ, Within 5 1 2 (do
      let row ← times size (readEntry P) ∅
      P.read_map_end
      pure (rows ++ [row])) := fun size =>
    (Within.times hentry (by omega) size ∅).bind (fun row => hP.read_map_end.bind_pure _)
      (by omega) le_rfl (by omega)
  exact hP.read_map_begin.bind (fun map_ident => hrest map_ident.size.toNat)
    (by omega) le_rfl (by omega)

theorem within_res_field (hP : IsPaid P) (field : TFieldIdentifier) (resp : QueryResponse) :
    Within 5 (-1) 3 (res_field P field resp) := by
  unfold res_field
  split
  · exact (within_readStruct hP (within_st_field hP) resp.status).bind_pure _
  · have hrest : ∀ size : ℕ, Within 5 1 2 (do
        let rows ← times size (readRow P) resp.rows
        P.read_list_end
        pure { resp with rows }) := fun size =>
      (Within.times (within_readRow hP) (by omega) size resp.rows).bind
        (fun rows => hP.read_list_end.bind_pure _) (by omega) le_rfl (by omega)
    exact hP.read_list_begin.bind (fun list_ident => hrest list_ident.size.toNat)
      (by omega) (by omega) (by omega)
  · exact within_skipField hP field resp

theorem within_result_field (hP : IsPaid P) (field : TFieldIdentifier) (resp : QueryResponse) :
    Within 5 (-1) 3 (result_field P field resp) := by
  unfold result_field
  split
  · exact within_readStruct hP (within_res_field hP) resp
  · exact within_skipField hP field resp

/-- **The parser ends**, and makes five reads for each byte at most and two
more. -/
theorem within_parse_query_response (hP : IsPaid P) :
    Within 5 0 2 (parse_query_response P) := by
  have hreply : Within 5 0 3 (do
      let resp ← readStruct P (result_field P) ⟨⟨-1, ""⟩, []⟩
      P.read_message_end
      pure resp) :=
    (within_readStruct hP (within_result_field hP) _).bind
      (fun _ => hP.read_message_end.bind_pure _) (by omega) le_rfl (by omega)
  have hexception : Within 5 0 3 (do
      P.read_application_error
      fail (.error "Thrift exception returned") : Reader Failure QueryResponse) :=
    hP.read_application_error.bind (fun _ => within_fail (D := 0) (d := 0) _ le_rfl)
      (by omega) (by omega) (by omega)
  refine hP.read_message_begin.bind (fun msg_ident => ?_ : ∀ _, Within 5 0 3 _)
    (by omega) le_rfl (by omega)
  split
  · exact hexception
  · exact hreply

end Within

/-! ## A query -/

/-- The test of `query` for an incomplete response. -/
def is_eof : Failure → Bool
  | .error err_str =>
    containsText err_str "UnexpectedEof" || containsText err_str "end of file" ||
      containsText err_str "EOF" || containsText err_str "unexpected end of file"
  | .panicked => false

/-- What comes after the last byte of the stream. -/
inductive StreamEnd where
  | closed
  | failed (text : String)
  /-- Nothing, and the stream stays open. -/
  | stalled

/-- How a query ends. -/
inductive QueryOutcome where
  | ok (resp : QueryResponse)
  | err (text : String)
  | panicked
  /-- It waits for more, or its parser never ends. -/
  | waiting
  | endless

/-- What is the matter once there are no more bytes. -/
def StreamEnd.outcome : StreamEnd → QueryOutcome
  | .closed => .err "Connection closed by remote before complete response received"
  | .failed text => .err text
  | .stalled => .waiting

/-- The outcome of what was parsed, `none` where more has to be read. -/
def settled : Reading Failure QueryResponse → Option QueryOutcome
  | .done resp _ _ => some (.ok resp)
  | .failed e _ =>
    if is_eof e then none
    else match e with
      | .error text => some (.err text)
      | .panicked => some .panicked
  | .endless => some .endless

/-- The loop of `query` over the reads from the socket. A read of no bytes
is the end of the stream. -/
def readResponse (P : TInputProtocol) (ending : StreamEnd) : Bytes → List Bytes → QueryOutcome
  | _, [] => ending.outcome
  | buf, temp :: reads =>
    if temp = [] then StreamEnd.closed.outcome
    else (settled (parse_query_response P (buf ++ temp))).getD
      (readResponse P ending (buf ++ temp) reads)

/-- The socket of osquery as a query finds it. -/
structure OsquerySocket where
  connect : Except String Unit
  write_all : Bytes → Except String Unit
  flush : Except String Unit
  /-- The reads, and what comes after them. -/
  reads : List Bytes
  ending : StreamEnd

/-- `OsqueryClient::query`, where `request` writes the request for a
statement. -/
def query (P : TInputProtocol) (request : String → Except String Bytes) (socket : OsquerySocket)
    (sql : String) : QueryOutcome :=
  let sent : Except String Unit := do
    let request_bytes ← request sql
    socket.connect
    socket.write_all request_bytes
    socket.flush
  match sent with
  | .error text => .err text
  | .ok () => readResponse P socket.ending [] socket.reads

/-! ### The pieces of a response -/

section Pieces

variable {P : TInputProtocol} {ending : StreamEnd}

/-- **What is settled stays settled**, whatever comes after. -/
theorem settled_append (hseq : P.IsSequential is_eof) (hfrugal : P.IsFrugal) {buf : Bytes}
    {outcome : QueryOutcome} (h : settled (parse_query_response P buf) = some outcome)
    (more : Bytes) : settled (parse_query_response P (buf ++ more)) = some outcome := by
  have hparse := sequential_parse_query_response hseq
  cases hbuf : parse_query_response P buf with
  | done resp rest n =>
    rw [hparse.done hbuf more]
    rw [hbuf] at h
    exact h
  | failed e n =>
    rw [hbuf] at h
    have he : is_eof e = false := by
      by_contra hne
      simp [settled, hne] at h
    rw [hparse.failed hbuf he more]
    exact h
  | endless =>
    exact absurd hbuf ((within_parse_query_response (isPaid_of_isFrugal hfrugal)).not_endless buf)

/-- **The outcome is that of all the bytes**, however many reads they came
in. Along the loop what was read so far is not settled, or the loop is
over. -/
theorem readResponse_eq (hseq : P.IsSequential is_eof) (hfrugal : P.IsFrugal) {reads : List Bytes}
    (hreads : ∀ temp ∈ reads, temp ≠ []) (hne : reads ≠ []) (buf : Bytes) :
    readResponse P ending buf reads =
      (settled (parse_query_response P (buf ++ reads.flatten))).getD ending.outcome := by
  induction reads generalizing buf with
  | nil => exact absurd rfl hne
  | cons temp reads ih =>
    have htemp : temp ≠ [] := hreads temp (by simp)
    rw [readResponse, if_neg htemp, List.flatten_cons, ← List.append_assoc]
    cases hs : settled (parse_query_response P (buf ++ temp)) with
    | some outcome =>
      rw [settled_append hseq hfrugal hs]
      rfl
    | none =>
      cases reads with
      | nil =>
        rw [List.flatten_nil, List.append_nil, hs]
        rfl
      | cons next reads =>
        exact ih (fun t ht => hreads t (List.mem_cons_of_mem temp ht)) (by simp) (buf ++ temp)

/-- Reads of the same bytes give the same outcome. -/
theorem readResponse_congr (hseq : P.IsSequential is_eof) (hfrugal : P.IsFrugal)
    {reads reads' : List Bytes} (hreads : ∀ temp ∈ reads, temp ≠ [])
    (hreads' : ∀ temp ∈ reads', temp ≠ []) (h : reads.flatten = reads'.flatten) (buf : Bytes) :
    readResponse P ending buf reads = readResponse P ending buf reads' := by
  have hnil : ∀ {l : List Bytes}, (∀ temp ∈ l, temp ≠ []) → l.flatten = [] → l = [] := by
    intro l hl hflat
    rw [List.flatten_eq_nil_iff] at hflat
    exact List.eq_nil_iff_forall_not_mem.2 fun t ht => hl t ht (hflat t ht)
  by_cases hempty : reads.flatten = []
  · rw [hnil hreads hempty, hnil hreads' (h ▸ hempty)]
  · have hne : reads ≠ [] := by
      rintro rfl
      exact hempty rfl
    have hne' : reads' ≠ [] := by
      rintro rfl
      exact hempty h
    rw [readResponse_eq hseq hfrugal hreads hne, readResponse_eq hseq hfrugal hreads' hne', h]

end Pieces

end AigisZero.Agent
