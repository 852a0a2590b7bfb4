import AigisZero.Agent.OsqueryResponse
import AigisZero.Library.ThriftWrite

/-!
# The request of a query

A query writes its request into a buffer before it opens the socket. The
buffer has 1024 bytes and does not grow, and 25 of them are not of the
statement: a statement of 999 bytes is the longest that is ever sent. What
is sent is read back as the same statement, and what osquery answers to it
is what the query returns.
-/

namespace AigisZero.Agent

open Thrift Reader

/-- What `OsqueryClient::query` writes before it connects. -/
def request (Q : TOutputProtocol) (sql : String) : Except String Bytes := do
  let t := TBufferChannel.with_capacity 1024
  let t ← Q.write_message_begin ⟨"query", .Call, 1⟩ t
  let t ← Q.write_struct_begin "query_args" t
  let t ← Q.write_field_begin "sql" .String 1 t
  let t ← Q.write_string sql t
  let t ← Q.write_field_end t
  let t ← Q.write_field_stop t
  let t ← Q.write_struct_end t
  let t ← Q.write_message_end t
  let t ← Q.flush t
  return t.write_bytes

/-- The call of `query` with a statement, in the strict form. -/
def queryCode (sql : String) : Bytes :=
  messageHeader ⟨"query", .Call, 1⟩ ++ fieldsCode [⟨.String, 1, textCode sql⟩]

/-- An argument of `query`. -/
def args_field (P : TInputProtocol) (field : TFieldIdentifier) (sql : String) :
    Reader Failure String :=
  if field.id = some 1 ∧ field.field_type = .String then P.read_string
  else skipField P field sql

/-- What the other side reads of a call of `query`. -/
def readQuery (P : TInputProtocol) : Reader Failure (TMessageIdentifier × String) := do
  let msg_ident ← P.read_message_begin
  let sql ← readStruct P (args_field P) ""
  P.read_message_end
  pure (msg_ident, sql)

/-! ## What is written -/

theorem length_queryCode (sql : String) : (queryCode sql).length = 25 + (utf8 sql).length := by
  have hname : (utf8 "query").length = 5 := by decide
  simp only [queryCode, messageHeader, fieldsCode, TField.code, fieldHeader, fieldStop, textCode,
    List.flatMap_cons, List.flatMap_nil, List.length_append, List.length_cons, List.length_nil,
    length_intCode, hname]
  omega

/-- The writer of a request. -/
def writeQuery (Q : TOutputProtocol) (sql : String) : Writer :=
  (Q.write_message_begin ⟨"query", .Call, 1⟩).then <| (Q.write_struct_begin "query_args").then <|
    (Q.write_field_begin "sql" .String 1).then <| (Q.write_string sql).then <|
    Q.write_field_end.then <| Q.write_field_stop.then <| Q.write_struct_end.then <|
    Q.write_message_end.then Q.flush

theorem map_then {w w' : Writer} {t : TBufferChannel} :
    ((w.then w') t).map TBufferChannel.write_bytes =
      (w t).bind fun t => (w' t).map TBufferChannel.write_bytes := by
  unfold Writer.then
  cases w t <;> rfl

theorem request_eq (Q : TOutputProtocol) (sql : String) : request Q sql =
    (writeQuery Q sql (.with_capacity 1024)).map TBufferChannel.write_bytes := by
  have hpure : ∀ x : Except String TBufferChannel, x.map TBufferChannel.write_bytes =
      x.bind fun t => .ok t.write_bytes := by
    intro x
    cases x <;> rfl
  simp only [writeQuery, map_then]
  simp only [hpure]
  rfl

theorem writes_writeQuery {Q : TOutputProtocol} (hQ : Q.IsBinary) (sql : String) :
    (writeQuery Q sql).Writes (queryCode sql) := by
  have hwrites : (writeQuery Q sql).Writes _ :=
    (hQ.write_message_begin ⟨"query", .Call, 1⟩).then <|
      (hQ.write_struct_begin "query_args").then <|
      (hQ.write_field_begin "sql" .String 1).then <| (hQ.write_string sql).then <|
      hQ.write_field_end.then <| hQ.write_field_stop.then <| hQ.write_struct_end.then <|
      hQ.write_message_end.then hQ.flush
  have hcode : messageHeader ⟨"query", .Call, 1⟩ ++ ([] ++ (fieldHeader .String 1 ++
      (textCode sql ++ ([] ++ (fieldStop ++ ([] ++ ([] ++ []))))))) = queryCode sql := by
    simp [queryCode, fieldsCode, TField.code]
  rwa [hcode] at hwrites

/-- **A request is written exactly where the statement has at most 999
bytes.** -/
theorem request_cases {Q : TOutputProtocol} (hQ : Q.IsBinary) (sql : String) :
    if (utf8 sql).length ≤ 999 then request Q sql = .ok (queryCode sql)
    else ∃ e, request Q sql = .error e := by
  have hrun := writes_writeQuery hQ sql (.with_capacity 1024) (Nat.zero_le _)
  have hlength := length_queryCode sql
  have hempty : (TBufferChannel.with_capacity 1024).write_bytes = [] := rfl
  have hcapacity : (TBufferChannel.with_capacity 1024).capacity = 1024 := rfl
  rw [hempty, hcapacity, List.length_nil, List.nil_append] at hrun
  rw [request_eq]
  by_cases hroom : (utf8 sql).length ≤ 999
  · rw [if_pos (by omega)] at hrun
    rw [if_pos hroom, hrun]
    rfl
  · rw [if_neg (by omega)] at hrun
    obtain ⟨e, he⟩ := hrun
    rw [if_neg hroom, he]
    exact ⟨e, rfl⟩

/-! ## What is read of it -/

section Reads

variable {P : TInputProtocol}

/-- **The statement is read back.** -/
theorem reads_readQuery (hP : P.IsBinary) {sql : String} (hsql : TextFits sql) :
    (readQuery P).Reads (queryCode sql) (⟨"query", .Call, 1⟩, sql) := by
  refine (hP.read_message_begin ⟨"query", .Call, 1⟩ (by unfold TextFits; decide)
    (by decide)).bind ?_
  let next : String → TField → String := fun _ _ => sql
  have hcode : EncodesStruct P.skip_depth [⟨.String, 1, textCode sql⟩]
      (fieldsCode [⟨.String, 1, textCode sql⟩]) :=
    ⟨_, [], by rw [List.append_nil], nofun, rfl⟩
  have hstruct : (readStruct P (args_field P) "").Reads (fieldsCode [⟨.String, 1, textCode sql⟩])
      sql := by
    refine reads_readStruct hP next hcode ?_ ?_ ?_ ?_ ""
    · exact List.forall_mem_singleton.2 ⟨nofun, (by decide : Fits 2 1)⟩
    · exact List.forall_mem_singleton.2 fun s => hP.read_string sql hsql
    · intro t id s hid
      simp only [List.map_cons, List.map_nil, List.mem_singleton] at hid
      simp [args_field, hid]
    · exact fun _ _ _ => rfl
  have hbody := hstruct.bind (f := fun sql => P.read_message_end >>= fun _ =>
    pure ((⟨"query", .Call, 1⟩ : TMessageIdentifier), sql)) (hP.read_message_end.bind_pure _)
  rwa [List.append_nil] at hbody

end Reads

/-! ## A query and its answer -/

variable {P : TInputProtocol} {Q : TOutputProtocol}

/-- The reads of a reply come to the response. -/
theorem readResponse_reply (hseq : P.IsSequential is_eof) (hfrugal : P.IsFrugal)
    (hbinary : P.IsBinary) {r : ExtensionResponse} {reads : List Bytes} (ending : StreamEnd)
    (hreads : ∀ temp ∈ reads, temp ≠ []) (hreply : r.IsReply P.skip_depth reads.flatten) :
    readResponse P ending [] reads = .ok ⟨⟨r.code, r.message⟩, r.response.map rowOf⟩ := by
  obtain ⟨n, hn⟩ := reads_parse_query_response hbinary hreply []
  have hne : reads ≠ [] := by
    rintro rfl
    obtain ⟨m, _, _, _, _, _, _, _, _, _, hb⟩ := hreply.code
    cases hb
  rw [readResponse_eq hseq hfrugal hreads hne, List.nil_append]
  rw [List.append_nil] at hn
  rw [hn]
  rfl

/-- Where no request is written, no socket is opened. -/
theorem query_of_error {sql e : String} (h : request Q sql = .error e) (socket : OsquerySocket) :
    query P (request Q) socket sql = .err e := by
  unfold query
  rw [h]
  rfl

/-- **A query gets the answer to its statement, or is never sent.** A
statement of at most 999 bytes is sent as a call that is read back as that
statement, and the query returns the status and the rows that osquery
answers to it, in whatever reads they come. A longer one fails before the
socket is opened. -/
theorem query_exchange (hQ : Q.IsBinary) (hseq : P.IsSequential is_eof) (hfrugal : P.IsFrugal)
    (hbinary : P.IsBinary) (osquery : String → ExtensionResponse) (answer : Bytes → List Bytes)
    (hanswer : ∀ b m sql n, readQuery P b = .done (m, sql) [] n →
      (∀ temp ∈ answer b, temp ≠ []) ∧ (osquery sql).IsReply P.skip_depth (answer b).flatten)
    (sql : String) :
    if (utf8 sql).length ≤ 999 then
      ∃ b, request Q sql = .ok b ∧ (∃ n, readQuery P b = .done (⟨"query", .Call, 1⟩, sql) [] n) ∧
        ∀ ending, query P (request Q) ⟨.ok (), fun _ => .ok (), .ok (), answer b, ending⟩ sql =
          .ok ⟨⟨(osquery sql).code, (osquery sql).message⟩, (osquery sql).response.map rowOf⟩
    else ∃ text, ∀ socket, query P (request Q) socket sql = .err text := by
  have hcases := request_cases hQ sql
  by_cases hshort : (utf8 sql).length ≤ 999
  · rw [if_pos hshort] at hcases
    have hfits : TextFits sql := by
      unfold TextFits Fits
      omega
    obtain ⟨n, hn⟩ := reads_readQuery hbinary hfits []
    rw [List.append_nil] at hn
    obtain ⟨hreads, hreply⟩ := hanswer _ _ _ _ hn
    rw [if_pos hshort]
    refine ⟨queryCode sql, hcases, ⟨n, hn⟩, fun ending => ?_⟩
    unfold query
    rw [hcases]
    exact readResponse_reply hseq hfrugal hbinary ending hreads hreply
  · rw [if_neg hshort] at hcases
    obtain ⟨e, he⟩ := hcases
    rw [if_neg hshort]
    exact ⟨e, query_of_error he⟩

/-- osquery answers two reads to a statement on its version. -/
theorem query_exchange_version :
    ∃ b, request TOutputProtocol.binary "SELECT version FROM osquery_info;" = .ok b ∧
      (∃ n, readQuery binary b =
        .done (⟨"query", .Call, 1⟩, "SELECT version FROM osquery_info;") [] n) ∧
      ∀ ending, query binary (request TOutputProtocol.binary)
        ⟨.ok (), fun _ => .ok (), .ok (), [laterReply.take 9, laterReply.drop 9], ending⟩
        "SELECT version FROM osquery_info;" =
          .ok ⟨⟨twiceWritten.code, twiceWritten.message⟩, twiceWritten.response.map rowOf⟩ := by
  have hexchange := query_exchange TOutputProtocol.isBinary_binary
    (Binary.isSequential (by decide)) Binary.isFrugal Binary.isBinary (fun _ => twiceWritten)
    (fun _ => [laterReply.take 9, laterReply.drop 9])
    (fun _ _ _ _ _ => ⟨by decide, by simpa using isReply_laterReply⟩)
    "SELECT version FROM osquery_info;"
  rwa [if_pos (by decide)] at hexchange

end AigisZero.Agent
