import AigisZero.Agent.OsqueryClient
import AigisZero.Library.ThriftBinary

/-!
# The response of osquery

What osquery writes for a response, whatever the order of the fields and
whatever a later version adds to the three structs, the parser reads back:
the status, and the rows in their order. With this and what is settled
staying settled, a response is neither taken for complete nor for broken
before its last byte.
-/

namespace AigisZero.Agent

open Thrift Reader

/-! ## The encoding -/

/-- The text of a column and the text of its value. -/
def entryCode (e : String × String) : Bytes := textCode e.1 ++ textCode e.2

def rowCode (row : List (String × String)) : Bytes :=
  mapHeader .String .String row.length ++ row.flatMap entryCode

def rowsCode (rows : List (List (String × String))) : Bytes :=
  listHeader .Map rows.length ++ rows.flatMap rowCode

/-- `ExtensionResponse`, each row as the columns written for it. -/
structure ExtensionResponse where
  code : ℤ
  message : String
  response : List (List (String × String))

namespace ExtensionResponse

/-- What there is to write fits the format. -/
structure Writable (r : ExtensionResponse) : Prop where
  code : Fits 4 r.code
  message : TextFits r.message
  rows : Fits 4 r.response.length
  columns : ∀ row ∈ r.response, Fits 4 row.length
  texts : ∀ row ∈ r.response, ∀ e ∈ row, TextFits e.1 ∧ TextFits e.2

/-- The known fields of `ExtensionStatus`. -/
def statusFields (r : ExtensionResponse) : List TField :=
  [⟨.I32, 1, intCode 4 r.code⟩, ⟨.String, 2, textCode r.message⟩]

/-- The known fields of `ExtensionResponse`, over the encoding of the
status. -/
def responseFields (r : ExtensionResponse) (status : Bytes) : List TField :=
  [⟨.Struct, 1, status⟩, ⟨.List, 2, rowsCode r.response⟩]

/-- The known field of the result of a query, over the encoding of the
response. -/
def resultFields (response : Bytes) : List TField := [⟨.Struct, 0, response⟩]

/-- **The bytes are a reply with the response.** -/
structure IsReply (depth : ℕ) (r : ExtensionResponse) (b : Bytes) : Prop where
  writable : r.Writable
  code : ∃ (m : TMessageIdentifier) (status response result : Bytes),
    m.message_type = .Reply ∧ TextFits m.name ∧ Fits 4 m.sequence_number ∧
    EncodesStruct depth r.statusFields status ∧
    EncodesStruct depth (r.responseFields status) response ∧
    EncodesStruct depth (resultFields response) result ∧
    b = messageHeader m ++ result

end ExtensionResponse

/-- The row the client makes of the columns. -/
def rowOf (row : List (String × String)) : OsqueryRow :=
  row.foldl (fun acc e => acc.insert e.1 e.2) ∅

section Reads

variable {σ : Type} {P : TInputProtocol} {on_field : TFieldIdentifier → σ → Reader Failure σ}

theorem reads_readField (hP : P.IsBinary) {f : TField} {s s' : σ} (hstop : f.field_type ≠ .Stop)
    (hid : Fits 2 f.id)
    (hvalue : (on_field ⟨f.field_type, some f.id⟩ s).Reads f.value s') :
    (readField P on_field s).Reads f.code (.inl s') := by
  have hrest : (do
      let s ← on_field ⟨f.field_type, some f.id⟩ s
      P.read_field_end
      pure (.inl s) : Reader Failure (σ ⊕ σ)).Reads (f.value ++ []) (.inl s') :=
    hvalue.bind (hP.read_field_end.bind_pure fun _ => Sum.inl s')
  rw [List.append_nil] at hrest
  refine (hP.read_field_begin f.field_type f.id hstop hid).bind ?_
  rwa [if_neg hstop]

/-- The end of the fields. -/
theorem reads_fieldStop (hP : P.IsBinary) (s : σ) :
    (readField P on_field s).Reads fieldStop (.inr s) := by
  obtain ⟨id, hid⟩ := hP.read_field_stop
  have hstop : (readField P on_field s).Reads (fieldStop ++ []) (.inr s) :=
    hid.bind (reads_pure (Sum.inr s))
  rwa [List.append_nil] at hstop

theorem reads_skipField (hP : P.IsBinary) {f : TField}
    (h : Encodes P.skip_depth f.field_type f.value) (s : σ) :
    (skipField P ⟨f.field_type, some f.id⟩ s).Reads f.value s :=
  (hP.skip _ _ h).bind_pure fun _ => s

/-- **A struct is read as its known fields say**, each applied once: their
order is of no matter where `next` does not care for it. -/
theorem reads_readStruct (hP : P.IsBinary) {known : List TField} {b : Bytes}
    (next : σ → TField → σ) (hb : EncodesStruct P.skip_depth known b)
    (htype : ∀ f ∈ known, f.field_type ≠ .Stop ∧ Fits 2 f.id)
    (hknown : ∀ f ∈ known, ∀ s, (on_field ⟨f.field_type, some f.id⟩ s).Reads f.value (next s f))
    (hskip : ∀ t id s, id ∉ known.map TField.id →
      on_field ⟨t, some id⟩ s = skipField P ⟨t, some id⟩ s)
    (hcomm : ∀ f g s, next (next s f) g = next (next s g) f) (s : σ) :
    (readStruct P on_field s).Reads b (known.foldl next s) := by
  obtain ⟨fields, unknown, hperm, hunknown, rfl⟩ := hb
  -- An unknown field changes nothing.
  let step : σ → TField → σ := fun s f => if f.id ∈ known.map TField.id then next s f else s
  have hstep_known : ∀ f ∈ known, ∀ s, step s f = next s f := fun f hf s =>
    if_pos (List.mem_map_of_mem hf)
  have hstep_unknown : ∀ f ∈ unknown, ∀ s, step s f = s := fun f hf s =>
    if_neg (hunknown f hf).2.2
  have hmem : ∀ f ∈ fields, f ∈ known ∨ f ∈ unknown := fun f hf =>
    List.mem_append.1 (hperm.mem_iff.1 hf)
  have hfold : fields.foldl step s = known.foldl next s := by
    have hswap : ∀ f ∈ fields, ∀ g ∈ fields, ∀ s, step (step s f) g = step (step s g) f := by
      intro f hf g hg s
      rcases hmem f hf with hf | hf
      · rcases hmem g hg with hg | hg
        · simp only [hstep_known f hf, hstep_known g hg]
          exact hcomm f g s
        · simp only [hstep_unknown g hg]
      · simp only [hstep_unknown f hf]
    rw [hperm.foldl_eq' hswap, List.foldl_append,
      List.foldl_ext step next s fun s f hf => hstep_known f hf s,
      List.foldl_ext step (fun s _ => s) _ fun s f hf => hstep_unknown f hf s, List.foldl_fixed]
  have hfields : ∀ f ∈ fields, ∀ s, (readField P on_field s).Reads f.code (.inl (step s f)) := by
    intro f hf s
    rcases hmem f hf with hf | hf
    · obtain ⟨hstop, hid⟩ := htype f hf
      rw [hstep_known f hf]
      exact reads_readField hP hstop hid (hknown f hf s)
    · obtain ⟨hid, hvalue, hnot⟩ := hunknown f hf
      rw [hstep_unknown f hf]
      refine reads_readField hP hvalue.ne_stop hid ?_
      rw [hskip _ _ _ hnot]
      exact reads_skipField hP hvalue s
  have hloop := Reads.forever (fun f _ => by simp [TField.code, fieldHeader]) hfields
    (reads_fieldStop hP (fields.foldl step s))
  rw [hfold] at hloop
  have hbody : (do
      let s ← forever (readField P on_field) s
      P.read_struct_end
      pure s).Reads (fieldsCode fields ++ []) (known.foldl next s) :=
    hloop.bind (hP.read_struct_end.bind_pure fun _ => known.foldl next s)
  rw [List.append_nil] at hbody
  exact hP.read_struct_begin.bind hbody

theorem reads_statusFields (hP : P.IsBinary) {r : ExtensionResponse} (hr : r.Writable)
    {status : Bytes} (hstatus : EncodesStruct P.skip_depth r.statusFields status)
    (before : QueryStatus) :
    (readStruct P (st_field P) before).Reads status ⟨r.code, r.message⟩ := by
  let next : QueryStatus → TField → QueryStatus := fun s f =>
    if f.id = 1 then { s with code := r.code } else { s with message := r.message }
  refine reads_readStruct hP next hstatus ?_ ?_ ?_ ?_ before
  · exact List.forall_mem_cons.2 ⟨⟨nofun, (by decide : Fits 2 1)⟩,
      List.forall_mem_singleton.2 ⟨nofun, (by decide : Fits 2 2)⟩⟩
  · exact List.forall_mem_cons.2 ⟨fun s => (hP.read_i32 r.code hr.code).bind_pure _,
      List.forall_mem_singleton.2 fun s => (hP.read_string r.message hr.message).bind_pure _⟩
  · intro t id s hid
    simp only [ExtensionResponse.statusFields, List.map_cons, List.map_nil, List.mem_cons,
      List.not_mem_nil, or_false, not_or] at hid
    simp [st_field, hid]
  · intro f g s
    simp only [next]
    split_ifs <;> rfl

/-- A row is read as its columns say. -/
theorem reads_readRow (hP : P.IsBinary) {row : List (String × String)}
    (hsize : Fits 4 row.length) (htexts : ∀ e ∈ row, TextFits e.1 ∧ TextFits e.2)
    (rows : List OsqueryRow) :
    (readRow P rows).Reads (rowCode row) (rows ++ [rowOf row]) := by
  have hentry : ∀ e ∈ row, ∀ acc,
      (readEntry P acc).Reads (entryCode e) (acc.insert e.1 e.2) := fun e he acc =>
    (hP.read_string e.1 (htexts e he).1).bind ((hP.read_string e.2 (htexts e he).2).bind_pure _)
  have hbody : (do
      let acc ← times row.length (readEntry P) ∅
      P.read_map_end
      pure (rows ++ [acc])).Reads (row.flatMap entryCode ++ []) (rows ++ [rowOf row]) :=
    (Reads.times hentry ∅).bind (hP.read_map_end.bind_pure fun _ => rows ++ [rowOf row])
  rw [List.append_nil] at hbody
  exact (hP.read_map_begin .String .String row.length hsize).bind hbody

/-- The field of the rows adds them to those there are. -/
theorem reads_rowsField (hP : P.IsBinary) {r : ExtensionResponse} (hr : r.Writable)
    (resp : QueryResponse) :
    (res_field P ⟨.List, some 2⟩ resp).Reads (rowsCode r.response)
      { resp with rows := resp.rows ++ r.response.map rowOf } := by
  have hrows : (times r.response.length (readRow P) resp.rows).Reads (r.response.flatMap rowCode)
      (r.response.foldl (fun rows row => rows ++ [rowOf row]) resp.rows) :=
    Reads.times (fun row hrow rows =>
      reads_readRow hP (hr.columns row hrow) (hr.texts row hrow) rows) resp.rows
  rw [List.foldl_append_eq_append, ← List.flatMap_def, ← List.map_eq_flatMap] at hrows
  have hbody : (do
      let rows ← times r.response.length (readRow P) resp.rows
      P.read_list_end
      pure { resp with rows }).Reads (r.response.flatMap rowCode ++ [])
        { resp with rows := resp.rows ++ r.response.map rowOf } :=
    hrows.bind (hP.read_list_end.bind_pure fun _ => _)
  rw [List.append_nil] at hbody
  exact (hP.read_list_begin .Map r.response.length hr.rows).bind hbody

theorem reads_responseFields (hP : P.IsBinary) {r : ExtensionResponse} (hr : r.Writable)
    {status response : Bytes} (hstatus : EncodesStruct P.skip_depth r.statusFields status)
    (hresponse : EncodesStruct P.skip_depth (r.responseFields status) response)
    (before : QueryResponse) :
    (readStruct P (res_field P) before).Reads response
      ⟨⟨r.code, r.message⟩, before.rows ++ r.response.map rowOf⟩ := by
  let next : QueryResponse → TField → QueryResponse := fun s f =>
    if f.id = 1 then { s with status := ⟨r.code, r.message⟩ }
    else { s with rows := s.rows ++ r.response.map rowOf }
  refine reads_readStruct hP next hresponse ?_ ?_ ?_ ?_ before
  · exact List.forall_mem_cons.2 ⟨⟨nofun, (by decide : Fits 2 1)⟩,
      List.forall_mem_singleton.2 ⟨nofun, (by decide : Fits 2 2)⟩⟩
  · exact List.forall_mem_cons.2 ⟨fun s => (reads_statusFields hP hr hstatus s.status).bind_pure _,
      List.forall_mem_singleton.2 fun s => reads_rowsField hP hr s⟩
  · intro t id s hid
    simp only [ExtensionResponse.responseFields, List.map_cons, List.map_nil, List.mem_cons,
      List.not_mem_nil, or_false, not_or] at hid
    simp [res_field, hid]
  · intro f g s
    simp only [next]
    split_ifs <;> rfl

theorem reads_resultFields (hP : P.IsBinary) {r : ExtensionResponse} (hr : r.Writable)
    {status response result : Bytes} (hstatus : EncodesStruct P.skip_depth r.statusFields status)
    (hresponse : EncodesStruct P.skip_depth (r.responseFields status) response)
    (hresult : EncodesStruct P.skip_depth (ExtensionResponse.resultFields response) result)
    (before : QueryResponse) :
    (readStruct P (result_field P) before).Reads result
      ⟨⟨r.code, r.message⟩, before.rows ++ r.response.map rowOf⟩ := by
  let next : QueryResponse → TField → QueryResponse := fun s _ =>
    ⟨⟨r.code, r.message⟩, s.rows ++ r.response.map rowOf⟩
  refine reads_readStruct hP next hresult ?_ ?_ ?_ ?_ before
  · exact List.forall_mem_singleton.2 ⟨nofun, (by decide : Fits 2 0)⟩
  · exact List.forall_mem_singleton.2 fun s => reads_responseFields hP hr hstatus hresponse s
  · intro t id s hid
    simp only [ExtensionResponse.resultFields, List.map_cons, List.map_nil,
      List.mem_singleton] at hid
    simp [result_field, hid]
  · exact fun _ _ _ => rfl

/-- **The parser reads every reply.** -/
theorem reads_parse_query_response (hP : P.IsBinary) {r : ExtensionResponse} {b : Bytes}
    (hb : r.IsReply P.skip_depth b) :
    (parse_query_response P).Reads b ⟨⟨r.code, r.message⟩, r.response.map rowOf⟩ := by
  obtain ⟨m, status, response, result, htype, hname, hseq, hstatus, hresponse, hresult, rfl⟩ :=
    hb.code
  refine (hP.read_message_begin m hname hseq).bind ?_
  have hne : m.message_type ≠ .Exception := by
    rw [htype]
    exact nofun
  have hbody := (reads_resultFields hP hb.writable hstatus hresponse hresult ⟨⟨-1, ""⟩, []⟩).bind
    (f := fun resp => P.read_message_end >>= fun _ => pure resp) (hP.read_message_end.bind_pure _)
  rw [List.append_nil] at hbody
  rw [if_neg hne]
  exact hbody

end Reads

/-! ## What a query makes of the stream -/

variable {P : TInputProtocol}

/-- A row whose column is written twice. -/
def twiceWritten : ExtensionResponse := ⟨0, "OK", [[("pid", "1"), ("pid", "2")]]⟩

/-- The identifier. -/
def uuidField : TField := ⟨.I64, 3, intCode 8 7⟩

def laterStatus : Bytes := fieldsCode (uuidField :: twiceWritten.statusFields.reverse)

def laterResponse : Bytes := fieldsCode (twiceWritten.responseFields laterStatus)

def laterReply : Bytes :=
  messageHeader ⟨"query", .Reply, 1⟩ ++
    fieldsCode (ExtensionResponse.resultFields laterResponse)

theorem isReply_laterReply : twiceWritten.IsReply binary.skip_depth laterReply where
  writable := by
    refine ⟨by decide, by unfold TextFits; decide, by decide, by decide, ?_⟩
    unfold TextFits
    decide
  code := by
    refine ⟨⟨"query", .Reply, 1⟩, laterStatus, laterResponse, _, rfl, by unfold TextFits; decide,
      by decide, ⟨_, [uuidField], by decide, ?_, rfl⟩, ⟨_, [], ?_, nofun, rfl⟩,
      ⟨_, [], .refl _, nofun, rfl⟩, rfl⟩
    · refine List.forall_mem_singleton.2 ⟨by decide, .number rfl rfl, by decide⟩
    · rw [List.append_nil]

/-- A well-formed message: a reply, or whatever else the parser takes to its
last byte. -/
def IsMessage (P : TInputProtocol) (b : Bytes) : Prop :=
  (∃ r : ExtensionResponse, r.IsReply P.skip_depth b) ∨
    ∃ resp n, parse_query_response P b = .done resp [] n

/-- The parser takes every one to its last byte. -/
theorem IsMessage.parsed (hbinary : P.IsBinary) {b : Bytes} (h : IsMessage P b) :
    ∃ resp n, parse_query_response P b = .done resp [] n := by
  obtain ⟨r, hr⟩ | h := h
  · obtain ⟨n, hn⟩ := reads_parse_query_response hbinary hr []
    rw [List.append_nil] at hn
    exact ⟨_, n, hn⟩
  · exact h

/-- **The outcome of a query does not depend on the pieces** its response
comes in. No strict prefix of a message is parsed, nor does a prefix of one
fail otherwise than for its end; and what the parser settled on some bytes
it settles on all that begin with them. -/
theorem query_pieces (hseq : P.IsSequential is_eof) (hfrugal : P.IsFrugal)
    (hbinary : P.IsBinary) :
    (∀ request (socket : OsquerySocket) sql (reads reads' : List Bytes),
      (∀ temp ∈ reads, temp ≠ []) → (∀ temp ∈ reads', temp ≠ []) →
      reads.flatten = reads'.flatten →
      query P request { socket with reads := reads } sql =
        query P request { socket with reads := reads' } sql) ∧
    (∀ b p more, IsMessage P b → b = p ++ more →
      (∀ resp rest n, parse_query_response P p = .done resp rest n → more = []) ∧
        ∀ e n, parse_query_response P p = .failed e n → is_eof e = true) ∧
    (∀ buf more resp rest n, parse_query_response P buf = .done resp rest n →
      parse_query_response P (buf ++ more) = .done resp (rest ++ more) n) ∧
    ∀ buf more e n, parse_query_response P buf = .failed e n → is_eof e = false →
      parse_query_response P (buf ++ more) = .failed e n := by
  have hparse := sequential_parse_query_response hseq
  have hends := (within_parse_query_response (isPaid_of_isFrugal hfrugal)).not_endless
  refine ⟨?_, ?_, fun buf more resp rest n h => hparse.done h more,
    fun buf more e n h he => hparse.failed h he more⟩
  · intro request socket sql reads reads' hreads hreads' hflatten
    simp only [query, readResponse_congr hseq hfrugal hreads hreads' hflatten []]
  · intro b p more hb hbp
    obtain ⟨resp, m, hm⟩ := hb.parsed hbinary
    by_cases hmore : more = []
    · rw [hmore, List.append_nil] at hbp
      rw [hbp] at hm
      refine ⟨fun _ _ _ _ => hmore, fun e n h => ?_⟩
      cases hm.symm.trans h
    · obtain ⟨e, n, hp, he⟩ := hparse.short_of_append hm hbp hmore (hends p)
      constructor
      · intro resp' rest k h
        cases hp.symm.trans h
      · intro e' k h
        cases hp.symm.trans h
        exact he

/-- A socket that takes the request, and closes after its reads. -/
def listening (reads : List Bytes) : OsquerySocket :=
  ⟨.ok (), fun _ => .ok (), .ok (), reads, .closed⟩

theorem query_pieces_laterReply :
    query binary (fun _ => .ok []) (listening [laterReply.take 9, laterReply.drop 9]) "" =
      query binary (fun _ => .ok []) (listening [laterReply]) "" ∧
    ∀ e n, parse_query_response binary (laterReply.take 9) = .failed e n → is_eof e = true := by
  have hpieces := query_pieces (Binary.isSequential (by decide)) Binary.isFrugal Binary.isBinary
  refine ⟨hpieces.1 (fun _ => .ok []) (listening []) "" _ _ (by decide) (by decide) ?_,
    (hpieces.2.1 laterReply _ (laterReply.drop 9) (.inl ⟨_, isReply_laterReply⟩) ?_).2⟩
  · simp
  · rw [List.take_append_drop]

end AigisZero.Agent
