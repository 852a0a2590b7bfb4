import AigisZero.Library.Thrift

/-!
# The binary protocol, implemented

An input protocol over a buffer, as the format has it: strict headers,
lengths in four bytes, and a skip that goes down to a depth of 64. It is
sequential and frugal, and reads the encodings.
-/

namespace AigisZero.Thrift

/-- The type of a byte. -/
def TType.ofCode? (b : UInt8) : Option TType :=
  [TType.Stop, .Void, .Bool, .I08, .Double, .I16, .I32, .I64, .String, .Struct, .Map, .Set, .List,
    .Utf8, .Utf16].find? fun t => t.code == b

def TMessageType.ofCode? (b : UInt8) : Option TMessageType :=
  [TMessageType.Call, .Reply, .Exception, .OneWay].find? fun t => t.code == b

@[simp] theorem TType.ofCode?_code (t : TType) : TType.ofCode? t.code = some t := by
  cases t <;> rfl

@[simp] theorem TMessageType.ofCode?_code (t : TMessageType) :
    TMessageType.ofCode? t.code = some t := by
  cases t <;> rfl

namespace Binary

open Reader

/-! ## The operations -/

/-- The failure for lack of bytes. -/
def endOfFile : Failure := .error "end of file"

/-- `n` bytes, in one read of the buffer. -/
def readExact (n : ℕ) : Reader Failure Bytes := fun b =>
  if n ≤ b.length then .done (b.take n) (b.drop n) 1 else .failed endOfFile 1

def readInt (width : ℕ) : Reader Failure ℤ := do
  let b ← readExact width
  pure (ofIntCode b)

/-- A length and as many bytes. There is no room for a negative length. -/
def readBytes : Reader Failure Bytes := do
  let size ← readInt 4
  if size < 0 then fail .panicked else readExact size.toNat

def readText : Reader Failure String := do
  let b ← readBytes
  ofOption (.error "invalid utf-8 sequence") (fromUtf8? b)

def readType : Reader Failure TType := do
  let b ← readExact 1
  ofOption (.error "cannot convert byte into TType") (b.head?.bind TType.ofCode?)

def readMessageBegin : Reader Failure TMessageIdentifier := do
  let first_bytes ← readExact 4
  if first_bytes.take 2 = [0x80, 0x01] then
    let message_type ← ofOption (.error "cannot convert byte to TMessageType")
      (first_bytes.getLast?.bind TMessageType.ofCode?)
    let name ← readText
    let sequence_number ← readInt 4
    pure ⟨name, message_type, sequence_number⟩
  else
    fail (.error "received bad version")

def readFieldBegin : Reader Failure TFieldIdentifier := do
  let field_type ← readType
  if field_type = .Stop then
    pure ⟨field_type, some 0⟩
  else
    let id ← readInt 2
    pure ⟨field_type, some id⟩

def readListBegin : Reader Failure TListIdentifier := do
  let element_type ← readType
  let size ← readInt 4
  pure ⟨element_type, size⟩

def readMapBegin : Reader Failure TMapIdentifier := do
  let key_type ← readType
  let value_type ← readType
  let size ← readInt 4
  pure ⟨some key_type, some value_type, size⟩

/-- A round over the fields of a struct that are all skipped by `skip`. -/
def skipField (skip : TType → Reader Failure Unit) : Reader Failure (Unit ⊕ Unit) := do
  let field ← readFieldBegin
  if field.field_type = .Stop then
    pure (.inr ())
  else
    skip field.field_type
    pure (.inl ())

/-- An entry of a map. -/
def skipEntry (skip : TType → Reader Failure Unit) (m : TMapIdentifier) : Reader Failure Unit := do
  skip (m.key_type.getD .Stop)
  skip (m.value_type.getD .Stop)

/-- `skip_till_depth`. -/
def skipTillDepth : ℕ → TType → Reader Failure Unit
  | 0, _ => fail (.error "cannot parse past depth")
  | depth + 1, t =>
    match t with
    | .Bool | .I08 => readExact 1 >>= fun _ => pure ()
    | .I16 => readExact 2 >>= fun _ => pure ()
    | .I32 => readExact 4 >>= fun _ => pure ()
    | .I64 | .Double => readExact 8 >>= fun _ => pure ()
    | .String => readText >>= fun _ => pure ()
    | .Struct => forever (fun _ => skipField (skipTillDepth depth)) ()
    | .List | .Set => readListBegin >>= fun l =>
      times l.size.toNat (fun _ => skipTillDepth depth l.element_type) ()
    | .Map => readMapBegin >>= fun m =>
      times m.size.toNat (fun _ => skipEntry (skipTillDepth depth) m) ()
    | _ => fail (.error "cannot skip field type")

/-- `MAXIMUM_SKIP_DEPTH`. -/
def maximumSkipDepth : ℕ := 64

/-- An operation is a read of its own. -/
def call {α : Type} (r : Reader Failure α) : Reader Failure α := fun b => (r b).after 1

end Binary

/-- **The binary protocol.** -/
def binary : TInputProtocol where
  read_message_begin := Binary.call Binary.readMessageBegin
  read_message_end := Binary.call (pure ())
  read_struct_begin := Binary.call (pure ())
  read_struct_end := Binary.call (pure ())
  read_field_begin := Binary.call Binary.readFieldBegin
  read_field_end := Binary.call (pure ())
  read_i32 := Binary.call (Binary.readInt 4)
  read_string := Binary.call Binary.readText
  read_list_begin := Binary.call Binary.readListBegin
  read_list_end := Binary.call (pure ())
  read_map_begin := Binary.call Binary.readMapBegin
  read_map_end := Binary.call (pure ())
  skip t := Binary.call (Binary.skipTillDepth Binary.maximumSkipDepth t)
  read_application_error := Binary.call (Binary.skipTillDepth Binary.maximumSkipDepth .Struct)
  skip_depth := Binary.maximumSkipDepth

namespace Binary

open Reader TInputProtocol

variable {α : Type} {r : Reader Failure α} {short : Failure → Bool}

/-! ## It is sequential -/

theorem sequential_readExact (hshort : short endOfFile = true) (n : ℕ) :
    Sequential short (readExact n) := by
  constructor
  · intro b a rest m h more
    unfold readExact at h ⊢
    split at h
    · rename_i hn
      cases h
      rw [if_pos (by rw [List.length_append]; omega), List.take_append_of_le_length hn,
        List.drop_append_of_le_length hn]
    · cases h
  · intro b e m h he more
    unfold readExact at h
    split at h
    · cases h
    · cases h
      rw [hshort] at he
      cases he

theorem sequential_call (h : Sequential short r) : Sequential short (call r) where
  done hdone more := by
    obtain ⟨k, hk, rfl⟩ := Reading.after_eq_done.1 hdone
    exact Reading.after_eq_done.2 ⟨k, h.done hk more, rfl⟩
  failed hfailed he more := by
    obtain ⟨k, hk, rfl⟩ := Reading.after_eq_failed.1 hfailed
    exact Reading.after_eq_failed.2 ⟨k, h.failed hk he more, rfl⟩

theorem sequential_readInt (hshort : short endOfFile = true) (width : ℕ) :
    Sequential short (readInt width) :=
  (sequential_readExact hshort width).bind fun _ => sequential_pure _

theorem sequential_readText (hshort : short endOfFile = true) : Sequential short readText := by
  have hbytes : Sequential short readBytes := by
    refine (sequential_readInt hshort 4).bind fun size => ?_
    split
    · exact sequential_fail _
    · exact sequential_readExact hshort _
  exact hbytes.bind fun b => sequential_ofOption _ _

theorem sequential_readType (hshort : short endOfFile = true) : Sequential short readType :=
  (sequential_readExact hshort 1).bind fun _ => sequential_ofOption _ _

theorem sequential_readMessageBegin (hshort : short endOfFile = true) :
    Sequential short readMessageBegin := by
  refine (sequential_readExact hshort 4).bind fun b => ?_
  split
  · exact (sequential_ofOption _ _).bind fun _ => (sequential_readText hshort).bind fun _ =>
      (sequential_readInt hshort 4).bind fun _ => sequential_pure _
  · exact sequential_fail _

theorem sequential_readFieldBegin (hshort : short endOfFile = true) :
    Sequential short readFieldBegin := by
  refine (sequential_readType hshort).bind fun t => ?_
  split
  · exact sequential_pure _
  · exact (sequential_readInt hshort 2).bind fun _ => sequential_pure _

theorem sequential_readListBegin (hshort : short endOfFile = true) :
    Sequential short readListBegin :=
  (sequential_readType hshort).bind fun _ => (sequential_readInt hshort 4).bind
    fun _ => sequential_pure _

theorem sequential_readMapBegin (hshort : short endOfFile = true) :
    Sequential short readMapBegin :=
  (sequential_readType hshort).bind fun _ => (sequential_readType hshort).bind fun _ =>
    (sequential_readInt hshort 4).bind fun _ => sequential_pure _

theorem sequential_skipTillDepth (hshort : short endOfFile = true) (depth : ℕ) (t : TType) :
    Sequential short (skipTillDepth depth t) := by
  induction depth generalizing t with
  | zero => exact sequential_fail _
  | succ depth ih =>
    have hnumber : ∀ n, Sequential short (readExact n >>= fun _ => pure ()) := fun n =>
      (sequential_readExact hshort n).bind fun _ => sequential_pure _
    have hsequence : Sequential short (readListBegin >>= fun l =>
        times l.size.toNat (fun _ => skipTillDepth depth l.element_type) ()) :=
      (sequential_readListBegin hshort).bind fun l => Sequential.times (fun _ => ih _) _ _
    cases t with
    | Bool => exact hnumber 1
    | I08 => exact hnumber 1
    | I16 => exact hnumber 2
    | I32 => exact hnumber 4
    | I64 => exact hnumber 8
    | Double => exact hnumber 8
    | String => exact (sequential_readText hshort).bind fun _ => sequential_pure _
    | Struct =>
      refine Sequential.forever (fun _ => ?_) ()
      refine (sequential_readFieldBegin hshort).bind fun field => ?_
      split
      · exact sequential_pure _
      · exact (ih _).bind fun _ => sequential_pure _
    | List => exact hsequence
    | Set => exact hsequence
    | Map =>
      exact (sequential_readMapBegin hshort).bind fun m =>
        Sequential.times (fun _ => (ih _).bind fun _ => ih _) _ _
    | _ => exact sequential_fail _

/-- **The binary protocol is sequential.** -/
theorem isSequential (hshort : short endOfFile = true) : binary.IsSequential short where
  read_message_begin := sequential_call (sequential_readMessageBegin hshort)
  read_message_end := sequential_call (sequential_pure ())
  read_struct_begin := sequential_call (sequential_pure ())
  read_struct_end := sequential_call (sequential_pure ())
  read_field_begin := sequential_call (sequential_readFieldBegin hshort)
  read_field_end := sequential_call (sequential_pure ())
  read_i32 := sequential_call (sequential_readInt hshort 4)
  read_string := sequential_call (sequential_readText hshort)
  read_list_begin := sequential_call (sequential_readListBegin hshort)
  read_list_end := sequential_call (sequential_pure ())
  read_map_begin := sequential_call (sequential_readMapBegin hshort)
  read_map_end := sequential_call (sequential_pure ())
  skip t := sequential_call (sequential_skipTillDepth hshort maximumSkipDepth t)
  read_application_error :=
    sequential_call (sequential_skipTillDepth hshort maximumSkipDepth .Struct)

/-! ## It is frugal

Two reads to a byte: reading `n` bytes in one read leaves `2 * n - 1`.
-/

theorem within_readExact (n : ℕ) : Within 2 (1 - 2 * n) 1 (readExact n) := by
  intro b
  unfold readExact
  split
  · simp only [Reading.Within, List.length_drop]
    omega
  · simp only [Reading.Within]
    omega

theorem within_readInt (width : ℕ) : Within 2 (1 - 2 * width) 1 (readInt width) :=
  (within_readExact width).bind_pure _

theorem within_readText : Within 2 (-1) 1 readText := by
  have hbytes : Within 2 (-1) 1 readBytes := by
    have hrest : ∀ size : ℤ, Within 2 1 1
        (if size < 0 then fail .panicked else readExact size.toNat) := by
      intro size
      split
      · exact within_fail _ (by omega)
      · exact (within_readExact _).mono (by omega) le_rfl
    exact (within_readInt 4).bind hrest (by omega) le_rfl (by omega)
  exact hbytes.bind (fun _ => within_ofOption _ _ le_rfl zero_le_one) (by omega) le_rfl (by omega)

theorem within_readType : Within 2 (-1) 1 readType :=
  (within_readExact 1).bind (fun _ => within_ofOption _ _ le_rfl zero_le_one) (by omega) le_rfl
    (by omega)

theorem within_readMessageBegin : Within 2 (-1) 1 readMessageBegin := by
  have hrest : ∀ t, Within 2 0 1 (do
      let name ← readText
      let sequence_number ← readInt 4
      pure (⟨name, t, sequence_number⟩ : TMessageIdentifier)) := fun t =>
    within_readText.bind (fun name => (within_readInt 4).bind_pure _) (by omega) le_rfl (by omega)
  have hheader : ∀ b : Bytes, Within 2 0 1 (if b.take 2 = [0x80, 0x01] then do
      let t ← ofOption (.error "cannot convert byte to TMessageType")
        (b.getLast?.bind TMessageType.ofCode?)
      let name ← readText
      let sequence_number ← readInt 4
      pure ⟨name, t, sequence_number⟩
    else fail (.error "received bad version") : Reader Failure TMessageIdentifier) := by
    intro b
    split
    · exact (within_ofOption _ _ le_rfl zero_le_one).bind hrest (by omega) le_rfl (by omega)
    · exact within_fail _ (by omega)
  exact (within_readExact 4).bind hheader (by omega) le_rfl (by omega)

theorem within_readFieldBegin : Within 2 (-1) 1 readFieldBegin := by
  have hrest : ∀ t : TType, Within 2 0 1 (if t = .Stop then pure ⟨t, some 0⟩ else do
      let id ← readInt 2
      pure ⟨t, some id⟩ : Reader Failure TFieldIdentifier) := by
    intro t
    split
    · exact within_pure _ le_rfl
    · exact ((within_readInt 2).bind_pure _).mono (by omega) le_rfl
  exact within_readType.bind hrest (by omega) le_rfl (by omega)

theorem within_readListBegin : Within 2 (-1) 1 readListBegin :=
  within_readType.bind (fun _ => (within_readInt 4).bind_pure _) (by omega) le_rfl (by omega)

theorem within_readMapBegin : Within 2 (-1) 1 readMapBegin := by
  have hrest : ∀ k, Within 2 (-1) 1 (do
      let v ← readType
      let size ← readInt 4
      pure (⟨some k, some v, size⟩ : TMapIdentifier)) := fun k =>
    within_readType.bind (fun _ => (within_readInt 4).bind_pure _) (by omega) le_rfl (by omega)
  exact within_readType.bind hrest (by omega) le_rfl (by omega)

theorem within_skipTillDepth (depth : ℕ) (t : TType) :
    Within 2 (-1) 1 (skipTillDepth depth t) := by
  induction depth generalizing t with
  | zero => exact within_fail _ (by omega)
  | succ depth ih =>
    have hnumber : ∀ n : ℕ, 0 < n → Within 2 (-1) 1 (readExact n >>= fun _ => pure ()) :=
      fun n hn => ((within_readExact n).bind_pure _).mono (by omega) le_rfl
    have hsequence : Within 2 (-1) 1 (readListBegin >>= fun l =>
        times l.size.toNat (fun _ => skipTillDepth depth l.element_type) ()) :=
      within_readListBegin.bind (fun l => Within.times (fun _ => ih _) (by omega) _ _)
        (by omega) le_rfl (by omega)
    cases t with
    | Bool => exact hnumber 1 (by omega)
    | I08 => exact hnumber 1 (by omega)
    | I16 => exact hnumber 2 (by omega)
    | I32 => exact hnumber 4 (by omega)
    | I64 => exact hnumber 8 (by omega)
    | Double => exact hnumber 8 (by omega)
    | String => exact within_readText.bind_pure _
    | Struct =>
      have hrest : ∀ field : TFieldIdentifier, Within 2 0 2
          (if field.field_type = .Stop then pure (.inr ()) else do
            skipTillDepth depth field.field_type
            pure (.inl ()) : Reader Failure (Unit ⊕ Unit)) := by
        intro field
        split
        · exact within_pure _ le_rfl
        · exact ((ih _).bind_pure _).mono (by omega) (by omega)
      exact Within.forever (fun _ => within_readFieldBegin.bind hrest (by omega) le_rfl (by omega))
        (by omega) ()
    | List => exact hsequence
    | Set => exact hsequence
    | Map =>
      have hentry : ∀ m, Within 2 (-2) 1 (skipEntry (skipTillDepth depth) m) := fun m =>
        (ih _).bind (fun _ => ih _) (by omega) le_rfl (by omega)
      exact within_readMapBegin.bind (fun m => Within.times (fun _ => hentry m) (by omega) _ _)
        (by omega) le_rfl (by omega)
    | _ => exact within_fail _ (by omega)

theorem marks_call : Marks (call (pure ())) := fun _ => rfl

theorem consumes_call (h : Within 2 (-1) 1 r) : Consumes (call r) where
  counted b := by
    unfold call
    cases hr : r b with
    | done a rest n => exact Nat.le_add_right 1 n
    | failed e n => exact Nat.le_add_right 1 n
    | endless => exact absurd hr (h.not_endless b)
  within b := by
    have hb := h b
    unfold call
    cases hr : r b with
    | done a rest n =>
      rw [hr] at hb
      simp only [Reading.after, Reading.Within] at hb ⊢
      omega
    | failed e n =>
      rw [hr] at hb
      simp only [Reading.after, Reading.Within] at hb ⊢
      omega
    | endless => exact absurd hr (h.not_endless b)
  takes hdone := by
    obtain ⟨k, hk, -⟩ := Reading.after_eq_done.1 hdone
    exact h.takes_one (by omega) hk

/-- **The binary protocol is frugal.** -/
theorem isFrugal : binary.IsFrugal where
  read_message_begin := consumes_call within_readMessageBegin
  read_message_end := marks_call
  read_struct_begin := marks_call
  read_struct_end := marks_call
  read_field_begin := consumes_call within_readFieldBegin
  read_field_end := marks_call
  read_i32 := consumes_call ((within_readInt 4).mono (by omega) le_rfl)
  read_string := consumes_call within_readText
  read_list_begin := consumes_call within_readListBegin
  read_list_end := marks_call
  read_map_begin := consumes_call within_readMapBegin
  read_map_end := marks_call
  skip t := consumes_call (within_skipTillDepth maximumSkipDepth t)
  read_application_error := consumes_call (within_skipTillDepth maximumSkipDepth .Struct)

/-! ## It reads the encodings -/

theorem reads_readExact {n : ℕ} {b : Bytes} (h : b.length = n) : (readExact n).Reads b b := by
  intro rest
  refine ⟨1, ?_⟩
  unfold readExact
  rw [if_pos (by rw [List.length_append]; omega), ← h, List.take_left, List.drop_left]

theorem reads_call {b : Bytes} {a : α} (h : r.Reads b a) : (call r).Reads b a := by
  intro rest
  obtain ⟨n, hn⟩ := h rest
  exact ⟨1 + n, Reading.after_eq_done.2 ⟨n, hn, rfl⟩⟩

theorem reads_readInt {width : ℕ} {i : ℤ} (h : Fits width i) :
    (readInt width).Reads (intCode width i) i := by
  have hread := (reads_readExact (length_intCode width i)).bind_pure ofIntCode
  rwa [ofIntCode_intCode h] at hread

theorem reads_readText {s : String} (h : TextFits s) : readText.Reads (textCode s) s := by
  have hbytes : readBytes.Reads (textCode s) (utf8 s) := by
    refine (reads_readInt h).bind ?_
    rw [if_neg (by omega), Int.toNat_natCast]
    exact reads_readExact rfl
  have htext : readText.Reads (textCode s ++ []) s := by
    refine hbytes.bind ?_
    rw [fromUtf8?_utf8]
    exact reads_pure s
  rwa [List.append_nil] at htext

theorem reads_readType (t : TType) : readType.Reads [t.code] t := by
  have hbyte : (readExact 1).Reads [t.code] [t.code] := reads_readExact rfl
  have hread : readType.Reads ([t.code] ++ []) t := by
    refine hbyte.bind ?_
    simp only [List.head?_cons, Option.bind_some, TType.ofCode?_code]
    exact reads_pure t
  exact hread

theorem reads_readMessageBegin {m : TMessageIdentifier} (hname : TextFits m.name)
    (hseq : Fits 4 m.sequence_number) : readMessageBegin.Reads (messageHeader m) m := by
  have hversion : (readExact 4).Reads [0x80, 0x01, 0x00, m.message_type.code]
      [0x80, 0x01, 0x00, m.message_type.code] := reads_readExact rfl
  refine hversion.bind ?_
  simp only [List.take_succ_cons, List.take_zero, if_true, List.getLast?_cons_cons,
    List.getLast?_singleton, Option.bind_some, TMessageType.ofCode?_code]
  exact (reads_pure m.message_type).bind
    ((reads_readText hname).bind ((reads_readInt hseq).bind_pure _))

theorem reads_readFieldBegin {t : TType} {id : ℤ} (hstop : t ≠ .Stop) (hid : Fits 2 id) :
    readFieldBegin.Reads (fieldHeader t id) ⟨t, some id⟩ := by
  refine (reads_readType t).bind ?_
  rw [if_neg hstop]
  exact (reads_readInt hid).bind_pure _

theorem reads_fieldStop : readFieldBegin.Reads fieldStop ⟨.Stop, some 0⟩ := by
  have hread : readFieldBegin.Reads (fieldStop ++ []) ⟨.Stop, some 0⟩ := by
    refine (reads_readType .Stop).bind ?_
    rw [if_pos rfl]
    exact reads_pure _
  exact hread

theorem reads_readListBegin (t : TType) {size : ℕ} (hsize : Fits 4 size) :
    readListBegin.Reads (listHeader t size) ⟨t, size⟩ :=
  (reads_readType t).bind ((reads_readInt hsize).bind_pure _)

theorem reads_readMapBegin (k v : TType) {size : ℕ} (hsize : Fits 4 size) :
    readMapBegin.Reads (mapHeader k v size) ⟨some k, some v, size⟩ :=
  (reads_readType k).bind ((reads_readType v).bind ((reads_readInt hsize).bind_pure _))

/-- The items of a list or a set, which `skip` skips. -/
theorem reads_items {skip : TType → Reader Failure Unit} {t : TType} {items : List Bytes}
    (hsize : Fits 4 items.length) (hitem : ∀ b ∈ items, (skip t).Reads b ()) :
    (readListBegin >>= fun l => times l.size.toNat (fun _ => skip l.element_type) ()).Reads
      (listHeader t items.length ++ items.flatten) () := by
  have hitems : (times items.length (fun _ => skip t) ()).Reads (items.flatMap fun b => b) () :=
    Reads.times (fun b hb _ => hitem b hb) ()
  rw [List.flatMap_id'] at hitems
  exact (reads_readListBegin t hsize).bind hitems

/-- **A value is skipped whole.** -/
theorem reads_skipTillDepth {depth : ℕ} {t : TType} {b : Bytes} (h : Encodes depth t b) :
    (skipTillDepth depth t).Reads b () := by
  induction h with
  | bool x =>
    have hbyte : (readExact 1).Reads [if x then 1 else 0] [if x then 1 else 0] :=
      reads_readExact rfl
    exact hbyte.bind_pure _
  | @number depth width t b ht hb =>
    cases t with
    | I08 => cases ht; exact (reads_readExact hb).bind_pure _
    | I16 => cases ht; exact (reads_readExact hb).bind_pure _
    | I32 => cases ht; exact (reads_readExact hb).bind_pure _
    | I64 => cases ht; exact (reads_readExact hb).bind_pure _
    | Double => cases ht; exact (reads_readExact hb).bind_pure _
    | _ => cases ht
  | string hs => exact (reads_readText hs).bind_pure _
  | @struct depth fields hid hvalue ih =>
    have hfield : ∀ f ∈ fields, ∀ _ : Unit,
        (skipField (skipTillDepth depth)).Reads f.code (.inl ()) := by
      intro f hf _
      refine (reads_readFieldBegin (hvalue f hf).ne_stop (hid f hf)).bind ?_
      rw [if_neg (hvalue f hf).ne_stop]
      exact (ih f hf).bind_pure _
    have hstop : (skipField (skipTillDepth depth)).Reads fieldStop (.inr ()) :=
      reads_fieldStop.bind (reads_pure _)
    exact Reads.forever (fun f _ => by simp [TField.code, fieldHeader]) hfield hstop
  | list hsize hitem ih => exact reads_items hsize ih
  | set hsize hitem ih => exact reads_items hsize ih
  | @map depth k v entries hsize hkey hvalue ihk ihv =>
    have hentry : ∀ e ∈ entries, ∀ _ : Unit,
        (skipEntry (skipTillDepth depth) ⟨some k, some v, entries.length⟩).Reads (e.1 ++ e.2) () :=
      fun e he _ => (ihk e he).bind (ihv e he)
    exact (reads_readMapBegin k v hsize).bind (by
      rw [Int.toNat_natCast]
      exact Reads.times hentry ())

/-- **The binary protocol reads the encodings.** -/
theorem isBinary : binary.IsBinary where
  read_message_begin _ hname hseq := reads_call (reads_readMessageBegin hname hseq)
  read_message_end := reads_call (reads_pure ())
  read_struct_begin := reads_call (reads_pure ())
  read_struct_end := reads_call (reads_pure ())
  read_field_begin _ _ hstop hid := reads_call (reads_readFieldBegin hstop hid)
  read_field_stop := ⟨some 0, reads_call reads_fieldStop⟩
  read_field_end := reads_call (reads_pure ())
  read_i32 _ hi := reads_call (reads_readInt hi)
  read_string _ hs := reads_call (reads_readText hs)
  read_list_begin t _ hsize := reads_call (reads_readListBegin t hsize)
  read_list_end := reads_call (reads_pure ())
  read_map_begin k v _ hsize := reads_call (reads_readMapBegin k v hsize)
  read_map_end := reads_call (reads_pure ())
  skip _ _ h := reads_call (reads_skipTillDepth h)

end Binary

end AigisZero.Thrift
