import AigisZero.Library.Reader

/-!
# The Thrift binary protocol

The encoding of integers, texts, headers and values, and the input side of
a protocol: the operations a generated or a hand-written reader is made of.
An implementation is a value of `TInputProtocol`; what is relied on of one
is stated as three properties of its operations.
-/

namespace AigisZero.Thrift

/-! ## Integers and texts -/

/-- `n` in `width` bytes, most significant first. -/
def natCode : ℕ → ℕ → Bytes
  | 0, _ => []
  | width + 1, n => natCode width (n / 256) ++ [UInt8.ofNat n]

/-- The number the bytes write, most significant first. -/
def ofNatCode (b : Bytes) : ℕ := b.foldl (fun n x => 256 * n + x.toNat) 0

@[simp] theorem length_natCode (width n : ℕ) : (natCode width n).length = width := by
  induction width generalizing n with
  | zero => rfl
  | succ width ih => simp [natCode, ih]

theorem ofNatCode_natCode {width n : ℕ} (h : n < 256 ^ width) :
    ofNatCode (natCode width n) = n := by
  induction width generalizing n with
  | zero =>
    have hn : n = 0 := by simpa using h
    simp [natCode, ofNatCode, hn]
  | succ width ih =>
    have hhigh : n / 256 < 256 ^ width := by
      rw [pow_succ] at h
      exact Nat.div_lt_of_lt_mul (by omega)
    have hrec := ih hhigh
    simp only [ofNatCode] at hrec
    simp only [natCode, ofNatCode, List.foldl_append, List.foldl_cons, List.foldl_nil, hrec,
      UInt8.toNat_ofNat']
    omega

/-- The integer fits `width` bytes, in two's complement. -/
def Fits (width : ℕ) (i : ℤ) : Prop := -(256 ^ width : ℕ) ≤ i * 2 ∧ i * 2 < (256 ^ width : ℕ)

instance (width : ℕ) (i : ℤ) : Decidable (Fits width i) := inferInstanceAs (Decidable (_ ∧ _))

/-- The integer in `width` bytes, in two's complement. -/
def intCode (width : ℕ) (i : ℤ) : Bytes := natCode width (i % (256 ^ width : ℕ)).toNat

/-- The integer the bytes write in two's complement. -/
def ofIntCode (b : Bytes) : ℤ := Int.bmod (ofNatCode b) (256 ^ b.length)

@[simp] theorem length_intCode (width : ℕ) (i : ℤ) : (intCode width i).length = width :=
  length_natCode _ _

theorem ofIntCode_intCode {width : ℕ} {i : ℤ} (h : Fits width i) :
    ofIntCode (intCode width i) = i := by
  have hpos : 0 < 256 ^ width := by positivity
  have hnonneg := Int.emod_nonneg i (b := (256 ^ width : ℕ)) (by omega)
  have hlt := Int.emod_lt_of_pos i (b := (256 ^ width : ℕ)) (by omega)
  rw [ofIntCode, length_intCode, intCode, ofNatCode_natCode (by omega), Int.toNat_of_nonneg hnonneg,
    Int.emod_bmod, Int.bmod_eq_of_le_mul_two h.1 h.2]

/-- A text: the length of its encoding, and the encoding. -/
def textCode (s : String) : Bytes := intCode 4 (utf8 s).length ++ utf8 s

/-- The text is short enough to be written. -/
def TextFits (s : String) : Prop := Fits 4 (utf8 s).length

/-! ## Types and headers -/

/-- `TType`. What is `Utf7` there is a `String` on the wire. -/
inductive TType where
  | Stop | Void | Bool | I08 | Double | I16 | I32 | I64 | String | Struct | Map | Set | List | Utf8
  | Utf16
  deriving DecidableEq, Repr

/-- The byte of the type on the wire. -/
def TType.code : TType → UInt8
  | .Stop => 0x00
  | .Void => 0x01
  | .Bool => 0x02
  | .I08 => 0x03
  | .Double => 0x04
  | .I16 => 0x06
  | .I32 => 0x08
  | .I64 => 0x0A
  | .String => 0x0B
  | .Struct => 0x0C
  | .Map => 0x0D
  | .Set => 0x0E
  | .List => 0x0F
  | .Utf8 => 0x10
  | .Utf16 => 0x11

/-- The bytes a value of the type takes, where it is a number. -/
def TType.width? : TType → Option ℕ
  | .I08 => some 1
  | .I16 => some 2
  | .I32 => some 4
  | .I64 => some 8
  | .Double => some 8
  | _ => none

/-- `TMessageType`. -/
inductive TMessageType where
  | Call | Reply | Exception | OneWay
  deriving DecidableEq, Repr

def TMessageType.code : TMessageType → UInt8
  | .Call => 1
  | .Reply => 2
  | .Exception => 3
  | .OneWay => 4

/-- `TMessageIdentifier`. -/
structure TMessageIdentifier where
  name : String
  message_type : TMessageType
  sequence_number : ℤ

/-- `TFieldIdentifier`. -/
structure TFieldIdentifier where
  field_type : TType
  id : Option ℤ

/-- `TListIdentifier`. -/
structure TListIdentifier where
  element_type : TType
  size : ℤ

/-- `TMapIdentifier`. -/
structure TMapIdentifier where
  key_type : Option TType
  value_type : Option TType
  size : ℤ

/-- The header of a message, in the strict form: the version comes first. -/
def messageHeader (m : TMessageIdentifier) : Bytes :=
  [0x80, 0x01, 0x00, m.message_type.code] ++ (textCode m.name ++ intCode 4 m.sequence_number)

def fieldHeader (t : TType) (id : ℤ) : Bytes := t.code :: intCode 2 id

/-- The end of the fields of a struct. -/
def fieldStop : Bytes := [TType.Stop.code]

def listHeader (t : TType) (size : ℕ) : Bytes := t.code :: intCode 4 size

def mapHeader (k v : TType) (size : ℕ) : Bytes := k.code :: v.code :: intCode 4 size

/-! ## Values -/

/-- A field: its type, its identifier, and the encoding of its value. -/
structure TField where
  field_type : TType
  id : ℤ
  value : Bytes
  deriving DecidableEq

def TField.code (f : TField) : Bytes := fieldHeader f.field_type f.id ++ f.value

/-- The fields one after the other, and the end of them. -/
def fieldsCode (fields : List TField) : Bytes := fields.flatMap TField.code ++ fieldStop

/-- **The bytes encode a value of the type** which is nested at most
`depth` deep. -/
inductive Encodes : ℕ → TType → Bytes → Prop where
  | bool {depth : ℕ} (b : Bool) : Encodes (depth + 1) .Bool [if b then 1 else 0]
  | number {depth width : ℕ} {t : TType} {b : Bytes} (ht : t.width? = some width)
      (hb : b.length = width) : Encodes (depth + 1) t b
  | string {depth : ℕ} {s : String} (hs : TextFits s) : Encodes (depth + 1) .String (textCode s)
  | struct {depth : ℕ} {fields : List TField} (hid : ∀ f ∈ fields, Fits 2 f.id)
      (hvalue : ∀ f ∈ fields, Encodes depth f.field_type f.value) :
      Encodes (depth + 1) .Struct (fieldsCode fields)
  | list {depth : ℕ} {t : TType} {items : List Bytes} (hsize : Fits 4 items.length)
      (hitem : ∀ b ∈ items, Encodes depth t b) :
      Encodes (depth + 1) .List (listHeader t items.length ++ items.flatten)
  | set {depth : ℕ} {t : TType} {items : List Bytes} (hsize : Fits 4 items.length)
      (hitem : ∀ b ∈ items, Encodes depth t b) :
      Encodes (depth + 1) .Set (listHeader t items.length ++ items.flatten)
  | map {depth : ℕ} {k v : TType} {entries : List (Bytes × Bytes)}
      (hsize : Fits 4 entries.length) (hkey : ∀ e ∈ entries, Encodes depth k e.1)
      (hvalue : ∀ e ∈ entries, Encodes depth v e.2) :
      Encodes (depth + 1) .Map
        (mapHeader k v entries.length ++ entries.flatMap fun e => e.1 ++ e.2)

/-- No value is of type `Stop`. -/
theorem Encodes.ne_stop {depth : ℕ} {t : TType} {b : Bytes} (h : Encodes depth t b) :
    t ≠ .Stop := by
  rintro rfl
  cases h with
  | number ht _ => cases ht

/-- **The bytes encode a struct** of which the fields `known` are known.
These stand in any order, and between them there may be others: of another
identifier, and a value of any type nested at most `depth` deep. -/
def EncodesStruct (depth : ℕ) (known : List TField) (b : Bytes) : Prop :=
  ∃ fields unknown : List TField, fields.Perm (known ++ unknown) ∧
    (∀ f ∈ unknown, Fits 2 f.id ∧ Encodes depth f.field_type f.value ∧
      f.id ∉ known.map TField.id) ∧
    b = fieldsCode fields

/-! ## Input protocols -/

/-- How an operation fails. -/
inductive Failure where
  /-- It returns an error with this text. -/
  | error (text : String)
  | panicked
  deriving DecidableEq

/-- **The input side of a protocol.** -/
structure TInputProtocol where
  read_message_begin : Reader Failure TMessageIdentifier
  read_message_end : Reader Failure Unit
  read_struct_begin : Reader Failure Unit
  read_struct_end : Reader Failure Unit
  read_field_begin : Reader Failure TFieldIdentifier
  read_field_end : Reader Failure Unit
  read_i32 : Reader Failure ℤ
  read_string : Reader Failure String
  read_list_begin : Reader Failure TListIdentifier
  read_list_end : Reader Failure Unit
  read_map_begin : Reader Failure TMapIdentifier
  read_map_end : Reader Failure Unit
  skip : TType → Reader Failure Unit
  /-- `Error::read_application_error_from_in_protocol`. -/
  read_application_error : Reader Failure Unit
  /-- `MAXIMUM_SKIP_DEPTH`. -/
  skip_depth : ℕ

namespace TInputProtocol

/-- Every operation that marks the beginning or the end of something has
one property, and every other the second. -/
structure Each (P : TInputProtocol) (marks : Reader Failure Unit → Prop)
    (takes : ∀ {α : Type}, Reader Failure α → Prop) : Prop where
  read_message_begin : takes P.read_message_begin
  read_message_end : marks P.read_message_end
  read_struct_begin : marks P.read_struct_begin
  read_struct_end : marks P.read_struct_end
  read_field_begin : takes P.read_field_begin
  read_field_end : marks P.read_field_end
  read_i32 : takes P.read_i32
  read_string : takes P.read_string
  read_list_begin : takes P.read_list_begin
  read_list_end : marks P.read_list_end
  read_map_begin : takes P.read_map_begin
  read_map_end : marks P.read_map_end
  skip : ∀ t, takes (P.skip t)
  read_application_error : takes P.read_application_error

variable {P : TInputProtocol} {marks marks' : Reader Failure Unit → Prop}
  {takes takes' : ∀ {α : Type}, Reader Failure α → Prop}

theorem Each.imp (h : P.Each marks takes) (hmarks : ∀ r, marks r → marks' r)
    (htakes : ∀ {α : Type} (r : Reader Failure α), takes r → takes' r) : P.Each marks' takes' where
  read_message_begin := htakes _ h.read_message_begin
  read_message_end := hmarks _ h.read_message_end
  read_struct_begin := hmarks _ h.read_struct_begin
  read_struct_end := hmarks _ h.read_struct_end
  read_field_begin := htakes _ h.read_field_begin
  read_field_end := hmarks _ h.read_field_end
  read_i32 := htakes _ h.read_i32
  read_string := htakes _ h.read_string
  read_list_begin := htakes _ h.read_list_begin
  read_list_end := hmarks _ h.read_list_end
  read_map_begin := htakes _ h.read_map_begin
  read_map_end := hmarks _ h.read_map_end
  skip t := htakes _ (h.skip t)
  read_application_error := htakes _ h.read_application_error

/-- **The protocol is sequential**: it takes its bytes in order, and a
failure other than a `short` one is not for lack of bytes. -/
def IsSequential (P : TInputProtocol) (short : Failure → Bool) : Prop :=
  P.Each (Reader.Sequential short) (Reader.Sequential short)

/-- A marking operation is one read of no bytes. -/
def Marks (r : Reader Failure Unit) : Prop := ∀ b, r b = .done () b 1

/-- Any other is a read itself, takes a byte, and makes two reads for each
byte at most. -/
structure Consumes {α : Type} (r : Reader Failure α) : Prop where
  counted : ∀ b, (r b).Counted
  within : r.Within 2 0 2
  takes : r.Takes 1

/-- **The protocol is frugal**: each operation ends, and its reads are
bounded by the bytes it takes. -/
def IsFrugal (P : TInputProtocol) : Prop := P.Each Marks Consumes

/-- **The protocol reads the encodings above.** -/
structure IsBinary (P : TInputProtocol) : Prop where
  read_message_begin : ∀ m : TMessageIdentifier, TextFits m.name → Fits 4 m.sequence_number →
    P.read_message_begin.Reads (messageHeader m) m
  read_message_end : P.read_message_end.Reads [] ()
  read_struct_begin : P.read_struct_begin.Reads [] ()
  read_struct_end : P.read_struct_end.Reads [] ()
  read_field_begin : ∀ t id, t ≠ .Stop → Fits 2 id →
    P.read_field_begin.Reads (fieldHeader t id) ⟨t, some id⟩
  read_field_stop : ∃ id, P.read_field_begin.Reads fieldStop ⟨.Stop, id⟩
  read_field_end : P.read_field_end.Reads [] ()
  read_i32 : ∀ i, Fits 4 i → P.read_i32.Reads (intCode 4 i) i
  read_string : ∀ s, TextFits s → P.read_string.Reads (textCode s) s
  read_list_begin : ∀ t (size : ℕ), Fits 4 size →
    P.read_list_begin.Reads (listHeader t size) ⟨t, size⟩
  read_list_end : P.read_list_end.Reads [] ()
  read_map_begin : ∀ k v (size : ℕ), Fits 4 size →
    P.read_map_begin.Reads (mapHeader k v size) ⟨some k, some v, size⟩
  read_map_end : P.read_map_end.Reads [] ()
  skip : ∀ t b, Encodes P.skip_depth t b → (P.skip t).Reads b ()

end TInputProtocol

end AigisZero.Thrift
