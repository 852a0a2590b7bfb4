import AigisZero.Library.Utf8
import Mathlib.Algebra.Group.Int.Defs
import Mathlib.Data.List.Induction
import Mathlib.Data.String.Basic

/-!
# JSON values

Values as the platform holds them in memory: the members of an object are
kept in the order of their keys. What prints and reads the text of a value
is a parameter of what uses it, with the one law that matters: a printed
value is read back.
-/

namespace AigisZero

/-! ## Ordered fields -/

namespace Fields

variable {V : Type*}

/-- The value under a key. -/
def lookup (k : String) (fs : List (String × V)) : Option V :=
  (fs.find? (·.1 = k)).map Prod.snd

/-- Put a value under a key, in the place of the one there was. -/
def insert (k : String) (v : V) : List (String × V) → List (String × V)
  | [] => [(k, v)]
  | (k', v') :: fs =>
    if k < k' then (k, v) :: (k', v') :: fs
    else if k = k' then (k, v) :: fs
    else (k', v') :: insert k v fs

/-- The fields of a list of members: of two under one key, the later. -/
def ofList (members : List (String × V)) : List (String × V) :=
  members.foldl (fun fs m => insert m.1 m.2 fs) []

/-- The keys go up. -/
def Sorted (fs : List (String × V)) : Prop := fs.Pairwise fun a b => a.1 < b.1

variable {k k' : String} {v : V} {fs members : List (String × V)}

@[simp] theorem lookup_nil : lookup k ([] : List (String × V)) = none := rfl

@[simp] theorem lookup_cons :
    lookup k ((k', v) :: fs) = if k' = k then some v else lookup k fs := by
  by_cases h : k' = k <;> simp [lookup, h]

/-- **What is put under a key is there, and nothing else changes.** -/
@[simp] theorem lookup_insert :
    lookup k' (insert k v fs) = if k = k' then some v else lookup k' fs := by
  induction fs with
  | nil => simp [insert]
  | cons f fs ih =>
    obtain ⟨k₀, v₀⟩ := f
    unfold insert
    -- before the head, in its place, or further on
    by_cases hlt : k < k₀
    · rw [if_pos hlt, lookup_cons]
    · rw [if_neg hlt]
      by_cases heq : k = k₀
      · subst heq
        rw [if_pos rfl, lookup_cons, lookup_cons]
        by_cases h : k = k' <;> simp [h]
      · rw [if_neg heq, lookup_cons, lookup_cons, ih]
        by_cases h : k = k'
        · subst h
          simp [Ne.symm heq]
        · simp [h]

theorem mem_insert {f : String × V} (h : f ∈ insert k v fs) : f = (k, v) ∨ f ∈ fs := by
  induction fs with
  | nil => exact .inl (List.mem_singleton.1 h)
  | cons f₀ fs ih =>
    obtain ⟨k₀, v₀⟩ := f₀
    unfold insert at h
    split at h
    · exact List.mem_cons.1 h
    · split at h
      · rcases List.mem_cons.1 h with h | h
        · exact .inl h
        · exact .inr (List.mem_cons_of_mem _ h)
      · rcases List.mem_cons.1 h with h | h
        · exact .inr (h ▸ List.mem_cons_self)
        · exact (ih h).imp_right (List.mem_cons_of_mem _)

/-- A put keeps the order of the keys. -/
theorem Sorted.insert (h : Sorted fs) : Sorted (insert k v fs) := by
  induction fs with
  | nil => exact List.pairwise_singleton ..
  | cons f fs ih =>
    obtain ⟨k₀, v₀⟩ := f
    obtain ⟨hhead, htail⟩ := List.pairwise_cons.1 h
    unfold Fields.insert
    by_cases hlt : k < k₀
    · rw [if_pos hlt]
      refine List.pairwise_cons.2 ⟨fun f hf => ?_, h⟩
      rcases List.mem_cons.1 hf with rfl | hf
      · exact hlt
      · exact hlt.trans (hhead f hf)
    · rw [if_neg hlt]
      by_cases heq : k = k₀
      · subst heq
        rw [if_pos rfl]
        exact List.pairwise_cons.2 ⟨hhead, htail⟩
      · rw [if_neg heq]
        refine List.pairwise_cons.2 ⟨fun f hf => ?_, ih htail⟩
        rcases mem_insert hf with rfl | hf
        · exact lt_of_le_of_ne (not_lt.1 hlt) (Ne.symm heq)
        · exact hhead f hf

theorem ofList_concat {m : String × V} :
    ofList (members ++ [m]) = insert m.1 m.2 (ofList members) := by
  rw [ofList, List.foldl_concat]
  rfl

theorem sorted_ofList (members : List (String × V)) : Sorted (ofList members) := by
  induction members using List.reverseRecOn with
  | nil => exact List.Pairwise.nil
  | append_singleton members m ih => rw [ofList_concat]; exact ih.insert

/-- A put past all keys goes to the end. -/
theorem insert_of_lt (h : ∀ f ∈ fs, f.1 < k) : insert k v fs = fs ++ [(k, v)] := by
  induction fs with
  | nil => rfl
  | cons f fs ih =>
    obtain ⟨k₀, v₀⟩ := f
    have hlt : k₀ < k := h (k₀, v₀) List.mem_cons_self
    unfold insert
    rw [if_neg hlt.asymm, if_neg hlt.ne', ih fun f hf => h f (List.mem_cons_of_mem _ hf)]
    rfl

/-- Fields in order are their own. -/
theorem ofList_eq_self (h : Sorted fs) : ofList fs = fs := by
  induction fs using List.reverseRecOn with
  | nil => rfl
  | append_singleton fs f ih =>
    obtain ⟨hinit, -, hlast⟩ := List.pairwise_append.1 h
    rw [ofList_concat, ih hinit,
      insert_of_lt fun f' hf' => hlast f' hf' f (List.mem_singleton_self f)]

/-- **Under distinct keys each member is there.** -/
theorem lookup_ofList (h : (members.map Prod.fst).Nodup) :
    lookup k (ofList members) = lookup k members := by
  induction members using List.reverseRecOn with
  | nil => rfl
  | append_singleton members m ih =>
    rw [List.map_append, List.nodup_append] at h
    obtain ⟨hinit, -, hfresh⟩ := h
    rw [ofList_concat, lookup_insert, ih hinit, lookup, lookup, List.find?_append]
    by_cases hk : m.1 = k
    · have hnone : members.find? (·.1 = k) = none := by
        refine List.find?_eq_none.2 fun f hf heq => ?_
        have hfk : f.1 = k := by simpa using heq
        exact hfresh f.1 (List.mem_map_of_mem hf) m.1 (by simp) (hfk.trans hk.symm)
      simp [hk, hnone]
    · simp [hk]

theorem mem_ofList {f : String × V} (h : f ∈ ofList members) : f ∈ members := by
  induction members using List.reverseRecOn with
  | nil => exact h
  | append_singleton members m ih =>
    rw [ofList_concat] at h
    rcases mem_insert h with rfl | h
    · exact List.mem_append_right _ (List.mem_singleton_self _)
    · exact List.mem_append_left _ (ih h)

end Fields

/-! ## Values -/

/-- **A JSON value.** A number that is no 64-bit integer is kept as the
text it was read from. -/
inductive Json where
  | null
  | bool (b : Bool)
  | int (i : ℤ)
  | float (literal : String)
  | str (s : String)
  | arr (elements : List Json)
  | obj (fields : List (String × Json))
deriving Repr, Inhabited

namespace Json

/-- An object of the members given. -/
def object (members : List (String × Json)) : Json := obj (Fields.ofList members)

/-- The fields of an object. -/
def asObject? : Json → Option (List (String × Json))
  | obj fields => some fields
  | _ => none

/-- The elements of an array. -/
def asArray? : Json → Option (List Json)
  | arr elements => some elements
  | _ => none

/-- The text of a string. -/
def asStr? : Json → Option String
  | str s => some s
  | _ => none

/-- The value of a number that is a signed 64-bit integer. -/
def asI64? : Json → Option Int64
  | int i => if -2 ^ 63 ≤ i ∧ i < 2 ^ 63 then some (Int64.ofInt i) else none
  | _ => none

/-- The member of an object under a key. -/
def get? (j : Json) (k : String) : Option Json := j.asObject?.bind (Fields.lookup k)

/-- The member under a key, `null` where there is none. -/
def index (j : Json) (k : String) : Json := (j.get? k).getD null

/-- Put a member into an object; another value is left alone. -/
def insert (j : Json) (k : String) (v : Json) : Json :=
  match j with
  | obj fields => obj (Fields.insert k v fields)
  | j => j

@[simp] theorem get?_obj {fields : List (String × Json)} {k : String} :
    (obj fields).get? k = Fields.lookup k fields := rfl

/-- **A member put in is there, and nothing else changes.** -/
@[simp] theorem get?_insert_obj {fields : List (String × Json)} {k k' : String} {v : Json} :
    ((obj fields).insert k v).get? k' = if k = k' then some v else (obj fields).get? k' :=
  Fields.lookup_insert

/-- An object of distinct keys has each of its members. -/
theorem get?_object {members : List (String × Json)} {k : String}
    (h : (members.map Prod.fst).Nodup) : (object members).get? k = Fields.lookup k members :=
  Fields.lookup_ofList h

@[simp] theorem asStr?_str {s : String} : (str s).asStr? = some s := rfl

theorem asStr?_eq_some {j : Json} {s : String} : j.asStr? = some s ↔ j = str s := by
  cases j <;> simp [asStr?]

@[simp] theorem asI64?_toInt (n : Int64) : (int n.toInt).asI64? = some n := by
  rw [asI64?, if_pos ⟨Int64.le_toInt n, Int64.toInt_lt n⟩, Int64.ofInt_toInt]

/-- **A value that is its own reading**: integers of 64 bits and no other
numbers, keys in order, and at most `depth` arrays and objects one in
another. -/
inductive Canonical : ℕ → Json → Prop where
  | null {depth} : Canonical depth null
  | bool {depth b} : Canonical depth (bool b)
  | int {depth i} (range : -2 ^ 63 ≤ i ∧ i < 2 ^ 64) : Canonical depth (int i)
  | str {depth s} : Canonical depth (str s)
  | arr {depth elements} (each : ∀ j ∈ elements, Canonical depth j) :
    Canonical (depth + 1) (arr elements)
  | obj {depth fields} (sorted : Fields.Sorted fields)
    (each : ∀ f ∈ fields, Canonical depth f.2) : Canonical (depth + 1) (obj fields)

theorem Canonical.mono {depth depth' : ℕ} {j : Json} (h : Canonical depth j)
    (hle : depth ≤ depth') : Canonical depth' j := by
  induction h generalizing depth' with
  | null => exact .null
  | bool => exact .bool
  | int range => exact .int range
  | str => exact .str
  | arr _ ih =>
    obtain ⟨n, rfl⟩ : ∃ n, depth' = n + 1 := ⟨depth' - 1, by omega⟩
    exact .arr fun j hj => ih j hj (by omega)
  | obj sorted _ ih =>
    obtain ⟨n, rfl⟩ : ∃ n, depth' = n + 1 := ⟨depth' - 1, by omega⟩
    exact .obj sorted fun f hf => ih f hf (by omega)

/-- A signed 64-bit integer is canonical. -/
theorem canonical_toInt {depth : ℕ} (n : Int64) : Canonical depth (int n.toInt) :=
  .int ⟨Int64.le_toInt n, (Int64.toInt_lt n).trans (by decide)⟩

/-- So is an object with a canonical member put into it. -/
theorem canonical_insert {depth : ℕ} {fields : List (String × Json)} {k : String} {v : Json}
    (h : Canonical (depth + 1) (obj fields)) (hv : Canonical depth v) :
    Canonical (depth + 1) ((obj fields).insert k v) := by
  cases h with
  | obj sorted each =>
    refine .obj sorted.insert fun f hf => ?_
    rcases Fields.mem_insert hf with rfl | hf
    · exact hv
    · exact each f hf

/-- An object of canonical members is canonical. -/
theorem canonical_object {depth : ℕ} {members : List (String × Json)}
    (h : ∀ m ∈ members, Canonical depth m.2) : Canonical (depth + 1) (object members) :=
  .obj (Fields.sorted_ofList members) fun m hm => h m (Fields.mem_ofList hm)

/-- **A value as a reader makes it**: canonical but for its other numbers,
of which `float` says which texts they can have. -/
inductive Readable (float : String → Prop) : ℕ → Json → Prop where
  | null {depth} : Readable float depth null
  | bool {depth b} : Readable float depth (bool b)
  | int {depth i} (range : -2 ^ 63 ≤ i ∧ i < 2 ^ 64) : Readable float depth (int i)
  | float {depth literal} (read : float literal) : Readable float depth (Json.float literal)
  | str {depth s} : Readable float depth (str s)
  | arr {depth elements} (each : ∀ j ∈ elements, Readable float depth j) :
    Readable float (depth + 1) (arr elements)
  | obj {depth fields} (sorted : Fields.Sorted fields)
    (each : ∀ f ∈ fields, Readable float depth f.2) : Readable float (depth + 1) (obj fields)

/-- A canonical value is readable. -/
theorem Canonical.readable {float : String → Prop} {depth : ℕ} {j : Json} (h : Canonical depth j) :
    Readable float depth j := by
  induction h with
  | null => exact .null
  | bool => exact .bool
  | int range => exact .int range
  | str => exact .str
  | arr _ ih => exact .arr ih
  | obj sorted _ ih => exact .obj sorted ih

/-- An object with a readable member put into it is readable. -/
theorem readable_insert {float : String → Prop} {depth : ℕ} {fields : List (String × Json)}
    {k : String} {v : Json} (h : Readable float (depth + 1) (obj fields))
    (hv : Readable float depth v) : Readable float (depth + 1) ((obj fields).insert k v) := by
  cases h with
  | obj sorted each =>
    refine .obj sorted.insert fun f hf => ?_
    rcases Fields.mem_insert hf with rfl | hf
    · exact hv
    · exact each f hf

end Json

/-! ## Texts -/

/-- **What prints and reads JSON.** At most 127 arrays and objects are read
one in another. -/
structure JsonCodec where
  /-- `serde_json::to_string`. -/
  toText : Json → String
  /-- `serde_json::from_str`. -/
  ofText : String → Option Json
  /-- What is said of bytes that are no JSON text. -/
  errorText : Bytes → String
  /-- The text of a list of members, in whatever order, is read as the
  object they make. -/
  ofText_members : ∀ members : List (String × Json),
    (∀ m ∈ members, Json.Canonical 126 m.2) →
    ofText (toText (.obj members)) = some (Json.object members)
  /-- The text of a canonical value is read as the value. -/
  ofText_toText : ∀ j, Json.Canonical 127 j → ofText (toText j) = some j

namespace JsonCodec

variable (codec : JsonCodec)

/-- `serde_json::to_vec`. -/
def toVec (j : Json) : Bytes := utf8 (codec.toText j)

/-- `serde_json::from_slice`. -/
def fromSlice (b : Bytes) : Option Json := (fromUtf8? b).bind codec.ofText

theorem fromSlice_toVec {j : Json} (h : j.Canonical 127) :
    codec.fromSlice (codec.toVec j) = some j := by
  rw [fromSlice, toVec, fromUtf8?_utf8, Option.bind_some, codec.ofText_toText j h]

end JsonCodec

/-- **A codec that loses nothing**: what it has read it reads back, once
printed. A number that is no 64-bit integer counts as its text: how such
numbers are rounded is not modelled. -/
structure ExactCodec extends JsonCodec where
  /-- The texts of the numbers that are no 64-bit integers. -/
  float : String → Prop
  /-- What is read is readable. -/
  readable : ∀ {s j}, ofText s = some j → j.Readable float 127
  /-- The text of a readable value is read as the value. -/
  ofText_readable : ∀ {j : Json}, j.Readable float 127 → ofText (toText j) = some j

namespace ExactCodec

variable {codec : ExactCodec}

theorem readable_of_fromSlice {b : Bytes} {j : Json} (h : codec.fromSlice b = some j) :
    j.Readable codec.float 127 := by
  obtain ⟨s, -, hs⟩ := Option.bind_eq_some_iff.1 h
  exact codec.readable hs

theorem fromSlice_toVec {j : Json} (h : j.Readable codec.float 127) :
    codec.fromSlice (codec.toVec j) = some j := by
  rw [JsonCodec.fromSlice, JsonCodec.toVec, fromUtf8?_utf8, Option.bind_some,
    codec.ofText_readable h]

end ExactCodec

/-- **A codec that reads members in any order**, as the printer of a record
writes them in the order of its declaration. -/
structure MemberCodec extends ExactCodec where
  /-- The text of a list of readable members is read as the object they make. -/
  ofText_readable_members : ∀ members : List (String × Json),
    (∀ m ∈ members, Json.Readable float 126 m.2) →
    ofText (toText (.obj members)) = some (Json.object members)

theorem MemberCodec.fromSlice_toVec {codec : MemberCodec} {members : List (String × Json)}
    (h : ∀ m ∈ members, Json.Readable codec.float 126 m.2) :
    codec.fromSlice (codec.toVec (.obj members)) = some (Json.object members) := by
  rw [JsonCodec.fromSlice, JsonCodec.toVec, fromUtf8?_utf8, Option.bind_some,
    codec.ofText_readable_members members h]

end AigisZero
