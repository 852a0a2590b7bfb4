import AigisZero.Library.Utf8
import Mathlib.Data.List.Perm.Basic

/-!
# Hash sets

A set kept in a hash table: an element is looked for among those that are
stored where its hash leads. What the table does with its elements otherwise
is open. If equal elements have one hash, the set is what it is without a
hash; a table whose hash does not respect equality cannot be built.
-/

namespace AigisZero

universe u v

variable {α : Type u} {β : Type v}

/-! ## Hashers -/

/-- What a value tells a hasher. -/
inductive HasherCall where
  | write (bytes : Bytes)
  | write_u8 (byte : UInt8)
deriving DecidableEq, Repr

/-- How the hashers of a table begin, and what they make of the calls. -/
structure BuildHasher where
  State : Type
  build_hasher : State
  call : State → HasherCall → State
  finish : State → UInt64

/-- `BuildHasher::hash_one`. -/
def BuildHasher.hash_one (b : BuildHasher) (calls : List HasherCall) : UInt64 :=
  b.finish (calls.foldl b.call b.build_hasher)

/-- `str::hash`. -/
def hashStr (s : String) : List HasherCall := [.write (utf8 s), .write_u8 0xff]

theorem hashStr_injective : Function.Injective hashStr := by
  intro s s' h
  have hbytes : utf8 s = utf8 s' := HasherCall.write.inj (List.cons.inj h).1
  have hread := congrArg fromUtf8? hbytes
  rw [fromUtf8?_utf8, fromUtf8?_utf8] at hread
  exact Option.some.inj hread

theorem flatMap_hashStr_injective :
    Function.Injective fun l : List (String × String) =>
      l.flatMap fun c => hashStr c.1 ++ hashStr c.2 := by
  intro l l' h
  dsimp only at h
  induction l generalizing l' with
  | nil =>
    cases l' with
    | nil => rfl
    | cons c' l' => cases h
  | cons c l ih =>
    cases l' with
    | nil => cases h
    | cons c' l' =>
      rw [List.flatMap_cons, List.flatMap_cons] at h
      obtain ⟨hpair, hrest⟩ := List.append_inj h rfl
      obtain ⟨hfst, hsnd⟩ := List.append_inj hpair rfl
      rw [Prod.ext (hashStr_injective hfst) (hashStr_injective hsnd), ih hrest]

/-! ## Tables -/

/-- Where a table stores its elements. What is stored, and in which order it
is visited, may depend on all that was done with the table. -/
structure Layout (α : Type u) (hash : α → UInt64) where
  Slots : Type u
  empty : Slots
  /-- The elements in the order in which they are visited. -/
  elements : Slots → List α
  /-- Room is made for one more. -/
  reserve : Slots → Slots
  /-- One more is stored. -/
  place : Slots → α → Slots
  /-- What is compared with an element of a hash. -/
  probe : Slots → UInt64 → List α
  elements_empty : elements empty = []
  elements_reserve : ∀ s, (elements (reserve s)).Perm (elements s)
  elements_place : ∀ s a, (elements (place (reserve s) a)).Perm (a :: elements (reserve s))
  probe_subset : ∀ s h, probe s h ⊆ elements s
  /-- Whatever is stored is compared with the elements of its hash. -/
  mem_probe : ∀ {s a}, a ∈ elements s → a ∈ probe s (hash a)

/-- The elements in the order in which they came, compared with those of
their hash only. -/
def Layout.inOrder (hash : α → UInt64) : Layout α hash where
  Slots := List α
  empty := []
  elements := id
  reserve := id
  place l a := l ++ [a]
  probe l h := l.filter fun a => hash a = h
  elements_empty := rfl
  elements_reserve := List.Perm.refl
  elements_place _ _ := List.perm_append_singleton _ _
  probe_subset _ _ := List.filter_subset_self _
  mem_probe ha := List.mem_filter.2 ⟨ha, decide_eq_true rfl⟩

/-- **A hash table**: its hash respects equality. -/
structure HashTable (α : Type u) [BEq α] where
  hash : α → UInt64
  hash_eq : ∀ {a b : α}, (a == b) = true → hash a = hash b
  layout : Layout α hash

/-- What is in a table: no two elements of it are equal. -/
structure HashSet [BEq α] (t : HashTable α) where
  slots : t.layout.Slots
  distinct : (t.layout.elements slots).Pairwise fun a b => (a == b) = false

namespace HashSet

section Operations

variable [BEq α] {t t' : HashTable α}

/-- The elements in the order in which they are visited. -/
def elements (s : HashSet t) : List α := t.layout.elements s.slots

def new (t : HashTable α) : HashSet t where
  slots := t.layout.empty
  distinct := by
    rw [t.layout.elements_empty]
    exact .nil

@[simp] theorem elements_new : (new t).elements = [] := t.layout.elements_empty

def contains (s : HashSet t) (a : α) : Bool :=
  (t.layout.probe s.slots (t.hash a)).any (a == ·)

/-- The elements of the one that the other has not, in the order they are
visited. -/
def difference (s : HashSet t) (other : HashSet t') : List α :=
  s.elements.filter fun a => !other.contains a

/-- **Looking where the hash leads** is looking everywhere. -/
theorem contains_eq_any (s : HashSet t) (a : α) : s.contains a = s.elements.any (a == ·) := by
  rw [Bool.eq_iff_iff, contains, List.any_eq_true, List.any_eq_true]
  constructor
  · rintro ⟨b, hb, hab⟩
    exact ⟨b, t.layout.probe_subset _ _ hb, hab⟩
  · rintro ⟨b, hb, hab⟩
    refine ⟨b, ?_, hab⟩
    rw [t.hash_eq hab]
    exact t.layout.mem_probe hb

theorem contains_new (a : α) : (new t).contains a = false := by
  rw [contains_eq_any, elements_new]
  rfl

variable [PartialEquivBEq α]

/-- The elements of a set, stored in another order. -/
theorem distinct_of_perm {l l' : List α} (h : l.Perm l')
    (hl : l'.Pairwise fun a b => (a == b) = false) : l.Pairwise fun a b => (a == b) = false :=
  (h.pairwise_iff fun {a b} hab => by rwa [BEq.comm]).2 hl

/-- The set with room for one more. -/
def reserve (s : HashSet t) : HashSet t where
  slots := t.layout.reserve s.slots
  distinct := distinct_of_perm (t.layout.elements_reserve s.slots) s.distinct

def insert (s : HashSet t) (a : α) : HashSet t :=
  let s' := s.reserve
  if h : s'.contains a = true then s'
  else
    { slots := t.layout.place s'.slots a
      distinct := by
        refine distinct_of_perm (t.layout.elements_place s.slots a)
          (List.pairwise_cons.2 ⟨fun b hb => ?_, s'.distinct⟩)
        rw [contains_eq_any, List.any_eq_true] at h
        exact Bool.eq_false_iff.2 fun hab => h ⟨b, hb, hab⟩ }

/-- The set of a list. -/
def ofList (t : HashTable α) (l : List α) : HashSet t := l.foldl insert (new t)

theorem elements_reserve (s : HashSet t) : s.reserve.elements.Perm s.elements :=
  t.layout.elements_reserve s.slots

omit [PartialEquivBEq α] in
theorem contains_of_perm {s s' : HashSet t} (h : s.elements.Perm s'.elements) (a : α) :
    s.contains a = s'.contains a := by
  rw [contains_eq_any, contains_eq_any]
  exact h.any_eq

/-- **An element is added** if none is equal to it, wherever it is stored. -/
theorem elements_insert (s : HashSet t) (a : α) :
    (s.insert a).elements.Perm (if s.contains a then s.elements else a :: s.elements) := by
  rw [← contains_of_perm s.elements_reserve]
  unfold insert
  dsimp only
  split
  · exact s.elements_reserve
  · exact (t.layout.elements_place s.slots a).trans (s.elements_reserve.cons a)

theorem contains_insert (s : HashSet t) (a b : α) :
    (s.insert a).contains b = ((b == a) || s.contains b) := by
  rw [contains_eq_any, (elements_insert s a).any_eq]
  split
  · next h =>
    -- what is equal to the element is equal to the one that is there
    rw [← contains_eq_any]
    cases hab : b == a with
    | false => rfl
    | true =>
      rw [Bool.true_or]
      rw [contains_eq_any, List.any_eq_true] at h ⊢
      obtain ⟨c, hc, hac⟩ := h
      exact ⟨c, hc, BEq.trans hab hac⟩
  · rw [List.any_cons, contains_eq_any]

theorem elements_foldl_insert (s : HashSet t) (l : List α) :
    (l.foldl insert s).elements.Perm
      (s.elements ++ (l.filter fun a => !s.contains a).eraseDups) := by
  induction l generalizing s with
  | nil => simp
  | cons a l ih =>
    rw [List.foldl_cons]
    refine (ih (s.insert a)).trans ?_
    have hinsert := elements_insert s a
    by_cases ha : s.contains a = true
    · rw [if_pos ha] at hinsert
      simp only [contains_of_perm hinsert]
      rw [List.filter_cons_of_neg (by simp [ha])]
      exact hinsert.append_right _
    · rw [if_neg ha] at hinsert
      rw [List.filter_cons_of_pos (by simp [ha]), List.eraseDups_cons, List.filter_filter]
      simp only [contains_insert, Bool.not_or]
      exact (hinsert.append_right _).trans List.perm_middle.symm

/-- **The set of a list** holds the first of the elements that are equal. -/
theorem elements_ofList (t : HashTable α) (l : List α) :
    (ofList t l).elements.Perm l.eraseDups := by
  have h := elements_foldl_insert (new t) l
  have hall : (l.filter fun a => !(new t).contains a) = l :=
    List.filter_eq_self.2 fun a _ => by rw [contains_new, Bool.not_false]
  rwa [hall, elements_new] at h

/-- **What is in the set of a list** is what the list has an equal of. -/
theorem contains_ofList (t : HashTable α) (l : List α) (b : α) :
    (ofList t l).contains b = l.any (b == ·) := by
  have hfoldl : ∀ s : HashSet t, (l.foldl insert s).contains b =
      (l.any (b == ·) || s.contains b) := by
    induction l with
    | nil => exact fun _ => rfl
    | cons a l ih =>
      intro s
      rw [List.foldl_cons, ih, contains_insert, List.any_cons, Bool.or_left_comm, Bool.or_assoc]
  rw [ofList, hfoldl, contains_new, Bool.or_false]

theorem mem_of_mem_elements_ofList {l : List α} {a : α} (h : a ∈ (ofList t l).elements) :
    a ∈ l := by
  have hfoldl : ∀ s : HashSet t, a ∈ (l.foldl insert s).elements → a ∈ l ∨ a ∈ s.elements := by
    clear h
    induction l with
    | nil => exact fun _ => .inr
    | cons b l ih =>
      intro s h
      rcases ih _ h with h | h
      · exact .inl (List.mem_cons_of_mem _ h)
      · rw [(elements_insert s b).mem_iff] at h
        split at h
        · exact .inr h
        · rcases List.mem_cons.1 h with rfl | h
          · exact .inl List.mem_cons_self
          · exact .inr h
  refine (hfoldl _ h).resolve_right ?_
  rw [elements_new]
  exact List.not_mem_nil

/-! ## The difference of two lists -/

/-- **The difference depends on no table**, but for its order. -/
theorem difference_ofList (t t' : HashTable α) (l l' : List α) :
    ((ofList t l).difference (ofList t' l')).Perm
      (l.eraseDups.filter fun a => !l'.any (a == ·)) := by
  unfold difference
  simp only [contains_ofList]
  exact (elements_ofList t l).filter _

/-- A list differs in nothing from itself. -/
theorem difference_self [ReflBEq α] (t t' : HashTable α) (l : List α) :
    (ofList t l).difference (ofList t' l) = [] := by
  refine List.filter_eq_nil_iff.2 fun a ha => ?_
  have hself : l.any (a == ·) = true :=
    List.any_eq_true.2 ⟨a, mem_of_mem_elements_ofList ha, BEq.rfl⟩
  simp [contains_ofList, hself]

end Operations

/-! ## Up to equality -/

section Classes

variable [BEq α] [PartialEquivBEq α] {t t' : HashTable α} {q : α → β}

omit [PartialEquivBEq α] in
theorem nodup_map_difference (hq : ∀ a b, (a == b) = true ↔ q a = q b) (s : HashSet t)
    (other : HashSet t') : ((s.difference other).map q).Nodup := by
  rw [List.Nodup, List.pairwise_map]
  refine (s.distinct.filter _).imp fun {a b} hab heq => ?_
  rw [(hq a b).2 heq] at hab
  cases hab

/-- **The difference of the sets of two lists** is the difference of the
lists as sets, where `q` tells apart what is not equal. -/
theorem mem_map_difference (hq : ∀ a b, (a == b) = true ↔ q a = q b) {l l' : List α} {x : β} :
    x ∈ ((ofList t l).difference (ofList t' l')).map q ↔ x ∈ l.map q ∧ x ∉ l'.map q := by
  have hany : ∀ (l : List α) (a : α), l.any (a == ·) = true ↔ q a ∈ l.map q := by
    intro l a
    rw [List.any_eq_true, List.mem_map]
    exact exists_congr fun b => and_congr_right fun _ => (hq a b).trans eq_comm
  have hmem : ∀ a, a ∈ (ofList t l).difference (ofList t' l') ↔
      a ∈ (ofList t l).elements ∧ q a ∉ l'.map q := by
    intro a
    rw [difference, List.mem_filter, Bool.not_eq_true', contains_ofList, ← hany,
      Bool.not_eq_true]
  rw [List.mem_map]
  constructor
  · rintro ⟨a, ha, rfl⟩
    obtain ⟨hin, hout⟩ := (hmem a).1 ha
    exact ⟨List.mem_map_of_mem (mem_of_mem_elements_ofList hin), hout⟩
  · rintro ⟨hin, hout⟩
    obtain ⟨a, ha, rfl⟩ := List.mem_map.1 hin
    -- the element may be stored under another that is equal
    have hstored := contains_ofList t l a
    rw [(hany l a).2 hin, contains_eq_any, List.any_eq_true] at hstored
    obtain ⟨b, hb, hab⟩ := hstored
    have heq := (hq a b).1 hab
    exact ⟨b, (hmem b).2 ⟨hb, heq ▸ hout⟩, heq.symm⟩

end Classes

end HashSet

end AigisZero
