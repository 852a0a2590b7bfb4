import Mathlib.Algebra.Group.Nat.Defs
import Mathlib.Data.List.Basic

/-!
# UUIDs

The 128 bits of an identifier. What reads and prints the text forms is a
parameter of what uses it; `UuidText.standard` reads the usual forms and
prints the hyphenated one, for concrete runs.
-/

namespace AigisZero

/-- An identifier of 128 bits. -/
structure Uuid where
  /-- The bits, most significant first in the text form. -/
  bits : BitVec 128
deriving DecidableEq, Repr

namespace Uuid

/-- The value of a hexadecimal digit. -/
def hexDigit (c : Char) : Option ℕ :=
  if c.isDigit then some (c.toNat - 48)
  else if 'a' ≤ c ∧ c ≤ 'f' then some (c.toNat - 87)
  else if 'A' ≤ c ∧ c ≤ 'F' then some (c.toNat - 55)
  else none

/-- The form of 32 digits. -/
def simple (l : List Char) : Option Uuid :=
  if l.length = 32 then
    (l.mapM hexDigit).map fun ds => ⟨BitVec.ofNat 128 (ds.foldl (fun n d => 16 * n + d) 0)⟩
  else none

/-- The form of 32 digits with hyphens after the 8th, 12th, 16th and 20th. -/
def hyphenated (l : List Char) : Option Uuid :=
  if l.length = 36 ∧ l[8]? = some '-' ∧ l[13]? = some '-' ∧ l[18]? = some '-' ∧
      l[23]? = some '-' then
    simple (l.filter (· ≠ '-'))
  else none

/-- The usual text forms: plain, hyphenated, in braces, and as a URN. -/
def parseStr (s : String) : Except String Uuid :=
  let l := s.toList
  let parsed :=
    if l.length = 32 then simple l
    else if l.length = 38 ∧ l.head? = some '\x7b' ∧ l.getLast? = some '\x7d' then
      hyphenated ((l.drop 1).take 36)
    else if "urn:uuid:".toList <+: l then hyphenated (l.drop 9)
    else hyphenated l
  parsed.elim (.error "invalid UUID") .ok

/-- The digit of a value below 16. -/
def digitChar (n : ℕ) : Char := if n < 10 then Char.ofNat (48 + n) else Char.ofNat (87 + n)

/-- The hyphenated form, in lower case. -/
def toText (u : Uuid) : String :=
  let digits := (List.range 32).map fun i => digitChar (u.bits.toNat / 16 ^ (31 - i) % 16)
  let group (start len : ℕ) := (digits.drop start).take len
  String.ofList ((group 0 8) ++ '-' :: (group 8 4) ++ '-' :: (group 12 4) ++ '-' :: (group 16 4) ++
    '-' :: (group 20 12))

/-! ## What is printed is read back -/

theorem hexDigit_digitChar {n : ℕ} (h : n < 16) : hexDigit (digitChar n) = some n := by
  have hall : ∀ n < 16, hexDigit (digitChar n) = some n := by decide
  exact hall n h

/-- What prints a digit. -/
def isDigitChar (c : Char) : Bool := ('0' ≤ c && c ≤ '9') || ('a' ≤ c && c ≤ 'f')

theorem isDigitChar_digitChar {n : ℕ} (h : n < 16) : isDigitChar (digitChar n) = true := by
  have hall : ∀ n < 16, isDigitChar (digitChar n) = true := by decide
  exact hall n h

/-- The digits of a number, the first one first. -/
def digits (m k : ℕ) : List ℕ := (List.range k).map fun i => m / 16 ^ (k - 1 - i) % 16

theorem digits_succ (m k : ℕ) : digits m (k + 1) = digits (m / 16) k ++ [m % 16] := by
  unfold digits
  rw [List.range_succ, List.map_append, List.map_singleton]
  have hlast : m / 16 ^ (k + 1 - 1 - k) % 16 = m % 16 := by simp
  rw [hlast]
  congr 1
  refine List.map_congr_left fun i hi => ?_
  have hpow : k + 1 - 1 - i = k - 1 - i + 1 := by
    have := List.mem_range.1 hi
    omega
  rw [hpow, Nat.pow_succ', Nat.div_div_eq_div_mul]

theorem foldl_digits (m k : ℕ) : (digits m k).foldl (fun n d => 16 * n + d) 0 = m % 16 ^ k := by
  induction k generalizing m with
  | zero => simp [digits, Nat.mod_one]
  | succ k ih =>
    rw [digits_succ, List.foldl_append, ih, List.foldl_cons, List.foldl_nil, Nat.pow_succ',
      Nat.mod_mul, Nat.add_comm]

theorem lt_of_mem_digits {m k n : ℕ} (h : n ∈ digits m k) : n < 16 := by
  obtain ⟨i, -, rfl⟩ := List.mem_map.1 h
  exact Nat.mod_lt _ (by decide)

theorem mapM_digitChar {l : List ℕ} (h : ∀ n ∈ l, n < 16) :
    (l.map digitChar).mapM hexDigit = some l := by
  induction l with
  | nil => rfl
  | cons n l ih =>
    rw [List.map_cons, List.mapM_cons, hexDigit_digitChar (h n List.mem_cons_self),
      ih fun m hm => h m (List.mem_cons_of_mem _ hm)]
    rfl

/-- Digits in the hyphenated form. -/
def hyphens (l : List Char) : List Char :=
  l.take 8 ++ '-' :: (l.drop 8).take 4 ++ '-' :: (l.drop 12).take 4 ++ '-' :: (l.drop 16).take 4 ++
    '-' :: (l.drop 20).take 12

theorem toList_toText (u : Uuid) :
    u.toText.toList = hyphens ((digits u.bits.toNat 32).map digitChar) := by
  rw [toText, String.toList_ofList, digits, List.map_map]
  rfl

theorem hyphens_cons {l : List Char} (h : l.length = 32) :
    ∃ a b c d e : List Char, a.length = 8 ∧ b.length = 4 ∧ c.length = 4 ∧ d.length = 4 ∧
      e.length = 12 ∧ l = a ++ b ++ c ++ d ++ e ∧
      hyphens l = a ++ '-' :: b ++ '-' :: c ++ '-' :: d ++ '-' :: e := by
  refine ⟨l.take 8, (l.drop 8).take 4, (l.drop 12).take 4, (l.drop 16).take 4,
    (l.drop 20).take 12, ?_, ?_, ?_, ?_, ?_, ?_, rfl⟩
  · simp [h]
  · simp [h]
  · simp [h]
  · simp [h]
  · simp [h]
  · have hlast : (l.drop 20).take 12 = l.drop 20 := List.take_of_length_le (by simp [h])
    have hjoin : ∀ i j, (l.drop i).take j ++ l.drop (i + j) = l.drop i := fun i j => by
      rw [← List.drop_drop, List.take_append_drop]
    rw [hlast, List.append_assoc, List.append_assoc, List.append_assoc, hjoin 16 4, hjoin 12 4,
      hjoin 8 4, List.take_append_drop]

theorem length_hyphens {l : List Char} (h : l.length = 32) : (hyphens l).length = 36 := by
  obtain ⟨a, b, c, d, e, ha, hb, hc, hd, he, -, heq⟩ := hyphens_cons h
  rw [heq]
  simp [ha, hb, hc, hd, he]

theorem mem_hyphens {l : List Char} {x : Char} (h : x ∈ hyphens l) : x = '-' ∨ x ∈ l := by
  unfold hyphens at h
  simp only [List.mem_append, List.mem_cons] at h
  have htake : ∀ i j, x ∈ (l.drop i).take j → x ∈ l := fun i j hx =>
    List.drop_subset _ _ (List.take_subset _ _ hx)
  rcases h with ((((h | rfl | h) | rfl | h) | rfl | h) | rfl | h)
  · exact .inr (List.take_subset _ _ h)
  · exact .inl rfl
  · exact .inr (htake _ _ h)
  · exact .inl rfl
  · exact .inr (htake _ _ h)
  · exact .inl rfl
  · exact .inr (htake _ _ h)
  · exact .inl rfl
  · exact .inr (htake _ _ h)

theorem hyphenated_hyphens {l : List Char} (h : l.length = 32) (hyphen : '-' ∉ l) :
    hyphenated (hyphens l) = simple l := by
  obtain ⟨a, b, c, d, e, ha, hb, hc, hd, he, hl, heq⟩ := hyphens_cons h
  have hkeep : ∀ {m : List Char}, m ⊆ l → m.filter (· ≠ '-') = m := fun hm =>
    List.filter_eq_self.2 fun x hx => decide_eq_true fun hx' => hyphen (hx' ▸ hm hx)
  have hfilter : (hyphens l).filter (· ≠ '-') = l := by
    have hsub : a ⊆ l ∧ b ⊆ l ∧ c ⊆ l ∧ d ⊆ l ∧ e ⊆ l := by
      subst hl
      refine ⟨?_, ?_, ?_, ?_, ?_⟩ <;> intro x hx <;> simp [hx]
    obtain ⟨hsa, hsb, hsc, hsd, hse⟩ := hsub
    rw [heq]
    simp only [List.filter_append, List.filter_cons, hkeep hsa, hkeep hsb, hkeep hsc, hkeep hsd,
      hkeep hse]
    simp [hl]
  rw [hyphenated, if_pos, hfilter]
  refine ⟨length_hyphens h, ?_, ?_, ?_, ?_⟩
  all_goals
    rw [heq]
    simp [List.getElem?_append, ha, hb, hc, hd]

/-- What is printed is digits and hyphens. -/
theorem mem_toText {u : Uuid} {c : Char} (h : c ∈ u.toText.toList) :
    c = '-' ∨ isDigitChar c = true := by
  rw [toList_toText] at h
  refine (mem_hyphens h).imp id fun h => ?_
  obtain ⟨n, hn, rfl⟩ := List.mem_map.1 h
  exact isDigitChar_digitChar (lt_of_mem_digits hn)

theorem length_toText (u : Uuid) : u.toText.toList.length = 36 := by
  rw [toList_toText]
  exact length_hyphens (by simp [digits])

/-- **An identifier is read as it was printed.** -/
theorem parseStr_toText (u : Uuid) : parseStr u.toText = .ok u := by
  have hlen : ((digits u.bits.toNat 32).map digitChar).length = 32 := by simp [digits]
  have hyphen : '-' ∉ (digits u.bits.toNat 32).map digitChar := fun h => by
    obtain ⟨n, hn, heq⟩ := List.mem_map.1 h
    have hdigit := isDigitChar_digitChar (lt_of_mem_digits hn)
    rw [heq] at hdigit
    revert hdigit
    decide
  have hsimple : simple ((digits u.bits.toNat 32).map digitChar) = some u := by
    rw [simple, if_pos hlen, mapM_digitChar fun n hn => lt_of_mem_digits hn, Option.map_some,
      foldl_digits]
    have hmod : u.bits.toNat % 16 ^ 32 = u.bits.toNat := Nat.mod_eq_of_lt u.bits.isLt
    rw [hmod, BitVec.ofNat_toNat, BitVec.setWidth_eq]
  have hlong := length_toText u
  have hurn : ¬ "urn:uuid:".toList <+: u.toText.toList := fun h => by
    have hu : 'u' ∈ u.toText.toList := h.subset (by decide)
    revert hu
    exact fun hu => absurd (mem_toText hu) (by decide)
  unfold parseStr
  dsimp only
  rw [if_neg (by omega), if_neg (by omega), if_neg hurn, toList_toText,
    hyphenated_hyphens hlen hyphen, hsimple]
  rfl

theorem length_of_hyphenated {l : List Char} {u : Uuid} (h : hyphenated l = some u) :
    l.length = 36 := by
  unfold hyphenated at h
  split at h
  · next hform => exact hform.1
  · cases h

/-- **No form is longer** than the urn. -/
theorem length_le_of_parseStr {s : String} {u : Uuid} (h : parseStr s = .ok u) :
    s.toList.length ≤ 45 := by
  unfold parseStr at h
  dsimp only at h
  split at h
  · omega
  · split at h
    · omega
    · split at h
      · cases hform : hyphenated (s.toList.drop 9) with
        | none =>
          rw [hform] at h
          cases h
        | some v =>
          have hlen := length_of_hyphenated hform
          rw [List.length_drop] at hlen
          omega
      · cases hform : hyphenated s.toList with
        | none =>
          rw [hform] at h
          cases h
        | some v =>
          have hlen := length_of_hyphenated hform
          omega

end Uuid

/-- What reads and prints the text forms of identifiers. No identifier is
printed as nothing. -/
structure UuidText where
  /-- The identifier a text names, or why there is none. -/
  parse : String → Except String Uuid
  /-- The text of an identifier. -/
  print : Uuid → String
  print_ne_empty : ∀ u, print u ≠ ""

theorem Uuid.toText_ne_empty (u : Uuid) : u.toText ≠ "" := by
  intro h
  have hlist : u.toText.toList = [] := by rw [h, String.toList_empty]
  have hhyphen : '-' ∈ u.toText.toList := by simp [toText]
  rw [hlist] at hhyphen
  exact List.not_mem_nil hhyphen

/-- The usual forms. -/
def UuidText.standard : UuidText := ⟨Uuid.parseStr, Uuid.toText, Uuid.toText_ne_empty⟩

end AigisZero
