import AigisZero.Library.Json

/-!
# JSON texts

A printer without blanks and a reader of JSON texts, on characters, and
that the reader gives back what was printed. They make a codec, so that
what is shown of every codec holds of one that can be run.
-/

namespace AigisZero.JsonText

/-! ## Printing -/

/-- The escape of a control character. -/
def unicodeEscape (c : Char) : List Char :=
  ['\\', 'u', '0', '0', (c.toNat / 16).digitChar, (c.toNat % 16).digitChar]

/-- The letter that escapes a character, where it has one. -/
def shortEscape : Char → Option Char
  | '"' => some '"'
  | '\\' => some '\\'
  | '\x08' => some 'b'
  | '\x0c' => some 'f'
  | '\n' => some 'n'
  | '\r' => some 'r'
  | '\t' => some 't'
  | _ => none

/-- A character inside a string. -/
def escapeChar (c : Char) : List Char :=
  match shortEscape c with
  | some e => ['\\', e]
  | none => if c.toNat < 32 then unicodeEscape c else [c]

/-- The characters of a string, with the closing quote. -/
def printChars : List Char → List Char
  | [] => ['"']
  | c :: cs => escapeChar c ++ printChars cs

/-- A string. -/
def printString (s : String) : List Char := '"' :: printChars s.toList

/-- An integer. -/
def printInt (i : ℤ) : List Char :=
  if i < 0 then '-' :: Nat.toDigits 10 i.natAbs else Nat.toDigits 10 i.natAbs

mutual

/-- A value. -/
def print : Json → List Char
  | .null => ['n', 'u', 'l', 'l']
  | .bool true => ['t', 'r', 'u', 'e']
  | .bool false => ['f', 'a', 'l', 's', 'e']
  | .int i => printInt i
  | .float literal => literal.toList
  | .str s => printString s
  | .arr [] => ['[', ']']
  | .arr (j :: js) => '[' :: (print j ++ printElements js)
  | .obj [] => ['\x7b', '\x7d']
  | .obj ((k, v) :: ms) => '\x7b' :: (printString k ++ ':' :: (print v ++ printMembers ms))

/-- The elements after the first, with the closing bracket. -/
def printElements : List Json → List Char
  | [] => [']']
  | j :: js => ',' :: (print j ++ printElements js)

/-- The members after the first, with the closing brace. -/
def printMembers : List (String × Json) → List Char
  | [] => ['\x7d']
  | (k, v) :: ms => ',' :: (printString k ++ ':' :: (print v ++ printMembers ms))

end

/-! ## Reading -/

/-- A blank. -/
def isBlank (c : Char) : Bool := c = ' ' || c = '\n' || c = '\t' || c = '\r'

/-- The text after its leading blanks. -/
def skipBlanks (cs : List Char) : List Char := cs.dropWhile isBlank

/-- The value of a hexadecimal digit. -/
def hexVal (c : Char) : Option ℕ :=
  if '0' ≤ c ∧ c ≤ '9' then some (c.toNat - 48)
  else if 'a' ≤ c ∧ c ≤ 'f' then some (c.toNat - 87)
  else if 'A' ≤ c ∧ c ≤ 'F' then some (c.toNat - 55)
  else none

/-- Four hexadecimal digits. -/
def hex4 : List Char → Option (ℕ × List Char)
  | a :: b :: c :: d :: cs => do
    let a ← hexVal a
    let b ← hexVal b
    let c ← hexVal c
    let d ← hexVal d
    return (((a * 16 + b) * 16 + c) * 16 + d, cs)
  | _ => none

/-- The second half of a surrogate pair. -/
def lowSurrogate (high : ℕ) : List Char → Option (Char × List Char)
  | '\\' :: 'u' :: cs => do
    let (low, cs) ← hex4 cs
    if 0xDC00 ≤ low ∧ low ≤ 0xDFFF then
      return (Char.ofNat (0x10000 + (high - 0xD800) * 0x400 + (low - 0xDC00)), cs)
    else none
  | _ => none

/-- What stands after a backslash. -/
def escape : List Char → Option (Char × List Char)
  | '"' :: cs => some ('"', cs)
  | '\\' :: cs => some ('\\', cs)
  | '/' :: cs => some ('/', cs)
  | 'b' :: cs => some ('\x08', cs)
  | 'f' :: cs => some ('\x0c', cs)
  | 'n' :: cs => some ('\n', cs)
  | 'r' :: cs => some ('\r', cs)
  | 't' :: cs => some ('\t', cs)
  | 'u' :: cs => do
    let (n, cs) ← hex4 cs
    if 0xD800 ≤ n ∧ n ≤ 0xDBFF then lowSurrogate n cs
    else if 0xDC00 ≤ n ∧ n ≤ 0xDFFF then none
    else return (Char.ofNat n, cs)
  | _ => none

/-- The characters of a string up to its closing quote, of which there are
fewer than `fuel`. -/
def readChars : ℕ → List Char → Option (List Char × List Char)
  | 0, _ => none
  | _, [] => none
  | fuel + 1, c :: cs =>
    if c = '"' then some ([], cs)
    else if c = '\\' then
      (escape cs).bind fun r => (readChars fuel r.2).map fun r' => (r.1 :: r'.1, r'.2)
    else if c.toNat < 32 then none
    else (readChars fuel cs).map fun r => (c :: r.1, r.2)

/-- A string, after its opening quote. -/
def readString (cs : List Char) : Option (String × List Char) :=
  (readChars (cs.length + 1) cs).map fun r => (String.ofList r.1, r.2)

/-- The digits at the head, of which there must be one. -/
def readDigits (cs : List Char) : Option (List Char × List Char) :=
  let digits := cs.takeWhile Char.isDigit
  if digits.isEmpty then none else some (digits, cs.dropWhile Char.isDigit)

/-- The fraction of a number, where there is one. -/
def readFraction : List Char → Option (List Char × List Char)
  | '.' :: cs => (readDigits cs).map fun r => ('.' :: r.1, r.2)
  | cs => some ([], cs)

/-- The exponent of a number, where there is one. -/
def readExponent : List Char → Option (List Char × List Char)
  | c :: cs =>
    if c = 'e' ∨ c = 'E' then
      match cs with
      | '+' :: cs => (readDigits cs).map fun r => (c :: '+' :: r.1, r.2)
      | '-' :: cs => (readDigits cs).map fun r => (c :: '-' :: r.1, r.2)
      | cs => (readDigits cs).map fun r => (c :: r.1, r.2)
    else some ([], c :: cs)
  | [] => some ([], [])

/-- The number of an unsigned literal without fraction and exponent: an
integer where it has 64 bits. -/
def integerOf (negative : Bool) (digits : List Char) : Json :=
  let n := Nat.ofDigitChars 10 digits 0
  let sign := if negative then ['-'] else []
  if negative then
    if 0 < n ∧ n ≤ 2 ^ 63 then .int (-n) else .float (String.ofList (sign ++ digits))
  else if n < 2 ^ 64 then .int n else .float (String.ofList digits)

/-- A number after its sign. -/
def readUnsigned (negative : Bool) (cs : List Char) : Option (Json × List Char) := do
  let (digits, cs) ← readDigits cs
  if digits.head? = some '0' ∧ digits.length ≠ 1 then none
  let (fraction, cs) ← readFraction cs
  let (exponent, cs) ← readExponent cs
  if fraction.isEmpty ∧ exponent.isEmpty then return (integerOf negative digits, cs)
  else
    let sign := if negative then ['-'] else []
    return (.float (String.ofList (sign ++ digits ++ fraction ++ exponent)), cs)

/-- A number. -/
def readNumber : List Char → Option (Json × List Char)
  | '-' :: cs => readUnsigned true cs
  | cs => readUnsigned false cs

/-- A value that is no array and no object. -/
def readScalar : List Char → Option (Json × List Char)
  | 'n' :: 'u' :: 'l' :: 'l' :: cs => some (.null, cs)
  | 't' :: 'r' :: 'u' :: 'e' :: cs => some (.bool true, cs)
  | 'f' :: 'a' :: 'l' :: 's' :: 'e' :: cs => some (.bool false, cs)
  | '"' :: cs => (readString cs).map fun r => (.str r.1, r.2)
  | cs => readNumber cs

section Containers

variable (value : List Char → Option (Json × List Char))

/-- The elements after the first, up to the closing bracket. -/
def readElements : ℕ → List Char → Option (List Json × List Char)
  | 0, _ => none
  | fuel + 1, cs =>
    match skipBlanks cs with
    | ']' :: cs => some ([], cs)
    | ',' :: cs => do
      let (j, cs) ← value cs
      let (js, cs) ← readElements fuel cs
      return (j :: js, cs)
    | _ => none

/-- A member: a key, a colon, a value. -/
def readMember (cs : List Char) : Option ((String × Json) × List Char) :=
  match skipBlanks cs with
  | '"' :: cs => do
    let (k, cs) ← readString cs
    match skipBlanks cs with
    | ':' :: cs =>
      let (v, cs) ← value cs
      return ((k, v), cs)
    | _ => none
  | _ => none

/-- The members after the first, up to the closing brace. -/
def readMembers : ℕ → List Char → Option (List (String × Json) × List Char)
  | 0, _ => none
  | fuel + 1, cs =>
    match skipBlanks cs with
    | '\x7d' :: cs => some ([], cs)
    | ',' :: cs => do
      let (m, cs) ← readMember value cs
      let (ms, cs) ← readMembers fuel cs
      return (m :: ms, cs)
    | _ => none

/-- An array after its opening bracket. -/
def readArray (cs : List Char) : Option (Json × List Char) :=
  match skipBlanks cs with
  | ']' :: cs => some (.arr [], cs)
  | cs => do
    let (j, cs) ← value cs
    let (js, cs) ← readElements value (cs.length + 1) cs
    return (.arr (j :: js), cs)

/-- An object after its opening brace. -/
def readObject (cs : List Char) : Option (Json × List Char) :=
  match skipBlanks cs with
  | '\x7d' :: cs => some (Json.object [], cs)
  | cs => do
    let (m, cs) ← readMember value cs
    let (ms, cs) ← readMembers value (cs.length + 1) cs
    return (Json.object (m :: ms), cs)

end Containers

/-- A value with at most the given number of arrays and objects one in
another. -/
def readValue : ℕ → List Char → Option (Json × List Char)
  | 0, cs =>
    match skipBlanks cs with
    | '[' :: _ => none
    | '\x7b' :: _ => none
    | cs => readScalar cs
  | depth + 1, cs =>
    match skipBlanks cs with
    | '[' :: cs => readArray (readValue depth) cs
    | '\x7b' :: cs => readObject (readValue depth) cs
    | cs => readScalar cs

/-- The value of a text: one value, and blanks after it. -/
def read (s : String) : Option Json := do
  let (j, cs) ← readValue 127 s.toList
  if skipBlanks cs = [] then some j else none

/-! ## Strings are read back -/

theorem hexVal_digitChar : ∀ d < 16, hexVal d.digitChar = some d := by decide

/-- The escape of a control character is read as the character. -/
theorem escape_unicodeEscape {c : Char} (h : c.toNat < 32) (rest : List Char) :
    escape ((unicodeEscape c).tail ++ rest) = some (c, rest) := by
  have hhigh := hexVal_digitChar (c.toNat / 16) (by omega)
  have hlow := hexVal_digitChar (c.toNat % 16) (by omega)
  have hzero : hexVal '0' = some 0 := by decide
  have hread : hex4 ('0' :: '0' :: (c.toNat / 16).digitChar :: (c.toNat % 16).digitChar :: rest) =
      some (c.toNat, rest) := by
    have hvalue : ((0 * 16 + 0) * 16 + c.toNat / 16) * 16 + c.toNat % 16 = c.toNat := by omega
    simp only [hex4, hzero, hhigh, hlow, Option.bind_eq_bind, Option.bind_some, Option.pure_def,
      hvalue]
  have hnosurrogate : ¬ (0xD800 ≤ c.toNat ∧ c.toNat ≤ 0xDBFF) := by omega
  have hnosurrogate' : ¬ (0xDC00 ≤ c.toNat ∧ c.toNat ≤ 0xDFFF) := by omega
  simp only [unicodeEscape, List.tail_cons, List.cons_append, List.nil_append, escape, hread,
    Option.bind_eq_bind, Option.bind_some, if_neg hnosurrogate, if_neg hnosurrogate',
    Char.ofNat_toNat, Option.pure_def]

/-- So is a short escape. -/
theorem escape_shortEscape {c e : Char} (h : shortEscape c = some e) (rest : List Char) :
    escape (e :: rest) = some (c, rest) := by
  unfold shortEscape at h
  split at h <;> cases h <;> rfl

theorem readChars_escapeChar (c : Char) (fuel : ℕ) (rest : List Char) :
    readChars (fuel + 1) (escapeChar c ++ rest) =
      (readChars fuel rest).map fun r => (c :: r.1, r.2) := by
  unfold escapeChar
  cases hshort : shortEscape c with
  | some e => simp [readChars, escape_shortEscape hshort]
  | none =>
    by_cases hcontrol : c.toNat < 32
    · have hescape := escape_unicodeEscape hcontrol rest
      simp only [unicodeEscape, List.tail_cons, List.cons_append, List.nil_append] at hescape
      simp [hcontrol, unicodeEscape, readChars, hescape]
    · have hquote : c ≠ '"' := by rintro rfl; cases hshort
      have hslash : c ≠ '\\' := by rintro rfl; cases hshort
      simp [hcontrol, readChars, hquote, hslash]

theorem readChars_printChars {cs : List Char} {fuel : ℕ} (h : cs.length < fuel) (rest : List Char) :
    readChars fuel (printChars cs ++ rest) = some (cs, rest) := by
  induction cs generalizing fuel with
  | nil =>
    obtain ⟨n, rfl⟩ := Nat.exists_eq_succ_of_ne_zero (Nat.ne_zero_of_lt h)
    simp [printChars, readChars]
  | cons c cs ih =>
    obtain ⟨n, rfl⟩ := Nat.exists_eq_succ_of_ne_zero (Nat.ne_zero_of_lt h)
    rw [printChars, List.append_assoc, readChars_escapeChar, ih (Nat.lt_of_succ_lt_succ h)]
    rfl

theorem length_escapeChar (c : Char) : 1 ≤ (escapeChar c).length := by
  unfold escapeChar
  cases shortEscape c with
  | some e => simp
  | none => by_cases h : c.toNat < 32 <;> simp [h, unicodeEscape]

theorem length_printChars (cs : List Char) : cs.length < (printChars cs).length := by
  induction cs with
  | nil => simp [printChars]
  | cons c cs ih =>
    have hc := length_escapeChar c
    simp only [printChars, List.length_append, List.length_cons]
    omega

/-- **A string is read back.** -/
theorem readString_printString (s : String) (rest : List Char) :
    readString (printChars s.toList ++ rest) = some (s, rest) := by
  have hfuel : s.toList.length < (printChars s.toList ++ rest).length + 1 := by
    have := length_printChars s.toList
    simp only [List.length_append]
    omega
  rw [readString, readChars_printChars hfuel]
  simp

/-! ## Integers are read back -/

/-- What can stand after a number. -/
def Ends (rest : List Char) : Prop :=
  ∀ c cs, rest = c :: cs → c = ',' ∨ c = ']' ∨ c = '\x7d'

theorem ends_nil : Ends [] := nofun

theorem ends_cons {c : Char} {cs : List Char} (h : c = ',' ∨ c = ']' ∨ c = '\x7d') :
    Ends (c :: cs) := by
  intro c' cs' heq
  cases heq
  exact h

/-- A text of digits. -/
structure IsDigits (ds : List Char) : Prop where
  ne_nil : ds ≠ []
  digits : ∀ c ∈ ds, c.isDigit = true

/-- The fraction of a number, or none. -/
def IsFraction (fraction : List Char) : Prop :=
  fraction = [] ∨ ∃ ds, IsDigits ds ∧ fraction = '.' :: ds

/-- The exponent of a number, or none. -/
def IsExponent (exponent : List Char) : Prop :=
  exponent = [] ∨ ∃ c sign ds, (c = 'e' ∨ c = 'E') ∧ (sign = [] ∨ sign = ['+'] ∨ sign = ['-']) ∧
    IsDigits ds ∧ exponent = c :: (sign ++ ds)

/-- No digit stands at the head. -/
def NoDigit (cs : List Char) : Prop := ∀ c rest, cs = c :: rest → c.isDigit = false

theorem Ends.noDigit {rest : List Char} (h : Ends rest) : NoDigit rest := by
  intro c cs heq
  rcases h c cs heq with rfl | rfl | rfl <;> rfl

theorem isDigits_toDigits (n : ℕ) : IsDigits (Nat.toDigits 10 n) :=
  ⟨Nat.toDigits_ne_nil, fun _ hc => Nat.isDigit_of_mem_toDigits (by decide) (by decide) hc⟩

theorem isDigits_of_readDigits {cs ds rest : List Char} (h : readDigits cs = some (ds, rest)) :
    IsDigits ds := by
  unfold readDigits at h
  dsimp only at h
  split at h
  · cases h
  · next hne =>
    obtain ⟨rfl, -⟩ := Prod.mk.inj (Option.some.inj h)
    exact ⟨fun hnil => hne (by rw [hnil]; rfl),
      fun c hc => List.all_eq_true.1 List.all_takeWhile c hc⟩

/-- Digits are read up to what is none. -/
theorem readDigits_append {ds rest : List Char} (h : IsDigits ds) (hrest : NoDigit rest) :
    readDigits (ds ++ rest) = some (ds, rest) := by
  have hstop : rest.takeWhile Char.isDigit = [] ∧ rest.dropWhile Char.isDigit = rest := by
    cases rest with
    | nil => exact ⟨rfl, rfl⟩
    | cons c cs =>
      have hc := hrest c cs rfl
      exact ⟨List.takeWhile_cons_of_neg (by simp [hc]), List.dropWhile_cons_of_neg (by simp [hc])⟩
  have hne : ds.isEmpty = false := List.isEmpty_eq_false_iff.2 h.ne_nil
  rw [readDigits, List.takeWhile_append_of_pos h.digits, List.dropWhile_append_of_pos h.digits,
    hstop.1, hstop.2, List.append_nil, hne]
  rfl

theorem isFraction_of_readFraction {cs fraction rest : List Char}
    (h : readFraction cs = some (fraction, rest)) : IsFraction fraction := by
  unfold readFraction at h
  split at h
  · obtain ⟨⟨ds, tail⟩, hds, heq⟩ := Option.map_eq_some_iff.1 h
    obtain ⟨rfl, -⟩ := Prod.mk.inj heq
    exact .inr ⟨ds, isDigits_of_readDigits hds, rfl⟩
  · obtain ⟨rfl, -⟩ := Prod.mk.inj (Option.some.inj h)
    exact .inl rfl

theorem readFraction_append {fraction rest : List Char} (h : IsFraction fraction)
    (hrest : NoDigit rest) (hpoint : ∀ cs, rest ≠ '.' :: cs) :
    readFraction (fraction ++ rest) = some (fraction, rest) := by
  rcases h with rfl | ⟨ds, hds, rfl⟩
  · rw [List.nil_append]
    unfold readFraction
    split
    · next cs => exact absurd rfl (hpoint cs)
    · rfl
  · rw [List.cons_append, readFraction, readDigits_append hds hrest]
    rfl

theorem isExponent_of_readExponent {cs exponent rest : List Char}
    (h : readExponent cs = some (exponent, rest)) : IsExponent exponent := by
  unfold readExponent at h
  split at h
  · next c cs =>
    split at h
    · next hc =>
      -- with a sign or without one, digits come next
      split at h <;> obtain ⟨⟨ds, tail⟩, hds, heq⟩ := Option.map_eq_some_iff.1 h <;>
        obtain ⟨rfl, -⟩ := Prod.mk.inj heq
      · exact .inr ⟨c, ['+'], ds, hc, .inr (.inl rfl), isDigits_of_readDigits hds, rfl⟩
      · exact .inr ⟨c, ['-'], ds, hc, .inr (.inr rfl), isDigits_of_readDigits hds, rfl⟩
      · exact .inr ⟨c, [], ds, hc, .inl rfl, isDigits_of_readDigits hds, rfl⟩
    · obtain ⟨rfl, -⟩ := Prod.mk.inj (Option.some.inj h)
      exact .inl rfl
  · obtain ⟨rfl, -⟩ := Prod.mk.inj (Option.some.inj h)
    exact .inl rfl

theorem readExponent_append {exponent rest : List Char} (h : IsExponent exponent)
    (hrest : Ends rest) : readExponent (exponent ++ rest) = some (exponent, rest) := by
  rcases h with rfl | ⟨c, sign, ds, hc, hsign, hds, rfl⟩
  · cases rest with
    | nil => rfl
    | cons c cs => rcases hrest c cs rfl with rfl | rfl | rfl <;> rfl
  · have hread := readDigits_append hds hrest.noDigit
    rcases hsign with rfl | rfl | rfl
    · -- the first digit is no sign
      cases ds with
      | nil => exact absurd rfl hds.ne_nil
      | cons d ds =>
        have hd := hds.digits d List.mem_cons_self
        rw [List.nil_append, List.cons_append]
        unfold readExponent
        dsimp only
        rw [if_pos hc]
        split
        · next heq => cases heq; exact absurd hd (by decide)
        · next heq => cases heq; exact absurd hd (by decide)
        · rw [hread]
          rfl
    · simp only [List.cons_append, List.nil_append, readExponent, if_pos hc, hread, Option.map_some]
    · simp only [List.cons_append, List.nil_append, readExponent, if_pos hc, hread, Option.map_some]

/-- What follows the digits of a number is none. -/
theorem noDigit_append {exponent rest : List Char} (h : IsExponent exponent) (hrest : Ends rest) :
    NoDigit (exponent ++ rest) ∧ ∀ cs, exponent ++ rest ≠ '.' :: cs := by
  rcases h with rfl | ⟨c, sign, ds, hc, -, -, rfl⟩
  · refine ⟨hrest.noDigit, fun cs heq => ?_⟩
    rcases hrest '.' cs heq with h | h | h <;> exact absurd h (by decide)
  · constructor
    · intro c' cs heq
      cases heq
      rcases hc with rfl | rfl <;> rfl
    · intro cs heq
      cases heq
      rcases hc with hc | hc <;> exact absurd hc (by decide)

/-- The digits of a number other than zero do not start with one. -/
theorem head?_toDigits {n : ℕ} (h : n ≠ 0) : (Nat.toDigits 10 n).head? ≠ some '0' := by
  induction n using Nat.strongRecOn with
  | ind n ih =>
    by_cases hlt : n < 10
    · rw [Nat.toDigits_of_lt_base hlt]
      simpa using h
    · have hdiv : n / 10 ≠ 0 := by omega
      have hhead := ih (n / 10) (by omega) hdiv
      rw [Nat.toDigits_of_base_le (by decide) (by omega)]
      cases hds : Nat.toDigits 10 (n / 10) with
      | nil => exact absurd hds Nat.toDigits_ne_nil
      | cons d ds => rwa [hds] at hhead

/-- The text of a number, from its parts. -/
def literalOf (negative : Bool) (digits fraction exponent : List Char) : List Char :=
  (if negative then ['-'] else []) ++ digits ++ fraction ++ exponent

/-- The number its parts make. -/
def numberOf (negative : Bool) (digits fraction exponent : List Char) : Json :=
  if fraction.isEmpty ∧ exponent.isEmpty then integerOf negative digits
  else .float (String.ofList (literalOf negative digits fraction exponent))

/-- **The parts of a number are read back.** -/
theorem readUnsigned_append {digits fraction exponent rest : List Char} (negative : Bool)
    (hdigits : IsDigits digits) (hzero : ¬(digits.head? = some '0' ∧ digits.length ≠ 1))
    (hfraction : IsFraction fraction) (hexponent : IsExponent exponent) (h : Ends rest) :
    readUnsigned negative (digits ++ (fraction ++ (exponent ++ rest))) =
      some (numberOf negative digits fraction exponent, rest) := by
  obtain ⟨hnodigit, hpoint⟩ := noDigit_append hexponent h
  have hnodigit' : NoDigit (fraction ++ (exponent ++ rest)) := by
    rcases hfraction with rfl | ⟨ds, -, rfl⟩
    · exact hnodigit
    · intro c cs heq
      cases heq
      rfl
  simp only [readUnsigned, readDigits_append hdigits hnodigit', Option.bind_eq_bind,
    Option.bind_some, if_neg hzero, readFraction_append hfraction hnodigit hpoint,
    readExponent_append hexponent h, Option.pure_def, numberOf, literalOf]
  split <;> rfl

theorem readUnsigned_toDigits {rest : List Char} (h : Ends rest) (negative : Bool) (n : ℕ) :
    readUnsigned negative (Nat.toDigits 10 n ++ rest) =
      some (integerOf negative (Nat.toDigits 10 n), rest) := by
  have hzero : ¬ ((Nat.toDigits 10 n).head? = some '0' ∧ (Nat.toDigits 10 n).length ≠ 1) := by
    rintro ⟨hhead, hlen⟩
    by_cases hn : n = 0
    · subst hn
      exact hlen (by rw [Nat.toDigits_zero]; rfl)
    · exact head?_toDigits hn hhead
  exact readUnsigned_append negative (isDigits_toDigits n) hzero (.inl rfl) (.inl rfl) h

/-- A number is read where its sign or a digit stands. -/
theorem readScalar_number {c : Char} {cs : List Char} (h : c = '-' ∨ c.isDigit = true) :
    readScalar (c :: cs) = readNumber (c :: cs) := by
  rcases h with rfl | h
  · rfl
  · unfold readScalar
    split
    all_goals first
      | rfl
      | next heq => cases heq; exact absurd h (by decide)

theorem readNumber_digit {d : Char} {cs : List Char} (h : d.isDigit = true) :
    readNumber (d :: cs) = readUnsigned false (d :: cs) := by
  unfold readNumber
  split
  · next heq => cases heq; exact absurd h (by decide)
  · rfl

/-- **An integer is read back.** -/
theorem readScalar_printInt {i : ℤ} {rest : List Char} (hrange : -2 ^ 63 ≤ i ∧ i < 2 ^ 64)
    (h : Ends rest) : readScalar (printInt i ++ rest) = some (.int i, rest) := by
  unfold printInt
  by_cases hneg : i < 0
  · have hvalue : integerOf true (Nat.toDigits 10 i.natAbs) = .int i := by
      have habs : (0 < i.natAbs ∧ i.natAbs ≤ 2 ^ 63) ∧ -(i.natAbs : ℤ) = i := by omega
      simp only [integerOf, Nat.ofDigitChars_ten_toDigits, if_true, if_pos habs.1, habs.2]
    have hsign : ∀ cs, readScalar ('-' :: cs) = readUnsigned true cs := fun _ => rfl
    rw [if_pos hneg, List.cons_append, hsign, readUnsigned_toDigits h, hvalue]
  · have hvalue : integerOf false (Nat.toDigits 10 i.natAbs) = .int i := by
      have habs : i.natAbs < 2 ^ 64 ∧ (i.natAbs : ℤ) = i := by omega
      simp only [integerOf, Nat.ofDigitChars_ten_toDigits, if_pos habs.1, habs.2]
      rfl
    rw [if_neg hneg]
    cases hds : Nat.toDigits 10 i.natAbs with
    | nil => exact absurd hds Nat.toDigits_ne_nil
    | cons d ds =>
      have hdigit : d.isDigit = true :=
        Nat.isDigit_of_mem_toDigits (by decide) (by decide) (hds ▸ List.mem_cons_self)
      rw [List.cons_append, readScalar_number (.inr hdigit), readNumber_digit hdigit,
        ← List.cons_append, ← hds, readUnsigned_toDigits h, hvalue]

/-- **The text of a number that is no 64-bit integer**: it is read as
itself. -/
structure IsFloat (literal : String) : Prop where
  start : ∃ c cs, literal.toList = c :: cs ∧ (c = '-' ∨ c.isDigit = true)
  read : ∀ rest, Ends rest →
    readNumber (literal.toList ++ rest) = some (.float literal, rest)

/-- What a reader makes of a number is made of its parts. -/
theorem readUnsigned_eq_some {negative : Bool} {cs rest : List Char} {j : Json}
    (h : readUnsigned negative cs = some (j, rest)) :
    ∃ digits fraction exponent, IsDigits digits ∧
      ¬(digits.head? = some '0' ∧ digits.length ≠ 1) ∧ IsFraction fraction ∧
      IsExponent exponent ∧ j = numberOf negative digits fraction exponent := by
  unfold readUnsigned at h
  obtain ⟨⟨digits, cs₁⟩, hdigits, h⟩ := Option.bind_eq_some_iff.1 h
  obtain ⟨hzero, h⟩ := Option.ite_none_left_eq_some.1 h
  obtain ⟨⟨fraction, cs₂⟩, hfraction, h⟩ := Option.bind_eq_some_iff.1 h
  obtain ⟨⟨exponent, cs₃⟩, hexponent, h⟩ := Option.bind_eq_some_iff.1 h
  refine ⟨digits, fraction, exponent, isDigits_of_readDigits hdigits, hzero,
    isFraction_of_readFraction hfraction, isExponent_of_readExponent hexponent, ?_⟩
  unfold numberOf literalOf
  dsimp only at h
  split at h
  · next hempty =>
    rw [if_pos hempty]
    exact (Prod.mk.inj (Option.some.inj h)).1.symm
  · next hempty =>
    rw [if_neg hempty]
    exact (Prod.mk.inj (Option.some.inj h)).1.symm

/-- A number is a 64-bit integer, or it keeps its text. -/
theorem numberOf_cases (negative : Bool) (digits fraction exponent : List Char) :
    (∃ i, numberOf negative digits fraction exponent = .int i ∧ -2 ^ 63 ≤ i ∧ i < 2 ^ 64) ∨
      numberOf negative digits fraction exponent =
        .float (String.ofList (literalOf negative digits fraction exponent)) := by
  unfold numberOf
  split
  · next hempty =>
    obtain ⟨hfraction, hexponent⟩ := hempty
    rw [List.isEmpty_iff.1 hfraction, List.isEmpty_iff.1 hexponent, literalOf, List.append_nil,
      List.append_nil]
    unfold integerOf
    dsimp only
    split <;> split
    · next hrange => exact .inl ⟨_, rfl, by omega, by omega⟩
    · exact .inr rfl
    · next hrange => exact .inl ⟨_, rfl, by omega, by omega⟩
    · exact .inr rfl
  · exact .inr rfl

/-- A number that keeps its text is read from it again. -/
theorem isFloat_literalOf {negative : Bool} {digits fraction exponent : List Char}
    (hdigits : IsDigits digits) (hzero : ¬(digits.head? = some '0' ∧ digits.length ≠ 1))
    (hfraction : IsFraction fraction) (hexponent : IsExponent exponent)
    (h : numberOf negative digits fraction exponent =
      .float (String.ofList (literalOf negative digits fraction exponent))) :
    IsFloat (String.ofList (literalOf negative digits fraction exponent)) := by
  have hread := fun rest (hrest : Ends rest) =>
    readUnsigned_append negative hdigits hzero hfraction hexponent hrest
  rw [h] at hread
  cases negative with
  | true =>
    refine ⟨⟨'-', _, String.toList_ofList, .inl rfl⟩, fun rest hrest => ?_⟩
    have hsign : ∀ cs, readNumber ('-' :: cs) = readUnsigned true cs := fun _ => rfl
    rw [String.toList_ofList, ← hread rest hrest]
    simp [literalOf, hsign]
  | false =>
    cases digits with
    | nil => exact absurd rfl hdigits.ne_nil
    | cons d ds =>
      have hd := hdigits.digits d List.mem_cons_self
      refine ⟨⟨d, _, String.toList_ofList, .inr hd⟩, fun rest hrest => ?_⟩
      have hnumber : ∀ cs, readNumber (d :: cs) = readUnsigned false (d :: cs) :=
        fun _ => readNumber_digit hd
      rw [String.toList_ofList, ← hread rest hrest]
      simp [literalOf, hnumber]

/-- **A number that is read is readable.** -/
theorem readable_of_readNumber {cs rest : List Char} {j : Json} {depth : ℕ}
    (h : readNumber cs = some (j, rest)) : j.Readable IsFloat depth := by
  have hsign : ∃ negative cs, readUnsigned negative cs = some (j, rest) := by
    unfold readNumber at h
    split at h
    · exact ⟨true, _, h⟩
    · exact ⟨false, _, h⟩
  obtain ⟨negative, cs, h⟩ := hsign
  obtain ⟨digits, fraction, exponent, hdigits, hzero, hfraction, hexponent, rfl⟩ :=
    readUnsigned_eq_some h
  rcases numberOf_cases negative digits fraction exponent with ⟨i, hi, hrange⟩ | hfloat
  · rw [hi]
    exact .int hrange
  · have hread := isFloat_literalOf hdigits hzero hfraction hexponent hfloat
    rw [hfloat]
    exact .float hread

/-! ## Values are read back -/

/-- An integer starts with its sign or a digit. -/
theorem printInt_cons (i : ℤ) :
    ∃ c cs, printInt i = c :: cs ∧ (c = '-' ∨ c.isDigit = true) := by
  by_cases hneg : i < 0
  · exact ⟨'-', _, by rw [printInt, if_pos hneg], .inl rfl⟩
  · cases hds : Nat.toDigits 10 i.natAbs with
    | nil => exact absurd hds Nat.toDigits_ne_nil
    | cons d ds =>
      refine ⟨d, ds, by rw [printInt, if_neg hneg, hds], .inr ?_⟩
      exact Nat.isDigit_of_mem_toDigits (by decide) (by decide) (hds ▸ List.mem_cons_self)

/-- The sign and the digits are no blanks and open or close nothing. -/
theorem number_start {c : Char} (h : c = '-' ∨ c.isDigit = true) :
    isBlank c = false ∧ c ≠ ']' ∧ c ≠ '[' ∧ c ≠ '\x7b' := by
  rcases h with rfl | h
  · decide
  · refine ⟨?_, ?_, ?_, ?_⟩
    · by_contra hblank
      simp only [isBlank, Bool.or_eq_true, decide_eq_true_eq, Bool.not_eq_false] at hblank
      rcases hblank with ((rfl | rfl) | rfl) | rfl <;> exact absurd h (by decide)
    all_goals
      rintro rfl
      exact absurd h (by decide)

/-- The text of a value starts with no blank and no closing bracket. -/
theorem print_cons {depth : ℕ} {j : Json} (h : j.Readable IsFloat depth) :
    ∃ c cs, print j = c :: cs ∧ isBlank c = false ∧ c ≠ ']' := by
  cases h with
  | null => exact ⟨_, _, rfl, by decide, by decide⟩
  | @bool _ b =>
    cases b with
    | false => exact ⟨_, _, rfl, by decide, by decide⟩
    | true => exact ⟨_, _, rfl, by decide, by decide⟩
  | @int _ i range =>
    obtain ⟨c, cs, hprint, hc⟩ := printInt_cons i
    obtain ⟨hblank, hclose, -⟩ := number_start hc
    exact ⟨c, cs, by rw [print, hprint], hblank, hclose⟩
  | float hread =>
    obtain ⟨c, cs, hprint, hc⟩ := hread.start
    obtain ⟨hblank, hclose, -⟩ := number_start hc
    exact ⟨c, cs, by rw [print, hprint], hblank, hclose⟩
  | str => exact ⟨_, _, rfl, by decide, by decide⟩
  | @arr _ elements each =>
    cases elements with
    | nil => exact ⟨_, _, rfl, by decide, by decide⟩
    | cons j js => exact ⟨'[', _, by rw [print], by decide, by decide⟩
  | @obj _ fields sorted each =>
    cases fields with
    | nil => exact ⟨_, _, rfl, by decide, by decide⟩
    | cons f fs => exact ⟨'\x7b', _, by rw [print], by decide, by decide⟩

theorem skipBlanks_cons {c : Char} {cs : List Char} (h : isBlank c = false) :
    skipBlanks (c :: cs) = c :: cs :=
  List.dropWhile_cons_of_neg (by simp [h])

/-- What opens no array and no object is read as a scalar. -/
theorem readValue_scalar {depth : ℕ} {c : Char} {cs : List Char} (hblank : isBlank c = false)
    (harr : c ≠ '[') (hobj : c ≠ '\x7b') : readValue depth (c :: cs) = readScalar (c :: cs) := by
  cases depth <;> simp only [readValue, skipBlanks_cons hblank] <;> split <;>
    first
    | rfl
    | next heq => cases heq; first | exact absurd rfl harr | exact absurd rfl hobj

section Containers

variable {value : List Char → Option (Json × List Char)}

theorem ends_printElements (js : List Json) (rest : List Char) :
    Ends (printElements js ++ rest) := by
  cases js with
  | nil => exact ends_cons (.inr (.inl rfl))
  | cons j js => rw [printElements]; exact ends_cons (.inl rfl)

theorem ends_printMembers (ms : List (String × Json)) (rest : List Char) :
    Ends (printMembers ms ++ rest) := by
  cases ms with
  | nil => exact ends_cons (.inr (.inr rfl))
  | cons m ms => rw [printMembers]; exact ends_cons (.inl rfl)

theorem length_printElements (js : List Json) : js.length < (printElements js).length := by
  induction js with
  | nil => simp [printElements]
  | cons j js ih =>
    simp only [printElements, List.length_cons, List.length_append]
    omega

theorem length_printMembers (ms : List (String × Json)) : ms.length < (printMembers ms).length := by
  induction ms with
  | nil => simp [printMembers]
  | cons m ms ih =>
    simp only [printMembers, List.length_cons, List.length_append]
    omega

/-- Elements whose values are read back are read back. -/
theorem readElements_printElements {js : List Json} {fuel : ℕ} {rest : List Char}
    (hvalue : ∀ j ∈ js, ∀ rest, Ends rest → value (print j ++ rest) = some (j, rest))
    (hfuel : js.length < fuel) :
    readElements value fuel (printElements js ++ rest) = some (js, rest) := by
  induction js generalizing fuel with
  | nil =>
    obtain ⟨n, rfl⟩ := Nat.exists_eq_succ_of_ne_zero (Nat.ne_zero_of_lt hfuel)
    rfl
  | cons j js ih =>
    obtain ⟨n, rfl⟩ := Nat.exists_eq_succ_of_ne_zero (Nat.ne_zero_of_lt hfuel)
    have hj := hvalue j List.mem_cons_self (printElements js ++ rest) (ends_printElements js rest)
    have hjs := ih (fun j' hj' => hvalue j' (List.mem_cons_of_mem _ hj'))
      (Nat.lt_of_succ_lt_succ hfuel)
    have hcomma : isBlank ',' = false := by decide
    simp only [printElements, List.cons_append, List.append_assoc, readElements,
      skipBlanks_cons hcomma, hj, hjs, Option.bind_eq_bind, Option.bind_some, Option.pure_def]

/-- A member whose value is read back is read back. -/
theorem readMember_print {k : String} {v : Json} {rest : List Char}
    (hvalue : ∀ rest, Ends rest → value (print v ++ rest) = some (v, rest)) (h : Ends rest) :
    readMember value (printString k ++ ':' :: (print v ++ rest)) = some ((k, v), rest) := by
  have hquote : isBlank '"' = false := by decide
  have hcolon : isBlank ':' = false := by decide
  simp only [printString, List.cons_append, readMember, skipBlanks_cons hquote,
    readString_printString, skipBlanks_cons hcolon, hvalue rest h, Option.bind_eq_bind,
    Option.bind_some, Option.pure_def]

theorem readMembers_printMembers {ms : List (String × Json)} {fuel : ℕ} {rest : List Char}
    (hvalue : ∀ m ∈ ms, ∀ rest, Ends rest → value (print m.2 ++ rest) = some (m.2, rest))
    (hfuel : ms.length < fuel) :
    readMembers value fuel (printMembers ms ++ rest) = some (ms, rest) := by
  induction ms generalizing fuel with
  | nil =>
    obtain ⟨n, rfl⟩ := Nat.exists_eq_succ_of_ne_zero (Nat.ne_zero_of_lt hfuel)
    rfl
  | cons m ms ih =>
    obtain ⟨n, rfl⟩ := Nat.exists_eq_succ_of_ne_zero (Nat.ne_zero_of_lt hfuel)
    obtain ⟨k, v⟩ := m
    have hm : readMember value (printString k ++ ':' :: (print v ++ (printMembers ms ++ rest))) =
        some ((k, v), printMembers ms ++ rest) :=
      readMember_print (hvalue (k, v) List.mem_cons_self) (ends_printMembers ms rest)
    have hms := ih (fun m' hm' => hvalue m' (List.mem_cons_of_mem _ hm'))
      (Nat.lt_of_succ_lt_succ hfuel)
    have hcomma : isBlank ',' = false := by decide
    simp only [printMembers, List.cons_append, List.append_assoc, readMembers,
      skipBlanks_cons hcomma, hm, hms, Option.bind_eq_bind, Option.bind_some, Option.pure_def]

/-- An array is read back where its elements are. -/
theorem readArray_print {j : Json} {js : List Json} {rest : List Char}
    (hstart : ∃ c cs, print j = c :: cs ∧ isBlank c = false ∧ c ≠ ']')
    (hvalue : ∀ j' ∈ j :: js, ∀ rest, Ends rest → value (print j' ++ rest) = some (j', rest)) :
    readArray value (print j ++ (printElements js ++ rest)) = some (.arr (j :: js), rest) := by
  have hj := hvalue j List.mem_cons_self (printElements js ++ rest) (ends_printElements js rest)
  have hfuel : js.length < (printElements js ++ rest).length + 1 := by
    have := length_printElements js
    simp only [List.length_append]
    omega
  have hjs : readElements value _ (printElements js ++ rest) = some (js, rest) :=
    readElements_printElements (fun j' hj' => hvalue j' (List.mem_cons_of_mem _ hj')) hfuel
  obtain ⟨c, cs, hprint, hblank, hne⟩ := hstart
  rw [hprint, List.cons_append] at hj ⊢
  unfold readArray
  rw [skipBlanks_cons hblank]
  split
  · next heq => cases heq; exact absurd rfl hne
  · simp only [hj, hjs, Option.bind_eq_bind, Option.bind_some, Option.pure_def]

/-- The members of an object are read back, into the object they make. -/
theorem readObject_print {k : String} {v : Json} {ms : List (String × Json)} {rest : List Char}
    (hvalue : ∀ m ∈ (k, v) :: ms, ∀ rest, Ends rest →
      value (print m.2 ++ rest) = some (m.2, rest)) :
    readObject value (printString k ++ ':' :: (print v ++ (printMembers ms ++ rest))) =
      some (Json.object ((k, v) :: ms), rest) := by
  have hm : readMember value (printString k ++ ':' :: (print v ++ (printMembers ms ++ rest))) =
      some ((k, v), printMembers ms ++ rest) :=
    readMember_print (hvalue (k, v) List.mem_cons_self) (ends_printMembers ms rest)
  have hfuel : ms.length < (printMembers ms ++ rest).length + 1 := by
    have := length_printMembers ms
    simp only [List.length_append]
    omega
  have hms : readMembers value _ (printMembers ms ++ rest) = some (ms, rest) :=
    readMembers_printMembers (fun m hm => hvalue m (List.mem_cons_of_mem _ hm)) hfuel
  have hquote : isBlank '"' = false := by decide
  unfold readObject
  rw [printString, List.cons_append, skipBlanks_cons hquote]
  rw [printString, List.cons_append] at hm
  split
  · next heq => exact absurd (List.cons.inj heq).1 (by decide)
  · simp only [hm, hms, Option.bind_eq_bind, Option.bind_some, Option.pure_def]

end Containers

/-- An object of members that are read back, before their order is
restored. -/
theorem readValue_printObject {depth : ℕ} {members : List (String × Json)} (rest : List Char)
    (hvalue : ∀ m ∈ members, ∀ rest, Ends rest →
      readValue depth (print m.2 ++ rest) = some (m.2, rest)) :
    readValue (depth + 1) (print (.obj members) ++ rest) = some (Json.object members, rest) := by
  cases members with
  | nil => rfl
  | cons m ms =>
    obtain ⟨k, v⟩ := m
    have hopen : isBlank '\x7b' = false := by decide
    simp only [print, List.cons_append, List.append_assoc, readValue, skipBlanks_cons hopen]
    exact readObject_print hvalue

/-- **A readable value is read back.** -/
theorem readValue_print {depth : ℕ} {j : Json} (h : j.Readable IsFloat depth) (rest : List Char)
    (hends : Ends rest) : readValue depth (print j ++ rest) = some (j, rest) := by
  induction h generalizing rest with
  | null => exact readValue_scalar (by decide) (by decide) (by decide)
  | @bool _ b =>
    cases b with
    | false => exact readValue_scalar (by decide) (by decide) (by decide)
    | true => exact readValue_scalar (by decide) (by decide) (by decide)
  | @int _ i range =>
    obtain ⟨c, cs, hprint, hc⟩ := printInt_cons i
    obtain ⟨hblank, -, harr, hobj⟩ := number_start hc
    have hscalar := readScalar_printInt range hends
    rw [hprint, List.cons_append] at hscalar
    rw [print, hprint, List.cons_append, readValue_scalar hblank harr hobj, hscalar]
  | @float _ literal hfloat =>
    obtain ⟨c, cs, hprint, hc⟩ := hfloat.start
    obtain ⟨hblank, -, harr, hobj⟩ := number_start hc
    have hread := hfloat.read rest hends
    rw [hprint, List.cons_append] at hread
    rw [print, hprint, List.cons_append, readValue_scalar hblank harr hobj, readScalar_number hc,
      hread]
  | @str _ s =>
    have hscalar : ∀ cs, readScalar ('"' :: cs) = (readString cs).map fun r => (.str r.1, r.2) :=
      fun _ => rfl
    rw [print, printString, List.cons_append,
      readValue_scalar (by decide) (by decide) (by decide), hscalar, readString_printString]
    rfl
  | @arr depth elements each ih =>
    cases elements with
    | nil => rfl
    | cons j js =>
      have hopen : isBlank '[' = false := by decide
      simp only [print, List.cons_append, List.append_assoc, readValue, skipBlanks_cons hopen]
      exact readArray_print (print_cons (each j List.mem_cons_self)) ih
  | @obj depth fields sorted each ih =>
    -- the members go on in the order of their keys, and so they are put back
    rw [readValue_printObject rest ih, Json.object, Fields.ofList_eq_self sorted]

theorem read_print {j j' : Json} (h : readValue 127 (print j) = some (j', [])) :
    read (String.ofList (print j)) = some j' := by
  have hlist : (String.ofList (print j)).toList = print j := String.toList_ofList
  unfold read
  rw [hlist, h]
  rfl

/-! ## What is read is readable -/

/-- A scalar that is read is readable. -/
theorem readable_of_readScalar {cs rest : List Char} {j : Json} {depth : ℕ}
    (h : readScalar cs = some (j, rest)) : j.Readable IsFloat depth := by
  unfold readScalar at h
  split at h
  · cases h; exact .null
  · cases h; exact .bool
  · cases h; exact .bool
  · obtain ⟨r, -, hr⟩ := Option.map_eq_some_iff.1 h
    cases hr
    exact .str
  · exact readable_of_readNumber h

section Containers

variable {value : List Char → Option (Json × List Char)} {P : Json → Prop}

/-- Elements are what the reader of values makes. -/
theorem readElements_of_value (hvalue : ∀ {cs j rest}, value cs = some (j, rest) → P j)
    {fuel : ℕ} {cs rest : List Char} {js : List Json}
    (h : readElements value fuel cs = some (js, rest)) : ∀ j ∈ js, P j := by
  induction fuel generalizing cs js with
  | zero => cases h
  | succ fuel ih =>
    unfold readElements at h
    split at h
    · cases h
      intro j hj
      cases hj
    · obtain ⟨⟨j, cs₁⟩, hj, h⟩ := Option.bind_eq_some_iff.1 h
      obtain ⟨⟨js', cs₂⟩, hjs, h⟩ := Option.bind_eq_some_iff.1 h
      cases h
      exact List.forall_mem_cons.2 ⟨hvalue hj, ih hjs⟩
    · cases h

theorem readMember_of_value (hvalue : ∀ {cs j rest}, value cs = some (j, rest) → P j)
    {cs rest : List Char} {m : String × Json} (h : readMember value cs = some (m, rest)) :
    P m.2 := by
  unfold readMember at h
  split at h
  · obtain ⟨⟨k, cs₁⟩, -, h⟩ := Option.bind_eq_some_iff.1 h
    dsimp only at h
    split at h
    · obtain ⟨⟨v, cs₂⟩, hv, h⟩ := Option.bind_eq_some_iff.1 h
      cases h
      exact hvalue hv
    · cases h
  · cases h

/-- Members have values that the reader of values makes. -/
theorem readMembers_of_value (hvalue : ∀ {cs j rest}, value cs = some (j, rest) → P j)
    {fuel : ℕ} {cs rest : List Char} {ms : List (String × Json)}
    (h : readMembers value fuel cs = some (ms, rest)) : ∀ m ∈ ms, P m.2 := by
  induction fuel generalizing cs ms with
  | zero => cases h
  | succ fuel ih =>
    unfold readMembers at h
    split at h
    · cases h
      intro m hm
      cases hm
    · obtain ⟨⟨m, cs₁⟩, hm, h⟩ := Option.bind_eq_some_iff.1 h
      obtain ⟨⟨ms', cs₂⟩, hms, h⟩ := Option.bind_eq_some_iff.1 h
      cases h
      exact List.forall_mem_cons.2 ⟨readMember_of_value hvalue hm, ih hms⟩
    · cases h

theorem readArray_of_value (hvalue : ∀ {cs j rest}, value cs = some (j, rest) → P j)
    {cs rest : List Char} {j : Json} (h : readArray value cs = some (j, rest)) :
    ∃ js, j = .arr js ∧ ∀ j' ∈ js, P j' := by
  unfold readArray at h
  split at h
  · cases h
    exact ⟨[], rfl, fun j hj => by cases hj⟩
  · obtain ⟨⟨j₁, cs₁⟩, hj, h⟩ := Option.bind_eq_some_iff.1 h
    obtain ⟨⟨js, cs₂⟩, hjs, h⟩ := Option.bind_eq_some_iff.1 h
    cases h
    exact ⟨_, rfl, List.forall_mem_cons.2 ⟨hvalue hj, readElements_of_value hvalue hjs⟩⟩

theorem readObject_of_value (hvalue : ∀ {cs j rest}, value cs = some (j, rest) → P j)
    {cs rest : List Char} {j : Json} (h : readObject value cs = some (j, rest)) :
    ∃ ms, j = Json.object ms ∧ ∀ m ∈ ms, P m.2 := by
  unfold readObject at h
  split at h
  · cases h
    exact ⟨[], rfl, fun m hm => by cases hm⟩
  · obtain ⟨⟨m, cs₁⟩, hm, h⟩ := Option.bind_eq_some_iff.1 h
    obtain ⟨⟨ms, cs₂⟩, hms, h⟩ := Option.bind_eq_some_iff.1 h
    cases h
    exact ⟨_, rfl,
      List.forall_mem_cons.2 ⟨readMember_of_value hvalue hm, readMembers_of_value hvalue hms⟩⟩

end Containers

/-- **A value that is read is readable.** -/
theorem readable_of_readValue {depth : ℕ} {cs rest : List Char} {j : Json}
    (h : readValue depth cs = some (j, rest)) : j.Readable IsFloat depth := by
  induction depth generalizing cs rest j with
  | zero =>
    unfold readValue at h
    split at h
    · cases h
    · cases h
    · exact readable_of_readScalar h
  | succ depth ih =>
    unfold readValue at h
    split at h
    · obtain ⟨js, rfl, hjs⟩ := readArray_of_value ih h
      exact .arr hjs
    · obtain ⟨ms, rfl, hms⟩ := readObject_of_value ih h
      exact .obj (Fields.sorted_ofList ms) fun m hm => hms m (Fields.mem_ofList hm)
    · exact readable_of_readScalar h

theorem readable_of_read {s : String} {j : Json} (h : read s = some j) :
    j.Readable IsFloat 127 := by
  obtain ⟨⟨j', cs⟩, hvalue, h⟩ := Option.bind_eq_some_iff.1 h
  obtain ⟨-, h⟩ := Option.ite_none_right_eq_some.1 h
  cases h
  exact readable_of_readValue hvalue

/-- **The printer and the reader as a codec.** -/
def codec : JsonCodec where
  toText j := String.ofList (print j)
  ofText := read
  errorText _ := "expected value"
  ofText_members members h := by
    have hread := readValue_printObject [] fun m hm => readValue_print (h m hm).readable
    exact read_print (by simpa using hread)
  ofText_toText j h := read_print (by simpa using readValue_print h.readable [] ends_nil)

/-- **It loses nothing.** -/
def exactCodec : ExactCodec where
  toJsonCodec := codec
  float := IsFloat
  readable := readable_of_read
  ofText_readable h := read_print (by simpa using readValue_print h [] ends_nil)

/-- And it reads members in any order. -/
def memberCodec : MemberCodec where
  toExactCodec := exactCodec
  ofText_readable_members members h := by
    have hread := readValue_printObject [] fun m hm => readValue_print (h m hm)
    exact read_print (by simpa using hread)

end AigisZero.JsonText
