import Mathlib.Data.List.Basic

/-!
# UTF-8

Byte strings, the encoding of a text, and the two ways of reading one
back: the strict one, which rejects what is not UTF-8, and the lossy one,
which puts U+FFFD for each invalid stretch.
-/

namespace AigisZero

/-- A byte string. -/
abbrev Bytes := List UInt8

/-- The UTF-8 encoding of a text. -/
def utf8 (s : String) : Bytes := s.toByteArray.data.toList

/-- The text the bytes encode, when they are UTF-8. -/
def fromUtf8? (b : Bytes) : Option String := String.fromUTF8? ⟨b.toArray⟩

@[simp] theorem fromUtf8?_utf8 (s : String) : fromUtf8? (utf8 s) = some s := by
  unfold fromUtf8? utf8 String.fromUTF8?
  rw [dif_pos s.isValidUTF8]
  rfl

/-! ## The lossy reading -/

/-- A continuation byte. -/
def isContinuation (b : UInt8) : Bool := 0x80 ≤ b && b ≤ 0xBF

/-- The second bytes a lead byte allows: overlong forms, surrogates and
values past U+10FFFF are ruled out here. -/
def allowsSecond (lead second : UInt8) : Bool :=
  if lead = 0xE0 then 0xA0 ≤ second && second ≤ 0xBF
  else if lead = 0xED then 0x80 ≤ second && second ≤ 0x9F
  else if lead = 0xF0 then 0x90 ≤ second && second ≤ 0xBF
  else if lead = 0xF4 then 0x80 ≤ second && second ≤ 0x8F
  else isContinuation second

/-- The number of bytes of the encoding the lead byte opens, `0` where no
encoding starts with it. -/
def leadWidth (b : UInt8) : ℕ :=
  if b < 0x80 then 1
  else if 0xC2 ≤ b && b ≤ 0xDF then 2
  else if 0xE0 ≤ b && b ≤ 0xEF then 3
  else if 0xF0 ≤ b && b ≤ 0xF4 then 4
  else 0

/-- How many bytes the stretch at the head takes, and whether it is one
encoded character. An invalid stretch ends before the first byte that
cannot continue it. -/
def stretch : Bytes → ℕ × Bool
  | [] => (0, false)
  | b :: rest =>
    match leadWidth b, rest with
    | 1, _ => (1, true)
    | 2, c :: _ => if isContinuation c then (2, true) else (1, false)
    | 3, c :: rest' =>
      if allowsSecond b c then
        match rest' with
        | d :: _ => if isContinuation d then (3, true) else (2, false)
        | [] => (2, false)
      else (1, false)
    | 4, c :: rest' =>
      if allowsSecond b c then
        match rest' with
        | d :: rest'' =>
          if isContinuation d then
            match rest'' with
            | e :: _ => if isContinuation e then (4, true) else (3, false)
            | [] => (3, false)
          else (2, false)
        | [] => (2, false)
      else (1, false)
    | _, _ => (1, false)

/-- The characters of the lossy reading, `fuel` bounding the stretches
read. -/
def lossyChars : ℕ → Bytes → List Char
  | 0, _ => []
  | _, [] => []
  | fuel + 1, b =>
    let (width, valid) := stretch b
    let chars := if valid then ((fromUtf8? (b.take width)).getD "\uFFFD").toList else ['\uFFFD']
    chars ++ lossyChars fuel (b.drop width)

/-- `String::from_utf8_lossy`: the text of the bytes, with U+FFFD for each
maximal invalid stretch. -/
def fromUtf8Lossy (b : Bytes) : String :=
  (fromUtf8? b).getD (String.ofList (lossyChars b.length b))

/-- What is UTF-8 is read as it is. -/
@[simp] theorem fromUtf8Lossy_utf8 (s : String) : fromUtf8Lossy (utf8 s) = s := by
  simp [fromUtf8Lossy]

end AigisZero
