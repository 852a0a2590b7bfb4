import AigisZero.Library.TomlText

/-!
# Expressions of one line

The part of TOML in which every expression is on one line: bare keys,
headers, strings without escapes, decimal integers and booleans. It is a
grammar, and what is written in it can be read.
-/

namespace AigisZero.Toml

namespace Line

def isBlank (c : Char) : Bool := c = ' ' || c = '\t'

/-- What a comment may hold. -/
def isCommentChar (c : Char) : Bool := c = '\t' || (32 ≤ c.toNat && c.toNat ≠ 127)

/-- Nothing is left of the line, or a comment. -/
def endsLine (l : List Char) : Bool :=
  match l.dropWhile isBlank with
  | [] => true
  | '#' :: comment => comment.all isCommentChar
  | _ => false

/-- A bare key between blanks. -/
def readKey (l : List Char) : Option (List Char) :=
  let key := ((l.dropWhile isBlank).reverse.dropWhile isBlank).reverse
  if key ≠ [] && key.all isBareChar then some key else none

def isPathChar (c : Char) : Bool := isBareChar c || c = '.' || isBlank c

/-- Keys with dots between them: the parents, the name, and what is left. -/
def readPath (l : List Char) : Option (List (List Char) × List Char × List Char) :=
  (((l.takeWhile isPathChar).splitOn '.').mapM readKey).bind fun keys =>
    keys.getLast?.map fun name => (keys.dropLast, name, l.dropWhile isPathChar)

/-- A decimal integer. -/
def readInt (word : List Char) : Option ℤ :=
  if word ≠ [] && word.all Char.isDigit && (word.length = 1 || word.head? ≠ some '0') then
    let n : ℕ := word.foldl (fun n c => 10 * n + (c.toNat - 48)) 0
    if n < 0x8000000000000000 then some n else none
  else none

/-- A value, and what is left. -/
def readValue (l : List Char) : Option (Value × List Char) :=
  match l.dropWhile isBlank with
  | '"' :: rest =>
    match rest.dropWhile isPlainChar with
    | '"' :: left => some (.str (rest.takeWhile isPlainChar), left)
    | _ => none
  | rest =>
    let word := rest.takeWhile isBareChar
    let left := rest.dropWhile isBareChar
    if word = "true".toList then some (.bool true, left)
    else if word = "false".toList then some (.bool false, left)
    else (readInt word).map fun n => (.int n, left)

/-- A header, up to the brackets that end it. -/
def readHeader (close : List Char)
    (e : List (List Char) → List Char → Expression Value) (l : List Char) :
    Option (Expression Value) :=
  (readPath l).bind fun (parents, name, left) =>
    if close <+: left && endsLine (left.drop close.length) then some (e parents name) else none

/-- A key with a value. -/
def readKeyval (l : List Char) : Option (Expression Value) :=
  (readPath l).bind fun (parents, name, left) =>
    match left with
    | '=' :: left =>
      (readValue left).bind fun (v, left) =>
        if endsLine left then some (.keyval parents name v) else none
    | _ => none

/-- An expression on one line. -/
def readLine (l : List Char) : Option (Expression Value) :=
  match l.dropWhile isBlank with
  | [] => some .blank
  | '#' :: comment => if comment.all isCommentChar then some .blank else none
  | '[' :: '[' :: rest => readHeader "]]".toList .item rest
  | '[' :: rest => readHeader "]".toList .table rest
  | rest => readKeyval rest

/-- An expression, if it is on one line. -/
def expr : List (List Char) → Option (Expression Value)
  | [l] => if '\r' ∈ l then none else readLine l
  | _ => none

/-! ## What is written is read -/

variable {key s : List Char}

theorem takeWhile_stop {α : Type*} {p : α → Bool} {l rest : List α} {x : α}
    (h : ∀ c ∈ l, p c = true) (hx : p x = false) : (l ++ x :: rest).takeWhile p = l := by
  rw [List.takeWhile_append_of_pos h, List.takeWhile_cons_of_neg (by simp [hx]), List.append_nil]

theorem dropWhile_stop {α : Type*} {p : α → Bool} {l rest : List α} {x : α}
    (h : ∀ c ∈ l, p c = true) (hx : p x = false) : (l ++ x :: rest).dropWhile p = x :: rest := by
  rw [List.dropWhile_append_of_pos h, List.dropWhile_cons_of_neg (by simp [hx])]

theorem isBlank_of_isBareChar {c : Char} (h : isBareChar c = true) : isBlank c = false := by
  by_contra hblank
  rw [Bool.not_eq_false, isBlank, Bool.or_eq_true, decide_eq_true_eq, decide_eq_true_eq] at hblank
  rcases hblank with rfl | rfl
  · exact absurd h (by decide)
  · exact absurd h (by decide)

theorem readKey_bare (hkey : IsBare key) : readKey (key ++ [' ']) = some key := by
  obtain ⟨c, rest, rfl⟩ := List.exists_cons_of_ne_nil hkey.1
  have hfront : (c :: rest ++ [' ']).dropWhile isBlank = c :: rest ++ [' '] := by
    rw [List.cons_append, List.dropWhile_cons_of_neg]
    simp [isBlank_of_isBareChar (hkey.2 c List.mem_cons_self)]
  have hback : ((c :: rest) ++ [' ']).reverse.dropWhile isBlank = (c :: rest).reverse := by
    rw [List.reverse_append, List.reverse_singleton, List.singleton_append,
      List.dropWhile_cons_of_pos (by decide)]
    obtain ⟨last, front, hlast⟩ : ∃ last front, (c :: rest).reverse = last :: front :=
      List.exists_cons_of_ne_nil (by simp)
    have hbare := hkey.2 last (List.mem_reverse.1 (hlast ▸ List.mem_cons_self))
    rw [hlast, List.dropWhile_cons_of_neg (by simp [isBlank_of_isBareChar hbare])]
  unfold readKey
  dsimp only
  rw [hfront, hback, List.reverse_reverse, if_pos]
  rw [Bool.and_eq_true, List.all_eq_true]
  exact ⟨by simp, hkey.2⟩

theorem readPath_bare (hkey : IsBare key) (rest : List Char) :
    readPath (key ++ ' ' :: '=' :: rest) = some ([], key, '=' :: rest) := by
  have hpath : ∀ c ∈ key ++ [' '], isPathChar c = true := by
    intro c hc
    rcases List.mem_append.1 hc with hc | hc
    · simp [isPathChar, hkey.2 c hc]
    · rw [List.mem_singleton.1 hc]
      decide
  have hdot : '.' ∉ key ++ [' '] := by
    intro hc
    rcases List.mem_append.1 hc with hc | hc
    · exact absurd (hkey.2 '.' hc) (by decide)
    · exact absurd (List.mem_singleton.1 hc) (by decide)
  have hsplit : key ++ ' ' :: '=' :: rest = (key ++ [' ']) ++ '=' :: rest := by simp
  rw [readPath, hsplit, takeWhile_stop hpath (by decide), dropWhile_stop hpath (by decide)]
  have hone : (key ++ [' ']).splitOn '.' = [key ++ [' ']] :=
    List.splitOn_eq_singleton hdot
  rw [hone, List.mapM_cons, readKey_bare hkey]
  rfl

theorem readValue_plain (hs : IsPlain s) :
    readValue (' ' :: '"' :: s ++ ['"']) = some (.str s, []) := by
  rw [readValue, List.cons_append, List.dropWhile_cons_of_pos (by decide), List.cons_append,
    List.dropWhile_cons_of_neg (by decide)]
  simp only [dropWhile_stop hs (by decide : isPlainChar '"' = false),
    takeWhile_stop hs (by decide : isPlainChar '"' = false)]

theorem readLine_keyvalLine (hkey : IsBare key) (hs : IsPlain s) :
    readLine (keyvalLine key s) = some (.keyval [] key (.str s)) := by
  have hline : keyvalLine key s = key ++ ' ' :: '=' :: (' ' :: '"' :: s ++ ['"']) := by
    simp [keyvalLine]
  have hkeyval : readKeyval (keyvalLine key s) = some (.keyval [] key (.str s)) := by
    rw [hline, readKeyval, readPath_bare hkey, Option.bind_some]
    show ((readValue (' ' :: '"' :: s ++ ['"'])).bind fun r =>
      if endsLine r.2 then some (Expression.keyval [] key r.1) else none) =
        some (.keyval [] key (.str s))
    rw [readValue_plain hs]
    rfl
  obtain ⟨c, rest, rfl⟩ := List.exists_cons_of_ne_nil hkey.1
  have hbare := hkey.2 c List.mem_cons_self
  have hcons : ∃ tail, keyvalLine (c :: rest) s = c :: tail := ⟨_, rfl⟩
  obtain ⟨tail, htail⟩ := hcons
  rw [htail] at hkeyval ⊢
  rw [readLine, List.dropWhile_cons_of_neg (by simp [isBlank_of_isBareChar hbare])]
  split
  · next h => cases h
  · next h =>
    obtain ⟨rfl, -⟩ := List.cons.inj h
    exact absurd hbare (by decide)
  · next h =>
    obtain ⟨rfl, -⟩ := List.cons.inj h
    exact absurd hbare (by decide)
  · next h =>
    obtain ⟨rfl, -⟩ := List.cons.inj h
    exact absurd hbare (by decide)
  · exact hkeyval

theorem not_mem_keyvalLine (hkey : IsBare key) (hs : IsPlain s) : '\r' ∉ keyvalLine key s := by
  intro h
  simp only [keyvalLine, List.mem_append] at h
  rcases h with ((h | h) | h) | h
  · exact absurd (hkey.2 _ h) (by decide)
  · exact absurd h (by decide)
  · exact absurd (hs _ h) (by decide)
  · exact absurd h (by decide)

end Line

/-- **Expressions of one line** are a grammar. -/
def Line.grammar : Grammar where
  expr := Line.expr
  no_cr := by
    intro block e h l hl hcr
    match block, h with
    | [l'], h =>
      obtain rfl := List.mem_singleton.1 hl
      rw [Line.expr, if_pos hcr] at h
      cases h
  keyval hkey hs := by
    rw [Line.expr, if_neg (Line.not_mem_keyvalLine hkey hs), Line.readLine_keyvalLine hkey hs]
  inner {key s s' p q n} _ _ _ hp _ _ := by
    obtain ⟨l, p, rfl⟩ := List.exists_cons_of_ne_nil hp
    have hmany : ∀ x, Line.expr (l :: p ++ x :: q) = none := by
      intro x
      cases p <;> rfl
    rw [hmany, hmany]

end AigisZero.Toml
