import AigisZero.Library.TextLines
import AigisZero.Library.Toml
import Mathlib.Data.List.Infix

/-!
# TOML texts

A text is read line by line: each expression ends at the first end of a line
at which it is one. What is an expression is a parameter, with what the
specification of TOML says of it and is relied on here.
-/

namespace AigisZero.Toml

/-! ## Reading in blocks -/

section Blocks

variable {α β γ : Type*} (expr : List α → Option β)

/-- A line is read: it ends what is being read, or is part of it. -/
def feed (s : List β × List α) (l : α) : List β × List α :=
  match expr (s.2 ++ [l]) with
  | some b => (s.1 ++ [b], [])
  | none => (s.1, s.2 ++ [l])

/-- What is read of lines, and what is not ended. -/
def feedAll (ls : List α) : List β × List α := ls.foldl (feed expr) ([], [])

/-- **Lines are read**, if all is ended. -/
def readAll (ls : List α) : Option (List β) :=
  if (feedAll expr ls).2 = [] then some (feedAll expr ls).1 else none

variable {expr} {ls rest block : List α} {done : List β} {b : β} {l : α}

/-- What has been read does not matter for what is read after it. -/
theorem foldl_feed (done : List β) (block ls : List α) :
    ls.foldl (feed expr) (done, block) =
      (done ++ (ls.foldl (feed expr) ([], block)).1, (ls.foldl (feed expr) ([], block)).2) := by
  induction ls generalizing done block with
  | nil => simp
  | cons l ls ih =>
    rw [List.foldl_cons, List.foldl_cons, feed, feed]
    cases expr (block ++ [l]) with
    | none => exact ih done (block ++ [l])
    | some b =>
      rw [ih (done ++ [b]) [], ih ([] ++ [b]) []]
      simp

theorem readAll_append {rest : List α} (h : feedAll expr ls = (done, [])) :
    readAll expr (ls ++ rest) = (readAll expr rest).map (done ++ ·) := by
  have hall : feedAll expr (ls ++ rest) =
      (done ++ (feedAll expr rest).1, (feedAll expr rest).2) := by
    rw [feedAll, List.foldl_append]
    have hls : ls.foldl (feed expr) ([], []) = (done, []) := h
    rw [hls, foldl_feed]
    rfl
  unfold readAll
  rw [hall]
  dsimp only
  split <;> rfl

theorem feedAll_singleton (h : expr [l] = some b) : feedAll expr [l] = ([b], []) := by
  show feed expr ([], []) l = _
  rw [feed, List.nil_append, h]
  rfl

/-- **Each line that was read is in a block.** -/
theorem exists_block (hl : l ∈ ls) (h : readAll expr ls = some done) :
    ∃ block b, expr block = some b ∧ l ∈ block := by
  have hfold : ∀ (ls : List α) (s : List β × List α), l ∈ ls ∨ l ∈ s.2 →
      (ls.foldl (feed expr) s).2 = [] → ∃ block b, expr block = some b ∧ l ∈ block := by
    intro ls
    induction ls with
    | nil =>
      intro s hl hend
      rcases hl with hl | hl
      · cases hl
      · rw [List.foldl_nil] at hend
        rw [hend] at hl
        cases hl
    | cons l' ls ih =>
      intro s hl hend
      rw [List.foldl_cons] at hend
      cases hexpr : expr (s.2 ++ [l']) with
      | some b =>
        by_cases hmem : l ∈ s.2 ++ [l']
        · exact ⟨_, b, hexpr, hmem⟩
        · refine ih _ (.inl ?_) hend
          rw [List.mem_append, not_or, List.mem_singleton] at hmem
          rcases hl with hl | hl
          · exact (List.mem_cons.1 hl).resolve_left hmem.2
          · exact absurd hl hmem.1
      | none =>
        refine ih _ ?_ hend
        rw [feed, hexpr]
        rcases hl with hl | hl
        · rcases List.mem_cons.1 hl with rfl | hl
          · exact .inr (List.mem_append_right _ (List.mem_singleton_self _))
          · exact .inl hl
        · exact .inr (List.mem_append_left _ hl)
  unfold readAll at h
  split at h
  · next hend => exact hfold ls ([], []) (.inl hl) hend
  · cases h

/-- What is read alike, and is open alike but for one line. -/
def Alike (φ : β → γ) (block : List α) (l l' : α) (s s' : List β × List α) : Prop :=
  s.1.map φ = s'.1.map φ ∧
    (s.2 = s'.2 ∨ ∃ q, s.2 = block ++ l :: q ∧ s'.2 = block ++ l' :: q)

/-- What the line ends, or leaves open, is alike. -/
theorem alike_feed_open {l' r r' : α} {φ : β → γ} {s s' : List β × List α}
    (halike : ∀ q, (expr (block ++ l :: q)).map φ = (expr (block ++ l' :: q)).map φ)
    (hdone : s.1.map φ = s'.1.map φ) {q : List α} (hq : s.2 ++ [r] = block ++ l :: q)
    (hq' : s'.2 ++ [r'] = block ++ l' :: q) :
    Alike φ block l l' (feed expr s r) (feed expr s' r') := by
  have hr := halike q
  rw [feed, feed, hq, hq']
  cases hb : expr (block ++ l :: q) with
  | none =>
    rw [hb, Option.map_none] at hr
    rw [Option.map_eq_none_iff.1 hr.symm]
    exact ⟨hdone, .inr ⟨q, rfl, rfl⟩⟩
  | some b =>
    rw [hb, Option.map_some] at hr
    obtain ⟨b', hb', heq⟩ := Option.map_eq_some_iff.1 hr.symm
    rw [hb']
    exact ⟨by simp [hdone, heq], .inl rfl⟩

theorem alike_feed {l' : α} {φ : β → γ} {s s' : List β × List α}
    (halike : ∀ q, (expr (block ++ l :: q)).map φ = (expr (block ++ l' :: q)).map φ)
    (h : Alike φ block l l' s s') (r : α) :
    Alike φ block l l' (feed expr s r) (feed expr s' r) := by
  obtain ⟨hdone, hopen | ⟨q, hq, hq'⟩⟩ := h
  · rw [feed, feed, hopen]
    cases expr (s'.2 ++ [r]) with
    | none => exact ⟨hdone, .inl rfl⟩
    | some b => exact ⟨by simp [hdone], .inl rfl⟩
  · exact alike_feed_open (q := q ++ [r]) halike hdone (by simp [hq]) (by simp [hq'])

theorem alike_foldl {l' : α} {φ : β → γ} {s s' : List β × List α}
    (halike : ∀ q, (expr (block ++ l :: q)).map φ = (expr (block ++ l' :: q)).map φ)
    (h : Alike φ block l l' s s') (rest : List α) :
    Alike φ block l l' (rest.foldl (feed expr) s) (rest.foldl (feed expr) s') := by
  induction rest generalizing s s' with
  | nil => exact h
  | cons r rest ih => exact ih (alike_feed halike h r)

theorem feedAll_append_cons (hfed : feedAll expr ls = (done, block)) (l : α) (rest : List α) :
    feedAll expr (ls ++ l :: rest) = rest.foldl (feed expr) (feed expr (done, block) l) := by
  have hls : ls.foldl (feed expr) ([], []) = (done, block) := hfed
  rw [feedAll, List.foldl_append, hls, List.foldl_cons]

/-- **Lines that differ in the middle of a block** are read alike, where the
blocks with the one and the other are. -/
theorem readAll_middle {l' : α} {φ : β → γ}
    (hfed : feedAll expr ls = (done, block))
    (halike : ∀ q, (expr (block ++ l :: q)).map φ = (expr (block ++ l' :: q)).map φ)
    (rest : List α) :
    (readAll expr (ls ++ l :: rest)).map (List.map φ) =
      (readAll expr (ls ++ l' :: rest)).map (List.map φ) := by
  have hfirst : Alike φ block l l' (feed expr (done, block) l) (feed expr (done, block) l') :=
    alike_feed_open (q := []) halike rfl rfl rfl
  obtain ⟨hdone, hrest⟩ := alike_foldl halike hfirst rest
  rw [← feedAll_append_cons hfed, ← feedAll_append_cons hfed] at hdone hrest
  have hend : (feedAll expr (ls ++ l :: rest)).2 = [] ↔
      (feedAll expr (ls ++ l' :: rest)).2 = [] := by
    rcases hrest with h | ⟨q, h, h'⟩
    · rw [h]
    · rw [h, h']
      simp
  unfold readAll
  by_cases hended : (feedAll expr (ls ++ l :: rest)).2 = []
  · rw [if_pos hended, if_pos (hend.1 hended), Option.map_some, Option.map_some, hdone]
  · rw [if_neg hended, if_neg fun h => hended (hend.2 h)]

end Blocks

/-! ## The grammar -/

/-- A character of a bare key. -/
def isBareChar (c : Char) : Bool := c.isAlphanum || c = '_' || c = '-'

/-- A key without quotes. -/
def IsBare (key : List Char) : Prop := key ≠ [] ∧ ∀ c ∈ key, isBareChar c = true

/-- A character that stands for itself in a string of any kind. -/
def isPlainChar (c : Char) : Bool :=
  32 ≤ c.toNat && c.toNat < 127 && c ≠ '"' && c ≠ '\\' && c ≠ '\''

def IsPlain (s : List Char) : Prop := ∀ c ∈ s, isPlainChar c = true

/-- A key with a string, on a line of its own. -/
def keyvalLine (key s : List Char) : List Char := key ++ [' ', '=', ' ', '"'] ++ s ++ ['"']

/-- The strings up to a length are left, the longer ones are emptied. -/
def forgetLonger (n : ℕ) (s : List Char) : List Char := if n < s.length then [] else s

/-- **What an expression of TOML is**: a parameter. -/
structure Grammar where
  /-- The expression that is written on lines. -/
  expr : List (List Char) → Option (Expression Value)
  /-- No carriage return is left in an expression once its lines are cut. -/
  no_cr : ∀ {block e}, expr block = some e → ∀ l ∈ block, '\r' ∉ l
  /-- A key with a string is one. -/
  keyval : ∀ {key s}, IsBare key → IsPlain s →
    expr [keyvalLine key s] = some (.keyval [] key (.str s))
  /-- On a later line of an expression it is part of a longer string. -/
  inner : ∀ {key s s' p q n}, IsBare key → IsPlain s → IsPlain s' → p ≠ [] →
    n < (keyvalLine key s).length → n < (keyvalLine key s').length →
    (expr (p ++ keyvalLine key s :: q)).map (Expression.map (Value.mapStr (forgetLonger n))) =
      (expr (p ++ keyvalLine key s' :: q)).map (Expression.map (Value.mapStr (forgetLonger n)))

namespace Grammar

/-- The document that lines are read as. -/
def readLines (g : Grammar) (ls : List (List Char)) : Option (Doc Value) :=
  (readAll g.expr ls).bind (run .start)

variable {g : Grammar} {ls rest : List (List Char)} {l : List Char}
  {done : List (Expression Value)}

/-- No carriage return is in lines that are read. -/
theorem not_mem_of_readLines {d : Doc Value} (h : g.readLines ls = some d) (hl : l ∈ ls) :
    '\r' ∉ l := by
  obtain ⟨es, hes, -⟩ := Option.bind_eq_some_iff.1 h
  obtain ⟨block, e, hexpr, hmem⟩ := exists_block hl hes
  exact g.no_cr hexpr l hmem

theorem readLines_append (hfed : feedAll g.expr ls = (done, [])) :
    g.readLines (ls ++ rest) =
      (run .start done).bind fun d => (readAll g.expr rest).bind (run d) := by
  rw [readLines, readAll_append hfed, Option.bind_map]
  have hrun : ∀ es, (run .start ∘ (done ++ ·)) es = (run .start done).bind fun d => run d es :=
    fun es => run_append _ _ _
  rw [funext hrun]
  cases readAll g.expr rest with
  | none => cases run (ν := Value) .start done <;> rfl
  | some es => rfl

/-- **A line with a key and a string is read between expressions** as a
value more. -/
theorem readLines_keyval {key s : List Char} {d d' : Doc Value} (rest : List (List Char))
    (hkey : IsBare key) (hs : IsPlain s) (hfed : feedAll g.expr ls = (done, []))
    (hdone : run .start done = some d) :
    g.readLines (ls ++ keyvalLine key s :: rest) = some d' ↔
      ∃ t, g.readLines (ls ++ rest) = some t ∧ t.entries (d.current ++ [.key key]) = none ∧
        d' = t.withValue (d.current ++ [.key key]) (.str s) := by
  have hline : readAll g.expr (keyvalLine key s :: rest) =
      (readAll g.expr rest).map ([.keyval [] key (.str s)] ++ ·) :=
    readAll_append (feedAll_singleton (g.keyval hkey hs))
  rw [readLines_append hfed, readLines_append hfed, hdone, Option.bind_some, Option.bind_some,
    hline, Option.bind_map]
  cases readAll g.expr rest with
  | none => simp
  | some es => exact run_keyval_cons

/-- **Within an expression it is not seen** what a line with a key and a
string is. -/
theorem readLines_inner {key s s' : List Char} {block : List (List Char)} {n : ℕ}
    {d d' : Doc Value} (hkey : IsBare key) (hs : IsPlain s) (hs' : IsPlain s')
    (hlong : n < (keyvalLine key s).length) (hlong' : n < (keyvalLine key s').length)
    (hfed : feedAll g.expr ls = (done, block)) (hopen : block ≠ [])
    (h : g.readLines (ls ++ keyvalLine key s :: rest) = some d)
    (h' : g.readLines (ls ++ keyvalLine key s' :: rest) = some d') :
    d.map (Value.mapStr (forgetLonger n)) = d'.map (Value.mapStr (forgetLonger n)) := by
  obtain ⟨es, hes, hrun⟩ := Option.bind_eq_some_iff.1 h
  obtain ⟨es', hes', hrun'⟩ := Option.bind_eq_some_iff.1 h'
  have hsame := readAll_middle hfed (fun q => g.inner hkey hs hs' (q := q) hopen hlong hlong') rest
  rw [hes, hes', Option.map_some, Option.map_some, Option.some.injEq] at hsame
  have hmap := run_map (f := Value.mapStr (forgetLonger n)) .start es
  rw [hsame, run_map, hrun, hrun', Option.map_some, Option.map_some] at hmap
  exact (Option.some.inj hmap).symm

end Grammar

end AigisZero.Toml
