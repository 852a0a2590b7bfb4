import Mathlib.Data.List.Basic

/-!
# The lines of a text

A text cut into its lines as the standard library of Rust cuts it, and put
together again. Lines that have been put together are cut where they were,
but for an empty one at the end.
-/

namespace AigisZero

/-- A line without the carriage return at its end. -/
def stripCr (l : List Char) : List Char := if l.getLast? = some '\r' then l.dropLast else l

/-- What stands after the last line feed is a line if there is something. -/
def lastLine (piece : Option (List Char)) : List (List Char) := piece.toList.filter (· ≠ [])

/-- `str::lines`. -/
def lines (cs : List Char) : List (List Char) :=
  (cs.splitOn '\n').dropLast.map stripCr ++ lastLine (cs.splitOn '\n').getLast?

/-- `join("\n")`. -/
def joinLines (ls : List (List Char)) : List Char := List.intercalate ['\n'] ls

/-- Unicode white space. -/
def isWhite (c : Char) : Bool :=
  let n := c.toNat
  (9 ≤ n && n ≤ 13) || (0x2000 ≤ n && n ≤ 0x200A) ||
    n ∈ [0x20, 0x85, 0xA0, 0x1680, 0x2028, 0x2029, 0x202F, 0x205F, 0x3000]

/-- `str::trim`. -/
def trimLine (l : List Char) : List Char :=
  ((l.dropWhile isWhite).reverse.dropWhile isWhite).reverse

/-- A text that begins with no white space is trimmed at its end only. -/
theorem trimLine_isPrefix {c : Char} {l : List Char} (h : isWhite c = false) :
    trimLine (c :: l) <+: c :: l := by
  rw [trimLine, List.dropWhile_cons_of_neg (by simp [h]), ← List.reverse_suffix,
    List.reverse_reverse]
  exact List.dropWhile_suffix _

theorem stripCr_of_not_mem {l : List Char} (h : '\r' ∉ l) : stripCr l = l :=
  if_neg fun hlast => h (List.mem_of_getLast? hlast)

theorem not_mem_of_mem_splitOn {α : Type*} [DecidableEq α] {x : α} {cs piece : List α}
    (h : piece ∈ cs.splitOn x) : x ∉ piece := by
  induction cs generalizing piece with
  | nil =>
    rw [List.splitOn_nil, List.mem_singleton] at h
    rw [h]
    exact List.not_mem_nil
  | cons c cs ih =>
    rw [List.splitOn_cons_eq_if_modifyHead] at h
    split at h
    · rcases List.mem_cons.1 h with rfl | h
      · exact List.not_mem_nil
      · exact ih h
    · next hne =>
      obtain ⟨first, rest, hpieces⟩ := List.exists_cons_of_ne_nil (List.splitOn_ne_nil x cs)
      rw [hpieces, List.modifyHead_cons, List.mem_cons] at h
      rw [hpieces] at ih
      rcases h with rfl | h
      · rw [List.mem_cons, not_or]
        exact ⟨fun heq => hne (by simp [heq]), ih List.mem_cons_self⟩
      · exact ih (List.mem_cons_of_mem _ h)

/-- No line feed is in a line. -/
theorem not_mem_of_mem_lines {cs l : List Char} (h : l ∈ lines cs) : '\n' ∉ l := by
  rcases List.mem_append.1 h with h | h
  · obtain ⟨piece, hpiece, rfl⟩ := List.mem_map.1 h
    have hnot := not_mem_of_mem_splitOn (List.dropLast_subset _ hpiece)
    unfold stripCr
    split
    · exact fun hmem => hnot (List.dropLast_subset _ hmem)
    · exact hnot
  · have hpiece := (List.mem_filter.1 h).1
    exact not_mem_of_mem_splitOn (List.mem_of_getLast? (Option.mem_toList.1 hpiece))

/-- **Lines put together** are cut where they were, but for an empty one at
the end. -/
theorem lines_joinLines {ls : List (List Char)} (hne : ls ≠ []) (hfeed : ∀ l ∈ ls, '\n' ∉ l)
    (hcr : ∀ l ∈ ls, '\r' ∉ l) : lines (joinLines ls) = ls.dropLast ++ lastLine ls.getLast? := by
  rw [lines, joinLines, List.splitOn_intercalate _ hfeed hne]
  congr 1
  rw [List.map_congr_left fun l hl => stripCr_of_not_mem (hcr l (List.dropLast_subset _ hl)),
    List.map_id']

/-- No other line comes. -/
theorem mem_of_mem_lines_joinLines {ls : List (List Char)} (hfeed : ∀ l ∈ ls, '\n' ∉ l)
    (hcr : ∀ l ∈ ls, '\r' ∉ l) {l : List Char} (h : l ∈ lines (joinLines ls)) : l ∈ ls := by
  rcases eq_or_ne ls [] with rfl | hne
  · exact h
  · rw [lines_joinLines hne hfeed hcr] at h
    rcases List.mem_append.1 h with h | h
    · exact List.dropLast_subset _ h
    · exact List.mem_of_getLast? (Option.mem_toList.1 (List.mem_filter.1 h).1)

theorem lines_joinLines_eq_self {ls : List (List Char)} (hne : ls ≠ [])
    (hfeed : ∀ l ∈ ls, '\n' ∉ l) (hcr : ∀ l ∈ ls, '\r' ∉ l) (hlast : ls.getLast? ≠ some []) :
    lines (joinLines ls) = ls := by
  rw [lines_joinLines hne hfeed hcr]
  obtain ⟨last, hget⟩ : ∃ last, ls.getLast? = some last :=
    Option.ne_none_iff_exists'.1 fun h => hne (List.getLast?_eq_none_iff.1 h)
  have hfilter : lastLine ls.getLast? = [last] := by
    rw [hget] at hlast ⊢
    simp only [lastLine, Option.toList_some]
    exact List.filter_eq_self.2 fun l hl => by
      obtain rfl := List.mem_singleton.1 hl
      simpa using fun h : l = [] => hlast (congrArg some h)
  rw [hfilter]
  exact List.dropLast_append_getLast? last hget

theorem joinLines_concat_nil {ls : List (List Char)} (hne : ls ≠ []) :
    joinLines (ls ++ [[]]) = joinLines ls ++ ['\n'] := by
  induction ls with
  | nil => exact absurd rfl hne
  | cons l ls ih =>
    cases ls with
    | nil => simp [joinLines, List.intercalate]
    | cons l' ls =>
      have htail := ih (List.cons_ne_nil _ _)
      simp only [joinLines, List.intercalate, List.cons_append, List.intersperse_cons_cons,
        List.flatten_cons] at htail ⊢
      simp [htail]

theorem lines_joinLines_of_last {ls : List (List Char)} (hfeed : ∀ l ∈ ls, '\n' ∉ l)
    (hcr : ∀ l ∈ ls, '\r' ∉ l) (hlast : ls.getLast? = some []) :
    lines (joinLines ls) = ls.dropLast := by
  have hne : ls ≠ [] := by
    rintro rfl
    cases hlast
  rw [lines_joinLines hne hfeed hcr, hlast]
  exact List.append_nil _

end AigisZero
