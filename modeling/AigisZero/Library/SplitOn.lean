import Mathlib.Data.String.Basic

/-!
# Texts cut at a separator

A text is cut at each occurrence of a separating character. Texts joined
by the separator are cut where each of them is cut, and nowhere else.
-/

namespace AigisZero

open String (utf8Len ofList)

section Loop

variable (sep c : Char) (l m r : List Char) (acc : List String)

/-- A character is read where the part ends. -/
theorem raw_of_cons :
    ¬ String.Pos.Raw.atEnd (ofList (l ++ m ++ c :: r)) ⟨utf8Len l + utf8Len m⟩ ∧
      String.Pos.Raw.get (ofList (l ++ m ++ c :: r)) ⟨utf8Len l + utf8Len m⟩ = c ∧
      String.Pos.Raw.next (ofList (l ++ m ++ c :: r)) ⟨utf8Len l + utf8Len m⟩ =
        ⟨utf8Len l + utf8Len m + c.utf8Size⟩ := by
  refine ⟨?_, ?_, ?_⟩
  · have hpos := Char.utf8Size_pos c
    rw [String.atEnd_iff, String.rawEndPos_ofList, String.utf8Len_append, String.utf8Len_append,
      String.utf8Len_cons]
    intro hle
    have hle : utf8Len l + utf8Len m + (utf8Len r + c.utf8Size) ≤ utf8Len l + utf8Len m := hle
    omega
  · have h := String.get_of_valid (l ++ m) (c :: r)
    rwa [String.utf8Len_append] at h
  · have h := String.next_of_valid (l ++ m) c r
    rwa [String.utf8Len_append] at h

/-- The separator is one character long. -/
theorem raw_separator :
    String.Pos.Raw.get (ofList [sep]) 0 = sep ∧
      String.Pos.Raw.next (ofList [sep]) 0 = ⟨sep.utf8Size⟩ ∧
      String.Pos.Raw.atEnd (ofList [sep]) ⟨sep.utf8Size⟩ = true := by
  refine ⟨String.get_of_valid [] [sep], ?_, ?_⟩
  · have h := String.next_of_valid [] sep []
    rwa [String.utf8Len_nil, Nat.zero_add] at h
  · rw [String.atEnd_iff, String.rawEndPos_ofList, String.utf8Len_cons, String.utf8Len_nil,
      Nat.zero_add]
    exact Nat.le_refl _

/-- At a separator the part ends, and the next one starts behind it. -/
theorem splitOnAux_separator :
    String.splitOnAux (ofList (l ++ m ++ sep :: r)) (ofList [sep]) ⟨utf8Len l⟩
        ⟨utf8Len l + utf8Len m⟩ 0 acc =
      String.splitOnAux (ofList (l ++ m ++ sep :: r)) (ofList [sep])
        ⟨utf8Len l + utf8Len m + sep.utf8Size⟩ ⟨utf8Len l + utf8Len m + sep.utf8Size⟩ 0
        (ofList m :: acc) := by
  obtain ⟨hend, hget, hnext⟩ := raw_of_cons sep l m r
  obtain ⟨hsep, hsepNext, hsepEnd⟩ := raw_separator sep
  have hpart : String.Pos.Raw.extract (ofList (l ++ m ++ sep :: r)) ⟨utf8Len l⟩
      (String.Pos.Raw.unoffsetBy ⟨utf8Len l + utf8Len m + sep.utf8Size⟩ ⟨sep.utf8Size⟩) =
      ofList m := by
    have hback : String.Pos.Raw.unoffsetBy ⟨utf8Len l + utf8Len m + sep.utf8Size⟩
        ⟨sep.utf8Size⟩ = ⟨utf8Len l + utf8Len m⟩ :=
      congrArg String.Pos.Raw.mk (Nat.add_sub_cancel _ _)
    rw [hback, String.extract_of_valid]
  rw [String.splitOnAux, if_neg hend, hget, hsep, hnext, hsepNext, if_pos (beq_self_eq_true sep),
    if_pos hsepEnd, hpart]

/-- Another character is part of the part. -/
theorem splitOnAux_of_ne {sep c : Char} (hc : c ≠ sep) :
    String.splitOnAux (ofList (l ++ m ++ c :: r)) (ofList [sep]) ⟨utf8Len l⟩
        ⟨utf8Len l + utf8Len m⟩ 0 acc =
      String.splitOnAux (ofList (l ++ m ++ c :: r)) (ofList [sep]) ⟨utf8Len l⟩
        ⟨utf8Len l + utf8Len m + c.utf8Size⟩ 0 acc := by
  obtain ⟨hend, hget, hnext⟩ := raw_of_cons c l m r
  have hback : String.Pos.Raw.unoffsetBy ⟨utf8Len l + utf8Len m⟩ 0 = ⟨utf8Len l + utf8Len m⟩ :=
    congrArg String.Pos.Raw.mk (Nat.sub_zero _)
  rw [String.splitOnAux, if_neg hend, hget, (raw_separator sep).1, if_neg (by simpa using hc),
    hback, hnext]

/-- **The loop of the cut**, over characters: `l` is done with, `m` is the
part that is being read, and `r` is what is left. -/
theorem splitOnAux_of_valid :
    String.splitOnAux (ofList (l ++ m ++ r)) (ofList [sep]) ⟨utf8Len l⟩
        ⟨utf8Len l + utf8Len m⟩ 0 acc =
      acc.reverse ++ (List.splitOnPPrepend (· == sep) r m.reverse).map ofList := by
  induction r generalizing l m acc with
  | nil =>
    have hend : String.Pos.Raw.atEnd (ofList (l ++ m ++ [])) ⟨utf8Len l + utf8Len m⟩ = true := by
      rw [String.atEnd_iff, String.rawEndPos_ofList, List.append_nil, String.utf8Len_append]
      exact Nat.le_refl _
    unfold String.splitOnAux
    rw [if_pos hend, String.extract_of_valid, List.splitOnPPrepend_nil, List.reverse_reverse,
      List.reverse_cons]
    rfl
  | cons c r ih =>
    by_cases hc : c = sep
    · subst hc
      have hrest := ih (l ++ m ++ [c]) [] (ofList m :: acc)
      simp only [String.utf8Len_append, String.utf8Len_cons, String.utf8Len_nil, Nat.zero_add,
        Nat.add_zero, List.append_nil, List.append_assoc, List.singleton_append] at hrest
      rw [← Nat.add_assoc] at hrest
      have hcut : List.splitOnPPrepend (· == c) (c :: r) m.reverse = m :: r.splitOnP (· == c) := by
        rw [List.splitOnPPrepend_cons_pos (p := (· == c)) (beq_self_eq_true c),
          List.reverse_reverse]
      rw [splitOnAux_separator, List.append_assoc, hrest, hcut]
      simp
    · have hrest := ih l (m ++ [c]) acc
      simp only [String.utf8Len_append, String.utf8Len_cons, String.utf8Len_nil, Nat.zero_add,
        List.append_assoc, List.singleton_append, List.reverse_append, List.reverse_singleton]
        at hrest
      rw [splitOnAux_of_ne l m r acc hc, List.splitOnPPrepend_cons_neg (by simpa using hc),
        List.append_assoc, Nat.add_assoc]
      exact hrest

end Loop

/-- **A text is cut where its characters are.** -/
theorem splitOn_eq (s : String) (sep : Char) :
    s.splitOn (ofList [sep]) = (s.toList.splitOn sep).map ofList := by
  have hne : (ofList [sep] == "") = false := by
    rw [beq_eq_false_iff_ne]
    intro h
    have hlist := congrArg String.toList h
    rw [String.toList_ofList] at hlist
    cases hlist
  unfold String.splitOn
  rw [hne]
  have h := splitOnAux_of_valid sep [] [] s.toList []
  rw [List.append_nil, List.nil_append, String.ofList_toList] at h
  exact h

/-- **What was joined is cut as its parts are.** -/
theorem splitOn_intercalate (sep : Char) {parts : List String} (h : parts ≠ []) :
    ((ofList [sep]).intercalate parts).splitOn (ofList [sep]) =
      parts.flatMap fun part => part.splitOn (ofList [sep]) := by
  induction parts with
  | nil => exact absurd rfl h
  | cons part parts ih =>
    cases parts with
    | nil => simp
    | cons part' parts =>
      have hrest := ih (List.cons_ne_nil _ _)
      rw [List.flatMap_cons, ← hrest, String.intercalate_cons_cons]
      simp only [splitOn_eq, String.toList_append, String.toList_ofList, List.append_assoc,
        List.singleton_append]
      rw [List.splitOn_append_cons_of_beq _ _ (beq_self_eq_true sep), List.map_append]

end AigisZero
