import AigisZero.Library.JsonText
import Mathlib.Data.List.Infix

/-!
# Compact JSON texts

What a compact text is made of: the texts of the members of an object, and
of the elements of an array, with a comma between two of them. So the text
of each value in a value is a stretch of it, and a string that needs no
escape can be read off.
-/

namespace AigisZero

/-- The string is a value somewhere in a value. -/
inductive Json.HasString (s : String) : Json → Prop where
  | str : HasString s (.str s)
  | arr {elements : List Json} {j : Json} (hj : j ∈ elements) (h : HasString s j) :
      HasString s (.arr elements)
  | obj {fields : List (String × Json)} {m : String × Json} (hm : m ∈ fields)
      (h : HasString s m.2) : HasString s (.obj fields)

/-- The text of a member. -/
def JsonCodec.memberText (codec : JsonCodec) (m : String × Json) : List Char :=
  JsonText.printString m.1 ++ ':' :: (codec.toText m.2).toList

/-- **The texts are compact**: strings with the escapes that they need, and
elements and members with a comma between two of them. -/
structure JsonCodec.Compact (codec : JsonCodec) : Prop where
  str : ∀ s, (codec.toText (.str s)).toList = JsonText.printString s
  arr : ∀ elements, (codec.toText (.arr elements)).toList =
    '[' :: (List.intercalate [','] (elements.map fun j => (codec.toText j).toList) ++ [']'])
  obj : ∀ fields, (codec.toText (.obj fields)).toList =
    '\x7b' :: (List.intercalate [','] (fields.map codec.memberText) ++ ['\x7d'])

namespace JsonText

theorem printElements_eq (j : Json) (js : List Json) :
    print j ++ printElements js = List.intercalate [','] ((j :: js).map print) ++ [']'] := by
  induction js generalizing j with
  | nil => simp [printElements]
  | cons j' js ih => simp [printElements, ih, List.intercalate]

theorem printMembers_eq (m : String × Json) (ms : List (String × Json)) :
    printString m.1 ++ ':' :: (print m.2 ++ printMembers ms) =
      List.intercalate [','] ((m :: ms).map fun m => printString m.1 ++ ':' :: print m.2) ++
        ['\x7d'] := by
  induction ms generalizing m with
  | nil => simp [printMembers]
  | cons m' ms ih => simp [printMembers, ih, List.intercalate]

/-- The printer is compact. -/
theorem codec_compact : codec.Compact where
  str s := by rw [codec, String.toList_ofList, print]
  arr elements := by
    simp only [codec, String.toList_ofList]
    cases elements with
    | nil => rfl
    | cons j js => rw [print, printElements_eq]
  obj fields := by
    unfold JsonCodec.memberText
    simp only [codec, String.toList_ofList]
    cases fields with
    | nil => rfl
    | cons m ms =>
      obtain ⟨k, v⟩ := m
      rw [print, printMembers_eq (k, v) ms]

/-- A string that needs no escape is printed as it is. -/
theorem printString_of_plain {s : String} (h : ∀ c ∈ s.toList, escapeChar c = [c]) :
    printString s = '"' :: (s.toList ++ ['"']) := by
  have hchars : ∀ cs : List Char, (∀ c ∈ cs, escapeChar c = [c]) → printChars cs = cs ++ ['"'] := by
    intro cs
    induction cs with
    | nil => exact fun _ => rfl
    | cons c cs ih =>
      intro h
      rw [printChars, h c List.mem_cons_self, ih fun c' hc' => h c' (List.mem_cons_of_mem _ hc')]
      rfl
  rw [printString, hchars _ h]

end JsonText

/-! ## Stretches of a text -/

/-- What is joined is a stretch of what it is joined to. -/
theorem infix_intercalate {α : Type*} {sep part : List α} {parts : List (List α)}
    (h : part ∈ parts) : part <:+: List.intercalate sep parts := by
  induction parts with
  | nil => cases h
  | cons first rest ih =>
    cases rest with
    | nil =>
      obtain rfl := List.mem_singleton.1 h
      rw [List.intercalate_singleton]
    | cons second rest =>
      rw [List.intercalate_cons_cons]
      rcases List.mem_cons.1 h with rfl | h
      · exact ⟨[], sep ++ List.intercalate sep (second :: rest), by simp⟩
      · exact (ih h).trans ⟨first ++ sep, [], by simp⟩

namespace JsonCodec.Compact

variable {codec : JsonCodec} {s : String}

/-- The text of a member is a stretch of the object's. -/
theorem memberText_infix (h : codec.Compact) {fields : List (String × Json)} {m : String × Json}
    (hm : m ∈ fields) : codec.memberText m <:+: (codec.toText (.obj fields)).toList := by
  rw [h.obj]
  exact (infix_intercalate (List.mem_map_of_mem hm)).trans ⟨['\x7b'], ['\x7d'], rfl⟩

/-- **A string stands in the text** of a value that it is part of. -/
theorem printString_infix (h : codec.Compact) {j : Json} (hs : j.HasString s) :
    JsonText.printString s <:+: (codec.toText j).toList := by
  induction hs with
  | str => rw [h.str]
  | @arr elements j hj _ ih =>
    rw [h.arr]
    exact ih.trans ((infix_intercalate
      (List.mem_map_of_mem (f := fun j => (codec.toText j).toList) hj)).trans ⟨['['], [']'], rfl⟩)
  | @obj fields m hm _ ih =>
    refine ih.trans (List.IsInfix.trans ?_ (h.memberText_infix hm))
    exact ⟨JsonText.printString m.1 ++ [':'], [], by simp [memberText]⟩

end JsonCodec.Compact

end AigisZero
