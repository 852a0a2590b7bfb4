import AigisZero.RuleEngine.Scanner
import AigisZero.Library.CompactJson
import AigisZero.Library.Occurs

/-!
# What a field more hides from the rules

The buffer of an event is made of lines, one for each value that is scanned,
or of the whole text of its payload where it has no such value. A field more
hides none of the lines, and where there are none with it either, none of
the members of the text. But a field that brings the first line puts itself
in the place of the text. And a string that is read over the end of a line,
or of a member, can be cut by what is put between.
-/

namespace AigisZero.RuleEngine

open Fields (lookup insert)

/-! ## The values that are scanned -/

/-- The value of a member, where it is a string. -/
def strOf : Option Json → List String
  | some (.str val) => [val]
  | _ => []

/-- The values of an object that are scanned. -/
def objectValues (obj : List (String × Json)) : List String :=
  scannableKeys.flatMap fun key => strOf (lookup key obj)

/-- Of the columns of a row, their values. -/
def columnValues : Json → List String
  | .obj fields => strOf (lookup "value" fields)
  | _ => []

/-- Of the rows, their own values and those of their columns. -/
def rowValues : Json → List String
  | .obj fields =>
    objectValues fields ++
      (((lookup "columns" fields).bind Json.asArray?).getD []).flatMap columnValues
  | _ => []

/-- The values of the payload that are scanned. -/
def scannedValues (fields : List (String × Json)) : List String :=
  objectValues fields ++
    (((lookup "rows" fields).bind Json.asArray?).getD []).flatMap rowValues

theorem lineOf_eq (j : Option Json) : lineOf j = (strOf j).flatMap line := by
  unfold lineOf strOf
  split <;> simp

theorem scan_object_eq (obj : List (String × Json)) :
    scan_object obj = (objectValues obj).flatMap line := by
  unfold scan_object objectValues
  rw [List.flatMap_assoc]
  exact List.flatMap_congr fun key _ => lineOf_eq _

theorem scanColumn_eq (col : Json) : scanColumn col = (columnValues col).flatMap line := by
  unfold scanColumn columnValues
  cases col with
  | obj fields => exact lineOf_eq _
  | _ => rfl

theorem scanRow_eq (row : Json) : scanRow row = (rowValues row).flatMap line := by
  unfold scanRow rowValues
  cases row with
  | obj fields =>
    dsimp only
    rw [scan_object_eq, List.flatMap_append, List.flatMap_assoc]
    exact congrArg _ (List.flatMap_congr fun col _ => scanColumn_eq col)
  | _ => rfl

/-- **The lines of a payload are those of its scanned values.** -/
theorem scanPayload_eq (fields : List (String × Json)) :
    scanPayload (.obj fields) = (scannedValues fields).flatMap line := by
  unfold scanPayload scannedValues
  dsimp only
  rw [scan_object_eq, List.flatMap_append, List.flatMap_assoc]
  exact congrArg _ (List.flatMap_congr fun row _ => scanRow_eq row)

/-! ## What is claimed -/

variable {codec : JsonCodec} {event : TelemetryEvent} {fields : List (String × Json)} {k : String}
variable {v : Json} {s : String}

/-- The event with another payload. -/
def withPayload (event : TelemetryEvent) (fields : List (String × Json)) : TelemetryEvent :=
  { event with payload := .obj fields }

/-- The field is a line of its own. -/
def IsLine (k : String) (v : Json) : Prop := scan_object [(k, v)] ≠ []

/-- The string is seen in one line. -/
def SeenInLine (s : String) (fields : List (String × Json)) : Prop :=
  ∃ val ∈ scannedValues fields, Occurs s (line val)

/-- The string is seen in one member. -/
def SeenInMember (codec : JsonCodec) (s : String) (fields : List (String × Json)) : Prop :=
  ∃ m ∈ fields, Occurs s (utf8 (String.ofList (codec.memberText m)))

/-! ## A field more -/

theorem lookup_of_new (hnew : ∀ m ∈ fields, m.1 ≠ k) : lookup k fields = none := by
  rw [lookup, List.find?_eq_none.2 fun m hm => by simpa using hnew m hm]
  rfl

theorem mem_insert_of_new (hnew : ∀ m ∈ fields, m.1 ≠ k) {m : String × Json} (hm : m ∈ fields) :
    m ∈ insert k v fields := by
  induction fields with
  | nil => cases hm
  | cons m' fields ih =>
    obtain ⟨k', v'⟩ := m'
    unfold Fields.insert
    have hne : k ≠ k' := fun h => hnew _ List.mem_cons_self h.symm
    rw [if_neg hne]
    split
    · exact List.mem_cons_of_mem _ hm
    · rcases List.mem_cons.1 hm with rfl | hm
      · exact List.mem_cons_self
      · exact List.mem_cons_of_mem _ (ih (fun m hm => hnew m (List.mem_cons_of_mem _ hm)) hm)

theorem lookup_insert_of_some (hnew : ∀ m ∈ fields, m.1 ≠ k) {key : String} {j : Json}
    (h : lookup key fields = some j) : lookup key (insert k v fields) = some j := by
  rw [Fields.lookup_insert, if_neg, h]
  rintro rfl
  rw [lookup_of_new hnew] at h
  cases h

/-- **What is scanned without the field is scanned with it.** -/
theorem scannedValues_subset (hnew : ∀ m ∈ fields, m.1 ≠ k) :
    scannedValues fields ⊆ scannedValues (insert k v fields) := by
  intro val hval
  unfold scannedValues at hval ⊢
  rcases List.mem_append.1 hval with hval | hval
  · refine List.mem_append_left _ ?_
    obtain ⟨key, hkey, hval⟩ := List.mem_flatMap.1 hval
    refine List.mem_flatMap.2 ⟨key, hkey, ?_⟩
    cases hlookup : lookup key fields with
    | none =>
      rw [hlookup] at hval
      cases hval
    | some j => rwa [lookup_insert_of_some hnew hlookup, ← hlookup]
  · refine List.mem_append_right _ ?_
    cases hlookup : lookup "rows" fields with
    | none =>
      rw [hlookup] at hval
      cases hval
    | some j => rwa [lookup_insert_of_some hnew hlookup, ← hlookup]

/-- A field that is no line of its own leaves the lines where they are. -/
theorem scanPayload_prefix (hnew : ∀ m ∈ fields, m.1 ≠ k) (hline : ¬ IsLine k v) :
    scanPayload (.obj fields) <+: scanPayload (.obj (insert k v fields)) := by
  have hobject : scan_object (insert k v fields) = scan_object fields := by
    refine List.flatMap_congr fun key hkey => ?_
    rw [Fields.lookup_insert]
    split
    · next heq =>
      subst heq
      have hnone := List.flatMap_eq_nil_iff.1 (not_not.1 hline) k hkey
      rw [Fields.lookup_cons, if_pos rfl] at hnone
      rw [hnone, lookup_of_new hnew]
      rfl
    · rfl
  unfold scanPayload
  dsimp only
  rw [hobject]
  refine (List.prefix_append_right_inj _).2 ?_
  cases hrows : lookup "rows" fields with
  | none => exact List.nil_prefix
  | some j => rw [lookup_insert_of_some hnew hrows]

/-- **A field added to a payload without lines** has all the lines. -/
theorem scanPayload_insert_of_nil (hnil : scanPayload (.obj fields) = []) :
    scanPayload (.obj (insert k v fields)) = scanPayload (.obj [(k, v)]) := by
  have hparts := List.append_eq_nil_iff.1 hnil
  unfold scanPayload
  dsimp only
  congr 1
  · refine List.flatMap_congr fun key hkey => ?_
    rw [Fields.lookup_insert, Fields.lookup_cons]
    split
    · rfl
    · exact List.flatMap_eq_nil_iff.1 hparts.1 key hkey
  · rw [Fields.lookup_insert, Fields.lookup_cons]
    split
    · rfl
    · exact hparts.2

/-! ## Strings over the end of a line -/

/-- **A string without a line feed is seen in one line**, if it has a
character. -/
theorem occurs_lines {vals : List String} (hfeed : '\n' ∉ s.toList)
    (h : Occurs s (vals.flatMap line)) : utf8 s = [] ∨ ∃ val ∈ vals, Occurs s (line val) := by
  have hbyte : (10 : UInt8) ∉ utf8 s := by
    intro hmem
    obtain ⟨c, hc, heq⟩ := mem_of_mem_utf8 hmem (by decide)
    obtain rfl : c = '\n' := Char.toNat_inj.1 heq
    exact hfeed hc
  induction vals with
  | nil => exact .inl (List.infix_nil.1 h)
  | cons val vals ih =>
    rw [Occurs, List.flatMap_cons, line, List.append_assoc] at h
    rcases (infix_append_cons hbyte).1 h with h | h
    · exact .inr ⟨val, List.mem_cons_self, h.trans (List.prefix_append _ _).isInfix⟩
    · rcases ih h with hempty | ⟨val', hval', hline⟩
      · exact .inl hempty
      · exact .inr ⟨val', List.mem_cons_of_mem _ hval', hline⟩

/-- A string that is seen in one line is seen in the lines. -/
theorem SeenInLine.occurs (h : SeenInLine s fields) : Occurs s (scanPayload (.obj fields)) := by
  obtain ⟨val, hval, hs⟩ := h
  rw [scanPayload_eq]
  exact hs.mono (infix_flatMap line hval)

theorem SeenInLine.insert (hnew : ∀ m ∈ fields, m.1 ≠ k) (h : SeenInLine s fields) :
    SeenInLine s (insert k v fields) := by
  obtain ⟨val, hval, hs⟩ := h
  exact ⟨val, scannedValues_subset hnew hval, hs⟩

/-! ## Strings over the end of a member -/

theorem SeenInMember.occurs (hcompact : codec.Compact) (h : SeenInMember codec s fields) :
    Occurs s (codec.toVec (.obj fields)) := by
  obtain ⟨m, hm, hs⟩ := h
  refine hs.mono (Occurs.of_infix ?_)
  rw [String.toList_ofList]
  exact hcompact.memberText_infix hm

/-- **A string value that needs no escape is seen in one member.** -/
theorem seenInMember_of_plain (hcompact : codec.Compact) (hs : (Json.obj fields).HasString s)
    (hplain : ∀ c ∈ s.toList, JsonText.escapeChar c = [c]) : SeenInMember codec s fields := by
  cases hs with
  | @obj _ m hm h =>
    refine ⟨m, hm, Occurs.of_infix ?_⟩
    have htext := hcompact.printString_infix h
    rw [JsonText.printString_of_plain hplain] at htext
    rw [String.toList_ofList]
    have hstring : s.toList <:+: '"' :: (s.toList ++ ['"']) := ⟨['"'], ['"'], by simp⟩
    refine hstring.trans (htext.trans ?_)
    exact ⟨JsonText.printString m.1 ++ [':'], [], by simp [JsonCodec.memberText]⟩

/-! ## The buffer -/

theorem extract_of_nil (h : scanPayload (.obj fields) = []) :
    extract_scannable_buffer codec (withPayload event fields) = codec.toVec (.obj fields) := by
  unfold extract_scannable_buffer withPayload
  rw [h]
  rfl

theorem extract_of_lines (h : scanPayload (.obj fields) ≠ []) :
    extract_scannable_buffer codec (withPayload event fields) = scanPayload (.obj fields) :=
  extract_of_ne_nil h

theorem ne_nil_of_insert (hnew : ∀ m ∈ fields, m.1 ≠ k) (h : scanPayload (.obj fields) ≠ []) :
    scanPayload (.obj (insert k v fields)) ≠ [] := by
  rw [scanPayload_eq] at h ⊢
  intro hnil
  refine h (List.flatMap_eq_nil_iff.2 fun val hval => ?_)
  exact List.flatMap_eq_nil_iff.1 hnil val (scannedValues_subset hnew hval)

/-- **What a field more leaves to be seen.** Beside lines, it hides no
string but one that is read over the end of a line. Where there are no
lines with it either, it hides no string but one that is read over the end
of a member. Where it brings the first line, its lines are all that is
seen. -/
theorem scanned_with_more (hcompact : codec.Compact) (event : TelemetryEvent)
    (hnew : ∀ m ∈ fields, m.1 ≠ k) (v : Json) (hs : (Json.obj fields).HasString s)
    (hseen : Occurs s (extract_scannable_buffer codec (withPayload event fields))) :
    (scanPayload (.obj fields) ≠ [] → ¬ IsLine k v ∨ '\n' ∉ s.toList ∨ SeenInLine s fields →
      Occurs s (extract_scannable_buffer codec (withPayload event (insert k v fields)))) ∧
    (scanPayload (.obj fields) = [] → scanPayload (.obj [(k, v)]) = [] →
      (∀ c ∈ s.toList, JsonText.escapeChar c = [c]) ∨ SeenInMember codec s fields →
      Occurs s (extract_scannable_buffer codec (withPayload event (insert k v fields)))) ∧
    (scanPayload (.obj fields) = [] → scanPayload (.obj [(k, v)]) ≠ [] →
      extract_scannable_buffer codec (withPayload event (insert k v fields)) =
        scanPayload (.obj [(k, v)])) := by
  refine ⟨fun hlines hone => ?_, fun hnil hnone hone => ?_, fun hnil hfirst => ?_⟩
  · rw [extract_of_lines hlines] at hseen
    rw [extract_of_lines (ne_nil_of_insert hnew hlines)]
    rcases hone with hline | hfeed | hline
    · exact hseen.mono ( scanPayload_prefix hnew hline).isInfix
    · rw [scanPayload_eq] at hseen
      rcases occurs_lines hfeed hseen with hempty | hline
      · rw [Occurs, hempty]
        exact List.nil_infix
      · exact (SeenInLine.insert hnew hline).occurs
    · exact (hline.insert hnew).occurs
  · have hmember : SeenInMember codec s fields :=
      hone.elim (seenInMember_of_plain hcompact hs) id
    obtain ⟨m, hm, hs⟩ := hmember
    rw [extract_of_nil ((scanPayload_insert_of_nil hnil).trans hnone)]
    exact SeenInMember.occurs hcompact ⟨m, mem_insert_of_new hnew hm, hs⟩
  · rw [extract_of_lines (by rwa [scanPayload_insert_of_nil hnil]), scanPayload_insert_of_nil hnil]

/-! ## Strings that are hidden -/

/-- An event without a payload. -/
def bareEvent : TelemetryEvent := ⟨"evt-002", ⟨0⟩, "prod-node-01", "custom", 0, .null, none⟩

/-- Values with a string that is read over the end of a line. -/
def overLine : List (String × Json) :=
  [("cmdline", .str "a"), ("path", .str "b"), ("x", .str "a\nb")]

/-- Values with a string that is read over the end of a member. -/
def overMember : List (String × Json) :=
  [("a", .str "x"), ("c", .str "y"), ("d", .str "x\",\"c")]

/-- **A field that is scanned hides all that is not**: `custom_val` is seen
with the payload alone, and no more with a field `cmd` beside it. Strings
over the end of a line, or of a member, are hidden as well. -/
theorem not_scanned_with_more :
    (Occurs "custom_val" (extract_scannable_buffer JsonText.codec
        (withPayload bareEvent [("custom_key", .str "custom_val")])) ∧
      ¬ Occurs "custom_val" (extract_scannable_buffer JsonText.codec
        (withPayload bareEvent (insert "cmd" (.str "ls") [("custom_key", .str "custom_val")])))) ∧
    (Occurs "a\nb" (extract_scannable_buffer JsonText.codec (withPayload bareEvent overLine)) ∧
      ¬ Occurs "a\nb" (extract_scannable_buffer JsonText.codec
        (withPayload bareEvent (insert "cmd" (.str "ls") overLine)))) ∧
    (Occurs "x\",\"c" (extract_scannable_buffer JsonText.codec
        (withPayload bareEvent overMember)) ∧
      ¬ Occurs "x\",\"c" (extract_scannable_buffer JsonText.codec
        (withPayload bareEvent (insert "b" .null overMember)))) := by
  decide

/-- A command line is seen beside a command. -/
theorem scanned_with_more_cmdline :
    (scanPayload (.obj [("cmdline", .str "nc")]) ≠ [] →
      ¬ IsLine "cmd" (.str "ls") ∨ '\n' ∉ "nc".toList ∨ SeenInLine "nc" [("cmdline", .str "nc")] →
      Occurs "nc" (extract_scannable_buffer JsonText.codec
        (withPayload bareEvent (insert "cmd" (.str "ls") [("cmdline", .str "nc")])))) ∧
    (scanPayload (.obj [("cmdline", .str "nc")]) = [] →
      scanPayload (.obj [("cmd", .str "ls")]) = [] →
      (∀ c ∈ "nc".toList, JsonText.escapeChar c = [c]) ∨
        SeenInMember JsonText.codec "nc" [("cmdline", .str "nc")] →
      Occurs "nc" (extract_scannable_buffer JsonText.codec
        (withPayload bareEvent (insert "cmd" (.str "ls") [("cmdline", .str "nc")])))) ∧
    (scanPayload (.obj [("cmdline", .str "nc")]) = [] →
      scanPayload (.obj [("cmd", .str "ls")]) ≠ [] →
      extract_scannable_buffer JsonText.codec
          (withPayload bareEvent (insert "cmd" (.str "ls") [("cmdline", .str "nc")])) =
        scanPayload (.obj [("cmd", .str "ls")])) :=
  scanned_with_more JsonText.codec_compact bareEvent (by decide) (.str "ls")
    (.obj List.mem_cons_self .str) (by decide)

end AigisZero.RuleEngine
