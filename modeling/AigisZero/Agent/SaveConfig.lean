import AigisZero.Agent.Config
import AigisZero.Library.TomlLine

/-!
# Saving the node id

After enrolment the agent writes its node id into its configuration file.
It edits the lines of the file and does not read it as TOML. This module
says exactly when the file is still the configuration it was.
-/

namespace AigisZero.Agent

open Toml Config

/-! ## The edit -/

/-- `format!("node_id = \"\x7b\x7d\"", node_id)`. -/
def nodeIdLine (node_id : Uuid) : List Char :=
  keyvalLine "node_id".toList node_id.toText.toList

/-- The loop over the lines: the lines it leaves, whether it is in the
section, and whether the line is inserted. -/
def editLoop (line : List Char) : Bool → List (List Char) → List (List Char) × Bool × Bool
  | in_agent, [] => ([], in_agent, false)
  | in_agent, l :: ls =>
    if trimLine l = "[agent]".toList then
      let r := editLoop line true ls
      (l :: r.1, r.2)
    else if in_agent && "node_id".toList.isPrefixOf l then (line :: ls, in_agent, true)
    else if in_agent && ['['].isPrefixOf l then (line :: l :: ls, in_agent, true)
    else
      let r := editLoop line in_agent ls
      (l :: r.1, r.2)

/-- What follows the loop: the line is pushed if the section was the last. -/
def pushLine (line : List Char) (r : List (List Char) × Bool × Bool) : List (List Char) :=
  let (lines, in_agent, inserted) := r
  if in_agent && !inserted then lines ++ [line] else lines

def editLines (line : List Char) (ls : List (List Char)) : List (List Char) :=
  pushLine line (editLoop line false ls)

/-- The text that is written, given the text that is read. -/
def save_node_id_to_config (content : String) (node_id : Uuid) : String :=
  String.ofList (joinLines (editLines (nodeIdLine node_id) (lines content.toList)))

/-! ## Where the line goes -/

/-- The lines before the line and those after it, if it goes anywhere. -/
def place : Bool → List (List Char) → Option (List (List Char) × List (List Char))
  | in_agent, [] => if in_agent then some ([], []) else none
  | in_agent, l :: ls =>
    if trimLine l = "[agent]".toList then (place true ls).map fun p => (l :: p.1, p.2)
    else if in_agent && "node_id".toList.isPrefixOf l then some ([], ls)
    else if in_agent && ['['].isPrefixOf l then some ([], l :: ls)
    else (place in_agent ls).map fun p => (l :: p.1, p.2)

theorem pushLine_cons (line l : List Char) (r : List (List Char) × Bool × Bool) :
    pushLine line (l :: r.1, r.2) = l :: pushLine line r := by
  obtain ⟨lines, in_agent, inserted⟩ := r
  cases in_agent <;> cases inserted <;> rfl

theorem pushLine_editLoop (line : List Char) (in_agent : Bool) (ls : List (List Char)) :
    pushLine line (editLoop line in_agent ls) =
      (place in_agent ls).elim ls fun p => p.1 ++ line :: p.2 := by
  induction ls generalizing in_agent with
  | nil => cases in_agent <;> rfl
  | cons l ls ih =>
    have hskip : ∀ in_agent' : Bool,
        pushLine line (l :: (editLoop line in_agent' ls).1, (editLoop line in_agent' ls).2) =
          ((place in_agent' ls).map fun p => (l :: p.1, p.2)).elim (l :: ls)
            fun p => p.1 ++ line :: p.2 := by
      intro in_agent'
      rw [pushLine_cons, ih]
      cases place in_agent' ls <;> rfl
    unfold editLoop place
    split
    · exact hskip true
    · split
      · simp [pushLine]
      · split
        · simp [pushLine]
        · exact hskip in_agent

/-- **The line goes to its place**, and nothing else changes. -/
theorem editLines_eq (line : List Char) (ls : List (List Char)) :
    editLines line ls = (place false ls).elim ls fun p => p.1 ++ line :: p.2 :=
  pushLine_editLoop line false ls

/-- A line that is to be replaced stands where it was put. -/
theorem place_again {line : List Char} {in_agent : Bool} {ls pre post : List (List Char)}
    (hheader : trimLine line ≠ "[agent]".toList) (hline : "node_id".toList.isPrefixOf line = true)
    (h : place in_agent ls = some (pre, post)) (post' : List (List Char)) :
    place in_agent (pre ++ line :: post') = some (pre, post') := by
  induction ls generalizing in_agent pre with
  | nil =>
    cases in_agent with
    | false => cases h
    | true =>
      obtain ⟨rfl, rfl⟩ := Prod.mk.inj (Option.some.inj h)
      rw [List.nil_append, place, if_neg hheader, if_pos (by rw [hline]; rfl)]
  | cons l ls ih =>
    have hhere : ∀ {in_agent : Bool}, in_agent = true →
        place in_agent ([] ++ line :: post') = some ([], post') := by
      rintro _ rfl
      rw [List.nil_append, place, if_neg hheader, if_pos (by rw [hline]; rfl)]
    unfold place at h
    split at h
    · next hagent =>
      obtain ⟨⟨pre', post''⟩, hplace, heq⟩ := Option.map_eq_some_iff.1 h
      obtain ⟨rfl, rfl⟩ := Prod.mk.inj heq
      rw [List.cons_append, place, if_pos hagent, ih hplace]
      rfl
    · next hagent =>
      split at h
      · next hnode =>
        obtain ⟨rfl, -⟩ := Prod.mk.inj (Option.some.inj h)
        exact hhere (Bool.and_eq_true_iff.1 hnode).1
      · next hnode =>
        split at h
        · next hsection =>
          obtain ⟨rfl, -⟩ := Prod.mk.inj (Option.some.inj h)
          exact hhere (Bool.and_eq_true_iff.1 hsection).1
        · next hsection =>
          obtain ⟨⟨pre', post''⟩, hplace, heq⟩ := Option.map_eq_some_iff.1 h
          obtain ⟨rfl, rfl⟩ := Prod.mk.inj heq
          rw [List.cons_append, place, if_neg hagent, if_neg hnode, if_neg hsection, ih hplace]
          rfl

theorem place_isSome_of_inAgent (ls : List (List Char)) : (place true ls).isSome = true := by
  induction ls with
  | nil => rfl
  | cons l ls ih =>
    unfold place
    split
    · rwa [Option.isSome_map]
    · split
      · rfl
      · split
        · rfl
        · rwa [Option.isSome_map]

/-- The line goes nowhere if no section is found. -/
theorem place_eq_none_iff {ls : List (List Char)} :
    place false ls = none ↔ ∀ l ∈ ls, trimLine l ≠ "[agent]".toList := by
  induction ls with
  | nil => simp [place]
  | cons l ls ih =>
    rw [List.forall_mem_cons]
    unfold place
    split
    · next hagent =>
      obtain ⟨p, hp⟩ := Option.isSome_iff_exists.1 (place_isSome_of_inAgent ls)
      simp [hp, hagent]
    · next hagent =>
      simp only [Bool.false_and, Bool.false_eq_true, if_false, Option.map_eq_none_iff]
      exact ih.trans (and_iff_right hagent).symm

/-- What is read is before the line, after it or replaced by it. -/
theorem mem_of_place {in_agent : Bool} {ls pre post : List (List Char)}
    (h : place in_agent ls = some (pre, post)) {l : List Char} (hl : l ∈ pre ++ post) :
    l ∈ ls := by
  induction ls generalizing in_agent pre with
  | nil =>
    cases in_agent with
    | false => cases h
    | true =>
      obtain ⟨rfl, rfl⟩ := Prod.mk.inj (Option.some.inj h)
      exact hl
  | cons l' ls ih =>
    have hskip : ∀ {in_agent' : Bool},
        (place in_agent' ls).map (fun p => (l' :: p.1, p.2)) = some (pre, post) →
        l ∈ l' :: ls := by
      intro in_agent' h
      obtain ⟨⟨pre', post'⟩, hplace, heq⟩ := Option.map_eq_some_iff.1 h
      obtain ⟨rfl, rfl⟩ := Prod.mk.inj heq
      rcases List.mem_cons.1 hl with rfl | hl
      · exact List.mem_cons_self
      · exact List.mem_cons_of_mem _ (ih hplace hl)
    unfold place at h
    split at h
    · exact hskip h
    · split at h
      · obtain ⟨rfl, rfl⟩ := Prod.mk.inj (Option.some.inj h)
        exact List.mem_cons_of_mem _ hl
      · split at h
        · obtain ⟨rfl, rfl⟩ := Prod.mk.inj (Option.some.inj h)
          exact hl
        · exact hskip h

/-! ## The line -/

theorem isBare_node_id : IsBare "node_id".toList := by
  refine ⟨by decide, ?_⟩
  exact List.all_eq_true.1 (by decide)

theorem isPlainChar_of_isDigitChar {c : Char} (h : Uuid.isDigitChar c = true) :
    isPlainChar c = true := by
  have hrange : ∀ n < 103, Uuid.isDigitChar (Char.ofNat n) = true →
      isPlainChar (Char.ofNat n) = true := by decide
  have hle : c.toNat < 103 := by
    simp only [Uuid.isDigitChar, Bool.or_eq_true, Bool.and_eq_true, decide_eq_true_eq,
      Char.le_def, UInt32.le_iff_toNat_le] at h
    have h9 : ('9' : Char).val.toNat = 57 := rfl
    have hf : ('f' : Char).val.toNat = 102 := rfl
    show c.val.toNat < 103
    omega
  have hchar := hrange c.toNat hle
  rw [Char.ofNat_toNat] at hchar
  exact hchar h

theorem isPlain_toText (u : Uuid) : IsPlain u.toText.toList := by
  intro c hc
  rcases Uuid.mem_toText hc with rfl | hdigit
  · decide
  · exact isPlainChar_of_isDigitChar hdigit

theorem length_nodeIdLine (u : Uuid) : (nodeIdLine u).length = 48 := by
  simp [nodeIdLine, keyvalLine, Uuid.length_toText]

theorem prefix_nodeIdLine (u : Uuid) : "node_id".toList <+: nodeIdLine u :=
  ⟨_, by rw [nodeIdLine, keyvalLine, List.append_assoc, List.append_assoc]⟩

theorem trimLine_nodeIdLine (u : Uuid) : trimLine (nodeIdLine u) ≠ "[agent]".toList := by
  have hhead : nodeIdLine u = 'n' :: (nodeIdLine u).tail := by
    obtain ⟨rest, hrest⟩ := prefix_nodeIdLine u
    rw [← hrest]
    rfl
  intro h
  rw [hhead] at h
  have hprefix : "[agent]".toList <+: 'n' :: (nodeIdLine u).tail :=
    h ▸ trimLine_isPrefix (by decide)
  exact absurd (List.cons_prefix_cons.1 hprefix).1 (by decide)

/-- No character of the line ends a line. -/
theorem not_mem_nodeIdLine (u : Uuid) : '\n' ∉ nodeIdLine u ∧ '\r' ∉ nodeIdLine u := by
  have hmem : ∀ c ∈ nodeIdLine u, isPlainChar c = true ∨ c = '"' := by
    intro c hc
    simp only [nodeIdLine, keyvalLine, List.mem_append] at hc
    rcases hc with ((hc | hc) | hc) | hc
    · exact .inl (List.all_eq_true.1 (by decide : "node_id".toList.all isPlainChar = true) c hc)
    · revert hc
      simp only [List.mem_cons, List.not_mem_nil, or_false]
      rintro (rfl | rfl | rfl | rfl) <;> decide
    · exact .inl (isPlain_toText u c hc)
    · exact .inr (List.mem_singleton.1 hc)
  constructor
  · intro h
    exact absurd (hmem _ h) (by decide)
  · intro h
    exact absurd (hmem _ h) (by decide)

/-! ## Saving again -/

variable {content : String} {pre post : List (List Char)}

theorem toList_save (content : String) (node_id : Uuid) :
    (save_node_id_to_config content node_id).toList =
      joinLines (editLines (nodeIdLine node_id) (lines content.toList)) := by
  rw [save_node_id_to_config, String.toList_ofList]

/-- The lines with the line at its place. -/
theorem editLines_of_place (h : place false (lines content.toList) = some (pre, post))
    (node_id : Uuid) :
    editLines (nodeIdLine node_id) (lines content.toList) = pre ++ nodeIdLine node_id :: post := by
  rw [editLines_eq, h]
  rfl

theorem editLines_again {ls : List (List Char)} (h : place false ls = some (pre, post))
    (node_id node_id' : Uuid) (post' : List (List Char)) :
    editLines (nodeIdLine node_id') (pre ++ nodeIdLine node_id :: post') =
      pre ++ nodeIdLine node_id' :: post' := by
  rw [editLines_eq, place_again (trimLine_nodeIdLine node_id)
    (List.isPrefixOf_iff_prefix.2 (prefix_nodeIdLine node_id)) h post']
  rfl

/-- The lines of a configuration have no carriage return. -/
def Clean (ls : List (List Char)) : Prop := ∀ l ∈ ls, '\r' ∉ l

theorem clean_edited (h : place false (lines content.toList) = some (pre, post))
    (hclean : Clean (lines content.toList)) (node_id : Uuid) :
    (∀ l ∈ pre ++ nodeIdLine node_id :: post, '\n' ∉ l) ∧
      ∀ l ∈ pre ++ nodeIdLine node_id :: post, '\r' ∉ l := by
  have hmem : ∀ l ∈ pre ++ nodeIdLine node_id :: post,
      l = nodeIdLine node_id ∨ l ∈ lines content.toList := by
    intro l hl
    rcases List.mem_append.1 hl with hl | hl
    · exact .inr (mem_of_place h (List.mem_append_left _ hl))
    · rcases List.mem_cons.1 hl with rfl | hl
      · exact .inl rfl
      · exact .inr (mem_of_place h (List.mem_append_right _ hl))
  constructor
  · intro l hl
    rcases hmem l hl with rfl | hl
    · exact (not_mem_nodeIdLine node_id).1
    · exact not_mem_of_mem_lines hl
  · intro l hl
    rcases hmem l hl with rfl | hl
    · exact (not_mem_nodeIdLine node_id).2
    · exact hclean l hl

theorem getLast?_edited (pre post : List (List Char)) (line : List Char) :
    (pre ++ line :: post).getLast? = some (post.getLast?.getD line) := by
  rw [List.getLast?_append, List.getLast?_cons]
  rfl

/-- **The lines that are written are read again**, if the last is not empty. -/
theorem lines_save (h : place false (lines content.toList) = some (pre, post))
    (hclean : Clean (lines content.toList)) (hlast : post.getLast? ≠ some []) (node_id : Uuid) :
    lines (save_node_id_to_config content node_id).toList = pre ++ nodeIdLine node_id :: post := by
  obtain ⟨hfeed, hcr⟩ := clean_edited h hclean node_id
  rw [toList_save, editLines_of_place h]
  refine lines_joinLines_eq_self (by simp) hfeed hcr ?_
  rw [getLast?_edited]
  intro heq
  cases hpost : post.getLast? with
  | none =>
    rw [hpost] at heq
    have hlen := congrArg List.length (Option.some.inj heq)
    rw [Option.getD_none, length_nodeIdLine] at hlen
    cases hlen
  | some l =>
    rw [hpost] at heq hlast
    exact hlast heq

/-- What is saved next replaces what was saved. -/
theorem save_save (h : place false (lines content.toList) = some (pre, post))
    (hclean : Clean (lines content.toList)) (hlast : post.getLast? ≠ some [])
    (node_id node_id' : Uuid) :
    save_node_id_to_config (save_node_id_to_config content node_id) node_id' =
      save_node_id_to_config content node_id' := by
  have hlines := lines_save h hclean hlast node_id
  unfold save_node_id_to_config at hlines ⊢
  rw [hlines, editLines_again h, editLines_of_place h]

/-- With an empty line at the end something is lost each time. -/
theorem save_ne_of_last (h : place false (lines content.toList) = some (pre, post))
    (hclean : Clean (lines content.toList)) (hlast : post.getLast? = some []) (node_id : Uuid) :
    save_node_id_to_config (save_node_id_to_config content node_id) node_id ≠
      save_node_id_to_config content node_id := by
  obtain ⟨post', rfl⟩ : ∃ post', post = post' ++ [[]] :=
    ⟨post.dropLast, (List.dropLast_append_getLast? [] hlast).symm⟩
  obtain ⟨hfeed, hcr⟩ := clean_edited h hclean node_id
  have hlines : lines (save_node_id_to_config content node_id).toList =
      pre ++ nodeIdLine node_id :: post' := by
    rw [toList_save, editLines_of_place h, lines_joinLines_of_last hfeed hcr]
    · rw [← List.cons_append, ← List.append_assoc, List.dropLast_concat]
    · rw [getLast?_edited, hlast]
      rfl
  intro heq
  have hlists := congrArg String.toList heq
  rw [toList_save, hlines, editLines_again h, toList_save, editLines_of_place h,
    ← List.cons_append, ← List.append_assoc, joinLines_concat_nil (by simp)] at hlists
  have hlen := congrArg List.length hlists
  rw [List.length_append, List.length_singleton] at hlen
  omega

/-! ## What is read with the line -/

/-- The configuration that lines are read as. -/
def Config.AgentConfig.ofLines (g : Grammar) (ls : List (List Char)) : Option AgentConfig :=
  (g.readLines ls).bind fun d => AgentConfig.read (find d.entries [])

/-- `toml::from_str`. -/
def Config.AgentConfig.fromStr (g : Grammar) (content : String) : Option AgentConfig :=
  AgentConfig.ofLines g (lines content.toList)

/-- After these lines the keys of `[agent]` are read. -/
def InAgent (g : Grammar) (pre : List (List Char)) : Prop :=
  ∃ es d, feedAll g.expr pre = (es, []) ∧ run .start es = some d ∧
    d.current = [.key "agent".toList]

instance (g : Grammar) (pre : List (List Char)) : Decidable (InAgent g pre) :=
  decidable_of_iff ((feedAll g.expr pre).2 = [] ∧
      (run .start (feedAll g.expr pre).1).map Doc.current = some [.key "agent".toList]) <| by
    constructor
    · rintro ⟨hend, hcurrent⟩
      obtain ⟨d, hrun, hd⟩ := Option.map_eq_some_iff.1 hcurrent
      exact ⟨_, d, Prod.ext rfl hend, hrun, hd⟩
    · rintro ⟨es, d, hfed, hrun, hcurrent⟩
      rw [hfed, hrun, Option.map_some, hcurrent]
      exact ⟨rfl, rfl⟩

variable {g : Grammar} {config : AgentConfig}

theorem clean_of_ofLines {ls : List (List Char)} (h : AgentConfig.ofLines g ls = some config) :
    Clean ls := by
  obtain ⟨d, hread, -⟩ := Option.bind_eq_some_iff.1 h
  exact fun l hl => Grammar.not_mem_of_readLines hread hl

/-- The node id that is read is where it is looked for. -/
theorem node_id_of_read {look : Look} (h : AgentConfig.read look = some config) :
    readOption readUuid (look nodeIdFields) = some config.agent.node_id := by
  rw [AgentConfig.read_eq] at h
  obtain ⟨node_id, hnode, hothers⟩ := Option.bind_eq_some_iff.1 h
  obtain ⟨others, -, rfl⟩ := Option.map_eq_some_iff.1 hothers
  exact hnode

/-- A node id is a string that is not long. -/
theorem exists_str_of_readOption {found : Option Found} {u : Uuid}
    (h : readOption readUuid found = some (some u)) :
    ∃ s, found = some (.value (.str s)) ∧ Uuid.parseStr (String.ofList s) = .ok u ∧
      s.length ≤ 45 := by
  match found, h with
  | some (.value (.str s)), h =>
    obtain ⟨u', hread, hu⟩ := Option.map_eq_some_iff.1 h
    obtain rfl := Option.some.inj hu
    have hparse : Uuid.parseStr (String.ofList s) = .ok u' := by
      have htext : (Uuid.parseStr (String.ofList s)).toOption = some u' := hread
      cases hresult : Uuid.parseStr (String.ofList s) with
      | error e =>
        rw [hresult] at htext
        cases htext
      | ok v =>
        rw [hresult] at htext
        rw [Option.some.inj htext]
    have hlen := Uuid.length_le_of_parseStr hparse
    rw [String.toList_ofList] at hlen
    exact ⟨s, rfl, hparse, hlen⟩

theorem readOption_toText (u : Uuid) :
    readOption readUuid (some (.value (.str u.toText.toList))) = some (some u) := by
  simp only [readOption, readUuid, readString, Option.bind_some, String.ofList_toList,
    Uuid.parseStr_toText]
  rfl

section Agent

variable {e : Entries Value}

/-- The path of the node id. -/
def nodeIdPath : Path := [.key "agent".toList, .key "node_id".toList]

/-- The others are read where they were. -/
theorem readOthers_withValue (e : Entries Value) (v : Value) :
    AgentConfig.readOthers (find (withValue nodeIdPath v e) []) =
      AgentConfig.readOthers (find e []) :=
  AgentConfig.readOthers_congr fun _ hks => find_withValue hks

/-- In the table of the agent a line more is the node id. -/
theorem read_withValue (hagent : e [.key "agent".toList] = some .explicit) (u : Uuid) :
    AgentConfig.read (find (withValue nodeIdPath (.str u.toText.toList) e) []) =
      (AgentConfig.readOthers (find e [])).map (AgentConfig.withNodeId (some u)) := by
  have hnode : find (withValue nodeIdPath (.str u.toText.toList) e) [] nodeIdFields =
      some (.value (.str u.toText.toList)) := by
    have hagent' : withValue nodeIdPath (.str u.toText.toList) e [.key "agent".toList] =
        some .explicit := by
      rw [withValue, Function.update_of_ne (by simp [nodeIdPath]), hagent]
    rw [nodeIdFields, find_explicit (k := field "agent" 0) hagent', find]
    have hpath : ([.key (field "agent" 0).name] ++ [.key (field "node_id" 0).name] : Path) =
        nodeIdPath := rfl
    rw [hpath, withValue, Function.update_self]
    rfl
  rw [AgentConfig.read_eq, hnode, readOption_toText, Option.bind_some, readOthers_withValue]

/-- Without it there is none. -/
theorem read_of_none (hagent : e [.key "agent".toList] = some .explicit)
    (hnone : e nodeIdPath = none) :
    AgentConfig.read (find e []) =
      (AgentConfig.readOthers (find e [])).map (AgentConfig.withNodeId none) := by
  have hnode : find e [] nodeIdFields = none := by
    rw [nodeIdFields, find_explicit (k := field "agent" 0) hagent, find]
    have hpath : ([.key (field "agent" 0).name] ++ [.key (field "node_id" 0).name] : Path) =
        nodeIdPath := rfl
    rw [hpath, hnone]
  rw [AgentConfig.read_eq, hnode]
  rfl

/-- Where there is none, nothing is defined. -/
theorem eq_none_of_read (hagent : e [.key "agent".toList] = some .explicit)
    (h : readOption readUuid (find e [] nodeIdFields) = some none) : e nodeIdPath = none := by
  rw [nodeIdFields, find_explicit (k := field "agent" 0) hagent, find] at h
  have hpath : ([.key (field "agent" 0).name] ++ [.key (field "node_id" 0).name] : Path) =
      nodeIdPath := rfl
  rw [hpath] at h
  cases hentry : e nodeIdPath with
  | none => rfl
  | some entry =>
    have hfound : ∀ found, readOption readUuid (some found) ≠ some none := by
      intro found hread
      obtain ⟨u, -, hu⟩ := Option.map_eq_some_iff.1 hread
      cases hu
    rw [hentry] at h
    cases entry with
    | implicit => exact absurd h (hfound _)
    | explicit => exact absurd h (hfound _)
    | dotted => exact absurd h (hfound _)
    | items n => exact absurd h (hfound _)
    | leaf v => exact absurd h (hfound _)

/-- In another table it is not. -/
theorem find_nodeIdFields_of_ne {current : Path} (h : current ≠ [.key "agent".toList]) (v : Value) :
    find (withValue (current ++ [.key "node_id".toList]) v e) [] nodeIdFields =
      find e [] nodeIdFields := by
  refine find_withValue_of_ne fun names hne hnames heq => ?_
  rw [List.nil_append] at heq
  obtain ⟨rest, hrest⟩ := hnames
  have hkeys : names ++ rest = ["agent".toList, "node_id".toList] := hrest
  match names, hkeys with
  | [name], hkeys =>
    obtain ⟨rfl, -⟩ := List.cons.inj hkeys
    have hlast := congrArg List.getLast? heq
    rw [List.getLast?_concat] at hlast
    exact absurd hlast (by decide)
  | [name, name'], hkeys =>
    obtain ⟨rfl, -⟩ := List.cons.inj hkeys
    exact h (List.append_inj_left' heq rfl)

end Agent

theorem explicit_of_readLines {es : List (Expression Value)} {d t : Doc Value}
    (hfed : feedAll g.expr pre = (es, [])) (hrun : run .start es = some d)
    (hcurrent : d.current = [.key "agent".toList]) (ht : g.readLines (pre ++ post) = some t) :
    t.entries [.key "agent".toList] = some .explicit := by
  rw [Grammar.readLines_append hfed, hrun, Option.bind_some] at ht
  obtain ⟨es', -, hrun'⟩ := Option.bind_eq_some_iff.1 ht
  exact explicit_run hrun' (explicit_of_current hrun hcurrent)

theorem withNodeId_eq_iff {others : AgentConfig} {node_id node_id' : Option Uuid} :
    others.withNodeId node_id = config.withNodeId node_id ↔
      others.withNodeId node_id' = config.withNodeId node_id' := by
  simp [AgentConfig.withNodeId]

/-- **In the table of the agent**, between two expressions, the line is the
node id and nothing else. -/
theorem ofLines_insert (hin : InAgent g pre) (u : Uuid) :
    AgentConfig.ofLines g (pre ++ nodeIdLine u :: post) = some (config.withNodeId (some u)) ↔
      AgentConfig.ofLines g (pre ++ post) = some (config.withNodeId none) := by
  obtain ⟨es, d, hfed, hrun, hcurrent⟩ := hin
  have hline : ∀ d', g.readLines (pre ++ nodeIdLine u :: post) = some d' ↔
      ∃ t, g.readLines (pre ++ post) = some t ∧ t.entries nodeIdPath = none ∧
        d' = t.withValue nodeIdPath (.str u.toText.toList) := by
    intro d'
    have hpath : d.current ++ [.key "node_id".toList] = nodeIdPath := by
      rw [hcurrent]
      rfl
    rw [← hpath]
    exact Grammar.readLines_keyval post isBare_node_id (isPlain_toText u) hfed hrun
  unfold AgentConfig.ofLines
  rw [Option.bind_eq_some_iff, Option.bind_eq_some_iff]
  constructor
  · rintro ⟨d', hd', hread⟩
    obtain ⟨t, ht, hnone, rfl⟩ := (hline d').1 hd'
    have hagent := explicit_of_readLines hfed hrun hcurrent ht
    refine ⟨t, ht, ?_⟩
    have hothers := (read_withValue hagent u).symm.trans hread
    obtain ⟨others, hsome, heq⟩ := Option.map_eq_some_iff.1 hothers
    rw [read_of_none hagent hnone, hsome, Option.map_some, withNodeId_eq_iff.1 heq]
  · rintro ⟨t, ht, hread⟩
    have hagent := explicit_of_readLines hfed hrun hcurrent ht
    have hnone := eq_none_of_read hagent (node_id_of_read hread)
    rw [read_of_none hagent hnone] at hread
    obtain ⟨others, hsome, heq⟩ := Option.map_eq_some_iff.1 hread
    refine ⟨_, (hline _).2 ⟨t, ht, hnone, rfl⟩, ?_⟩
    have hread' := read_withValue hagent u
    rw [hsome, Option.map_some, withNodeId_eq_iff.1 heq] at hread'
    exact hread'

/-- The text of a node id that is read. -/
def NodeIdText (g : Grammar) (ls : List (List Char)) (u : Uuid) (s : List Char) : Prop :=
  ∃ d, g.readLines ls = some d ∧ find d.entries [] nodeIdFields = some (.value (.str s)) ∧
    Uuid.parseStr (String.ofList s) = .ok u ∧ s.length ≤ 45

theorem exists_nodeIdText {ls : List (List Char)} {u : Uuid}
    (h : AgentConfig.ofLines g ls = some config) (hu : config.agent.node_id = some u) :
    ∃ s, NodeIdText g ls u s := by
  obtain ⟨d, hd, hread⟩ := Option.bind_eq_some_iff.1 h
  have hnode := node_id_of_read hread
  rw [hu] at hnode
  obtain ⟨s, hs, hparse, hlen⟩ := exists_str_of_readOption hnode
  exact ⟨s, d, hd, hs, hparse, hlen⟩

/-- Within an expression it is not seen what the line is. -/
theorem eq_of_inner {es : List (Expression Value)} {block : List (List Char)} {u u' v v' : Uuid}
    {s s' : List Char} (hfed : feedAll g.expr pre = (es, block)) (hopen : block ≠ [])
    (h : NodeIdText g (pre ++ nodeIdLine u :: post) v s)
    (h' : NodeIdText g (pre ++ nodeIdLine u' :: post) v' s') : s = s' := by
  obtain ⟨d, hd, hs, -, hlen⟩ := h
  obtain ⟨d', hd', hs', -, hlen'⟩ := h'
  have hlong : ∀ u : Uuid, 45 < (keyvalLine "node_id".toList u.toText.toList).length := by
    intro u
    rw [← nodeIdLine, length_nodeIdLine]
    decide
  have hsame := Grammar.readLines_inner (n := 45) isBare_node_id (isPlain_toText u)
    (isPlain_toText u') (hlong u) (hlong u') hfed hopen hd hd'
  have hfind := congrArg (fun d => find d.entries [] nodeIdFields) hsame
  have hkeep : ∀ s : List Char, s.length ≤ 45 → forgetLonger 45 s = s := fun s hs =>
    if_neg (by omega)
  simp only [Doc.map, find_map, hs, hs', Option.map_some, Found.mapStr, Value.mapStr,
    hkeep s hlen, hkeep s' hlen', Option.some.injEq, Found.value.injEq, Value.str.injEq] at hfind
  exact hfind

/-- In another table the line is another key. -/
theorem eq_of_elsewhere {es : List (Expression Value)} {d : Doc Value} {u u' v v' : Uuid}
    {s s' : List Char} (hfed : feedAll g.expr pre = (es, [])) (hrun : run .start es = some d)
    (hcurrent : d.current ≠ [.key "agent".toList])
    (h : NodeIdText g (pre ++ nodeIdLine u :: post) v s)
    (h' : NodeIdText g (pre ++ nodeIdLine u' :: post) v' s') : s = s' := by
  obtain ⟨d₁, hd, hs, -, -⟩ := h
  obtain ⟨d₁', hd', hs', -, -⟩ := h'
  obtain ⟨t, ht, -, rfl⟩ := (Grammar.readLines_keyval post isBare_node_id (isPlain_toText u) hfed
    hrun).1 hd
  obtain ⟨t', ht', -, rfl⟩ := (Grammar.readLines_keyval post isBare_node_id (isPlain_toText u') hfed
    hrun).1 hd'
  rw [ht] at ht'
  obtain rfl := Option.some.inj ht'
  rw [Doc.withValue, find_nodeIdFields_of_ne hcurrent] at hs hs'
  rw [hs] at hs'
  cases hs'
  rfl

/-- **Elsewhere the line is not the node id**: what is read does not follow
what is written. -/
theorem inAgent_of_ofLines
    (h : ∀ u, ∃ c, AgentConfig.ofLines g (pre ++ nodeIdLine u :: post) = some c ∧
      c.agent.node_id = some u) : InAgent g pre := by
  obtain ⟨c₀, hc₀, hu₀⟩ := h ⟨0⟩
  obtain ⟨c₁, hc₁, hu₁⟩ := h ⟨1⟩
  obtain ⟨s₀, hs₀⟩ := exists_nodeIdText hc₀ hu₀
  obtain ⟨s₁, hs₁⟩ := exists_nodeIdText hc₁ hu₁
  -- two node ids are not written the same
  have hdiffer : s₀ ≠ s₁ := by
    rintro rfl
    obtain ⟨-, -, -, hparse₀, -⟩ := hs₀
    obtain ⟨-, -, -, hparse₁, -⟩ := hs₁
    rw [hparse₀] at hparse₁
    cases hparse₁
  cases hfed : feedAll g.expr pre with
  | mk es block =>
    by_cases hopen : block = []
    · subst hopen
      cases hrun : run (ν := Value) .start es with
      | none =>
        obtain ⟨d, hd, -⟩ := hs₀
        rw [Grammar.readLines_append hfed, hrun] at hd
        cases hd
      | some d =>
        exact ⟨es, d, hfed, hrun,
          by_contra fun hcurrent => hdiffer (eq_of_elsewhere hfed hrun hcurrent hs₀ hs₁)⟩
    · exact absurd (eq_of_inner hfed hopen hs₀ hs₁) hdiffer

/-! ## When the configuration is kept -/

/-- **Saving keeps the configuration** but for the node id: the same id
again changes nothing, and another replaces it. -/
structure Saved (g : Grammar) (content : String) (node_id : Uuid) (config : AgentConfig) :
    Prop where
  saved : AgentConfig.fromStr g (save_node_id_to_config content node_id) =
    some (config.withNodeId (some node_id))
  again : save_node_id_to_config (save_node_id_to_config content node_id) node_id =
    save_node_id_to_config content node_id
  replaced : ∀ node_id' : Uuid, AgentConfig.fromStr g
      (save_node_id_to_config (save_node_id_to_config content node_id) node_id') =
    some (config.withNodeId (some node_id'))

/-- The first line that looks like the node id or like a header, after one
that looks like `[agent]`, stands where keys of `[agent]` are read; without it, if it
is the former, the text is the configuration without its node id; and no
empty line ends the text. -/
def EditsAgent (g : Grammar) (content : String) (config : AgentConfig) : Prop :=
  ∃ pre post, place false (lines content.toList) = some (pre, post) ∧ InAgent g pre ∧
    AgentConfig.ofLines g (pre ++ post) = some (config.withNodeId none) ∧
    post.getLast? ≠ some []

/-- Where the line goes nowhere, no other node id is ever read. -/
theorem not_saved_of_place (h : place false (lines content.toList) = none)
    (hclean : Clean (lines content.toList)) (node_id : Uuid) :
    ¬ Saved g content node_id config := by
  intro hsaved
  have hlines : ∀ ls, place false ls = none → ∀ u, editLines (nodeIdLine u) ls = ls := by
    intro ls hls u
    rw [editLines_eq, hls]
    rfl
  have hagain : place false (lines (save_node_id_to_config content node_id).toList) = none := by
    rw [toList_save, hlines _ h, place_eq_none_iff]
    intro l hl
    exact place_eq_none_iff.1 h l
      (mem_of_mem_lines_joinLines (fun l hl => not_mem_of_mem_lines hl) hclean hl)
  have hconst : ∀ u, save_node_id_to_config (save_node_id_to_config content node_id) u =
      String.ofList (joinLines (lines (save_node_id_to_config content node_id).toList)) := by
    intro u
    rw [save_node_id_to_config, hlines _ hagain]
  have h₀ := hsaved.replaced ⟨0⟩
  have h₁ := hsaved.replaced ⟨1⟩
  rw [hconst] at h₀ h₁
  rw [h₀] at h₁
  have hnode := congrArg (fun c => c.agent.node_id) (Option.some.inj h₁)
  cases hnode

/-- **Exactly then the configuration is kept.** -/
theorem save_node_id_to_config_iff (g : Grammar) (content : String) (node_id : Uuid)
    (config : AgentConfig) (h : AgentConfig.fromStr g content = some config) :
    Saved g content node_id config ↔ EditsAgent g content config := by
  have hclean := clean_of_ofLines h
  constructor
  · intro hsaved
    cases hplace : place false (lines content.toList) with
    | none => exact absurd hsaved (not_saved_of_place hplace hclean node_id)
    | some p =>
      obtain ⟨pre, post⟩ := p
      have hlast : post.getLast? ≠ some [] := fun hlast =>
        save_ne_of_last hplace hclean hlast node_id hsaved.again
      have hall : ∀ u, AgentConfig.ofLines g (pre ++ nodeIdLine u :: post) =
          some (config.withNodeId (some u)) := by
        intro u
        have hreplaced := hsaved.replaced u
        rwa [save_save hplace hclean hlast, AgentConfig.fromStr,
          lines_save hplace hclean hlast] at hreplaced
      have hin : InAgent g pre := inAgent_of_ofLines fun u => ⟨_, hall u, rfl⟩
      exact ⟨pre, post, hplace, hin, (ofLines_insert hin node_id).1 (hall node_id), hlast⟩
  · rintro ⟨pre, post, hplace, hin, hread, hlast⟩
    have hall : ∀ u, AgentConfig.fromStr g (save_node_id_to_config content u) =
        some (config.withNodeId (some u)) := by
      intro u
      rw [AgentConfig.fromStr, lines_save hplace hclean hlast]
      exact (ofLines_insert hin u).2 hread
    exact
      { saved := hall node_id
        again := save_save hplace hclean hlast node_id node_id
        replaced := fun node_id' => by
          rw [save_save hplace hclean hlast]
          exact hall node_id' }

/-! ## A file -/

/-- What comes after the header of the agent. -/
def settings : List (List Char) :=
  ["name = \"a\"", "log_level = \"info\"", "log_format = \"json\"", "log_dir = \"/l\"",
    "data_dir = \"/d\"", "event_buffer_db = \"/e\"", "event_buffer_max = 9",
    "event_drain_batch = 8", "event_drain_interval_secs = 5",
    "[agent.server]", "bind_addr = \"::1\"", "port = 91",
    "[osquery]", "socket_path = \"/s\"", "conf_path = \"/c\"", "flags_path = \"/f\"",
    "pid_file = \"/p\"", "log_path = \"/q\"", "connect_timeout_secs = 3",
    "query_timeout_secs = 6",
    "[fleet]", "host = \"h\"", "port = 51", "endpoint = \"h:51\"", "enrollment_secret = \"\"",
    "tls_ca_cert = \"/t\"", "heartbeat_interval_secs = 7", "reconnect_interval_secs = 2",
    "max_reconnect_attempts = 0",
    "[isolation]", "enabled = false", "fleet_ip = \"\"", "fleet_port = 84"].map String.toList

/-- The file, with a header for the agent. -/
def file (header : String) : String := String.ofList (joinLines (header.toList :: settings))

/-- What the file says. -/
def fileConfig : AgentConfig where
  agent := ⟨none, "a", "info", "json", "/l", "/d", "/e", 9, 8, 5, ⟨"::1", 91⟩⟩
  osquery := ⟨"/s", "/c", "/f", "/p", "/q", 3, 6⟩
  fleet := ⟨"h", 51, "h:51", "", "/t", none, none, 7, 2, 0⟩
  isolation := ⟨false, "", 84⟩

theorem lines_file {header : String} (hfeed : '\n' ∉ header.toList) (hcr : '\r' ∉ header.toList) :
    lines (file header).toList = header.toList :: settings := by
  have hclean : ∀ l ∈ settings, '\n' ∉ l ∧ '\r' ∉ l := by decide +kernel
  have hlast : settings.getLast? ≠ some [] := by decide +kernel
  rw [file, String.toList_ofList]
  refine lines_joinLines_eq_self (List.cons_ne_nil _ _) ?_ ?_ ?_
  · exact List.forall_mem_cons.2 ⟨hfeed, fun l hl => (hclean l hl).1⟩
  · exact List.forall_mem_cons.2 ⟨hcr, fun l hl => (hclean l hl).2⟩
  · rwa [List.getLast?_cons_of_ne_nil (by decide)]

theorem ofLines_settings :
    AgentConfig.ofLines Line.grammar ("[agent]".toList :: settings) = some fileConfig := by
  decide +kernel

/-- Any header of the table will do. -/
theorem ofLines_header {header : List Char}
    (h : Line.grammar.expr [header] = some (.table [] "agent".toList)) :
    AgentConfig.ofLines Line.grammar (header :: settings) = some fileConfig := by
  have hagent : Line.grammar.expr ["[agent]".toList] = some (.table [] "agent".toList) := rfl
  have hsame : Line.grammar.readLines ([header] ++ settings) =
      Line.grammar.readLines (["[agent]".toList] ++ settings) := by
    rw [Grammar.readLines_append (feedAll_singleton h),
      Grammar.readLines_append (feedAll_singleton hagent)]
  have hofLines := ofLines_settings
  unfold AgentConfig.ofLines at hofLines ⊢
  rw [← hofLines]
  exact congrArg (Option.bind · _) hsame

theorem fromStr_file {header : String}
    (hclean : '\n' ∉ header.toList ∧ '\r' ∉ header.toList)
    (h : Line.grammar.expr [header.toList] = some (.table [] "agent".toList)) :
    AgentConfig.fromStr Line.grammar (file header) = some fileConfig := by
  rw [AgentConfig.fromStr, lines_file hclean.1 hclean.2]
  exact ofLines_header h

/-- A header on its own is found, and the line goes before the next one. -/
theorem save_node_id_to_config_iff_plain :
    Saved Line.grammar (file "[agent]") ⟨7⟩ fileConfig :=
  (save_node_id_to_config_iff Line.grammar (file "[agent]") ⟨7⟩ fileConfig
    (fromStr_file (by decide) rfl)).2
    ⟨"[agent]".toList :: settings.take 9, settings.drop 9,
      by rw [lines_file (by decide) (by decide)]; decide +kernel,
      by decide +kernel,
      by rw [List.cons_append, List.take_append_drop]; exact ofLines_settings,
      by decide +kernel⟩

/-- **A header with a comment is not found**: the file is written as it was,
and the node id is lost. -/
theorem not_saved_comment :
    AgentConfig.fromStr Line.grammar (file "[agent] # identity") = some fileConfig ∧
      ¬ Saved Line.grammar (file "[agent] # identity") ⟨7⟩ fileConfig := by
  have hread : AgentConfig.fromStr Line.grammar (file "[agent] # identity") = some fileConfig :=
    fromStr_file (by decide) rfl
  refine ⟨hread, not_saved_of_place ?_ (clean_of_ofLines hread) ⟨7⟩⟩
  rw [lines_file (by decide) (by decide), place_eq_none_iff]
  decide +kernel

end AigisZero.Agent
