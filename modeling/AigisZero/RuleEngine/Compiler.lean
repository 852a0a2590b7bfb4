import AigisZero.Library.Fallible
import AigisZero.Library.Utf8
import AigisZero.RuleEngine.Models
import Mathlib.Logic.Function.Basic

/-!
# Compiling the rules directory

Each subdirectory of the rules directory becomes a rule set under its own
name, but for the one with the taxonomy. The compiler of the rules is a
parameter.
-/

namespace AigisZero.RuleEngine

/-- `yara_x::Compiler`. -/
structure YaraCompiler where
  State : Type
  new : State
  add_source : State → String → Except String State
  build : State → Rules

/-- What a directory lists: each entry is read in its turn. -/
abbrev Listing (α : Type) := Except String (List (Except String α))

/-- An entry of a category directory. -/
structure RuleFile where
  file_name : Bytes
  path : String
  is_file : Bool
  /-- What reading the file gives. -/
  source : Except String String

/-- An entry of the rules directory: where it is a directory, what that
lists. -/
structure CategoryEntry where
  file_name : Bytes
  directory : Option (Listing RuleFile)

/-- `Path::extension`: what stands after the last full stop of a name, if
something stands before it. -/
def extension (file_name : Bytes) : Option Bytes :=
  if file_name = utf8 ".." then none
  else
    match file_name.reverse.dropWhile (· ≠ 46) with
    | [] => none
    | [_] => none
    | _ :: _ => some (file_name.reverse.takeWhile (· ≠ 46)).reverse

/-- A file of rules. -/
def RuleFile.has_rules (entry : RuleFile) : Bool :=
  entry.is_file &&
    (extension entry.file_name = some (utf8 "yar") ||
      extension entry.file_name = some (utf8 "yara"))

variable (compiler : YaraCompiler)

/-- One turn of the loop of `compile_directory`. -/
def add_file (state : compiler.State) (entry : Except String RuleFile) :
    Except AppError compiler.State :=
  match entry with
  | .error e => .error (.io e)
  | .ok entry =>
    if entry.has_rules then
      match entry.source with
      | .error e => .error (.io e)
      | .ok source =>
        match compiler.add_source state source with
        | .error e => .error (.ruleCompilation entry.path 0 e)
        | .ok state => .ok state
    else .ok state

/-- `TypedRuleCompiler::compile_directory`. -/
def compile_directory (dir : Listing RuleFile) : Except AppError Rules :=
  match dir with
  | .error e => .error (.io e)
  | .ok entries =>
    match entries.foldlM (add_file compiler) compiler.new with
    | .error e => .error e
    | .ok state => .ok (compiler.build state)

/-- One turn of the loop of `compile_all`. -/
def add_category (rule_sets : String → Option Rules) (entry : Except String CategoryEntry) :
    Except AppError (String → Option Rules) :=
  match entry with
  | .error e => .error (.io e)
  | .ok entry =>
    match entry.directory with
    | none => .ok rule_sets
    | some dir =>
      let event_type := fromUtf8Lossy entry.file_name
      -- the taxonomy is no rule set
      if event_type = "mitre" then .ok rule_sets
      else
        match compile_directory compiler dir with
        | .error e => .error e
        | .ok rules => .ok (Function.update rule_sets event_type (some rules))

/-- `TypedRuleCompiler::compile_all`, of a directory that may not exist. -/
def compile_all (rules_dir : Option (Listing CategoryEntry)) :
    Except AppError (String → Option Rules) :=
  match rules_dir with
  | none => .ok fun _ => none
  | some (.error e) => .error (.io e)
  | some (.ok entries) => entries.foldlM (add_category compiler) fun _ => none

variable {compiler} {rule_sets t : String → Option Rules} {entry : Except String CategoryEntry}

/-- A rule set is there for a reason: some entry of the list is a
directory of that name, and these are its rules. -/
def Loaded (compiler : YaraCompiler) (entries : List (Except String CategoryEntry))
    (rule_sets : String → Option Rules) : Prop :=
  ∀ c rules, rule_sets c = some rules → c ≠ "mitre" ∧
    ∃ entry dir, .ok entry ∈ entries ∧ entry.directory = some dir ∧
      fromUtf8Lossy entry.file_name = c ∧ compile_directory compiler dir = .ok rules

theorem Loaded.add_category {entries : List (Except String CategoryEntry)}
    (h : Loaded compiler entries rule_sets) (ht : add_category compiler rule_sets entry = .ok t) :
    Loaded compiler (entries ++ [entry]) t := by
  have hmono : Loaded compiler (entries ++ [entry]) rule_sets := by
    intro c rules hc
    obtain ⟨hne, e, dir, he, hrest⟩ := h c rules hc
    exact ⟨hne, e, dir, List.mem_append_left _ he, hrest⟩
  unfold RuleEngine.add_category at ht
  split at ht
  · cases ht
  · next entry =>
    split at ht
    · exact Except.ok.inj ht ▸ hmono
    · next dir hdir =>
      dsimp only at ht
      split at ht
      · exact Except.ok.inj ht ▸ hmono
      · next hne =>
        split at ht
        · cases ht
        · next rules hrules =>
          obtain rfl := Except.ok.inj ht
          intro c rules' hc
          by_cases heq : c = fromUtf8Lossy entry.file_name
          · subst heq
            rw [Function.update_self] at hc
            obtain rfl := Option.some.inj hc
            exact ⟨hne, entry, dir, List.mem_append_right _ (List.mem_singleton_self _), hdir, rfl,
              hrules⟩
          · rw [Function.update_of_ne heq] at hc
            exact hmono c rules' hc

/-- The entries of a rules directory, none where it cannot be listed. -/
def listed : Option (Listing CategoryEntry) → List (Except String CategoryEntry)
  | some (.ok entries) => entries
  | _ => []

/-- **What is loaded are the subdirectories**, but for the taxonomy. -/
theorem loaded_of_compile_all {rules_dir : Option (Listing CategoryEntry)}
    (h : compile_all compiler rules_dir = .ok rule_sets) :
    Loaded compiler (listed rules_dir) rule_sets := by
  unfold compile_all at h
  split at h
  · exact Except.ok.inj h ▸ fun c rules hc => by cases hc
  · cases h
  · next entries =>
    exact foldlM_invariant (fun c rules hc => by cases hc)
      (fun done entry s t hs ht => hs.add_category ht) h

end AigisZero.RuleEngine
