import Mathlib.Data.Int.Notation
import Mathlib.Logic.Function.Basic
import Mathlib.Tactic.Common

/-!
# TOML documents

What the expressions of a TOML text make of each other: tables are opened
by their headers, or come with the headers and the dotted keys of others,
and nothing is defined twice. A value that is added where there is none
changes nothing else, and no step looks into the values.
-/

namespace AigisZero.Toml

/-! ## Values and expressions -/

/-- A value. -/
inductive Value where
  | str (s : List Char)
  | int (n : ℤ)
  | bool (b : Bool)
  /-- A number or a date of another kind, as it is written. -/
  | other (literal : List Char)
  | arr (elements : List Value)
  | table (fields : List (List Char × Value))

/-- A part of the path to a value: a key, or an element of an array of
tables. -/
inductive Name where
  | key (k : List Char)
  | item (i : ℕ)
deriving DecidableEq, Repr

abbrev Path := List Name

/-- An expression. A key that is dotted has parents. -/
inductive Expression (ν : Type*) where
  | blank
  /-- `[parents.name]`. -/
  | table (parents : List (List Char)) (name : List Char)
  /-- `[[parents.name]]`. -/
  | item (parents : List (List Char)) (name : List Char)
  /-- `parents.name = v`. -/
  | keyval (parents : List (List Char)) (name : List Char) (v : ν)

/-- What is defined at a path. -/
inductive Entry (ν : Type*) where
  /-- A table that came with the header of another. -/
  | implicit
  /-- A table with a header. -/
  | explicit
  /-- A table that came with a dotted key. -/
  | dotted
  /-- An array of tables. -/
  | items (n : ℕ)
  | leaf (v : ν)

variable {ν μ : Type*}

/-! ## Documents -/

/-- What is defined, by path. -/
abbrev Entries (ν : Type*) := Path → Option (Entry ν)

/-- A document that is being read. -/
structure Doc (ν : Type*) where
  entries : Entries ν
  /-- The table whose keys are read. -/
  current : Path

/-- Nothing is read. -/
def Doc.start : Doc ν := ⟨fun _ => none, []⟩

/-- What becomes of an entry, and where one goes on from there. -/
abbrev Rule (ν : Type*) := Option (Entry ν) → Option (Entry ν × Path)

/-- The table is passed through by a header. -/
def passHeader : Rule ν
  | none => some (.implicit, [])
  | some (.items n) => some (.items n, [.item (n - 1)])
  | some (.leaf _) => none
  | some entry => some (entry, [])

/-- The table is passed through by a dotted key. -/
def passDotted : Rule ν
  | none => some (.dotted, [])
  | some .dotted => some (.dotted, [])
  | some _ => none

/-- The table is opened, once. -/
def openTable : Rule ν
  | none => some (.explicit, [])
  | some .implicit => some (.explicit, [])
  | some _ => none

/-- One more table of an array is opened. -/
def openItem : Rule ν
  | none => some (.items 1, [.item 0])
  | some (.items n) => some (.items (n + 1), [.item n])
  | some _ => none

/-- The value is defined, once. -/
def define (v : ν) : Rule ν
  | none => some (.leaf v, [])
  | some _ => none

/-- A rule is applied to a name in a table. -/
def visit (rule : Rule ν) (s : Entries ν × Path) (name : List Char) : Option (Entries ν × Path) :=
  let q := s.2 ++ [.key name]
  (rule (s.1 q)).map fun r => (Function.update s.1 q (some r.1), q ++ r.2)

/-- It is applied to one name after the other. -/
def walk (rule : Rule ν) : Entries ν × Path → List (List Char) → Option (Entries ν × Path)
  | s, [] => some s
  | s, name :: names => (visit rule s name).bind fun s => walk rule s names

/-- A name is read below its parents: where one begins, and which table is
read from then on. -/
def readName (rule last : Rule ν) (start : Path) (next : Path → Path) (d : Doc ν)
    (parents : List (List Char)) (name : List Char) : Option (Doc ν) :=
  ((walk rule (d.entries, start) parents).bind fun s => visit last s name).map fun s =>
    ⟨s.1, next s.2⟩

/-- An expression is read. -/
def step (d : Doc ν) : Expression ν → Option (Doc ν)
  | .blank => some d
  | .table parents name => readName passHeader openTable [] id d parents name
  | .item parents name => readName passHeader openItem [] id d parents name
  | .keyval parents name v =>
    readName passDotted (define v) d.current (fun _ => d.current) d parents name

/-- Expressions are read one after the other. -/
def run : Doc ν → List (Expression ν) → Option (Doc ν)
  | d, [] => some d
  | d, e :: es => (step d e).bind fun d => run d es

theorem run_append (d : Doc ν) (es es' : List (Expression ν)) :
    run d (es ++ es') = (run d es).bind fun d => run d es' := by
  induction es generalizing d with
  | nil => rfl
  | cons e es ih =>
    rw [List.cons_append, run, run]
    cases step d e with
    | none => rfl
    | some t => exact ih t

/-! ## A value more -/

/-- **A function is framed** by an addition, where it goes from what has a
property to what has one: it does the same with what is added, as long as
the property is kept. -/
structure Framed {σ τ : Type*} (P : σ → Prop) (add : σ → σ) (Q : τ → Prop) (add' : τ → τ)
    (f : σ → Option τ) : Prop where
  back : ∀ s t, f s = some t → Q t → P s
  iff : ∀ s, P s → ∀ t', f (add s) = some t' ↔ ∃ t, f s = some t ∧ Q t ∧ t' = add' t

namespace Framed

variable {σ τ υ : Type*} {P : σ → Prop} {add : σ → σ} {Q : τ → Prop} {add' : τ → τ}
  {R : υ → Prop} {add'' : υ → υ} {f : σ → Option τ} {g : τ → Option υ}

theorem some : Framed P add P add (fun s => Option.some s) where
  back s t h hP := Option.some.inj h ▸ hP
  iff s hP t' := by
    constructor
    · intro h
      exact ⟨s, rfl, hP, (Option.some.inj h).symm⟩
    · rintro ⟨t, h, -, rfl⟩
      rw [Option.some.inj h]

theorem bind (hf : Framed P add Q add' f) (hg : Framed Q add' R add'' g) :
    Framed P add R add'' (fun s => (f s).bind g) where
  back s u h hR := by
    obtain ⟨t, ht, hu⟩ := Option.bind_eq_some_iff.1 h
    exact hf.back s t ht (hg.back t u hu hR)
  iff s hP u' := by
    rw [Option.bind_eq_some_iff]
    constructor
    · rintro ⟨t', ht', hu'⟩
      obtain ⟨t, ht, hQ, rfl⟩ := (hf.iff s hP t').1 ht'
      obtain ⟨u, hu, hR, rfl⟩ := (hg.iff t hQ u').1 hu'
      exact ⟨u, Option.bind_eq_some_iff.2 ⟨t, ht, hu⟩, hR, rfl⟩
    · rintro ⟨u, h, hR, rfl⟩
      obtain ⟨t, ht, hu⟩ := Option.bind_eq_some_iff.1 h
      have hQ := hg.back t u hu hR
      exact ⟨add' t, (hf.iff s hP _).2 ⟨t, ht, hQ, rfl⟩, (hg.iff t hQ _).2 ⟨u, hu, hR, rfl⟩⟩

/-- From a part of a state, and back with what else is in it. -/
theorem lift (part : υ → σ) (whole : υ → τ → υ) (hf : Framed P add Q add' f)
    (hpart : ∀ u, R u ↔ P (part u)) (hwhole : ∀ u t, R (whole u t) ↔ Q t)
    (haddPart : ∀ u, part (add'' u) = add (part u))
    (haddWhole : ∀ u t, whole (add'' u) (add' t) = add'' (whole u t)) :
    Framed R add'' R add'' (fun u => (f (part u)).map (whole u)) where
  back u u₁ h hR := by
    obtain ⟨t, ht, rfl⟩ := Option.map_eq_some_iff.1 h
    exact (hpart u).2 (hf.back _ t ht ((hwhole u t).1 hR))
  iff u hR u' := by
    rw [Option.map_eq_some_iff, haddPart]
    constructor
    · rintro ⟨t', ht', rfl⟩
      obtain ⟨t, ht, hQ, rfl⟩ := (hf.iff _ ((hpart u).1 hR) t').1 ht'
      exact ⟨whole u t, Option.map_eq_some_iff.2 ⟨t, ht, rfl⟩, (hwhole u t).2 hQ, haddWhole u t⟩
    · rintro ⟨u₁, h, hR₁, rfl⟩
      obtain ⟨t, ht, rfl⟩ := Option.map_eq_some_iff.1 h
      exact ⟨add' t, (hf.iff _ ((hpart u).1 hR) _).2 ⟨t, ht, (hwhole u t).1 hR₁, rfl⟩,
        haddWhole u t⟩

end Framed

/-- The entries with a value more. -/
def withValue (p : Path) (v : ν) (e : Entries ν) : Entries ν := Function.update e p (some (.leaf v))

/-- The document with a value more. -/
def Doc.withValue (p : Path) (v : ν) (d : Doc ν) : Doc ν :=
  ⟨Toml.withValue p v d.entries, d.current⟩

variable {p : Path} {v : ν} {rule : Rule ν}

/-- A rule that refuses values is framed by a value more. -/
theorem framed_visit (hrule : ∀ w, rule (some (.leaf w)) = none) (name : List Char) :
    Framed (fun s : Entries ν × Path => s.1 p = none) (fun s => (withValue p v s.1, s.2))
      (fun s => s.1 p = none) (fun s => (withValue p v s.1, s.2)) (visit rule · name) where
  back s t h hnone := by
    obtain ⟨r, -, rfl⟩ := Option.map_eq_some_iff.1 h
    by_cases hq : p = s.2 ++ [.key name]
    · subst hq
      simp at hnone
    · simpa [Function.update_of_ne hq] using hnone
  iff s hnone t' := by
    unfold visit withValue
    dsimp only
    by_cases hq : s.2 ++ [.key name] = p
    · -- what is there is the value, which the rule refuses
      subst hq
      rw [Function.update_self, hrule, Option.map_none]
      refine iff_of_false (fun h => by cases h) ?_
      rintro ⟨t, h, ht, -⟩
      obtain ⟨r, -, rfl⟩ := Option.map_eq_some_iff.1 h
      simp at ht
    · rw [Function.update_of_ne hq]
      cases rule (s.1 (s.2 ++ [.key name])) with
      | none => simp
      | some r =>
        have hother : p ≠ s.2 ++ [.key name] := fun h => hq h.symm
        simp only [Option.map_some, Option.some.injEq, exists_eq_left',
          Function.update_of_ne hother, hnone, true_and, Function.update_comm hq]
        exact eq_comm

theorem framed_walk (hrule : ∀ w, rule (some (.leaf w)) = none) (names : List (List Char)) :
    Framed (fun s : Entries ν × Path => s.1 p = none) (fun s => (withValue p v s.1, s.2))
      (fun s => s.1 p = none) (fun s => (withValue p v s.1, s.2)) (walk rule · names) := by
  induction names with
  | nil => exact .some
  | cons name names ih => exact (framed_visit hrule name).bind ih

/-- A name is read with a value more, where one begins and ends up as
without it. -/
theorem framed_readName {last : Rule ν} (hrule : ∀ w, rule (some (.leaf w)) = none)
    (hlast : ∀ w, last (some (.leaf w)) = none) (start : Doc ν → Path) (next : Doc ν → Path → Path)
    (hstart : ∀ d, start (d.withValue p v) = start d)
    (hnext : ∀ d, next (d.withValue p v) = next d) (parents : List (List Char))
    (name : List Char) :
    Framed (fun d : Doc ν => d.entries p = none) (Doc.withValue p v) (fun d => d.entries p = none)
      (Doc.withValue p v) (fun d => readName rule last (start d) (next d) d parents name) := by
  have hwalk : Framed (fun s : Entries ν × Path => s.1 p = none)
      (fun s => (withValue p v s.1, s.2)) (fun s => s.1 p = none)
      (fun s => (withValue p v s.1, s.2))
      (fun s => (walk rule s parents).bind (visit last · name)) :=
    (framed_walk hrule parents).bind (framed_visit hlast name)
  refine hwalk.lift (fun d : Doc ν => (d.entries, start d))
    (fun (d : Doc ν) s => (⟨s.1, next d s.2⟩ : Doc ν)) (fun _ => Iff.rfl) (fun _ _ => Iff.rfl)
    ?_ ?_
  · exact fun d => Prod.ext rfl (hstart d)
  · exact fun d s => congrArg (Doc.mk _) (congrFun (hnext d) s.2)

/-- **An expression is read with a value more** as it is without, unless it
defines the value. -/
theorem framed_step (e : Expression ν) :
    Framed (fun d : Doc ν => d.entries p = none) (Doc.withValue p v) (fun d => d.entries p = none)
      (Doc.withValue p v) (step · e) := by
  cases e with
  | blank => exact .some
  | table parents name =>
    exact framed_readName (fun _ => rfl) (fun _ => rfl) (fun _ => []) (fun _ => id) (fun _ => rfl)
      (fun _ => rfl) parents name
  | item parents name =>
    exact framed_readName (fun _ => rfl) (fun _ => rfl) (fun _ => []) (fun _ => id) (fun _ => rfl)
      (fun _ => rfl) parents name
  | keyval parents name w =>
    exact framed_readName (fun _ => rfl) (fun _ => rfl) Doc.current (fun d _ => d.current)
      (fun _ => rfl) (fun _ => rfl) parents name

/-- **So are the expressions after it.** -/
theorem framed_run (es : List (Expression ν)) :
    Framed (fun d : Doc ν => d.entries p = none) (Doc.withValue p v) (fun d => d.entries p = none)
      (Doc.withValue p v) (run · es) := by
  induction es with
  | nil => exact .some
  | cons e es ih => exact (framed_step e).bind ih

/-- A key that is not dotted is read. -/
theorem step_keyval {d d' : Doc ν} {name : List Char} :
    step d (.keyval [] name v) = some d' ↔
      d.entries (d.current ++ [.key name]) = none ∧
        d' = d.withValue (d.current ++ [.key name]) v := by
  have hvisit : step d (.keyval [] name v) =
      ((define v) (d.entries (d.current ++ [.key name]))).map fun r =>
        ⟨Function.update d.entries (d.current ++ [.key name]) (some r.1), d.current⟩ := by
    simp only [step, readName, walk, Option.bind_some, visit, Option.map_map, Function.comp_def]
  rw [hvisit]
  cases d.entries (d.current ++ [.key name]) with
  | some entry =>
    refine iff_of_false (fun h => ?_) (fun h => ?_)
    · cases h
    · cases h.1
  | none =>
    constructor
    · intro h
      exact ⟨rfl, (Option.some.inj h).symm⟩
    · rintro ⟨-, rfl⟩
      rfl

/-- **A key and what comes after it** are read as what comes after it alone,
with a value more. -/
theorem run_keyval_cons {d d' : Doc ν} {name : List Char} {es : List (Expression ν)} :
    run d (.keyval [] name v :: es) = some d' ↔
      ∃ t, run d es = some t ∧ t.entries (d.current ++ [.key name]) = none ∧
        d' = t.withValue (d.current ++ [.key name]) v := by
  rw [run, Option.bind_eq_some_iff]
  constructor
  · rintro ⟨d₁, hstep, hrun⟩
    obtain ⟨hnone, rfl⟩ := step_keyval.1 hstep
    exact ((framed_run es).iff d hnone d').1 hrun
  · rintro ⟨t, hrun, hnone, heq⟩
    have hstart : d.entries (d.current ++ [.key name]) = none :=
      (framed_run (v := v) es).back d t hrun hnone
    exact ⟨_, step_keyval.2 ⟨hstart, rfl⟩,
      ((framed_run es).iff d hstart d').2 ⟨t, hrun, hnone, heq⟩⟩

/-! ## Other values -/

/-- The entry with another value. -/
def Entry.map (f : ν → μ) : Entry ν → Entry μ
  | .implicit => .implicit
  | .explicit => .explicit
  | .dotted => .dotted
  | .items n => .items n
  | .leaf v => .leaf (f v)

def Expression.map (f : ν → μ) : Expression ν → Expression μ
  | .blank => .blank
  | .table parents name => .table parents name
  | .item parents name => .item parents name
  | .keyval parents name v => .keyval parents name (f v)

/-- The entries with other values. -/
def Entries.map (f : ν → μ) (e : Entries ν) : Entries μ := fun q => (e q).map (Entry.map f)

def Doc.map (f : ν → μ) (d : Doc ν) : Doc μ := ⟨d.entries.map f, d.current⟩

variable {f : ν → μ}

/-- A rule is blind where it does the same with other values. -/
def Blind (f : ν → μ) (rule : Rule ν) (rule' : Rule μ) : Prop :=
  ∀ a, rule' (a.map (Entry.map f)) = (rule a).map fun r => (r.1.map f, r.2)

theorem blind_passHeader : Blind f passHeader passHeader := by
  rintro (_ | ⟨_ | _ | _ | _ | _⟩) <;> rfl

theorem blind_passDotted : Blind f passDotted passDotted := by
  rintro (_ | ⟨_ | _ | _ | _ | _⟩) <;> rfl

theorem blind_openTable : Blind f openTable openTable := by
  rintro (_ | ⟨_ | _ | _ | _ | _⟩) <;> rfl

theorem blind_openItem : Blind f openItem openItem := by
  rintro (_ | ⟨_ | _ | _ | _ | _⟩) <;> rfl

theorem blind_define (v : ν) : Blind f (define v) (define (f v)) := by
  rintro (_ | ⟨_ | _ | _ | _ | _⟩) <;> rfl

theorem Entries.map_update (e : Entries ν) (q : Path) (a : Entry ν) :
    Entries.map f (Function.update e q (some a)) =
      Function.update (e.map f) q (some (a.map f)) := by
  funext q'
  by_cases h : q' = q
  · subst h
    simp [Entries.map]
  · simp [Entries.map, Function.update_of_ne h]

theorem visit_map {rule : Rule ν} {rule' : Rule μ} (h : Blind f rule rule')
    (s : Entries ν × Path) (name : List Char) :
    visit rule' (s.1.map f, s.2) name = (visit rule s name).map fun s => (s.1.map f, s.2) := by
  unfold visit
  dsimp only
  have hrule := h (s.1 (s.2 ++ [.key name]))
  rw [show s.1.map f (s.2 ++ [.key name]) = (s.1 (s.2 ++ [.key name])).map (Entry.map f) from rfl,
    hrule]
  cases rule (s.1 (s.2 ++ [.key name])) with
  | none => rfl
  | some r => simp only [Option.map_some, Entries.map_update]

theorem walk_map {rule : Rule ν} {rule' : Rule μ} (h : Blind f rule rule')
    (s : Entries ν × Path) (names : List (List Char)) :
    walk rule' (s.1.map f, s.2) names = (walk rule s names).map fun s => (s.1.map f, s.2) := by
  induction names generalizing s with
  | nil => rfl
  | cons name names ih =>
    rw [walk, walk, visit_map h]
    cases visit rule s name with
    | none => rfl
    | some t => exact ih t

theorem readName_map {rule last : Rule ν} {rule' last' : Rule μ} (hrule : Blind f rule rule')
    (hlast : Blind f last last') (start : Path) (next : Path → Path) (d : Doc ν)
    (parents : List (List Char)) (name : List Char) :
    readName rule' last' start next (d.map f) parents name =
      (readName rule last start next d parents name).map (Doc.map f) := by
  have hwalk := walk_map hrule (d.entries, start) parents
  dsimp only at hwalk
  unfold readName
  rw [Doc.map, hwalk, Option.bind_map]
  cases walk rule (d.entries, start) parents with
  | none => rfl
  | some s =>
    have hvisit := visit_map hlast s name
    simp only [Option.bind_some, Function.comp_apply, hvisit, Option.map_map]
    rfl

/-- **No step looks into the values.** -/
theorem step_map (d : Doc ν) (e : Expression ν) :
    step (d.map f) (e.map f) = (step d e).map (Doc.map f) := by
  cases e with
  | blank => rfl
  | table parents name =>
    exact readName_map blind_passHeader blind_openTable [] id d parents name
  | item parents name => exact readName_map blind_passHeader blind_openItem [] id d parents name
  | keyval parents name v =>
    exact readName_map blind_passDotted (blind_define v) d.current (fun _ => d.current) d parents
      name

theorem run_map (d : Doc ν) (es : List (Expression ν)) :
    run (d.map f) (es.map (Expression.map f)) = (run d es).map (Doc.map f) := by
  induction es generalizing d with
  | nil => rfl
  | cons e es ih =>
    rw [List.map_cons, run, run, step_map]
    cases step d e with
    | none => rfl
    | some t => exact ih t

/-! ## What is explicit -/

/-- A rule leaves a table with a header as it is, or refuses it. -/
def KeepsExplicit (rule : Rule ν) : Prop := ∀ r, rule (some .explicit) = some r → r.1 = .explicit

theorem keepsExplicit_passHeader : KeepsExplicit (passHeader (ν := ν)) := by
  rintro r h
  rw [← Option.some.inj h]

theorem keepsExplicit_of_refuses {rule : Rule ν} (h : rule (some .explicit) = none) :
    KeepsExplicit rule := fun r hr => by
  rw [h] at hr
  cases hr

variable {p : Path} {rule : Rule ν}

theorem explicit_visit (hrule : KeepsExplicit rule) {s t : Entries ν × Path} {name : List Char}
    (h : visit rule s name = some t) (hp : s.1 p = some .explicit) : t.1 p = some .explicit := by
  obtain ⟨r, hr, rfl⟩ := Option.map_eq_some_iff.1 h
  by_cases hq : p = s.2 ++ [.key name]
  · subst hq
    rw [hp] at hr
    dsimp only
    rw [Function.update_self, hrule r hr]
  · dsimp only
    rwa [Function.update_of_ne hq]

theorem explicit_walk (hrule : KeepsExplicit rule) {s t : Entries ν × Path}
    {names : List (List Char)} (h : walk rule s names = some t) (hp : s.1 p = some .explicit) :
    t.1 p = some .explicit := by
  induction names generalizing s with
  | nil => rwa [← Option.some.inj h]
  | cons name names ih =>
    obtain ⟨s₁, h₁, h₂⟩ := Option.bind_eq_some_iff.1 h
    exact ih h₂ (explicit_visit hrule h₁ hp)

theorem explicit_readName {last : Rule ν} (hrule : KeepsExplicit rule)
    (hlast : KeepsExplicit last) {start : Path} {next : Path → Path} {d d' : Doc ν}
    {parents : List (List Char)} {name : List Char}
    (h : readName rule last start next d parents name = some d')
    (hp : d.entries p = some .explicit) : d'.entries p = some .explicit := by
  obtain ⟨s, hs, rfl⟩ := Option.map_eq_some_iff.1 h
  obtain ⟨s₁, h₁, h₂⟩ := Option.bind_eq_some_iff.1 hs
  exact explicit_visit hlast h₂ (explicit_walk hrule h₁ hp)

/-- A table with a header stays one. -/
theorem explicit_step {d d' : Doc ν} {e : Expression ν} (h : step d e = some d')
    (hp : d.entries p = some .explicit) : d'.entries p = some .explicit := by
  cases e with
  | blank => rwa [← Option.some.inj h]
  | table parents name =>
    exact explicit_readName keepsExplicit_passHeader (keepsExplicit_of_refuses rfl) h hp
  | item parents name =>
    exact explicit_readName keepsExplicit_passHeader (keepsExplicit_of_refuses rfl) h hp
  | keyval parents name v =>
    have hread : readName passDotted (define v) d.current (fun _ => d.current) d parents name =
        some d' := h
    exact explicit_readName (keepsExplicit_of_refuses rfl) (keepsExplicit_of_refuses rfl) hread hp

theorem explicit_run {d d' : Doc ν} {es : List (Expression ν)} (h : run d es = some d')
    (hp : d.entries p = some .explicit) : d'.entries p = some .explicit := by
  induction es generalizing d with
  | nil => rwa [← Option.some.inj h]
  | cons e es ih =>
    obtain ⟨d₁, h₁, h₂⟩ := Option.bind_eq_some_iff.1 h
    exact ih h₂ (explicit_step h₁ hp)

/-- The keys that are read go to the root, to a table with a header or to an
element of an array of tables. -/
def Doc.Opened (d : Doc ν) : Prop :=
  d.current = [] ∨ d.entries d.current = some .explicit ∨ ∃ q i, d.current = q ++ [.item i]

theorem opened_step {d d' : Doc ν} {e : Expression ν} (hopen : d.Opened)
    (h : step d e = some d') : d'.Opened := by
  cases e with
  | blank => rwa [← Option.some.inj h]
  | table parents name =>
    obtain ⟨s, hs, rfl⟩ := Option.map_eq_some_iff.1 h
    obtain ⟨s₁, -, h₂⟩ := Option.bind_eq_some_iff.1 hs
    obtain ⟨r, hr, rfl⟩ := Option.map_eq_some_iff.1 h₂
    have hexplicit : r = (.explicit, []) := by
      unfold openTable at hr
      split at hr
      · exact (Option.some.inj hr).symm
      · exact (Option.some.inj hr).symm
      · cases hr
    subst hexplicit
    refine .inr (.inl ?_)
    dsimp only [id]
    rw [List.append_nil, Function.update_self]
  | item parents name =>
    obtain ⟨s, hs, rfl⟩ := Option.map_eq_some_iff.1 h
    obtain ⟨s₁, -, h₂⟩ := Option.bind_eq_some_iff.1 hs
    obtain ⟨r, hr, rfl⟩ := Option.map_eq_some_iff.1 h₂
    have hitem : ∃ i, r.2 = [.item i] := by
      unfold openItem at hr
      split at hr
      · exact ⟨0, (Option.some.inj hr) ▸ rfl⟩
      · next n _ => exact ⟨n, (Option.some.inj hr) ▸ rfl⟩
      · cases hr
    obtain ⟨i, hi⟩ := hitem
    exact .inr (.inr ⟨_, i, congrArg (_ ++ ·) hi⟩)
  | keyval parents name v =>
    have hcurrent : d'.current = d.current := by
      obtain ⟨s, -, rfl⟩ := Option.map_eq_some_iff.1 h
      rfl
    unfold Doc.Opened
    rw [hcurrent]
    rcases hopen with hroot | hexplicit | hitem
    · exact .inl hroot
    · exact .inr (.inl (explicit_step h hexplicit))
    · exact .inr (.inr hitem)

theorem opened_run {d d' : Doc ν} {es : List (Expression ν)} (hopen : d.Opened)
    (h : run d es = some d') : d'.Opened := by
  induction es generalizing d with
  | nil => rwa [← Option.some.inj h]
  | cons e es ih =>
    obtain ⟨d₁, h₁, h₂⟩ := Option.bind_eq_some_iff.1 h
    exact ih (opened_step hopen h₁) h₂

/-- **A key whose keys are read has a header.** -/
theorem explicit_of_current {d : Doc ν} {es : List (Expression ν)} {k : List Char}
    (h : run .start es = some d) (hcurrent : d.current = [.key k]) :
    d.entries [.key k] = some .explicit := by
  rcases opened_run (.inl rfl) h with hroot | hexplicit | ⟨q, i, hitem⟩
  · rw [hroot] at hcurrent
    cases hcurrent
  · rwa [hcurrent] at hexplicit
  · rw [hcurrent] at hitem
    have hlast := congrArg List.getLast? hitem
    rw [List.getLast?_concat] at hlast
    cases hlast

/-! ## Looking up -/

/-- A field of a record: its name, and where it stands among the fields. -/
structure Field where
  name : List Char
  position : ℕ

/-- What is found. -/
inductive Found where
  | value (v : Value)
  /-- A table with a header or with dotted keys, or an array of such. -/
  | tables

namespace Value

/-- The value at fields in a value. An array holds them in their order. -/
def get : List Field → Value → Option Value
  | [], v => some v
  | k :: ks, .table fields => (fields.lookup k.name).bind (get ks)
  | k :: ks, .arr elements => (elements[k.position]?).bind (get ks)
  | _ :: _, _ => none

mutual

/-- The value with other strings. -/
def mapStr (f : List Char → List Char) : Value → Value
  | .str s => .str (f s)
  | .int n => .int n
  | .bool b => .bool b
  | .other literal => .other literal
  | .arr elements => .arr (mapElements f elements)
  | .table fields => .table (mapFields f fields)

def mapElements (f : List Char → List Char) : List Value → List Value
  | [] => []
  | v :: vs => mapStr f v :: mapElements f vs

def mapFields (f : List Char → List Char) :
    List (List Char × Value) → List (List Char × Value)
  | [] => []
  | (k, v) :: fields => (k, mapStr f v) :: mapFields f fields

end

theorem lookup_mapFields (f : List Char → List Char) (k : List Char)
    (fields : List (List Char × Value)) :
    (mapFields f fields).lookup k = (fields.lookup k).map (mapStr f) := by
  induction fields with
  | nil => rfl
  | cons m fields ih =>
    obtain ⟨k', v⟩ := m
    rw [mapFields, List.lookup_cons, List.lookup_cons]
    cases k == k' with
    | true => rfl
    | false => exact ih

theorem getElem?_mapElements (f : List Char → List Char) (elements : List Value) (i : ℕ) :
    (mapElements f elements)[i]? = (elements[i]?).map (mapStr f) := by
  induction elements generalizing i with
  | nil => rfl
  | cons v vs ih =>
    cases i with
    | zero => rfl
    | succ i => exact ih i

theorem get_mapStr (f : List Char → List Char) (ks : List Field) (v : Value) :
    get ks (mapStr f v) = (get ks v).map (mapStr f) := by
  induction ks generalizing v with
  | nil => rfl
  | cons k ks ih =>
    cases v with
    | table fields =>
      rw [mapStr, get, get, lookup_mapFields]
      cases fields.lookup k.name with
      | none => rfl
      | some w => exact ih w
    | arr elements =>
      rw [mapStr, get, get, getElem?_mapElements]
      cases elements[k.position]? with
      | none => rfl
      | some w => exact ih w
    | str s => rfl
    | int n => rfl
    | bool b => rfl
    | other literal => rfl

end Value

def Found.mapStr (f : List Char → List Char) : Found → Found
  | .value v => .value (v.mapStr f)
  | .tables => .tables

/-- What is at fields below a path. -/
def find (e : Entries Value) : Path → List Field → Option Found
  | _, [] => some .tables
  | q, k :: ks =>
    match e (q ++ [.key k.name]) with
    | none => none
    | some (.leaf v) => (v.get ks).map .value
    | some (.items _) => if ks = [] then some .tables else none
    | some .implicit => find e (q ++ [.key k.name]) ks
    | some .explicit => find e (q ++ [.key k.name]) ks
    | some .dotted => find e (q ++ [.key k.name]) ks

theorem find_map (g : List Char → List Char) (e : Entries Value) (q : Path) (ks : List Field) :
    find (e.map (Value.mapStr g)) q ks = (find e q ks).map (Found.mapStr g) := by
  induction ks generalizing q with
  | nil => rfl
  | cons k ks ih =>
    unfold find
    have hentry : e.map (Value.mapStr g) (q ++ [.key k.name]) =
        (e (q ++ [.key k.name])).map (Entry.map (Value.mapStr g)) := rfl
    rw [hentry]
    cases e (q ++ [.key k.name]) with
    | none => rfl
    | some entry =>
      cases entry with
      | leaf v =>
        have hvalue : ((Value.mapStr g v).get ks).map Found.value =
            ((v.get ks).map Found.value).map (Found.mapStr g) := by
          rw [Value.get_mapStr, Option.map_map, Option.map_map]
          rfl
        exact hvalue
      | items n =>
        show (if ks = [] then some Found.tables else none) =
          (if ks = [] then some Found.tables else none).map (Found.mapStr g)
        split <;> rfl
      | implicit => exact ih _
      | explicit => exact ih _
      | dotted => exact ih _

/-- A value elsewhere is not looked at. -/
theorem find_withValue_of_ne {e : Entries Value} {q : Path} {v : Value} {ks : List Field}
    (h : ∀ names, names ≠ [] → names <+: ks.map Field.name → p ≠ q ++ names.map Name.key) :
    find (withValue p v e) q ks = find e q ks := by
  induction ks generalizing q with
  | nil => rfl
  | cons k ks ih =>
    have hentry : withValue p v e (q ++ [.key k.name]) = e (q ++ [.key k.name]) :=
      Function.update_of_ne (h [k.name] (List.cons_ne_nil _ _) ⟨ks.map Field.name, rfl⟩).symm _ _
    have hlater : find (withValue p v e) (q ++ [.key k.name]) ks =
        find e (q ++ [.key k.name]) ks := by
      refine ih fun names _ hnames => ?_
      rw [List.append_assoc]
      exact h (k.name :: names) (List.cons_ne_nil _ _) (List.cons_prefix_cons.2 ⟨rfl, hnames⟩)
    unfold find
    rw [hentry, hlater]

/-- **A value more is not looked at** at fields that are not below it. -/
theorem find_withValue {e : Entries Value} {names : List (List Char)} {ks : List Field} {v : Value}
    (h : ¬ names <+: ks.map Field.name) :
    find (withValue (names.map Name.key) v e) [] ks = find e [] ks := by
  refine find_withValue_of_ne fun names' _ hnames heq => h ?_
  rw [List.nil_append] at heq
  rwa [(List.map_inj_right fun a b hab => Name.key.inj hab).1 heq]

/-- What is in a table with a header. -/
theorem find_explicit {e : Entries Value} {k k' : Field}
    (h : e [.key k.name] = some .explicit) :
    find e [] [k, k'] = find e [.key k.name] [k'] := by
  rw [find, List.nil_append, h]

end AigisZero.Toml
