import Mathlib.Data.List.Basic
import Mathlib.Tactic.Common

/-!
# Scripts of statements

A script is a program over a database: it makes one statement after the
other and ends with a result or an error. A statement that fails does
nothing. Of a script that fails, the statements before stay done, unless
it ran in a transaction.
-/

namespace AigisZero

universe u v

/-- **A script**: the database before it, what it returns, and the database
after it. -/
def Script (δ : Type v) (ε : Type u) (α : Type u) := δ → Except ε α × δ

namespace Script

variable {δ : Type v} {ε α β : Type u}

instance : Monad (Script δ ε) where
  pure a := fun s => (.ok a, s)
  bind m f := fun s =>
    match m s with
    | (.ok a, t) => f a t
    | (.error e, t) => (.error e, t)

/-- A statement, which reads the database and changes it, or fails. -/
def statement (fault : Option ε) (f : δ → α × δ) : Script δ ε α := fun s =>
  match fault with
  | some e => (.error e, s)
  | none => (.ok (f s).1, (f s).2)

/-- A statement that only changes the database. -/
def execute (fault : Option ε) (f : δ → δ) : Script δ ε PUnit := statement fault fun s => (⟨⟩, f s)

/-- A statement that only reads it. -/
def query (fault : Option ε) (f : δ → α) : Script δ ε α := statement fault fun s => (f s, s)

/-- A script in a transaction, which is rolled back where the script fails. -/
def transaction (m : Script δ ε α) : Script δ ε α := fun s =>
  match m s with
  | (.ok a, t) => (.ok a, t)
  | (.error e, _) => (.error e, s)

/-- **A script is atomic** if it changes nothing where it fails. -/
def Atomic (m : Script δ ε α) : Prop := ∀ s e t, m s = (.error e, t) → t = s

variable {m : Script δ ε α} {f : α → Script δ ε β} {s t : δ} {a : α} {b : β} {e : ε}
  {fault : Option ε}

/-- A sequence that fails: the first script does, or the rest does after it. -/
theorem bind_eq_error : (m >>= f) s = (.error e, t) ↔
    m s = (.error e, t) ∨ ∃ a s', m s = (.ok a, s') ∧ f a s' = (.error e, t) := by
  show (match m s with
    | (.ok a, t) => f a t
    | (.error e, t) => (.error e, t)) = _ ↔ _
  rcases m s with ⟨_ | a, s'⟩
  · simp
  · simp

/-- A sequence that returns: both its scripts do. -/
theorem bind_eq_ok : (m >>= f) s = (.ok b, t) ↔
    ∃ a s', m s = (.ok a, s') ∧ f a s' = (.ok b, t) := by
  show (match m s with
    | (.ok a, t) => f a t
    | (.error e, t) => (.error e, t)) = _ ↔ _
  rcases m s with ⟨_ | a, s'⟩
  · simp
  · simp

@[simp] theorem pure_apply (a : α) (s : δ) : (pure a : Script δ ε α) s = (.ok a, s) := rfl

theorem statement_eq_ok {g : δ → α × δ} :
    statement fault g s = (.ok a, t) ↔ fault = none ∧ g s = (a, t) := by
  cases fault with
  | some e => exact iff_of_false (by simp [statement]) (by simp)
  | none => simp [statement, Prod.ext_iff]

theorem statement_eq_error {g : δ → α × δ} :
    statement fault g s = (.error e, t) ↔ fault = some e ∧ t = s := by
  cases fault with
  | some e' => simp [statement, eq_comm]
  | none => exact iff_of_false (by simp [statement]) (by simp)

theorem execute_eq_ok {g : δ → δ} {x : PUnit} :
    execute fault g s = (.ok x, t) ↔ fault = none ∧ t = g s := by
  rw [execute, statement_eq_ok]
  exact and_congr_right fun _ => ⟨fun h => (Prod.ext_iff.1 h).2.symm, fun h => h ▸ rfl⟩

theorem execute_eq_error {g : δ → δ} :
    execute fault g s = (.error e, t) ↔ fault = some e ∧ t = s := statement_eq_error

theorem query_eq_ok {g : δ → α} :
    query fault g s = (.ok a, t) ↔ fault = none ∧ a = g s ∧ t = s := by
  rw [query, statement_eq_ok, Prod.ext_iff]
  exact and_congr_right fun _ => and_congr eq_comm eq_comm

theorem query_eq_error {g : δ → α} :
    query fault g s = (.error e, t) ↔ fault = some e ∧ t = s := statement_eq_error

/-- A transaction returns what its script does. -/
theorem transaction_eq_ok : transaction m s = (.ok a, t) ↔ m s = (.ok a, t) := by
  unfold transaction
  rcases m s with ⟨_ | a, s'⟩
  · simp
  · simp

/-- **A transaction is atomic.** -/
theorem atomic_transaction (m : Script δ ε α) : Atomic (transaction m) := by
  intro s e t h
  unfold transaction at h
  split at h
  · cases h
  · exact (Prod.ext_iff.1 h).2.symm

end Script

end AigisZero
