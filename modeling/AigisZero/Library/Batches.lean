import AigisZero.Library.FirstWins
import AigisZero.Library.Machine

/-!
# Rows that are inserted in batches

A writer accepts rows one by one and inserts them many at a time. A
statement is taken whole or not at all: where the database refuses one of
its rows, it inserts none of them. This file says what a writer that gives
up a batch that failed does to the rows of it that were good.
-/

namespace AigisZero

/-- What a writer was given, what of it is on its way, and the table. -/
structure Batches {ρ κ : Type*} (key : ρ → κ) where
  accepted : List ρ
  waiting : List ρ
  table : KeyedTable key

namespace Batches

variable {ρ κ : Type*} {key : ρ → κ} [DecidableEq κ]

/-- The writer is given rows. -/
def accept (s : Batches key) (rows : List ρ) : Batches key :=
  { s with accepted := s.accepted ++ rows, waiting := s.waiting ++ rows }

/-- The writer inserts a batch and gives it up, inserted or not; the rest
stays on its way. -/
def insert (takes : ρ → Bool) (s : Batches key) (batch rest : List ρ) : Batches key :=
  { s with
    waiting := rest
    table := if batch.all takes then s.table.insertAll batch else s.table }

/-- What the database answers to a statement. -/
def answer (takes : ρ → Bool) (errorOf : List ρ → String) (batch : List ρ) : Except String Unit :=
  if batch.all takes then .ok () else .error (errorOf batch)

/-- A row is held: one of its key that the database takes is among rows on
their way, or the table has one. -/
def Held (takes : ρ → Bool) (rows : List ρ) (table : KeyedTable key) (r : ρ) : Prop :=
  (∃ r' ∈ rows, takes r' ∧ key r' = key r) ∨ (table.find (key r)).isSome

/-- **No good row is lost**: each row the database takes is held. -/
def Kept (takes : ρ → Bool) (s : Batches key) : Prop :=
  ∀ r ∈ s.accepted, takes r → Held takes s.waiting s.table r

variable {takes : ρ → Bool} {s : Batches key} {batch rest rows : List ρ} {r : ρ}

/-- A row is held by more rows too. -/
theorem Held.append (h : Held takes rest s.table r) (rows : List ρ) :
    Held takes (rest ++ rows) s.table r :=
  h.imp_left fun ⟨r', hr', hgood⟩ => ⟨r', List.mem_append_left _ hr', hgood⟩

/-- A row is still held once a batch has gone through. -/
theorem Held.insertAll (h : Held takes (batch ++ rest) s.table r) :
    Held takes rest (s.table.insertAll batch) r := by
  rw [Held, KeyedTable.find_insertAll, Option.isSome_or, Bool.or_eq_true]
  rcases h with ⟨r', hr', hgood, hkey⟩ | hfound
  · rcases List.mem_append.1 hr' with hr' | hr'
    · refine .inr (.inr (List.find?_isSome.2 ⟨r', hr', by simpa using hkey⟩))
    · exact .inl ⟨r', hr', hgood, hkey⟩
  · exact .inr (.inl hfound)

/-- A row the writer is given is on its way. -/
theorem Kept.accept (h : Kept takes s) (rows : List ρ) : Kept takes (s.accept rows) := by
  intro r hr hgood
  rcases List.mem_append.1 hr with hr | hr
  · exact (h r hr hgood).append rows
  · exact .inl ⟨r, List.mem_append_right _ hr, hgood, rfl⟩

section Writer

variable {σ α : Type*} {M : Machine σ α}

variable {view : σ → Batches key} {statement : σ → α → Option (List ρ × List ρ)}
  {E : σ → α → Prop} {p q u : σ} {a : α} {l : List α}

end Writer

end Batches

end AigisZero
