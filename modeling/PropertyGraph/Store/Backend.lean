/-
# Store.Backend -- tables by name, and batches of writes

A backend hands out tables by name and applies batches of row mutations across
them.  A table keeps its identity: when the backend forgets its names, whoever
opened a table still reads it, and the name opens a new one.

The outcomes of coming batches are part of the state.  A batch that fails may
have reached any of its rows; `WriteOutcome.failed` names those it reached.
Every attempt is entered into the journal (`journal_mutateMany`).
-/
import PropertyGraph.Store.Table
import PropertyGraph.Store.Retry

namespace PropertyGraph

set_option autoImplicit false

/-- Mutations of some rows of some stores, in ascending order of the stores. -/
abbrev Batch := List (String × List (Bytes × Mutation))

/-- What becomes of a batch. -/
inductive WriteOutcome where
  | applied
  /-- The batch fails, though the rows that `reached` picks were written. -/
  | failed (kind : BackendKind) (reason : String) (reached : String → Bytes → Bool)

/-- An attempt to write a batch: rows and single changes a store, and how it
failed if it did. -/
structure BatchRecord where
  shape : List (String × Nat × Nat)
  failure : Option BackendKind
  deriving DecidableEq

structure Backend where
  /-- Every table ever opened; a table is known by its place. -/
  tables : List Table
  /-- The tables that the names stand for now. -/
  names : List (String × Nat)
  /-- Outcomes of the coming batches; after these every batch is applied. -/
  outcomes : List WriteOutcome
  /-- The attempts made so far, in order. -/
  journal : List BatchRecord

namespace Backend

def empty : Backend := ⟨[], [], [], []⟩

def table (b : Backend) (id : Nat) : Table := (b.tables[id]?).getD (Table.empty "")

/-- The table of a name, opened if the name is not known. -/
def openTable (b : Backend) (name : String) : Nat × Backend :=
  match b.names.lookup name with
  | some id => (id, b)
  | none =>
      (b.tables.length,
        { b with
          tables := b.tables ++ [Table.empty name]
          names := (name, b.tables.length) :: b.names })

/-- Applies one row mutation to the table of a name. -/
def mutateRow (b : Backend) (name : String) (key : Bytes) (m : Mutation) : Backend :=
  let (id, opened) := b.openTable name
  { opened with tables := opened.tables.modify id fun t => t.mutate key m }

/-- Applies those mutations of one store's rows that `reached` picks. -/
def applyRows (b : Backend) (name : String) (reached : Bytes → Bool)
    (rows : List (Bytes × Mutation)) : Backend :=
  rows.foldl (fun acc row => if reached row.1 then acc.mutateRow name row.1 row.2 else acc) b

/-- Applies those mutations of a batch that `reached` picks. -/
def applyBatch (b : Backend) (batch : Batch) (reached : String → Bytes → Bool) : Backend :=
  batch.foldl (fun acc store => acc.applyRows store.1 (reached store.1) store.2) b

def shapeOf (batch : Batch) : List (String × Nat × Nat) :=
  batch.map fun store =>
    (store.1, store.2.length, sumOf (fun row => row.2.total) store.2)

/-- One attempt to write a batch. -/
def mutateMany (batch : Batch) (b : Backend) : Outcome Unit × Backend :=
  let next (failure : Option BackendKind) : Backend :=
    { b with
      outcomes := b.outcomes.tail
      journal := b.journal ++ [⟨shapeOf batch, failure⟩] }
  match b.outcomes with
  | .failed kind reason reached :: _ =>
      (.error (.backend kind reason), (next (some kind)).applyBatch batch reached)
  | _ => (.ok (), (next none).applyBatch batch fun _ _ => true)

/-- Forgets the names; tables already opened stay as they are. -/
def close (b : Backend) : Backend := { b with names := [] }

theorem journal_mutateRow (b : Backend) (name : String) (key : Bytes) (m : Mutation) :
    (b.mutateRow name key m).journal = b.journal := by
  simp only [mutateRow, openTable]
  split <;> rfl

theorem journal_applyRows (b : Backend) (name : String) (reached : Bytes → Bool)
    (rows : List (Bytes × Mutation)) : (b.applyRows name reached rows).journal = b.journal := by
  unfold applyRows
  induction rows generalizing b with
  | nil => rfl
  | cons row rest ih =>
      rw [List.foldl_cons, ih]
      split
      · exact journal_mutateRow ..
      · rfl

theorem journal_applyBatch (b : Backend) (batch : Batch) (reached : String → Bytes → Bool) :
    (b.applyBatch batch reached).journal = b.journal := by
  unfold applyBatch
  induction batch generalizing b with
  | nil => rfl
  | cons store rest ih => rw [List.foldl_cons, ih, journal_applyRows]

/-- Each attempt adds one record, which tells whether it failed. -/
theorem journal_mutateMany (batch : Batch) (b : Backend) :
    ∃ failure, (b.mutateMany batch).2.journal = b.journal ++ [⟨shapeOf batch, failure⟩] ∧
      (failure = none ↔ (b.mutateMany batch).1 = .ok ()) := by
  unfold mutateMany
  split
  · rename_i kind _ _ _ _
    exact ⟨some kind, by simp [journal_applyBatch], by simp⟩
  · exact ⟨none, by simp [journal_applyBatch], by simp⟩

end Backend

end PropertyGraph
