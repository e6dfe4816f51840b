/-
# Store.Mutation -- changes of one row

A mutation deletes columns and then adds entries, so a column that is both
deleted and added holds the added value.

* `Mutation.merge` puts a later mutation behind an earlier one.
* `Mutation.consolidate` drops what cannot matter: it leaves no column twice and
  none both added and deleted.
* `Mutation.overlay` shows a row as it will be, restricted to a slice; without
  the restriction it is `Mutation.applyTo`.
-/
import PropertyGraph.Store.Slice

namespace PropertyGraph

set_option autoImplicit false

structure Mutation where
  additions : List Entry
  deletions : List Bytes
  deriving DecidableEq

namespace Mutation

def empty : Mutation := ⟨[], []⟩

def isEmpty (m : Mutation) : Bool := m.additions.isEmpty && m.deletions.isEmpty

/-- Number of single changes. -/
def total (m : Mutation) : Nat := m.additions.length + m.deletions.length

/-- A column that the mutation adds. -/
def adds (m : Mutation) (column : Bytes) : Bool := m.additions.any fun e => e.column == column

/-- The earlier mutation followed by the later one.  An earlier addition is
dropped when the later mutation deletes or adds its column. -/
def merge (earlier later : Mutation) : Mutation where
  additions :=
    (earlier.additions.filter fun e =>
      !later.deletions.contains e.column && !later.adds e.column) ++ later.additions
  deletions := earlier.deletions ++ later.deletions

/-- Keeps the last entry of each column, in the order of those last entries. -/
def lastOfEach : List Entry → List Entry
  | [] => []
  | e :: rest =>
      if rest.any fun later => later.column == e.column then lastOfEach rest
      else e :: lastOfEach rest

/-- Keeps the first occurrence of each column. -/
def firstOfEach : List Bytes → List Bytes
  | [] => []
  | c :: rest => c :: (firstOfEach rest).filter fun later => later != c

/-- The mutation without redundant changes. -/
def consolidate (m : Mutation) : Mutation where
  additions := lastOfEach m.additions
  deletions := firstOfEach (m.deletions.filter fun c => !m.adds c)

/-- The row after the mutation. -/
def applyTo (m : Mutation) (row : List Entry) : List Entry :=
  m.additions.foldl (fun acc e => Sorted.insert Entry.column e acc)
    (row.filter fun e => !m.deletions.contains e.column)

/-- The row after the mutation, restricted to a slice. -/
def overlay (m : Mutation) (base : List Entry) (slice : Slice) : List Entry :=
  slice.apply (m.applyTo base)

theorem total_eq_zero_iff (m : Mutation) : m.total = 0 ↔ m.isEmpty = true := by
  simp [total, isEmpty, List.isEmpty_iff, List.length_eq_zero_iff]

/-- Every column that was added is still added. -/
theorem adds_consolidate (m : Mutation) (c : Bytes) : m.consolidate.adds c = m.adds c := by
  suffices ∀ l : List Entry,
      (lastOfEach l).any (fun e => e.column == c) = l.any (fun e => e.column == c) from
    this m.additions
  intro l
  induction l with
  | nil => rfl
  | cons e rest ih =>
      simp only [lastOfEach]
      split
      · rename_i again
        rw [ih]
        by_cases same : e.column = c
        · subst same; simp [again]
        · simp [same]
      · simp [ih]

end Mutation

end PropertyGraph
