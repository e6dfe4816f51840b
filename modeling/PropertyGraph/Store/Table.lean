/-
# Store.Table -- ordered rows in memory

A table maps keys to rows and keeps no empty row.  Reads go along rows and answer
what a slice asks for (`sliceOf_eq_apply`); a row that is not there reads as empty.
`Table.mutate` deletes and then adds, and is visible at once; a row that it does not
name stays as it was (`row_mutate`).
-/
import PropertyGraph.Store.Mutation

namespace PropertyGraph

set_option autoImplicit false

/-- A key with some entries of its row. -/
abbrev KeyedRow := Bytes × List Entry

structure Table where
  name : String
  /-- The rows that hold an entry, in ascending order of their keys. -/
  rows : List KeyedRow
  deriving DecidableEq

namespace Table

def empty (name : String) : Table := ⟨name, []⟩

def rowCount (t : Table) : Nat := t.rows.length

/-- All entries of a row. -/
def row (t : Table) (key : Bytes) : List Entry :=
  ((Sorted.find? Prod.fst key t.rows).map Prod.snd).getD []

/-- Puts a row in place of the old one; an empty row is not kept. -/
def setRow (t : Table) (key : Bytes) (entries : List Entry) : Table :=
  if entries.isEmpty then { t with rows := Sorted.erase Prod.fst key t.rows }
  else { t with rows := Sorted.insert Prod.fst (key, entries) t.rows }

/-- Deletes columns of a row and then adds entries to it. -/
def mutate (t : Table) (key : Bytes) (m : Mutation) : Table :=
  let kept := m.deletions.foldl (fun acc c => Sorted.erase Entry.column c acc) (t.row key)
  t.setRow key (m.additions.foldl (fun acc e => Sorted.insert Entry.column e acc) kept)

/-- What a slice finds going along a row: from its start on, up to its end, and no more
than its limit. -/
def sliceOf (slice : Slice) (row : List Entry) : List Entry :=
  let within := Sorted.range Entry.column slice.start slice.stop row
  if slice.hasLimit then within.take slice.limit.toNat else within

def readSlice (t : Table) (q : KeySlice) : List Entry := sliceOf q.slice (t.row q.key)

/-- The same slice of several rows, in the order of the keys. -/
def readSlices (t : Table) (keys : List Bytes) (slice : Slice) : List KeyedRow :=
  keys.map fun key => (key, sliceOf slice (t.row key))

/-- The rows with a picked key and a column in the slice, in ascending order. -/
def scan (t : Table) (slice : Slice) (pick : Bytes → Bool) : List KeyedRow :=
  ((t.rows.filter fun r => pick r.1).map fun r => (r.1, sliceOf slice r.2)).filter
    fun r => !r.2.isEmpty

def readKeyRange (t : Table) (r : KeyRange) : List KeyedRow := t.scan r.slice r.containsKey

def readKeys (t : Table) (slice : Slice) : List KeyedRow := t.scan slice fun _ => true

/-- Of a row in order that is what the slice asks for. -/
theorem sliceOf_eq_apply {row : List Entry} (ascending : Sorted.Ascending Entry.column row)
    (slice : Slice) : sliceOf slice row = slice.apply row := by
  have within : Sorted.range Entry.column slice.start slice.stop row =
      row.filter fun e => slice.contains e.column := by
    rw [Sorted.range_eq_filter ascending]
    refine List.filter_congr fun e _ => ?_
    rw [Bool.eq_iff_iff]
    simp only [Slice.contains, Bool.and_eq_true, bne_iff_ne, beq_iff_eq, decide_eq_true_iff, ne_eq,
      Bytes.compare_eq_lt_iff, List.not_lt]
  rw [sliceOf, within]
  rfl

/-- The keys of the rows stand in ascending order. -/
def Ordered (t : Table) : Prop := Sorted.Ascending Prod.fst t.rows

theorem ordered_empty (name : String) : (empty name).Ordered := .nil

theorem ordered_setRow {t : Table} (ordered : t.Ordered) (key : Bytes)
    (entries : List Entry) : (t.setRow key entries).Ordered := by
  unfold setRow
  split
  · exact Sorted.Ascending.erase ordered key
  · exact Sorted.Ascending.insert ordered (key, entries)

theorem row_setRow {t : Table} (ordered : t.Ordered) (key other : Bytes)
    (entries : List Entry) :
    (t.setRow key entries).row other = if other = key then entries else t.row other := by
  have same : compare other key = .eq ↔ other = key :=
    ⟨Std.LawfulEqOrd.eq_of_compare, fun h => h ▸ Std.ReflOrd.compare_self⟩
  unfold setRow row
  by_cases nothing : entries = []
  · subst nothing
    simp only [List.isEmpty_nil, if_true, Sorted.find?_erase ordered]
    by_cases h : other = key <;> simp [same, h]
  · simp only [List.isEmpty_iff, nothing, if_false, Sorted.find?_insert]
    by_cases h : other = key <;> simp [same, h]

/-- A mutation changes its own row and no other. -/
theorem row_mutate {t : Table} (ordered : t.Ordered) (key other : Bytes) (m : Mutation)
    (apart : other ≠ key) : (t.mutate key m).row other = t.row other := by
  simp [mutate, row_setRow ordered, apart]

end Table

end PropertyGraph
