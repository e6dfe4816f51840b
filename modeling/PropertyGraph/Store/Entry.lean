/-
# Store.Entry -- the cells of a row

A row is a list of entries in ascending order of their columns, one entry a
column.  `Entry.listOf` makes a row of any list of entries; where a column is
given twice the last entry stands (`find?_listOf`).
-/
import PropertyGraph.Bytes.Basic
import PropertyGraph.Sorted
import PropertyGraph.Sums

namespace PropertyGraph

set_option autoImplicit false

/-- One cell: a column, its value and, where the cell ends by itself, its
remaining seconds. -/
structure Entry where
  column : Bytes
  value : Bytes
  ttl : Option UInt32 := none
  deriving DecidableEq

namespace Entry

def byteSize (e : Entry) : Nat := Bytes.byteSize e.column + Bytes.byteSize e.value

/-- What a list of entries weighs in a cache. -/
def listSize (entries : List Entry) : Nat := sumOf byteSize entries

/-- The row that a list of entries describes. -/
def listOf (entries : List Entry) : List Entry := Sorted.ofList column entries

theorem ascending_listOf (entries : List Entry) : Sorted.Ascending column (listOf entries) :=
  Sorted.ascending_ofList column entries

theorem compare_column_eq_iff (c : Bytes) (e : Entry) : compare c e.column = .eq ↔ e.column = c :=
  ⟨fun h => (Std.LawfulEqOrd.eq_of_compare h).symm, fun h => h ▸ Std.ReflOrd.compare_self⟩

/-- Entries put into a row one after the other: of one column the last one stands. -/
theorem find?_foldl_insert (entries row : List Entry) (c : Bytes) :
    Sorted.find? column c (entries.foldl (fun acc e => Sorted.insert column e acc) row) =
      (entries.reverse.find? fun e => e.column = c).or (Sorted.find? column c row) := by
  induction entries generalizing row with
  | nil => simp
  | cons e rest ih =>
      simp only [List.foldl_cons, ih, Sorted.find?_insert, compare_column_eq_iff,
        List.reverse_cons, List.find?_append, Option.or_assoc]
      by_cases h : e.column = c <;> simp [h]

/-- Of several entries of one column the last one stands. -/
theorem find?_listOf (entries : List Entry) (c : Bytes) :
    Sorted.find? column c (listOf entries) = entries.reverse.find? fun e => e.column = c := by
  simpa [listOf, Sorted.ofList, Sorted.find?] using find?_foldl_insert entries [] c

end Entry

end PropertyGraph
