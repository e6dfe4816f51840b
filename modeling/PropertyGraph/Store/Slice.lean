/-
# Store.Slice -- reads of a column interval

A slice asks for the columns of a row from `start` up to, not including, `stop`,
and for at most `limit` of them.  Its bounds are never the wrong way round and
its limit is never zero; both are part of the type.

* `Slice.apply` restricts a row to a slice (`mem_of_mem_apply`, `length_apply`).
* Slices are equal when bounds and limit are: what was read for a small limit
  never answers for a larger one.
-/
import PropertyGraph.Store.Entry

namespace PropertyGraph

set_option autoImplicit false

/-- The limit that asks for every matching column. -/
def noLimit : UInt64 := 0xFFFFFFFFFFFFFFFF

theorem noLimit_pos : 0 < noLimit := by decide

structure Slice where
  start : Bytes
  stop : Bytes
  limit : UInt64
  ordered : start ≤ stop
  positive : 0 < limit
  deriving DecidableEq

namespace Slice

/-- All columns between two bounds. -/
def between (start stop : Bytes) : Outcome Slice :=
  if h : start ≤ stop then .ok ⟨start, stop, noLimit, h, noLimit_pos⟩
  else .error (.misuse (.invertedSlice (Bytes.shown start) (Bytes.shown stop)))

/-- The same bounds with another limit. -/
def withLimit (s : Slice) (limit : UInt64) : Outcome Slice :=
  if h : 0 < limit then .ok { s with limit, positive := h }
  else .error (.misuse .zeroLimit)

/-- The same bounds without a limit. -/
def unlimited (s : Slice) : Slice := { s with limit := noLimit, positive := noLimit_pos }

def hasLimit (s : Slice) : Bool := s.limit != noLimit

def contains (s : Slice) (column : Bytes) : Bool :=
  decide (s.start ≤ column) && decide (column < s.stop)

/-- The part of a row that a slice asks for.  Without a limit that is every column
between the bounds, however many there are. -/
def apply (s : Slice) (entries : List Entry) : List Entry :=
  let selected := entries.filter fun e => s.contains e.column
  if s.hasLimit then selected.take s.limit.toNat else selected

theorem mem_of_mem_apply {s : Slice} {entries : List Entry} {e : Entry}
    (member : e ∈ s.apply entries) : e ∈ entries ∧ s.contains e.column = true := by
  simp only [apply] at member
  split at member
  · simpa using List.mem_of_mem_take member
  · simpa using member

theorem length_apply {s : Slice} (limited : s.hasLimit = true) (entries : List Entry) :
    (s.apply entries).length ≤ s.limit.toNat := by
  simp only [apply, limited, if_true, List.length_take]
  omega

/-- By start, then end, then limit. -/
def compare (a b : Slice) : Ordering :=
  ((Ord.compare a.start b.start).then (Ord.compare a.stop b.stop)).then
    (Ord.compare a.limit b.limit)

instance : Ord Slice := ⟨compare⟩

/-- The form of a slice in messages. -/
def shown (s : Slice) : String :=
  "[" ++ Bytes.shown s.start ++ "," ++ Bytes.shown s.stop ++ ")" ++
    (if s.hasLimit then "@" ++ toString s.limit else "")

end Slice

/-- A slice of one row; the key under which a cache keeps an answer. -/
structure KeySlice where
  key : Bytes
  slice : Slice
  deriving DecidableEq

namespace KeySlice

def withLimit (q : KeySlice) (limit : UInt64) : Outcome KeySlice := do
  return { q with slice := ← q.slice.withLimit limit }

/-- The same bounds of the row without a limit. -/
def unlimited (q : KeySlice) : KeySlice := { q with slice := q.slice.unlimited }

/-- What the query itself weighs in a cache. -/
def byteSize (q : KeySlice) : Nat :=
  Bytes.byteSize q.key + Bytes.byteSize q.slice.start + Bytes.byteSize q.slice.stop + 16

/-- By key, then slice. -/
def compare (a b : KeySlice) : Ordering :=
  (Ord.compare a.key b.key).then (Ord.compare a.slice b.slice)

instance : Ord KeySlice := ⟨compare⟩

def shown (q : KeySlice) : String := Bytes.shown q.key ++ "->" ++ q.slice.shown

end KeySlice

/-- The same slice of every row whose key lies in `[first, last)`. -/
structure KeyRange where
  first : Bytes
  last : Bytes
  slice : Slice
  ordered : first ≤ last
  deriving DecidableEq

namespace KeyRange

def between (first last : Bytes) (slice : Slice) : Outcome KeyRange :=
  if h : first ≤ last then .ok ⟨first, last, slice, h⟩
  else .error (.misuse .invertedKeyRange)

def containsKey (r : KeyRange) (key : Bytes) : Bool :=
  decide (r.first ≤ key) && decide (key < r.last)

end KeyRange

end PropertyGraph
