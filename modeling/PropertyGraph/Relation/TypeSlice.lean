/-
# Relation.TypeSlice -- slices over the columns of a type

A type slice asks for the relations of one type in one direction whose sort values
meet constraints: first single points, then at most one range.  The points become
bytes that every column of the slice starts with, the range becomes the two ends.
In the columns of a descending type everything stands complemented, so there the
ends change places.

A slice over a whole category asks for properties, for edges, or for both.
-/
import PropertyGraph.Query.Interval
import PropertyGraph.Relation.Column
import PropertyGraph.Store.Slice

namespace PropertyGraph

set_option autoImplicit false

/-- A constraint on one component of an extended sort key. -/
structure ComponentInterval where
  component : SortComponent
  interval : Interval
  deriving DecidableEq

namespace TypeSlice

/-- Every relation of a category. -/
def ofCategory : RelationCategory → Slice
  | .property => ⟨[0x10], [0x11], noLimit, by decide, noLimit_pos⟩
  | .edge => ⟨[0x20], [0x21], noLimit, by decide, noLimit_pos⟩
  | .relation => ⟨[0x10], [0x21], noLimit, by decide, noLimit_pos⟩

/-- The two ends of a range in bytes; an absent end is empty and inclusive. -/
structure Ends where
  first : Bytes
  last : Bytes
  firstInclusive : Bool
  lastInclusive : Bool
  deriving DecidableEq

/-- The constraints of a slice in bytes. -/
structure Leading where
  /-- Points on components of the sort key. -/
  sorted : Bytes
  /-- Points on the ids that follow the sort key. -/
  implicit : Bytes
  ends : Option Ends
  deriving DecidableEq

variable {m : Type → Type} [Monad m] [MonadLiftT Outcome m]

/-- An end of a range in bytes. -/
def writeBound (b : Option Bound) (expected : Option DataType) : Outcome Bytes :=
  match b with
  | none => .ok []
  | some b => StoredValue.write b.value expected

/-- Takes the constraint on the component at a position; the answer tells whether
another one may follow. -/
def addConstraint (l : Leading) (explicit : Bool) (c : ComponentInterval)
    (expected : Option DataType) : Outcome Leading :=
  match c.interval with
  | .points [v] => do
      let b ← StoredValue.write v expected
      return if explicit then { l with sorted := l.sorted ++ b }
        else { l with implicit := l.implicit ++ b }
  | .points _ => (Fault.invalid (.manyPoints c.component.shown)).refuse
  | .range first last => do
      (Fault.invalid .rangeOnImplicit).unless explicit
      let a ← writeBound first expected
      let b ← writeBound last expected
      return { l with ends := some ⟨a, b, first.all Bound.inclusive, last.all Bound.inclusive⟩ }

/-- The constraints up to the first that is missing or empty, or to the first
range, where `explicit` components are left in the sort key. -/
def leading (types : TypeCatalog m) :
    Nat → Leading → List (Option ComponentInterval) → m Leading
  | explicit, l, some c :: rest =>
      if c.interval.isEmpty then return l
      else do
        let expected ← types.componentType c.component
        let l ← addConstraint l (0 < explicit) c expected
        if c.interval.isPoints then leading types (explicit - 1) l rest else return l
  | _, l, _ => return l

/-- The first column after all that start with these bytes. -/
def after (b : Bytes) : Outcome Bytes :=
  match b.successor with
  | some next => .ok next
  | none => .error (.corrupt .noSuccessor)

/-- The end of an interval of columns at some bytes: in front of everything that
starts with them, or behind it. -/
def edgeAt (b : Bytes) (behind : Bool) : Outcome Bytes := if behind then after b else .ok b

/-- Where the columns start and stop that meet constraints. -/
def limits (order : SortOrder) (head : Bytes) (l : Leading) : Outcome (Bytes × Bytes) := do
  match l.ends, order with
  | some e, .asc =>
      let start ← edgeAt (head ++ (l.sorted ++ e.first)) (!e.firstInclusive)
      let stop ← edgeAt (head ++ (l.sorted ++ e.last)) e.lastInclusive
      return (start, stop)
  | some e, .desc =>
      let stop ← edgeAt (head ++ Column.complement (l.sorted ++ e.first)) e.firstInclusive
      let start ← edgeAt (head ++ Column.complement (l.sorted ++ e.last)) (!e.lastInclusive)
      return (start, stop)
  | none, order =>
      let start := head ++ (Column.oriented order l.sorted ++ l.implicit)
      return (start, ← after start)

/-- The slice between two ends that may turn out the wrong way round. -/
def between (t : RelationType) (start stop : Bytes) : Outcome Slice :=
  if h : start ≤ stop then .ok ⟨start, stop, noLimit, h, noLimit_pos⟩
  else .error (.invalid (.invertedConstraints t.name))

/-- The relations of a type, in both directions at once. -/
def bothWays (t : RelationType) : Outcome Slice := do
  (Fault.invalid (.notReadBothWays t.name)).unless t.isLabel
  let start := Column.edgeByte :: Ordered.ofWord t.id
  Slice.between start (← after start)

/-- The relations of a type in a direction that meet constraints, which are given
in the order of the extended sort key. -/
def slice (types : TypeCatalog m) (t : RelationType) (d : Direction)
    (constraints : List (Option ComponentInterval)) : m Slice :=
  if d = .both then bothWays t
  else do
    (Fault.invalid (.notStoredIn t.name (Named.name d))).unless (t.isStoredIn d)
    let head ← Column.head t d
    let l ← leading types t.sortKey.length ⟨[], [], none⟩ constraints
    let (start, stop) ← limits t.sortOrder head l
    between t start stop

end TypeSlice

end PropertyGraph
