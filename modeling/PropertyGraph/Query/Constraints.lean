/-
# Query.Constraints -- conditions as intervals over sort components

The conditions of a query are sorted out before it is planned.  A condition that
says which values a key may have becomes an interval over that key, intersected
with what other conditions say of it; all of them are kept, to be checked where no
slice answers them.

* A condition on a key that the schema does not know is decided at once: either
  it holds of everything and is dropped, or nothing matches the query.
* The values of a condition must have the type of its key.
-/
import PropertyGraph.Query.Condition
import PropertyGraph.Query.Interval
import PropertyGraph.Schema.Catalog

namespace PropertyGraph

set_option autoImplicit false

/-- What the conditions of a query come to. -/
structure Constraints where
  /-- The conditions that still have to hold. -/
  kept : List Condition
  /-- What they say of single components. -/
  intervals : List (SortComponent × Interval)
  /-- Every kept condition became an interval. -/
  complete : Bool
  deriving DecidableEq

namespace Constraints

/-- No conditions yet. -/
def start : Constraints := ⟨[], [], true⟩

def interval? (c : Constraints) (component : SortComponent) : Option Interval :=
  c.intervals.lookup component

/-- Puts an interval in the place of its component. -/
def replace (component : SortComponent) (i : Interval) :
    List (SortComponent × Interval) → List (SortComponent × Interval)
  | [] => [(component, i)]
  | (other, j) :: rest =>
      if other = component then (component, i) :: rest
      else (other, j) :: replace component i rest

/-- Says something of a component on top of what was said before. -/
def restrict (c : Constraints) (component : SortComponent) (i : Interval) : Constraints :=
  let merged :=
    match c.interval? component with
    | some before => before.intersect i
    | none => i
  { c with intervals := replace component merged c.intervals }

/-- Keeps a condition and what it says of its key. -/
def keep (c : Constraints) (condition : Condition) (key : SchemaId) (i : Option Interval) :
    Constraints :=
  let c := { c with kept := c.kept ++ [condition] }
  match i with
  | some i => c.restrict (.key key) i
  | none => { c with complete := false }

/-- The values fit a key and a predicate. -/
def checkValues (t : RelationType) (expected : DataType) (predicate : Predicate) :
    List Value → Outcome Unit
  | [] => .ok ()
  | v :: rest => do
      (Fault.invalid (.valueAgainstKey v.shown t.name (Named.name expected))).unless
        (v.dataType == some expected)
      (Fault.invalid .textPredicateWithoutText).unless (!predicate.isWords || v.text?.isSome)
      checkValues t expected predicate rest

/-- The type is a property key that the values fit. -/
def checkKey (t : RelationType) (predicate : Predicate) (values : List Value) : Outcome Unit :=
  match t.dataType with
  | some expected => checkValues t expected predicate values
  | none => .error (.invalid (.notPropertyKey t.name))

/-- The test passes on elements that have no value for the key. -/
def holdsOfAbsent (predicate : Predicate) (value : Option Value) : Bool :=
  match predicate, value with
  | .compare .equal, none => true
  | .compare .notEqual, some _ => true
  | _, _ => false

/-- The interval that a test says its values lie in. -/
def intervalOf (predicate : Predicate) (value : Option Value) : Option Interval :=
  match predicate, value with
  | .compare c, some v => Interval.ofComparison c v
  | _, _ => none

variable {m : Type → Type} [Monad m] [MonadLiftT Outcome m]

/-- Adds one condition; without an answer nothing can match. -/
def addCondition (types : TypeCatalog m) (c : Constraints) (condition : Condition) :
    m (Option Constraints) :=
  match condition with
  | .has key predicate value => do
      match ← types.byName key with
      | none => return if holdsOfAbsent predicate value then some c else none
      | some t =>
          checkKey t predicate value.toList
          return some (c.keep condition t.id (intervalOf predicate value))
  | .anyOf key values => do
      match ← types.byName key with
      | none => return none
      | some t =>
          if values.isEmpty then return none
          else
            checkKey t (.compare .equal) values
            return some (c.keep condition t.id (some (Interval.ofList values)))
  | .labels _ => (Fault.invalid .labelCondition).refuse

/-- Adds conditions in turn; without an answer nothing can match. -/
def addAll (types : TypeCatalog m) : List Condition → Constraints → m (Option Constraints)
  | [], c => return some c
  | condition :: rest, c => do
      match ← addCondition types c condition with
      | some c => addAll types rest c
      | none => return none

/-- The other end is a given vertex. -/
def toVertex (c : Constraints) (adjacent : Option UInt64) : Constraints :=
  match adjacent with
  | some v => { c with intervals := replace .adjacent (.point (.id v)) c.intervals }
  | none => c

/-- What conditions and a vertex at the other end come to. -/
def compile (types : TypeCatalog m) (conditions : List Condition) (adjacent : Option UInt64) :
    m (Option Constraints) := do
  return (← addAll types conditions start).map fun c => c.toVertex adjacent

end Constraints

end PropertyGraph
