/-
# Relation.Column -- relations as entries of a vertex's row

The column of a relation is

    category, type id, direction, sort values, implicit ids

where the category is one byte for properties and another for edges.  The sort
values of a descending type are complemented, so that its columns run backward.
The ids that the multiplicity leaves open follow in the column, and whatever does
not tell columns apart is written into the value of the entry.

`write` makes the entry of a relation and `parse` reads it; both look the types of
the sort keys up in a catalog.
-/
import PropertyGraph.Relation.Basic
import PropertyGraph.Relation.StoredValue
import PropertyGraph.Schema.Catalog
import PropertyGraph.Store.Entry

namespace PropertyGraph.Column

set_option autoImplicit false

/-- The first byte of the columns of properties. -/
def propertyByte : UInt8 := 0x10

/-- The first byte of the columns of edges. -/
def edgeByte : UInt8 := 0x20

/-- Every bit of every byte turned around. -/
def complement (b : Bytes) : Bytes := b.map fun x => ~~~x

/-- Bytes as they stand in the columns of a type of this order. -/
def oriented (order : SortOrder) (b : Bytes) : Bytes :=
  match order with
  | .asc => b
  | .desc => complement b

theorem complement_complement (b : Bytes) : complement (complement b) = b := by
  induction b with
  | nil => rfl
  | cons x rest ih => simpa [complement] using ih

theorem oriented_oriented (order : SortOrder) (b : Bytes) :
    oriented order (oriented order b) = b := by
  cases order
  · rfl
  · exact complement_complement b

/-- The byte of the category of a type. -/
def categoryByte (t : RelationType) : UInt8 := if t.isKey then propertyByte else edgeByte

/-- What all columns of a type in a direction start with. -/
def head (t : RelationType) (d : Direction) : Outcome Bytes :=
  match t.isKey, d with
  | _, .out => .ok (categoryByte t :: (Ordered.ofWord t.id ++ [0]))
  | false, .into => .ok (categoryByte t :: (Ordered.ofWord t.id ++ [1]))
  | _, _ => .error (.invalid (.noColumnHead t.name (Named.name d)))

variable {m : Type → Type} [Monad m] [MonadLiftT Outcome m]

/-- The sort values in a row. -/
def writeSorted (types : TypeCatalog m) : List (SchemaId × Value) → m Bytes
  | [] => return []
  | (key, v) :: rest => do
      let expected ← types.componentType (.key key)
      let b ← StoredValue.write v expected
      return b ++ (← writeSorted types rest)

/-- The end of the column and the value of the entry. -/
def writeTarget (t : RelationType) (r : Relation) : Outcome (Bytes × Bytes) :=
  match r.target, t.kind with
  | .vertex adjacent, .edge =>
      let adjacent := Ordered.ofWord adjacent
      let id := Ordered.ofWord r.id
      let unique := t.multiplicity.isUnique r.direction
      let constrained := t.multiplicity.isConstrained
      .ok ((if unique then [] else adjacent) ++ (if constrained then [] else id),
        (if unique then adjacent else []) ++ (if constrained then id else []))
  | .value v, .property d cardinality => do
      let b ← StoredValue.write v (some d)
      let id := Ordered.ofWord r.id
      match cardinality with
      | .single => return ([], b ++ id)
      | .set => return (b, id)
      | .list => return (id, b)
  | _, _ => .error (.invalid (.targetMismatch t.name))

/-- The entry of a relation in the row of the vertex that it is seen from. -/
def write (types : TypeCatalog m) (t : RelationType) (r : Relation) : m Entry := do
  (Fault.invalid .improperDirection).unless r.direction.isProper
  (Fault.invalid (.notStoredIn t.name (Named.name r.direction))).unless (t.isStoredIn r.direction)
  (Fault.invalid (.sortKeyArity t.name t.sortKey.length r.sortValues.length)).unless
    (r.sortValues.length == t.sortKey.length)
  let start ← head t r.direction
  let sorted ← writeSorted types (t.sortKey.zip r.sortValues)
  let (tail, value) ← writeTarget t r
  return { column := start ++ (oriented t.sortOrder sorted ++ tail), value }

/-- The sort values at the front. -/
def readSorted (types : TypeCatalog m) : List SchemaId → Cursor → m (List Value × Cursor)
  | [], c => return ([], c)
  | key :: rest, c => do
      let expected ← types.componentType (.key key)
      let (v, c) ← StoredValue.read c expected
      let (values, c) ← readSorted types rest c
      return (v :: values, c)

/-- The target and the id of a relation, from what follows the sort values in the
column and from the value of the entry. -/
def readTarget (t : RelationType) (d : Direction) (column value : Cursor) :
    Outcome (RelationTarget × UInt64) :=
  match t.kind with
  | .edge => do
      let unique := t.multiplicity.isUnique d
      let (adjacent, rest) ← (if unique then value else column).takeWord
      let column := if unique then column else rest
      let value := if unique then rest else value
      let (id, _) ← (if t.multiplicity.isConstrained then value else column).takeWord
      return (.vertex adjacent, id)
  | .property d .single => do
      let (v, rest) ← StoredValue.read value (some d)
      let (id, _) ← rest.takeWord
      return (.value v, id)
  | .property d .set => do
      let (v, _) ← StoredValue.read column (some d)
      let (id, _) ← value.takeWord
      return (.value v, id)
  | .property d .list => do
      let (id, _) ← column.takeWord
      let (v, _) ← StoredValue.read value (some d)
      return (.value v, id)

/-- The direction that a byte stands for. -/
def direction (b : UInt8) : Outcome Direction :=
  if b = 0 then .ok .out
  else if b = 1 then .ok .into
  else .error (.corrupt .relationDirection)

/-- The relation of an entry. -/
def parse (types : TypeCatalog m) (e : Entry) : m Relation := do
  let (category, c) ← (Cursor.start e.column).takeByte
  let (id, c) ← c.takeWord
  let (byte, c) ← c.takeByte
  let d ← direction byte
  let t ← types.byId id
  (Fault.corrupt .relationCategory).unless (category == categoryByte t)
  let plain := oriented t.sortOrder c.rest
  let (sortValues, rest) ← readSorted types t.sortKey (Cursor.start plain)
  let (_, c) ← c.take (plain.length - rest.rest.length)
  let (target, relation) ← readTarget t d c (Cursor.start e.value)
  return { id := relation, typeId := id, direction := d, target, sortValues }

end PropertyGraph.Column
