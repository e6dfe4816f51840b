/-
# Schema.RelationType -- property keys, edge labels and their relation indexes

A relation type says how the relations of a key or a label are stored: how many
of them may meet, what they are sorted by, and in which directions they are kept.
A relation index keeps the same relations in another order.

The extended sort key of a direction is what tells two columns of one type apart:
the sort key, then the ids that the multiplicity leaves open.
-/
import PropertyGraph.Schema.Vertex

namespace PropertyGraph

set_option autoImplicit false

/-- One component of what the columns of a type are sorted by. -/
inductive SortComponent where
  | key (id : SchemaId)
  /-- The vertex at the other end. -/
  | adjacent
  /-- The relation itself. -/
  | relation
  deriving DecidableEq

/-- The form of a component in messages. -/
def SortComponent.shown : SortComponent → String
  | .key id => "Key(SchemaId(" ++ toString id ++ "))"
  | .adjacent => "AdjacentId"
  | .relation => "RelationId"

inductive RelationKind where
  | property (dataType : DataType) (cardinality : Cardinality)
  | edge
  deriving DecidableEq

structure RelationType where
  id : SchemaId
  name : String
  kind : RelationKind
  multiplicity : Multiplicity
  sortKey : List SchemaId
  sortOrder : SortOrder
  /-- The only direction of an edge label, where there is one. -/
  onlyDirection : Option Direction
  status : Status
  invisible : Bool
  /-- The type whose relations an index keeps. -/
  base : Option SchemaId
  deriving DecidableEq

namespace RelationType

def isKey (t : RelationType) : Bool :=
  match t.kind with
  | .property _ _ => true
  | .edge => false

def isLabel (t : RelationType) : Bool := !t.isKey

def dataType (t : RelationType) : Option DataType :=
  match t.kind with
  | .property d _ => some d
  | .edge => none

def cardinality (t : RelationType) : Option Cardinality :=
  match t.kind with
  | .property _ c => some c
  | .edge => none

/-- The only direction that relations are stored in; properties leave their
vertex. -/
def unidirected (t : RelationType) : Option Direction :=
  if t.isKey then some .out else t.onlyDirection

def isStoredIn (t : RelationType) (d : Direction) : Bool := t.unidirected.all (· == d)

/-- The sort key and the ids that the multiplicity leaves open in a direction. -/
def extendedSortKey (t : RelationType) (d : Direction) : List SortComponent :=
  t.sortKey.map .key ++
    if t.multiplicity.isUnique d then []
    else
      (if t.isLabel then [.adjacent] else []) ++
        if t.multiplicity.isConstrained then [] else [.relation]

/-- A recorded direction restricts only if it is one of the two. -/
def restriction (recorded : Option Direction) : Option Direction :=
  recorded.filter Direction.isProper

/-- The kind and multiplicity of a key. -/
def keyKind (d : Definition) : Outcome (RelationKind × Multiplicity) := do
  let recorded ←
    d.requireOr .multiplicity .manyToOne fun | .multiplicity v => some v | _ => none
  let cardinality := recorded.cardinality
  return (.property (← d.dataType) cardinality, Multiplicity.ofCardinality cardinality)

/-- The kind and multiplicity of a label. -/
def labelKind (d : Definition) : Outcome (RelationKind × Multiplicity) := do
  return (.edge, ← d.requireOr .multiplicity .multi fun | .multiplicity v => some v | _ => none)

/-- The type that a schema vertex defines. -/
def ofVertex (v : SchemaVertex) : Outcome RelationType := do
  let d := v.definition
  let (kind, multiplicity) ←
    match v.kind with
    | .propertyKey => keyKind d
    | .edgeLabel => labelKind d
    | other => .error (.schema (.notRelationType v.name (Named.name other)))
  let onlyDirection := restriction d.unidirected
  if onlyDirection.isSome && v.kind == .propertyKey then
    .error (.schema (.unidirectedKey v.name))
  return {
    id := v.id
    name := v.name
    kind
    multiplicity
    sortKey := ← d.sortKey
    sortOrder := d.sortOrder
    onlyDirection
    status := ← v.status
    invisible := d.flag .invisible
    base := none }

/-- The index over a type that a schema vertex defines.  Kind and multiplicity
are those of the type; sort key, order and status are its own, and so is the
direction if it has one. -/
def indexOfVertex (v : SchemaVertex) (base : RelationType) : Outcome RelationType := do
  if v.kind != .relationIndex then .error (.schema (.notRelationIndex v.name))
  let d := v.definition
  return {
    id := v.id
    name := v.name
    kind := base.kind
    multiplicity := base.multiplicity
    sortKey := ← d.sortKey
    sortOrder := d.sortOrder
    onlyDirection := (restriction d.unidirected).or base.onlyDirection
    status := ← v.status
    invisible := true
    base := some base.id }

end RelationType

end PropertyGraph
