/-
# Schema.GraphIndex -- composite and mixed indexes over a graph

An index object wraps its schema vertex as it was when the object was made.  What
it derives, from that vertex and from others, is computed on first use and kept until
the object is reset: its fields in their order and by their keys, the label it is
restricted to, and what its kind of index has besides (`IndexSlots`).

The fields of an index stand at the positions that its edges give them
(`fieldsOf`): every position below their number is taken exactly once.
-/
import PropertyGraph.Schema.LazySlot
import PropertyGraph.Schema.RelationType

namespace PropertyGraph

set_option autoImplicit false

/-- How a mixed index treats a field. -/
structure FieldAnalysis where
  mapping : Mapping
  parameters : List Parameter
  deriving DecidableEq

/-- A property key that takes part in an index. -/
structure IndexField where
  key : RelationType
  status : Status
  /-- Only fields of mixed indexes are analysed. -/
  analysis : Option FieldAnalysis
  deriving DecidableEq

/-- What an index object has derived so far. -/
structure IndexSlots where
  fields : LazySlot (List IndexField)
  /-- The fields by their keys; of several under one key the last counts. -/
  byKey : LazySlot (List (SchemaId × IndexField))
  label : LazySlot (Option String)
  /-- Of a composite index. -/
  cardinality : LazySlot Cardinality
  consistency : LazySlot Consistency
  /-- Of a mixed index. -/
  backing : LazySlot String
  store : LazySlot String
  deriving DecidableEq

namespace IndexSlots

def empty : IndexSlots := ⟨.empty, .empty, .empty, .empty, .empty, .empty, .empty⟩

/-- Gives up whatever was derived. -/
def reset (s : IndexSlots) : IndexSlots where
  fields := s.fields.reset
  byKey := s.byKey.reset
  label := s.label.reset
  cardinality := s.cardinality.reset
  consistency := s.consistency.reset
  backing := s.backing.reset
  store := s.store.reset

end IndexSlots

structure GraphIndex where
  /-- The schema vertex as it was when this object was made. -/
  vertex : SchemaVertex
  slots : IndexSlots
  deriving DecidableEq

namespace GraphIndex

/-- The index of a schema vertex. -/
def ofVertex (v : SchemaVertex) : Outcome GraphIndex :=
  if v.kind.isIndex then .ok ⟨v, .empty⟩
  else .error (.schema (.notIndex v.name (Named.name v.kind)))

def id (i : GraphIndex) : SchemaId := i.vertex.id

def name (i : GraphIndex) : String := i.vertex.name

def isMixed (i : GraphIndex) : Bool := i.vertex.kind == .mixedIndex

def isComposite (i : GraphIndex) : Bool := !i.isMixed

/-- The form of an index in messages. -/
def shown (i : GraphIndex) : String :=
  "IndexType \x7b kind: \"" ++ (if i.isComposite then "Composite" else "Mixed") ++
    "\", id: SchemaId(" ++ toString i.id ++ "), name: " ++ Text.quoted i.name ++ " \x7d"

def status (i : GraphIndex) : Outcome Status := i.vertex.status

def element (i : GraphIndex) : Outcome Element := i.vertex.definition.element

/-- The property key that a field edge leads to. -/
def fieldKey (index : SchemaVertex) (vertexOf : SchemaId → Option SchemaVertex) (id : SchemaId) :
    Outcome RelationType :=
  match vertexOf id with
  | none => .error (.schema (.unknownField index.name id))
  | some v => do
      let key ← RelationType.ofVertex v
      if key.isKey then return key else .error (.schema (.fieldNotKey index.name key.name))

/-- The place that a field edge asks for among so many. -/
def placeOf (index : SchemaVertex) (count : Nat) (e : SchemaEdge) : Outcome (Int64 × Nat) := do
  match ← e.description.position with
  | none => .error (.schema (.fieldWithoutPosition index.name e.other))
  | some position =>
      if 0 ≤ position.toInt ∧ position.toInt < count then
        return (position, position.toInt.toNat)
      else .error (.schema (.positionOutside index.name position.toInt count))

/-- The analysis of a field that an edge describes. -/
def analysisOf (index : SchemaVertex) (e : SchemaEdge) : Outcome (Option FieldAnalysis) := do
  if index.kind = .mixedIndex then
    return some ⟨← e.description.mapping, e.description.modifier⟩
  else return none

/-- Puts the field of an edge in its place. -/
def placeField (index : SchemaVertex) (vertexOf : SchemaId → Option SchemaVertex)
    (places : List (Option IndexField)) (e : SchemaEdge) : Outcome (List (Option IndexField)) := do
  let (position, place) ← placeOf index places.length e
  if (places[place]?.join).isSome then
    .error (.schema (.duplicatePosition index.name position.toInt))
  let key ← fieldKey index vertexOf e.other
  let status ← e.description.fieldStatus
  let analysis ← analysisOf index e
  return places.set place (some ⟨key, status, analysis⟩)

/-- All places from one on, which must be taken. -/
def takenPlaces (index : SchemaVertex) : Nat → List (Option IndexField) → Outcome (List IndexField)
  | _, [] => .ok []
  | place, none :: _ => .error (.schema (.missingPosition index.name place))
  | place, some field :: rest => do
      let fields ← takenPlaces index (place + 1) rest
      return field :: fields

/-- The fields of an index in the order of their positions. -/
def fieldsOf (index : SchemaVertex) (vertexOf : SchemaId → Option SchemaVertex) :
    Outcome (List IndexField) := do
  let edges := index.related .indexField .out
  let places ← edges.foldlM (placeField index vertexOf) (List.replicate edges.length none)
  takenPlaces index 0 places

/-- The name of the label that an index is restricted to. -/
def constraintOf (index : SchemaVertex) (vertexOf : SchemaId → Option SchemaVertex) :
    Outcome (Option String) :=
  match index.related .indexSchemaConstraint .out with
  | [] => .ok none
  | [e] =>
      match vertexOf e.other with
      | some target => .ok (some target.name)
      | none => .error (.schema (.unknownConstraint index.name e.other))
  | _ => .error (.schema (.manyConstraints index.name))

/-- The fields of an index by their keys, the last one first. -/
def keyed (fields : List IndexField) : List (SchemaId × IndexField) :=
  fields.reverse.map fun f => (f.key.id, f)

/-- How many elements one combination of values may lead to. -/
def cardinalityOf (index : SchemaVertex) : Outcome Cardinality :=
  index.definition.requireOr .indexCardinality .list fun | .cardinality v => some v | _ => none

/-! ## What is derived on first use

Each question is answered by what is kept, or else by what the schema vertices give now,
which is kept from then on. -/

def fieldKeys (i : GraphIndex) (vertexOf : SchemaId → Option SchemaVertex) :
    Outcome (List IndexField) × GraphIndex :=
  let (answer, fields) := i.slots.fields.getOrInit (fieldsOf i.vertex vertexOf)
  (answer, { i with slots := { i.slots with fields } })

/-- The fields by their keys; where these are not kept, the fields are asked for. -/
def fieldsByKey (i : GraphIndex) (vertexOf : SchemaId → Option SchemaVertex) :
    Outcome (List (SchemaId × IndexField)) × GraphIndex :=
  let (answer, (byKey, fields)) := i.slots.byKey.getOrInitWith
    (fun (byKey, fields) =>
      let (found, fields) := fields.getOrInit (fieldsOf i.vertex vertexOf)
      (found.map keyed, (byKey, fields)))
    i.slots.fields
  (answer, { i with slots := { i.slots with byKey, fields } })

/-- The field of a key. -/
def field (key : SchemaId) (i : GraphIndex) (vertexOf : SchemaId → Option SchemaVertex) :
    Outcome (Option IndexField) × GraphIndex :=
  let (answer, i) := i.fieldsByKey vertexOf
  (answer.map fun fields => fields.lookup key, i)

def schemaConstraint (i : GraphIndex) (vertexOf : SchemaId → Option SchemaVertex) :
    Outcome (Option String) × GraphIndex :=
  let (answer, label) := i.slots.label.getOrInit (constraintOf i.vertex vertexOf)
  (answer, { i with slots := { i.slots with label } })

def cardinality (i : GraphIndex) : Outcome Cardinality × GraphIndex :=
  let (answer, cardinality) := i.slots.cardinality.getOrInit (cardinalityOf i.vertex)
  (answer, { i with slots := { i.slots with cardinality } })

def consistency (i : GraphIndex) : Outcome Consistency × GraphIndex :=
  let (answer, consistency) := i.slots.consistency.getOrInit (.ok i.vertex.definition.consistency)
  (answer, { i with slots := { i.slots with consistency } })

/-- The name of the external index that a mixed index is served by. -/
def backingIndex (i : GraphIndex) : Outcome String × GraphIndex :=
  let (answer, backing) := i.slots.backing.getOrInit i.vertex.definition.backingIndex
  (answer, { i with slots := { i.slots with backing } })

/-- The name of a mixed index within the external one. -/
def storeName (i : GraphIndex) : Outcome String × GraphIndex :=
  let (answer, store) := i.slots.store.getOrInit i.vertex.definition.storeName
  (answer, { i with slots := { i.slots with store } })

/-- Gives up what was derived. -/
def reset (i : GraphIndex) : GraphIndex := { i with slots := i.slots.reset }

end GraphIndex

end PropertyGraph
