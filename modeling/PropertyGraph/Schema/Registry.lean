/-
# Schema.Registry -- the schema of one graph

A registry holds the schema vertices, by number and by name, and keeps the
relation types and indexes that were derived from them until they are
invalidated.

* Names are unique: `define` refuses a name that another vertex has.
* Derived objects have an identity of their own: a type that was derived again is
  another object even if it is equal, and an index that was handed out goes on
  living after it was invalidated.
* `Lookup` is a question to a registry.  It may keep what it derived on the way,
  also when it fails in the end.
-/
import PropertyGraph.Schema.Catalog
import PropertyGraph.Schema.GraphIndex

namespace PropertyGraph

set_option autoImplicit false

/-- A relation type as it was handed out: equal marks, same object. -/
structure TypeObject where
  mark : Nat
  type : RelationType
  deriving DecidableEq

structure Registry where
  /-- The schema vertices in ascending order of their numbers. -/
  vertices : List SchemaVertex
  /-- The relation types that are kept. -/
  types : List (SchemaId × TypeObject)
  /-- The next mark. -/
  nextMark : Nat
  /-- The indexes that are kept; an index object is known by its place. -/
  indexes : List (SchemaId × Nat)
  /-- Every index object ever made. -/
  objects : List GraphIndex
  deriving DecidableEq

/-- A question to a registry. -/
abbrev Lookup := ExceptT Fault (StateM Registry)

namespace Registry

def empty : Registry := ⟨[], [], 0, [], []⟩

def vertex? (r : Registry) (id : SchemaId) : Option SchemaVertex :=
  Sorted.find? SchemaVertex.id id r.vertices

/-- The vertex of a name. -/
def named? (r : Registry) (name : String) : Option SchemaVertex :=
  r.vertices.find? fun v => v.name == name

def idOf (r : Registry) (name : String) : Option SchemaId :=
  (r.named? name).map SchemaVertex.id

/-- The numbers of all vertices in ascending order. -/
def ids (r : Registry) : List SchemaId := r.vertices.map SchemaVertex.id

/-- Puts a vertex in its place, unless its name is taken by another one. -/
def insert (r : Registry) (v : SchemaVertex) : Outcome Registry :=
  match r.idOf v.name with
  | some owner =>
      if owner = v.id then .ok { r with vertices := Sorted.insert SchemaVertex.id v r.vertices }
      else .error (.invalid (.schemaNameTaken v.name owner))
  | none => .ok { r with vertices := Sorted.insert SchemaVertex.id v r.vertices }

/-- Forgets what was derived from a vertex. -/
def invalidate (r : Registry) (id : SchemaId) : Registry :=
  { r with
    indexes := r.indexes.filter fun kept => kept.1 != id
    types := r.types.filter fun kept => kept.1 != id && kept.2.type.base != some id }

/-- Adds or replaces a schema vertex. -/
def define (r : Registry) (v : SchemaVertex) : Outcome Registry := do
  return (← r.insert v).invalidate v.id

def addEdge (r : Registry) (id : SchemaId) (e : SchemaEdge) : Registry :=
  { r with vertices := r.vertices.map fun v => if v.id = id then v.addEdge e else v }

/-- Adds an edge, recorded at both ends. -/
def connect (r : Registry) (first last : SchemaId) (d : EdgeDescription) : Outcome Registry :=
  if (r.vertex? last).isNone || (r.vertex? first).isNone then
    .error (.notFound .schemaVertex)
  else
    let joined := (r.addEdge first ⟨last, .out, d⟩).addEdge last ⟨first, .into, d⟩
    .ok ((joined.invalidate first).invalidate last)

/-- Forgets every relation type, and what the kept indexes have derived. -/
def resetCaches (r : Registry) : Registry :=
  { r with
    types := []
    objects := r.indexes.foldl (fun objects kept => objects.modify kept.2 GraphIndex.reset)
      r.objects }

/-! ## Relation types -/

/-- Keeps a type that was derived. -/
def keepType (r : Registry) (id : SchemaId) (t : RelationType) : TypeObject × Registry :=
  (⟨r.nextMark, t⟩,
    { r with types := (id, ⟨r.nextMark, t⟩) :: r.types, nextMark := r.nextMark + 1 })

/-- The type that a relation index is over. -/
def indexedId (v : SchemaVertex) : Outcome SchemaId :=
  match (v.related .relationTypeIndex .into).head? with
  | some e => .ok e.other
  | none => .error (.schema (.noIndexedType v.name))

/-- The relation type of a number, through at most so many indexes. -/
def deriveType : Nat → SchemaId → Lookup TypeObject
  | 0, _ => throw (.notFound .relationType)
  | depth + 1, id => do
      let r ← get
      match r.types.lookup id with
      | some kept => return kept
      | none =>
          match r.vertex? id with
          | none => throw (.notFound .relationType)
          | some v =>
              let t ←
                if v.kind = .relationIndex then do
                  let base ← deriveType depth (← indexedId v)
                  RelationType.indexOfVertex v base.type
                else RelationType.ofVertex v
              modifyGet fun r => r.keepType id t

/-- The relation type of a number.  No chain of indexes over indexes is longer
than the schema. -/
def typeObject (id : SchemaId) : Lookup TypeObject := do
  deriveType ((← get).vertices.length + 1) id

def relationType (id : SchemaId) : Lookup RelationType := do return (← typeObject id).type

/-- The relation type of a name. -/
def typeNamed (name : String) : Lookup (Option RelationType) := do
  match (← get).named? name with
  | none => return none
  | some v => if v.kind.isRelationType then return some (← relationType v.id) else return none

/-- A type and the relation indexes over it, as objects. -/
def objectsWithIndexes (id : SchemaId) : Lookup (List TypeObject) := do
  match (← get).vertex? id with
  | none => throw (.notFound .relationType)
  | some v =>
      let self ← typeObject id
      let others ← (v.related .relationTypeIndex .out).mapM fun e => typeObject e.other
      return self :: others

def withIndexes (t : RelationType) : Lookup (List RelationType) := do
  return (← objectsWithIndexes t.id).map TypeObject.type

def catalog : TypeCatalog Lookup := ⟨relationType, typeNamed, withIndexes⟩

/-! ## Indexes -/

/-- The object of an index. -/
def indexObject (id : SchemaId) : Lookup Nat := do
  let r ← get
  match r.indexes.lookup id with
  | some place => return place
  | none =>
      match r.vertex? id with
      | none => throw (.notFound .index)
      | some v =>
          let index ← GraphIndex.ofVertex v
          set { r with
            indexes := (id, r.objects.length) :: r.indexes
            objects := r.objects ++ [index] }
          return r.objects.length

/-- The index of a name. -/
def indexNamed (name : String) : Lookup (Option Nat) := do
  match (← get).named? name with
  | none => return none
  | some v => if v.kind.isIndex then return some (← indexObject v.id) else return none

/-- Every index, in ascending order of the numbers. -/
def allIndexes : Lookup (List Nat) := do
  ((← get).vertices.filter fun v => v.kind.isIndex).mapM fun v => indexObject v.id

/-- Asks an index object a question for which it may need the schema. -/
def askIndex {α : Type} (place : Nat)
    (question : GraphIndex → (SchemaId → Option SchemaVertex) → Outcome α × GraphIndex) :
    Lookup α := do
  let r ← get
  match r.objects[place]? with
  | none => throw (.notFound .index)
  | some index =>
      let (answer, after) := question index r.vertex?
      set { r with objects := r.objects.set place after }
      answer

/-- The fields of an index object. -/
def fieldsOf (place : Nat) : Lookup (List IndexField) := askIndex place GraphIndex.fieldKeys

/-- The field of an index object that is about a key. -/
def fieldOf (place : Nat) (key : SchemaId) : Lookup (Option IndexField) :=
  askIndex place (GraphIndex.field key)

/-- The name of the label that an index object is restricted to. -/
def constraintOf (place : Nat) : Lookup (Option String) :=
  askIndex place GraphIndex.schemaConstraint

def cardinalityOf (place : Nat) : Lookup Cardinality := askIndex place fun i _ => i.cardinality

def consistencyOf (place : Nat) : Lookup Consistency := askIndex place fun i _ => i.consistency

def backingIndexOf (place : Nat) : Lookup String := askIndex place fun i _ => i.backingIndex

def storeNameOf (place : Nat) : Lookup String := askIndex place fun i _ => i.storeName

/-- Gives up what an index object has derived. -/
def resetIndex (r : Registry) (place : Nat) : Registry :=
  { r with objects := r.objects.modify place GraphIndex.reset }

end Registry

end PropertyGraph
