/-
# Schema.Vocabulary -- the words that a schema is written in

Each vocabulary is a finite type whose members have names; `Named.ofName?` finds
the member of a name and is inverse to `Named.name` (`Named.ofName?_name`,
`Named.name_of_ofName?`).  The names appear in stored schema rows and in
messages.
-/
import PropertyGraph.Fault

namespace PropertyGraph

set_option autoImplicit false

/-- A finite type whose members have names of their own. -/
class Named (α : Type) where
  /-- The members in order. -/
  members : List α
  name : α → String
  /-- Each member is the first of its name. -/
  found : ∀ a, members.find? (fun b => name b == name a) = some a

namespace Named

variable {α : Type} [Named α]

/-- The member of a name. -/
def ofName? (s : String) : Option α := (members : List α).find? fun a => name a == s

theorem ofName?_name (a : α) : ofName? (name a) = some a := found a

theorem name_of_ofName? {s : String} {a : α} (read : ofName? s = some a) : name a = s := by
  simpa using List.find?_some read

end Named

/-- Where a relation points, seen from one of its vertices. -/
inductive Direction where
  | out
  | into
  | both
  deriving DecidableEq

namespace Direction

instance : Named Direction where
  members := [.out, .into, .both]
  name
    | .out => "Out"
    | .into => "In"
    | .both => "Both"
  found a := by cases a <;> decide

/-- The directions a stored relation can have. -/
def proper : List Direction := [.out, .into]

def isProper (d : Direction) : Bool := d != .both

def opposite : Direction → Direction
  | .out => .into
  | .into => .out
  | .both => .both

/-- Reading in a direction also finds what is stored in the other one. -/
def covers (d stored : Direction) : Bool := d == .both || d == stored

theorem isProper_iff (d : Direction) : d.isProper = true ↔ d ∈ proper := by
  cases d <;> decide

end Direction

/-- The life of a schema element. -/
inductive Status where
  | installed
  | registered
  | enabled
  | disabled
  | discarded
  deriving DecidableEq

namespace Status

instance : Named Status where
  members := [.installed, .registered, .enabled, .disabled, .discarded]
  name
    | .installed => "Installed"
    | .registered => "Registered"
    | .enabled => "Enabled"
    | .disabled => "Disabled"
    | .discarded => "Discarded"
  found a := by cases a <;> decide

/-- No change of the element is under way. -/
def isStable (s : Status) : Bool := s == .enabled || s == .disabled

end Status

/-- How many values of a key one vertex may hold. -/
inductive Cardinality where
  | single
  | list
  | set
  deriving DecidableEq

instance : Named Cardinality where
  members := [.single, .list, .set]
  name
    | .single => "Single"
    | .list => "List"
    | .set => "Set"
  found a := by cases a <;> decide

/-- How many relations of a type may meet at a vertex. -/
inductive Multiplicity where
  /-- Any number between the same two vertices. -/
  | multi
  /-- One between the same two vertices. -/
  | simple
  /-- One leaving each vertex. -/
  | manyToOne
  /-- One entering each vertex. -/
  | oneToMany
  | oneToOne
  deriving DecidableEq

namespace Multiplicity

instance : Named Multiplicity where
  members := [.multi, .simple, .manyToOne, .oneToMany, .oneToOne]
  name
    | .multi => "Multi"
    | .simple => "Simple"
    | .manyToOne => "Many2One"
    | .oneToMany => "One2Many"
    | .oneToOne => "One2One"
  found a := by cases a <;> decide

def isConstrained (m : Multiplicity) : Bool := m != .multi

/-- A vertex holds at most one such relation in the direction. -/
def isUnique (m : Multiplicity) : Direction → Bool
  | .out => m == .manyToOne || m == .oneToOne
  | .into => m == .oneToMany || m == .oneToOne
  | .both => m == .oneToOne

/-- The cardinality of a key whose properties have this multiplicity. -/
def cardinality : Multiplicity → Cardinality
  | .multi => .list
  | .simple => .set
  | _ => .single

/-- The multiplicity of the properties of a key. -/
def ofCardinality : Cardinality → Multiplicity
  | .single => .manyToOne
  | .set => .simple
  | .list => .multi

theorem cardinality_ofCardinality (c : Cardinality) : (ofCardinality c).cardinality = c := by
  cases c <;> rfl

end Multiplicity

inductive SortOrder where
  | asc
  | desc
  deriving DecidableEq

instance : Named SortOrder where
  members := [.asc, .desc]
  name
    | .asc => "Asc"
    | .desc => "Desc"
  found a := by cases a <;> decide

/-- The type of the values of a property key. -/
inductive DataType where
  | boolean
  | long
  | double
  | text
  deriving DecidableEq

instance : Named DataType where
  members := [.boolean, .long, .double, .text]
  name
    | .boolean => "Boolean"
    | .long => "Long"
    | .double => "Double"
    | .text => "Text"
  found a := by cases a <;> decide

/-- What writers of the same element do about each other. -/
inductive Consistency where
  | standard
  | lock
  | fork
  deriving DecidableEq

instance : Named Consistency where
  members := [.standard, .lock, .fork]
  name
    | .standard => "Default"
    | .lock => "Lock"
    | .fork => "Fork"
  found a := by cases a <;> decide

/-- How a mixed index analyses a field. -/
inductive Mapping where
  | standard
  | text
  | string
  | textString
  deriving DecidableEq

namespace Mapping

instance : Named Mapping where
  members := [.standard, .text, .string, .textString]
  name
    | .standard => "Default"
    | .text => "Text"
    | .string => "String"
    | .textString => "TextString"
  found a := by cases a <;> decide

/-- The field is searched by its words. -/
def supportsText (m : Mapping) : Bool := m == .text || m == .textString

end Mapping

/-- The kind of graph element that an index is about. -/
inductive Element where
  | vertex
  | edge
  | property
  deriving DecidableEq

instance : Named Element where
  members := [.vertex, .edge, .property]
  name
    | .vertex => "Vertex"
    | .edge => "Edge"
    | .property => "Property"
  found a := by cases a <;> decide

/-- What a schema vertex defines. -/
inductive VertexKind where
  | propertyKey
  | edgeLabel
  | vertexLabel
  | relationIndex
  | compositeIndex
  | mixedIndex
  deriving DecidableEq

namespace VertexKind

instance : Named VertexKind where
  members := [.propertyKey, .edgeLabel, .vertexLabel, .relationIndex, .compositeIndex, .mixedIndex]
  name
    | .propertyKey => "PropertyKey"
    | .edgeLabel => "EdgeLabel"
    | .vertexLabel => "VertexLabel"
    | .relationIndex => "RelationIndex"
    | .compositeIndex => "CompositeIndex"
    | .mixedIndex => "MixedIndex"
  found a := by cases a <;> decide

def isRelationType (k : VertexKind) : Bool :=
  k == .propertyKey || k == .edgeLabel || k == .relationIndex

def isIndex (k : VertexKind) : Bool := k == .compositeIndex || k == .mixedIndex

end VertexKind

/-- What an entry of a definition, or an edge between schema vertices, is about. -/
inductive Category where
  | invisible
  | sortKey
  | sortOrder
  | signature
  | multiplicity
  | dataType
  | unidirected
  | status
  | internalIndex
  | backingIndex
  | indexStoreName
  | indexCardinality
  | elementCategory
  | consistencyModifier
  | ttl
  /-- From a relation type to one of its relation indexes. -/
  | relationTypeIndex
  /-- From an index to one of its field keys. -/
  | indexField
  /-- From an index to the label it is restricted to. -/
  | indexSchemaConstraint
  /-- From a relation type to a modifier. -/
  | typeModifier
  deriving DecidableEq

namespace Category

instance : Named Category where
  members := [.invisible, .sortKey, .sortOrder, .signature, .multiplicity, .dataType,
    .unidirected, .status, .internalIndex, .backingIndex, .indexStoreName, .indexCardinality,
    .elementCategory, .consistencyModifier, .ttl, .relationTypeIndex, .indexField,
    .indexSchemaConstraint, .typeModifier]
  name
    | .invisible => "Invisible"
    | .sortKey => "SortKey"
    | .sortOrder => "SortOrder"
    | .signature => "Signature"
    | .multiplicity => "Multiplicity"
    | .dataType => "DataType"
    | .unidirected => "Unidirected"
    | .status => "Status"
    | .internalIndex => "InternalIndex"
    | .backingIndex => "BackingIndex"
    | .indexStoreName => "IndexStoreName"
    | .indexCardinality => "IndexCardinality"
    | .elementCategory => "ElementCategory"
    | .consistencyModifier => "ConsistencyModifier"
    | .ttl => "Ttl"
    | .relationTypeIndex => "RelationTypeIndex"
    | .indexField => "IndexField"
    | .indexSchemaConstraint => "IndexSchemaConstraint"
    | .typeModifier => "TypeModifier"
  found a := by cases a <;> decide

/-- The category is recorded by edges, not by entries of a definition. -/
def isEdge (c : Category) : Bool :=
  c == .relationTypeIndex || c == .indexField || c == .indexSchemaConstraint ||
    c == .typeModifier

/-- The place of a category among all. -/
def rank (c : Category) : Nat := c.ctorIdx

instance : Ord Category := ⟨compareOn rank⟩

instance : Std.TransOrd Category := inferInstanceAs (Std.TransCmp (compareOn rank))

end Category

/-- The relations that a query asks for. -/
inductive RelationCategory where
  | edge
  | property
  | relation
  deriving DecidableEq

instance : Named RelationCategory where
  members := [.edge, .property, .relation]
  name
    | .edge => "Edge"
    | .property => "Property"
    | .relation => "Relation"
  found a := by cases a <;> decide

end PropertyGraph
