/-
# Relation.Basic -- edges and properties

A relation joins a vertex to another vertex, as an edge, or to a value, as a
property, and has values for the keys that its type is sorted by.
-/
import PropertyGraph.Query.Value
import PropertyGraph.Schema.Definition

namespace PropertyGraph

set_option autoImplicit false

/-- The other end of a relation. -/
inductive RelationTarget where
  | vertex (id : UInt64)
  | value (v : Value)
  deriving DecidableEq

/-- A relation as seen from one of its vertices. -/
structure Relation where
  id : UInt64
  typeId : SchemaId
  direction : Direction
  target : RelationTarget
  /-- Values of the sort key of the type, in its order. -/
  sortValues : List Value
  deriving DecidableEq

end PropertyGraph
