/-
# Schema.Vertex -- the vertices of a schema

A schema vertex has a number, a name, a kind, a definition and its edges to other
schema vertices, each edge seen from this vertex.
-/
import PropertyGraph.Schema.Definition

namespace PropertyGraph

set_option autoImplicit false

/-- An edge to another schema vertex, seen from one end; `out` at the vertex that
it starts from. -/
structure SchemaEdge where
  other : SchemaId
  direction : Direction
  description : EdgeDescription
  deriving DecidableEq

structure SchemaVertex where
  id : SchemaId
  name : String
  kind : VertexKind
  definition : Definition
  edges : List SchemaEdge
  deriving DecidableEq

namespace SchemaVertex

/-- The edges of a category that a direction covers. -/
def related (v : SchemaVertex) (c : Category) (d : Direction) : List SchemaEdge :=
  v.edges.filter fun e => e.description.category == c && d.covers e.direction

/-- The recorded status; an element without one is enabled. -/
def status (v : SchemaVertex) : Outcome Status :=
  v.definition.requireOr .status .enabled fun | .status s => some s | _ => none

def addEdge (v : SchemaVertex) (e : SchemaEdge) : SchemaVertex :=
  { v with edges := v.edges ++ [e] }

end SchemaVertex

end PropertyGraph
