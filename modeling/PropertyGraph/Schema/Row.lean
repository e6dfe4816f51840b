/-
# Schema.Row -- schema vertices as rows

A schema vertex is a row under its number, most significant byte first:

    01                             name and kind
    02 category                    the value of a definition
    03 direction other category    the parameters of an edge

How categories and values are written is left to a codec (`RowCodec`), of which a row
relies on one thing: what was written is read as what it was (`RowCodec.Faithful`).
A row without the first column is no schema vertex.
-/
import PropertyGraph.Bytes.Cursor
import PropertyGraph.Schema.Vertex
import PropertyGraph.Store.Slice

namespace PropertyGraph

set_option autoImplicit false

/-- How values of a type are written as bytes, which never fails for the types of a row,
and read again. -/
structure ValueCodec (α : Type) where
  write : α → Bytes
  read? : Bytes → Option α

/-- Values are read as what they were when they were written. -/
def ValueCodec.Faithful {α : Type} (codec : ValueCodec α) : Prop :=
  ∀ a, codec.read? (codec.write a) = some a

/-- The codecs of the types of which a row holds values. -/
class RowCodec where
  header : ValueCodec (String × VertexKind)
  category : ValueCodec Category
  definition : ValueCodec DefinitionValue
  modifier : ValueCodec (List Parameter)

/-- All of them read what they write. -/
class RowCodec.Faithful [RowCodec] : Prop where
  header : RowCodec.header.Faithful
  category : RowCodec.category.Faithful
  definition : RowCodec.definition.Faithful
  modifier : RowCodec.modifier.Faithful

namespace SchemaRow

def headerByte : UInt8 := 1

def definitionByte : UInt8 := 2

def edgeByte : UInt8 := 3

/-- The key of the row of a schema vertex. -/
def key (id : SchemaId) : Bytes := Ordered.ofWord id

/-- Every column of a schema vertex. -/
def slice : Slice := ⟨[1], [4], noLimit, by decide, noLimit_pos⟩

/-- The byte of the direction of an edge. -/
def directionByte : Direction → Outcome UInt8
  | .out => .ok 0
  | .into => .ok 1
  | .both => .error (.invalid .undirectedSchemaEdge)

variable [RowCodec]

/-- The entry of the name and the kind. -/
def header (v : SchemaVertex) : Entry where
  column := [headerByte]
  value := RowCodec.header.write (v.name, v.kind)

/-- The entry of a value of the definition. -/
def definitionEntry (e : Category × DefinitionValue) : Entry where
  column := definitionByte :: RowCodec.category.write e.1
  value := RowCodec.definition.write e.2

/-- The column of an edge. -/
def edgeColumn (direction : UInt8) (e : SchemaEdge) : Bytes :=
  edgeByte :: direction ::
    (Ordered.ofWord e.other ++ RowCodec.category.write e.description.category)

/-- The entry of an edge. -/
def edgeEntry (e : SchemaEdge) : Outcome Entry := do
  let direction ← directionByte e.direction
  return {
    column := edgeColumn direction e
    value := RowCodec.modifier.write e.description.modifier }

/-- The entries of a schema vertex. -/
def encode (v : SchemaVertex) : Outcome (List Entry) := do
  let edges ← v.edges.mapM edgeEntry
  return header v :: (v.definition.entries.map definitionEntry ++ edges)

/-- What is known of a vertex while its row is read. -/
structure Reading where
  header : Option (String × VertexKind)
  definition : Definition
  edges : List SchemaEdge
  deriving DecidableEq

/-- A value in a row. -/
def decoded {α : Type} (codec : ValueCodec α) (b : Bytes) : Outcome α :=
  match codec.read? b with
  | some a => .ok a
  | none => .error (.schema .undecodable)

/-- The direction that a byte stands for. -/
def direction (b : UInt8) : Outcome Direction :=
  if b = 0 then .ok .out
  else if b = 1 then .ok .into
  else .error (.corrupt .schemaEdgeDirection)

/-- Takes one entry of a row. -/
def readEntry (r : Reading) (e : Entry) : Outcome Reading := do
  let (kind, c) ← (Cursor.start e.column).takeByte
  if kind = headerByte then
    return { r with header := some (← decoded RowCodec.header e.value) }
  else if kind = definitionByte then
    let category ← decoded RowCodec.category c.rest
    let value ← decoded RowCodec.definition e.value
    return { r with definition := ← r.definition.set category value }
  else if kind = edgeByte then
    let (byte, c) ← c.takeByte
    let direction ← direction byte
    let (other, c) ← c.takeWord
    let category ← decoded RowCodec.category c.rest
    let modifier ← decoded RowCodec.modifier e.value
    let description ← EdgeDescription.create category modifier
    return { r with edges := r.edges ++ [⟨other, direction, description⟩] }
  else (Fault.corrupt .unknownSchemaColumn).refuse

/-- The schema vertex of a row, if the row has the first column. -/
def decode (id : SchemaId) (entries : List Entry) : Outcome (Option SchemaVertex) := do
  let r ← entries.foldlM readEntry ⟨none, .empty, []⟩
  return r.header.map fun (name, kind) => ⟨id, name, kind, r.definition, r.edges⟩

end SchemaRow

end PropertyGraph
