/-
# Schema.Form -- schema values in JSON

The values of definitions and parameters are tagged with the name of their
variant.  Vocabularies are written by name and numbers as numbers.  Reading checks
the shape alone: a definition may come to hold a value that its category would not
accept.
-/
import PropertyGraph.Json.Shape
import PropertyGraph.Schema.Vertex

namespace PropertyGraph

set_option autoImplicit false

/-- A number as a JSON value. -/
def Json.ofWord (v : UInt64) : Json := .int v.toNat

theorem Json.word?_ofWord (v : UInt64) : (ofWord v).word? = some v := by
  have := v.toNat_lt
  have inside : 0 ≤ (v.toNat : Int) ∧ (v.toNat : Int) < 0x10000000000000000 := by omega
  simp only [ofWord, word?, if_pos inside, Int.toNat_natCast, UInt64.ofNat_toNat]

/-- A value with the name of its variant. -/
def Json.tag (kind : String) (content : Json) : Json :=
  .record [("kind", .ofText kind), ("value", content)]

/-- The name of a variant and its content. -/
def Json.untag? (j : Json) : Option (String × Json) := j.tagged? "kind" "value"

namespace DefinitionValue

def content : DefinitionValue → Json
  | .bool v => .bool v
  | .ids v => .list (v.map Json.ofWord)
  | .order v => .ofNamed v
  | .multiplicity v => .ofNamed v
  | .dataType v => .ofNamed v
  | .direction v => .ofNamed v
  | .status v => .ofNamed v
  | .name v => .ofText v
  | .cardinality v => .ofNamed v
  | .element v => .ofNamed v
  | .consistency v => .ofNamed v
  | .seconds v => .ofWord v

def toJson (v : DefinitionValue) : Json := .tag v.kind v.content

/-- The value of a variant with this content. -/
def ofContent? (kind : String) (j : Json) : Option DefinitionValue :=
  match kind with
  | "Bool" => j.bool?.map .bool
  | "Ids" => do return .ids (← (← j.list?).mapM Json.word?)
  | "Order" => j.named?.map .order
  | "Multiplicity" => j.named?.map .multiplicity
  | "DataType" => j.named?.map .dataType
  | "Direction" => j.named?.map .direction
  | "Status" => j.named?.map .status
  | "Name" => j.text?.map .name
  | "Cardinality" => j.named?.map .cardinality
  | "Element" => j.named?.map .element
  | "Consistency" => j.named?.map .consistency
  | "Seconds" => j.word?.map .seconds
  | _ => none

def ofJson? (j : Json) : Option DefinitionValue := do
  let (kind, inner) ← j.untag?
  ofContent? kind inner

end DefinitionValue

namespace ParameterValue

def content : ParameterValue → Json
  | .int v => .int v.toInt
  | .text v => .ofText v
  | .mapping v => .ofNamed v
  | .status v => .ofNamed v

def toJson (v : ParameterValue) : Json := .tag v.kind v.content

/-- The value of a variant with this content. -/
def ofContent? (kind : String) (j : Json) : Option ParameterValue :=
  match kind with
  | "Int" => j.long?.map .int
  | "Text" => j.text?.map .text
  | "Mapping" => j.named?.map .mapping
  | "Status" => j.named?.map .status
  | _ => none

def ofJson? (j : Json) : Option ParameterValue := do
  let (kind, inner) ← j.untag?
  ofContent? kind inner

end ParameterValue

namespace Parameter

def toJson (p : Parameter) : Json := .record [("key", .ofText p.key), ("value", p.value.toJson)]

def ofJson? (j : Json) : Option Parameter := do
  match ← j.record? ["key", "value"] with
  | [key, value] => return ⟨← key.text?, ← ParameterValue.ofJson? value⟩
  | _ => none

def listToJson (parameters : List Parameter) : Json := .list (parameters.map toJson)

def listOfJson? (j : Json) : Option (List Parameter) := do (← j.list?).mapM ofJson?

end Parameter

namespace Definition

def toJson (d : Definition) : Json :=
  .record (d.entries.map fun e => (Named.name e.1, e.2.toJson))

/-- A definition of any values. -/
def ofJson? (j : Json) : Option Definition := do
  let entries ← (← j.fields?).mapM fun f => do
    return ((← (Named.ofName? f.1 : Option Category)), (← DefinitionValue.ofJson? f.2))
  return .ofList entries

end Definition

namespace EdgeDescription

def toJson (d : EdgeDescription) : Json :=
  .record [("category", .ofNamed d.category), ("modifier", Parameter.listToJson d.modifier)]

/-- A description of any category; without a modifier it has no parameters. -/
def ofJson? (j : Json) : Option EdgeDescription := do
  let fields ← j.fields?
  let category ← (← Json.only? "category" fields).named?
  match Json.only? "modifier" fields with
  | some modifier => return ⟨category, ← Parameter.listOfJson? modifier⟩
  | none => return ⟨category, []⟩

end EdgeDescription

namespace SchemaEdge

def toJson (e : SchemaEdge) : Json :=
  .record [("other", .ofWord e.other), ("direction", .ofNamed e.direction),
    ("description", e.description.toJson)]

def ofJson? (j : Json) : Option SchemaEdge := do
  match ← j.record? ["other", "direction", "description"] with
  | [other, direction, description] =>
      return ⟨← other.word?, ← direction.named?, ← EdgeDescription.ofJson? description⟩
  | _ => none

end SchemaEdge

namespace SchemaVertex

def toJson (v : SchemaVertex) : Json :=
  .record [("id", .ofWord v.id), ("name", .ofText v.name), ("category", .ofNamed v.kind),
    ("definition", v.definition.toJson), ("edges", .list (v.edges.map SchemaEdge.toJson))]

def ofJson? (j : Json) : Option SchemaVertex := do
  match ← j.record? ["id", "name", "category", "definition", "edges"] with
  | [id, name, kind, definition, edges] =>
      return {
        id := ← id.word?
        name := ← name.text?
        kind := ← kind.named?
        definition := ← Definition.ofJson? definition
        edges := ← (← edges.list?).mapM SchemaEdge.ofJson? }
  | _ => none

end SchemaVertex

end PropertyGraph
