/-
# Schema.RowJson -- the values in schema rows as JSON

Rows hold the JSON forms of their values (`Schema.Form`) as texts without spaces.
-/
import PropertyGraph.Schema.Form
import PropertyGraph.Schema.Row

namespace PropertyGraph

set_option autoImplicit false

/-- Values by their JSON form. -/
def Json.codec {α : Type} (form : α → Json) (read : Json → Option α) : ValueCodec α where
  write a := (form a).write
  read? b := (Json.parse b).bind read

namespace SchemaRow

/-- The name and the kind of a vertex. -/
def headerToJson (h : String × VertexKind) : Json :=
  .record [("name", .ofText h.1), ("category", .ofNamed h.2)]

def headerOfJson? (j : Json) : Option (String × VertexKind) := do
  match ← j.record? ["name", "category"] with
  | [name, kind] => return (← name.text?, ← kind.named?)
  | _ => none

end SchemaRow

instance RowCodec.json : RowCodec where
  header := Json.codec SchemaRow.headerToJson SchemaRow.headerOfJson?
  category := Json.codec Json.ofNamed Json.named?
  definition := Json.codec DefinitionValue.toJson DefinitionValue.ofJson?
  modifier := Json.codec Parameter.listToJson Parameter.listOfJson?

end PropertyGraph
