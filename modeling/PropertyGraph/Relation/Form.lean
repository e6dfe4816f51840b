/-
# Relation.Form -- relations in JSON

A relation is an object of its numbers, its direction, its target and its sort
values; the target is an object that tells a vertex from a value.
-/
import PropertyGraph.Query.Form
import PropertyGraph.Relation.Basic
import PropertyGraph.Schema.RelationType

namespace PropertyGraph

set_option autoImplicit false

namespace SortComponent

/-- The number of a key; the implicit components have names. -/
def toJson : SortComponent → Json
  | .key id => .ofWord id
  | .adjacent => .ofText "AdjacentId"
  | .relation => .ofText "RelationId"

def ofJson? (j : Json) : Option SortComponent :=
  match j.text? with
  | some "AdjacentId" => some .adjacent
  | some "RelationId" => some .relation
  | _ => j.word?.map .key

end SortComponent

namespace RelationTarget

def toJson : RelationTarget → Json
  | .vertex id => .record [("vertex", .ofWord id)]
  | .value v => .record [("value", v.toJson)]

def ofJson? (j : Json) : Option RelationTarget := do
  match ← j.fields? with
  | [("vertex", id)] => id.word?.map .vertex
  | [("value", v)] => (Value.ofJson? v).map .value
  | _ => none

end RelationTarget

namespace Relation

def toJson (r : Relation) : Json :=
  .record [("id", .ofWord r.id), ("type", .ofWord r.typeId), ("dir", .ofNamed r.direction),
    ("target", r.target.toJson), ("sort", .list (r.sortValues.map Value.toJson))]

def ofJson? (j : Json) : Option Relation := do
  match ← j.record? ["id", "type", "dir", "target", "sort"] with
  | [id, type, direction, target, sort] =>
      return ⟨← id.word?, ← type.word?, ← direction.named?, ← RelationTarget.ofJson? target,
        ← sort.listOf? Value.ofJson?⟩
  | _ => none

end Relation

end PropertyGraph
