/-
# Query.Form -- values and conditions in JSON

A value is an object with one field, whose name tells its variant.  A double is
given by its bits, so that no double is lost (`Value.ofJson?_toJson`).  A range has
two ends, each a value that belongs to it or not; null stands for no end.
-/
import PropertyGraph.Bytes.Hex
import PropertyGraph.Query.Condition
import PropertyGraph.Query.Interval
import PropertyGraph.Schema.Form

namespace PropertyGraph

set_option autoImplicit false

namespace Double

/-- The bits of a double, two digits a byte. -/
def toJson (d : Double) : Json := .ofText (Bytes.hex (Ordered.digits 8 d.bits.toNat))

def ofJson? (j : Json) : Option Double := do
  let b ← Bytes.ofHex? (← j.text?)
  return ⟨UInt64.ofNat (Ordered.number b)⟩

theorem ofJson?_toJson (d : Double) : ofJson? d.toJson = some d := by
  have fits : d.bits.toNat < Ordered.weight 8 := d.bits.toNat_lt
  simp only [toJson, ofJson?, Json.text?_ofText, Bytes.ofHex?_hex, Option.bind_eq_bind,
    Option.bind_some, Ordered.number_digits fits, UInt64.ofNat_toNat, pure]

end Double

namespace Value

def toJson : Value → Json
  | .bool v => .record [("b", .bool v)]
  | .long v => .record [("l", .int v.toInt)]
  | .double v => .record [("d", v.toJson)]
  | .text v => .record [("t", .ofText v)]
  | .id v => .record [("id", .ofWord v)]

def ofJson? (j : Json) : Option Value := do
  match ← j.fields? with
  | [("b", v)] => v.bool?.map .bool
  | [("l", v)] => v.long?.map .long
  | [("d", v)] => (Double.ofJson? v).map .double
  | [("t", v)] => v.text?.map .text
  | [("id", v)] => v.word?.map .id
  | _ => none

/-- Every value is read back from its form. -/
theorem ofJson?_toJson (v : Value) : ofJson? v.toJson = some v := by
  cases v with
  | id v =>
      rw [toJson, ofJson?, Json.fields?_record, Option.bind_eq_bind, Option.bind_some]
      change (Json.ofWord v).word?.map Value.id = some (.id v)
      rw [Json.word?_ofWord, Option.map_some]
  | _ =>
      simp only [toJson, ofJson?, Json.fields?_record, Option.bind_eq_bind, Option.bind_some,
        Json.bool?, Json.long?_toInt, Double.ofJson?_toJson, Json.text?_ofText, Option.map_some]

end Value

namespace Bound

def toJson (b : Bound) : Json := .list [b.value.toJson, .bool b.inclusive]

def ofJson? : Json → Option Bound
  | .list [v, inclusive] => do return ⟨← Value.ofJson? v, ← inclusive.bool?⟩
  | _ => none

theorem ofJson?_toJson (b : Bound) : ofJson? b.toJson = some b := by
  simp [toJson, ofJson?, Value.ofJson?_toJson, Json.bool?]

end Bound

namespace Interval

def toJson : Interval → Json
  | .points values => .record [("points", .list (values.map Value.toJson))]
  | .range first last =>
      .record [("start", .ofOption Bound.toJson first), ("end", .ofOption Bound.toJson last)]

/-- A set of points, whatever their order, or a range. -/
def ofJson? (j : Json) : Option Interval :=
  match j.field? "points" with
  | some values => (values.listOf? Value.ofJson?).map ofList
  | none => do
      return .range (← (← j.field? "start").option? Bound.ofJson?)
        (← (← j.field? "end").option? Bound.ofJson?)

end Interval

namespace Condition

def toJson : Condition → Json
  | .has key predicate value =>
      .record [("has", .list [.ofText key, .ofNamed predicate, .ofOption Value.toJson value])]
  | .anyOf key values =>
      .record [("any", .list [.ofText key, .list (values.map Value.toJson)])]
  | .labels allowed => .record [("labels", .list (allowed.map Json.ofText))]

def ofJson? (j : Json) : Option Condition := do
  match ← j.fields? with
  | [("has", .list [key, predicate, value])] =>
      return .has (← key.text?) (← predicate.named?) (← value.option? Value.ofJson?)
  | [("any", .list [key, values])] =>
      return .anyOf (← key.text?) (← values.listOf? Value.ofJson?)
  | [("labels", allowed)] => (allowed.listOf? Json.text?).map .labels
  | _ => none

end Condition

end PropertyGraph
