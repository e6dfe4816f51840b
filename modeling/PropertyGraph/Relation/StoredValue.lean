/-
# Relation.StoredValue -- values inside columns

A value is written in a form that sorts like the value itself, so that columns
can be compared as bytes.  Only a value of the expected type is written
(`dataType_of_write`), and reading takes exactly one value from the front.
Not-a-number has no place in the order and is refused.
-/
import PropertyGraph.Bytes.Cursor
import PropertyGraph.Query.Value

namespace PropertyGraph.StoredValue

set_option autoImplicit false

/-- The name of an expected type in messages; ids have none. -/
def shownType : Option DataType → String
  | some d => "Some(" ++ Named.name d ++ ")"
  | none => "None"

/-- The bytes of a value that has the expected type; ids have none. -/
def write : Value → Option DataType → Outcome Bytes
  | .bool v, some .boolean => .ok [if v then 1 else 0]
  | .long v, some .long => .ok (Ordered.ofLong v)
  | .double v, some .double =>
      if v.isNaN then .error (.invalid .notANumber) else .ok (Ordered.ofDouble v)
  | .text v, some .text => .ok (Ordered.ofText v)
  | .id v, none => .ok (Ordered.ofWord v)
  | v, expected => .error (.invalid (.valueAgainstType v.shown (shownType expected)))

/-- The value of the expected type at the front. -/
def read (c : Cursor) : Option DataType → Outcome (Value × Cursor)
  | some .boolean => do
      match ← c.takeByte with
      | (0, rest) => return (.bool false, rest)
      | (1, rest) => return (.bool true, rest)
      | _ => (Fault.corrupt .booleanValue).refuse
  | some .long => do
      let (b, rest) ← c.take 8
      match Ordered.long? b with
      | some v => return (.long v, rest)
      | none => (Fault.corrupt .valueTruncated).refuse
  | some .double => do
      let (b, rest) ← c.take 8
      match Ordered.double? b with
      | some v => return (.double v, rest)
      | none => (Fault.corrupt .valueTruncated).refuse
  | some .text =>
      match Ordered.text? c.rest with
      | some (v, consumed) => do
          let (_, rest) ← c.take consumed
          return (.text v, rest)
      | none => (Fault.corrupt .valueTruncated).refuse
  | none => do
      let (v, rest) ← c.takeWord
      return (.id v, rest)

/-- A written value has the expected type. -/
theorem dataType_of_write {v : Value} {expected : Option DataType} {b : Bytes}
    (written : write v expected = .ok b) : v.dataType = expected := by
  unfold write at written
  split at written <;> simp_all [Value.dataType]

end PropertyGraph.StoredValue
