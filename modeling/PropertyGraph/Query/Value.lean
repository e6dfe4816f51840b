/-
# Query.Value -- property values

A value is a truth value, an integer, a double, a text, or the id of a vertex or
relation.  Values of one variant have their natural order, doubles the total
one; values of different variants are ordered by variant.  Equal in the order
means the same value (`Value.compare_eq_iff`).
-/
import PropertyGraph.Bytes.Ordered
import PropertyGraph.Double.Decimal
import PropertyGraph.Schema.Vocabulary
import PropertyGraph.Text.Quoted

namespace PropertyGraph

set_option autoImplicit false

inductive Value where
  | bool (v : Bool)
  | long (v : Long)
  | double (v : Double)
  | text (v : String)
  | id (v : UInt64)
  deriving DecidableEq

namespace Value

/-- The place of a variant among all. -/
def rank : Value → Nat
  | .bool _ => 0
  | .long _ => 1
  | .double _ => 2
  | .text _ => 3
  | .id _ => 4

def compare : Value → Value → Ordering
  | .bool a, .bool b => Ord.compare a b
  | .long a, .long b => Ord.compare a b
  | .double a, .double b => Double.compare a b
  | .text a, .text b => Ord.compare a b
  | .id a, .id b => Ord.compare a b
  | a, b => Ord.compare a.rank b.rank

instance : Ord Value := ⟨compare⟩

theorem compare_eq_iff (a b : Value) : compare a b = .eq ↔ a = b := by
  cases a <;> cases b <;>
    simp only [compare, rank, Double.compare_eq_iff, Std.LawfulEqOrd.compare_eq_iff_eq, bool.injEq,
      long.injEq, double.injEq, text.injEq, id.injEq, reduceCtorEq, iff_false]
  all_goals decide

/-- The type of a property with this value; ids are no property values. -/
def dataType : Value → Option DataType
  | .bool _ => some .boolean
  | .long _ => some .long
  | .double _ => some .double
  | .text _ => some .text
  | .id _ => none

def text? : Value → Option String
  | .text s => some s
  | _ => none

/-- The form of a value in messages. -/
def shown : Value → String
  | .bool v => if v then "true" else "false"
  | .long v => toString v.toInt
  | .double v => v.shown
  | .text v => Text.quoted v
  | .id v => "#" ++ toString v.toNat

end Value

end PropertyGraph
