/-
# Query.Interval -- sets of values that a slice can ask for

An interval is a finite set of points or a range with two ends, each of which may
be absent.  `Interval.contains` is membership; `contains_intersect_points` and
`contains_ofComparison` tie the constructions to it.
-/
import PropertyGraph.Query.Predicate
import PropertyGraph.Sorted

namespace PropertyGraph

set_option autoImplicit false

/-- One end of a range. -/
structure Bound where
  value : Value
  inclusive : Bool
  deriving DecidableEq

inductive Interval where
  | points (values : List Value)
  | range (first last : Option Bound)
  deriving DecidableEq

namespace Bound

/-- The value lies on the inner side of a lower end. -/
def admitsAbove (b : Bound) (v : Value) : Bool :=
  match Value.compare v b.value with
  | .gt => true
  | .eq => b.inclusive
  | .lt => false

/-- The value lies on the inner side of an upper end. -/
def admitsBelow (b : Bound) (v : Value) : Bool :=
  match Value.compare v b.value with
  | .lt => true
  | .eq => b.inclusive
  | .gt => false

/-- The end that restricts more, where `further` is the order of the more
restrictive value. -/
def tighter (further : Ordering) : Option Bound → Option Bound → Option Bound
  | none, b => b
  | a, none => a
  | some a, some b =>
      let order := Value.compare a.value b.value
      if order = .eq then some ⟨a.value, a.inclusive && b.inclusive⟩
      else if order = further then some a
      else some b

end Bound

namespace Interval

def point (v : Value) : Interval := .points [v]

/-- The set of the values of a list, in order. -/
def ofList (values : List Value) : Interval := .points (Sorted.ofList id values)

def everything : Interval := .range none none

/-- The values that stand in a comparison to a bound, where they form an
interval. -/
def ofComparison (c : Comparison) (bound : Value) : Option Interval :=
  match c with
  | .equal => some (point bound)
  | .notEqual => none
  | .less => some (.range none (some ⟨bound, false⟩))
  | .lessEqual => some (.range none (some ⟨bound, true⟩))
  | .greater => some (.range (some ⟨bound, false⟩) none)
  | .greaterEqual => some (.range (some ⟨bound, true⟩) none)

def isPoints : Interval → Bool
  | .points _ => true
  | .range .. => false

/-- A range without an upper end. -/
def isOpenAbove : Interval → Bool
  | .range _ none => true
  | _ => false

/-- Nothing lies between the ends. -/
def isEmpty : Interval → Bool
  | .points values => values.isEmpty
  | .range (some first) (some last) =>
      match Value.compare first.value last.value with
      | .gt => true
      | .eq => !(first.inclusive && last.inclusive)
      | .lt => false
  | .range _ _ => false

def contains : Interval → Value → Bool
  | .points values, v => values.contains v
  | .range first last, v =>
      first.all (fun b => b.admitsAbove v) && last.all fun b => b.admitsBelow v

/-- The values that lie in both. -/
def intersect : Interval → Interval → Interval
  | .points values, other => .points (values.filter other.contains)
  | one, .points values => .points (values.filter one.contains)
  | .range first last, .range first' last' =>
      .range (Bound.tighter .gt first first') (Bound.tighter .lt last last')

theorem contains_intersect_points (values : List Value) (other : Interval) (v : Value) :
    ((points values).intersect other).contains v =
      ((points values).contains v && other.contains v) := by
  rw [Bool.eq_iff_iff]
  simp only [intersect, contains, List.contains_iff_mem, List.mem_filter, Bool.and_eq_true]

/-- The interval of a comparison holds exactly the values that pass it. -/
theorem contains_ofComparison {c : Comparison} {bound : Value} {i : Interval}
    (expressible : ofComparison c bound = some i) (v : Value) :
    i.contains v = c.test v bound := by
  cases c <;> simp only [ofComparison, Option.some.injEq, reduceCtorEq] at expressible <;>
    subst expressible
  case equal =>
    rw [Bool.eq_iff_iff]
    simp [point, contains, Comparison.test, Comparison.admits, Value.compare_eq_iff]
  all_goals
    simp only [contains, Option.all_none, Option.all_some, Bool.and_true, Bool.true_and,
      Comparison.test, Comparison.admits, Bound.admitsAbove, Bound.admitsBelow]
    cases Value.compare v bound <;> rfl

end Interval

end PropertyGraph
