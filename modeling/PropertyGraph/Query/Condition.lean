/-
# Query.Condition -- what a query asks of each element

A condition tests the value of one key, asks for one of several values of a key,
or asks for one of several labels.  `Condition.holds` is its meaning;
`equalityValues` are the only values of the key for which it can hold
(`holds_eq_contains`), and it does not hold without one (`not_holds_of_listed`).
-/
import PropertyGraph.Query.Predicate

namespace PropertyGraph

set_option autoImplicit false

inductive Condition where
  | has (key : String) (predicate : Predicate) (value : Option Value)
  | anyOf (key : String) (values : List Value)
  | labels (allowed : List String)
  deriving DecidableEq

namespace Condition

/-- The key whose value is tested. -/
def key : Condition → Option String
  | .has key _ _ => some key
  | .anyOf key _ => some key
  | .labels _ => none

/-- The values of the key for which the condition holds, where it lists them. -/
def equalityValues : Condition → Option (List Value)
  | .has _ (.compare .equal) (some v) => some [v]
  | .anyOf _ values => if values.isEmpty then none else some values
  | _ => none

/-- The condition holds of an element, given its value for the key and its
label. -/
def holds (c : Condition) (value : Option Value) (label : Option String) : Bool :=
  match c with
  | .has _ predicate bound => predicate.test value bound
  | .anyOf _ values => value.any fun v => values.contains v
  | .labels allowed => label.any fun l => allowed.contains l

theorem holds_eq_contains {c : Condition} {values : List Value}
    (listed : c.equalityValues = some values) (v : Value) (label : Option String) :
    c.holds (some v) label = values.contains v := by
  cases c with
  | labels l => simp [equalityValues] at listed
  | anyOf key candidates =>
      simp only [equalityValues] at listed
      split at listed
      · simp at listed
      · cases listed; simp [holds]
  | has key predicate bound =>
      simp only [equalityValues] at listed
      split at listed <;> simp_all
      rename_i same
      obtain ⟨rfl, rfl, rfl⟩ := same
      subst listed
      rw [Bool.eq_iff_iff]
      simp [holds, Predicate.test, Comparison.test, Comparison.admits, Value.compare_eq_iff]

/-- An element without a value has none of the values that are listed. -/
theorem not_holds_of_listed {c : Condition} (listed : c.equalityValues.isSome = true)
    (label : Option String) : c.holds none label = false := by
  unfold equalityValues at listed
  split at listed
  · rfl
  · rfl
  · cases listed

end Condition

end PropertyGraph
