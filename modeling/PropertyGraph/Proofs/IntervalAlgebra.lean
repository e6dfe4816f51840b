/-
# Proofs.IntervalAlgebra -- intervals and what they contain

`Interval.Built` are the intervals that lists of points, comparisons and the interval of
everything come to by intersecting.  Each lists its points in ascending order
(`Interval.Built.inOrder`), because an intersection leaves points out and moves none
(`Interval.InOrder.intersect`).

That order is what a search among the points relies on.  `Sorted.search` halves a list until
one element is left, and finds just the elements of an ascending one (`Sorted.search_iff`).
So a membership test that searches (`Interval.finds`) and an intersection that searches
(`Interval.meet`) answer as `Interval.contains` and `Interval.intersect` do.

An interval that says it is empty contains nothing.  The converse is true of points and of
ranges whose ends leave no room (`Interval.Discrete`), not of all ranges: there is no value
between two that follow one another.

`Interval.intersections_are_exact` puts these together.
-/
import PropertyGraph.Proofs.ConditionOrder

namespace PropertyGraph

set_option autoImplicit false

/-! ## Searching -/

namespace Sorted

variable {α : Type} [Ord α]

/-- Whether an element is in a list in ascending order.  One comparison leaves half of the
list to search. -/
def search (x : α) (l : List α) : Bool :=
  if long : 1 < l.length then
    if compare l[l.length / 2] x == .gt then search x (l.take (l.length - l.length / 2))
    else search x (l.drop (l.length / 2))
  else l.any fun y => compare y x == .eq
termination_by l.length
decreasing_by
  · rw [List.length_take]
    omega
  · rw [List.length_drop]
    omega

theorem Ascending.lt_of_lt {l : List α} (ascending : Ascending id l) {i j : Nat}
    (inside : j < l.length) (less : i < j) : compare l[i] l[j] = .lt :=
  List.pairwise_iff_getElem.mp ascending i j (by omega) inside less

theorem search_iff [Std.TransOrd α] [Std.LawfulEqOrd α] {x : α} {l : List α} (ascending : Ascending id l) :
    search x l = true ↔ x ∈ l := by
  fun_induction search x l with
  | case1 l long above ih =>
      -- What follows the middle lies above it.
      rw [ih (ascending.sublist (List.take_sublist _ _)), List.mem_take_iff_getElem]
      refine ⟨fun ⟨i, inside, found⟩ => found ▸ List.getElem_mem _, ?_⟩
      intro member
      obtain ⟨i, inside, rfl⟩ := List.getElem_of_mem member
      have early : i < l.length / 2 := by
        by_contra late
        obtain same | less := Nat.eq_or_lt_of_le (Nat.le_of_not_lt late)
        · simp [← same, Std.ReflOrd.compare_self] at above
        · simp [ascending.lt_of_lt inside less] at above
      exact ⟨i, by omega, rfl⟩
  | case2 l long notAbove ih =>
      rw [ih (ascending.sublist (List.drop_sublist _ _)), List.mem_drop_iff_getElem]
      refine ⟨fun ⟨i, inside, found⟩ => found ▸ List.getElem_mem _, ?_⟩
      intro member
      obtain ⟨i, inside, rfl⟩ := List.getElem_of_mem member
      have late : l.length / 2 ≤ i := by
        by_contra early
        have less := ascending.lt_of_lt (by omega) (Nat.lt_of_not_le early)
        rw [Std.OrientedOrd.eq_swap, less] at notAbove
        exact notAbove rfl
      exact ⟨i - l.length / 2, by omega, by congr 1; omega⟩
  | case3 l short =>
      simp only [List.any_eq_true, beq_iff_eq, Std.LawfulEqOrd.compare_eq_iff_eq, exists_eq_right]

end Sorted

namespace Interval

/-- Membership by searching among the points. -/
def finds : Interval → Value → Bool
  | .points values, v => Sorted.search v values
  | .range first last, v => (range first last).contains v

/-- The values that lie in both, found by searching. -/
def meet : Interval → Interval → Interval
  | .points values, other => .points (values.filter other.finds)
  | one, .points values => .points (values.filter one.finds)
  | one, other => one.intersect other

theorem finds_eq_contains {i : Interval} (inOrder : i.InOrder) : i.finds = i.contains := by
  funext v
  cases i with
  | points values =>
      rw [Bool.eq_iff_iff, finds, Sorted.search_iff inOrder, contains, List.contains_iff_mem]
  | range first last => rfl

theorem meet_eq_intersect {a b : Interval} (inOrder : a.InOrder) (inOrder' : b.InOrder) :
    a.meet b = a.intersect b := by
  cases a with
  | points values => rw [meet, intersect, finds_eq_contains inOrder']
  | range first last =>
      cases b with
      | points values => simp only [meet, intersect, finds_eq_contains inOrder]
      | range first' last' => rfl

/-! ## Built intervals -/

/-- What points, comparisons and the interval of everything come to by intersecting. -/
inductive Built : Interval → Prop where
  | points (values : List Value) : Built (ofList values)
  | comparison {c : Comparison} {bound : Value} {i : Interval}
      (expressible : ofComparison c bound = some i) : Built i
  | everything : Built everything
  | intersect {a b : Interval} (first : Built a) (second : Built b) : Built (a.intersect b)

theorem InOrder.intersect {a b : Interval} (inOrder : a.InOrder) (inOrder' : b.InOrder) :
    (a.intersect b).InOrder := by
  cases a with
  | points values => exact inOrder.filter _
  | range first last =>
      cases b with
      | points values => exact inOrder'.filter _
      | range first' last' => trivial

theorem Built.inOrder {i : Interval} (built : i.Built) : i.InOrder := by
  induction built with
  | points values => exact inOrder_ofList values
  | comparison expressible => exact inOrder_ofComparison expressible
  | everything => trivial
  | intersect _ _ first second => exact first.intersect second

theorem Built.distinct {i : Interval} (built : i.Built) : i.Distinct := by
  induction built with
  | points values => exact distinct_ofList values
  | comparison expressible => exact distinct_ofComparison expressible
  | everything => trivial
  | intersect _ _ first second => exact first.intersect second

theorem ofComparison_eq_none_iff (c : Comparison) (bound : Value) :
    ofComparison c bound = none ↔ c = .notEqual := by
  cases c <;> simp [ofComparison]

/-! ## Emptiness -/

/-- Points, or a range whose first end is not below its last. -/
def Discrete : Interval → Prop
  | .points _ => True
  | .range (some first) (some last) => Value.compare first.value last.value ≠ .lt
  | .range _ _ => False

/-- A range with both ends at one value has no room but for that value. -/
theorem contains_of_ends {first last : Bound} (same : first.value = last.value)
    (firstIn : first.inclusive = true) (lastIn : last.inclusive = true) :
    (range (some first) (some last)).contains first.value = true := by
  simp [contains, Bound.admitsAbove, Bound.admitsBelow, ← same, Value.compare_self, firstIn,
    lastIn]

theorem isEmpty_of_discrete {i : Interval} (discrete : i.Discrete)
    (nothing : ∀ v, i.contains v = false) : i.isEmpty = true := by
  match i with
  | .points [] => rfl
  | .points (v :: rest) =>
      have there : (points (v :: rest)).contains v = true := by simp [contains]
      rw [nothing v] at there
      cases there
  | .range (some first) (some last) =>
      cases order : Value.compare first.value last.value with
      | lt => exact absurd order discrete
      | gt => simp only [isEmpty, order]
      | eq =>
          have same := (Value.compare_eq_iff _ _).mp order
          simp only [isEmpty, order, Bool.not_eq_true', ← Bool.not_eq_true, Bool.and_eq_true]
          rintro ⟨firstIn, lastIn⟩
          have there := contains_of_ends same firstIn lastIn
          rw [nothing] at there
          cases there

/-- Of any two built intervals and any value: the intersection contains it exactly if both
do, and so it is when membership is found by searching, in the test and inside the
intersection.  The interval of a comparison contains what passes it, and only "not equal" has
none.  Points are listed in ascending order, none twice.  An interval that says it is empty
contains nothing, and one that is discrete says so if it contains nothing. -/
theorem intersections_are_exact {a b : Interval} (built : a.Built) (built' : b.Built) :
    (∀ v, (a.intersect b).contains v = (a.contains v && b.contains v)) ∧
      (a.finds = a.contains ∧ b.finds = b.contains ∧ a.meet b = a.intersect b ∧
        ∀ v, (a.meet b).finds v = (a.finds v && b.finds v)) ∧
      (∀ c bound, (ofComparison c bound = none ↔ c = .notEqual) ∧
        ∀ i, ofComparison c bound = some i → ∀ v, i.contains v = c.test v bound) ∧
      ((a.intersect b).InOrder ∧ (a.intersect b).Distinct) ∧
      (a.isEmpty = true → ∀ v, a.contains v = false) ∧
      (a.Discrete → (∀ v, a.contains v = false) → a.isEmpty = true) := by
  have both := built.intersect built'
  have searched := finds_eq_contains built.inOrder
  have searched' := finds_eq_contains built'.inOrder
  have met := meet_eq_intersect built.inOrder built'.inOrder
  refine ⟨contains_intersect a b, ⟨searched, searched', met, ?_⟩, ?_,
    ⟨both.inOrder, both.distinct⟩, not_contains_of_isEmpty, isEmpty_of_discrete⟩
  · intro v
    rw [met, finds_eq_contains both.inOrder, contains_intersect, searched, searched']
  · intro c bound
    exact ⟨ofComparison_eq_none_iff c bound, fun i said => contains_ofComparison said⟩

/-- Points given twice and out of order, met with what is not below one of them. -/
theorem intersections_are_exact_from_three :
    let a := ofList [.long 5, .bool true, .long 2, .long 5]
    let b : Interval := .range (some ⟨.long 3, true⟩) none
    a.Built ∧ b.Built ∧ a = .points [.bool true, .long 2, .long 5] ∧
      a.meet b = .points [.long 5] ∧ (a.finds (.long 2) && b.finds (.long 2)) = false ∧
      (a.meet b).finds (.long 2) = false ∧ (a.intersect b).InOrder := by
  intro a b
  have built : a.Built := .points _
  have built' : b.Built := .comparison (show ofComparison .greaterEqual (.long 3) = some b from rfl)
  obtain ⟨-, ⟨-, searched', met, exact⟩, -, ⟨inOrder, -⟩, -⟩ :=
    intersections_are_exact built built'
  have outside : (a.finds (.long 2) && b.finds (.long 2)) = false := by
    rw [searched', Bool.and_eq_false_iff]
    exact .inr rfl
  exact ⟨built, built', rfl, met, outside, (exact (.long 2)).trans outside, inOrder⟩

end Interval

end PropertyGraph
