/-
# Proofs.SliceBounds -- the two ends of a type slice as cuts

The bytes that constraints come to are two cuts through what the columns of a type
and direction hold behind their heads (`Leading.span`).  `limits_spec` says that the
ends of the slice are these cuts, and `range_holds_iff` that between the cuts of a
range lie exactly the components whose values the range contains, whichever way round
the type is sorted.
-/
import PropertyGraph.Proofs.Columns
import PropertyGraph.Relation.TypeSlice

namespace PropertyGraph

set_option autoImplicit false

open Bytes Column

namespace TypeSlice

/-- The two places that the ends of a range are; in the columns of a descending type
they change sides. -/
def Ends.span (order : SortOrder) (e : Ends) : Span :=
  match order with
  | .asc => ⟨⟨e.first, !e.firstInclusive⟩, ⟨e.last, e.lastInclusive⟩⟩
  | .desc => ⟨⟨complement e.last, !e.lastInclusive⟩, ⟨complement e.first, e.firstInclusive⟩⟩

/-- What all the columns that meet the points start with, behind the head. -/
def Leading.base (order : SortOrder) (l : Leading) : Bytes :=
  oriented order l.sorted ++ l.implicit

/-- What meets the constraints, behind the head. -/
def Leading.span (order : SortOrder) (l : Leading) : Span :=
  match l.ends with
  | none => Span.everything.under (l.base order)
  | some e => (e.span order).under (oriented order l.sorted)

/-- Some byte can still be counted up. -/
def Open (b : Bytes) : Prop := ∃ x ∈ b, x ≠ 0xFF

theorem Open.append {b : Bytes} (opened : Open b) (rest : Bytes) : Open (b ++ rest) := by
  obtain ⟨x, member, low⟩ := opened
  exact ⟨x, List.mem_append_left rest member, low⟩

/-- The end of a slice stands where its cut is. -/
theorem edgeAt_spec {c : Cut} (opened : Open c.bytes) :
    ∃ edge, edgeAt c.bytes c.behind = .ok edge ∧ ∀ b, edge ≤ b ↔ c.Past b := by
  obtain ⟨bytes, behind⟩ := c
  cases behind with
  | false =>
      refine ⟨bytes, rfl, ?_⟩
      intro b
      rw [le_iff]
      constructor
      · rintro (before | starts)
        · exact .inl before
        · exact .inr ⟨rfl, starts⟩
      · rintro (before | ⟨-, starts⟩)
        · exact .inl before
        · exact .inr starts
  | true =>
      cases next : successor bytes with
      | none =>
          obtain ⟨x, member, low⟩ := opened
          exact absurd ((successor_eq_none_iff bytes).mp next x member) low
      | some edge =>
          refine ⟨edge, ?_, ?_⟩
          · show after bytes = .ok edge
            rw [after, next]
          · intro b
            rw [successor_le_iff next]
            constructor
            · exact .inl
            · rintro (before | ⟨front, -⟩)
              · exact before
              · cases front

/-- The slice between two ends holds what lies between their cuts. -/
theorem contains_spec {s : Span} {start stop : Bytes} (ordered : s.Ordered)
    (first : ∀ b, start ≤ b ↔ s.first.Past b) (last : ∀ b, stop ≤ b ↔ s.last.Past b) :
    ∃ inOrder : start ≤ stop,
      ∀ b, (Slice.mk start stop noLimit inOrder noLimit_pos).contains b = true ↔ s.Holds b := by
  refine ⟨(first stop).mpr (ordered stop ((last stop).mp (List.le_refl stop))), ?_⟩
  intro b
  rw [Slice.contains, Bool.and_eq_true, decide_eq_true_eq, decide_eq_true_eq, first,
    ← List.not_le, last]
  rfl

/-- The ends of a slice are the cuts that its constraints come to. -/
theorem limits_spec (order : SortOrder) {head : Bytes} (opened : Open head) (l : Leading) :
    ∃ start stop, limits order head l = .ok (start, stop) ∧
      (∀ b, start ≤ b ↔ ((l.span order).under head).first.Past b) ∧
      ∀ b, stop ≤ b ↔ ((l.span order).under head).last.Past b := by
  obtain ⟨start, begun, first⟩ :=
    edgeAt_spec (c := ((l.span order).under head).first) (opened.append _)
  obtain ⟨stop, ended, last⟩ :=
    edgeAt_spec (c := ((l.span order).under head).last) (opened.append _)
  refine ⟨start, stop, ?_, first, last⟩
  unfold Leading.span at begun ended
  cases ends : l.ends with
  | none =>
      simp only [ends, Span.under, Cut.under, Span.everything, List.append_nil, edgeAt,
        Leading.base, Bool.false_eq_true, if_false, if_true] at begun ended
      obtain rfl := Except.ok.inj begun
      simp only [limits, ends, ended]
      rfl
  | some e =>
      cases order with
      | asc =>
          simp only [ends, Ends.span, Span.under, Cut.under, oriented] at begun ended
          simp only [limits, ends, begun, ended]
          rfl
      | desc =>
          simp only [ends, Ends.span, Span.under, Cut.under, oriented,
            ← complement_append] at begun ended
          simp only [limits, ends, begun, ended]
          rfl

/-- The value lies on a side of the bound, or on the bound where that counts. -/
def Admits (side : Ordering) (b : Bound) (v : Value) : Prop :=
  Value.compare v b.value = side ∨ Value.compare v b.value = .eq ∧ b.inclusive = true

theorem admitsAbove_iff (b : Bound) (v : Value) : b.admitsAbove v = true ↔ Admits .gt b v := by
  unfold Bound.admitsAbove Admits
  cases Value.compare v b.value <;> simp

theorem admitsBelow_iff (b : Bound) (v : Value) : b.admitsBelow v = true ↔ Admits .lt b v := by
  unfold Bound.admitsBelow Admits
  cases Value.compare v b.value <;> simp

/-- A range contains what each of its ends admits. -/
theorem range_contains_iff (first last : Option Bound) (v : Value) :
    (Interval.range first last).contains v = true ↔
      (∀ b ∈ first, Admits .gt b v) ∧ ∀ b ∈ last, Admits .lt b v := by
  rw [Interval.contains, Bool.and_eq_true, Option.all_eq_true, Option.all_eq_true]
  simp only [admitsAbove_iff, admitsBelow_iff, Option.mem_def]

section Ends

variable {order : SortOrder} {side : Ordering} {v : Value} {expected : Option DataType}
  {bound : Option Bound} {x a : Bytes}

/-- Where a side of a bound comes later in the columns, it lies behind a cut. -/
theorem past_iff_of_turned_eq_gt (turns : turned order side = .gt)
    (written : StoredValue.write v expected = .ok x) (ended : writeBound bound expected = .ok a)
    (rest : Bytes) :
    Cut.Past ⟨oriented order a, !bound.all Bound.inclusive⟩ (oriented order x ++ rest) ↔
      ∀ b ∈ bound, Admits side b v := by
  cases bound with
  | none =>
      obtain rfl := Except.ok.inj ended
      constructor
      · intro _ b none
        cases none
      · intro _
        cases order
        · exact Cut.past_start _
        · exact Cut.past_start _
  | some b =>
      have stands := stands_oriented (StoredValue.stands_of_write written ended) order
      rw [Option.all_some, stands.past_iff, turned_eq_eq_iff, ← turns, turned_inj]
      simp [Admits]

/-- Where a side of a bound comes earlier in the columns, it lies in front of a cut. -/
theorem not_past_iff_of_turned_eq_lt (turns : turned order side = .lt)
    (written : StoredValue.write v expected = .ok x) (ended : writeBound bound expected = .ok a)
    (rest : Bytes) :
    ¬ Cut.Past ⟨oriented order a, bound.all Bound.inclusive⟩ (oriented order x ++ rest) ↔
      ∀ b ∈ bound, Admits side b v := by
  cases bound with
  | none =>
      obtain rfl := Except.ok.inj ended
      constructor
      · intro _ b none
        cases none
      · intro _
        cases order
        · exact Cut.not_past_end _
        · exact Cut.not_past_end _
  | some b =>
      have stands := stands_oriented (StoredValue.stands_of_write written ended) order
      rw [Option.all_some, stands.past_iff, ← Bool.not_eq_true]
      have sides :
          turned order (Value.compare v b.value) = .lt ↔ Value.compare v b.value = side := by
        rw [← turns, turned_inj]
      have middle := turned_eq_eq_iff order (Value.compare v b.value)
      simp only [Option.mem_def, Option.some.injEq, forall_eq', Admits, ← sides, ← middle]
      cases turned order (Value.compare v b.value) <;> simp

end Ends

/-- The ends that a range comes to. -/
def endsOf (first last : Option Bound) (a b : Bytes) : Ends :=
  ⟨a, b, first.all Bound.inclusive, last.all Bound.inclusive⟩

variable {first last : Option Bound} {expected : Option DataType} {a b : Bytes}

/-- Between the ends of a range lies what starts with a value of the range. -/
theorem range_holds_iff (order : SortOrder) (low : writeBound first expected = .ok a)
    (high : writeBound last expected = .ok b) {v : Value} {x : Bytes}
    (written : StoredValue.write v expected = .ok x) (rest : Bytes) :
    ((endsOf first last a b).span order).Holds (oriented order x ++ rest) ↔
      (Interval.range first last).contains v = true := by
  rw [range_contains_iff]
  cases order with
  | asc =>
      have later : turned .asc .gt = .gt := rfl
      have earlier : turned .asc .lt = .lt := rfl
      exact and_congr (past_iff_of_turned_eq_gt later written low rest)
        (not_past_iff_of_turned_eq_lt earlier written high rest)
  | desc =>
      have later : turned .desc .lt = .gt := rfl
      have earlier : turned .desc .gt = .lt := rfl
      rw [and_comm]
      exact and_congr (past_iff_of_turned_eq_gt later written high rest)
        (not_past_iff_of_turned_eq_lt earlier written low rest)

/-- The ends of a range that is not empty are not the wrong way round. -/
theorem ordered_range (order : SortOrder) (low : writeBound first expected = .ok a)
    (high : writeBound last expected = .ok b)
    (inhabited : (Interval.range first last).isEmpty = false) :
    ((endsOf first last a b).span order).Ordered := by
  cases first with
  | none =>
      obtain rfl := Except.ok.inj low
      cases order with
      | asc => exact fun rest _ => Cut.past_start rest
      | desc => exact fun rest past => absurd past (Cut.not_past_end rest)
  | some f =>
      cases last with
      | none =>
          obtain rfl := Except.ok.inj high
          cases order with
          | asc => exact fun rest past => absurd past (Cut.not_past_end rest)
          | desc => exact fun rest _ => Cut.past_start rest
      | some l =>
          have stands : Stands (Value.compare f.value l.value) a b :=
            StoredValue.stands_of_write low high
          rw [Interval.isEmpty] at inhabited
          cases compared : Value.compare f.value l.value with
          | lt =>
              rw [compared] at stands
              cases order with
              | asc => exact Span.ordered_of_before stands
              | desc => exact Span.ordered_of_before (before_complement stands)
          | eq =>
              rw [compared] at stands inhabited
              have inclusive : f.inclusive = true ∧ l.inclusive = true := by
                simpa using inhabited
              obtain rfl : a = b := stands
              cases order with
              | asc => exact Span.ordered_of_eq rfl (congrArg not inclusive.1)
              | desc => exact Span.ordered_of_eq rfl (congrArg not inclusive.2)
          | gt =>
              rw [compared] at inhabited
              cases inhabited

end TypeSlice

end PropertyGraph
