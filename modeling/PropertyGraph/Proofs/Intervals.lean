/-
# Proofs.Intervals -- what intervals contain

All values stand in one order, whatever their variants (`Std.TransOrd Value`).  So the
tighter of two ends admits what both admit (`admits_tighter`), an intersection contains
what both intervals contain (`contains_intersect`), and an interval that is empty by its
ends contains nothing (`not_contains_of_isEmpty`).

`Interval.Distinct` says that no point is listed twice; the intervals that conditions come
to are all of that form.
-/
import PropertyGraph.Proofs.SliceBounds

namespace PropertyGraph

set_option autoImplicit false

open TypeSlice

/-! ## The order of values -/

instance : Std.TransCmp Double.compare where
  eq_swap {a b} := by
    rw [← Ordered.compare_place, ← Ordered.compare_place]
    exact Std.OrientedCmp.eq_swap
  isLE_trans {a b c} := by
    rw [← Ordered.compare_place, ← Ordered.compare_place, ← Ordered.compare_place]
    exact Std.TransCmp.isLE_trans

namespace Value

theorem rank_le_of_isLE {a b : Value} (le : (compare a b).isLE = true) : a.rank ≤ b.rank := by
  cases a <;> cases b <;> first
    | exact absurd le Bool.false_ne_true
    | simp [rank]

theorem compare_of_rank_lt {a b : Value} (less : a.rank < b.rank) : compare a b = .lt := by
  cases a <;> cases b <;> first
    | rfl
    | simp [rank] at less

theorem compare_swap (a b : Value) : compare a b = (compare b a).swap := by
  cases a <;> cases b <;> simp only [compare] <;> exact Std.OrientedCmp.eq_swap

/-- Values of different variants stand as their variants, values of one variant in its
own order. -/
theorem isLE_trans {a b c : Value} (first : (compare a b).isLE = true)
    (second : (compare b c).isLE = true) : (compare a c).isLE = true := by
  have low := rank_le_of_isLE first
  have high := rank_le_of_isLE second
  obtain less | same := Nat.lt_or_eq_of_le (Nat.le_trans low high)
  · rw [compare_of_rank_lt less]
    rfl
  · have middle : a.rank = b.rank := by omega
    cases a <;> cases b <;> first
      | cases middle; done
      | cases c <;> first
        | cases same; done
        | simp only [compare] at first second ⊢
          exact Std.TransCmp.isLE_trans first second

end Value

instance : Std.TransCmp Value.compare where
  eq_swap := Value.compare_swap _ _
  isLE_trans := Value.isLE_trans

instance : Std.TransOrd Value := inferInstanceAs (Std.TransCmp Value.compare)

instance : Std.LawfulEqCmp Value.compare where
  eq_of_compare := (Value.compare_eq_iff _ _).mp

instance : Std.LawfulEqOrd Value := inferInstanceAs (Std.LawfulEqCmp Value.compare)

theorem Value.compare_self (v : Value) : Value.compare v v = .eq := (compare_eq_iff v v).mpr rfl

/-- Whichever way values stand, a third one stands the same way beyond them. -/
theorem Value.compare_trans {side : Ordering} {a b c : Value} (first : compare a b = side)
    (second : compare b c = side) : compare a c = side := by
  cases side with
  | lt => exact Std.TransCmp.lt_trans first second
  | eq => exact Std.TransCmp.eq_trans first second
  | gt => exact Std.TransCmp.gt_trans first second

/-! ## Ends -/

/-- What one end admits, an end further out admits too. -/
theorem admits_of_further {side : Ordering} {a b : Bound} {v : Value}
    (further : Value.compare a.value b.value = side) (admits : Admits side a v) :
    Admits side b v := by
  obtain beyond | ⟨same, -⟩ := admits
  · exact .inl (Value.compare_trans beyond further)
  · rw [Value.compare_eq_iff] at same
    exact .inl (same ▸ further)

/-- The tighter of two ends admits what both admit. -/
theorem admits_tighter {side : Ordering} (sided : side ≠ .eq) (a b : Option Bound) (v : Value) :
    (∀ x ∈ Bound.tighter side a b, Admits side x v) ↔
      (∀ x ∈ a, Admits side x v) ∧ ∀ x ∈ b, Admits side x v := by
  cases a with
  | none => cases b <;> simp [Bound.tighter]
  | some a =>
      cases b with
      | none => simp [Bound.tighter]
      | some b =>
          simp only [Bound.tighter, Option.mem_def, Option.some.injEq, forall_eq']
          split_ifs with same first
          · rw [Value.compare_eq_iff] at same
            simp only [Option.some.injEq, forall_eq', Admits, same, Bool.and_eq_true]
            tauto
          · simp only [Option.some.injEq, forall_eq']
            exact ⟨fun admits => ⟨admits, admits_of_further first admits⟩, And.left⟩
          · have second : Value.compare b.value a.value = side := by
              rw [Value.compare_swap]
              cases order : Value.compare a.value b.value <;> cases side <;> simp_all
            simp only [Option.some.injEq, forall_eq']
            exact ⟨fun admits => ⟨admits_of_further second admits, admits⟩, And.right⟩

/-- Ends with a value between them stand in order, or are one end that counts. -/
theorem ordered_of_admits {first last : Bound} {v : Value} (above : Admits .gt first v)
    (below : Admits .lt last v) :
    Value.compare first.value last.value = .lt ∨
      first.value = last.value ∧ first.inclusive = true ∧ last.inclusive = true := by
  obtain above | ⟨atFirst, firstIn⟩ := above
  · have past : Value.compare first.value v = .lt := by
      rw [Value.compare_swap, above]
      rfl
    obtain below | ⟨atLast, -⟩ := below
    · exact .inl (Value.compare_trans past below)
    · rw [Value.compare_eq_iff] at atLast
      exact .inl (atLast ▸ past)
  · rw [Value.compare_eq_iff] at atFirst
    rw [← atFirst]
    refine below.imp_right fun ⟨atLast, lastIn⟩ => ⟨?_, firstIn, lastIn⟩
    rwa [Value.compare_eq_iff] at atLast

namespace Interval

/-! ## Intersections -/

/-- An intersection contains what both intervals contain. -/
theorem contains_intersect (a b : Interval) (v : Value) :
    (a.intersect b).contains v = (a.contains v && b.contains v) := by
  cases a with
  | points values => exact contains_intersect_points values b v
  | range first last =>
      cases b with
      | points values =>
          rw [Bool.and_comm, ← contains_intersect_points]
          rfl
      | range first' last' =>
          rw [Bool.eq_iff_iff, Bool.and_eq_true, intersect]
          simp only [range_contains_iff, admits_tighter (show Ordering.gt ≠ .eq by decide),
            admits_tighter (show Ordering.lt ≠ .eq by decide)]
          tauto

/-- Nothing lies between the ends of an empty interval. -/
theorem not_contains_of_isEmpty {i : Interval} (empty : i.isEmpty = true) (v : Value) :
    i.contains v = false := by
  rw [← Bool.not_eq_true]
  intro contained
  cases i with
  | points values =>
      obtain rfl : values = [] := List.isEmpty_iff.mp empty
      simp [contains] at contained
  | range first last =>
      cases first with
      | none => simp [isEmpty] at empty
      | some first =>
          cases last with
          | none => simp [isEmpty] at empty
          | some last =>
              rw [range_contains_iff] at contained
              obtain ⟨above, below⟩ := contained
              rw [isEmpty] at empty
              obtain order | ⟨same, firstIn, lastIn⟩ :=
                ordered_of_admits (above first rfl) (below last rfl)
              · rw [order] at empty
                cases empty
              · rw [same, Value.compare_self, firstIn, lastIn] at empty
                cases empty

/-! ## Points -/

theorem mem_insert_iff (x y : Value) (l : List Value) :
    y ∈ Sorted.insert id x l ↔ y = x ∨ y ∈ l := by
  refine ⟨Sorted.mem_insert, ?_⟩
  induction l with
  | nil => simp [Sorted.insert]
  | cons z rest ih =>
      simp only [Sorted.insert]
      split
      · simp
      · rename_i same
        obtain rfl : x = z := (Value.compare_eq_iff x z).mp same
        simp
      · simp only [List.mem_cons]
        tauto

/-- The points of a list are its values. -/
theorem mem_ofList_iff (values : List Value) (v : Value) :
    v ∈ Sorted.ofList id values ↔ v ∈ values := by
  suffices ∀ acc : List Value,
      v ∈ values.foldl (fun acc x => Sorted.insert id x acc) acc ↔ v ∈ acc ∨ v ∈ values by
    simpa [Sorted.ofList] using this []
  induction values with
  | nil => simp
  | cons x rest ih =>
      intro acc
      rw [List.foldl_cons, ih, mem_insert_iff, List.mem_cons]
      tauto

theorem contains_ofList (values : List Value) (v : Value) :
    (ofList values).contains v = values.contains v := by
  rw [Bool.eq_iff_iff, ofList, contains, List.contains_iff_mem, List.contains_iff_mem]
  exact mem_ofList_iff values v

/-- No point is listed twice. -/
def Distinct : Interval → Prop
  | .points values => values.Nodup
  | .range _ _ => True

theorem distinct_ofList (values : List Value) : (ofList values).Distinct := by
  refine (Sorted.ascending_ofList id values).imp ?_
  rintro a b less rfl
  have same : Value.compare a a = .lt := less
  rw [Value.compare_self] at same
  cases same

theorem distinct_ofComparison {c : Comparison} {bound : Value} {i : Interval}
    (expressible : ofComparison c bound = some i) : i.Distinct := by
  cases c <;> simp only [ofComparison, Option.some.injEq, reduceCtorEq] at expressible <;>
    subst expressible
  case equal => exact List.pairwise_singleton _ bound
  all_goals trivial

theorem Distinct.intersect {a b : Interval} (distinct : a.Distinct) (distinct' : b.Distinct) :
    (a.intersect b).Distinct := by
  cases a with
  | points values => exact distinct.filter _
  | range first last =>
      cases b with
      | points values => exact distinct'.filter _
      | range first' last' => trivial

/-- An intersection lists points as soon as one of the intervals does. -/
theorem isPoints_intersect (a b : Interval) :
    (a.intersect b).isPoints = (a.isPoints || b.isPoints) := by
  cases a <;> cases b <;> rfl

end Interval

end PropertyGraph
