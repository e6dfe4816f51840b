/-
# Proofs.ConditionOrder -- conditions in any order

Conditions on one key are folded into one interval.  The interval that comes out does not
depend on the order, not only in what it contains but as it stands: intersecting is
associative (`Interval.intersect_assoc`), and commutative where points are listed in
ascending order (`Interval.intersect_comm`), as conditions list them.

So keeping one condition and then another comes to the same as the other way round, up to
the order in which they are listed (`Constraints.alike_keep_keep`), and by induction on the
permutation so do all conditions of a query, if none of them is refused
(`Constraints.addAll_perm`).
-/
import PropertyGraph.Proofs.Conditions
import PropertyGraph.Proofs.SortedLists
import Mathlib.Data.List.Nodup

namespace PropertyGraph

set_option autoImplicit false

namespace Bound

section Tighter

variable {further : Ordering} {a b : Bound}

theorem tighter_of_further (first : Value.compare a.value b.value = further)
    (sided : further ≠ .eq) : tighter further (some a) (some b) = some a := by
  simp only [tighter, first, if_neg sided, if_true]

theorem tighter_of_nearer (second : Value.compare b.value a.value = further)
    (sided : further ≠ .eq) : tighter further (some a) (some b) = some b := by
  have swapped : Value.compare a.value b.value = further.swap := by
    rw [Value.compare_swap, second]
  simp only [tighter, swapped]
  cases further with
  | eq => exact absurd rfl sided
  | lt | gt => rfl

theorem tighter_of_eq (same : a.value = b.value) :
    tighter further (some a) (some b) = some ⟨b.value, a.inclusive && b.inclusive⟩ := by
  simp only [tighter, same, Value.compare_self, if_true]

/-- One of two ends restricts more, or both stand at one value. -/
theorem further_cases (sided : further ≠ .eq) (a b : Bound) :
    Value.compare a.value b.value = further ∨ Value.compare b.value a.value = further ∨
      a.value = b.value := by
  rw [← Value.compare_eq_iff, Value.compare_swap b.value]
  cases Value.compare a.value b.value <;> cases further <;> simp_all

end Tighter

theorem tighter_comm {further : Ordering} (sided : further ≠ .eq) (a b : Option Bound) :
    tighter further a b = tighter further b a := by
  cases a with
  | none => cases b <;> rfl
  | some a =>
      cases b with
      | none => rfl
      | some b =>
          obtain first | second | same := further_cases sided a b
          · rw [tighter_of_further first sided, tighter_of_nearer first sided]
          · rw [tighter_of_nearer second sided, tighter_of_further second sided]
          · rw [tighter_of_eq same, tighter_of_eq same.symm, same, Bool.and_comm]

theorem tighter_assoc {further : Ordering} (sided : further ≠ .eq) (a b c : Option Bound) :
    tighter further (tighter further a b) c = tighter further a (tighter further b c) := by
  cases a with
  | none => cases b <;> cases c <;> rfl
  | some a =>
      cases b with
      | none => cases c <;> rfl
      | some b =>
          cases c with
          | none =>
              simp only [tighter]
              split_ifs <;> rfl
          | some c =>
              obtain first | second | same := further_cases sided a b
              · rw [tighter_of_further first sided]
                obtain first' | second' | same' := further_cases sided b c
                · rw [tighter_of_further first' sided, tighter_of_further first sided,
                    tighter_of_further (Value.compare_trans first first') sided]
                · rw [tighter_of_nearer second' sided]
                · rw [tighter_of_eq same', tighter_of_further (same' ▸ first) sided,
                    tighter_of_further (same' ▸ first) sided]
              · rw [tighter_of_nearer second sided]
                obtain first' | second' | same' := further_cases sided b c
                · rw [tighter_of_further first' sided, tighter_of_nearer second sided]
                · rw [tighter_of_nearer second' sided,
                    tighter_of_nearer (Value.compare_trans second' second) sided]
                · rw [tighter_of_eq same', tighter_of_nearer (same' ▸ second) sided]
              · rw [tighter_of_eq same]
                let both : Bound := ⟨b.value, a.inclusive && b.inclusive⟩
                obtain first' | second' | same' := further_cases sided both c
                · rw [tighter_of_further first' sided, tighter_of_further (a := b) first' sided,
                    tighter_of_eq same]
                · rw [tighter_of_nearer second' sided, tighter_of_nearer (a := b) second' sided,
                    tighter_of_nearer (same ▸ second') sided]
                · rw [tighter_of_eq same', tighter_of_eq (a := b) same',
                    tighter_of_eq (b := ⟨c.value, b.inclusive && c.inclusive⟩) (same.trans same'),
                    Bool.and_assoc]

end Bound

namespace Interval

/-- Points are listed in ascending order. -/
def InOrder : Interval → Prop
  | .points values => Sorted.Ascending id values
  | .range _ _ => True

theorem inOrder_ofList (values : List Value) : (ofList values).InOrder :=
  Sorted.ascending_ofList id values

theorem inOrder_ofComparison {c : Comparison} {bound : Value} {i : Interval}
    (expressible : ofComparison c bound = some i) : i.InOrder := by
  cases c <;> simp only [ofComparison, Option.some.injEq, reduceCtorEq] at expressible <;>
    subst expressible
  case equal => exact List.pairwise_singleton _ bound
  all_goals trivial

theorem intersect_comm {a b : Interval} (inOrder : a.InOrder) (inOrder' : b.InOrder) :
    a.intersect b = b.intersect a := by
  cases a with
  | points values =>
      cases b with
      | points values' =>
          have same : ∀ v, v ∈ values.filter (points values').contains ↔
              v ∈ values'.filter (points values).contains := by
            intro v
            simp only [List.mem_filter, contains, List.contains_iff_mem]
            exact and_comm
          exact congrArg points
            (Sorted.Ascending.eq_of_mem_iff (inOrder.filter _) (inOrder'.filter _) same)
      | range first last => rfl
  | range first last =>
      cases b with
      | points values => rfl
      | range first' last' =>
          rw [intersect, intersect, Bound.tighter_comm (by decide) first,
            Bound.tighter_comm (by decide) last]

theorem filter_contains_filter (a b : Interval) (values : List Value) :
    (values.filter a.contains).filter b.contains = values.filter (a.intersect b).contains := by
  rw [List.filter_filter]
  congr 1
  funext v
  rw [contains_intersect, Bool.and_comm]

theorem intersect_assoc (a b c : Interval) :
    (a.intersect b).intersect c = a.intersect (b.intersect c) := by
  cases a with
  | points values => exact congrArg points (filter_contains_filter b c values)
  | range first last =>
      cases b with
      | points values => exact congrArg points (List.filter_comm ..)
      | range first' last' =>
          cases c with
          | points values =>
              have inTurn := filter_contains_filter (range first last) (range first' last') values
              rw [List.filter_comm] at inTurn
              exact congrArg points inTurn.symm
          | range first'' last'' =>
              rw [intersect, intersect, intersect, intersect, Bound.tighter_assoc (by decide),
                Bound.tighter_assoc (by decide)]

end Interval

namespace Constraints

variable {types : TypeCatalog Outcome}

/-! ## Keeping conditions -/

theorem some_merged (c : Constraints) (component : SortComponent) (i : Interval) :
    some (c.merged component i) = (c.interval? component).merge Interval.intersect (some i) := by
  unfold merged
  cases c.interval? component <;> rfl

/-- Keeping a condition adds to what is said of its key, and to nothing else. -/
theorem interval?_keep (c : Constraints) (condition : Condition) (key : SchemaId)
    (i : Option Interval) (component : SortComponent) :
    (c.keep condition key i).interval? component =
      if component = .key key then (c.interval? component).merge Interval.intersect i
      else c.interval? component := by
  cases i with
  | none =>
      have same : (c.keep condition key none).interval? component = c.interval? component := rfl
      rw [same, Option.merge_none_right, ite_self]
  | some i =>
      refine (interval?_restrict _ _ _ _).trans ?_
      split
      · rename_i here
        rw [here]
        exact some_merged c (.key key) i
      · rfl

theorem complete_keep (c : Constraints) (condition : Condition) (key : SchemaId)
    (i : Option Interval) : (c.keep condition key i).complete = (c.complete && i.isSome) := by
  cases i with
  | none => exact (Bool.and_false _).symm
  | some i => exact (Bool.and_true _).symm

theorem nodup_keep {c : Constraints} (once : (c.intervals.map Prod.fst).Nodup)
    (condition : Condition) (key : SchemaId) (i : Option Interval) :
    ((c.keep condition key i).intervals.map Prod.fst).Nodup := by
  cases i with
  | none => exact once
  | some i => exact nodup_replace once

/-- What is said of a key in addition may be said in any order. -/
theorem merge_right_comm (before : Option Interval) {i j : Option Interval}
    (inOrder : ∀ interval ∈ i, interval.InOrder) (inOrder' : ∀ interval ∈ j, interval.InOrder) :
    (before.merge Interval.intersect i).merge Interval.intersect j =
      (before.merge Interval.intersect j).merge Interval.intersect i := by
  cases i with
  | none => cases before <;> cases j <;> rfl
  | some i =>
      cases j with
      | none => cases before <;> rfl
      | some j =>
          have swapped := Interval.intersect_comm (inOrder i rfl) (inOrder' j rfl)
          cases before with
          | none => exact congrArg some swapped
          | some before =>
              refine congrArg some ?_
              rw [Interval.intersect_assoc, swapped, ← Interval.intersect_assoc]

theorem inOrder_intervalOf (predicate : Predicate) (value : Option Value) :
    ∀ interval ∈ intervalOf predicate value, interval.InOrder := by
  intro interval said
  cases predicate with
  | words w => cases said
  | compare c =>
      cases value with
      | none => cases said
      | some bound => exact Interval.inOrder_ofComparison said

/-- The same said in another order. -/
structure Alike (c c' : Constraints) : Prop where
  kept : c.kept.Perm c'.kept
  said : ∀ component, c.interval? component = c'.interval? component
  once : (c.intervals.map Prod.fst).Nodup
  once' : (c'.intervals.map Prod.fst).Nodup
  complete : c.complete = c'.complete

theorem Alike.refl {c : Constraints} (once : (c.intervals.map Prod.fst).Nodup) : Alike c c :=
  ⟨.refl _, fun _ => rfl, once, once, rfl⟩

theorem Alike.trans {a b c : Constraints} (first : Alike a b) (second : Alike b c) :
    Alike a c where
  kept := first.kept.trans second.kept
  said component := (first.said component).trans (second.said component)
  once := first.once
  once' := second.once'
  complete := first.complete.trans second.complete

theorem Alike.keep {c c' : Constraints} (alike : Alike c c') (condition : Condition)
    (key : SchemaId) (i : Option Interval) :
    Alike (c.keep condition key i) (c'.keep condition key i) where
  kept := by
    rw [kept_keep, kept_keep]
    exact alike.kept.append_right _
  said component := by rw [interval?_keep, interval?_keep, alike.said]
  once := nodup_keep alike.once condition key i
  once' := nodup_keep alike.once' condition key i
  complete := by rw [complete_keep, complete_keep, alike.complete]

/-- Two conditions may be kept in either order. -/
theorem alike_keep_keep {c : Constraints} (once : (c.intervals.map Prod.fst).Nodup)
    (first second : Condition) (key key' : SchemaId) {i j : Option Interval}
    (inOrder : ∀ interval ∈ i, interval.InOrder) (inOrder' : ∀ interval ∈ j, interval.InOrder) :
    Alike ((c.keep first key i).keep second key' j) ((c.keep second key' j).keep first key i) where
  kept := by
    rw [kept_keep, kept_keep, kept_keep, kept_keep, List.append_assoc, List.append_assoc]
    exact (List.Perm.swap second first []).append_left c.kept
  said component := by
    rw [interval?_keep, interval?_keep, interval?_keep, interval?_keep]
    split_ifs
    · exact merge_right_comm _ inOrder inOrder'
    all_goals rfl
  once := nodup_keep (nodup_keep once first key i) second key' j
  once' := nodup_keep (nodup_keep once second key' j) first key i
  complete := by
    rw [complete_keep, complete_keep, complete_keep, complete_keep, Bool.and_right_comm]

/-! ## All conditions -/

namespace Effect

/-- What is said of a key stands in order. -/
def InOrder : Effect → Prop
  | keep _ i => ∀ interval ∈ i, interval.InOrder
  | _ => True

theorem nodup_apply {e : Effect} {condition : Condition} {c d : Constraints}
    (once : (c.intervals.map Prod.fst).Nodup) (applied : e.apply condition c = some d) :
    (d.intervals.map Prod.fst).Nodup := by
  cases e with
  | never => cases applied
  | idle =>
      obtain rfl := Option.some.inj applied
      exact once
  | keep key i =>
      obtain rfl := Option.some.inj applied
      exact nodup_keep once condition key i

theorem alike_apply (e : Effect) (condition : Condition) {c c' : Constraints}
    (alike : Alike c c') : Option.Rel Alike (e.apply condition c) (e.apply condition c') := by
  cases e with
  | never => exact .none
  | idle => exact .some alike
  | keep key i => exact .some (alike.keep condition key i)

/-- Two conditions come to the same in either order. -/
theorem alike_apply_apply {e e' : Effect} (inOrder : e.InOrder) (inOrder' : e'.InOrder)
    (first second : Condition) {c : Constraints} (once : (c.intervals.map Prod.fst).Nodup) :
    Option.Rel Alike ((e.apply first c).bind (e'.apply second))
      ((e'.apply second c).bind (e.apply first)) := by
  cases e with
  | never => cases e' <;> exact .none
  | idle => cases e' with
    | never => exact .none
    | idle => exact .some (.refl once)
    | keep key i => exact .some (.refl (nodup_keep once second key i))
  | keep key i => cases e' with
    | never => exact .none
    | idle => exact .some (.refl (nodup_keep once first key i))
    | keep key' j => exact .some (alike_keep_keep once first second key key' inOrder inOrder')

end Effect

/-- What conditions come to stands in order. -/
theorem Comes.inOrder {condition : Condition} {e : Effect} (comes : Comes types condition e) :
    e.InOrder := by
  cases comes with
  | passes | fails | unnamed | valueless => trivial
  | tests => exact inOrder_intervalOf _ _
  | lists =>
      rintro interval ⟨rfl⟩
      exact Interval.inOrder_ofList _

/-- The condition is not refused. -/
def Accepts (types : TypeCatalog Outcome) (condition : Condition) : Prop :=
  ∃ answer, addCondition types start condition = .ok answer

theorem accepts_iff (condition : Condition) :
    Accepts types condition ↔ ∃ e, Comes types condition e := by
  simp only [Accepts, addCondition_eq_ok_iff]
  exact ⟨fun ⟨_, e, comes, _⟩ => ⟨e, comes⟩, fun ⟨e, comes⟩ => ⟨_, e, comes, rfl⟩⟩

/-- Adds conditions where something may still match. -/
def addAfter (types : TypeCatalog Outcome) (conditions : List Condition) :
    Option Constraints → Outcome (Option Constraints)
  | some c => addAll types conditions c
  | none => .ok none

theorem addAll_cons {condition : Condition} {e : Effect} (comes : Comes types condition e)
    (rest : List Condition) (c : Constraints) :
    addAll types (condition :: rest) c = addAfter types rest (e.apply condition c) := by
  rw [addAll, comes.adds]
  cases e.apply condition c <;> rfl

theorem addAll_cons_cons {first second : Condition} {e e' : Effect} (comes : Comes types first e)
    (comes' : Comes types second e') (rest : List Condition) (c : Constraints) :
    addAll types (first :: second :: rest) c =
      addAfter types rest ((e.apply first c).bind (e'.apply second)) := by
  rw [addAll_cons comes]
  cases e.apply first c with
  | none => rfl
  | some d => exact addAll_cons comes' rest d

/-- Both have an answer, and the answers say the same. -/
def Agree (o o' : Outcome (Option Constraints)) : Prop :=
  ∃ answer answer', o = .ok answer ∧ o' = .ok answer' ∧ Option.Rel Alike answer answer'

theorem Agree.trans {a b c : Outcome (Option Constraints)} (first : Agree a b)
    (second : Agree b c) : Agree a c := by
  obtain ⟨answer, between, rfl, rfl, rel⟩ := first
  obtain ⟨_, answer', same, rfl, rel'⟩ := second
  obtain rfl := Except.ok.inj same
  refine ⟨answer, answer', rfl, rfl, ?_⟩
  cases rel with
  | none => exact rel'
  | some alike =>
      cases rel' with
      | some alike' => exact .some (alike.trans alike')

theorem agree_addAfter {rest : List Condition} {o o' : Option Constraints}
    (rel : Option.Rel Alike o o')
    (later : ∀ d d', Alike d d' → Agree (addAll types rest d) (addAll types rest d')) :
    Agree (addAfter types rest o) (addAfter types rest o') := by
  cases rel with
  | none => exact ⟨none, none, rfl, rfl, .none⟩
  | some alike => exact later _ _ alike

/-- What conditions add to what says the same says the same. -/
theorem agree_addAll {conditions : List Condition}
    (accepts : ∀ condition ∈ conditions, Accepts types condition) {c c' : Constraints}
    (alike : Alike c c') : Agree (addAll types conditions c) (addAll types conditions c') := by
  induction conditions generalizing c c' with
  | nil => exact ⟨_, _, rfl, rfl, .some alike⟩
  | cons condition rest ih =>
      obtain ⟨first, others⟩ := List.forall_mem_cons.mp accepts
      obtain ⟨e, comes⟩ := (accepts_iff condition).mp first
      rw [addAll_cons comes, addAll_cons comes]
      exact agree_addAfter (e.alike_apply condition alike) fun _ _ => ih others

/-- Conditions come to the same in any order, if none of them is refused. -/
theorem addAll_perm {conditions conditions' : List Condition}
    (perm : conditions.Perm conditions')
    (accepts : ∀ condition ∈ conditions, Accepts types condition) {c : Constraints}
    (once : (c.intervals.map Prod.fst).Nodup) :
    Agree (addAll types conditions c) (addAll types conditions' c) := by
  induction perm generalizing c with
  | nil => exact agree_addAll accepts (.refl once)
  | cons condition _ ih =>
      obtain ⟨first, others⟩ := List.forall_mem_cons.mp accepts
      obtain ⟨e, comes⟩ := (accepts_iff condition).mp first
      rw [addAll_cons comes, addAll_cons comes]
      cases applied : e.apply condition c with
      | none => exact ⟨none, none, rfl, rfl, .none⟩
      | some d => exact ih others (e.nodup_apply once applied)
  | swap first second rest =>
      obtain ⟨acceptsSecond, acceptsFirst, others⟩ := by simpa using accepts
      obtain ⟨e, comes⟩ := (accepts_iff first).mp acceptsFirst
      obtain ⟨e', comes'⟩ := (accepts_iff second).mp acceptsSecond
      rw [addAll_cons_cons comes' comes, addAll_cons_cons comes comes']
      exact agree_addAfter (Effect.alike_apply_apply comes'.inOrder comes.inOrder second first once)
        fun _ _ => agree_addAll others
  | trans perm _ ih ih' =>
      exact (ih accepts once).trans
        (ih' (fun condition member => accepts condition (perm.mem_iff.mpr member)) once)

/-- What conditions come to together with a vertex at the other end. -/
theorem Alike.toVertex {c c' : Constraints} (alike : Alike c c') (adjacent : Option UInt64) :
    Alike (c.toVertex adjacent) (c'.toVertex adjacent) := by
  cases adjacent with
  | none => exact alike
  | some v =>
      refine ⟨alike.kept, fun component => ?_, nodup_replace alike.once, nodup_replace alike.once',
        alike.complete⟩
      have said := alike.said component
      unfold interval? at said
      simp only [interval?, Constraints.toVertex, lookup_replace, said]

theorem compile_perm {conditions conditions' : List Condition} (perm : conditions.Perm conditions')
    (accepts : ∀ condition ∈ conditions, Accepts types condition) (adjacent : Option UInt64) :
    Agree (compile types conditions adjacent) (compile types conditions' adjacent) := by
  obtain ⟨answer, answer', added, added', rel⟩ :=
    addAll_perm perm accepts (c := start) List.nodup_nil
  refine ⟨answer.map (·.toVertex adjacent), answer'.map (·.toVertex adjacent), ?_, ?_, ?_⟩
  · rw [compile, added]
    rfl
  · rw [compile, added']
    rfl
  · cases rel with
    | none => exact .none
    | some alike => exact .some (alike.toVertex adjacent)

/-- A condition that is refused is never reached where conditions have an answer. -/
theorem eq_none_of_addAll {conditions : List Condition} {condition : Condition}
    (member : condition ∈ conditions) (refused : ¬ Accepts types condition) {c : Constraints}
    {answer : Option Constraints} (added : addAll types conditions c = .ok answer) :
    answer = none := by
  induction conditions generalizing c with
  | nil => exact absurd member List.not_mem_nil
  | cons first rest ih =>
      rw [addAll, Outcome.bind_eq_ok_iff] at added
      obtain ⟨between, addedFirst, added⟩ := added
      cases between with
      | none => exact (Except.ok.inj added).symm
      | some d =>
          obtain rfl | later := List.mem_cons.mp member
          · obtain ⟨e, comes, -⟩ := addCondition_eq_ok_iff.mp addedFirst
            exact absurd ((accepts_iff _).mpr ⟨e, comes⟩) refused
          · exact ih later added

theorem eq_none_of_compile {conditions : List Condition} {condition : Condition}
    (member : condition ∈ conditions) (refused : ¬ Accepts types condition)
    {adjacent : Option UInt64} {answer : Option Constraints}
    (compiled : compile types conditions adjacent = .ok answer) : answer = none := by
  obtain ⟨between, added, same⟩ := Outcome.bind_eq_ok_iff.mp compiled
  obtain rfl := eq_none_of_addAll member refused added
  exact (Except.ok.inj same).symm

/-- The intervals are the same, in another order. -/
theorem Alike.perm {c c' : Constraints} (alike : Alike c c') :
    c.intervals.Perm c'.intervals := by
  refine (List.perm_ext_iff_of_nodup (List.Nodup.of_map _ alike.once)
    (List.Nodup.of_map _ alike.once')).mpr ?_
  rintro ⟨component, i⟩
  have said := alike.said component
  unfold interval? at said
  constructor
  · intro member
    exact mem_of_lookup (said.symm.trans (lookup_of_mem alike.once member))
  · intro member
    exact mem_of_lookup (said.trans (lookup_of_mem alike.once' member))

end Constraints

end PropertyGraph
