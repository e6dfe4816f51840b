/-
# Proofs.Conditions -- what the conditions of a query come to

An element has values for some of the property keys of a schema (`Assignment`); a name
that the schema does not know has none.  Sorting conditions out keeps their meaning:

* `Constraints.Comes` is all that a condition can come to, whatever was said before it
  (`addCondition_eq_ok_iff`), and `Constraints.Added` what that means: it cannot be met, it
  says nothing, or it is kept together with the interval that says the same of its key
  (`added_of_addCondition`).
* `Constraints.Reflects` is what the conditions kept so far and their intervals have to
  do with each other.  Keeping one more condition keeps it (`Reflects.keep`), and so it
  holds of whatever conditions come to (`compiles_of_compile`).
* `compile_preserves` states both ways what an answer means.  One kind of condition is
  let through unread: that a name unknown to the schema differ from a value
  (`Condition.Waived`).  No element meets it.
-/
import PropertyGraph.Proofs.Intervals
import PropertyGraph.Proofs.Lookups
import PropertyGraph.Proofs.TypeSlices
import PropertyGraph.Query.Constraints

namespace PropertyGraph

set_option autoImplicit false

/-- What an element has for the property keys of a schema. -/
abbrev Assignment := SchemaId → Option Value

/-- The value of the property key of a name. -/
def TypeCatalog.valueOf (types : TypeCatalog Outcome) (values : Assignment) (name : String) :
    Option Value :=
  match types.byName name with
  | .ok (some key) => values key.id
  | _ => none

variable {types : TypeCatalog Outcome}

theorem TypeCatalog.valueOf_of_known {name : String} {key : RelationType}
    (known : types.byName name = .ok (some key)) (values : Assignment) :
    types.valueOf values name = values key.id := by
  rw [valueOf, known]

theorem TypeCatalog.valueOf_of_unknown {name : String} (unknown : types.byName name = .ok none)
    (values : Assignment) : types.valueOf values name = none := by
  rw [valueOf, unknown]

namespace Condition

/-- A condition on a key holds of what an element has for the key. -/
def Met (types : TypeCatalog Outcome) (values : Assignment) (c : Condition) : Prop :=
  ∀ name ∈ c.key, c.holds (types.valueOf values name) none = true

/-- The condition asks a name that the schema does not know to differ from a value. -/
def Waived (types : TypeCatalog Outcome) : Condition → Prop
  | .has name (.compare .notEqual) (some _) => types.byName name = .ok none
  | _ => False

/-- The condition lists the values that a property key may have. -/
def Lists (types : TypeCatalog Outcome) (c : Condition) (id : SchemaId) : Prop :=
  ∃ name key, c.key = some name ∧ types.byName name = .ok (some key) ∧ key.id = id ∧
    c.equalityValues.isSome = true

theorem met_iff {c : Condition} {name : String} (named : c.key = some name)
    (values : Assignment) :
    c.Met types values ↔ c.holds (types.valueOf values name) none = true := by
  simp [Met, named]

/-- No element differs from a value in a name that the schema does not know. -/
theorem not_met_of_waived {c : Condition} (waived : c.Waived types) (values : Assignment) :
    ¬ c.Met types values := by
  unfold Waived at waived
  split at waived
  · rename_i name v
    rw [met_iff rfl, TypeCatalog.valueOf_of_unknown waived]
    simp [holds, Predicate.test]
  · exact waived.elim

theorem not_waived_of_known {c : Condition} {name : String} {key : RelationType}
    (named : c.key = some name) (known : types.byName name = .ok (some key)) :
    ¬ c.Waived types := by
  intro waived
  unfold Waived at waived
  split at waived
  · obtain rfl := Option.some.inj named
    cases known.symm.trans waived
  · exact waived

/-- An interval, where there is one, says of a key what a condition says. -/
structure Reads (c : Condition) (i : Option Interval) : Prop where
  same : ∀ interval ∈ i, ∀ v : Option Value, c.holds v none = v.any interval.contains
  points : i.any Interval.isPoints = c.equalityValues.isSome
  distinct : ∀ interval ∈ i, interval.Distinct

theorem reads_has (name : String) (predicate : Predicate) (value : Option Value) :
    (Condition.has name predicate value).Reads (Constraints.intervalOf predicate value) where
  same interval said v := by
    cases predicate with
    | words w => simp [Constraints.intervalOf] at said
    | compare c =>
        cases value with
        | none => simp [Constraints.intervalOf] at said
        | some bound =>
            cases v with
            | none => cases c <;> rfl
            | some v =>
                show Predicate.test (.compare c) (some v) (some bound) = interval.contains v
                rw [Interval.contains_ofComparison said]
                cases c <;> rfl
  points := by
    cases predicate with
    | words w => rfl
    | compare c => cases value <;> cases c <;> rfl
  distinct interval said := by
    cases predicate with
    | words w => simp [Constraints.intervalOf] at said
    | compare c =>
        cases value with
        | none => simp [Constraints.intervalOf] at said
        | some bound => exact Interval.distinct_ofComparison said

theorem reads_anyOf (name : String) {values : List Value} (filled : values.isEmpty = false) :
    (Condition.anyOf name values).Reads (some (Interval.ofList values)) where
  same interval said v := by
    obtain rfl := Option.some.inj said
    cases v with
    | none => rfl
    | some v => exact (Interval.contains_ofList values v).symm
  points := by
    simp [equalityValues, filled, Interval.ofList, Interval.isPoints]
  distinct interval said := by
    obtain rfl := Option.some.inj said
    exact Interval.distinct_ofList values

end Condition

namespace Constraints

/-! ## Intervals of components -/

theorem lookup_replace (component other : SortComponent) (i : Interval)
    (intervals : List (SortComponent × Interval)) :
    (replace component i intervals).lookup other =
      if other = component then some i else intervals.lookup other := by
  induction intervals with
  | nil => simp [replace, lookup_cons_eq_ite]
  | cons first rest ih =>
      obtain ⟨c, j⟩ := first
      by_cases here : c = component
      · subst here
        by_cases same : other = c <;> simp [replace, lookup_cons_eq_ite, same]
      · simp only [replace, if_neg here, lookup_cons_eq_ite, ih]
        by_cases same : other = c
        · subst same
          simp [here]
        · simp [same]

theorem mem_replace {component : SortComponent} {i : Interval} {p : SortComponent × Interval}
    {intervals : List (SortComponent × Interval)} (member : p ∈ replace component i intervals) :
    p = (component, i) ∨ p ∈ intervals := by
  induction intervals with
  | nil => exact .inl (List.mem_singleton.mp member)
  | cons first rest ih =>
      obtain ⟨c, j⟩ := first
      simp only [replace] at member
      split at member
      · obtain same | inRest := List.mem_cons.mp member
        · exact .inl same
        · exact .inr (List.mem_cons_of_mem _ inRest)
      · obtain same | inRest := List.mem_cons.mp member
        · exact .inr (same ▸ List.mem_cons_self)
        · exact (ih inRest).imp_right (List.mem_cons_of_mem _)

theorem nodup_replace {component : SortComponent} {i : Interval}
    {intervals : List (SortComponent × Interval)} (once : (intervals.map Prod.fst).Nodup) :
    ((replace component i intervals).map Prod.fst).Nodup := by
  induction intervals with
  | nil => simp [replace]
  | cons first rest ih =>
      obtain ⟨c, j⟩ := first
      obtain ⟨absent, onceRest⟩ := List.nodup_cons.mp once
      by_cases here : c = component
      · subst here
        simpa [replace] using once
      · simp only [replace, if_neg here, List.map_cons, List.nodup_cons]
        refine ⟨?_, ih onceRest⟩
        intro member
        obtain ⟨p, inReplaced, same⟩ := List.mem_map.mp member
        obtain rfl | inRest := mem_replace inReplaced
        · exact here same.symm
        · exact absent (List.mem_map.mpr ⟨p, inRest, same⟩)

/-- The interval of the key of a component after something more is said of it. -/
def merged (c : Constraints) (component : SortComponent) (i : Interval) : Interval :=
  match c.interval? component with
  | some before => before.intersect i
  | none => i

theorem interval?_restrict (c : Constraints) (component other : SortComponent) (i : Interval) :
    (c.restrict component i).interval? other =
      if other = component then some (c.merged component i) else c.interval? other :=
  lookup_replace component other _ c.intervals

/-- Every property key with an interval has a value in it. -/
def Admits (c : Constraints) (values : Assignment) : Prop :=
  ∀ id i, c.interval? (.key id) = some i → ∃ v, values id = some v ∧ i.contains v = true

/-- The interval of a key is a set of points. -/
def Pinned (c : Constraints) (key : SchemaId) : Prop :=
  ∃ i, c.interval? (.key key) = some i ∧ i.isPoints = true

section Restrict

variable {c : Constraints} (component : SortComponent) (key id : SchemaId) (i : Interval)

/-- What is said of a component is said on top of what was said of it before. -/
theorem contains_merged_iff (v : Value) :
    (c.merged component i).contains v = true ↔
      (∀ before, c.interval? component = some before → before.contains v = true) ∧
        i.contains v = true := by
  unfold merged
  split
  · rename_i before said
    simp [said, Interval.contains_intersect]
  · rename_i unsaid
    simp [unsaid]

theorem isPoints_merged_iff :
    (c.merged component i).isPoints = true ↔
      (∃ before, c.interval? component = some before ∧ before.isPoints = true) ∨
        i.isPoints = true := by
  unfold merged
  split
  · rename_i before said
    simp [said, Interval.isPoints_intersect]
  · rename_i unsaid
    simp [unsaid]

theorem distinct_merged (distinct : ∀ p ∈ c.intervals, p.2.Distinct) (once : i.Distinct) :
    (c.merged component i).Distinct := by
  unfold merged
  split
  · rename_i before said
    exact (distinct _ (mem_of_lookup said)).intersect once
  · exact once

theorem interval?_restrict_self :
    (c.restrict (.key key) i).interval? (.key key) = some (c.merged (.key key) i) := by
  rw [interval?_restrict, if_pos rfl]

variable {key id} in
theorem interval?_restrict_of_ne (other : id ≠ key) :
    (c.restrict (.key key) i).interval? (.key id) = c.interval? (.key id) := by
  rw [interval?_restrict, if_neg]
  rintro ⟨rfl⟩
  exact other rfl

/-- What is said of a key on top of all else has to be met on top of all else. -/
theorem admits_restrict_iff (values : Assignment) :
    (c.restrict (.key key) i).Admits values ↔
      c.Admits values ∧ ∃ v, values key = some v ∧ i.contains v = true := by
  constructor
  · intro admits
    obtain ⟨v, has, contained⟩ := admits key _ (interval?_restrict_self key i)
    obtain ⟨before, here⟩ := (contains_merged_iff _ _ _).mp contained
    refine ⟨fun id j found => ?_, v, has, here⟩
    by_cases same : id = key
    · subst same
      exact ⟨v, has, before j found⟩
    · exact admits id j ((interval?_restrict_of_ne i same).trans found)
  · rintro ⟨admits, v, has, contained⟩ id j found
    by_cases same : id = key
    · subst same
      obtain rfl := Option.some.inj ((interval?_restrict_self id i).symm.trans found)
      refine ⟨v, has, (contains_merged_iff _ _ _).mpr ⟨fun before said => ?_, contained⟩⟩
      obtain ⟨w, also, within⟩ := admits id before said
      obtain rfl := Option.some.inj (has.symm.trans also)
      exact within
    · exact admits id j ((interval?_restrict_of_ne i same).symm.trans found)

/-- Points pin a key, on top of those that were pinned before. -/
theorem pinned_restrict_iff :
    (c.restrict (.key key) i).Pinned id ↔ c.Pinned id ∨ key = id ∧ i.isPoints = true := by
  by_cases same : key = id
  · subst same
    rw [Pinned, interval?_restrict_self]
    simp only [Option.some.injEq, exists_eq_left', isPoints_merged_iff, Pinned, true_and]
  · rw [Pinned, interval?_restrict_of_ne i (Ne.symm same)]
    simp [Pinned, same]

end Restrict

/-! ## One condition -/

/-- What a condition comes to that is not refused: nothing matches, it says nothing, or it
is kept with what it says of a key. -/
inductive Effect where
  | never
  | idle
  | keep (key : SchemaId) (i : Option Interval)

/-- What is said after a condition. -/
def Effect.apply (condition : Condition) : Effect → Constraints → Option Constraints
  | .never, _ => none
  | .idle, c => some c
  | .keep key i, c => some (c.keep condition key i)

/-- What the conditions come to that are not refused, by what the schema has under their
names and by the values that they list. -/
inductive Comes (types : TypeCatalog Outcome) : Condition → Effect → Prop
  | passes {name : String} {predicate : Predicate} {value : Option Value}
      (unknown : types.byName name = .ok none) (holds : holdsOfAbsent predicate value = true) :
      Comes types (.has name predicate value) .idle
  | fails {name : String} {predicate : Predicate} {value : Option Value}
      (unknown : types.byName name = .ok none) (holds : holdsOfAbsent predicate value = false) :
      Comes types (.has name predicate value) .never
  | tests {name : String} {predicate : Predicate} {value : Option Value} {key : RelationType}
      (known : types.byName name = .ok (some key))
      (suits : checkKey key predicate value.toList = .ok ()) :
      Comes types (.has name predicate value) (.keep key.id (intervalOf predicate value))
  | unnamed {name : String} {values : List Value} (unknown : types.byName name = .ok none) :
      Comes types (.anyOf name values) .never
  | valueless {name : String} {key : RelationType} (known : types.byName name = .ok (some key)) :
      Comes types (.anyOf name []) .never
  | lists {name : String} {values : List Value} {key : RelationType}
      (known : types.byName name = .ok (some key)) (filled : values.isEmpty = false)
      (suits : checkKey key (.compare .equal) values = .ok ()) :
      Comes types (.anyOf name values) (.keep key.id (some (Interval.ofList values)))

/-- A condition comes to the same whatever was said before it. -/
theorem Comes.adds {condition : Condition} {e : Effect} (comes : Comes types condition e)
    (c : Constraints) : addCondition types c condition = .ok (e.apply condition c) := by
  cases comes with
  | passes unknown holds | fails unknown holds =>
      simp only [addCondition, unknown, holds]
      rfl
  | tests known suits =>
      simp only [addCondition, known, Outcome.ok_bind, suits]
      rfl
  | unnamed unknown =>
      simp only [addCondition, unknown]
      rfl
  | valueless known =>
      simp only [addCondition, known]
      rfl
  | lists known filled suits =>
      simp only [addCondition, known, filled, Outcome.ok_bind, suits]
      rfl

/-- All that adding a condition can come to. -/
theorem addCondition_eq_ok_iff {c : Constraints} {condition : Condition}
    {answer : Option Constraints} :
    addCondition types c condition = .ok answer ↔
      ∃ e, Comes types condition e ∧ answer = e.apply condition c := by
  constructor
  · intro added
    have settled : ∀ {e}, Comes types condition e →
        ∃ e, Comes types condition e ∧ answer = e.apply condition c := fun comes =>
      ⟨_, comes, Except.ok.inj (added.symm.trans (comes.adds c))⟩
    cases condition with
    | labels allowed => cases added
    | has name predicate value =>
        obtain ⟨known, found, done⟩ := Outcome.bind_eq_ok_iff.mp added
        cases known with
        | none =>
            cases holds : holdsOfAbsent predicate value with
            | true => exact settled (.passes found holds)
            | false => exact settled (.fails found holds)
        | some key =>
            obtain ⟨_, suits, -⟩ := Outcome.bind_eq_ok_iff.mp done
            exact settled (.tests found suits)
    | anyOf name values =>
        obtain ⟨known, found, done⟩ := Outcome.bind_eq_ok_iff.mp added
        cases known with
        | none => exact settled (.unnamed found)
        | some key =>
            cases filled : values.isEmpty with
            | true =>
                obtain rfl := List.isEmpty_iff.mp filled
                exact settled (.valueless found)
            | false =>
                dsimp only at done
                rw [filled, if_neg Bool.false_ne_true] at done
                obtain ⟨_, suits, -⟩ := Outcome.bind_eq_ok_iff.mp done
                exact settled (.lists found filled suits)
  · rintro ⟨e, comes, rfl⟩
    exact comes.adds c

/-- What adding a condition can come to: no element meets it, it is dropped, or it is kept
with what it says of the key that it names. -/
inductive Added (types : TypeCatalog Outcome) (c : Constraints) (condition : Condition) :
    Option Constraints → Prop
  | unmet (unwaived : ¬ condition.Waived types)
      (never : ∀ values, ¬ condition.Met types values) : Added types c condition none
  | dropped (idle : condition.Waived types ∨ ∀ values, condition.Met types values) :
      Added types c condition (some c)
  | kept {name : String} {key : RelationType} {i : Option Interval}
      (named : condition.key = some name) (known : types.byName name = .ok (some key))
      (reads : condition.Reads i) : Added types c condition (some (c.keep condition key.id i))

theorem holdsOfAbsent_of_waived {name : String} {predicate : Predicate} {value : Option Value}
    (waived : (Condition.has name predicate value).Waived types) :
    holdsOfAbsent predicate value = true := by
  unfold Condition.Waived at waived
  split at waived
  · rename_i same
    obtain ⟨rfl, rfl, rfl⟩ := same
    rfl
  · exact waived.elim

/-- But for the conditions that are waived, what passes without a value is what is tested. -/
theorem holdsOfAbsent_eq_test {name : String} {predicate : Predicate} {value : Option Value}
    (unknown : types.byName name = .ok none)
    (unwaived : ¬ (Condition.has name predicate value).Waived types) :
    holdsOfAbsent predicate value = predicate.test none value := by
  cases predicate with
  | words w => cases value <;> rfl
  | compare comparison =>
      cases value with
      | none => cases comparison <;> rfl
      | some bound =>
          cases comparison with
          | notEqual => exact absurd unknown unwaived
          | _ => rfl

/-- A test of a name that the schema does not know. -/
theorem added_of_unknown (c : Constraints) {name : String} (predicate : Predicate)
    (value : Option Value) (unknown : types.byName name = .ok none) :
    Added types c (.has name predicate value)
      (if holdsOfAbsent predicate value then some c else none) := by
  have unread : ∀ values, (Condition.has name predicate value).Met types values ↔
      predicate.test none value = true := by
    intro values
    rw [Condition.met_iff rfl, TypeCatalog.valueOf_of_unknown unknown]
    rfl
  by_cases waived : (Condition.has name predicate value).Waived types
  · rw [if_pos (holdsOfAbsent_of_waived waived)]
    exact .dropped (.inl waived)
  · rw [holdsOfAbsent_eq_test unknown waived]
    split
    · rename_i holds
      exact .dropped (.inr fun values => (unread values).mpr holds)
    · rename_i fails
      exact .unmet waived fun values met => fails ((unread values).mp met)

theorem added_of_addCondition {c : Constraints} {condition : Condition}
    {answer : Option Constraints} (added : addCondition types c condition = .ok answer) :
    Added types c condition answer := by
  obtain ⟨e, comes, rfl⟩ := addCondition_eq_ok_iff.mp added
  cases comes with
  | @passes name predicate value unknown holds | @fails name predicate value unknown holds =>
      have tested := added_of_unknown c predicate value unknown
      rwa [holds] at tested
  | tests known => exact .kept rfl known (Condition.reads_has _ _ _)
  | unnamed unknown =>
      refine .unmet id fun assigned met => ?_
      rw [Condition.met_iff rfl, TypeCatalog.valueOf_of_unknown unknown] at met
      cases met
  | @valueless name _ known =>
      refine .unmet id fun assigned met => ?_
      rw [Condition.met_iff rfl, Condition.holds] at met
      cases has : types.valueOf assigned name <;> simp [has] at met
  | lists known filled => exact .kept rfl known (Condition.reads_anyOf _ filled)

/-! ## All conditions -/

/-- What kept conditions and their intervals have to do with each other: each key has an
interval at most, the intervals say no more than the conditions, and no less where every
condition became one. -/
structure Reflects (types : TypeCatalog Outcome) (adjacent : Option UInt64) (c : Constraints) :
    Prop where
  once : (c.intervals.map Prod.fst).Nodup
  distinct : ∀ p ∈ c.intervals, p.2.Distinct
  otherEnd : c.interval? .adjacent = adjacent.map fun v => .point (.id v)
  noRelation : c.interval? .relation = none
  narrows : ∀ values, (∀ condition ∈ c.kept, condition.Met types values) → c.Admits values
  exact : c.complete = true → ∀ values, c.Admits values →
    ∀ condition ∈ c.kept, condition.Met types values
  placed : ∀ condition ∈ c.kept, ∃ name key, condition.key = some name ∧
    types.byName name = .ok (some key) ∧
    (c.complete = true → (c.interval? (.key key.id)).isSome = true)
  pinned : ∀ id, c.Pinned id ↔ ∃ condition ∈ c.kept, condition.Lists types id

theorem reflects_start : start.Reflects types none where
  once := List.nodup_nil
  distinct p member := absurd member List.not_mem_nil
  otherEnd := rfl
  noRelation := rfl
  narrows values _ id i found := by cases found
  exact _ values _ condition member := absurd member List.not_mem_nil
  placed condition member := absurd member List.not_mem_nil
  pinned id := by simp [Pinned, start, interval?]

/-- A condition that is kept is met as its key has a value in its interval. -/
theorem met_iff_contains {condition : Condition} {name : String} {key : RelationType}
    {i : Interval} (named : condition.key = some name) (known : types.byName name = .ok (some key))
    (reads : condition.Reads (some i)) (values : Assignment) :
    condition.Met types values ↔ ∃ v, values key.id = some v ∧ i.contains v = true := by
  rw [Condition.met_iff named, TypeCatalog.valueOf_of_known known, reads.same i rfl,
    Option.any_eq_true]

/-- The only key whose values a condition lists is the one that it names. -/
theorem lists_iff {condition : Condition} {name : String} {key : RelationType}
    (named : condition.key = some name) (known : types.byName name = .ok (some key))
    (id : SchemaId) :
    condition.Lists types id ↔ key.id = id ∧ condition.equalityValues.isSome = true := by
  constructor
  · rintro ⟨name', key', named', known', same, lists⟩
    obtain rfl := Option.some.inj (named.symm.trans named')
    obtain rfl := Option.some.inj (Except.ok.inj (known.symm.trans known'))
    exact ⟨same, lists⟩
  · rintro ⟨same, lists⟩
    exact ⟨name, key, named, known, same, lists⟩

/-- Keeping a condition that became no interval. -/
theorem Reflects.keep_none {adjacent : Option UInt64} {c : Constraints} {condition : Condition}
    {name : String} {key : RelationType} (reflects : c.Reflects types adjacent)
    (named : condition.key = some name) (known : types.byName name = .ok (some key))
    (reads : condition.Reads none) : (c.keep condition key.id none).Reflects types adjacent where
  once := reflects.once
  distinct := reflects.distinct
  otherEnd := reflects.otherEnd
  noRelation := reflects.noRelation
  narrows values met := reflects.narrows values fun condition member =>
    met condition (List.mem_append_left _ member)
  exact complete := by cases complete
  placed condition' member := by
    obtain early | last := List.mem_append.mp member
    · obtain ⟨name', key', named', known', -⟩ := reflects.placed condition' early
      exact ⟨name', key', named', known', fun never => absurd never Bool.false_ne_true⟩
    · obtain rfl := List.mem_singleton.mp last
      exact ⟨name, key, named, known, fun never => absurd never Bool.false_ne_true⟩
  pinned id := by
    have unlisted : ¬ condition.Lists types id := by
      rw [lists_iff named known, ← reads.points]
      rintro ⟨-, never⟩
      cases never
    show c.Pinned id ↔ ∃ condition' ∈ c.kept ++ [condition], condition'.Lists types id
    rw [reflects.pinned]
    simp [or_and_right, exists_or, unlisted]

/-- Keeping a condition together with its interval. -/
theorem Reflects.keep_some {adjacent : Option UInt64} {c : Constraints} {condition : Condition}
    {name : String} {key : RelationType} {i : Interval} (reflects : c.Reflects types adjacent)
    (named : condition.key = some name) (known : types.byName name = .ok (some key))
    (reads : condition.Reads (some i)) :
    (c.keep condition key.id (some i)).Reflects types adjacent where
  once := nodup_replace reflects.once
  distinct p member := by
    obtain rfl | before := mem_replace member
    · exact distinct_merged _ i reflects.distinct (reads.distinct i rfl)
    · exact reflects.distinct p before
  otherEnd := (interval?_restrict _ _ .adjacent i).trans reflects.otherEnd
  noRelation := (interval?_restrict _ _ .relation i).trans reflects.noRelation
  narrows values met := by
    refine (admits_restrict_iff _ _ _).mpr ⟨?_, ?_⟩
    · exact reflects.narrows values fun condition member =>
        met condition (List.mem_append_left _ member)
    · exact (met_iff_contains named known reads values).mp
        (met condition (List.mem_append_right _ List.mem_cons_self))
  exact complete values admits condition' member := by
    obtain ⟨before, inside⟩ := (admits_restrict_iff _ _ _).mp admits
    obtain early | last := List.mem_append.mp member
    · exact reflects.exact complete values before condition' early
    · obtain rfl := List.mem_singleton.mp last
      exact (met_iff_contains named known reads values).mpr inside
  placed condition' member := by
    obtain early | last := List.mem_append.mp member
    · obtain ⟨name', key', named', known', placed⟩ := reflects.placed condition' early
      refine ⟨name', key', named', known', fun complete => ?_⟩
      rw [keep, interval?_restrict]
      split
      · rfl
      · exact placed complete
    · obtain rfl := List.mem_singleton.mp last
      refine ⟨name, key, named, known, fun _ => ?_⟩
      rw [keep, interval?_restrict, if_pos rfl]
      rfl
  pinned id := by
    have listed : condition.Lists types id ↔ key.id = id ∧ i.isPoints = true := by
      rw [lists_iff named known, ← reads.points]
      rfl
    show (c.restrict (.key key.id) i).Pinned id ↔
      ∃ condition' ∈ c.kept ++ [condition], condition'.Lists types id
    rw [pinned_restrict_iff, reflects.pinned, ← listed]
    simp [or_and_right, exists_or]

/-- Keeping a condition keeps what conditions and intervals have to do with each other. -/
theorem Reflects.keep {adjacent : Option UInt64} {c : Constraints} {condition : Condition}
    {name : String} {key : RelationType} {i : Option Interval}
    (reflects : c.Reflects types adjacent) (named : condition.key = some name)
    (known : types.byName name = .ok (some key)) (reads : condition.Reads i) :
    (c.keep condition key.id i).Reflects types adjacent := by
  cases i with
  | none => exact reflects.keep_none named known reads
  | some i => exact reflects.keep_some named known reads

/-- A vertex at the other end comes on top of what is said of keys. -/
theorem Reflects.toVertex {c : Constraints} (reflects : c.Reflects types none)
    (adjacent : Option UInt64) : (c.toVertex adjacent).Reflects types adjacent := by
  cases adjacent with
  | none => exact reflects
  | some v =>
      have elsewhere : ∀ component, component ≠ .adjacent →
          (c.toVertex (some v)).interval? component = c.interval? component := by
        intro component other
        exact (lookup_replace _ _ _ _).trans (if_neg other)
      have ofKey : ∀ id, (c.toVertex (some v)).interval? (.key id) = c.interval? (.key id) :=
        fun id => elsewhere _ (by rintro ⟨⟩)
      have admits : ∀ values, (c.toVertex (some v)).Admits values ↔ c.Admits values := by
        intro values
        simp only [Admits, ofKey]
      exact {
        once := nodup_replace reflects.once
        distinct := by
          intro p member
          obtain rfl | before := mem_replace member
          · exact List.pairwise_singleton _ _
          · exact reflects.distinct p before
        otherEnd := (lookup_replace _ _ _ _).trans (if_pos rfl)
        noRelation := (elsewhere _ (by rintro ⟨⟩)).trans reflects.noRelation
        narrows := fun values met => (admits values).mpr (reflects.narrows values met)
        exact := fun complete values inside =>
          reflects.exact complete values ((admits values).mp inside)
        placed := by
          intro condition member
          obtain ⟨name, key, named, known, placed⟩ := reflects.placed condition member
          exact ⟨name, key, named, known, by rwa [ofKey]⟩
        pinned := fun id => by
          rw [Pinned, ofKey]
          exact reflects.pinned id }

/-- What adding the conditions of a list comes to: each is kept, holds of all, or is
waived, and nothing else is kept. -/
structure Settles (types : TypeCatalog Outcome) (conditions : List Condition)
    (before c : Constraints) : Prop where
  reflects : c.Reflects types none
  earlier : ∀ condition ∈ before.kept, condition ∈ c.kept
  settled : ∀ condition ∈ conditions,
    condition ∈ c.kept ∨ condition.Waived types ∨ ∀ values, condition.Met types values
  asked : ∀ condition ∈ c.kept, condition ∈ before.kept ∨ condition ∈ conditions

theorem kept_keep (c : Constraints) (condition : Condition) (key : SchemaId)
    (i : Option Interval) : (c.keep condition key i).kept = c.kept ++ [condition] := by
  cases i <;> rfl

/-- What conditions come to that are added in turn. -/
theorem settles_of_addAll {conditions : List Condition} {before c : Constraints}
    (reflects : before.Reflects types none)
    (added : addAll types conditions before = .ok (some c)) :
    Settles types conditions before c := by
  induction conditions generalizing before with
  | nil =>
      obtain rfl := Option.some.inj (Except.ok.inj added)
      exact ⟨reflects, fun _ => id, fun _ member => absurd member List.not_mem_nil, fun _ => .inl⟩
  | cons condition rest ih =>
      simp only [addAll, Outcome.bind_eq_ok_iff] at added
      obtain ⟨step, first, added⟩ := added
      cases added_of_addCondition first with
      | unmet unwaived never => cases added
      | dropped idle =>
          have later := ih reflects added
          exact ⟨later.reflects, later.earlier,
            List.forall_mem_cons.mpr ⟨.inr idle, later.settled⟩,
            fun other member => (later.asked other member).imp_right (List.mem_cons_of_mem _)⟩
      | kept named known reads =>
          have later := ih (reflects.keep named known reads) added
          have earlier := later.earlier
          have asked := later.asked
          rw [kept_keep] at earlier asked
          have here : condition ∈ c.kept :=
            earlier condition (List.mem_append_right _ List.mem_cons_self)
          refine ⟨later.reflects, fun other member => earlier other (List.mem_append_left _ member),
            List.forall_mem_cons.mpr ⟨.inl here, later.settled⟩, fun other member => ?_⟩
          have origin := asked other member
          simp only [List.mem_append, List.mem_singleton] at origin
          simp only [List.mem_cons]
          tauto

/-- Where adding conditions finds that nothing matches, one of them is met by nothing. -/
theorem unmet_of_addAll {conditions : List Condition} {before : Constraints}
    (added : addAll types conditions before = .ok none) :
    ∃ condition ∈ conditions,
      ¬ condition.Waived types ∧ ∀ values, ¬ condition.Met types values := by
  induction conditions generalizing before with
  | nil => cases added
  | cons condition rest ih =>
      simp only [addAll, Outcome.bind_eq_ok_iff] at added
      obtain ⟨step, first, added⟩ := added
      cases step with
      | none =>
          cases added_of_addCondition first with
          | unmet unwaived never => exact ⟨condition, List.mem_cons_self, unwaived, never⟩
      | some c =>
          obtain ⟨other, member, never⟩ := ih added
          exact ⟨other, List.mem_cons_of_mem _ member, never⟩

/-! ## What the conditions of a query come to -/

/-- What conditions and a vertex at the other end come to. -/
structure Compiles (types : TypeCatalog Outcome) (conditions : List Condition)
    (adjacent : Option UInt64) (c : Constraints) : Prop where
  reflects : c.Reflects types adjacent
  settled : ∀ condition ∈ conditions,
    condition ∈ c.kept ∨ condition.Waived types ∨ ∀ values, condition.Met types values
  asked : ∀ condition ∈ c.kept, condition ∈ conditions

theorem compiles_of_compile {conditions : List Condition} {adjacent : Option UInt64}
    {c : Constraints} (compiled : compile types conditions adjacent = .ok (some c)) :
    c.Compiles types conditions adjacent := by
  simp only [compile, Outcome.bind_eq_ok_iff] at compiled
  obtain ⟨found, added, same⟩ := compiled
  obtain ⟨c', rfl, rfl⟩ := Option.map_eq_some_iff.mp (Except.ok.inj same)
  have settles := settles_of_addAll reflects_start added
  have keeps : (c'.toVertex adjacent).kept = c'.kept := by cases adjacent <;> rfl
  refine ⟨settles.reflects.toVertex adjacent, ?_, ?_⟩
  · rw [keeps]
    exact settles.settled
  · rw [keeps]
    intro condition member
    obtain never | asked := settles.asked condition member
    · exact absurd never List.not_mem_nil
    · exact asked

theorem unmet_of_compile {conditions : List Condition} {adjacent : Option UInt64}
    (compiled : compile types conditions adjacent = .ok none) :
    ∃ condition ∈ conditions,
      ¬ condition.Waived types ∧ ∀ values, ¬ condition.Met types values := by
  simp only [compile, Outcome.bind_eq_ok_iff] at compiled
  obtain ⟨found, added, same⟩ := compiled
  obtain rfl := Option.map_eq_none_iff.mp (Except.ok.inj same)
  exact unmet_of_addAll added

/-- The conditions of a query hold but for those that are waived exactly as long as those
that are kept hold. -/
theorem Compiles.met_iff {conditions : List Condition} {adjacent : Option UInt64}
    {c : Constraints} (compiles : c.Compiles types conditions adjacent) (values : Assignment) :
    (∀ condition ∈ conditions, condition.Met types values ∨ condition.Waived types) ↔
      ∀ condition ∈ c.kept, condition.Met types values := by
  constructor
  · intro met condition member
    obtain holds | waived := met condition (compiles.asked condition member)
    · exact holds
    · obtain ⟨name, key, named, known, -⟩ := compiles.reflects.placed condition member
      exact absurd waived (Condition.not_waived_of_known named known)
  · intro met condition member
    obtain kept | waived | holds := compiles.settled condition member
    · exact .inl (met condition kept)
    · exact .inr waived
    · exact .inl (holds values)

/-- Sorting conditions out keeps their meaning, but for conditions that are waived.  They
are met or waived exactly as long as something matches and what is kept of them is met;
where each became an interval, that is as long as each key has a value in its interval;
and the waived ones are not lost exactly as long as there are none where all else holds. -/
theorem compile_preserves {conditions : List Condition} {adjacent : Option UInt64}
    {answer : Option Constraints} (compiled : compile types conditions adjacent = .ok answer)
    (values : Assignment) :
    ((∀ condition ∈ conditions, condition.Met types values ∨ condition.Waived types) ↔
      ∃ c, answer = some c ∧ ∀ condition ∈ c.kept, condition.Met types values) ∧
    (∀ c, answer = some c → c.complete = true →
      ((∀ condition ∈ c.kept, condition.Met types values) ↔ c.Admits values)) ∧
    (((∀ condition ∈ conditions, condition.Met types values) ↔
        ∃ c, answer = some c ∧ ∀ condition ∈ c.kept, condition.Met types values) ↔
      ((∃ c, answer = some c ∧ ∀ condition ∈ c.kept, condition.Met types values) →
        ∀ condition ∈ conditions, ¬ condition.Waived types)) := by
  have exact : (∀ condition ∈ conditions, condition.Met types values ∨ condition.Waived types) ↔
      ∃ c, answer = some c ∧ ∀ condition ∈ c.kept, condition.Met types values := by
    cases answer with
    | none =>
        obtain ⟨condition, member, unwaived, unmet⟩ := unmet_of_compile compiled
        constructor
        · intro all
          exact ((all condition member).elim (unmet values) unwaived).elim
        · rintro ⟨c, never, -⟩
          cases never
    | some c =>
        rw [(compiles_of_compile compiled).met_iff values]
        simp
  refine ⟨exact, ?_, ?_⟩
  · rintro c rfl complete
    have reflects := (compiles_of_compile compiled).reflects
    exact ⟨reflects.narrows values, reflects.exact complete values⟩
  · rw [← exact]
    constructor
    · intro same all condition member waived
      exact Condition.not_met_of_waived waived values (same.mpr all condition member)
    · intro unwaived
      refine ⟨fun met condition member => .inl (met condition member), fun all => ?_⟩
      intro condition member
      exact (all condition member).resolve_right (unwaived all condition member)

end Constraints

/-- The schema of a key and a label with their names. -/
def network : TypeCatalog Outcome where
  byId := TypeSlice.followers.byId
  byName name :=
    .ok (if name = "since" then some TypeSlice.since
      else if name = "follows" then some TypeSlice.follows else none)
  withIndexes := TypeSlice.followers.withIndexes

namespace Constraints

/-- From ten on, and one of two times. -/
def sinceTenOrSo : List Condition :=
  [.has "since" (.compare .greaterEqual) (some (.long 10)),
    .anyOf "since" [.long 12, .long 5]]

/-- One of the times is left, and it meets both conditions. -/
theorem twelve_is_met :
    ∃ c, compile network sinceTenOrSo none = .ok (some c) ∧
      c.intervals = [(.key 1, .points [.long 12])] ∧
      ∀ condition ∈ sinceTenOrSo, condition.Met network fun _ => some (.long 12) := by
  have made : compile network sinceTenOrSo none =
      .ok (some ⟨sinceTenOrSo, [(.key 1, .points [.long 12])], true⟩) := rfl
  obtain ⟨same, exact, lossless⟩ := compile_preserves made fun _ => some (.long 12)
  refine ⟨_, made, rfl, (lossless.mpr ?_).mpr ⟨_, rfl, (exact _ rfl rfl).mpr ?_⟩⟩
  · rintro - condition member waived
    simp only [sinceTenOrSo, List.mem_cons, List.not_mem_nil, or_false] at member
    obtain rfl | rfl := member <;> exact waived
  · intro id i found
    refine ⟨.long 12, rfl, ?_⟩
    obtain ⟨-, rfl⟩ := Prod.mk.inj (List.mem_singleton.mp (mem_of_lookup found))
    rfl

/-- That a name unknown to the schema differ from a value is met by no element, and yet
nothing is kept of it. -/
theorem unknown_name_is_waived :
    ∃ conditions : List Condition, ∃ c, compile network conditions none = .ok (some c) ∧
      c.complete = true ∧ ∀ values, (∀ condition ∈ c.kept, condition.Met network values) ∧
        c.Admits values ∧ ¬ ∀ condition ∈ conditions, condition.Met network values := by
  let condition : Condition := .has "missing" (.compare .notEqual) (some (.long 1))
  have waived : condition.Waived network := rfl
  refine ⟨[condition], start, rfl, rfl, fun values => ⟨?_, ?_, fun met => ?_⟩⟩
  · exact fun _ member => absurd member List.not_mem_nil
  · intro id i found
    cases found
  · exact Condition.not_met_of_waived waived values (met condition List.mem_cons_self)

end Constraints

end PropertyGraph
