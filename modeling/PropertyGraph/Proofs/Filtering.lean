/-
# Proofs.Filtering -- what is left to check of the relations of a slice

A relation whose column lies in a slice of a plan need not be one that was asked for: the
plan says what is left to check of it.

* In a fitted slice nothing is (`fitted_slices`): every condition of the plan is about a key
  that the type is sorted by and holds of its value, and the other end is the vertex asked
  for.
* In any slice, the conditions of the plan and its direction are all that is left to check,
  unless a condition was waived or a vertex was asked for at the other end that the slice
  does not single out (`left_to_check`).  A plan does not record that vertex.
-/
import PropertyGraph.Proofs.Plans

namespace PropertyGraph

set_option autoImplicit false

open Bytes Column TypeSlice

variable {types : TypeCatalog Outcome}

/-! ## Fitted slices -/

/-- A type is sorted by the key of a condition, and a relation of it has a value for the key
of which the condition holds. -/
def Relation.Meets (types : TypeCatalog Outcome) (t : RelationType) (r : Relation)
    (condition : Condition) : Prop :=
  ∃ name key v, condition.key = some name ∧ types.byName name = .ok (some key) ∧
    key.id ∈ t.sortKey ∧ r.component t (.key key.id) = some v ∧
    condition.holds (some v) none = true

namespace Constraints

/-- Every component with an interval has a value in it. -/
def Answered (c : Constraints) (t : RelationType) (r : Relation) : Prop :=
  ∀ component i, c.interval? component = some i →
    ∃ v, r.component t component = some v ∧ i.contains v = true

variable {c : Constraints} {adjacent : Option UInt64} {t : RelationType} {r : Relation}

/-- The other end lies in its interval only if it is the vertex asked for. -/
theorem target_of_within {v : UInt64} {w : Value} (has : r.component t .adjacent = some w)
    (contained : (Interval.point (.id v)).contains w = true) : r.target = .vertex v := by
  obtain rfl := List.mem_singleton.mp (List.contains_iff_mem.mp contained)
  obtain ⟨v', target, same⟩ := Relation.component_adjacent_iff.mp has
  obtain rfl := Value.id.inj same
  exact target

/-- Where each condition became an interval, values in the intervals meet the conditions. -/
theorem Reflects.meets (reflects : c.Reflects types adjacent) (complete : c.complete = true)
    (answered : c.Answered t r) : ∀ condition ∈ c.kept, r.Meets types t condition := by
  intro condition member
  let values : Assignment := fun id => r.component t (.key id)
  have met : condition.Met types values :=
    reflects.exact complete values (fun id => answered (.key id)) condition member
  obtain ⟨name, key, named, known, placed⟩ := reflects.placed condition member
  obtain ⟨i, said⟩ := Option.isSome_iff_exists.mp (placed complete)
  obtain ⟨v, has, -⟩ := answered _ i said
  rw [Condition.met_iff named, TypeCatalog.valueOf_of_known known] at met
  refine ⟨name, key, v, named, known, Relation.mem_sortKey_of_component has, has, ?_⟩
  rw [← has]
  exact met

theorem Reflects.target (reflects : c.Reflects types adjacent) (answered : c.Answered t r) :
    ∀ v, adjacent = some v → r.target = .vertex v := by
  rintro v rfl
  obtain ⟨w, has, contained⟩ := answered .adjacent _ reflects.otherEnd
  exact target_of_within has contained

end Constraints

namespace Plan

/-- What is in the slice of all combined intervals has its values in all of them. -/
theorem answered_of_taken {f : Frame} {t : RelationType} {d : Direction} {r : Relation}
    {taken : List ComponentInterval} (distinct : (t.extendedSortKey d).Nodup)
    (stands : f.constraints.Taken (t.extendedSortKey d) taken)
    (whole : taken.length = f.constraints.intervals.length)
    (within : ∀ x ∈ taken, Within t r x) : f.constraints.Answered t r := by
  intro component i said
  obtain ⟨x, member, rfl⟩ := stands.mem_of_length_eq distinct whole said
  obtain ⟨v, has, contained⟩ := within x member
  obtain ⟨j, said', narrower⟩ := stands.sound member
  obtain rfl := Option.some.inj (said.symm.trans said')
  exact ⟨v, has, narrower v contained⟩

theorem nodup_extendedSortKey {t : RelationType} (distinct : t.sortKey.Nodup) (d : Direction) :
    (t.extendedSortKey d).Nodup := by
  rw [extendedSortKey_eq, List.nodup_append]
  refine ⟨List.Pairwise.map _ ?_ distinct, ?_, ?_⟩
  · exact fun _ _ differ same => differ (SortComponent.key.inj same)
  · unfold openIds
    split_ifs <;> decide
  · intro a inKeys b inIds same
    obtain ⟨key, -, rfl⟩ := List.mem_map.mp inKeys
    obtain never | never := implicit_of_mem_openIds inIds
    · cases same.trans never
    · cases same.trans never

/-- In a fitted slice that was made of a type, every interval has been asked for. -/
theorem answered_of_made {f : Frame} {t : RelationType} {reading : Reading}
    (wellFormed : types.WellFormed) (named : t.WellFormed types) (made : Made types f t reading)
    (filled : ∀ said ∈ f.constraints.intervals, said.2.isEmpty = false)
    (distinct : ∀ said ∈ f.constraints.intervals, said.2.Distinct) {sub : SubQuery}
    (member : sub ∈ reading.queries) (fitted : sub.fitted = true) {t' : RelationType}
    {r : Relation} {e : Entry} (listed : types.byId t'.id = .ok t')
    (written : write types t' r = .ok e) (inside : sub.slice.contains e.column = true) :
    f.constraints.complete = true ∧ f.constraints.Answered t' r := by
  cases made with
  | bothWays label unsaid made limited isFitted =>
      obtain rfl := List.mem_singleton.mp member
      refine ⟨isFitted.symm.trans fitted, fun component i said => ?_⟩
      rw [Constraints.interval?, unsaid] at said
      cases said
  | @oneWay c d queries proper usable expanded =>
      have sourceWellFormed := (usable.source wellFormed named).1
      have expands := usable.expands wellFormed named proper filled distinct expanded
      obtain ⟨taken, stands, made⟩ := expands.made sub member
      have isFitted := (subQuery_cases made).2.symm.trans fitted
      simp only [Bool.and_eq_true, beq_iff_eq] at isFitted
      obtain ⟨⟨complete, whole⟩, -⟩ := isFitted
      obtain ⟨rfl, rfl, within⟩ :=
        (subQuery_selects sourceWellFormed proper filled stands made listed written).mp inside
      exact ⟨complete, answered_of_taken (nodup_extendedSortKey sourceWellFormed.distinct _) stands
        whole within⟩

/-- Of a relation whose column lies in a fitted slice nothing is left to check: every
condition of the plan is about a key that its type is sorted by and holds of its value, and
its other end is the vertex that was asked for. -/
theorem fitted_slices (wellFormed : types.WellFormed) {s : PlanSetting} {q : VertexQuery}
    {category : RelationCategory} {p : Plan} (built : build types s q category = .ok p)
    {sub : SubQuery} (member : sub ∈ p.queries) (fitted : sub.fitted = true) {t : RelationType}
    {r : Relation} {e : Entry} (listed : types.byId t.id = .ok t)
    (written : write types t r = .ok e) (inside : sub.slice.contains e.column = true) :
    (∀ condition ∈ p.conditions, r.Meets types t condition) ∧
      ∀ v, q.adjacent = some v → r.target = .vertex v := by
  obtain ⟨f, -, compiled, conditions, origin⟩ := (build_cases built).2.query_cases member
  have reflects := (Constraints.compiles_of_compile compiled).reflects
  obtain ⟨-, read⟩ | ⟨filled, name, -, t', -, reading, known, -, -, made, inReading⟩ := origin
  · -- A scan is fitted only where nothing was asked.
    obtain ⟨slice, -, same⟩ := Outcome.bind_eq_ok_iff.mp read
    obtain rfl := Except.ok.inj same
    simp only [Bool.and_eq_true, List.isEmpty_iff, Option.isNone_iff_eq_none] at fitted
    obtain ⟨⟨-, unasked⟩, anyEnd⟩ := fitted
    rw [conditions, unasked, anyEnd]
    exact ⟨fun _ never => absurd never List.not_mem_nil, fun _ never => by cases never⟩
  · obtain ⟨complete, answered⟩ := answered_of_made wellFormed (wellFormed.named name t' known) made
      filled reflects.distinct inReading fitted listed written inside
    rw [conditions]
    exact ⟨reflects.meets complete answered, reflects.target answered⟩

/-- A reader that has no changes of its own. -/
def unchanged : PlanSetting := ⟨.default, false⟩

/-- Who has been followed since ten, and is the fifth vertex. -/
def fifthSinceTen : VertexQuery :=
  ⟨.out, ["follows"], [.has "since" (.compare .equal) (some (.long 10))], [], 5, some 5⟩

/-- The time and the vertex are found in the column. -/
theorem fifth_since_ten_is_fitted :
    ∃ p sub e, build network unchanged fifthSinceTen .edge = .ok p ∧ sub ∈ p.queries ∧
      sub.fitted = true ∧ write network follows (followed 10) = .ok e ∧
      sub.slice.contains e.column = true ∧
      (followed 10).Meets network follows (.has "since" (.compare .equal) (some (.long 10))) ∧
      (followed 10).target = .vertex 5 := by
  obtain ⟨p, sub, e, built, queries, fitted, conditions, written, inside⟩ :
      ∃ p sub e, build network unchanged fifthSinceTen .edge = .ok p ∧ p.queries = [sub] ∧
        sub.fitted = true ∧ p.conditions = fifthSinceTen.conditions ∧
        write network follows (followed 10) = .ok e ∧ sub.slice.contains e.column = true :=
    ⟨_, _, _, rfl, rfl, rfl, rfl, rfl, rfl⟩
  have member : sub ∈ p.queries := queries ▸ List.mem_cons_self
  obtain ⟨meets, target⟩ :=
    fitted_slices wellFormed_network built member fitted rfl written inside
  exact ⟨p, sub, e, built, member, fitted, written, inside,
    meets _ (conditions ▸ List.mem_cons_self), target 5 rfl⟩

end Plan

/-! ## The other end -/

namespace Constraints

variable {c : Constraints} {v : UInt64}

/-- Where the other end stands first, a combination is about it. -/
theorem Taken.mem_first (otherEnd : c.interval? .adjacent = some (.point (.id v)))
    {rest : List SortComponent} {taken : List ComponentInterval}
    (stands : c.Taken (.adjacent :: rest) taken) : ∃ x ∈ taken, x.component = .adjacent := by
  cases stands with
  | stop unsaid => cases otherEnd.symm.trans unsaid
  | point said inValues next => exact ⟨_, List.mem_cons_self, rfl⟩
  | range said => cases otherEnd.symm.trans said

/-- A combination is about the other end if all keys in front of it have points. -/
theorem Taken.mem_adjacent_iff (otherEnd : c.interval? .adjacent = some (.point (.id v)))
    {keys : List SchemaId} {ids : List SortComponent}
    (first : .adjacent ∈ ids → ∃ rest, ids = .adjacent :: rest) {taken : List ComponentInterval}
    (stands : c.Taken (keys.map .key ++ ids) taken) :
    (∃ x ∈ taken, x.component = .adjacent) ↔ (∀ key ∈ keys, c.Pinned key) ∧ .adjacent ∈ ids := by
  induction keys generalizing taken with
  | nil =>
      constructor
      · rintro ⟨x, member, isEnd⟩
        refine ⟨fun _ never => absurd never List.not_mem_nil, ?_⟩
        have inIds := stands.prefix_components.subset (List.mem_map_of_mem member)
        rwa [isEnd] at inIds
      · rintro ⟨-, inIds⟩
        obtain ⟨rest, rfl⟩ := first inIds
        exact stands.mem_first otherEnd
  | cons key keys ih =>
      rw [List.forall_mem_cons]
      cases stands with
      | stop unsaid =>
          have free : ¬ c.Pinned key := by
            rintro ⟨i, said, -⟩
            cases unsaid.symm.trans said
          simp [free]
      | point said inValues next =>
          have here : c.Pinned key := ⟨_, said, rfl⟩
          simpa [here] using ih next
      | range said =>
          have free : ¬ c.Pinned key := by
            rintro ⟨i, said', points⟩
            obtain rfl := Option.some.inj (said.symm.trans said')
            cases points
          simp [free]

/-- Conditions list the values of a key just where a kept one does. -/
theorem Compiles.pinned_iff {conditions : List Condition} {adjacent : Option UInt64}
    (compiles : c.Compiles types conditions adjacent) (key : SchemaId) :
    c.Pinned key ↔ ∃ condition ∈ conditions, condition.Lists types key := by
  rw [compiles.reflects.pinned]
  constructor
  · rintro ⟨condition, kept, lists⟩
    exact ⟨condition, compiles.asked condition kept, lists⟩
  · rintro ⟨condition, member, lists⟩
    refine ⟨condition, ?_, lists⟩
    obtain ⟨name, t, named, known, -, listed⟩ := lists
    obtain kept | waived | always := compiles.settled condition member
    · exact kept
    · exact absurd waived (Condition.not_waived_of_known named known)
    · -- A key without a value has none of the values that are listed.
      have met := (Condition.met_iff named _).mp (always fun _ => none)
      rw [TypeCatalog.valueOf_of_known known, Condition.not_holds_of_listed listed] at met
      cases met

end Constraints

theorem TypeSlice.mem_openIds_iff {t : RelationType} (label : t.isLabel = true) (d : Direction) :
    .adjacent ∈ openIds t d ↔ t.multiplicity.isUnique d = false := by
  unfold openIds
  cases t.multiplicity.isUnique d <;> simp [label]

theorem TypeSlice.openIds_cons {t : RelationType} {d : Direction}
    (member : .adjacent ∈ openIds t d) : ∃ rest, openIds t d = .adjacent :: rest := by
  unfold openIds at member ⊢
  split_ifs at member ⊢ <;> simp at member ⊢

/-- The slices of a type in a direction single out the vertex at the other end: it stands in
the columns, and the query lists values for every key that stands in front of it. -/
def VertexQuery.SinglesOut (types : TypeCatalog Outcome) (q : VertexQuery) (t : RelationType)
    (d : Direction) : Prop :=
  q.types ≠ [] ∧ t.multiplicity.isUnique d = false ∧
    ∀ key ∈ t.sortKey, ∃ condition ∈ q.conditions, condition.Lists types key

/-- What a relation says of the keys that its type is sorted by. -/
def Relation.Agrees (t : RelationType) (r : Relation) (values : Assignment) : Prop :=
  ∀ key v, r.component t (.key key) = some v → values key = some v

/-- The same relation to another vertex. -/
def Relation.redirected (r : Relation) (v : UInt64) : Relation := { r with target := .vertex v }

/-- Only the other end of a relation tells where it leads to. -/
theorem Relation.component_redirected {t : RelationType} {r : Relation} {v : UInt64}
    {component : SortComponent} (other : component ≠ .adjacent) :
    (r.redirected v).component t component = r.component t component := by
  cases component with
  | key id => rfl
  | adjacent => exact absurd rfl other
  | relation => rfl

/-- A relation whose column lies in a slice of a plan and that passes what the plan says is
left to check, given what it has for property keys. -/
structure Plan.Leaves (types : TypeCatalog Outcome) (p : Plan) (sub : SubQuery) (t : RelationType)
    (r : Relation) (e : Entry) (values : Assignment) : Prop where
  listed : types.byId t.id = .ok t
  written : write types t r = .ok e
  inside : sub.slice.contains e.column = true
  agrees : r.Agrees t values
  met : ∀ condition ∈ p.conditions, condition.Met types values
  covered : p.direction.covers r.direction = true

/-- A relation that a query for a category asks for. -/
structure VertexQuery.Asks (types : TypeCatalog Outcome) (q : VertexQuery)
    (category : RelationCategory) (t : RelationType) (r : Relation) (values : Assignment) :
    Prop where
  named : q.types ≠ [] → ∃ name ∈ q.types, ∃ named, types.byName name = .ok (some named) ∧
    (t = named ∨ ∃ own, types.withIndexes named = .ok own ∧ t ∈ own)
  admitted : category.admits t = true
  covered : q.direction.covers r.direction = true
  met : ∀ condition ∈ q.conditions, condition.Met types values
  otherEnd : ∀ v, q.adjacent = some v → r.target = .vertex v

namespace Plan

/-- An edge that is written is written to any other vertex as well. -/
theorem write_redirected {t : RelationType} {r : Relation} {e : Entry} (label : t.isLabel = true)
    (written : write types t r = .ok e) (v : UInt64) :
    ∃ e', write types t (r.redirected v) = .ok e' := by
  obtain ⟨start, sorted, tail, parts⟩ := parts_of_write written
  have edge : t.kind = .edge := by
    cases kind : t.kind with
    | edge => rfl
    | property d c => simp [RelationType.isLabel, RelationType.isKey, kind] at label
  obtain ⟨⟨tail', value'⟩, ended⟩ : ∃ ending, writeTarget t (r.redirected v) = .ok ending := by
    simp only [writeTarget, Relation.redirected, edge]
    exact ⟨_, rfl⟩
  refine ⟨{ column := start ++ (oriented t.sortOrder sorted ++ tail'), value := value' }, ?_⟩
  unfold write
  simp only [Outcome.bind_eq_ok_iff, monadLift_self]
  refine ⟨(), (Fault.unless_eq_ok_iff _ _).mpr parts.proper, (),
    (Fault.unless_eq_ok_iff _ _).mpr parts.stored, (),
    (Fault.unless_eq_ok_iff _ _).mpr (beq_iff_eq.mpr parts.arity), start, parts.begun, sorted,
    parts.values, (tail', value'), ended, rfl⟩

/-- The columns of a type lie in the slice of a category just where it is of the category. -/
theorem contains_ofCategory {category : RelationCategory} {t : RelationType} {r : Relation}
    {e : Entry} (written : write types t r = .ok e) :
    (TypeSlice.ofCategory category).contains e.column = true ↔ category.admits t = true := by
  obtain ⟨start, sorted, tail, parts⟩ := parts_of_write written
  have begun := (head_eq parts.proper parts.stored).symm.trans parts.begun
  obtain rfl := Except.ok.inj begun
  rw [parts.column, Slice.contains, Bool.and_eq_true, decide_eq_true_eq, decide_eq_true_eq,
    ← List.not_le, le_iff, le_iff]
  simp only [List.cons_append, categoryByte]
  cases category <;> cases kind : t.isKey <;>
    simp [TypeSlice.ofCategory, RelationCategory.admits, RelationType.isLabel, kind,
      propertyByte, edgeByte]

theorem covers_of_toward {category : RelationCategory} {d d' stored : Direction}
    (toward : categoryDirection category d = some d') (covered : d'.covers stored = true) :
    d.covers stored = true := by
  revert toward covered
  cases category <;> cases d <;> cases d' <;> cases stored <;> decide

theorem admits_congr {t t' : RelationType} (same : t'.kind = t.kind) (category : RelationCategory) :
    category.admits t' = category.admits t := by
  have key : t'.isKey = t.isKey := by rw [RelationType.isKey, RelationType.isKey, same]
  cases category <;> simp [RelationCategory.admits, RelationType.isLabel, key]

/-- The slices of a type single out the other end if the combinations are about it. -/
theorem singlesOut_iff {f : Frame} {q : VertexQuery} {v : UInt64} {t : RelationType}
    {d : Direction} {taken : List ComponentInterval}
    (compiles : f.constraints.Compiles types q.conditions (some v)) (asked : q.types ≠ [])
    (label : t.isLabel = true) (stands : f.constraints.Taken (t.extendedSortKey d) taken) :
    q.SinglesOut types t d ↔ ∃ x ∈ taken, x.component = .adjacent := by
  rw [Constraints.Taken.mem_adjacent_iff compiles.reflects.otherEnd openIds_cons stands,
    mem_openIds_iff label]
  simp only [compiles.pinned_iff, VertexQuery.SinglesOut]
  tauto

/-- A slice that was made of a type contains the same edge to another vertex if the vertex is
not singled out, and holds only edges to the vertex asked for if it is. -/
theorem end_of_made {f : Frame} {t : RelationType} {reading : Reading} {q : VertexQuery} {v : UInt64}
    (wellFormed : types.WellFormed) (named : t.WellFormed types) (made : Made types f t reading)
    (filled : ∀ said ∈ f.constraints.intervals, said.2.isEmpty = false)
    (compiles : f.constraints.Compiles types q.conditions (some v)) (asked : q.types ≠ [])
    {sub : SubQuery} (member : sub ∈ reading.queries) {t' : RelationType} {r : Relation} {e : Entry}
    (label : t'.isLabel = true) (listed : types.byId t'.id = .ok t')
    (written : write types t' r = .ok e) (inside : sub.slice.contains e.column = true) :
    (q.SinglesOut types t' r.direction → r.target = .vertex v) ∧
      (¬ q.SinglesOut types t' r.direction → ∀ w e', write types t' (r.redirected w) = .ok e' →
        sub.slice.contains e'.column = true) := by
  have otherEnd := compiles.reflects.otherEnd
  cases made with
  | bothWays _ unsaid _ _ _ =>
      rw [Constraints.interval?, unsaid] at otherEnd
      cases otherEnd
  | @oneWay c d queries proper usable expanded =>
      have sourceWellFormed := (usable.source wellFormed named).1
      have expands := usable.expands wellFormed named proper filled compiles.reflects.distinct
        expanded
      obtain ⟨taken, stands, made⟩ := expands.made sub member
      have selects := fun {r' : Relation} {e' : Entry} =>
        subQuery_selects (r := r') (e := e') sourceWellFormed proper filled stands made listed
      obtain ⟨rfl, rfl, within⟩ := (selects written).mp inside
      rw [singlesOut_iff compiles asked label stands]
      constructor
      · rintro ⟨x, inTaken, isEnd⟩
        obtain ⟨w, has, contained⟩ := within x inTaken
        obtain ⟨i, said, narrower⟩ := stands.sound inTaken
        rw [isEnd] at has said
        obtain rfl := Option.some.inj (otherEnd.symm.trans said)
        exact Constraints.target_of_within has (narrower w contained)
      · intro free w e' written'
        refine (selects written').mpr ⟨rfl, rfl, fun x inTaken => ?_⟩
        obtain ⟨u, has, contained⟩ := within x inTaken
        refine ⟨u, ?_, contained⟩
        rw [← has]
        exact Relation.component_redirected fun isEnd => free ⟨x, inTaken, isEnd⟩

/-- Whatever is left in a slice is a relation that was asked for, but for conditions that
were waived and for its other end. -/
theorem Leaves.asks (wellFormed : types.WellFormed) {s : PlanSetting} {q : VertexQuery}
    {category : RelationCategory} {p : Plan} (built : build types s q category = .ok p)
    {sub : SubQuery} (member : sub ∈ p.queries) {t : RelationType} {r : Relation} {e : Entry}
    {values : Assignment} (leaves : p.Leaves types sub t r e values)
    (unwaived : ∀ condition ∈ q.conditions, ¬ condition.Waived types)
    (otherEnd : ∀ v, q.adjacent = some v → r.target = .vertex v) :
    q.Asks types category t r values := by
  obtain ⟨f, toward, compiled, conditions, origin⟩ := (build_cases built).2.query_cases member
  have compiles := Constraints.compiles_of_compile compiled
  have met : ∀ condition ∈ q.conditions, condition.Met types values := by
    intro condition asked
    have kept := (compiles.met_iff values).mpr (conditions ▸ leaves.met) condition asked
    exact kept.resolve_right (unwaived condition asked)
  have covered := covers_of_toward toward leaves.covered
  obtain ⟨untyped, read⟩ | ⟨filled, name, asked, t', -, reading, known, admitted, -, made,
    inReading⟩ := origin
  · obtain ⟨slice, limited, same⟩ := Outcome.bind_eq_ok_iff.mp read
    obtain rfl := Except.ok.inj same
    have inside := leaves.inside
    rw [contains_of_withLimit limited, contains_ofCategory leaves.written] at inside
    exact ⟨fun typed => absurd untyped typed, inside, covered, met, otherEnd⟩
  · have named := wellFormed.named name t' known
    obtain ⟨kind, source⟩ := made.source wellFormed named
    obtain ⟨rfl, -⟩ := made.only wellFormed named filled compiles.reflects.distinct inReading
      leaves.listed leaves.written leaves.inside
    exact ⟨fun _ => ⟨name, asked, t', known, source⟩, (admits_congr kind category).trans admitted,
      covered, met, otherEnd⟩

/-- The vertex asked for at the other end: what is left in a slice leads to it where it is
singled out, and anywhere where it is not. -/
theorem Leaves.otherEnd (wellFormed : types.WellFormed) {s : PlanSetting} {q : VertexQuery}
    {category : RelationCategory} {p : Plan} (built : build types s q category = .ok p)
    {sub : SubQuery} (member : sub ∈ p.queries) {t : RelationType} {r : Relation} {e : Entry}
    {values : Assignment} (leaves : p.Leaves types sub t r e values) {v : UInt64}
    (asked : q.adjacent = some v) :
    (q.SinglesOut types t r.direction → r.target = .vertex v) ∧
      (¬ q.SinglesOut types t r.direction →
        ∀ w, ∃ e', p.Leaves types sub t (r.redirected w) e' values) := by
  obtain ⟨edges, ways⟩ := build_cases built
  have isEdge : category = .edge := edges (by rw [asked]; rfl)
  obtain ⟨f, -, compiled, -, origin⟩ := ways.query_cases member
  have compiles := Constraints.compiles_of_compile compiled
  rw [asked] at compiles
  have ends : t.isLabel = true ∧ (q.SinglesOut types t r.direction → r.target = .vertex v) ∧
      (¬ q.SinglesOut types t r.direction → ∀ w e', write types t (r.redirected w) = .ok e' →
        sub.slice.contains e'.column = true) := by
    have inside := leaves.inside
    obtain ⟨untyped, read⟩ | ⟨filled, name, named, t', -, reading, known, admitted, -, made,
      inReading⟩ := origin
    · obtain ⟨slice, limited, same⟩ := Outcome.bind_eq_ok_iff.mp read
      obtain rfl := Except.ok.inj same
      rw [contains_of_withLimit limited, contains_ofCategory leaves.written] at inside
      have label : t.isLabel = true := by rwa [isEdge] at inside
      refine ⟨label, fun singled => absurd untyped singled.1, fun _ w e' written => ?_⟩
      rw [contains_of_withLimit limited, contains_ofCategory written]
      exact inside
    · have wellFormed' := wellFormed.named name t' known
      obtain ⟨kind, -⟩ := made.source wellFormed wellFormed'
      obtain ⟨rfl, -⟩ := made.only wellFormed wellFormed' filled compiles.reflects.distinct
        inReading leaves.listed leaves.written inside
      have label : reading.source.isLabel = true := by
        have admits := (admits_congr kind category).trans admitted
        rwa [isEdge] at admits
      exact ⟨label, end_of_made wellFormed wellFormed' made filled compiles
        (List.ne_nil_of_mem named) inReading label leaves.listed leaves.written inside⟩
  obtain ⟨label, singled, free⟩ := ends
  refine ⟨singled, fun unsingled w => ?_⟩
  obtain ⟨e', written⟩ := write_redirected label leaves.written w
  exact ⟨e', leaves.listed, written, free unsingled w e' written, leaves.agrees, leaves.met,
    leaves.covered⟩

/-- What the conditions and the direction of a plan leave in a slice is what was asked for
just as long as nothing is left of a query with a condition that was waived, or of a type
that does not single out the vertex asked for at the other end. -/
theorem left_to_check (wellFormed : types.WellFormed) {s : PlanSetting} {q : VertexQuery}
    {category : RelationCategory} {p : Plan} (built : build types s q category = .ok p)
    {sub : SubQuery} (member : sub ∈ p.queries) :
    (∀ t r e values, p.Leaves types sub t r e values → q.Asks types category t r values) ↔
      ∀ t r e values, p.Leaves types sub t r e values →
        (∀ condition ∈ q.conditions, ¬ condition.Waived types) ∧
          (q.adjacent.isSome = true → q.SinglesOut types t r.direction) := by
  constructor
  · intro exact t r e values leaves
    have asked := exact t r e values leaves
    refine ⟨fun condition member waived => ?_, fun someEnd => ?_⟩
    · exact Condition.not_met_of_waived waived values (asked.met condition member)
    · obtain ⟨v, isEnd⟩ := Option.isSome_iff_exists.mp someEnd
      by_contra unsingled
      -- The same edge to another vertex is left as well.
      obtain ⟨e', elsewhere⟩ :=
        (leaves.otherEnd wellFormed built member isEnd).2 unsingled (v + 1)
      have same := (exact t _ e' values elsewhere).otherEnd v isEnd
      have moved : v + 1 = v := RelationTarget.vertex.inj same
      simp at moved
  · intro checked t r e values leaves
    obtain ⟨unwaived, singled⟩ := checked t r e values leaves
    refine leaves.asks wellFormed built member unwaived fun v isEnd => ?_
    exact (leaves.otherEnd wellFormed built member isEnd).1 (singled (by rw [isEnd]; rfl))

/-- Who has been followed, but not since ten. -/
def notSinceTen : VertexQuery :=
  ⟨.out, ["follows"], [.has "since" (.compare .notEqual) (some (.long 10))], [], 5, none⟩

/-- The time is left to check, and nothing else. -/
theorem time_is_left_to_check :
    ∃ p sub, build network unchanged notSinceTen .edge = .ok p ∧ sub ∈ p.queries ∧
      sub.fitted = false ∧ ∀ t r e values, p.Leaves network sub t r e values →
        notSinceTen.Asks network .edge t r values := by
  obtain ⟨p, sub, built, queries, unfitted⟩ :
      ∃ p sub, build network unchanged notSinceTen .edge = .ok p ∧ p.queries = [sub] ∧
        sub.fitted = false := ⟨_, _, rfl, rfl, rfl⟩
  have member : sub ∈ p.queries := queries ▸ List.mem_cons_self
  refine ⟨p, sub, built, member, unfitted, (left_to_check wellFormed_network built member).mpr ?_⟩
  intro t r e values leaves
  refine ⟨fun condition asked waived => ?_, fun never => by cases never⟩
  obtain rfl := List.mem_singleton.mp asked
  cases waived

/-- Who is the fifth vertex, followed at any time. -/
def fifth : VertexQuery := ⟨.out, ["follows"], [], [], 5, some 5⟩

/-- Times stand in front of vertices in the columns, so the slice finds whoever is followed,
and the plan does not say that any vertex is left to check. -/
theorem other_end_is_lost :
    ∃ p sub e values, build network unchanged fifth .edge = .ok p ∧ sub ∈ p.queries ∧
      sub.fitted = false ∧
      p.Leaves network sub follows ((followed 10).redirected 6) e values ∧
      ¬ fifth.Asks network .edge follows ((followed 10).redirected 6) values := by
  obtain ⟨p, sub, e, built, queries, unfitted, conditions, direction, written, inside⟩ :
      ∃ p sub e, build network unchanged fifth .edge = .ok p ∧ p.queries = [sub] ∧
        sub.fitted = false ∧ p.conditions = [] ∧ p.direction = .out ∧
        write network follows ((followed 10).redirected 6) = .ok e ∧
        sub.slice.contains e.column = true := ⟨_, _, _, rfl, rfl, rfl, rfl, rfl, rfl, rfl⟩
  refine ⟨p, sub, e, fun _ => some (.long 10), built, queries ▸ List.mem_cons_self, unfitted,
    ⟨rfl, written, inside, fun key v has => ?_, ?_, ?_⟩, fun asks => ?_⟩
  · obtain ⟨-, rfl⟩ := Prod.mk.inj (List.mem_singleton.mp (mem_of_lookup has))
    rfl
  · rw [conditions]
    exact fun _ never => absurd never List.not_mem_nil
  · rw [direction]
    rfl
  · cases asks.otherEnd 5 rfl

end Plan

end PropertyGraph
