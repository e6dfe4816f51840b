/-
# Proofs.Readings -- what the slices of a query for named types find

A query that names types is planned name by name.  Each naming of a type comes to readings
(`Covers`): every direction that the query and the type allow is in just one of them, and a
reading is of the type itself or of an enabled index over it.  Its slices have no column in
common, hold columns of nothing but what is read, and find every relation that meets the
query (`Finds`).

`readings_cover` says so of every plan, also of those that find nothing: these are made where no
relation can meet the query, or where no direction is left to read.  Edges are not read for
a query for properties, not even in the direction that no property has; and a type that is
named twice is read twice (`incoming_lost_and_twice_read`).
-/
import PropertyGraph.Proofs.Filtering

namespace PropertyGraph

set_option autoImplicit false

open Bytes Column TypeSlice

variable {types : TypeCatalog Outcome}

/-- A reading finds what it is for: each relation of its source, in its directions, that
meets the query by what it can have for property keys. -/
structure Reading.Finds (types : TypeCatalog Outcome) (q : VertexQuery) (reading : Reading) :
    Prop where
  finds : ∀ r e values, write types reading.source r = .ok e →
    r.direction ∈ reading.directions → r.Agrees reading.source values →
    (∀ condition ∈ q.conditions, condition.Met types values) →
    (∀ v, q.adjacent = some v → r.target = .vertex v) →
    ∃ sub ∈ reading.queries, sub.slice.contains e.column = true
  only : ∀ sub ∈ reading.queries, ∀ t r e, types.byId t.id = .ok t → write types t r = .ok e →
    sub.slice.contains e.column = true → t = reading.source ∧ r.direction ∈ reading.directions
  disjoint : reading.queries.Pairwise fun sub sub' =>
    ∀ x, sub.slice.contains x = true → sub'.slice.contains x = false

/-- The readings of a type: each direction that is allowed is in just one of them, and each
is of the type or of an enabled index over it and finds what it is for. -/
structure Reading.Covers (types : TypeCatalog Outcome) (q : VertexQuery) (t : RelationType)
    (readings : List Reading) : Prop where
  once : (readings.flatMap Reading.directions).Nodup
  every : ∀ d, d.isProper = true → q.direction.covers d = true → t.isStoredIn d = true →
    d ∈ readings.flatMap Reading.directions
  sources : ∀ reading ∈ readings, reading.source = t ∨
    reading.source.status = .enabled ∧
      ∃ own, types.withIndexes t = .ok own ∧ reading.source ∈ own
  stored : ∀ reading ∈ readings, ∀ d ∈ reading.directions, t.isStoredIn d = true →
    reading.source.isStoredIn d = true
  finds : ∀ reading ∈ readings, reading.Finds types q

namespace Plan

/-! ## Where nothing can be found -/

/-- Nothing that is stored in a direction of the query meets its conditions. -/
def Unmet (types : TypeCatalog Outcome) (q : VertexQuery) (t : RelationType) : Prop :=
  ∀ d, q.direction.covers d = true → t.isStoredIn d = true → d.isProper = true →
    ∀ values, ¬ ∀ condition ∈ q.conditions, condition.Met types values

/-- The readings of a type, one for each direction, that ask for nothing. -/
def vacant (q : VertexQuery) (t : RelationType) : List Reading :=
  (Direction.proper.filter fun d => q.direction.covers d && t.isStoredIn d).map fun d =>
    ⟨[d], t, []⟩

theorem queries_of_mem_vacant {q : VertexQuery} {t : RelationType} {reading : Reading}
    (member : reading ∈ vacant q t) : reading.queries = [] := by
  obtain ⟨d, -, rfl⟩ := List.mem_map.mp member
  rfl

theorem directions_vacant (q : VertexQuery) (t : RelationType) :
    (vacant q t).flatMap Reading.directions =
      Direction.proper.filter fun d => q.direction.covers d && t.isStoredIn d := by
  rw [vacant, List.flatMap_map]
  exact List.flatMap_singleton' _

/-- Nothing has to be asked for where nothing meets the query. -/
theorem covers_vacant {q : VertexQuery} {t : RelationType} (unmet : Unmet types q t) :
    Reading.Covers types q t (vacant q t) where
  once := by
    rw [directions_vacant]
    exact List.Pairwise.filter _ (by decide)
  every d proper covered stored := by
    rw [directions_vacant, List.mem_filter, covered, stored]
    exact ⟨(Direction.isProper_iff d).mp proper, rfl⟩
  sources reading member := by
    obtain ⟨d, -, rfl⟩ := List.mem_map.mp member
    exact .inl rfl
  stored reading member := by
    obtain ⟨d, -, rfl⟩ := List.mem_map.mp member
    exact fun _ _ => id
  finds reading member := by
    obtain ⟨d, inProper, rfl⟩ := List.mem_map.mp member
    obtain ⟨proper, allowed⟩ := List.mem_filter.mp inProper
    obtain ⟨covered, stored⟩ := Bool.and_eq_true_iff.mp allowed
    have isProper := (Direction.isProper_iff d).mpr proper
    exact ⟨fun r e values _ _ _ met _ => absurd met (unmet d covered stored isProper values),
      fun _ never => absurd never List.not_mem_nil, .nil⟩

/-! ## What a reading finds -/

/-- A relation that meets a query has its values in the intervals that the query comes to. -/
theorem inside_of_met {q : VertexQuery} {c : Constraints} {t : RelationType} {r : Relation}
    {e : Entry} {values : Assignment} (wellFormed : t.WellFormed types)
    (compiles : c.Compiles types q.conditions q.adjacent) (written : write types t r = .ok e)
    (agrees : r.Agrees t values) (met : ∀ condition ∈ q.conditions, condition.Met types values)
    (ends : ∀ v, q.adjacent = some v → r.target = .vertex v) :
    ∀ component ∈ t.extendedSortKey r.direction, ∀ i, c.interval? component = some i →
      ∃ v, r.component t component = some v ∧ i.contains v = true := by
  intro component member i said
  obtain ⟨v, has⟩ := exists_component wellFormed written component member
  refine ⟨v, has, ?_⟩
  cases component with
  | key id =>
      have kept := (compiles.met_iff values).mp fun condition asked => .inl (met condition asked)
      obtain ⟨w, also, contained⟩ := compiles.reflects.narrows values kept id i said
      obtain rfl := Option.some.inj ((agrees id v has).symm.trans also)
      exact contained
  | adjacent =>
      have otherEnd := compiles.reflects.otherEnd.symm.trans said
      obtain ⟨w, asked, rfl⟩ := Option.map_eq_some_iff.mp otherEnd
      obtain ⟨w', target, rfl⟩ := Relation.component_adjacent_iff.mp has
      obtain rfl := RelationTarget.vertex.inj ((ends w asked).symm.trans target)
      exact List.contains_iff_mem.mpr List.mem_cons_self
  | relation => cases compiles.reflects.noRelation.symm.trans said

theorem finds_of_made {f : Frame} {q : VertexQuery} {t : RelationType} {reading : Reading}
    (wellFormed : types.WellFormed) (named : t.WellFormed types) (made : Made types f t reading)
    (filled : ∀ said ∈ f.constraints.intervals, said.2.isEmpty = false)
    (compiles : f.constraints.Compiles types q.conditions q.adjacent) :
    reading.Finds types q := by
  have only : ∀ sub ∈ reading.queries, ∀ t' r e, types.byId t'.id = .ok t' →
      write types t' r = .ok e → sub.slice.contains e.column = true →
      t' = reading.source ∧ r.direction ∈ reading.directions :=
    fun _ member _ _ _ => made.only wellFormed named filled compiles.reflects.distinct member
  cases made with
  | bothWays label unsaid made limited isFitted =>
      obtain ⟨s, made', selects⟩ := slice_both_ways named.listed label []
      obtain rfl := Except.ok.inj (made.symm.trans made')
      refine ⟨fun r e values written _ _ _ _ => ⟨_, List.mem_cons_self, ?_⟩,
        only, List.pairwise_singleton _ _⟩
      rw [limited, selects t r e named.listed written]
  | @oneWay c d queries proper usable expanded =>
      have expands := usable.expands wellFormed named proper filled compiles.reflects.distinct
        expanded
      refine ⟨fun r e values written direction agrees met ends => ?_, only, expands.disjoint⟩
      obtain rfl := List.mem_singleton.mp direction
      exact expands.finds r e written rfl (inside_of_met (usable.source wellFormed named).1 compiles
        written agrees met ends)

/-- A type or index that is read is one that may be, where the type is stored. -/
theorem source_of_usable {t source : RelationType} {d : Direction} (wellFormed : types.WellFormed)
    (named : t.WellFormed types) (usable : Usable types t d source) :
    source = t ∨ source.status = .enabled ∧
      ∃ own, types.withIndexes t = .ok own ∧ source ∈ own := by
  obtain same | enabled := usable.enabled
  · exact .inl (eq_of_listed named.listed (usable.source wellFormed named).1.listed same)
  · exact .inr ⟨enabled, usable.own⟩

/-- A label is read in whatever direction a query and the label allow. -/
theorem mem_directionsOf_of_label {t : RelationType} {d x : Direction} (label : t.isKey = false)
    (proper : x.isProper = true) (covered : d.covers x = true) (stored : t.isStoredIn x = true) :
    ∃ d', readingDirection t d = some d' ∧ x ∈ directionsOf d' := by
  rw [RelationType.isStoredIn, RelationType.unidirected, label] at stored
  rw [readingDirection, RelationType.unidirected, label]
  cases only : t.onlyDirection with
  | none =>
      refine ⟨d, rfl, ?_⟩
      revert covered proper
      cases x <;> cases d <;> decide
  | some only' =>
      rw [only] at stored
      obtain rfl : only' = x := beq_iff_eq.mp stored
      have here : d = .both ∨ d = only' := by
        revert covered
        cases d <;> cases only' <;> decide
      refine ⟨only', if_pos here, ?_⟩
      revert proper
      cases only' <;> decide

/-- Whatever direction a query and a type allow, the type is read in it. -/
theorem mem_directionsOf {q : VertexQuery} {category : RelationCategory} {t : RelationType}
    {d x : Direction} (toward : categoryDirection category q.direction = some d)
    (admitted : category.admits t = true) (proper : x.isProper = true)
    (covered : q.direction.covers x = true) (stored : t.isStoredIn x = true) :
    ∃ d', readingDirection t d = some d' ∧ x ∈ directionsOf d' := by
  cases key : t.isKey with
  | true =>
      rw [RelationType.isStoredIn, RelationType.unidirected, key] at stored
      obtain rfl := beq_iff_eq.mp stored
      rw [readingDirection, RelationType.unidirected, key]
      exact ⟨.out, rfl, List.mem_singleton_self _⟩
  | false =>
      have same : q.direction = d := by
        cases category with
        | property => cases key.symm.trans admitted
        | edge => exact Option.some.inj toward
        | relation => exact Option.some.inj toward
      exact mem_directionsOf_of_label key proper (same ▸ covered) stored

/-- What is read for a name covers its type. -/
theorem ReadFor.covers {f : Frame} {q : VertexQuery} {category : RelationCategory} {d : Direction}
    {name : String} {readings : List Reading} {t : RelationType} (wellFormed : types.WellFormed)
    (toward : categoryDirection category q.direction = some d)
    (filled : ∀ said ∈ f.constraints.intervals, said.2.isEmpty = false)
    (compiles : f.constraints.Compiles types q.conditions q.adjacent)
    (read : ReadFor types f category d name readings) (known : types.byName name = .ok (some t)) :
    Reading.Covers types q t readings := by
  cases read with
  | unknown unknown => cases known.symm.trans unknown
  | away known' admitted away =>
      obtain rfl := Option.some.inj (Except.ok.inj (known.symm.trans known'))
      refine ⟨.nil, fun x proper covered stored => ?_, ?_, ?_, ?_⟩
      · obtain ⟨d', never, -⟩ := mem_directionsOf toward admitted proper covered stored
        cases away.symm.trans never
      all_goals exact fun _ never => absurd never List.not_mem_nil
  | read known' admitted toward' directions made =>
      obtain rfl := Option.some.inj (Except.ok.inj (known.symm.trans known'))
      have named := wellFormed.named name t known
      refine ⟨?_, fun x proper covered stored => ?_, fun reading member => ?_,
        fun reading member => ?_, fun reading member => ?_⟩
      · rw [directions]
        exact nodup_directionsOf _
      · obtain ⟨d'', same, inDirections⟩ :=
          mem_directionsOf toward admitted proper covered stored
        obtain rfl := Option.some.inj (toward'.symm.trans same)
        rwa [directions]
      · cases made reading member with
        | bothWays => exact .inl rfl
        | oneWay proper usable expanded => exact source_of_usable wellFormed named usable
      · cases made reading member with
        | bothWays => exact fun _ _ => id
        | oneWay proper usable expanded =>
            intro x isThis _
            obtain rfl := List.mem_singleton.mp isThis
            exact usable.stored
      · exact finds_of_made wellFormed named (made reading member) filled compiles

/-! ## What a plan finds -/

/-- Where an interval is empty, no relation meets the query. -/
theorem unmet_of_empty {q : VertexQuery} {c : Constraints} {said : SortComponent × Interval}
    (compiles : c.Compiles types q.conditions q.adjacent) (member : said ∈ c.intervals)
    (empty : said.2.isEmpty = true) (values : Assignment) :
    ¬ ∀ condition ∈ q.conditions, condition.Met types values := by
  intro met
  obtain ⟨component, i⟩ := said
  have found : c.interval? component = some i := lookup_of_mem compiles.reflects.once member
  cases component with
  | key id =>
      have kept := (compiles.met_iff values).mp fun condition asked => .inl (met condition asked)
      obtain ⟨v, -, contained⟩ := compiles.reflects.narrows values kept id i found
      rw [Interval.not_contains_of_isEmpty empty] at contained
      cases contained
  | adjacent =>
      obtain ⟨w, -, rfl⟩ :=
        Option.map_eq_some_iff.mp (compiles.reflects.otherEnd.symm.trans found)
      cases empty
  | relation => cases compiles.reflects.noRelation.symm.trans found

/-- The readings of a name where nothing is asked for. -/
def vacantFor (types : TypeCatalog Outcome) (q : VertexQuery) (name : String) : List Reading :=
  match types.byName name with
  | .ok (some t) => vacant q t
  | _ => []

/-- A query for properties that come in is answered for keys only. -/
def Allows (q : VertexQuery) (category : RelationCategory) (t : RelationType) : Prop :=
  category = .property → q.direction = .into → t.isKey = true

/-- What is read for a name: nothing where it is the name of no relation type, or else what
covers its type. -/
structure Answers (types : TypeCatalog Outcome) (q : VertexQuery) (category : RelationCategory)
    (name : String) (readings : List Reading) : Prop where
  unknown : types.byName name = .ok none → readings = []
  known : ∀ t, types.byName name = .ok (some t) → Allows q category t →
    Reading.Covers types q t readings

theorem answers_vacantFor {q : VertexQuery} {category : RelationCategory} (name : String)
    (unmet : ∀ t, Allows q category t → Unmet types q t) :
    Answers types q category name (vacantFor types q name) where
  unknown none := by rw [vacantFor, none]
  known t known allowed := by
    rw [vacantFor, known]
    exact covers_vacant (unmet t allowed)

theorem queries_vacantFor (types : TypeCatalog Outcome) (q : VertexQuery) (names : List String) :
    (names.map (vacantFor types q)).flatten.flatMap Reading.queries = [] := by
  rw [List.flatMap_eq_nil_iff]
  intro reading member
  obtain ⟨readings, inGroups, inReadings⟩ := List.mem_flatten.mp member
  obtain ⟨name, -, rfl⟩ := List.mem_map.mp inGroups
  unfold vacantFor at inReadings
  split at inReadings
  · exact queries_of_mem_vacant inReadings
  · exact absurd inReadings List.not_mem_nil

/-- A plan without slices, where nothing meets the query or no direction is left. -/
theorem answers_nothing {q : VertexQuery} {category : RelationCategory}
    (unmet : ∀ t, Allows q category t → Unmet types q t) :
    ∃ groups : List (List Reading),
      (nothing category).queries = groups.flatten.flatMap Reading.queries ∧
      List.Forall₂ (Answers types q category) q.types groups := by
  refine ⟨q.types.map (vacantFor types q), (queries_vacantFor types q q.types).symm, ?_⟩
  rw [List.forall₂_map_right_iff, List.forall₂_same]
  exact fun name _ => answers_vacantFor name unmet

theorem into_of_away {category : RelationCategory} {d : Direction}
    (away : categoryDirection category d = none) : category = .property ∧ d = .into := by
  revert away
  cases category <;> cases d <;> decide

/-- A plan for named types comes to readings of each of them.  They find, in every direction
that the query and the type allow, whatever relation of what is read meets the query, and no
slice of a reading has a column of another one. -/
theorem readings_cover (wellFormed : types.WellFormed) {s : PlanSetting} {q : VertexQuery}
    {category : RelationCategory} {p : Plan} (limited : q.limit ≠ 0) (typed : q.types ≠ [])
    (built : build types s q category = .ok p) :
    ∃ groups : List (List Reading), p.queries = groups.flatten.flatMap Reading.queries ∧
      List.Forall₂ (Answers types q category) q.types groups := by
  cases (build_cases built).2 with
  | unasked limit => exact absurd limit limited
  | away away =>
      refine answers_nothing fun t allowed d covered stored => ?_
      obtain ⟨isProperty, isInto⟩ := into_of_away away
      have key := allowed isProperty isInto
      rw [RelationType.isStoredIn, RelationType.unidirected, if_pos key] at stored
      obtain rfl : .out = d := beq_iff_eq.mp stored
      rw [isInto] at covered
      cases covered
  | unmet compiled =>
      obtain ⟨condition, asked, -, never⟩ := Constraints.unmet_of_compile compiled
      exact answers_nothing fun _ _ _ _ _ _ values met => never values (met condition asked)
  | empty compiled member empty =>
      have compiles := Constraints.compiles_of_compile compiled
      exact answers_nothing fun _ _ _ _ _ _ => unmet_of_empty compiles member empty
  | scanned untyped toward compiled read => exact absurd untyped typed
  | typed _ toward compiled filled read queries rest =>
      have compiles := Constraints.compiles_of_compile compiled
      refine ⟨_, queries, read.imp fun name readings readFor => ⟨fun none => ?_, fun t known _ => ?_⟩⟩
      · cases readFor with
        | unknown _ => rfl
        | away known _ _ => cases known.symm.trans none
        | read known _ _ _ _ => cases known.symm.trans none
      · exact readFor.covers wellFormed toward filled compiles known

/-- The label that was asked for is read, in one direction. -/
theorem fifth_since_ten_is_read :
    ∃ p readings, build network unchanged fifthSinceTen .edge = .ok p ∧
      p.queries = readings.flatMap Reading.queries ∧
      Reading.Covers network fifthSinceTen follows readings := by
  obtain ⟨p, built⟩ : ∃ p, build network unchanged fifthSinceTen .edge = .ok p := ⟨_, rfl⟩
  obtain ⟨groups, queries, each⟩ :=
    readings_cover wellFormed_network (by decide) (by decide) built
  obtain ⟨readings, rest, answers, none, rfl⟩ := List.forall₂_cons_left_iff.mp each
  obtain rfl := List.forall₂_nil_left_iff.mp none
  refine ⟨p, readings, built, ?_, answers.known follows rfl fun never => by cases never⟩
  rw [queries, List.flatten_cons, List.flatten_nil, List.append_nil]

/-- An edge as its other vertex sees it. -/
def incoming : Relation := { followed 10 with direction := .into }

/-- Properties that come in by a label. -/
def propertiesInto : VertexQuery := ⟨.into, ["follows"], [], [], 5, none⟩

/-- Who has been followed, asked for twice. -/
def followedTwice : VertexQuery := ⟨.out, ["follows", "follows"], [], [], 5, none⟩

/-- Edges that come in are not read for a query for properties, though the label is named and
stored in the direction; and a label that is named twice is read twice. -/
theorem incoming_lost_and_twice_read :
    (∃ p e, build network unchanged propertiesInto .property = .ok p ∧
      network.byName "follows" = .ok (some follows) ∧ network.withIndexes follows = .ok [follows] ∧
      propertiesInto.direction.covers .into = true ∧ follows.isStoredIn .into = true ∧
      write network follows incoming = .ok e ∧ incoming.direction = .into ∧
      ¬ ∃ sub ∈ p.queries, sub.slice.contains e.column = true) ∧
    ∃ p sub sub' e, build network unchanged followedTwice .edge = .ok p ∧
      p.queries = [sub, sub'] ∧ write network follows (followed 10) = .ok e ∧
      sub.slice.contains e.column = true ∧ sub'.slice.contains e.column = true := by
  refine ⟨⟨_, _, rfl, rfl, rfl, rfl, rfl, rfl, rfl, ?_⟩, _, _, _, _, rfl, rfl, rfl, rfl, rfl⟩
  rintro ⟨sub, never, -⟩
  exact absurd never List.not_mem_nil

end Plan

end PropertyGraph
