/-
# Proofs.Plans -- what a plan is made of

Planning goes through the names of a query, the directions of a type and the candidates of
a direction.  `Reading` is what it makes of a type in a direction, or in both at once, and
`Reading.Made` says how; `planType_cases` and `planTypes_cases` say that types and names
come to nothing but readings.

`Built` lists the ways in which a plan comes about, and `build_cases` says that there are no
others.
-/
import PropertyGraph.Proofs.Expansion

namespace PropertyGraph

set_option autoImplicit false

open Bytes Column TypeSlice

/-- A catalog as a sound schema answers it: the types that have names are well-formed, and
so are the relation indexes over a type, which are of its kind. -/
structure TypeCatalog.WellFormed (types : TypeCatalog Outcome) : Prop where
  named : ∀ name t, types.byName name = .ok (some t) → t.WellFormed types
  indexed : ∀ t own, t.WellFormed types → types.withIndexes t = .ok own →
    ∀ c ∈ own, c.WellFormed types ∧ c.kind = t.kind

theorem wellFormed_network : network.WellFormed where
  named name t known := by
    have follows := TypeSlice.wellFormed_follows
    simp only [network, Except.ok.injEq] at known
    split_ifs at known
    · obtain rfl := Option.some.inj known
      refine ⟨rfl, fun _ never => absurd never List.not_mem_nil, List.nodup_nil, ?_⟩
      rintro d c ⟨⟩
      rfl
    · obtain rfl := Option.some.inj known
      exact ⟨follows.listed, follows.keys, follows.distinct, follows.cardinality⟩
  indexed t own named indexes c member := by
    obtain rfl := Except.ok.inj indexes
    obtain rfl := List.mem_singleton.mp member
    exact ⟨named, rfl⟩

/-- Relations of a type are of the category. -/
def RelationCategory.admits : RelationCategory → RelationType → Bool
  | .edge, t => t.isLabel
  | .property, t => t.isKey
  | .relation, _ => true

/-- A type to be read in some directions, the type or index that is read for it, and the
slices that are asked for. -/
structure Reading where
  directions : List Direction
  source : RelationType
  queries : List SubQuery

variable {types : TypeCatalog Outcome}

namespace Plan

/-- A type that a candidate for reading another one is: the type itself or an enabled
index over it, stored in the direction. -/
structure Usable (types : TypeCatalog Outcome) (t : RelationType) (d : Direction)
    (source : RelationType) : Prop where
  own : ∃ own, types.withIndexes t = .ok own ∧ source ∈ own
  enabled : source.id = t.id ∨ source.status = .enabled
  stored : source.isStoredIn d = true

/-- How the slices of a reading come about. -/
inductive Made (types : TypeCatalog Outcome) (f : Frame) (t : RelationType) : Reading → Prop
  | bothWays {s : Slice} {q : SubQuery} (label : t.isLabel = true)
      (unsaid : f.constraints.intervals = []) (made : TypeSlice.slice types t .both [] = .ok s)
      (limited : ∀ x, q.slice.contains x = s.contains x) (fitted : q.fitted = f.constraints.complete)
      (unordered : f.orders = []) : Made types f t ⟨Direction.proper, t, [q]⟩
  | oneWay {c : Candidate} {d : Direction} {queries : List SubQuery}
      (proper : d.isProper = true) (usable : Usable types t d c.type)
      (expanded : expand types f c d (c.type.extendedSortKey d) [] = .ok queries)
      (rated : c = (score f c.type d).2) : Made types f t ⟨[d], c.type, queries⟩

theorem mem_of_best {candidates : List (Score × Candidate)} {top : Score × Candidate}
    (found : best candidates = some top) : top ∈ candidates := by
  cases candidates with
  | nil => cases found
  | cons first rest =>
      obtain rfl := Option.some.inj found
      -- The fold stays among the candidates seen so far and those to come.
      suffices ∀ (l : List (Score × Candidate)) (top : Score × Candidate),
          l.foldl (fun top next => if top.1.units < next.1.units then next else top) top ∈
            top :: l from this rest first
      intro l
      induction l with
      | nil => exact fun top => List.mem_cons_self
      | cons next later ih =>
          intro top
          rw [List.foldl_cons]
          split
          · exact List.mem_cons_of_mem _ (ih next)
          · obtain same | inLater := List.mem_cons.mp (ih top)
            · exact List.mem_cons.mpr (.inl same)
            · exact List.mem_cons_of_mem _ (List.mem_cons_of_mem _ inLater)

theorem bestCandidate_cases {f : Frame} {t : RelationType} {d : Direction} {c : Candidate}
    (found : bestCandidate types f t d = .ok c) :
    Usable types t d c.type ∧ c = (score f c.type d).2 := by
  obtain ⟨own, listed, found⟩ := Outcome.bind_eq_ok_iff.mp found
  dsimp only at found
  split at found
  · rename_i top c' chosen
    obtain ⟨source, member, same⟩ := List.mem_map.mp (mem_of_best chosen)
    obtain ⟨inOwn, usable⟩ := List.mem_filter.mp member
    have isSource : source = c'.type := congrArg (fun scored => scored.2.type) same
    obtain rfl := Except.ok.inj found
    rw [Bool.and_eq_true, Bool.or_eq_true, beq_iff_eq, beq_iff_eq] at usable
    rw [← isSource]
    exact ⟨⟨⟨own, listed, inOwn⟩, usable.2, usable.1⟩, congrArg Prod.snd same.symm⟩
  · cases found

theorem planDirections_cases {f : Frame} {t : RelationType} {directions : List Direction}
    (proper : ∀ d ∈ directions, d.isProper = true) {queries : List SubQuery}
    (planned : planDirections types f t directions = .ok queries) :
    ∃ readings : List Reading, queries = readings.flatMap Reading.queries ∧
      readings.flatMap Reading.directions = directions ∧
      ∀ reading ∈ readings, Made types f t reading := by
  induction directions generalizing queries with
  | nil =>
      obtain rfl := Except.ok.inj planned
      exact ⟨[], rfl, rfl, fun _ member => absurd member List.not_mem_nil⟩
  | cons d rest ih =>
      obtain ⟨c, found, planned⟩ := Outcome.bind_eq_ok_iff.mp planned
      obtain ⟨here, expanded, planned⟩ := Outcome.bind_eq_ok_iff.mp planned
      obtain ⟨later, plannedLater, same⟩ := Outcome.bind_eq_ok_iff.mp planned
      obtain rfl := Except.ok.inj same
      obtain ⟨properHere, properLater⟩ := List.forall_mem_cons.mp proper
      obtain ⟨usable, rated⟩ := bestCandidate_cases found
      obtain ⟨readings, rfl, rfl, made⟩ := ih properLater plannedLater
      exact ⟨⟨[d], c.type, here⟩ :: readings, rfl, rfl, List.forall_mem_cons.mpr
        ⟨.oneWay properHere usable expanded rated, made⟩⟩

/-- The directions that a type is read in. -/
def directionsOf (d : Direction) : List Direction := if d = .both then Direction.proper else [d]

theorem proper_of_mem_directionsOf {d d' : Direction} (member : d' ∈ directionsOf d) :
    d'.isProper = true := by
  cases d <;> revert member <;> cases d' <;> decide

theorem nodup_directionsOf (d : Direction) : (directionsOf d).Nodup := by
  cases d <;> decide

/-- A type comes to readings in each of its directions. -/
theorem planType_cases {f : Frame} {t : RelationType} {d : Direction} {queries : List SubQuery}
    (planned : planType types f t d = .ok queries) :
    ∃ readings : List Reading, queries = readings.flatMap Reading.queries ∧
      readings.flatMap Reading.directions = directionsOf d ∧
      ∀ reading ∈ readings, Made types f t reading := by
  rw [planType] at planned
  split at planned
  · rename_i whole
    simp only [Bool.and_eq_true, beq_iff_eq, List.isEmpty_iff] at whole
    obtain ⟨⟨⟨label, rfl⟩, unsaid⟩, unordered⟩ := whole
    obtain ⟨s, made, planned⟩ := Outcome.bind_eq_ok_iff.mp planned
    obtain ⟨limited, within, same⟩ := Outcome.bind_eq_ok_iff.mp planned
    obtain rfl := Except.ok.inj same
    refine ⟨[⟨Direction.proper, t, [⟨limited, f.constraints.complete, true⟩]⟩], rfl, rfl, ?_⟩
    intro reading member
    obtain rfl := List.mem_singleton.mp member
    exact .bothWays label unsaid made (contains_of_withLimit within) rfl unordered
  · exact planDirections_cases (fun d' => proper_of_mem_directionsOf) planned

section Made

variable {f : Frame} {t : RelationType}

theorem Usable.source {d : Direction} {source : RelationType} (wellFormed : types.WellFormed)
    (named : t.WellFormed types) (usable : Usable types t d source) :
    source.WellFormed types ∧ source.kind = t.kind := by
  obtain ⟨own, indexes, inOwn⟩ := usable.own
  exact wellFormed.indexed t own named indexes source inOwn

theorem Usable.expands {c : Candidate} {d : Direction} {queries : List SubQuery}
    (wellFormed : types.WellFormed) (named : t.WellFormed types)
    (usable : Usable types t d c.type) (proper : d.isProper = true)
    (filled : ∀ said ∈ f.constraints.intervals, said.2.isEmpty = false)
    (distinct : ∀ said ∈ f.constraints.intervals, said.2.Distinct)
    (expanded : expand types f c d (c.type.extendedSortKey d) [] = .ok queries) :
    Expands types f c d queries :=
  expands_of_expand (usable.source wellFormed named).1 proper filled distinct expanded

/-- What is read for a type is the type or an index over it, and of its kind. -/
theorem Made.source {reading : Reading} (wellFormed : types.WellFormed)
    (named : t.WellFormed types) (made : Made types f t reading) :
    reading.source.kind = t.kind ∧ (reading.source = t ∨
      ∃ own, types.withIndexes t = .ok own ∧ reading.source ∈ own) := by
  cases made with
  | bothWays => exact ⟨rfl, .inl rfl⟩
  | oneWay proper usable expanded => exact ⟨(usable.source wellFormed named).2, .inr usable.own⟩

/-- In the slices of a reading lie only columns of what is read, in the directions of the
reading. -/
theorem Made.only {reading : Reading} (wellFormed : types.WellFormed)
    (named : t.WellFormed types) (made : Made types f t reading)
    (filled : ∀ said ∈ f.constraints.intervals, said.2.isEmpty = false)
    (distinct : ∀ said ∈ f.constraints.intervals, said.2.Distinct) {sub : SubQuery}
    (member : sub ∈ reading.queries) {t' : RelationType} {r : Relation} {e : Entry}
    (listed : types.byId t'.id = .ok t') (written : write types t' r = .ok e)
    (inside : sub.slice.contains e.column = true) :
    t' = reading.source ∧ r.direction ∈ reading.directions := by
  cases made with
  | bothWays label unsaid made limited isFitted =>
      obtain rfl := List.mem_singleton.mp member
      obtain ⟨s, made', selects⟩ := slice_both_ways named.listed label []
      obtain rfl := Except.ok.inj (made.symm.trans made')
      obtain ⟨start, sorted, tail, parts⟩ := parts_of_write written
      rw [limited, selects t' r e listed written] at inside
      exact ⟨inside, (Direction.isProper_iff _).mp parts.proper⟩
  | oneWay proper usable expanded =>
      have expands := usable.expands wellFormed named proper filled distinct expanded
      obtain ⟨taken, stands, made⟩ := expands.made sub member
      obtain ⟨rfl, rfl, -⟩ := (subQuery_selects (usable.source wellFormed named).1 proper filled
        stands made listed written).mp inside
      exact ⟨rfl, List.mem_singleton_self _⟩

end Made

theorem narrow_cases {name : String} {t : RelationType} {category narrowed : RelationCategory}
    (done : narrow name t category = .ok narrowed) :
    category.admits t = true ∧ ∀ u, narrowed.admits u = true → category.admits u = true := by
  cases category with
  | relation => exact ⟨rfl, fun _ _ => rfl⟩
  | edge =>
      simp only [narrow] at done
      split at done
      · cases done
      · rename_i label
        obtain rfl := Except.ok.inj done
        exact ⟨by simp [RelationCategory.admits, RelationType.isLabel, label], fun _ => id⟩
  | property =>
      simp only [narrow] at done
      split at done
      · rename_i key
        obtain rfl := Except.ok.inj done
        exact ⟨key, fun _ => id⟩
      · cases done

/-- What is read for a name: nothing where it is the name of no relation type or of one
that is stored the other way, or else the type in each of its directions. -/
inductive ReadFor (types : TypeCatalog Outcome) (f : Frame) (category : RelationCategory)
    (d : Direction) : String → List Reading → Prop
  | unknown {name : String} (unknown : types.byName name = .ok none) :
      ReadFor types f category d name []
  | away {name : String} {t : RelationType} (known : types.byName name = .ok (some t))
      (admitted : category.admits t = true) (away : readingDirection t d = none) :
      ReadFor types f category d name []
  | read {name : String} {t : RelationType} {d' : Direction} {readings : List Reading}
      (known : types.byName name = .ok (some t)) (admitted : category.admits t = true)
      (toward : readingDirection t d = some d')
      (directions : readings.flatMap Reading.directions = directionsOf d')
      (made : ∀ reading ∈ readings, Made types f t reading) :
      ReadFor types f category d name readings

theorem ReadFor.widen {f : Frame} {category narrowed : RelationCategory} {d : Direction}
    {name : String} {readings : List Reading} (read : ReadFor types f narrowed d name readings)
    (wider : ∀ u, narrowed.admits u = true → category.admits u = true) :
    ReadFor types f category d name readings := by
  cases read with
  | unknown unknown => exact .unknown unknown
  | away known admitted away => exact .away known (wider _ admitted) away
  | read known admitted toward directions made =>
      exact .read known (wider _ admitted) toward directions made

/-- The names of a query come to readings, name by name. -/
theorem planTypes_cases {f : Frame} {d : Direction} {names : List String} {before after : Progress}
    (planned : planTypes types f d names before = .ok after) :
    ∃ groups : List (List Reading),
      List.Forall₂ (ReadFor types f before.category d) names groups ∧
      after.queries = before.queries ++ groups.flatten.flatMap Reading.queries := by
  induction names generalizing before with
  | nil =>
      obtain rfl := Except.ok.inj planned
      exact ⟨[], .nil, (List.append_nil _).symm⟩
  | cons name rest ih =>
      rw [planTypes] at planned
      obtain ⟨known, found, planned⟩ := Outcome.bind_eq_ok_iff.mp planned
      cases known with
      | none =>
          obtain ⟨groups, each, queries⟩ := ih planned
          exact ⟨[] :: groups, .cons (.unknown found) each, queries⟩
      | some t =>
          obtain ⟨narrowed, fits, planned⟩ := Outcome.bind_eq_ok_iff.mp planned
          obtain ⟨admitted, wider⟩ := narrow_cases fits
          dsimp only at planned
          split at planned
          · rename_i away
            obtain ⟨groups, each, queries⟩ := ih planned
            exact ⟨[] :: groups, .cons (.away found admitted away)
              (each.imp fun _ _ read => read.widen wider), queries⟩
          · rename_i d' toward
            obtain ⟨here, made, planned⟩ := Outcome.bind_eq_ok_iff.mp planned
            obtain ⟨readings, rfl, directions, readingsMade⟩ := planType_cases made
            obtain ⟨groups, each, queries⟩ := ih planned
            refine ⟨readings :: groups, .cons (.read found admitted toward directions readingsMade)
              (each.imp fun _ _ read => read.widen wider), ?_⟩
            rw [queries, List.flatten_cons, List.flatMap_append, List.append_assoc]

/-- The ways in which a plan comes about. -/
inductive Built (types : TypeCatalog Outcome) (s : PlanSetting) (q : VertexQuery)
    (category : RelationCategory) : Plan → Prop
  | unasked (limit : q.limit = 0) : Built types s q category (nothing category)
  | away (away : categoryDirection category q.direction = none) :
      Built types s q category (nothing category)
  | unmet (compiled : Constraints.compile types q.conditions q.adjacent = .ok none) :
      Built types s q category (nothing category)
  | empty {c : Constraints} {said : SortComponent × Interval}
      (compiled : Constraints.compile types q.conditions q.adjacent = .ok (some c))
      (member : said ∈ c.intervals) (empty : said.2.isEmpty = true) :
      Built types s q category (nothing category)
  | scanned {d : Direction} {f : Frame} {sub : SubQuery} (untyped : q.types = [])
      (toward : categoryDirection category q.direction = some d)
      (compiled : Constraints.compile types q.conditions q.adjacent = .ok (some f.constraints))
      (read : scan f category d q.adjacent = .ok sub) (alike : sameWay f.orders = true) :
      Built types s q category
        ⟨f.constraints.kept, d, [sub], f.orders, q.limit, [], category⟩
  | typed {d : Direction} {f : Frame} {groups : List (List Reading)} {p : Plan}
      (typed : q.types ≠ []) (toward : categoryDirection category q.direction = some d)
      (compiled : Constraints.compile types q.conditions q.adjacent = .ok (some f.constraints))
      (filled : ∀ said ∈ f.constraints.intervals, said.2.isEmpty = false)
      (read : List.Forall₂ (ReadFor types f category d) q.types groups)
      (queries : p.queries = groups.flatten.flatMap Reading.queries)
      (rest : p.queries ≠ [] → p.conditions = f.constraints.kept ∧ p.direction = d)
      (ordered : p.queries ≠ [] → p.orders = f.orders) (alike : sameWay f.orders = true) :
      Built types s q category p

theorem built_of_assemble {s : PlanSetting} {q : VertexQuery} {category : RelationCategory}
    {d : Direction} {f : Frame} {p : Plan}
    (toward : categoryDirection category q.direction = some d)
    (compiled : Constraints.compile types q.conditions q.adjacent = .ok (some f.constraints))
    (alike : sameWay f.orders = true) (assembled : assemble types q f category d = .ok p) :
    Built types s q category p := by
  rw [assemble] at assembled
  dsimp only at assembled
  split at assembled
  · rename_i untyped
    obtain ⟨sub, read, same⟩ := Outcome.bind_eq_ok_iff.mp assembled
    obtain rfl := Except.ok.inj same
    exact .scanned (List.isEmpty_iff.mp untyped) toward compiled read alike
  · rename_i typed
    split at assembled
    · rename_i some_empty
      obtain rfl := Except.ok.inj assembled
      obtain ⟨said, member, empty⟩ := List.any_eq_true.mp some_empty
      exact .empty compiled member empty
    · rename_i none_empty
      obtain ⟨found, planned, same⟩ := Outcome.bind_eq_ok_iff.mp assembled
      obtain ⟨groups, read, queries⟩ := planTypes_cases planned
      rw [List.nil_append] at queries
      have filled : ∀ said ∈ f.constraints.intervals, said.2.isEmpty = false := by
        simpa using none_empty
      have asked : q.types ≠ [] := fun none => typed (List.isEmpty_iff.mpr none)
      obtain rfl := Except.ok.inj same
      split
      · rename_i none
        rw [List.isEmpty_iff.mp none] at queries
        exact .typed asked toward compiled filled read queries (absurd rfl) (absurd rfl) alike
      · exact .typed asked toward compiled filled read queries (fun _ => ⟨rfl, rfl⟩) (fun _ => rfl)
          alike

/-- A plan comes about in one of these ways, and only a query for edges asks for a vertex at
the other end. -/
theorem build_cases {s : PlanSetting} {q : VertexQuery} {category : RelationCategory} {p : Plan}
    (built : build types s q category = .ok p) :
    (q.adjacent.isSome = true → category = .edge) ∧ Built types s q category p := by
  obtain ⟨_, ends, built⟩ := Outcome.bind_eq_ok_iff.mp built
  have edges := (Fault.unless_eq_ok_iff _ _).mp ends
  rw [Bool.or_eq_true, beq_iff_eq, Option.isNone_iff_eq_none] at edges
  refine ⟨fun asked => edges.resolve_left (Option.isSome_iff_ne_none.mp asked), ?_⟩
  split at built
  · rename_i limit
    obtain rfl := Except.ok.inj built
    exact .unasked limit
  · split at built
    · rename_i away
      obtain rfl := Except.ok.inj built
      exact .away away
    · rename_i d toward
      obtain ⟨orders, -, built⟩ := Outcome.bind_eq_ok_iff.mp built
      obtain ⟨_, alike, built⟩ := Outcome.bind_eq_ok_iff.mp built
      obtain ⟨compiled, sortedOut, built⟩ := Outcome.bind_eq_ok_iff.mp built
      cases compiled with
      | none =>
          obtain rfl := Except.ok.inj built
          exact .unmet sortedOut
      | some constraints =>
          exact built_of_assemble toward sortedOut ((Fault.unless_eq_ok_iff _ _).mp alike) built

/-- A plan that reads something has the limit of its query. -/
theorem limit_of_assemble {q : VertexQuery} {category : RelationCategory} {p : Plan} {f : Frame}
    {d : Direction} (assembled : assemble types q f category d = .ok p) :
    p.queries = [] ∨ p.limit = q.limit := by
  rw [assemble] at assembled
  dsimp only at assembled
  split at assembled
  · obtain ⟨sub, -, same⟩ := Outcome.bind_eq_ok_iff.mp assembled
    obtain rfl := Except.ok.inj same
    exact .inr rfl
  · split at assembled
    · obtain rfl := Except.ok.inj assembled
      exact .inl rfl
    · obtain ⟨found, -, same⟩ := Outcome.bind_eq_ok_iff.mp assembled
      obtain rfl := Except.ok.inj same
      split
      · exact .inl rfl
      · exact .inr rfl

/-- Slices are only planned where more than nothing is asked for. -/
theorem limit_pos_of_build {s : PlanSetting} {q : VertexQuery} {category : RelationCategory}
    {p : Plan} (built : build types s q category = .ok p) (read : p.queries ≠ []) :
    0 < p.limit := by
  obtain ⟨_, -, built⟩ := Outcome.bind_eq_ok_iff.mp built
  by_cases limit : q.limit = 0
  · rw [if_pos limit] at built
    obtain rfl := Except.ok.inj built
    exact absurd rfl read
  · rw [if_neg limit] at built
    split at built
    · obtain rfl := Except.ok.inj built
      exact absurd rfl read
    · obtain ⟨orders, -, built⟩ := Outcome.bind_eq_ok_iff.mp built
      obtain ⟨_, -, built⟩ := Outcome.bind_eq_ok_iff.mp built
      obtain ⟨compiled, -, built⟩ := Outcome.bind_eq_ok_iff.mp built
      cases compiled with
      | none =>
          obtain rfl := Except.ok.inj built
          exact absurd rfl read
      | some constraints =>
          rw [(limit_of_assemble built).resolve_left read]
          exact UInt64.pos_iff_ne_zero.mpr limit

/-- Every slice that is asked for some names belongs to a reading of one of the types. -/
theorem exists_reading {f : Frame} {category : RelationCategory} {d : Direction}
    {names : List String} {groups : List (List Reading)}
    (read : List.Forall₂ (ReadFor types f category d) names groups) {sub : SubQuery}
    (member : sub ∈ groups.flatten.flatMap Reading.queries) :
    ∃ name ∈ names, ∃ t d' reading, types.byName name = .ok (some t) ∧
      category.admits t = true ∧ readingDirection t d = some d' ∧
      reading.directions ⊆ directionsOf d' ∧ Made types f t reading ∧ sub ∈ reading.queries := by
  obtain ⟨reading, inGroups, inReading⟩ := List.mem_flatMap.mp member
  obtain ⟨readings, inList, inGroup⟩ := List.mem_flatten.mp inGroups
  obtain ⟨name, asked, readFor⟩ := exists_left_of_forall₂ read inList
  cases readFor with
  | unknown unknown => cases inGroup
  | away known admitted away => cases inGroup
  | read known admitted toward directions made =>
      refine ⟨name, asked, _, _, reading, known, admitted, toward, ?_, made reading inGroup,
        inReading⟩
      rw [← directions]
      exact fun d member => List.mem_flatMap.mpr ⟨reading, inGroup, member⟩

/-- Every slice of a plan is that of a scan, or it was made of a type that was named. -/
theorem Built.query_cases {s : PlanSetting} {q : VertexQuery} {category : RelationCategory}
    {p : Plan} (built : Built types s q category p) {sub : SubQuery} (member : sub ∈ p.queries) :
    ∃ f : Frame, categoryDirection category q.direction = some p.direction ∧
      Constraints.compile types q.conditions q.adjacent = .ok (some f.constraints) ∧
      p.conditions = f.constraints.kept ∧
      (q.types = [] ∧ scan f category p.direction q.adjacent = .ok sub ∨
        (∀ said ∈ f.constraints.intervals, said.2.isEmpty = false) ∧
        ∃ name ∈ q.types, ∃ t d' reading, types.byName name = .ok (some t) ∧
          category.admits t = true ∧ readingDirection t p.direction = some d' ∧
          Made types f t reading ∧ sub ∈ reading.queries) := by
  cases built with
  | unasked limit => cases member
  | away away => cases member
  | unmet compiled => cases member
  | empty compiled said empty => cases member
  | scanned untyped toward compiled read =>
      obtain rfl := List.mem_singleton.mp member
      exact ⟨_, toward, compiled, rfl, .inl ⟨untyped, read⟩⟩
  | typed typed toward compiled filled read queries rest =>
      obtain ⟨conditions, direction⟩ := rest (List.ne_nil_of_mem member)
      obtain ⟨name, asked, t, d', reading, known, admitted, toward', -, made, inReading⟩ :=
        exists_reading read (queries ▸ member)
      exact ⟨_, direction ▸ toward, compiled, conditions, .inr ⟨filled, name, asked, t, d',
        reading, known, admitted, direction ▸ toward', made, inReading⟩⟩

end Plan

end PropertyGraph
