/-
# Proofs.Directions -- which way the relations of a slice point

The direction of a query goes through several hands until it is the third part of a column.
The category may fix it, a type may be stored one way only, both ways are read one by one or
at once, and a scan reads both whatever was asked.

* A label is read in directions that the plan covers (`covers_of_label`), so its edges point
  a way that was asked for, unless they come from a scan that has to be checked.
* A key is read outward whatever the direction is.  A query for properties that come in ends
  before that, but a query for relations goes on: `fitted_directions` says that this is the
  only way in which a fitted slice disagrees with the direction that was asked for, and
  `since_is_fitted_inward` that it happens.
-/
import PropertyGraph.Proofs.Filtering

namespace PropertyGraph

set_option autoImplicit false

open Bytes Column TypeSlice

namespace Plan

variable {types : TypeCatalog Outcome} {t : RelationType} {r : Relation} {e : Entry}

/-- Properties leave their vertex. -/
theorem out_of_key (key : t.isKey = true) (written : write types t r = .ok e) :
    r.direction = .out := by
  obtain ⟨start, sorted, tail, parts⟩ := parts_of_write written
  have stored := parts.stored
  rw [RelationType.isStoredIn, RelationType.unidirected, if_pos key] at stored
  exact (beq_iff_eq.mp stored).symm

theorem covers_of_mem_directionsOf {d x : Direction} (member : x ∈ directionsOf d) :
    d.covers x = true := by
  revert member
  cases d <;> cases x <;> decide

/-- A label is read in directions that were asked for. -/
theorem covers_of_label {d d' x : Direction} (label : t.isKey = false)
    (toward : readingDirection t d = some d') (member : x ∈ directionsOf d') :
    d.covers x = true := by
  rw [readingDirection, RelationType.unidirected, label] at toward
  have covered := covers_of_mem_directionsOf member
  cases only : t.onlyDirection with
  | none =>
      rw [only] at toward
      obtain rfl := Option.some.inj toward
      exact covered
  | some way =>
      rw [only] at toward
      simp only [Bool.false_eq_true, if_false] at toward
      split at toward
      · rename_i wanted
        obtain rfl := Option.some.inj toward
        obtain rfl | rfl := wanted
        · cases x <;> rfl
        · exact covered
      · cases toward

section Inside

variable {s : PlanSetting} {q : VertexQuery} {category : RelationCategory} {p : Plan}
  {sub : SubQuery}

/-- In the slices of a plan lie only columns of its category. -/
theorem admitted_of_inside (wellFormed : types.WellFormed)
    (built : build types s q category = .ok p) (member : sub ∈ p.queries)
    (listed : types.byId t.id = .ok t) (written : write types t r = .ok e)
    (inside : sub.slice.contains e.column = true) : category.admits t = true := by
  obtain ⟨f, -, compiled, -, origin⟩ := (build_cases built).2.query_cases member
  obtain ⟨-, read⟩ | ⟨filled, name, -, t', -, reading, known, admitted, -, made, inReading⟩ :=
    origin
  · obtain ⟨slice, limited, same⟩ := Outcome.bind_eq_ok_iff.mp read
    obtain rfl := Except.ok.inj same
    rwa [contains_of_withLimit limited, contains_ofCategory written] at inside
  · have named := wellFormed.named name t' known
    obtain ⟨kind, -⟩ := made.source wellFormed named
    obtain ⟨rfl, -⟩ := made.only wellFormed named filled
      (Constraints.compiles_of_compile compiled).reflects.distinct inReading listed written inside
    exact (admits_congr kind category).trans admitted

/-- An edge whose column lies in a fitted slice points a way that the plan is for. -/
theorem label_covered (wellFormed : types.WellFormed)
    (built : build types s q category = .ok p) (member : sub ∈ p.queries)
    (fitted : sub.fitted = true) (listed : types.byId t.id = .ok t)
    (written : write types t r = .ok e) (inside : sub.slice.contains e.column = true)
    (label : t.isKey = false) : p.direction.covers r.direction = true := by
  have admitted := admitted_of_inside wellFormed built member listed written inside
  cases (build_cases built).2 with
  | unasked limit => cases member
  | away away => cases member
  | unmet compiled => cases member
  | empty compiled said empty => cases member
  | @scanned d f sub' untyped toward compiled read alike =>
      obtain rfl := List.mem_singleton.mp member
      obtain ⟨slice, -, same⟩ := Outcome.bind_eq_ok_iff.mp read
      obtain rfl := Except.ok.inj same
      simp only [Bool.and_eq_true, Bool.or_eq_true, beq_iff_eq] at fitted
      -- A scan for properties would not have found an edge.
      obtain rfl | ⟨rfl, -⟩ := fitted.1.1
      · cases r.direction <;> rfl
      · cases label.symm.trans admitted
  | typed typed toward compiled filled read queries rest ordered alike =>
      obtain ⟨name, -, t', d', reading, known, -, toward', within, made, inReading⟩ :=
        exists_reading read (queries ▸ member)
      have named := wellFormed.named name t' known
      obtain ⟨kind, -⟩ := made.source wellFormed named
      obtain ⟨rfl, direction⟩ := made.only wellFormed named filled
        (Constraints.compiles_of_compile compiled).reflects.distinct inReading listed written inside
      have label' : t'.isKey = false := by rwa [RelationType.isKey, kind] at label
      rw [(rest (List.ne_nil_of_mem member)).2]
      exact covers_of_label label' toward' (within direction)

/-- A relation whose column lies in a fitted slice points a way that was asked for, unless it
is a property and the query is for all relations that come in. -/
theorem fitted_directions (wellFormed : types.WellFormed)
    (built : build types s q category = .ok p) (member : sub ∈ p.queries)
    (fitted : sub.fitted = true) (listed : types.byId t.id = .ok t)
    (written : write types t r = .ok e) (inside : sub.slice.contains e.column = true) :
    q.direction.covers r.direction = true ↔
      ¬ (category = .relation ∧ q.direction = .into ∧ t.isKey = true) := by
  obtain ⟨f, toward, -⟩ := (build_cases built).2.query_cases member
  cases key : t.isKey with
  | true =>
      have admitted := admitted_of_inside wellFormed built member listed written inside
      have isRelation : q.direction = .into → category = .relation := by
        intro into
        rw [into] at toward
        cases category with
        | relation => rfl
        | property => cases toward
        | edge => simp [RelationCategory.admits, RelationType.isLabel, key] at admitted
      rw [out_of_key key written]
      cases way : q.direction with
      | into => simp [isRelation way, Direction.covers]
      | out => simp [Direction.covers]
      | both => simp [Direction.covers]
  | false =>
      have covered := label_covered wellFormed built member fitted listed written inside key
      simp [covers_of_toward toward covered]

end Inside

/-- When something began, as a property. -/
def beganAtTen : Relation := ⟨7, 1, .out, .value (.long 10), []⟩

/-- Relations that go either way, by the name of a key. -/
def sinceBothWays : VertexQuery := ⟨.both, ["since"], [], [], 5, none⟩

/-- Properties are found where both directions are asked for. -/
theorem since_both_ways_is_covered :
    ∃ p sub e, build network unchanged sinceBothWays .relation = .ok p ∧ sub ∈ p.queries ∧
      sub.fitted = true ∧ write network since beganAtTen = .ok e ∧
      sub.slice.contains e.column = true ∧
      sinceBothWays.direction.covers beganAtTen.direction = true := by
  obtain ⟨p, sub, e, built, queries, fitted, written, inside⟩ :
      ∃ p sub e, build network unchanged sinceBothWays .relation = .ok p ∧ p.queries = [sub] ∧
        sub.fitted = true ∧ write network since beganAtTen = .ok e ∧
        sub.slice.contains e.column = true := ⟨_, _, _, rfl, rfl, rfl, rfl, rfl⟩
  have member : sub ∈ p.queries := queries ▸ List.mem_cons_self
  refine ⟨p, sub, e, built, member, fitted, written, inside, ?_⟩
  refine (fitted_directions wellFormed_network built member fitted rfl written inside).mpr ?_
  rintro ⟨-, never, -⟩
  cases never

/-- Relations that come in, by the name of a key. -/
def sinceInward : VertexQuery := ⟨.into, ["since"], [], [], 5, none⟩

/-- A query for relations that come in finds the properties of a key, which go out, in a
slice that is fitted; a query for properties that come in finds nothing. -/
theorem since_is_fitted_inward :
    (∃ p sub e, build network unchanged sinceInward .relation = .ok p ∧ sub ∈ p.queries ∧
      sub.fitted = true ∧ p.direction = .into ∧ network.byId since.id = .ok since ∧
      write network since beganAtTen = .ok e ∧ sub.slice.contains e.column = true ∧
      sinceInward.direction.covers beganAtTen.direction = false) ∧
    build network unchanged sinceInward .property = .ok (nothing .property) := by
  obtain ⟨p, sub, e, built, queries, fitted, direction, written, inside⟩ :
      ∃ p sub e, build network unchanged sinceInward .relation = .ok p ∧ p.queries = [sub] ∧
        sub.fitted = true ∧ p.direction = .into ∧ write network since beganAtTen = .ok e ∧
        sub.slice.contains e.column = true := ⟨_, _, _, rfl, rfl, rfl, rfl, rfl, rfl⟩
  exact ⟨⟨p, sub, e, built, queries ▸ List.mem_cons_self, fitted, direction, rfl, written, inside,
    rfl⟩, rfl⟩

end Plan

end PropertyGraph
