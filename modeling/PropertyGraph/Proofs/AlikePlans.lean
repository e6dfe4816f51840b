/-
# Proofs.AlikePlans -- plans do not depend on the order of conditions

Planning looks at what the conditions of a query come to only through the interval of each
component, the number of intervals and of conditions, and whether some interval is empty.
All of these are the same for constraints that say the same (`Constraints.Alike`), so each
step of planning gives the same: a score, a slice, the slices of a type, those of all types.

Since conditions say the same in any order, `build_perm` follows: queries that differ in the
order of their conditions have plans that differ in nothing else.
-/
import PropertyGraph.Proofs.ConditionOrder
import PropertyGraph.Proofs.Plans

namespace PropertyGraph

set_option autoImplicit false

namespace Plan

variable {types : TypeCatalog Outcome} {f : Frame} {c : Constraints}

/-- A frame for what another order of conditions comes to. -/
def Frame.saying (f : Frame) (c : Constraints) : Frame := { f with constraints := c }

theorem scoreFrom_alike {c' : Constraints} (alike : c.Alike c') (components : List SortComponent)
    (orders : List SchemaId) (s : Score) :
    scoreFrom c components orders s = scoreFrom c' components orders s := by
  induction components generalizing orders s with
  | nil => rfl
  | cons component rest ih =>
      simp only [scoreFrom, alike.said]
      cases c'.interval? component with
      | none => rfl
      | some i =>
          cases i with
          | points values => exact ih _ _
          | range first last => rfl

theorem score_saying (alike : f.constraints.Alike c) (t : RelationType) (d : Direction) :
    score f t d = score (f.saying c) t d := by
  rw [score, score, scoreFrom_alike alike]
  rfl

theorem bestCandidate_saying (alike : f.constraints.Alike c) (t : RelationType) (d : Direction) :
    bestCandidate types f t d = bestCandidate types (f.saying c) t d := by
  unfold bestCandidate
  simp only [score_saying alike]

theorem subQuery_saying (alike : f.constraints.Alike c) (candidate : Candidate) (d : Direction)
    (taken : List ComponentInterval) :
    subQuery types f candidate d taken = subQuery types (f.saying c) candidate d taken := by
  unfold subQuery
  rw [alike.complete, alike.perm.length_eq]
  rfl

/-- The same combinations of points are asked for, in the same order. -/
theorem expand_saying (alike : f.constraints.Alike c) (candidate : Candidate) (d : Direction)
    (components : List SortComponent) (taken : List ComponentInterval) :
    expand types f candidate d components taken =
      expand types (f.saying c) candidate d components taken := by
  induction components generalizing taken with
  | nil => rw [expand, expand, subQuery_saying alike]
  | cons component rest ih =>
      rw [expand, expand, alike.said]
      simp only [subQuery_saying alike, ih]
      rfl

theorem planDirections_saying (alike : f.constraints.Alike c) (t : RelationType)
    (directions : List Direction) :
    planDirections types f t directions = planDirections types (f.saying c) t directions := by
  induction directions with
  | nil => rfl
  | cons d rest ih =>
      rw [planDirections, planDirections, ih, bestCandidate_saying alike]
      simp only [expand_saying alike]

theorem planType_saying (alike : f.constraints.Alike c) (t : RelationType) (d : Direction) :
    planType types f t d = planType types (f.saying c) t d := by
  have none := alike.perm.isEmpty_eq
  rw [planType, planType, planDirections_saying alike, none, alike.complete]
  rfl

theorem planTypes_saying (alike : f.constraints.Alike c) (d : Direction) (names : List String)
    (p : Progress) : planTypes types f d names p = planTypes types (f.saying c) d names p := by
  induction names generalizing p with
  | nil => rfl
  | cons name rest ih =>
      rw [planTypes, planTypes]
      simp only [ih, planType_saying alike]

theorem scan_saying (alike : f.constraints.Alike c) (category : RelationCategory) (d : Direction)
    (adjacent : Option UInt64) :
    scan f category d adjacent = scan (f.saying c) category d adjacent := by
  dsimp only [scan]
  rw [alike.kept.length_eq, alike.kept.isEmpty_eq]
  rfl

/-- The same plan, with its conditions in some order. -/
structure Alike (p p' : Plan) : Prop where
  conditions : p.conditions.Perm p'.conditions
  direction : p.direction = p'.direction
  queries : p.queries = p'.queries
  orders : p.orders = p'.orders
  limit : p.limit = p'.limit
  types : p.types = p'.types
  category : p.category = p'.category

theorem Alike.refl (p : Plan) : Alike p p := ⟨.refl _, rfl, rfl, rfl, rfl, rfl, rfl⟩

/-- Both plannings fail, for one reason, or they end in plans that are alike. -/
inductive EndAlike : Outcome Plan → Outcome Plan → Prop
  | failed (fault : Fault) : EndAlike (.error fault) (.error fault)
  | planned {p p' : Plan} (alike : p.Alike p') : EndAlike (.ok p) (.ok p')

theorem EndAlike.bind {α : Type} (step : Outcome α) {later later' : α → Outcome Plan}
    (alike : ∀ a, EndAlike (later a) (later' a)) : EndAlike (step >>= later) (step >>= later') := by
  cases step with
  | error fault => exact .failed fault
  | ok a => exact alike a

theorem assemble_alike (q : VertexQuery) (conditions : List Condition)
    (alike : f.constraints.Alike c) (category : RelationCategory) (d : Direction) :
    EndAlike (assemble types q f category d)
      (assemble types { q with conditions } (f.saying c) category d) := by
  rw [assemble, assemble, ← scan_saying alike, ← planTypes_saying alike]
  dsimp only
  have empty : (f.saying c).constraints.intervals.any (fun i => i.2.isEmpty) =
      f.constraints.intervals.any fun i => i.2.isEmpty :=
    (alike.perm.any_eq).symm
  rw [empty]
  split
  · exact .bind _ fun sub => .planned ⟨alike.kept, rfl, rfl, rfl, rfl, rfl, rfl⟩
  · split
    · exact .planned (.refl _)
    · refine .bind _ fun p => ?_
      split
      · exact .planned (.refl _)
      · exact .planned ⟨alike.kept, rfl, rfl, rfl, rfl, rfl, rfl⟩

/-- Planning ends alike for conditions in any order, if none of them is refused. -/
theorem build_alike {s : PlanSetting} {q : VertexQuery} {conditions : List Condition}
    (perm : q.conditions.Perm conditions)
    (accepts : ∀ condition ∈ q.conditions, Constraints.Accepts types condition)
    (category : RelationCategory) :
    EndAlike (build types s q category) (build types s { q with conditions } category) := by
  rw [build, build]
  refine .bind _ fun _ => ?_
  split
  · exact .planned (.refl _)
  · dsimp only
    cases categoryDirection category q.direction with
    | none => exact .planned (.refl _)
    | some d =>
        refine .bind _ fun orders => .bind _ fun _ => ?_
        obtain ⟨answer, answer', compiled, compiled', rel⟩ :=
          Constraints.compile_perm perm accepts q.adjacent
        rw [compiled, compiled']
        cases rel with
        | none => exact .planned (.refl _)
        | some alike => exact assemble_alike q conditions alike category d

/-- Where a condition would be refused and there is a plan, the plan finds nothing. -/
theorem eq_nothing_of_build {s : PlanSetting} {q : VertexQuery} {category : RelationCategory}
    {p : Plan} {condition : Condition} (member : condition ∈ q.conditions)
    (refused : ¬ Constraints.Accepts types condition)
    (built : build types s q category = .ok p) : p = nothing category := by
  have unmet : ∀ {c}, Constraints.compile types q.conditions q.adjacent ≠ .ok (some c) :=
    fun compiled => by cases Constraints.eq_none_of_compile member refused compiled
  cases (build_cases built).2 with
  | unasked | away | unmet => rfl
  | empty compiled => exact absurd compiled unmet
  | scanned _ _ compiled => exact absurd compiled unmet
  | typed _ _ compiled => exact absurd compiled unmet

/-- The order of the conditions of a query changes nothing in its plan but the order of the
conditions themselves: the slices are the same in the same order, and so are direction,
orders, limit, types and category.  If no condition is refused, planning fails for both
queries or for none, and for the same reason. -/
theorem build_perm (s : PlanSetting) (q : VertexQuery) {conditions : List Condition}
    (perm : q.conditions.Perm conditions) (category : RelationCategory) :
    (∀ p p', build types s q category = .ok p →
      build types s { q with conditions } category = .ok p' → p.Alike p') ∧
    ((∀ condition ∈ q.conditions, Constraints.Accepts types condition) →
      ∀ fault, build types s q category = .error fault ↔
        build types s { q with conditions } category = .error fault) := by
  constructor
  · intro p p' built built'
    by_cases accepts : ∀ condition ∈ q.conditions, Constraints.Accepts types condition
    · have ends := build_alike (s := s) perm accepts category
      rw [built, built'] at ends
      cases ends with
      | planned alike => exact alike
    · obtain ⟨condition, accepts⟩ := not_forall.mp accepts
      obtain ⟨member, refused⟩ := Classical.not_imp.mp accepts
      obtain rfl := eq_nothing_of_build member refused built
      obtain rfl := eq_nothing_of_build (perm.mem_iff.mp member) refused built'
      exact .refl _
  · intro accepts fault
    have ends := build_alike (s := s) perm accepts category
    generalize build types s q category = o, build types s { q with conditions } category = o' at *
    cases ends with
    | failed fault => rfl
    | planned alike => exact iff_of_false (fun never => by cases never) fun never => by cases never

/-- Who has been followed from ten on, at one of three times and at one of three others. -/
def twiceTimed : VertexQuery :=
  ⟨.out, ["follows"],
    [.anyOf "since" [.long 14, .long 12, .long 5],
      .has "since" (.compare .greaterEqual) (some (.long 10)),
      .anyOf "since" [.long 20, .long 12, .long 14]], [], 5, none⟩

/-- The two times that are left have their slices in one order, whichever condition comes
first. -/
theorem times_either_way_round :
    ∃ p p', build network ⟨.default, false⟩ twiceTimed .edge = .ok p ∧
      build network ⟨.default, false⟩
        { twiceTimed with conditions := twiceTimed.conditions.reverse } .edge = .ok p' ∧
      p.queries.length = 2 ∧ p'.queries = p.queries := by
  obtain ⟨p, built, size⟩ : ∃ p, build network ⟨.default, false⟩ twiceTimed .edge = .ok p ∧
      p.queries.length = 2 := ⟨_, rfl, rfl⟩
  obtain ⟨same, ends⟩ :=
    @build_perm network ⟨.default, false⟩ twiceTimed _ (List.reverse_perm _).symm .edge
  have accepts : ∀ condition ∈ twiceTimed.conditions, Constraints.Accepts network condition := by
    intro condition member
    simp only [twiceTimed, List.mem_cons, List.not_mem_nil, or_false] at member
    obtain rfl | rfl | rfl := member <;> exact ⟨_, rfl⟩
  cases built' : build network ⟨.default, false⟩
      { twiceTimed with conditions := twiceTimed.conditions.reverse } .edge with
  | error fault => cases built.symm.trans ((ends accepts fault).mpr built')
  | ok p' => exact ⟨p, p', built, rfl, size, (same p p' built built').queries.symm⟩

end Plan

end PropertyGraph
