/-
# Proofs.AnsweringIndexes -- an index that is selected answers a condition if it has a field

A mixed index that is handed no condition yields no candidate, and each field of a composite
index is bound to a condition.  So an index with a field answers a condition on a property key
(`selected_answers_iff`).  But a composite index without any field binds all of its fields, and
nothing keeps it from being selected before it is connected to a key (`unfinished_is_selected`).
-/
import PropertyGraph.Proofs.BestIndexes

namespace PropertyGraph

set_option autoImplicit false

open Schema

/-- A cover answers a condition on the key of a field: a composite one by the values that the
condition lists for the field, a mixed one as the index is handed the condition. -/
def IndexCover.Answers (fields : List IndexField) (conditions : List Condition)
    (covered : List Nat) (cover : IndexCover) : Prop :=
  ∃ f ∈ fields, ∃ p ∈ covered, ∃ c, conditions[p]? = some c ∧ c.key = some f.key.name ∧
    match cover with
    | .composite _ => c.equalityValues.isSome = true
    | .mixed handed => c ∈ handed

/-- Covering more conditions takes no answer away. -/
theorem IndexCover.Answers.of_subset {fields : List IndexField} {conditions : List Condition}
    {covered covered' : List Nat} {cover : IndexCover}
    (answers : cover.Answers fields conditions covered) (more : covered ⊆ covered') :
    cover.Answers fields conditions covered' := by
  obtain ⟨f, field, p, position, here⟩ := answers
  exact ⟨f, field, p, more position, here⟩

namespace Registry

/-- The objects of a registry answer fields that stand where their edges ask. -/
theorem Reached.ordered {r : Registry} (reached : Reached r) : Made GraphIndex.Ordered r := by
  obtain ⟨start, events, opened, rfl⟩ := reached
  exact ordered_follow opened.unused.objects events

end Registry

namespace IndexChoice

open Registry

section

variable {fields : List IndexField} {conditions : List Condition} {covered : List Nat}
  {cover : IndexCover}

/-- Each field of a composite index is bound to a condition. -/
theorem answers_of_coverComposite
    (found : coverComposite fields conditions = some (covered, cover)) (some_ : fields ≠ []) :
    cover.Answers fields conditions covered := by
  cases fields with
  | nil => exact absurd rfl some_
  | cons f rest =>
      simp only [coverComposite, List.mapM_cons, Option.bind_eq_bind,
        Option.bind_eq_some_iff] at found
      obtain ⟨_, ⟨⟨p, values⟩, first, others, -, same⟩, whole⟩ := found
      obtain rfl := Option.some.inj same
      obtain ⟨rfl, rfl⟩ := Prod.mk.inj (Option.some.inj whole)
      obtain ⟨c, here, about, lists⟩ := condition_of_equalityFor first
      exact ⟨f, List.mem_cons_self, p, List.mem_cons_self, c, here, about,
        Option.isSome_iff_exists.mpr ⟨values, lists⟩⟩

/-- A mixed index is handed some condition, or covers nothing. -/
theorem answers_of_coverMixed (found : coverMixed fields conditions = some (covered, cover)) :
    cover.Answers fields conditions covered := by
  rw [coverMixed] at found
  split at found
  · cases found
  · rename_i some_
    obtain ⟨rfl, rfl⟩ := Prod.mk.inj (Option.some.inj found)
    obtain ⟨⟨p, c⟩, member⟩ := List.exists_mem_of_ne_nil _ (mt List.isEmpty_iff.mpr some_)
    obtain ⟨inside, answers⟩ := List.mem_filter.mp member
    obtain ⟨f, field, suits⟩ := List.any_eq_true.mp answers
    have about : c.key = some f.key.name := by
      simp only [Bool.and_eq_true, beq_iff_eq] at suits
      exact suits.1.2
    exact ⟨f, field, p, List.mem_map_of_mem member, c, mem_numbered inside, about,
      List.mem_map_of_mem member⟩

/-- Without fields there is nothing to answer, and a composite index covers it. -/
theorem coverFields_nil {composite : Bool}
    (found : coverFields composite [] conditions = some (covered, cover)) :
    composite = true ∧ covered = [] ∧ cover = .composite [[]] := by
  cases composite with
  | true =>
      obtain ⟨rfl, rfl⟩ := Prod.mk.inj (Option.some.inj found)
      exact ⟨rfl, rfl, rfl⟩
  | false =>
      obtain ⟨f, never, -⟩ := answers_of_coverMixed found
      cases never

theorem answers_of_coverFields {composite : Bool}
    (found : coverFields composite fields conditions = some (covered, cover))
    (some_ : fields ≠ []) : cover.Answers fields conditions covered := by
  cases composite with
  | true => exact answers_of_coverComposite found some_
  | false => exact answers_of_coverMixed found

end

/-! ## The fields of an index that is selected -/

section

variable {r : Registry} {v : SchemaVertex} {fields : List IndexField}

/-- An index answers fields that stand where its edges ask. -/
theorem inPosition_of_indexAnswer (reached : Reached r) (vertex : r.vertex? v.id = some v)
    (answered : r.indexAnswer v.id .fields = .ok fields) : GraphIndex.InPosition v fields := by
  rw [indexAnswer_eq, Outcome.bind_eq_ok_iff] at answered
  obtain ⟨i, found, answered⟩ := answered
  have good : i.vertex = v ∧ i.Ordered := by
    unfold indexAt at found
    cases kept : r.indexes.lookup v.id with
    | some place =>
        obtain ⟨j, own, -, here, -⟩ := reached.tracked _ (mem_of_lookup kept)
        simp only [kept, here] at found
        obtain rfl := Except.ok.inj found
        exact ⟨Option.some.inj (own.symm.trans vertex),
          reached.ordered j (List.mem_of_getElem? here)⟩
    | none =>
        simp only [kept, vertex, GraphIndex.ofVertex] at found
        split at found
        · obtain rfl := Except.ok.inj found
          exact ⟨rfl, GraphIndex.ordered_new v⟩
        · cases found
  obtain ⟨rfl, ordered⟩ := good
  exact (ordered.fieldKeys (numbered_vertex? r)).1 fields answered

/-- What an index covers, it covers by the label and the fields that it answers. -/
theorem of_coverOf {element : Element} {conditions : List Condition} {covered : List Nat}
    {cover : IndexCover} (covers : coverOf r element conditions v = .ok (some (covered, cover))) :
    ∃ label fields labelled found, r.indexAnswer v.id .fields = .ok fields ∧
      coverLabel label conditions = some labelled ∧
      coverFields (v.kind == .compositeIndex) fields conditions = some (found, cover) ∧
      covered = Sorted.ofList id (labelled ++ found) := by
  rw [coverOf, Outcome.bind_eq_ok_iff] at covers
  obtain ⟨status, -, covers⟩ := covers
  split at covers
  · cases covers
  obtain ⟨about, -, covers⟩ := Outcome.bind_eq_ok_iff.mp covers
  split at covers
  · cases covers
  obtain ⟨label, -, covers⟩ := Outcome.bind_eq_ok_iff.mp covers
  split at covers
  · cases covers
  rename_i labelled byLabel
  obtain ⟨fields, answered, covers⟩ := Outcome.bind_eq_ok_iff.mp covers
  obtain ⟨⟨found, cover'⟩, byFields, same⟩ := Option.map_eq_some_iff.mp (Except.ok.inj covers)
  obtain ⟨rfl, rfl⟩ := Prod.mk.inj same
  exact ⟨label, fields, labelled, found, answered, byLabel, byFields, rfl⟩

theorem label_of_coverLabel {label : Option String} {conditions : List Condition}
    {labelled : List Nat} (found : coverLabel label conditions = some labelled) :
    ∀ p ∈ labelled, ∃ l, conditions[p]? = some (.labels [l]) := by
  cases label with
  | none =>
      obtain rfl := Option.some.inj found
      exact fun _ never => by cases never
  | some l =>
      obtain ⟨p, first, rfl⟩ := Option.map_eq_some_iff.mp found
      exact List.forall_mem_singleton.mpr ⟨l, condition_of_labelPosition first⟩

/-- An index that is selected answers a condition on a property key exactly if it has a field.
One without fields is a composite index that is looked up without any values; it is selected for
whatever label it is restricted to, and covers no other condition. -/
theorem selected_answers_iff (reached : Reached r) {element : Element}
    {conditions : List Condition} {covered : List Nat} {cover : IndexCover}
    (found : selected r element conditions = .ok (some (v, covered, cover))) :
    ∃ fields, r.indexAnswer v.id .fields = .ok fields ∧
      fields.length = (v.related .indexField .out).length ∧
      (cover.Answers fields conditions covered ↔ v.related .indexField .out ≠ []) ∧
      (v.related .indexField .out = [] → v.kind = .compositeIndex ∧ cover = .composite [[]] ∧
        ∀ p ∈ covered, ∃ l, conditions[p]? = some (.labels [l])) ∧
      ((∀ c ∈ conditions, c.key = none) → v.related .indexField .out = []) := by
  obtain ⟨-, yields, -⟩ := (selected_eq_some_iff reached.tracked reached.orderly).mp found
  have covers := ((yields_iff reached.tracked reached.orderly).mp yields).2
  obtain ⟨label, fields, labelled, answering, answered, byLabel, byFields, positions⟩ :=
    of_coverOf covers
  have count := (inPosition_of_indexAnswer reached yields.vertex answered).count
  -- No object keeps another number of fields than its vertex has edges.
  have none_iff : v.related .indexField .out = [] ↔ fields = [] := by
    rw [← List.length_eq_zero_iff, ← count, List.length_eq_zero_iff]
  have all : ∀ p ∈ labelled ++ answering, p ∈ covered := by
    intro p member
    rw [positions]
    exact Sorted.mem_ofList_of_alone member fun _ _ equal => equal
  have answers_iff : cover.Answers fields conditions covered ↔ v.related .indexField .out ≠ [] := by
    rw [ne_eq, none_iff]
    constructor
    · rintro ⟨f, field, -⟩ rfl
      cases field
    · intro some_
      exact (answers_of_coverFields byFields some_).of_subset fun p member =>
        all p (List.mem_append_right _ member)
  refine ⟨fields, answered, count, answers_iff, fun unfinished => ?_, fun keyless => ?_⟩
  · obtain rfl := none_iff.mp unfinished
    obtain ⟨composite, rfl, rfl⟩ := coverFields_nil byFields
    refine ⟨beq_iff_eq.mp composite, rfl, fun p member => ?_⟩
    rw [positions, List.append_nil] at member
    exact label_of_coverLabel byLabel p (Sorted.mem_of_mem_ofList member)
  · by_contra some_
    obtain ⟨f, -, p, -, c, here, about, -⟩ := answers_iff.mpr some_
    rw [keyless c (List.mem_of_getElem? here)] at about
    cases about

/-- An index over the ages is bound to the condition on the age. -/
theorem first_answers_its_field :
    Reached ages ∧ selected ages .vertex thirty = .ok (some
        (byAge 4 "first" .compositeIndex [(.indexCardinality, .cardinality .single)], [0],
          .composite [[.long 30]])) ∧
      ∃ fields, ages.indexAnswer 4 .fields = .ok fields ∧ fields.length = 1 ∧
        ((IndexCover.composite [[.long 30]]).Answers fields thirty [0] ↔
          (byAge 4 "first" .compositeIndex [(.indexCardinality, .cardinality .single)]).related
            .indexField .out ≠ []) := by
  have reached : Reached ages := ⟨.empty, _, .empty, rfl⟩
  have found : selected ages .vertex thirty = .ok (some
      (byAge 4 "first" .compositeIndex [(.indexCardinality, .cardinality .single)], [0],
        .composite [[.long 30]])) := by decide +kernel
  obtain ⟨fields, answered, count, answers, -⟩ := selected_answers_iff reached found
  exact ⟨reached, found, fields, answered, count, answers⟩

section Unfinished

/-- An index that is not connected to a key yet, and enabled as nothing else is recorded. -/
def unfinished : SchemaVertex :=
  ⟨2, "byAge", .compositeIndex, .ofList [(.elementCategory, .element .vertex)], []⟩

def started : Registry := Registry.empty.follow [.define (Registry.age .long), .define unfinished]

/-- It is selected for a query on the key, and covers nothing. -/
theorem unfinished_is_selected : ¬ ∀ r, Reached r → ∀ element conditions v covered cover,
    selected r element conditions = .ok (some (v, covered, cover)) →
      ∃ p ∈ covered, ∃ c ∈ conditions[p]?, c.key.isSome = true := by
  intro answering
  have found : selected started .vertex thirty = .ok (some (unfinished, [], .composite [[]])) := by
    decide +kernel
  obtain ⟨p, never, -⟩ :=
    answering started ⟨.empty, _, .empty, rfl⟩ .vertex thirty unfinished [] _ found
  cases never

end Unfinished

end

end IndexChoice

end PropertyGraph
