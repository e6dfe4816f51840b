/-
# Proofs.IndexCovers -- an index cover says just what the covered conditions say

A candidate gives up some conditions of a query, the covered ones, and asks its index instead:
a composite index for the elements whose values are one of some rows, a mixed one for those
that meet the conditions it is handed; and an index that is restricted to a label knows no
others.  `IndexCover.Returns` is what the index returns, and the main result is that these are
exactly the elements that meet the covered conditions (`candidate_is_exact`).

The rows are every choice of one value for each field, from a condition that lists the values
of its key.  So the proof goes field by field (`covers_equalities`): an element has one of these
values exactly if it meets the condition (`meets_iff_of_listed`), and it has a row exactly if
each of its values is one for its field (`row_mem_combinations_cons`).  That fields may share a
key, and with it a condition, makes no difference: the positions are put in order apart from the
rows (`Covers.ofList`).
-/
import PropertyGraph.Proofs.FieldPositions
import PropertyGraph.Proofs.SortedLists

namespace PropertyGraph

set_option autoImplicit false

/-- What conditions see of an element: its label, and at most one value for each key. -/
structure Subject where
  label : Option String
  value : String → Option Value

/-- The condition holds of the element. -/
def Subject.Meets (x : Subject) (c : Condition) : Prop :=
  c.holds (c.key.bind x.value) x.label = true

namespace IndexCover

def isComposite : IndexCover → Bool
  | .composite _ => true
  | .mixed _ => false

/-- An index with these fields returns the element: it has a value for each field, one row of
them, or it meets whatever the index is handed. -/
def Returns (fields : List IndexField) (x : Subject) : IndexCover → Prop
  | .composite rows => ∃ row ∈ rows, fields.map (fun f => x.value f.key.name) = row.map some
  | .mixed handed => ∀ c ∈ handed, x.Meets c

end IndexCover

/-- The element meets the conditions at some positions. -/
def Subject.MeetsAt (x : Subject) (conditions : List Condition) (positions : List Nat) : Prop :=
  ∀ p ∈ positions, ∀ c ∈ conditions[p]?, x.Meets c

/-- The conditions that a candidate covers are of the query, in order and each once, and its
index of this label and these fields returns the elements that meet them. -/
structure IndexCandidate.Exact (conditions : List Condition) (label : Option String)
    (fields : List IndexField) (c : IndexCandidate) : Prop where
  valid : ∀ p ∈ c.covered, p < conditions.length
  ascending : c.covered.Pairwise (· < ·)
  once : c.covered.Nodup
  exact : ∀ x : Subject, x.MeetsAt conditions c.covered ↔
    (∀ l, label = some l → x.label = some l) ∧ c.cover.Returns fields x

namespace IndexChoice

variable {conditions : List Condition}

/-! ## Conditions at positions -/

/-- Positions of conditions that are met by just the elements with a property. -/
structure Covers (conditions : List Condition) (positions : List Nat) (P : Subject → Prop) :
    Prop where
  valid : ∀ p ∈ positions, p < conditions.length
  exact : ∀ x : Subject, x.MeetsAt conditions positions ↔ P x

theorem covers_nil {P : Subject → Prop} (always : ∀ x, P x) : Covers conditions [] P :=
  ⟨fun _ never => (by cases never), fun x => ⟨fun _ => always x, fun _ _ never => (by cases never)⟩⟩

theorem covers_singleton {p : Nat} {c : Condition} (here : conditions[p]? = some c) :
    Covers conditions [p] fun x => x.Meets c := by
  obtain ⟨inside, -⟩ := List.getElem?_eq_some_iff.mp here
  exact ⟨List.forall_mem_singleton.mpr inside, fun x => by simp [Subject.MeetsAt, here]⟩

theorem Covers.append {ps qs : List Nat} {P Q : Subject → Prop} (first : Covers conditions ps P)
    (second : Covers conditions qs Q) : Covers conditions (ps ++ qs) fun x => P x ∧ Q x where
  valid := List.forall_mem_append.mpr ⟨first.valid, second.valid⟩
  exact x := by
    rw [← first.exact x, ← second.exact x]
    exact List.forall_mem_append

theorem Covers.congr {ps : List Nat} {P Q : Subject → Prop} (covers : Covers conditions ps P)
    (same : ∀ x, P x ↔ Q x) : Covers conditions ps Q :=
  ⟨covers.valid, fun x => (covers.exact x).trans (same x)⟩

/-- The order of the positions does not matter, nor does one that occurs again. -/
theorem Covers.ofList {ps : List Nat} {P : Subject → Prop} (covers : Covers conditions ps P) :
    Covers conditions (Sorted.ofList id ps) P := by
  have same : ∀ p, p ∈ Sorted.ofList id ps ↔ p ∈ ps := fun p =>
    ⟨Sorted.mem_of_mem_ofList,
      fun member => Sorted.mem_ofList_of_alone member fun _ _ equal => equal⟩
  refine ⟨fun p member => covers.valid p ((same p).mp member), fun x => ?_⟩
  rw [← covers.exact x]
  exact forall_congr' fun p => imp_congr_left (same p)

theorem mem_numbered {p : Nat} {c : Condition} (member : (p, c) ∈ numbered conditions) :
    conditions[p]? = some c := by
  obtain ⟨n, there⟩ := List.mem_iff_getElem?.mp member
  obtain ⟨position, condition⟩ := List.getElem?_zip_eq_some.mp there
  obtain ⟨inside, own⟩ := List.getElem?_eq_some_iff.mp position
  rw [List.getElem_range] at own
  subst own
  exact condition

/-! ## The label -/

theorem meets_labels_iff {x : Subject} {l : String} :
    x.Meets (.labels [l]) ↔ x.label = some l := by
  cases has : x.label <;> simp [Subject.Meets, Condition.holds, has]

/-- The label of an index is covered by a condition that asks for just this label. -/
theorem condition_of_labelPosition {l : String} {p : Nat}
    (found : labelPosition conditions l = some p) : conditions[p]? = some (.labels [l]) := by
  obtain ⟨⟨q, c⟩, first, rfl⟩ := Option.map_eq_some_iff.mp found
  obtain rfl : c = .labels [l] := by simpa using List.find?_some first
  exact mem_numbered (List.mem_of_find?_eq_some first)

theorem covers_coverLabel {label : Option String} {labelled : List Nat}
    (found : coverLabel label conditions = some labelled) :
    Covers conditions labelled fun x => ∀ l, label = some l → x.label = some l := by
  cases label with
  | none =>
      obtain rfl := Option.some.inj found
      exact covers_nil fun x l never => by cases never
  | some l =>
      obtain ⟨p, first, rfl⟩ := Option.map_eq_some_iff.mp found
      refine (covers_singleton (condition_of_labelPosition first)).congr fun x => ?_
      simp [meets_labels_iff]

/-! ## The rows of a composite index -/

/-- A condition that lists the values of a key is met by the elements with one of them. -/
theorem meets_iff_of_listed {x : Subject} {c : Condition} {key : String} {values : List Value}
    (about : c.key = some key) (listed : c.equalityValues = some values) :
    x.Meets c ↔ ∃ v ∈ values, x.value key = some v := by
  rw [Subject.Meets, about, Option.bind_some]
  cases has : x.value key with
  | some v => simp [Condition.holds_eq_contains listed]
  | none =>
      have lists : c.equalityValues.isSome = true := by rw [listed]; rfl
      simp [Condition.not_holds_of_listed lists]

/-- The values for a key are those that some condition on the key lists. -/
theorem condition_of_equalityFor {key : String} {p : Nat} {values : List Value}
    (found : equalityFor conditions key = some (p, values)) :
    ∃ c, conditions[p]? = some c ∧ c.key = some key ∧ c.equalityValues = some values := by
  obtain ⟨⟨q, c⟩, member, listed⟩ := List.exists_of_findSome?_eq_some found
  simp only at listed
  split at listed
  · rename_i about
    obtain ⟨vs, lists, same⟩ := Option.map_eq_some_iff.mp listed
    obtain ⟨rfl, rfl⟩ := Prod.mk.inj same
    exact ⟨c, mem_numbered member, about, lists⟩
  · cases listed

theorem covers_equalityFor {key : String} {p : Nat} {values : List Value}
    (found : equalityFor conditions key = some (p, values)) :
    Covers conditions [p] fun x => ∃ v ∈ values, x.value key = some v := by
  obtain ⟨c, here, about, lists⟩ := condition_of_equalityFor found
  exact (covers_singleton here).congr fun _ => meets_iff_of_listed about lists

/-- A row is a value of the first set before a row of the others. -/
theorem row_mem_combinations_cons {set : List Value} {rest : List (List Value)}
    {first : Option Value} {others : List (Option Value)} :
    (∃ row ∈ combinations (set :: rest), first :: others = row.map some) ↔
      (∃ v ∈ set, first = some v) ∧ ∃ row ∈ combinations rest, others = row.map some := by
  constructor
  · rintro ⟨row, member, same⟩
    obtain ⟨v, chosen, later⟩ := List.mem_flatMap.mp member
    obtain ⟨tail, inRest, rfl⟩ := List.mem_map.mp later
    obtain ⟨here, there⟩ := List.cons.inj same
    exact ⟨⟨v, chosen, here⟩, tail, inRest, there⟩
  · rintro ⟨⟨v, chosen, rfl⟩, tail, inRest, rfl⟩
    exact ⟨v :: tail, List.mem_flatMap.mpr ⟨v, chosen, List.mem_map_of_mem inRest⟩, rfl⟩

/-- Field by field: an element has a row exactly if each of its values is one for its field. -/
theorem covers_equalities {fields : List IndexField} {found : List (Nat × List Value)}
    (each : fields.mapM (fun f => equalityFor conditions f.key.name) = some found) :
    Covers conditions (found.map Prod.fst)
      ((IndexCover.composite (combinations (found.map Prod.snd))).Returns fields) := by
  induction fields generalizing found with
  | nil =>
      obtain rfl := Option.some.inj each
      exact covers_nil fun x => ⟨[], List.mem_singleton_self _, rfl⟩
  | cons f rest ih =>
      simp only [List.mapM_cons, Option.bind_eq_bind, Option.bind_eq_some_iff] at each
      obtain ⟨⟨p, values⟩, first, others, later, same⟩ := each
      obtain rfl := Option.some.inj same
      exact ((covers_equalityFor first).append (ih later)).congr fun x =>
        row_mem_combinations_cons.symm

/-! ## The conditions of a mixed index -/

theorem covers_numbered {found : List (Nat × Condition)} (among : found ⊆ numbered conditions) :
    Covers conditions (found.map Prod.fst) fun x => ∀ c ∈ found.map Prod.snd, x.Meets c := by
  induction found with
  | nil => exact covers_nil fun _ _ never => by cases never
  | cons e rest ih =>
      obtain ⟨here, later⟩ := List.cons_subset.mp among
      exact ((covers_singleton (mem_numbered here)).append (ih later)).congr fun x =>
        List.forall_mem_cons.symm

/-! ## Candidates -/

/-- What the fields of an index cover, as its kind does it. -/
def coverFields (composite : Bool) (fields : List IndexField) (conditions : List Condition) :
    Option (List Nat × IndexCover) :=
  if composite then coverComposite fields conditions else coverMixed fields conditions

theorem covers_coverFields {composite : Bool} {fields : List IndexField} {covered : List Nat}
    {cover : IndexCover} (found : coverFields composite fields conditions = some (covered, cover)) :
    cover.isComposite = composite ∧ Covers conditions covered (cover.Returns fields) := by
  unfold coverFields at found
  cases composite with
  | true =>
      simp only [if_true, coverComposite, Option.bind_eq_bind, Option.bind_eq_some_iff] at found
      obtain ⟨equalities, each, same⟩ := found
      obtain ⟨rfl, rfl⟩ := Prod.mk.inj (Option.some.inj same)
      exact ⟨rfl, covers_equalities each⟩
  | false =>
      simp only [Bool.false_eq_true, if_false, coverMixed] at found
      split at found
      · cases found
      · obtain ⟨rfl, rfl⟩ := Prod.mk.inj (Option.some.inj found)
        exact ⟨rfl, covers_numbered (List.filter_subset_self _)⟩

/-- The question for the label changes nothing about the fields. -/
theorem fieldsOf_after_constraintOf {r : Registry} {place : Nat} {i : GraphIndex}
    (here : r.objects[place]? = some i) :
    ((Registry.fieldsOf place).ask ((Registry.constraintOf place).ask r).2).1 =
      ((Registry.fieldsOf place).ask r).1 := by
  obtain ⟨inside, -⟩ := List.getElem?_eq_some_iff.mp here
  rw [Registry.constraintOf, Registry.ask_askIndex here, Registry.fieldsOf,
    Registry.ask_askIndex (List.getElem?_set_self inside), Registry.ask_askIndex here]
  rfl

/-- A candidate is found where the label and the fields that the index answers cover
something. -/
theorem covers_of_candidate {r : Registry} {place : Nat} {element : Element} {c : IndexCandidate}
    (found : ((candidate place element conditions).ask r).1 = .ok (some c)) :
    ∃ i label fields labelled covered, r.objects[place]? = some i ∧
      ((Registry.constraintOf place).ask r).1 = .ok label ∧
      ((Registry.fieldsOf place).ask r).1 = .ok fields ∧
      coverLabel label conditions = some labelled ∧
      coverFields i.isComposite fields conditions = some (covered, c.cover) ∧
      c.place = place ∧ c.covered = Sorted.ofList id (labelled ++ covered) := by
  rw [candidate, Lookup.ask_bind, Lookup.ask_get] at found
  simp only at found
  cases here : r.objects[place]? with
  | none => rw [here] at found; cases found
  | some i =>
      rw [here] at found
      obtain ⟨status, -, found⟩ := Lookup.of_ask_lift_bind found
      split at found
      · cases found
      obtain ⟨about, -, found⟩ := Lookup.of_ask_lift_bind found
      split at found
      · cases found
      obtain ⟨label, s, labelAsked, found⟩ := Lookup.of_ask_bind found
      split at found
      · cases found
      rename_i labelled coveredLabel
      obtain ⟨fields, t, fieldsAsked, found⟩ := Lookup.of_ask_bind found
      obtain ⟨⟨covered, cover⟩, coveredFields, rfl⟩ :=
        Option.map_eq_some_iff.mp (Except.ok.inj found)
      refine ⟨i, label, fields, labelled, covered, rfl, congrArg Prod.fst labelAsked, ?_,
        coveredLabel, coveredFields, rfl, rfl⟩
      rw [← fieldsOf_after_constraintOf here, labelAsked]
      exact congrArg Prod.fst fieldsAsked

/-- A candidate covers what its index answers: whatever was done with a registry, the elements
that meet the covered conditions of a query are those of the label of the index, if it has one,
that the index returns for the cover, by its fields in the order of their positions. -/
theorem candidate_is_exact {start : Registry} (new : start.objects = [])
    (events : List Registry.Event) {place : Nat} {element : Element}
    {conditions : List Condition} {c : IndexCandidate}
    (found : ((candidate place element conditions).ask (start.follow events)).1 = .ok (some c)) :
    ∃ (i : GraphIndex) (label : Option String) (fields : List IndexField),
      (start.follow events).objects[place]? = some i ∧
        ((Registry.constraintOf place).ask (start.follow events)).1 = .ok label ∧
        ((Registry.fieldsOf place).ask (start.follow events)).1 = .ok fields ∧
        GraphIndex.InPosition i.vertex fields ∧
        c.place = place ∧ c.cover.isComposite = i.isComposite ∧
        c.Exact conditions label fields := by
  obtain ⟨i, label, fields, labelled, covered, here, labelAnswered, fieldsAnswered, byLabel,
    byFields, own, positions⟩ := covers_of_candidate found
  obtain ⟨kind, covers⟩ := covers_coverFields byFields
  have whole := ((covers_coverLabel byLabel).append covers).ofList
  have ascending : c.covered.Pairwise (· < ·) := by
    rw [positions]
    exact (Sorted.ascending_ofList id _).imp Nat.compare_eq_lt.mp
  refine ⟨i, label, fields, here, labelAnswered, fieldsAnswered,
    Registry.inPosition_follow new events here fieldsAnswered, own, kind, ?_, ascending,
    ascending.imp Nat.ne_of_lt, ?_⟩
  · rw [positions]
    exact whole.valid
  · rw [positions]
    exact whole.exact

section Persons

/-- Persons are indexed by their age and name, whose edges were added the other way round. -/
def persons : List Registry.Event :=
  [.define (Registry.age .long),
    .define ⟨2, "name", .propertyKey, .ofList [(.dataType, .dataType .text)], []⟩,
    .define ⟨3, "person", .vertexLabel, .empty, []⟩,
    .define ⟨4, "byAgeAndName", .compositeIndex,
      .ofList [(.elementCategory, .element .vertex)], []⟩,
    .connect 4 2 ⟨.indexField, [⟨"index-position", .int 1⟩]⟩,
    .connect 4 1 ⟨.indexField, [⟨"index-position", .int 0⟩]⟩,
    .connect 4 3 ⟨.indexSchemaConstraint, []⟩, .ask (.index 4 .status)]

/-- Two ages, and a name between them and the label; the last condition is left to check. -/
def asked : List Condition :=
  [.anyOf "age" [.long 30, .long 40], .has "name" (.compare .equal) (some (.text "ada")),
    .labels ["person"], .has "age" (.compare .notEqual) (some (.long 30))]

def personsFound : IndexCandidate :=
  ⟨0, [0, 1, 2], .composite [[.long 30, .text "ada"], [.long 40, .text "ada"]]⟩

/-- The rows are in the order of the positions, and the label is covered between. -/
theorem persons_cover_is_exact :
    Registry.empty.objects = [] ∧
      ((candidate 0 .vertex asked).ask (Registry.empty.follow persons)).1 =
        .ok (some personsFound) ∧
      ∃ (i : GraphIndex) (label : Option String) (fields : List IndexField),
        (Registry.empty.follow persons).objects[0]? = some i ∧
          ((Registry.constraintOf 0).ask (Registry.empty.follow persons)).1 = .ok label ∧
          ((Registry.fieldsOf 0).ask (Registry.empty.follow persons)).1 = .ok fields ∧
          GraphIndex.InPosition i.vertex fields ∧
          personsFound.place = 0 ∧ personsFound.cover.isComposite = i.isComposite ∧
          personsFound.Exact asked label fields := by
  have found : ((candidate 0 .vertex asked).ask (Registry.empty.follow persons)).1 =
      .ok (some personsFound) := rfl
  exact ⟨rfl, found, candidate_is_exact rfl persons found⟩

end Persons

end IndexChoice

end PropertyGraph
