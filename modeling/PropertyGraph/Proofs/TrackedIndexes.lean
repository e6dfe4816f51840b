/-
# Proofs.TrackedIndexes -- the indexes that a registry keeps

A registry knows an index object by its place, and keeps the place of each index that it
handed out until the index is invalidated.  `Registry.Tracks` says that every place that is
kept has an object of the schema vertex that the index has now, and that the object is fine
in whatever sense; each lemma says that one part of a question leaves it so.

`Registry.Question` are the questions to a registry, and `leaves_asked` carries a condition on
registries through all of them, if the three parts that they are made of leave it: the
question for a type, the one for an index and the one to an index object.
-/
import PropertyGraph.Proofs.KeptTypes
import PropertyGraph.Proofs.IndexObjects
import PropertyGraph.Query.IndexChoice

namespace PropertyGraph

set_option autoImplicit false

open Schema

namespace Registry

/-! ## What a registry keeps -/

/-- Every index that is kept is an object of its schema vertex, and a fine one. -/
def Tracks (fine : GraphIndex → Prop) (r : Registry) : Prop :=
  ∀ kept ∈ r.indexes, ∃ i, r.vertex? kept.1 = some i.vertex ∧ i.vertex.kind.isIndex = true ∧
    r.objects[kept.2]? = some i ∧ fine i

/-- What is still kept is of the vertex that it was of, and its object is a fine one of the
vertex that the old object was of. -/
theorem Tracks.transfer {fine fine' : GraphIndex → Prop} {r after : Registry}
    (tracks : Tracks fine r)
    (fewer : ∀ kept ∈ after.indexes, kept ∈ r.indexes ∧ after.vertex? kept.1 = r.vertex? kept.1)
    (still : ∀ {place : Nat} {i : GraphIndex}, r.objects[place]? = some i → fine i →
      ∃ j, after.objects[place]? = some j ∧ j.vertex = i.vertex ∧ fine' j) :
    Tracks fine' after := by
  intro kept member
  obtain ⟨old, same⟩ := fewer kept member
  obtain ⟨i, found, kind, here, good⟩ := tracks kept old
  obtain ⟨j, there, vertex, good'⟩ := still here good
  exact ⟨j, by rw [same, found, vertex], by rwa [vertex], there, good'⟩

/-- The schema is the same, and no index was given up. -/
structure Stays (r after : Registry) : Prop where
  schema : after.vertices = r.vertices
  indexes : r.indexes ⊆ after.indexes

theorem Stays.refl (r : Registry) : Stays r r := ⟨rfl, List.Subset.refl _⟩

theorem Stays.trans {r s t : Registry} (first : Stays r s) (second : Stays s t) : Stays r t :=
  ⟨second.schema.trans first.schema, List.Subset.trans first.indexes second.indexes⟩

/-! ## Relation types -/

section Types

variable {condition : Registry → Prop}

theorem leaves_lift {α : Type} (o : Outcome α) :
    Leaves condition (MonadLiftT.monadLift o : Lookup α) := by
  intro r holds
  rwa [Lookup.ask_lift]

/-- The question for a type changes nothing but the types that are kept. -/
theorem leaves_typeObject
    (keeps : ∀ r id t, condition r → condition (r.keepType id t).2) (id : SchemaId) :
    Leaves condition (typeObject id) := by
  have derives : ∀ depth id, Leaves condition (deriveType depth id) := by
    intro depth
    induction depth with
    | zero => exact fun _ _ holds => holds
    | succ depth ih =>
        intro id
        have keep : ∀ t : RelationType,
            Leaves condition (modifyGet fun r => r.keepType id t : Lookup TypeObject) :=
          fun t r holds => keeps r id t holds
        rw [deriveType]
        refine leaves_get.bind fun r => ?_
        cases r.types.lookup id with
        | some kept => exact fun _ holds => holds
        | none =>
            cases r.vertex? id with
            | none => exact fun _ holds => holds
            | some v =>
                simp only
                split
                · refine (leaves_lift _).bind fun b => (ih b).bind fun base => ?_
                  exact (leaves_lift _).bind keep
                · exact (leaves_lift _).bind keep
  exact leaves_get.bind fun r => derives _ id

end Types

/-! ## Indexes -/

section Indexes

variable {fine : GraphIndex → Prop} {r : Registry}

/-- What the question for an index comes to, given its schema vertex: the place of an index
that is kept then. -/
inductive Indexed (id : SchemaId) (after : Registry) :
    Option SchemaVertex → Outcome Nat → Prop
  | missing : Indexed id after none (.error (.notFound .index))
  | other {v : SchemaVertex} (no : v.kind.isIndex = false) :
      Indexed id after (some v) (.error (.schema (.notIndex v.name (Named.name v.kind))))
  | kept {v : SchemaVertex} {place : Nat} (yes : v.kind.isIndex = true)
      (member : (id, place) ∈ after.indexes) : Indexed id after (some v) (.ok place)

/-- An index that is made is an object of its schema vertex, at a place of its own. -/
theorem Tracks.add (tracks : Tracks fine r) {v : SchemaVertex} {id : SchemaId}
    (found : r.vertex? id = some v) (yes : v.kind.isIndex = true) (new : fine ⟨v, .empty⟩) :
    Tracks fine { r with
      indexes := (id, r.objects.length) :: r.indexes, objects := r.objects ++ [⟨v, .empty⟩] } := by
  refine List.forall_mem_cons.mpr ⟨⟨⟨v, .empty⟩, found, yes, ?_, new⟩, ?_⟩
  · exact List.getElem?_concat_length
  · intro kept member
    obtain ⟨i, vertex, kind, here, good⟩ := tracks kept member
    refine ⟨i, vertex, kind, ?_, good⟩
    obtain ⟨bound, -⟩ := List.getElem?_eq_some_iff.mp here
    exact (List.getElem?_append_left bound).trans here

theorem indexed_indexObject (tracks : Tracks fine r) (new : ∀ v, fine ⟨v, .empty⟩)
    (id : SchemaId) :
    Indexed id ((indexObject id).ask r).2 (r.vertex? id) ((indexObject id).ask r).1 ∧
      Tracks fine ((indexObject id).ask r).2 ∧ Stays r ((indexObject id).ask r).2 ∧
      ((indexObject id).ask r).2.types = r.types := by
  rw [indexObject, Lookup.ask_bind, Lookup.ask_get]
  simp only
  cases looked : r.indexes.lookup id with
  | some place =>
      have member := mem_of_lookup looked
      obtain ⟨i, vertex, kind, -⟩ := tracks _ member
      rw [vertex]
      exact ⟨.kept kind member, tracks, .refl r, rfl⟩
  | none =>
      cases found : r.vertex? id with
      | none => exact ⟨.missing, tracks, .refl r, rfl⟩
      | some v =>
          simp only [Lookup.ask_bind, Lookup.ask_lift, GraphIndex.ofVertex]
          cases kind : v.kind.isIndex with
          | false => exact ⟨.other kind, tracks, .refl r, rfl⟩
          | true =>
              exact ⟨.kept kind List.mem_cons_self, tracks.add found kind (new v),
                ⟨rfl, List.subset_cons_self _ _⟩, rfl⟩

theorem ask_askIndex {α : Type} {place : Nat} {i : GraphIndex}
    (here : r.objects[place]? = some i)
    (question : GraphIndex → (SchemaId → Option SchemaVertex) → Outcome α × GraphIndex) :
    (askIndex place question).ask r = ((question i r.vertex?).1,
      { r with objects := r.objects.set place (question i r.vertex?).2 }) := by
  rw [askIndex, Lookup.ask_bind, Lookup.ask_get]
  simp only [here]
  exact Lookup.ask_lift _ _

/-- An object that is put in the place of one of the same vertex. -/
theorem Tracks.set (tracks : Tracks fine r) {place : Nat} {i after : GraphIndex}
    (here : r.objects[place]? = some i) (vertex : after.vertex = i.vertex)
    (lasting : fine i → fine after) :
    Tracks fine { r with objects := r.objects.set place after } := by
  refine tracks.transfer (fun _ member => ⟨member, rfl⟩) fun {other j} there good => ?_
  by_cases same : place = other
  · subst same
    obtain rfl : i = j := Option.some.inj (here.symm.trans there)
    obtain ⟨bound, -⟩ := List.getElem?_eq_some_iff.mp here
    exact ⟨after, List.getElem?_set_self bound, vertex, lasting good⟩
  · exact ⟨j, (List.getElem?_set_ne same).trans there, rfl, good⟩

/-- Asking an index object changes the object at most, which stays one of its vertex. -/
theorem tracks_askIndex {α : Type} (q : GraphIndex.Question α) (place : Nat)
    (tracks : Tracks fine r) (lasting : ∀ i, fine i → fine (q.asked i r.vertex?).2) :
    Tracks fine ((askIndex place q.asked).ask r).2 ∧
      Stays r ((askIndex place q.asked).ask r).2 ∧
      ((askIndex place q.asked).ask r).2.types = r.types := by
  cases here : r.objects[place]? with
  | none =>
      have nothing : (askIndex place q.asked).ask r = (.error (.notFound .index), r) := by
        rw [askIndex, Lookup.ask_bind, Lookup.ask_get]
        simp only [here]
        rfl
      rw [nothing]
      exact ⟨tracks, .refl r, rfl⟩
  | some i =>
      rw [ask_askIndex here]
      exact ⟨tracks.set here (GraphIndex.vertex_asked q i r.vertex?) (lasting i),
        ⟨rfl, List.Subset.refl _⟩, rfl⟩

end Indexes

/-! ## Questions -/

/-- The questions to a registry, with the answers that they have. -/
inductive Question : Type → Type 1
  | relationType (id : SchemaId) : Question RelationType
  | typeNamed (name : String) : Question (Option RelationType)
  | withIndexes (t : RelationType) : Question (List RelationType)
  /-- A question to the index of a number. -/
  | index {α : Type} (id : SchemaId) (q : GraphIndex.Question α) : Question α
  | indexNamed {α : Type} (name : String) (q : GraphIndex.Question α) : Question (Option α)
  /-- The same question to every index. -/
  | allIndexes {α : Type} (q : GraphIndex.Question α) : Question (List α)
  /-- The index that answers most of a query, which conditions it covers, and how. -/
  | select (element : Element) (conditions : List Condition) :
      Question (Option (SchemaVertex × List Nat × IndexCover))

/-- The schema vertex of an index that was chosen, with what it covers. -/
def chosen : Option IndexCandidate → Lookup (Option (SchemaVertex × List Nat × IndexCover))
  | none => return none
  | some c => do
      let v ← askIndex c.place GraphIndex.Question.vertex.asked
      return some (v, c.covered, c.cover)

/-- How a question is asked. -/
def Question.asked {α : Type} : Question α → Lookup α
  | .relationType id => Registry.relationType id
  | .typeNamed name => Registry.typeNamed name
  | .withIndexes t => Registry.withIndexes t
  | .index id q => do askIndex (← indexObject id) q.asked
  | .indexNamed name q => do
      match ← Registry.indexNamed name with
      | none => return none
      | some place => return some (← askIndex place q.asked)
  | .allIndexes q => do (← Registry.allIndexes).mapM fun place => askIndex place q.asked
  | .select element conditions => do chosen (← IndexChoice.select element conditions)

section Leaves

variable {condition : Registry → Prop} (type : ∀ id, Leaves condition (typeObject id))
  (index : ∀ id, Leaves condition (indexObject id))
  (object : ∀ {α : Type} place (q : GraphIndex.Question α),
    Leaves condition (askIndex place q.asked))

theorem leaves_pure {α : Type} (a : α) : Leaves condition (pure a : Lookup α) :=
  fun _ holds => holds

include index

theorem leaves_indexNamed (name : String) : Leaves condition (indexNamed name) := by
  refine leaves_get.bind fun r => ?_
  cases r.named? name with
  | none => exact leaves_pure _
  | some v =>
      simp only
      split
      · exact (index v.id).bind fun _ => leaves_pure _
      · exact leaves_pure _

theorem leaves_allIndexes : Leaves condition allIndexes :=
  leaves_get.bind fun _ => .mapM (fun v : SchemaVertex => index v.id) _

omit index

include object

theorem leaves_candidate (place : Nat) (element : Element) (conditions : List Condition) :
    Leaves condition (IndexChoice.candidate place element conditions) := by
  refine leaves_get.bind fun r => ?_
  cases r.objects[place]? with
  | none => exact leaves_pure _
  | some i =>
      refine (leaves_lift _).bind fun status => ?_
      split
      · exact leaves_pure _
      refine (leaves_lift _).bind fun about => ?_
      split
      · exact leaves_pure _
      refine (object place .constraint).bind fun label => ?_
      split
      · exact leaves_pure _
      · exact (object place .fields).bind fun fields => leaves_pure _

theorem leaves_rankOf (c : IndexCandidate) : Leaves condition (IndexChoice.rankOf c) := by
  refine leaves_get.bind fun r => ?_
  cases r.objects[c.place]? with
  | none => exact leaves_pure _
  | some i =>
      simp only
      split
      · exact (object c.place .cardinality).bind fun _ => leaves_pure _
      · exact leaves_pure _

theorem leaves_bestOf (element : Element) (conditions : List Condition) (places : List Nat)
    (best : Option (Nat × IndexCandidate)) :
    Leaves condition (IndexChoice.bestOf element conditions places best) := by
  induction places generalizing best with
  | nil => exact leaves_pure _
  | cons place rest ih =>
      refine (leaves_candidate object place element conditions).bind fun found => ?_
      cases found with
      | none => exact ih best
      | some c => exact (leaves_rankOf object c).bind fun _ => ih _

include type index

/-- A question leaves a condition that its parts leave. -/
theorem leaves_asked {α : Type} (q : Question α) : Leaves condition q.asked := by
  cases q with
  | relationType id => exact leaves_relationType type id
  | typeNamed name => exact leaves_typeNamed type name
  | withIndexes t => exact leaves_withIndexes type t
  | index id q => exact (index id).bind fun place => object place q
  | indexNamed name q =>
      refine (leaves_indexNamed index name).bind fun found => ?_
      cases found with
      | none => exact leaves_pure _
      | some place => exact (object place q).bind fun _ => leaves_pure _
  | allIndexes q =>
      exact (leaves_allIndexes index).bind fun _ => .mapM (fun place => object place q) _
  | select element conditions =>
      have selects : Leaves condition (IndexChoice.select element conditions) :=
        (leaves_allIndexes index).bind fun places =>
          (leaves_bestOf object element conditions places none).bind fun _ => leaves_pure _
      refine selects.bind fun found => ?_
      cases found with
      | none => exact leaves_pure _
      | some c => exact (object c.place .vertex).bind fun _ => leaves_pure _

end Leaves

/-- Every index that is kept is an object of its schema vertex. -/
def Tracked : Registry → Prop := Tracks fun _ => True

theorem tracked_asked {α : Type} (q : Question α) : Leaves Tracked q.asked := by
  refine leaves_asked (leaves_typeObject fun _ _ _ tracked => tracked) ?_ ?_ q
  · intro id r tracked
    obtain ⟨-, still, -⟩ := indexed_indexObject tracked (fun _ => trivial) id
    exact still
  · intro α place q r tracked
    exact (tracks_askIndex q place tracked fun _ _ => trivial).1

end Registry

end PropertyGraph
