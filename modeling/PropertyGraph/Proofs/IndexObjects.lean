/-
# Proofs.IndexObjects -- what an index object answers

An index object keeps what it derived in one slot for each question that it derives the answer
to.  `LazySlot.Holds` says of a slot that what it keeps, if it keeps anything, is the value that
its computation has now; `IndexSlots.Fresh` says so of all slots of an object, against the
schema vertex that the object was made of and those that the others are now.

`GraphIndex.answered` is the one fact about asking: where the slots are fresh, every question
is answered by what it means for the schema vertices, and the slots stay fresh.  A reset
leaves nothing in the slots, so it makes them fresh whatever they held (`IndexSlots.fresh_reset`).
-/
import PropertyGraph.Schema.GraphIndex

namespace PropertyGraph

set_option autoImplicit false

namespace LazySlot

variable {α : Type}

/-- What is kept, if anything, is what the computation comes to. -/
def Holds (s : LazySlot α) (meaning : Outcome α) : Prop :=
  s.content = .unset ∨ ∃ value, s.content = .ready value ∧ meaning = .ok value

theorem content_reset (s : LazySlot α) : s.reset.content = .unset := by
  unfold reset
  split
  · assumption
  · rfl

theorem holds_reset (s : LazySlot α) (meaning : Outcome α) : s.reset.Holds meaning :=
  .inl s.content_reset

/-- What a computation comes to is answered and, if it is a value, kept. -/
theorem finish_of_computing {s : LazySlot α} (computing : s.content = .computing)
    (meaning : Outcome α) :
    (s.finish s.generation meaning).1 = meaning ∧
      (s.finish s.generation meaning).2.Holds meaning := by
  cases meaning with
  | error fault => simp [finish, computing, Holds]
  | ok value => simp [finish, computing, Holds]

/-- A slot answers what it keeps, or what is computed, and then keeps nothing else. -/
theorem getOrInit_cases (s : LazySlot α) (compute : Outcome α) :
    (∃ value, s.content = .ready value ∧ s.getOrInit compute = (.ok value, s)) ∨
      (s.getOrInit compute).1 = compute ∧ (s.getOrInit compute).2.Holds compute := by
  cases kept : s.content with
  | ready value => exact .inl ⟨value, rfl, getOrInit_of_ready kept compute⟩
  | _ =>
      have opened : s.getOrInit compute = s.begin.finish s.begin.generation compute := by
        simp [getOrInit, getOrInitWith, kept, begin]
      rw [opened]
      exact .inr (finish_of_computing rfl compute)

/-- A slot that holds nothing else answers what its computation comes to, and keeps nothing
else; what the computation uses beside the slot stays as `Fine` as it was. -/
theorem getOrInitWith_of_holds {σ : Type} {s : LazySlot α} {meaning : Outcome α}
    (holds : s.Holds meaning) (Fine : σ → Prop) {beside : σ} (fine : Fine beside)
    (compute : LazySlot α × σ → Outcome α × (LazySlot α × σ))
    (computes : ∀ t, (compute (t, beside)).1 = meaning ∧ (compute (t, beside)).2.1 = t ∧
      Fine (compute (t, beside)).2.2) :
    (getOrInitWith compute s beside).1 = meaning ∧
      (getOrInitWith compute s beside).2.1.Holds meaning ∧
      Fine (getOrInitWith compute s beside).2.2 := by
  obtain unset | ⟨value, ready, rfl⟩ := holds
  · obtain ⟨same, untouched, still⟩ := computes s.begin
    have finished := finish_of_computing (s := s.begin) rfl meaning
    rcases computed : compute (s.begin, beside) with ⟨answer, after, beside'⟩
    rw [computed] at same untouched still
    obtain rfl : answer = meaning := same
    obtain rfl : after = s.begin := untouched
    simp only [getOrInitWith, unset, computed]
    exact ⟨finished.1, finished.2, still⟩
  · unfold getOrInitWith
    rw [ready]
    exact ⟨rfl, .inr ⟨value, ready, rfl⟩, fine⟩

theorem getOrInit_of_holds {s : LazySlot α} {meaning : Outcome α} (holds : s.Holds meaning) :
    (s.getOrInit meaning).1 = meaning ∧ (s.getOrInit meaning).2.Holds meaning := by
  obtain ⟨same, still, -⟩ := getOrInitWith_of_holds holds (fun _ : Unit => True) trivial
    (fun t => (meaning, t)) fun _ => ⟨rfl, rfl, trivial⟩
  exact ⟨same, still⟩

end LazySlot

/-- No slot of an index object keeps what the schema vertices do not say. -/
structure IndexSlots.Fresh (index : SchemaVertex) (vertexOf : SchemaId → Option SchemaVertex)
    (s : IndexSlots) : Prop where
  fields : s.fields.Holds (GraphIndex.fieldsOf index vertexOf)
  byKey : s.byKey.Holds ((GraphIndex.fieldsOf index vertexOf).map GraphIndex.keyed)
  label : s.label.Holds (GraphIndex.constraintOf index vertexOf)
  cardinality : s.cardinality.Holds (GraphIndex.cardinalityOf index)
  consistency : s.consistency.Holds (.ok index.definition.consistency)
  backing : s.backing.Holds index.definition.backingIndex
  store : s.store.Holds index.definition.storeName

section Fresh

variable (index : SchemaVertex) (vertexOf : SchemaId → Option SchemaVertex)

theorem IndexSlots.fresh_reset (s : IndexSlots) : s.reset.Fresh index vertexOf :=
  ⟨s.fields.holds_reset _, s.byKey.holds_reset _, s.label.holds_reset _,
    s.cardinality.holds_reset _, s.consistency.holds_reset _, s.backing.holds_reset _,
    s.store.holds_reset _⟩

theorem IndexSlots.fresh_empty : IndexSlots.empty.Fresh index vertexOf :=
  ⟨.inl rfl, .inl rfl, .inl rfl, .inl rfl, .inl rfl, .inl rfl, .inl rfl⟩

end Fresh

namespace GraphIndex

/-- The questions to an index object, with the answers that they have. -/
inductive Question : Type → Type
  /-- The schema vertex that it was made of: its number, its name and its kind. -/
  | vertex : Question SchemaVertex
  | status : Question Status
  | element : Question Element
  | fields : Question (List IndexField)
  | field (key : SchemaId) : Question (Option IndexField)
  | constraint : Question (Option String)
  | cardinality : Question Cardinality
  | consistency : Question Consistency
  | backingIndex : Question String
  | storeName : Question String

/-- How a question is asked. -/
def Question.asked {α : Type} : Question α → GraphIndex → (SchemaId → Option SchemaVertex) →
    Outcome α × GraphIndex
  | .vertex => fun i _ => (.ok i.vertex, i)
  | .status => fun i _ => (i.status, i)
  | .element => fun i _ => (i.element, i)
  | .fields => fieldKeys
  | .field key => GraphIndex.field key
  | .constraint => schemaConstraint
  | .cardinality => fun i _ => i.cardinality
  | .consistency => fun i _ => i.consistency
  | .backingIndex => fun i _ => i.backingIndex
  | .storeName => fun i _ => i.storeName

/-- What a question means for the schema vertices. -/
def Question.meaning {α : Type} (index : SchemaVertex)
    (vertexOf : SchemaId → Option SchemaVertex) : Question α → Outcome α
  | .vertex => .ok index
  | .status => index.status
  | .element => index.definition.element
  | .fields => fieldsOf index vertexOf
  | .field key => (fieldsOf index vertexOf).map fun fields => (keyed fields).lookup key
  | .constraint => constraintOf index vertexOf
  | .cardinality => cardinalityOf index
  | .consistency => .ok index.definition.consistency
  | .backingIndex => index.definition.backingIndex
  | .storeName => index.definition.storeName

variable {α : Type} {i : GraphIndex} {vertexOf : SchemaId → Option SchemaVertex}

/-- An object stays that of its vertex. -/
theorem vertex_asked (q : Question α) (i : GraphIndex)
    (vertexOf : SchemaId → Option SchemaVertex) : (q.asked i vertexOf).2.vertex = i.vertex := by
  cases q <;> rfl

/-- The fields by their keys are the fields, whichever of the two is kept. -/
theorem fieldsByKey_of_fresh (fresh : i.slots.Fresh i.vertex vertexOf) :
    (i.fieldsByKey vertexOf).1 = (fieldsOf i.vertex vertexOf).map keyed ∧
      (i.fieldsByKey vertexOf).2.slots.Fresh i.vertex vertexOf := by
  obtain ⟨found, kept⟩ := LazySlot.getOrInit_of_holds fresh.fields
  obtain ⟨same, byKey, fields⟩ := LazySlot.getOrInitWith_of_holds fresh.byKey
    (fun fields => LazySlot.Holds fields (fieldsOf i.vertex vertexOf)) fresh.fields
    (fun s => let found := s.2.getOrInit (fieldsOf i.vertex vertexOf)
      (found.1.map keyed, (s.1, found.2)))
    fun _ => ⟨congrArg (Except.map keyed) found, rfl, kept⟩
  exact ⟨same, { fresh with byKey, fields }⟩

/-- Where nothing that is kept is stale, a question is answered by what it means, and still
nothing is. -/
theorem answered (q : Question α) (fresh : i.slots.Fresh i.vertex vertexOf) :
    (q.asked i vertexOf).1 = q.meaning i.vertex vertexOf ∧
      (q.asked i vertexOf).2.slots.Fresh i.vertex vertexOf := by
  cases q with
  | vertex => exact ⟨rfl, fresh⟩
  | status => exact ⟨rfl, fresh⟩
  | element => exact ⟨rfl, fresh⟩
  | fields =>
      obtain ⟨same, fields⟩ := LazySlot.getOrInit_of_holds fresh.fields
      exact ⟨same, { fresh with fields }⟩
  | field key =>
      obtain ⟨same, still⟩ := fieldsByKey_of_fresh fresh
      refine ⟨?_, still⟩
      show (i.fieldsByKey vertexOf).1.map _ = (fieldsOf i.vertex vertexOf).map _
      rw [same]
      cases fieldsOf i.vertex vertexOf <;> rfl
  | constraint =>
      obtain ⟨same, label⟩ := LazySlot.getOrInit_of_holds fresh.label
      exact ⟨same, { fresh with label }⟩
  | cardinality =>
      obtain ⟨same, cardinality⟩ := LazySlot.getOrInit_of_holds fresh.cardinality
      exact ⟨same, { fresh with cardinality }⟩
  | consistency =>
      obtain ⟨same, consistency⟩ := LazySlot.getOrInit_of_holds fresh.consistency
      exact ⟨same, { fresh with consistency }⟩
  | backingIndex =>
      obtain ⟨same, backing⟩ := LazySlot.getOrInit_of_holds fresh.backing
      exact ⟨same, { fresh with backing }⟩
  | storeName =>
      obtain ⟨same, store⟩ := LazySlot.getOrInit_of_holds fresh.store
      exact ⟨same, { fresh with store }⟩

end GraphIndex

end PropertyGraph
