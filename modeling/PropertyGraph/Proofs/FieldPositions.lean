/-
# Proofs.FieldPositions -- the fields of an index stand at their positions

The edges of an index ask for positions, one each, in any order, and the fields that are derived
from them stand where they ask (`inPosition_fieldsOf`).

An index object keeps the fields that it derived.  What it keeps may be stale, since the keys
may have changed, but it was derived from the vertex that the object is of, and the edges of
that vertex are all that the order depends on.  So whatever a client does with a registry, every
object answers fields in the order of its own edges (`Registry.inPosition_follow`).

`Registry.Made` is the condition that all objects a registry ever made are fine in some sense;
`Registry.Made.follow` carries it through a run if a new object is fine and questions and resets
leave an object fine.
-/
import PropertyGraph.Proofs.FieldEdges
import PropertyGraph.Proofs.ResetCaches

namespace PropertyGraph

set_option autoImplicit false

open Schema

/-! ## Slots that keep nothing else -/

namespace LazySlot

variable {α : Type} {P : α → Prop}

/-- What is kept, if anything, has a property. -/
def Only (P : α → Prop) (s : LazySlot α) : Prop := ∀ value, s.get? = some value → P value

theorem only_of_unset {s : LazySlot α} (unset : s.content = .unset) : s.Only P := by
  intro value kept
  simp [get?, unset] at kept

theorem only_reset (s : LazySlot α) : s.reset.Only P := only_of_unset s.content_reset

/-- A slot answers and keeps what it kept or what is computed. -/
theorem only_getOrInit {s : LazySlot α} (only : s.Only P) {compute : Outcome α}
    (computes : ∀ value, compute = .ok value → P value) :
    (∀ value, (s.getOrInit compute).1 = .ok value → P value) ∧ (s.getOrInit compute).2.Only P := by
  obtain ⟨value, ready, same⟩ | ⟨answer, holds⟩ := s.getOrInit_cases compute
  · have good := only value (by simp [get?, ready])
    rw [same]
    exact ⟨fun _ equal => Except.ok.inj equal ▸ good, only⟩
  · rw [answer]
    refine ⟨computes, ?_⟩
    obtain unset | ⟨value, ready, same⟩ := holds
    · exact only_of_unset unset
    · intro other there
      rw [get?, ready] at there
      exact Option.some.inj there ▸ computes value same

end LazySlot

namespace GraphIndex

/-! ## Fields in the places that the edges ask for -/

/-- A field edge asks for this field in this place. -/
def Asks (e : SchemaEdge) (place : Nat) (f : IndexField) : Prop :=
  ∃ position : Int64, e.description.position = .ok (some position) ∧
    position.toInt = place ∧ f.key.id = e.other

/-- Each of the edges has its field in its place, and there are no other fields. -/
structure Placed (edges : List SchemaEdge) (fieldAt : Nat → Option IndexField) : Prop where
  field : ∀ e ∈ edges, ∃ place f, fieldAt place = some f ∧ Asks e place f
  edge : ∀ place f, fieldAt place = some f → ∃ e ∈ edges, Asks e place f

/-- The fields of an index stand in the order of the positions of its edges. -/
structure InPosition (index : SchemaVertex) (fields : List IndexField) : Prop where
  count : fields.length = (index.related .indexField .out).length
  placed : Placed (index.related .indexField .out) fun place => fields[place]?

/-- The vertices are looked up by their numbers. -/
def Numbered (vertexOf : SchemaId → Option SchemaVertex) : Prop :=
  ∀ id v, vertexOf id = some v → v.id = id

section Fields

variable {index : SchemaVertex} {vertexOf : SchemaId → Option SchemaVertex}

theorem id_of_leadsToKey (numbered : Numbered vertexOf) {id : SchemaId} {key : RelationType}
    (leads : LeadsToKey vertexOf id key) : key.id = id := by
  obtain ⟨v, found, made, -⟩ := leads
  exact (ids_of_ofVertex made).1.trans (numbered id v found)

/-- An edge asks for the field that it describes in the place that it describes. -/
theorem Describes.asks (numbered : Numbered vertexOf) {e : SchemaEdge} {place : Nat}
    {f : IndexField} (describes : Describes index vertexOf e place f) : Asks e place f := by
  obtain ⟨position, given, same⟩ := describes.place
  exact ⟨position, EdgeDescription.position_eq_some_iff.mpr given, same,
    id_of_leadsToKey numbered describes.key⟩

/-- The fields of an index stand where its edges ask. -/
theorem inPosition_fieldsOf (numbered : Numbered vertexOf) {fields : List IndexField}
    (derived : fieldsOf index vertexOf = .ok fields) : InPosition index fields := by
  obtain ⟨count, fieldAt⟩ := describes_of_fieldsOf derived
  refine ⟨count, fun e member => ?_, fun place f here => ?_⟩
  · obtain ⟨place, f, describes⟩ := exists_describes_of_fieldsOf derived member
    exact ⟨place, f, (fieldAt place f).mpr ⟨e, member, describes⟩, describes.asks numbered⟩
  · obtain ⟨e, member, describes⟩ := (fieldAt place f).mp here
    exact ⟨e, member, describes.asks numbered⟩

end Fields

/-! ## What an object keeps -/

/-- An object keeps no fields in another order than that of its edges. -/
def Ordered (i : GraphIndex) : Prop := i.slots.fields.Only (InPosition i.vertex)

section Ordered

variable {i : GraphIndex} {vertexOf : SchemaId → Option SchemaVertex}

theorem ordered_new (v : SchemaVertex) : Ordered ⟨v, .empty⟩ := LazySlot.only_of_unset rfl

theorem ordered_reset (i : GraphIndex) : i.reset.Ordered := LazySlot.only_reset _

/-- The fields that an object answers, and those that it keeps then. -/
theorem Ordered.fieldKeys (ordered : i.Ordered) (numbered : Numbered vertexOf) :
    (∀ fields, (i.fieldKeys vertexOf).1 = .ok fields → InPosition i.vertex fields) ∧
      (i.fieldKeys vertexOf).2.Ordered :=
  LazySlot.only_getOrInit ordered fun _ derived => inPosition_fieldsOf numbered derived

/-- Only the questions for the fields and for one of them change the fields that are kept. -/
theorem Ordered.asked {α : Type} (ordered : i.Ordered) (numbered : Numbered vertexOf)
    (q : Question α) : (q.asked i vertexOf).2.Ordered := by
  have fields := (ordered.fieldKeys numbered).2
  cases q with
  | fields => exact fields
  | field key =>
      show LazySlot.Only _ (i.fieldsByKey vertexOf).2.slots.fields
      simp only [fieldsByKey, LazySlot.getOrInitWith]
      split
      · exact ordered
      · exact fields
  | _ => exact ordered

end Ordered

end GraphIndex

namespace Registry

open GraphIndex (Numbered)

/-! ## All objects -/

/-- Every index object that was ever made is fine. -/
def Made (fine : GraphIndex → Prop) (r : Registry) : Prop := ∀ i ∈ r.objects, fine i

theorem numbered_vertex? (r : Registry) : Numbered r.vertex? :=
  fun _ _ found => (vertexOf_spec found).2

section Made

variable {fine : GraphIndex → Prop} (new : ∀ v, fine ⟨v, .empty⟩)
  (reset : ∀ i, fine i → fine i.reset)
  (asked : ∀ {α : Type} (q : GraphIndex.Question α) i vertexOf, Numbered vertexOf → fine i →
    fine (q.asked i vertexOf).2)

include new in
theorem made_indexObject (id : SchemaId) : Leaves (Made fine) (indexObject id) := by
  intro r made
  rw [indexObject, Lookup.ask_bind, Lookup.ask_get]
  simp only
  cases r.indexes.lookup id with
  | some place => exact made
  | none =>
      cases r.vertex? id with
      | none => exact made
      | some v =>
          simp only [Lookup.ask_bind, Lookup.ask_lift, GraphIndex.ofVertex]
          cases v.kind.isIndex with
          | false => exact made
          | true => exact List.forall_mem_append.mpr ⟨made, List.forall_mem_singleton.mpr (new v)⟩

include asked in
theorem made_askIndex {α : Type} (place : Nat) (q : GraphIndex.Question α) :
    Leaves (Made fine) (askIndex place q.asked) := by
  intro r made
  cases here : r.objects[place]? with
  | none =>
      rw [askIndex, Lookup.ask_bind, Lookup.ask_get]
      simp only [here]
      exact made
  | some i =>
      rw [ask_askIndex here]
      intro j member
      rcases List.mem_or_eq_of_mem_set member with old | rfl
      · exact made j old
      · exact asked q i r.vertex? r.numbered_vertex? (made i (List.mem_of_getElem? here))

include reset in
theorem made_resetCaches {r : Registry} (made : Made fine r) : Made fine r.resetCaches := by
  intro j member
  obtain ⟨place, there⟩ := List.mem_iff_getElem?.mp member
  rw [resetCaches, GraphIndex.getElem?_reset, Option.map_eq_some_iff] at there
  obtain ⟨i, here, rfl⟩ := there
  have good := made i (List.mem_of_getElem? here)
  split
  · exact reset i good
  · exact good

include reset in
theorem made_resetIndex {r : Registry} (made : Made fine r) (place : Nat) :
    Made fine (r.resetIndex place) := by
  intro j member
  obtain ⟨other, there⟩ := List.mem_iff_getElem?.mp member
  rw [resetIndex, List.getElem?_modify, Option.map_eq_map, Option.map_eq_some_iff] at there
  obtain ⟨i, here, rfl⟩ := there
  have good := made i (List.mem_of_getElem? here)
  split
  · exact reset i good
  · exact good

/-- A change of the schema makes no objects. -/
theorem Made.define {r after : Registry} (made : Made fine r) {v : SchemaVertex}
    (defined : r.define v = .ok after) : Made fine after := by
  obtain rfl := define_eq defined
  exact made

theorem Made.connect {r after : Registry} (made : Made fine r) {first last : SchemaId}
    {d : EdgeDescription} (connected : r.connect first last d = .ok after) : Made fine after := by
  unfold Registry.connect at connected
  split at connected
  · cases connected
  · obtain rfl := Except.ok.inj connected
    exact made

include new reset asked

theorem Made.step {r : Registry} (made : Made fine r) (e : Event) : Made fine (r.step e) := by
  cases e with
  | define v => exact of_change made fun _ => made.define
  | connect first last d => exact of_change made fun _ => made.connect
  | invalidate id => exact made
  | resetCaches => exact made_resetCaches reset made
  | ask q =>
      exact leaves_asked (leaves_typeObject fun _ _ _ made => made) (made_indexObject new)
        (made_askIndex asked) q r made
  | askHeld place q => exact made_askIndex asked place q r made
  | resetHeld place => exact made_resetIndex reset made place

theorem Made.follow {r : Registry} (made : Made fine r) (events : List Event) :
    Made fine (r.follow events) := by
  induction events generalizing r with
  | nil => exact made
  | cons e rest ih => exact ih (made.step new reset asked e)

end Made

/-- Whatever a client does with a registry, no object keeps fields in another order than that of
the positions that its edges give them. -/
theorem ordered_follow {start : Registry} (new : start.objects = []) (events : List Event) :
    Made GraphIndex.Ordered (start.follow events) := by
  have made : Made GraphIndex.Ordered start := fun i member => by rw [new] at member; cases member
  exact made.follow GraphIndex.ordered_new (fun i _ => i.ordered_reset)
    (fun q _ _ numbered ordered => ordered.asked numbered q) events

/-- Whatever a client does with a registry, each index object answers its fields in the order
of the positions that its edges give them. -/
theorem inPosition_follow {start : Registry} (new : start.objects = []) (events : List Event)
    {place : Nat} {i : GraphIndex} (here : (start.follow events).objects[place]? = some i)
    {fields : List IndexField}
    (answered : ((fieldsOf place).ask (start.follow events)).1 = .ok fields) :
    GraphIndex.InPosition i.vertex fields := by
  have ordered := ordered_follow new events
  rw [fieldsOf, ask_askIndex here] at answered
  exact ((ordered i (List.mem_of_getElem? here)).fieldKeys (numbered_vertex? _)).1 fields answered

end Registry

end PropertyGraph
