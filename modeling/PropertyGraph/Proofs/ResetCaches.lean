/-
# Proofs.ResetCaches -- a registry whose caches were reset

`Registry.Event` is whatever a client does with a registry: it changes the schema, asks the
registry, and asks or resets the index objects that it was handed out, also those that the
registry does not keep any more.

However that went, every index that is kept is an object of the schema vertex that it has now
(`tracked_follow`), since a change forgets the index of each vertex that it touches.  What an
object derived from other vertices may be stale, and so may relation types; a reset gives up
just that (`Tracked.fresh_resetCaches`).  Until the schema changes again nothing is stale
(`Fresh.follow`), so every question is answered as by a registry that keeps nothing
(`answers_after_reset`).
-/
import PropertyGraph.Proofs.FreshAnswers
import PropertyGraph.Proofs.StaleTypes

namespace PropertyGraph

set_option autoImplicit false

open Schema

/-! ## Index objects that are reset -/

namespace GraphIndex

theorem reset_reset (i : GraphIndex) : i.reset.reset = i.reset := by
  simp only [reset, IndexSlots.reset, LazySlot.reset_of_unset (LazySlot.content_reset _)]

/-- Resetting the objects at some places. -/
theorem getElem?_reset (kept : List (SchemaId × Nat)) (objects : List GraphIndex) (place : Nat) :
    (kept.foldl (fun objects k => objects.modify k.2 reset) objects)[place]? =
      objects[place]?.map fun i => if place ∈ kept.map Prod.snd then i.reset else i := by
  induction kept generalizing objects with
  | nil => simp
  | cons k rest ih =>
      rw [List.foldl_cons, ih, List.getElem?_modify]
      cases objects[place]? with
      | none => rfl
      | some i =>
          by_cases first : k.2 = place <;> by_cases later : place ∈ rest.map Prod.snd <;>
            simp [first, later, reset_reset, Ne.symm]

end GraphIndex

namespace Registry

/-- What a client does. -/
inductive Event : Type 1
  | define (v : SchemaVertex)
  | connect (first last : SchemaId) (d : EdgeDescription)
  | invalidate (id : SchemaId)
  | resetCaches
  | ask {α : Type} (q : Question α)
  /-- A question to an index object, whether the registry keeps it or not. -/
  | askHeld {α : Type} (place : Nat) (q : GraphIndex.Question α)
  | resetHeld (place : Nat)

/-- It may change the schema. -/
def Event.changes : Event → Bool
  | .define _ => true
  | .connect _ _ _ => true
  | _ => false

/-- The registry after an event; a change that is refused leaves it as it is. -/
def step (r : Registry) : Event → Registry
  | .define v => r.use (.define v)
  | .connect first last d => r.use (.connect first last d)
  | .invalidate id => r.invalidate id
  | .resetCaches => r.resetCaches
  | .ask q => (q.asked.ask r).2
  | .askHeld place q => ((askIndex place q.asked).ask r).2
  | .resetHeld place => r.resetIndex place

def follow (r : Registry) (events : List Event) : Registry := events.foldl step r

/-! ## The indexes that are kept -/

section Step

variable {r : Registry} {fine : GraphIndex → Prop} (tracks : Tracks fine r)

include tracks

/-- Invalidating gives up indexes and no more. -/
theorem Tracks.invalidate (id : SchemaId) : Tracks fine (r.invalidate id) :=
  tracks.transfer (fun _ member => ⟨(List.mem_filter.mp member).1, rfl⟩)
    fun here good => ⟨_, here, rfl, good⟩

/-- A reset of the caches leaves nothing but reset objects among those that are kept. -/
theorem Tracks.resetCaches {fine' : GraphIndex → Prop} (reset : ∀ i : GraphIndex, fine' i.reset) :
    Tracks fine' r.resetCaches := by
  intro kept member
  obtain ⟨i, found, kind, here, -⟩ := tracks kept member
  refine ⟨i.reset, found, kind, ?_, reset i⟩
  have among : kept.2 ∈ r.indexes.map Prod.snd := List.mem_map_of_mem member
  refine (GraphIndex.getElem?_reset r.indexes r.objects kept.2).trans ?_
  rw [here, Option.map_some, if_pos among]

theorem Tracks.resetIndex (reset : ∀ i : GraphIndex, fine i.reset) (place : Nat) :
    Tracks fine (r.resetIndex place) := by
  refine tracks.transfer (fun _ member => ⟨member, rfl⟩) fun {other i} here good => ?_
  have there : (r.resetIndex place).objects[other]? =
      some (if place = other then i.reset else i) := by
    rw [Registry.resetIndex, List.getElem?_modify, here]
    rfl
  refine ⟨_, there, ?_⟩
  split
  · exact ⟨rfl, reset i⟩
  · exact ⟨rfl, good⟩

/-- A vertex that is defined has no index that is kept of the one before. -/
theorem Tracks.define {after : Registry} {v : SchemaVertex} (defined : r.define v = .ok after) :
    Tracks fine after := by
  obtain rfl := define_eq defined
  refine tracks.transfer (fun kept member => ?_) fun here good => ⟨_, here, rfl, good⟩
  obtain ⟨old, other⟩ := List.mem_filter.mp member
  refine ⟨old, (vertexOf_insert v r.vertices kept.1).trans (if_neg ?_)⟩
  simpa using other

theorem Tracks.connect {after : Registry} {first last : SchemaId} {d : EdgeDescription}
    (connected : r.connect first last d = .ok after) : Tracks fine after := by
  obtain ⟨-, apart, -⟩ := connect_spec connected
  unfold Registry.connect at connected
  split at connected
  · cases connected
  · obtain rfl := Except.ok.inj connected
    refine tracks.transfer (fun kept member => ?_) fun here good => ⟨_, here, rfl, good⟩
    obtain ⟨member, notLast⟩ := List.mem_filter.mp member
    obtain ⟨old, notFirst⟩ := List.mem_filter.mp member
    exact ⟨old, apart kept.1 (by simpa using notFirst) (by simpa using notLast)⟩

end Step

/-- A change is made or refused. -/
theorem of_change {condition : Registry → Prop} {r : Registry} {changed : Outcome Registry}
    (before : condition r) (after : ∀ s, changed = .ok s → condition s) :
    condition (changed.toOption.getD r) := by
  cases changed with
  | error fault => exact before
  | ok s => exact after s rfl

/-- Whatever a client does, the indexes that are kept are of the vertices that they have. -/
theorem tracked_step {r : Registry} (tracked : Tracked r) (e : Event) : Tracked (r.step e) := by
  cases e with
  | define v => exact of_change tracked fun _ => Tracks.define tracked
  | connect first last d => exact of_change tracked fun _ => Tracks.connect tracked
  | invalidate id => exact Tracks.invalidate tracked id
  | resetCaches => exact Tracks.resetCaches tracked fun _ => trivial
  | ask q => exact tracked_asked q r tracked
  | askHeld place q => exact (tracks_askIndex q place tracked fun _ _ => trivial).1
  | resetHeld place => exact Tracks.resetIndex tracked (fun _ => trivial) place

theorem tracked_follow {r : Registry} (tracked : Tracked r) (events : List Event) :
    Tracked (r.follow events) := by
  induction events generalizing r with
  | nil => exact tracked
  | cons e rest ih => exact ih (tracked_step tracked e)

/-! ## After a reset -/

/-- A reset gives up whatever may be stale. -/
theorem Tracked.fresh_resetCaches {r : Registry} (tracked : Tracked r) : r.resetCaches.Fresh :=
  ⟨kept_nil, Tracks.resetCaches tracked fun i => i.slots.fresh_reset _ _⟩

/-- Nothing that is kept becomes stale as long as the schema stays. -/
theorem Fresh.step {r : Registry} (fresh : r.Fresh) (acyclic : Acyclic r.vertices) {e : Event}
    (unchanged : e.changes = false) : (r.step e).Fresh ∧ (r.step e).vertices = r.vertices := by
  cases e with
  | define v => cases unchanged
  | connect first last d => cases unchanged
  | invalidate id => exact ⟨⟨fresh.types.filter _, fresh.indexes.invalidate id⟩, rfl⟩
  | resetCaches =>
      exact ⟨⟨kept_nil, fresh.indexes.resetCaches fun i => i.slots.fresh_reset _ _⟩, rfl⟩
  | ask q =>
      have agree := agree_asked q ⟨acyclic, rfl, fresh, fresh⟩
      exact ⟨agree.further.alike.left, agree.further.left.schema⟩
  | askHeld place q =>
      obtain ⟨after, stays⟩ := fresh_askIndex fresh place q
      exact ⟨after, stays.schema⟩
  | resetHeld place =>
      exact ⟨⟨fresh.types, fresh.indexes.resetIndex (fun i => i.slots.fresh_reset _ _) place⟩, rfl⟩

theorem Fresh.follow {r : Registry} (fresh : r.Fresh) (acyclic : Acyclic r.vertices)
    {events : List Event} (unchanged : ∀ e ∈ events, e.changes = false) :
    (r.follow events).Fresh ∧ (r.follow events).vertices = r.vertices := by
  induction events generalizing r with
  | nil => exact ⟨fresh, rfl⟩
  | cons e rest ih =>
      obtain ⟨here, later⟩ := List.forall_mem_cons.mp unchanged
      obtain ⟨still, schema⟩ := fresh.step acyclic here
      obtain ⟨last, schema'⟩ := ih still (schema ▸ acyclic) later
      exact ⟨last, schema'.trans schema⟩

/-- After a reset of the caches, and until the schema changes again, a registry answers every
question as one of the same schema vertices that keeps nothing does, whatever was done with it
before and is asked of it since; the relation indexes must form no cycle then. -/
theorem answers_after_reset {r : Registry} (new : r.indexes = []) (events later : List Event)
    (acyclic : Acyclic (r.follow events).vertices) (unchanged : ∀ e ∈ later, e.changes = false)
    {α : Type} (q : Question α) :
    (q.asked.ask ((r.follow events).resetCaches.follow later)).1 =
      (q.asked.ask (r.follow events).bare).1 := by
  have tracked : Tracked r := fun kept member => by rw [new] at member; cases member
  have reset := (tracked_follow tracked events).fresh_resetCaches
  obtain ⟨fresh, schema⟩ := reset.follow acyclic unchanged
  refine (agree_asked q ⟨?_, ?_, fresh, fresh_bare _⟩).matched.eq
  · rwa [schema]
  · rw [schema]
    rfl

section Rekeyed

/-- A property key. -/
def age (t : DataType) : SchemaVertex :=
  ⟨1, "age", .propertyKey, .ofList [(.dataType, .dataType t)], []⟩

/-- An index over a key is asked for its fields, and then the key is defined once more. -/
def rekeyed : List Event :=
  [.define (age .long), .define ⟨2, "byAge", .compositeIndex, .empty, []⟩,
    .connect 2 1 ⟨.indexField, [⟨"index-position", .int 0⟩]⟩, .ask (.index 2 .fields),
    .define (age .double)]

/-- The data types of the fields of the index. -/
def fieldTypes (r : Registry) : Outcome (List (Option DataType)) :=
  ((Question.index 2 .fields).asked.ask r).1.map fun fields => fields.map fun f => f.key.dataType

/-- The field is still of the old data type until the caches are reset. -/
theorem rekeyed_field_is_fresh_after_reset :
    empty.indexes = [] ∧ Acyclic (empty.follow rekeyed).vertices ∧
      (∀ e ∈ [Event.ask (.index 2 .status)], e.changes = false) ∧
      fieldTypes (empty.follow rekeyed) = .ok [some .long] ∧
      fieldTypes ((empty.follow rekeyed).resetCaches.follow [.ask (.index 2 .status)]) =
        .ok [some .double] ∧
      ((Question.index 2 .fields).asked.ask
          ((empty.follow rekeyed).resetCaches.follow [.ask (.index 2 .status)])).1 =
        ((Question.index 2 .fields).asked.ask (empty.follow rekeyed).bare).1 := by
  have none : ∀ v ∈ (empty.follow rekeyed).vertices, v.kind ≠ .relationIndex := by decide +kernel
  have acyclic : Acyclic (empty.follow rekeyed).vertices :=
    acyclic_of_rank UInt64.toNat fun v member index => absurd index (none v member)
  have unchanged : ∀ e ∈ [Event.ask (.index 2 .status)], e.changes = false :=
    List.forall_mem_singleton.mpr rfl
  exact ⟨rfl, acyclic, unchanged, rfl, rfl,
    answers_after_reset rfl rekeyed [.ask (.index 2 .status)] acyclic unchanged _⟩

end Rekeyed

end Registry

end PropertyGraph
