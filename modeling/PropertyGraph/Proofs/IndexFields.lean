/-
# Proofs.IndexFields -- an index object answers its fields in the order of their positions

Whatever an index object was used for before, it answers what its questions mean
(`asked_useAll`): the fields that its edges describe, and of a key the field that an edge leads
to.
-/
import PropertyGraph.Proofs.FieldPositions

namespace PropertyGraph

set_option autoImplicit false

open Schema

namespace GraphIndex

/-- What may be done with an index object while the schema stays. -/
inductive Use : Type 1
  | ask {α : Type} (q : Question α)
  | reset

/-- An object after it was used. -/
def use (vertexOf : SchemaId → Option SchemaVertex) (i : GraphIndex) : Use → GraphIndex
  | .ask q => (q.asked i vertexOf).2
  | .reset => i.reset

def useAll (vertexOf : SchemaId → Option SchemaVertex) (i : GraphIndex) (uses : List Use) :
    GraphIndex := uses.foldl (use vertexOf) i

section

variable {i : GraphIndex} {vertexOf : SchemaId → Option SchemaVertex} {fields : List IndexField}

/-- Using an object leaves nothing in its slots that is not so. -/
theorem fresh_use (fresh : i.slots.Fresh i.vertex vertexOf) (u : Use) :
    (i.use vertexOf u).vertex = i.vertex ∧ (i.use vertexOf u).slots.Fresh i.vertex vertexOf := by
  cases u with
  | ask q => exact ⟨vertex_asked q i vertexOf, (answered q fresh).2⟩
  | reset => exact ⟨rfl, i.slots.fresh_reset i.vertex vertexOf⟩

theorem fresh_useAll (fresh : i.slots.Fresh i.vertex vertexOf) (uses : List Use) :
    (i.useAll vertexOf uses).vertex = i.vertex ∧
      (i.useAll vertexOf uses).slots.Fresh i.vertex vertexOf := by
  induction uses generalizing i with
  | nil => exact ⟨rfl, fresh⟩
  | cons u rest ih =>
      obtain ⟨same, still⟩ := fresh_use fresh u
      obtain ⟨same', still'⟩ := ih (i := i.use vertexOf u) (same ▸ still)
      exact ⟨same'.trans same, same ▸ still'⟩

/-- A new index object answers a question by what it means, whatever it was used for before. -/
theorem asked_useAll {α : Type} {v : SchemaVertex} {new : GraphIndex}
    (made : ofVertex v = .ok new) (uses : List Use) (q : Question α) :
    (q.asked (new.useAll vertexOf uses) vertexOf).1 = q.meaning v vertexOf := by
  unfold ofVertex at made
  split at made
  · obtain rfl := Except.ok.inj made
    obtain ⟨same, fresh⟩ := fresh_useAll
      (i := ⟨v, .empty⟩) (IndexSlots.fresh_empty v vertexOf) uses
    rw [(answered q (same ▸ fresh)).1, same]
  · cases made

/-- A field is found by the number of its key. -/
theorem lookup_keyed (fields : List IndexField) (key : SchemaId) :
    (∀ f, (keyed fields).lookup key = some f → f ∈ fields ∧ f.key.id = key) ∧
      (((keyed fields).lookup key).isSome = true ↔ ∃ f ∈ fields, f.key.id = key) := by
  have found : ∀ f, (keyed fields).lookup key = some f → f ∈ fields ∧ f.key.id = key := by
    intro f looked
    obtain ⟨g, member, same⟩ := List.mem_map.mp (mem_of_lookup looked)
    obtain ⟨rfl, rfl⟩ := Prod.mk.inj same
    exact ⟨List.mem_reverse.mp member, rfl⟩
  refine ⟨found, fun is => ?_, ?_⟩
  · obtain ⟨f, looked⟩ := Option.isSome_iff_exists.mp is
    exact ⟨f, found f looked⟩
  · rintro ⟨f, member, rfl⟩
    by_contra none
    have absent := List.lookup_eq_none_iff.mp (Option.not_isSome_iff_eq_none.mp none)
    have there : (f.key.id, f) ∈ keyed fields :=
      List.mem_map.mpr ⟨f, List.mem_reverse.mpr member, rfl⟩
    simpa using absent _ there

/-- The keys of the fields are those that the edges lead to. -/
theorem exists_key_iff (numbered : Numbered vertexOf) {index : SchemaVertex}
    (derived : fieldsOf index vertexOf = .ok fields) (key : SchemaId) :
    (∃ f ∈ fields, f.key.id = key) ↔ ∃ e ∈ index.related .indexField .out, e.other = key := by
  obtain ⟨-, fieldAt⟩ := describes_of_fieldsOf derived
  constructor
  · rintro ⟨f, member, rfl⟩
    obtain ⟨place, here⟩ := List.mem_iff_getElem?.mp member
    obtain ⟨e, edge, describes⟩ := (fieldAt place f).mp here
    exact ⟨e, edge, (id_of_leadsToKey numbered describes.key).symm⟩
  · rintro ⟨e, edge, rfl⟩
    obtain ⟨place, f, describes⟩ := exists_describes_of_fieldsOf derived edge
    exact ⟨f, List.mem_of_getElem? ((fieldAt place f).mpr ⟨e, edge, describes⟩),
      id_of_leadsToKey numbered describes.key⟩

end

/-- The fields of an index are in the order of the positions that its edges give, or there are
none: an object of an index vertex, used in any way in a registry, answers its fields exactly if
the field edges are well formed.  Then there are as many as edges, each is what the edge of its
position describes, and there is one of a key exactly if an edge leads to the key; else the
question for a field is refused as well. -/
theorem fields_in_order (r : Registry) {v : SchemaVertex} {new : GraphIndex}
    (made : ofVertex v = .ok new) (uses : List Use) :
    ((∃ fields, ((new.useAll r.vertex? uses).fieldKeys r.vertex?).1 = .ok fields) ↔
        WellFormed v r.vertex?) ∧
      (∀ fields, ((new.useAll r.vertex? uses).fieldKeys r.vertex?).1 = .ok fields →
        fields.length = (v.related .indexField .out).length ∧
          (∀ place f, fields[place]? = some f ↔
            ∃ e ∈ v.related .indexField .out, Describes v r.vertex? e place f) ∧
          ∀ key, ∃ found, ((new.useAll r.vertex? uses).field key r.vertex?).1 = .ok found ∧
            (found.isSome = true ↔ ∃ e ∈ v.related .indexField .out, e.other = key) ∧
            ∀ f, found = some f → f ∈ fields ∧ f.key.id = key) ∧
      ∀ fault, ((new.useAll r.vertex? uses).fieldKeys r.vertex?).1 = .error fault →
        ∀ key, ((new.useAll r.vertex? uses).field key r.vertex?).1 = .error fault := by
  have fields : ((new.useAll r.vertex? uses).fieldKeys r.vertex?).1 = fieldsOf v r.vertex? :=
    asked_useAll made uses .fields
  have field : ∀ key, ((new.useAll r.vertex? uses).field key r.vertex?).1 =
      (fieldsOf v r.vertex?).map fun fields => (keyed fields).lookup key :=
    fun key => asked_useAll made uses (.field key)
  have numbered := r.numbered_vertex?
  simp only [fields, field]
  refine ⟨exists_fieldsOf_iff, fun fields derived => ?_, fun fault refused key => ?_⟩
  · obtain ⟨count, fieldAt⟩ := describes_of_fieldsOf derived
    refine ⟨count, fieldAt, fun key => ⟨(keyed fields).lookup key, by rw [derived]; rfl, ?_, ?_⟩⟩
    · exact (lookup_keyed fields key).2.trans (exists_key_iff numbered derived key)
    · exact (lookup_keyed fields key).1
  · rw [refused]
    rfl

section Searched

/-- A mixed index whose second field was connected first, with a mapping of its own. -/
def searched : SchemaVertex :=
  ⟨4, "search", .mixedIndex, .ofList [(.elementCategory, .element .vertex)],
    [⟨2, .out, ⟨.indexField, [⟨"mapping", .mapping .string⟩, ⟨"index-position", .int 1⟩]⟩⟩,
      ⟨1, .out, ⟨.indexField, [⟨"index-position", .int 0⟩, ⟨"status", .status .registered⟩]⟩⟩]⟩

def searchedIn : Registry := Registry.empty.follow
  [.define (Registry.age .long),
    .define ⟨2, "name", .propertyKey, .ofList [(.dataType, .dataType .text)], []⟩]

/-- Asked for a field, given up and asked again. -/
def searching : List Use := [.ask (.field 2), .reset, .ask .fields]

def searchedAgain : GraphIndex :=
  (⟨searched, .empty⟩ : GraphIndex).useAll searchedIn.vertex? searching

/-- The keys, the statuses and the mappings of the fields are in the order of the positions. -/
theorem searched_fields_in_order :
    ofVertex searched = .ok ⟨searched, .empty⟩ ∧
      (searchedAgain.fieldKeys searchedIn.vertex?).1.map (List.map fun f =>
          (f.key.id, f.status, f.analysis.map FieldAnalysis.mapping)) =
        .ok [(1, .registered, some .standard), (2, .enabled, some .string)] ∧
      ((∃ fields, (searchedAgain.fieldKeys searchedIn.vertex?).1 = .ok fields) ↔
        WellFormed searched searchedIn.vertex?) ∧
      (∀ fields, (searchedAgain.fieldKeys searchedIn.vertex?).1 = .ok fields →
        fields.length = 2 ∧
          (∀ place f, fields[place]? = some f ↔ ∃ e ∈ searched.related .indexField .out,
            Describes searched searchedIn.vertex? e place f) ∧
          ∀ key, ∃ found, (searchedAgain.field key searchedIn.vertex?).1 = .ok found ∧
            (found.isSome = true ↔ ∃ e ∈ searched.related .indexField .out, e.other = key) ∧
            ∀ f, found = some f → f ∈ fields ∧ f.key.id = key) ∧
      ∀ fault, (searchedAgain.fieldKeys searchedIn.vertex?).1 = .error fault →
        ∀ key, (searchedAgain.field key searchedIn.vertex?).1 = .error fault := by
  have made : ofVertex searched = .ok ⟨searched, .empty⟩ := rfl
  exact ⟨made, by decide +kernel, fields_in_order searchedIn made searching⟩

end Searched

end GraphIndex

end PropertyGraph
