/-
# Proofs.FieldEdges -- the fields of an index are those that its edges describe

A field edge gives a position, a status and a mapping as parameters, each at most once and of
its own form, and leads to a property key.  `GraphIndex.Describes` says so of an edge, a place
and a field, and every check that is made while the fields are put in their places is one of its
parts (`placeField_eq_ok_iff`).

The fields fit if no place is asked for twice and each is there (`Fits`); as many different
places as there are edges are all the places, so that none stays empty.  So an index has its
fields exactly if its edges are well formed (`exists_fieldsOf_iff`), whatever the order of the
edges is, and each field is the one that the edge of its position describes
(`describes_of_fieldsOf`).
-/
import Mathlib.Data.List.Perm.Subperm
import PropertyGraph.Proofs.Lookups
import PropertyGraph.Schema.GraphIndex

namespace PropertyGraph

set_option autoImplicit false

/-! ## Parameters of an edge -/

namespace FieldParameter

variable {p : FieldParameter} {parameters : List Parameter}

/-- The parameter is not there. -/
def Absent (p : FieldParameter) (parameters : List Parameter) : Prop :=
  ∀ q ∈ parameters, q.key ≠ p.key

/-- The parameter is there once, with a value. -/
def Given (p : FieldParameter) (value : ParameterValue) (parameters : List Parameter) : Prop :=
  parameters.filter (fun q => q.key == p.key) = [⟨p.key, value⟩]

theorem find?_eq_none_iff : p.find? parameters = .ok none ↔ p.Absent parameters := by
  have absent_iff : p.Absent parameters ↔ parameters.filter (fun q => q.key == p.key) = [] := by
    simp [Absent, List.filter_eq_nil_iff]
  rw [absent_iff, find?]
  split <;> simp_all

theorem find?_eq_some_iff {value : ParameterValue} :
    p.find? parameters = .ok (some value) ↔ p.Given value parameters := by
  rw [Given, find?]
  split
  · rename_i nothing
    rw [nothing]
    simp
  · rename_i q alone
    have named : q.key = p.key := by
      have member : q ∈ parameters.filter fun q => q.key == p.key := by simp [alone]
      exact beq_iff_eq.mp (List.mem_filter.mp member).2
    obtain ⟨key, own⟩ := q
    obtain rfl := named
    rw [alone]
    simp
  · rename_i many
    refine ⟨fun never => (by cases never), fun alone => absurd alone (many _)⟩

/-- What the parameter says: its value if it is there, once and of its form, or else what goes
without saying. -/
def Reads {α : Type} (p : FieldParameter) (form : α → ParameterValue) (unsaid : α)
    (parameters : List Parameter) (a : α) : Prop :=
  p.Given (form a) parameters ∨ p.Absent parameters ∧ a = unsaid

theorem bind_find?_eq_ok_iff {α : Type} {form : α → ParameterValue} {unsaid a : α}
    {read : Option ParameterValue → Outcome α} (absent : read none = .ok unsaid)
    (given : ∀ value, read (some value) = .ok a ↔ value = form a) :
    (p.find? parameters >>= read) = .ok a ↔ p.Reads form unsaid parameters a := by
  rw [Reads, ← find?_eq_some_iff, ← find?_eq_none_iff, Outcome.bind_eq_ok_iff]
  constructor
  · rintro ⟨found, known, same⟩
    cases found with
    | none =>
        rw [absent] at same
        exact .inr ⟨known, (Except.ok.inj same).symm⟩
    | some value => exact .inl ((given value).mp same ▸ known)
  · rintro (known | ⟨known, rfl⟩)
    · exact ⟨_, known, (given _).mpr rfl⟩
    · exact ⟨_, known, absent⟩

end FieldParameter

namespace EdgeDescription

variable {d : EdgeDescription}

theorem position_eq_some_iff {position : Int64} : d.position = .ok (some position) ↔
    FieldParameter.position.Given (.int position) d.modifier := by
  rw [← FieldParameter.find?_eq_some_iff, EdgeDescription.position, Outcome.bind_eq_ok_iff]
  constructor
  · rintro ⟨found, known, same⟩
    split at same
    · cases same
    · obtain rfl := Option.some.inj (Except.ok.inj same)
      exact known
    · cases same
  · intro known
    exact ⟨_, known, rfl⟩

theorem fieldStatus_eq_ok_iff {s : Status} : d.fieldStatus = .ok s ↔
    FieldParameter.status.Reads .status .enabled d.modifier s := by
  refine FieldParameter.bind_find?_eq_ok_iff rfl fun value => ?_
  cases value <;> simp [pure, Except.pure]

theorem mapping_eq_ok_iff {m : Mapping} : d.mapping = .ok m ↔
    FieldParameter.mapping.Reads .mapping .standard d.modifier m := by
  refine FieldParameter.bind_find?_eq_ok_iff rfl fun value => ?_
  cases value <;> simp [pure, Except.pure]

end EdgeDescription

namespace GraphIndex

section

variable {index : SchemaVertex} {vertexOf : SchemaId → Option SchemaVertex}

/-- The vertex of a number defines a property key. -/
def LeadsToKey (vertexOf : SchemaId → Option SchemaVertex) (id : SchemaId) (key : RelationType) :
    Prop := ∃ v, vertexOf id = some v ∧ RelationType.ofVertex v = .ok key ∧ key.isKey = true

/-- A position is given once, as an integer, and is this place. -/
def Places (e : SchemaEdge) (place : Nat) : Prop :=
  ∃ position : Int64,
    FieldParameter.position.Given (.int position) e.description.modifier ∧
      position.toInt = place

/-- What a field edge says of its field: the place, the key at the other end, the status, and
in a mixed index how the field is analysed. -/
structure Describes (index : SchemaVertex) (vertexOf : SchemaId → Option SchemaVertex)
    (e : SchemaEdge) (place : Nat) (f : IndexField) : Prop where
  place : Places e place
  key : LeadsToKey vertexOf e.other f.key
  status : FieldParameter.status.Reads .status .enabled e.description.modifier f.status
  analysis : if index.kind = .mixedIndex then
      ∃ m, FieldParameter.mapping.Reads .mapping .standard e.description.modifier m ∧
        f.analysis = some ⟨m, e.description.modifier⟩
    else f.analysis = none

theorem fieldKey_eq_ok_iff {id : SchemaId} {key : RelationType} :
    fieldKey index vertexOf id = .ok key ↔ LeadsToKey vertexOf id key := by
  unfold fieldKey LeadsToKey
  cases vertexOf id with
  | none => simp
  | some v =>
      simp only [Outcome.bind_eq_ok_iff, Option.some.injEq, exists_eq_left']
      constructor
      · rintro ⟨t, made, rest⟩
        split at rest
        · rename_i isKey
          obtain rfl := Except.ok.inj rest
          exact ⟨made, isKey⟩
        · cases rest
      · rintro ⟨made, isKey⟩
        exact ⟨key, made, by rw [if_pos isKey]; rfl⟩

theorem placeOf_eq_ok_iff {count place : Nat} {e : SchemaEdge} :
    (∃ position, placeOf index count e = .ok (position, place)) ↔
      Places e place ∧ place < count := by
  simp only [Places, ← EdgeDescription.position_eq_some_iff, placeOf, Outcome.bind_eq_ok_iff]
  constructor
  · rintro ⟨position, recorded, known, asked⟩
    cases recorded with
    | none => cases asked
    | some own =>
        simp only at asked
        split at asked
        · obtain ⟨rfl, rfl⟩ := Prod.mk.inj (Except.ok.inj asked)
          exact ⟨⟨own, known, by omega⟩, by omega⟩
        · cases asked
  · rintro ⟨⟨position, known, same⟩, inside⟩
    refine ⟨position, some position, known, ?_⟩
    simp only [same]
    rw [if_pos (by omega)]
    rfl

theorem analysisOf_eq_ok_iff {e : SchemaEdge} {a : Option FieldAnalysis} :
    analysisOf index e = .ok a ↔ if index.kind = .mixedIndex then
        ∃ m, FieldParameter.mapping.Reads .mapping .standard e.description.modifier m ∧
          a = some ⟨m, e.description.modifier⟩
      else a = none := by
  simp only [← EdgeDescription.mapping_eq_ok_iff, analysisOf]
  split
  · rw [Outcome.bind_eq_ok_iff]
    exact exists_congr fun m => and_congr_right fun _ =>
      ⟨fun same => (Except.ok.inj same).symm, fun same => congrArg Except.ok same.symm⟩
  · exact ⟨fun same => (Except.ok.inj same).symm, fun same => congrArg Except.ok same.symm⟩

/-- The field of an edge is put where the edge says, if that place is there and free. -/
theorem placeField_eq_ok_iff {places after : List (Option IndexField)} {e : SchemaEdge} :
    placeField index vertexOf places e = .ok after ↔
      ∃ place f, Describes index vertexOf e place f ∧ place < places.length ∧
        places[place]?.join = none ∧ after = places.set place (some f) := by
  simp only [placeField, Outcome.bind_eq_ok_iff, Prod.exists]
  constructor
  · rintro ⟨position, place, asked, done⟩
    obtain ⟨stands, inside⟩ := placeOf_eq_ok_iff.mp ⟨position, asked⟩
    split at done
    · cases done
    · rename_i free
      simp only [Outcome.bind_eq_ok_iff] at done
      obtain ⟨key, leads, status, known, analysis, analysed, same⟩ := done
      refine ⟨place, ⟨key, status, analysis⟩, ⟨stands, fieldKey_eq_ok_iff.mp leads,
        EdgeDescription.fieldStatus_eq_ok_iff.mp known, analysisOf_eq_ok_iff.mp analysed⟩,
        inside, by simpa using free, (Except.ok.inj same).symm⟩
  · rintro ⟨place, f, describes, inside, free, rfl⟩
    obtain ⟨position, asked⟩ := placeOf_eq_ok_iff.mpr ⟨describes.place, inside⟩
    refine ⟨position, place, asked, ?_⟩
    rw [if_neg (by simp [free])]
    simp only [Outcome.bind_eq_ok_iff]
    exact ⟨f.key, fieldKey_eq_ok_iff.mpr describes.key, f.status,
      EdgeDescription.fieldStatus_eq_ok_iff.mpr describes.status, f.analysis,
      analysisOf_eq_ok_iff.mpr describes.analysis, rfl⟩

/-- Puts fields in their places. -/
def placed (asks : List (Nat × IndexField)) (places : List (Option IndexField)) :
    List (Option IndexField) :=
  asks.foldl (fun places ask => places.set ask.1 (some ask.2)) places

theorem length_placed (asks : List (Nat × IndexField)) (places : List (Option IndexField)) :
    (placed asks places).length = places.length := by
  induction asks generalizing places with
  | nil => rfl
  | cons ask rest ih => exact (ih _).trans List.length_set

/-- The places that fields may be put in: different ones that are there and free. -/
structure Fits (asks : List (Nat × IndexField)) (places : List (Option IndexField)) : Prop where
  apart : (asks.map Prod.fst).Nodup
  inside : ∀ ask ∈ asks, ask.1 < places.length
  free : ∀ ask ∈ asks, places[ask.1]?.join = none

theorem fits_cons_iff {ask : Nat × IndexField} {asks : List (Nat × IndexField)}
    {places : List (Option IndexField)} :
    Fits (ask :: asks) places ↔ ask.1 < places.length ∧ places[ask.1]?.join = none ∧
      Fits asks (places.set ask.1 (some ask.2)) := by
  constructor
  · rintro ⟨apart, inside, free⟩
    obtain ⟨new, apart⟩ := List.nodup_cons.mp apart
    obtain ⟨here, inside⟩ := List.forall_mem_cons.mp inside
    obtain ⟨open_, free⟩ := List.forall_mem_cons.mp free
    refine ⟨here, open_, apart, fun other member => ?_, fun other member => ?_⟩
    · rw [List.length_set]
      exact inside other member
    · have away : ask.1 ≠ other.1 := fun same =>
        new (same ▸ List.mem_map_of_mem member)
      rw [List.getElem?_set_ne away]
      exact free other member
  · rintro ⟨here, open_, apart, inside, free⟩
    have away : ∀ other ∈ asks, ask.1 ≠ other.1 := by
      intro other member same
      have filled := free other member
      rw [← same, List.getElem?_set_self here] at filled
      cases filled
    refine ⟨List.nodup_cons.mpr ⟨fun again => ?_, apart⟩,
      List.forall_mem_cons.mpr ⟨here, fun other member => ?_⟩,
      List.forall_mem_cons.mpr ⟨open_, fun other member => ?_⟩⟩
    · obtain ⟨other, member, same⟩ := List.mem_map.mp again
      exact away other member same.symm
    · exact List.length_set ▸ inside other member
    · exact List.getElem?_set_ne (away other member) ▸ free other member

/-- Edge by edge, the fields are put in different places. -/
theorem foldlM_placeField_eq_ok_iff {edges : List SchemaEdge}
    {places after : List (Option IndexField)} :
    edges.foldlM (placeField index vertexOf) places = .ok after ↔
      ∃ asks, List.Forall₂ (fun e (ask : Nat × IndexField) =>
          Describes index vertexOf e ask.1 ask.2) edges asks ∧
        Fits asks places ∧ after = placed asks places := by
  induction edges generalizing places with
  | nil =>
      simp only [List.foldlM_nil, List.forall₂_nil_left_iff, exists_eq_left]
      constructor
      · intro same
        exact ⟨⟨List.nodup_nil, fun _ never => (by cases never), fun _ never => by cases never⟩,
          (Except.ok.inj same).symm⟩
      · rintro ⟨-, rfl⟩
        rfl
  | cons e rest ih =>
      rw [List.foldlM_cons, Outcome.bind_eq_ok_iff]
      constructor
      · rintro ⟨between, first, later⟩
        obtain ⟨place, f, describes, inside, free, rfl⟩ := placeField_eq_ok_iff.mp first
        obtain ⟨asks, each, fits, rfl⟩ := ih.mp later
        exact ⟨(place, f) :: asks, .cons describes each, fits_cons_iff.mpr ⟨inside, free, fits⟩,
          rfl⟩
      · rintro ⟨asks, each, fits, rfl⟩
        obtain ⟨⟨place, f⟩, others, describes, later, rfl⟩ := List.forall₂_cons_left_iff.mp each
        obtain ⟨inside, free, fits⟩ := fits_cons_iff.mp fits
        exact ⟨places.set place (some f),
          placeField_eq_ok_iff.mpr ⟨place, f, describes, inside, free, rfl⟩,
          ih.mpr ⟨others, later, fits, rfl⟩⟩

/-- A place holds the field that was put there, or what it held before. -/
theorem getElem?_placed {asks : List (Nat × IndexField)} {places : List (Option IndexField)}
    (fits : Fits asks places) {place : Nat} {f : IndexField} :
    (placed asks places)[place]?.join = some f ↔
      (place, f) ∈ asks ∨ places[place]?.join = some f := by
  induction asks generalizing places with
  | nil => simp [placed]
  | cons ask rest ih =>
      obtain ⟨inside, free, fits⟩ := fits_cons_iff.mp fits
      have step : placed (ask :: rest) places = placed rest (places.set ask.1 (some ask.2)) := rfl
      rw [step, ih fits, List.mem_cons, or_assoc, or_left_comm]
      refine or_congr_right ?_
      by_cases here : ask.1 = place
      · subst here
        rw [List.getElem?_set_self inside, free]
        simp [Prod.ext_iff, eq_comm]
      · rw [List.getElem?_set_ne here]
        have other : (place, f) ≠ ask := fun same => here (congrArg Prod.fst same).symm
        simp [other]

/-- All places are taken if they hold these fields. -/
theorem takenPlaces_eq_ok_iff {place : Nat} {places : List (Option IndexField)}
    {fields : List IndexField} :
    takenPlaces index place places = .ok fields ↔ places = fields.map some := by
  induction places generalizing place fields with
  | nil => cases fields <;> simp [takenPlaces]
  | cons slot rest ih =>
      cases slot with
      | none => cases fields <;> simp [takenPlaces]
      | some f =>
          simp only [takenPlaces, Outcome.bind_eq_ok_iff, ih]
          constructor
          · rintro ⟨others, rfl, same⟩
            obtain rfl := Except.ok.inj same
            rfl
          · intro same
            cases fields with
            | nil => cases same
            | cons g others =>
                obtain ⟨here, later⟩ := List.cons.inj same
                obtain rfl := Option.some.inj here
                exact ⟨others, later, rfl⟩

/-! ## The fields in order -/

/-- The fields of an index are those of its edges, put in as many empty places. -/
theorem fieldsOf_eq_ok_iff {fields : List IndexField} :
    fieldsOf index vertexOf = .ok fields ↔
      ∃ asks, List.Forall₂ (fun e (ask : Nat × IndexField) =>
          Describes index vertexOf e ask.1 ask.2) (index.related .indexField .out) asks ∧
        Fits asks (List.replicate (index.related .indexField .out).length none) ∧
        placed asks (List.replicate (index.related .indexField .out).length none) =
          fields.map some := by
  simp only [fieldsOf, Outcome.bind_eq_ok_iff, foldlM_placeField_eq_ok_iff, takenPlaces_eq_ok_iff]
  constructor
  · rintro ⟨_, ⟨asks, each, fits, rfl⟩, taken⟩
    exact ⟨asks, each, fits, taken⟩
  · rintro ⟨asks, each, fits, taken⟩
    exact ⟨_, ⟨asks, each, fits, rfl⟩, taken⟩

section Places

variable {asks : List (Nat × IndexField)} {count : Nat}

/-- As many fields as there are places fit if each place is asked for once. -/
theorem fits_replicate_iff (many : asks.length = count) :
    Fits asks (List.replicate count none) ↔ (asks.map Prod.fst).Perm (List.range count) := by
  constructor
  · rintro ⟨apart, inside, -⟩
    have among : asks.map Prod.fst ⊆ List.range count := by
      intro place member
      obtain ⟨ask, asked, rfl⟩ := List.mem_map.mp member
      simpa using inside ask asked
    refine (List.subperm_of_subset apart among).perm_of_length_le (Nat.le_of_eq ?_)
    rw [List.length_range, List.length_map, many]
  · intro perm
    refine ⟨perm.nodup_iff.mpr List.nodup_range, fun ask member => ?_, fun ask _ => ?_⟩
    · rw [List.length_replicate]
      exact List.mem_range.mp (perm.subset (List.mem_map_of_mem member))
    · rw [List.getElem?_replicate]
      split <;> rfl

theorem getElem?_replicate_none (count place : Nat) :
    (List.replicate count (none : Option IndexField))[place]?.join = none := by
  rw [List.getElem?_replicate]
  split <;> rfl

/-- Where each place is asked for once, each is taken. -/
theorem exists_fields (perm : (asks.map Prod.fst).Perm (List.range count)) :
    ∃ fields : List IndexField,
      placed asks (List.replicate count none) = fields.map some := by
  have many : asks.length = count := by simpa using perm.length_eq
  have fits := (fits_replicate_iff many).mpr perm
  -- A place below the count is one that was asked for.
  have taken : ∀ slot ∈ placed asks (List.replicate count none), slot.isSome = true := by
    intro slot member
    obtain ⟨place, inside, rfl⟩ := List.mem_iff_getElem.mp member
    have below : place < count := by simpa [length_placed] using inside
    obtain ⟨⟨_, f⟩, asked, rfl⟩ :=
      List.mem_map.mp (perm.symm.subset (List.mem_range.mpr below))
    have here := (getElem?_placed fits).mpr (.inl asked)
    rw [List.getElem?_eq_getElem inside] at here
    exact Option.isSome_iff_exists.mpr ⟨f, here⟩
  refine ⟨List.pmap Option.get _ taken, ?_⟩
  simp [List.map_pmap]

/-- The fields stand in the places that were asked for. -/
theorem getElem?_fields {fields : List IndexField} (fits : Fits asks (List.replicate count none))
    (taken : placed asks (List.replicate count none) = fields.map some) :
    fields.length = count ∧ ∀ place f, fields[place]? = some f ↔ (place, f) ∈ asks := by
  constructor
  · have lengths := congrArg List.length taken
    simpa [length_placed] using lengths.symm
  · intro place f
    have here : _ = some f ↔ (place, f) ∈ asks ∨ _ := getElem?_placed fits
    rw [getElem?_replicate_none, taken, List.getElem?_map] at here
    rw [← or_false ((place, f) ∈ asks)]
    cases there : fields[place]? with
    | none => simpa [there] using here
    | some g => simpa [there] using here

end Places

/-- The field edges of an index are well formed: each gives its position once, as an integer,
and these are the numbers below that of the edges; each leads to a property key; and no status
is given twice or otherwise than as one, nor, in a mixed index, a mapping. -/
structure WellFormed (index : SchemaVertex) (vertexOf : SchemaId → Option SchemaVertex) :
    Prop where
  places : ∃ places, List.Forall₂ Places (index.related .indexField .out) places ∧
    places.Perm (List.range (index.related .indexField .out).length)
  keys : ∀ e ∈ index.related .indexField .out, ∃ key, LeadsToKey vertexOf e.other key
  statuses : ∀ e ∈ index.related .indexField .out,
    ∃ s, FieldParameter.status.Reads .status .enabled e.description.modifier s
  mappings : index.kind = .mixedIndex → ∀ e ∈ index.related .indexField .out,
    ∃ m, FieldParameter.mapping.Reads .mapping .standard e.description.modifier m

/-- An edge describes one field in one place at most. -/
theorem Describes.unique {e : SchemaEdge} {place place' : Nat} {f f' : IndexField}
    (one : Describes index vertexOf e place f) (other : Describes index vertexOf e place' f') :
    place = place' ∧ f = f' := by
  have key : fieldKey index vertexOf e.other = .ok f.key := fieldKey_eq_ok_iff.mpr one.key
  have status := EdgeDescription.fieldStatus_eq_ok_iff.mpr one.status
  have analysis := analysisOf_eq_ok_iff.mpr one.analysis
  rw [fieldKey_eq_ok_iff.mpr other.key] at key
  rw [EdgeDescription.fieldStatus_eq_ok_iff.mpr other.status] at status
  rw [analysisOf_eq_ok_iff.mpr other.analysis] at analysis
  obtain ⟨position, given, same⟩ := one.place
  obtain ⟨position', given', same'⟩ := other.place
  rw [← EdgeDescription.position_eq_some_iff] at given given'
  rw [given'] at given
  obtain rfl := Option.some.inj (Except.ok.inj given)
  obtain ⟨k, s, a⟩ := f
  obtain ⟨k', s', a'⟩ := f'
  obtain rfl : k' = k := Except.ok.inj key
  obtain rfl : s' = s := Except.ok.inj status
  obtain rfl : a' = a := Except.ok.inj analysis
  exact ⟨by omega, rfl⟩

theorem WellFormed.describes (formed : WellFormed index vertexOf) {e : SchemaEdge}
    (member : e ∈ index.related .indexField .out) {place : Nat} (stands : Places e place) :
    ∃ f, Describes index vertexOf e place f := by
  obtain ⟨key, leads⟩ := formed.keys e member
  obtain ⟨status, known⟩ := formed.statuses e member
  by_cases mixed : index.kind = .mixedIndex
  · obtain ⟨m, mapped⟩ := formed.mappings mixed e member
    exact ⟨⟨key, status, some ⟨m, e.description.modifier⟩⟩, stands, leads, known,
      by rw [if_pos mixed]; exact ⟨m, mapped, rfl⟩⟩
  · exact ⟨⟨key, status, none⟩, stands, leads, known, by rw [if_neg mixed]⟩

theorem wellFormed_iff : WellFormed index vertexOf ↔
    ∃ asks, List.Forall₂ (fun e (ask : Nat × IndexField) =>
        Describes index vertexOf e ask.1 ask.2) (index.related .indexField .out) asks ∧
      (asks.map Prod.fst).Perm (List.range (index.related .indexField .out).length) := by
  constructor
  · intro formed
    obtain ⟨places, each, perm⟩ := formed.places
    have described : ∀ {edges places}, edges ⊆ index.related .indexField .out →
        List.Forall₂ Places edges places → ∃ asks, List.Forall₂ (fun e (ask : Nat × IndexField) =>
          Describes index vertexOf e ask.1 ask.2) edges asks ∧ asks.map Prod.fst = places := by
      intro edges places among each
      induction each with
      | nil => exact ⟨[], .nil, rfl⟩
      | @cons e place edges places stands _ ih =>
          obtain ⟨member, others⟩ := List.cons_subset.mp among
          obtain ⟨f, describes⟩ := formed.describes member stands
          obtain ⟨asks, later, rfl⟩ := ih others
          exact ⟨(place, f) :: asks, .cons describes later, rfl⟩
    obtain ⟨asks, describes, rfl⟩ := described (List.Subset.refl _) each
    exact ⟨asks, describes, perm⟩
  · rintro ⟨asks, each, perm⟩
    have described := fun e member => exists_right_of_forall₂ each (a := e) member
    refine ⟨⟨asks.map Prod.fst, ?_, perm⟩, fun e member => ?_, fun e member => ?_,
      fun mixed e member => ?_⟩
    · exact List.forall₂_map_right_iff.mpr (each.imp fun _ _ describes => describes.place)
    · obtain ⟨ask, -, describes⟩ := described e member
      exact ⟨_, describes.key⟩
    · obtain ⟨ask, -, describes⟩ := described e member
      exact ⟨_, describes.status⟩
    · obtain ⟨ask, -, describes⟩ := described e member
      have analysis := describes.analysis
      rw [if_pos mixed] at analysis
      obtain ⟨m, mapped, -⟩ := analysis
      exact ⟨m, mapped⟩

/-- An index has its fields exactly if its edges are well formed. -/
theorem exists_fieldsOf_iff :
    (∃ fields, fieldsOf index vertexOf = .ok fields) ↔ WellFormed index vertexOf := by
  rw [wellFormed_iff]
  constructor
  · rintro ⟨fields, derived⟩
    obtain ⟨asks, each, fits, -⟩ := fieldsOf_eq_ok_iff.mp derived
    exact ⟨asks, each, (fits_replicate_iff each.length_eq.symm).mp fits⟩
  · rintro ⟨asks, each, perm⟩
    obtain ⟨fields, taken⟩ := exists_fields perm
    exact ⟨fields, fieldsOf_eq_ok_iff.mpr
      ⟨asks, each, (fits_replicate_iff each.length_eq.symm).mpr perm, taken⟩⟩

/-- Each field is what the edge of its position describes. -/
theorem describes_of_fieldsOf {fields : List IndexField}
    (derived : fieldsOf index vertexOf = .ok fields) :
    fields.length = (index.related .indexField .out).length ∧
      ∀ place f, fields[place]? = some f ↔
        ∃ e ∈ index.related .indexField .out, Describes index vertexOf e place f := by
  obtain ⟨asks, each, fits, taken⟩ := fieldsOf_eq_ok_iff.mp derived
  obtain ⟨count, fieldAt⟩ := getElem?_fields fits taken
  refine ⟨count, fun place f => (fieldAt place f).trans ⟨fun asked => ?_, ?_⟩⟩
  · exact exists_left_of_forall₂ each asked
  · rintro ⟨e, member, describes⟩
    obtain ⟨⟨place', f'⟩, asked, describes'⟩ := exists_right_of_forall₂ each member
    obtain ⟨rfl, rfl⟩ := describes.unique describes'
    exact asked

theorem exists_describes_of_fieldsOf {fields : List IndexField}
    (derived : fieldsOf index vertexOf = .ok fields) {e : SchemaEdge}
    (member : e ∈ index.related .indexField .out) :
    ∃ place f, Describes index vertexOf e place f := by
  obtain ⟨asks, each, -⟩ := fieldsOf_eq_ok_iff.mp derived
  obtain ⟨⟨place, f⟩, -, describes⟩ := exists_right_of_forall₂ each member
  exact ⟨place, f, describes⟩

end

end GraphIndex

end PropertyGraph
