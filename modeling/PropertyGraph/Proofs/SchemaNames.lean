/-
# Proofs.SchemaNames -- names and numbers are in bijection, and a refused change changes nothing

A name leads to the number of the one vertex that has it.  That holds of a registry that was
opened (`Opened`), and no run of changes and questions loses it, since the vertices stay in
order and no two share a name (`orderly_follow`).

A registry holds the vertices alone.  A program that keeps a second map, from the names to the
numbers, goes through a change step by step: it refuses a name that is taken, gives up the name
of the vertex before, takes the new name and puts the vertex in its place.  `Maps` are these
maps, and `Change` the steps, of which a refused one leaves what those before it did.  Step by
step they come to the maps of the registry after the change (`on_define`, `on_connect`); a step
that may be refused only comes before all that alter something, so a refused change leaves the
maps as they were.
-/
import PropertyGraph.Proofs.SchemaTables
import PropertyGraph.Proofs.SteadyIndexes
import PropertyGraph.Schema.Stored

namespace PropertyGraph

set_option autoImplicit false

open Schema
open SchemaTable (Orderly)

namespace Registry

/-! ## Registries that a client may have -/

/-- A registry as a client gets it: without any vertices, or loaded from a store. -/
inductive Opened : Registry → Prop
  | empty : Opened .empty
  | loaded [RowCodec] {s after : Storage} {cache : Nat} {t : Transaction} {r : Registry}
      (done : StoredSchema.load s cache t = (.ok r, after)) : Opened r

/-- Nothing was derived yet, and the vertices are in order. -/
structure Unused (r : Registry) : Prop where
  orderly : Orderly r.vertices
  types : r.types = []
  indexes : r.indexes = []
  objects : r.objects = []

theorem unused_empty : Unused .empty :=
  ⟨⟨.nil, fun _ never => (by cases never)⟩, rfl, rfl, rfl⟩

theorem Unused.insert {r after : Registry} (unused : Unused r) {v : SchemaVertex}
    (done : r.insert v = .ok after) : Unused after := by
  have orderly := orderly_insert unused.orderly done
  obtain rfl := insert_eq done
  exact ⟨orderly, unused.types, unused.indexes, unused.objects⟩

theorem Unused.foldlM {r after : Registry} (unused : Unused r) {vertices : List SchemaVertex}
    (done : vertices.foldlM Registry.insert r = .ok after) : Unused after := by
  induction vertices generalizing r with
  | nil => exact Except.ok.inj done ▸ unused
  | cons v rest ih =>
      rw [List.foldlM_cons, Outcome.bind_eq_ok_iff] at done
      obtain ⟨between, first, later⟩ := done
      exact ih (unused.insert first) later

/-- Its vertices were put into an empty registry one after the other. -/
theorem Opened.stored {r : Registry} (opened : Opened r) :
    ∃ stored : List SchemaVertex, stored.foldlM Registry.insert Registry.empty = .ok r := by
  cases opened with
  | empty => exact ⟨[], rfl⟩
  | @loaded _ s _ cache t _ done =>
      unfold StoredSchema.load at done
      rcases read : StoredSchema.readAll s cache t with ⟨_ | vertices, s'⟩
      · rw [read] at done
        cases (Prod.mk.inj done).1
      · rw [read] at done
        exact ⟨vertices, (Prod.mk.inj done).1⟩

theorem Opened.unused {r : Registry} (opened : Opened r) : Unused r := by
  obtain ⟨stored, done⟩ := opened.stored
  exact unused_empty.foldlM done

theorem Unused.tracked {r : Registry} (unused : Unused r) : Tracked r := by
  intro kept member
  rw [unused.indexes] at member
  cases member

/-- Only a change that is made changes the vertices, and then these are in order again. -/
theorem orderly_step {r : Registry} (tracked : Tracked r) (orderly : Orderly r.vertices)
    (e : Event) : Orderly (r.step e).vertices := by
  let condition : Registry → Prop := fun s => Orderly s.vertices
  cases e with
  | define v => exact @of_change condition _ _ orderly fun _ => orderly_define orderly
  | connect first last d => exact @of_change condition _ _ orderly fun _ => orderly_connect orderly
  | invalidate id => exact orderly
  | resetCaches => exact orderly
  | ask q => exact (steady_asked tracked q).vertices ▸ orderly
  | askHeld place q => exact (steady_askIndex tracked place q).vertices ▸ orderly
  | resetHeld place => exact orderly

theorem orderly_follow {r : Registry} (tracked : Tracked r) (orderly : Orderly r.vertices)
    (events : List Event) : Orderly (r.follow events).vertices := by
  induction events generalizing r with
  | nil => exact orderly
  | cons e rest ih => exact ih (tracked_step tracked e) (orderly_step tracked orderly e)

/-- A registry that a client has after whatever was done with the one that was opened. -/
def Reached (r : Registry) : Prop :=
  ∃ start events, Opened start ∧ start.follow events = r

theorem Reached.tracked {r : Registry} (reached : Reached r) : Tracked r := by
  obtain ⟨start, events, opened, rfl⟩ := reached
  exact tracked_follow opened.unused.tracked events

theorem Reached.follow {r : Registry} (reached : Reached r) (later : List Event) :
    Reached (r.follow later) := by
  obtain ⟨start, events, opened, rfl⟩ := reached
  exact ⟨start, events ++ later, opened, List.foldl_append⟩

theorem Reached.orderly {r : Registry} (reached : Reached r) : Orderly r.vertices := by
  obtain ⟨start, events, opened, rfl⟩ := reached
  exact orderly_follow opened.unused.tracked opened.unused.orderly events

/-! ## Names and numbers -/

/-- In vertices that are in order, a name leads to the vertex that has it. -/
theorem named?_eq_some_iff {r : Registry} (orderly : Orderly r.vertices) {name : String}
    {v : SchemaVertex} : r.named? name = some v ↔ v ∈ r.vertices ∧ v.name = name := by
  constructor
  · exact named?_spec
  · rintro ⟨member, rfl⟩
    cases found : r.named? v.name with
    | none => simpa using List.find?_eq_none.mp found v member
    | some w =>
        obtain ⟨there, same⟩ := named?_spec found
        rw [orderly.named w there v member same]

theorem vertex?_eq_some_iff {r : Registry} (orderly : Orderly r.vertices) {id : SchemaId}
    {v : SchemaVertex} : r.vertex? id = some v ↔ v ∈ r.vertices ∧ v.id = id :=
  orderly.ascending.find?_eq_some_iff

theorem idOf_eq_some_iff {r : Registry} (orderly : Orderly r.vertices) {name : String}
    {id : SchemaId} :
    r.idOf name = some id ↔ ∃ v, r.vertex? id = some v ∧ v.name = name := by
  simp only [idOf, Option.map_eq_some_iff, named?_eq_some_iff orderly,
    vertex?_eq_some_iff orderly]
  constructor
  · rintro ⟨v, ⟨member, name⟩, number⟩
    exact ⟨v, ⟨member, number⟩, name⟩
  · rintro ⟨v, ⟨member, number⟩, name⟩
    exact ⟨v, ⟨member, name⟩, number⟩

/-! ## The maps of a registry, step by step -/

/-- What a change of the schema goes through, one map after the other: the vertices by their
numbers, the numbers by their names, and what was derived. -/
structure Maps where
  vertices : List SchemaVertex
  numbers : List (String × SchemaId)
  types : List (SchemaId × TypeObject)
  indexes : List (SchemaId × Nat)

/-- Steps through the maps.  A step that is refused leaves what those before it did. -/
abbrev Change (α : Type) := ExceptT Fault (StateM Maps) α

namespace Maps

def vertex? (m : Maps) (id : SchemaId) : Option SchemaVertex :=
  Sorted.find? SchemaVertex.id id m.vertices

def numberOf (m : Maps) (name : String) : Option SchemaId :=
  (Sorted.find? Prod.fst name m.numbers).map Prod.snd

/-- Refuses a name that another vertex has. -/
def claim (v : SchemaVertex) : Change Unit := do
  match (← get).numberOf v.name with
  | some owner =>
      if owner = v.id then return () else throw (.invalid (.schemaNameTaken v.name owner))
  | none => return ()

/-- Gives up the name of the vertex of a number, if there is one. -/
def release (id : SchemaId) : Change Unit := do
  match (← get).vertex? id with
  | some previous =>
      modify fun m => { m with numbers := Sorted.erase Prod.fst previous.name m.numbers }
  | none => return ()

/-- Puts a vertex in its place, and its number under its name. -/
def insert (v : SchemaVertex) : Change Unit := do
  claim v
  release v.id
  modify fun m => { m with numbers := Sorted.insert Prod.fst (v.name, v.id) m.numbers }
  modify fun m => { m with vertices := Sorted.insert SchemaVertex.id v m.vertices }

/-- Changes the vertex of a number. -/
def update (id : SchemaId) (f : SchemaVertex → SchemaVertex) : Change Unit := do
  match (← get).vertex? id with
  | some v => modify fun m => { m with vertices := Sorted.insert SchemaVertex.id (f v) m.vertices }
  | none => throw (.notFound .schemaVertex)

/-- Forgets what was derived from a vertex. -/
def invalidate (id : SchemaId) : Change Unit :=
  modify fun m => { m with
    indexes := m.indexes.filter fun kept => kept.1 != id
    types := m.types.filter fun kept => kept.1 != id && kept.2.type.base != some id }

def define (v : SchemaVertex) : Change Unit := do
  insert v
  invalidate v.id

/-- Refuses a number that no vertex has. -/
def present (id : SchemaId) : Change Unit := do
  match (← get).vertex? id with
  | some _ => return ()
  | none => throw (.notFound .schemaVertex)

def connect (first last : SchemaId) (d : EdgeDescription) : Change Unit := do
  present last
  update first fun v => v.addEdge ⟨last, .out, d⟩
  update last fun v => v.addEdge ⟨first, .into, d⟩
  invalidate first
  invalidate last

end Maps

namespace Change

variable {α β : Type}

/-- The outcome of a change, and the maps that it leaves. -/
def on (change : Change α) (m : Maps) : Outcome α × Maps := change.run.run m

theorem on_bind (change : Change α) (next : α → Change β) (m : Maps) :
    on (change >>= next) m =
      match on change m with
      | (.ok a, after) => on (next a) after
      | (.error fault, after) => (.error fault, after) := by
  rcases done : on change m with ⟨answer, after⟩
  have step : on (change >>= next) m =
      match on change m with
      | (answer, after) => on (ExceptT.bindCont next answer : StateM Maps _) after := rfl
  rw [step, done]
  cases answer <;> rfl

theorem on_get (m : Maps) : on get m = (.ok m, m) := rfl

theorem on_modify (f : Maps → Maps) (m : Maps) : on (modify f) m = (.ok (), f m) := rfl

end Change

/-- The numbers of vertices by their names. -/
def numbersOf (vertices : List SchemaVertex) : List (String × SchemaId) :=
  Sorted.ofList Prod.fst (vertices.map fun v => (v.name, v.id))

/-- The maps of a registry. -/
def maps (r : Registry) : Maps := ⟨r.vertices, numbersOf r.vertices, r.types, r.indexes⟩

theorem ascending_numbersOf (vertices : List SchemaVertex) :
    Sorted.Ascending Prod.fst (numbersOf vertices) := Sorted.ascending_ofList _ _

theorem find?_numbersOf {vertices : List SchemaVertex} (orderly : Orderly vertices)
    {name : String} {e : String × SchemaId} :
    Sorted.find? Prod.fst name (numbersOf vertices) = some e ↔
      e.1 = name ∧ ∃ v, vertexOf vertices e.2 = some v ∧ v.name = name := by
  constructor
  · intro found
    obtain ⟨member, same⟩ := Sorted.mem_of_find? found
    obtain rfl := Std.LawfulEqOrd.eq_of_compare same
    obtain ⟨v, there, rfl⟩ := List.mem_map.mp (Sorted.mem_of_mem_ofList member)
    exact ⟨rfl, v, Sorted.find?_of_mem orderly.ascending there Std.ReflOrd.compare_self, rfl⟩
  · obtain ⟨own, id⟩ := e
    rintro ⟨rfl, v, found, name⟩
    obtain ⟨there, rfl⟩ := vertexOf_spec found
    have member : (own, v.id) ∈ vertices.map fun v => (v.name, v.id) :=
      List.mem_map.mpr ⟨v, there, by rw [name]⟩
    refine Sorted.find?_of_mem (ascending_numbersOf vertices)
      (Sorted.mem_ofList_of_alone member ?_) Std.ReflOrd.compare_self
    rintro _ member' same
    obtain ⟨w, there', rfl⟩ := List.mem_map.mp member'
    rw [orderly.named w there' v there (same.trans name.symm), name]

/-- The number of a name in the maps is that of the vertex that has the name. -/
theorem numberOf_maps {r : Registry} (orderly : Orderly r.vertices) (name : String) :
    r.maps.numberOf name = r.idOf name := by
  refine Option.ext fun id => ?_
  rw [idOf_eq_some_iff orderly, Maps.numberOf, Option.map_eq_some_iff]
  constructor
  · rintro ⟨e, found, rfl⟩
    exact ((find?_numbersOf orderly).mp found).2
  · rintro ⟨v, found, same⟩
    exact ⟨(name, id), (find?_numbersOf orderly).mpr ⟨rfl, v, found, same⟩, rfl⟩

/-- The names without that of the vertex of a number. -/
def namesWithout (vertices : List SchemaVertex) (id : SchemaId) : List (String × SchemaId) :=
  match vertexOf vertices id with
  | some previous => Sorted.erase Prod.fst previous.name (numbersOf vertices)
  | none => numbersOf vertices

theorem find?_namesWithout {vertices : List SchemaVertex} (orderly : Orderly vertices)
    {id : SchemaId} {name : String} {e : String × SchemaId} :
    Sorted.find? Prod.fst name (namesWithout vertices id) = some e ↔
      e.1 = name ∧ e.2 ≠ id ∧ ∃ v, vertexOf vertices e.2 = some v ∧ v.name = name := by
  unfold namesWithout
  cases found : vertexOf vertices id with
  | none =>
      simp only [find?_numbersOf orderly]
      refine and_congr_right fun _ => ⟨?_, And.right⟩
      rintro ⟨v, there, same⟩
      exact ⟨fun here => by simp [here, found] at there, v, there, same⟩
  | some previous =>
      simp only
      simp only [Sorted.find?_erase (ascending_numbersOf vertices),
        Std.LawfulEqOrd.compare_eq_iff_eq]
      split
      · rename_i taken
        simp only [reduceCtorEq, false_iff, not_and, not_exists]
        rintro - other v there same
        obtain ⟨member, number⟩ := vertexOf_spec there
        obtain ⟨member', number'⟩ := vertexOf_spec found
        obtain rfl := orderly.named v member previous member' (same.trans taken)
        exact other (number.symm.trans number')
      · rename_i free
        simp only [find?_numbersOf orderly]
        refine and_congr_right fun _ => ⟨?_, And.right⟩
        rintro ⟨v, there, same⟩
        refine ⟨fun here => free ?_, v, there, same⟩
        rw [here, found] at there
        rw [← same, Option.some.inj there]

/-- A vertex that is put in its place gives up the name of the one before and takes its own. -/
theorem numbersOf_insert {vertices : List SchemaVertex} {v : SchemaVertex}
    (orderly : Orderly vertices)
    (orderly' : Orderly (Sorted.insert SchemaVertex.id v vertices)) :
    numbersOf (Sorted.insert SchemaVertex.id v vertices) =
      Sorted.insert Prod.fst (v.name, v.id) (namesWithout vertices v.id) := by
  have ascending : Sorted.Ascending Prod.fst (namesWithout vertices v.id) := by
    unfold namesWithout
    split
    · exact (ascending_numbersOf vertices).erase _
    · exact ascending_numbersOf vertices
  refine Sorted.eq_of_find? (ascending_numbersOf _) (ascending.insert _) fun name => ?_
  simp only [Sorted.find?_insert, Std.LawfulEqOrd.compare_eq_iff_eq]
  split
  · rename_i own
    exact (find?_numbersOf orderly').mpr ⟨own.symm, v, by simp [vertexOf_insert], own.symm⟩
  · rename_i other
    -- Another name: its vertex is not the one that was replaced, on both sides.
    refine Option.ext fun e => ?_
    rw [find?_numbersOf orderly', find?_namesWithout orderly, vertexOf_insert]
    refine and_congr_right fun _ => ?_
    by_cases same : e.2 = v.id
    · simp only [same, if_true, ne_eq, not_true_eq_false, false_and, iff_false, not_exists,
        Option.some.injEq]
      rintro _ ⟨rfl, named⟩
      exact other named.symm
    · simp [same]

/-! ## The steps of a change -/

section Steps

variable {r : Registry}

theorem on_claim (orderly : Orderly r.vertices) (v : SchemaVertex) :
    (Maps.claim v).on r.maps = (match r.insert v with
      | .ok _ => (.ok (), r.maps)
      | .error fault => (.error fault, r.maps)) := by
  rw [Maps.claim, Change.on_bind, Change.on_get, Registry.insert]
  simp only [numberOf_maps orderly]
  cases r.idOf v.name with
  | none => rfl
  | some owner =>
      simp only
      split <;> rfl

theorem on_release (id : SchemaId) :
    (Maps.release id).on r.maps =
      (.ok (), { r.maps with numbers := namesWithout r.vertices id }) := by
  rw [Maps.release, Change.on_bind, Change.on_get]
  have same : r.maps.vertex? id = vertexOf r.vertices id := rfl
  simp only [same, namesWithout]
  cases vertexOf r.vertices id <;> rfl

/-- The steps of putting a vertex in its place come to what the registry does. -/
theorem on_insert (orderly : Orderly r.vertices) (v : SchemaVertex) :
    (Maps.insert v).on r.maps = (match r.insert v with
      | .ok after => (.ok (), after.maps)
      | .error fault => (.error fault, r.maps)) := by
  rw [Maps.insert, Change.on_bind, on_claim orderly]
  cases done : r.insert v with
  | error fault => rfl
  | ok after =>
      have orderly' := orderly_insert orderly done
      obtain rfl := insert_eq done
      simp only
      rw [Change.on_bind, on_release]
      simp only [Change.on_bind, Change.on_modify, maps, numbersOf_insert orderly orderly']

theorem on_define (orderly : Orderly r.vertices) (v : SchemaVertex) :
    (Maps.define v).on r.maps = (match r.define v with
      | .ok after => (.ok (), after.maps)
      | .error fault => (.error fault, r.maps)) := by
  rw [Maps.define, Change.on_bind, on_insert orderly, Registry.define]
  cases r.insert v <;> rfl

theorem numbersOf_addEdge (r : Registry) (id : SchemaId) (e : SchemaEdge) :
    numbersOf (r.addEdge id e).vertices = numbersOf r.vertices := by
  unfold numbersOf addEdge
  simp only [List.map_map]
  refine congrArg (Sorted.ofList Prod.fst) (List.map_congr_left fun v _ => ?_)
  simp only [Function.comp_apply]
  split <;> rfl

/-- An edge is added to the vertex of a number as that vertex is replaced. -/
theorem insert_addEdge (orderly : Orderly r.vertices) {id : SchemaId} {v : SchemaVertex}
    (found : r.vertex? id = some v) (e : SchemaEdge) :
    Sorted.insert SchemaVertex.id (v.addEdge e) r.vertices = (r.addEdge id e).vertices := by
  have orderly' := orderly_addEdge orderly id e
  have number : v.id = id := (vertexOf_spec found).2
  refine Sorted.eq_of_find? (orderly.ascending.insert _) orderly'.ascending fun other => ?_
  refine (vertexOf_insert _ _ other).trans (Eq.trans ?_ (vertexOf_addEdge r id e other).symm)
  split
  · rename_i same
    obtain rfl : other = id := same.trans number
    have here : vertexOf r.vertices other = some v := found
    rw [here, Option.map_some, if_pos number]
  · rename_i apart
    cases there : vertexOf r.vertices other with
    | none => rfl
    | some w =>
        have other' : w.id ≠ id := fun same =>
          apart ((vertexOf_spec there).2.symm.trans (same.trans number.symm))
        rw [Option.map_some, if_neg other']

theorem on_present (id : SchemaId) :
    (Maps.present id).on r.maps = (match r.vertex? id with
      | some _ => (.ok (), r.maps)
      | none => (.error (.notFound .schemaVertex), r.maps)) := by
  rw [Maps.present, Change.on_bind, Change.on_get]
  have same : r.maps.vertex? id = r.vertex? id := rfl
  simp only [same]
  cases r.vertex? id <;> rfl

theorem on_update (orderly : Orderly r.vertices) (id : SchemaId) (e : SchemaEdge) :
    (Maps.update id fun v => v.addEdge e).on r.maps = (match r.vertex? id with
      | some _ => (.ok (), (r.addEdge id e).maps)
      | none => (.error (.notFound .schemaVertex), r.maps)) := by
  rw [Maps.update, Change.on_bind, Change.on_get]
  have same : r.maps.vertex? id = r.vertex? id := rfl
  simp only [same]
  cases found : r.vertex? id with
  | none => rfl
  | some v =>
      simp only [Change.on_modify, maps, insert_addEdge orderly found, numbersOf_addEdge]
      rfl

theorem on_invalidate (r : Registry) (id : SchemaId) :
    (Maps.invalidate id).on r.maps = (.ok (), (r.invalidate id).maps) := rfl

/-- The steps of connecting two vertices come to what the registry does: only the first two
can be refused, and these leave the maps as they are. -/
theorem on_connect (orderly : Orderly r.vertices) (first last : SchemaId) (d : EdgeDescription) :
    (Maps.connect first last d).on r.maps = (match r.connect first last d with
      | .ok after => (.ok (), after.maps)
      | .error fault => (.error fault, r.maps)) := by
  rw [Maps.connect, Change.on_bind, on_present, Registry.connect]
  cases there : r.vertex? last with
  | none => rfl
  | some w =>
      simp only
      rw [Change.on_bind, on_update orderly]
      cases here : r.vertex? first with
      | none => rfl
      | some v =>
          -- The last vertex is still there, so from here on no step is refused.
          have still : ((r.addEdge first ⟨last, .out, d⟩).vertex? last).isSome = true := by
            have looked := vertexOf_addEdge r first ⟨last, .out, d⟩ last
            have found : vertexOf r.vertices last = some w := there
            rw [found] at looked
            exact Option.isSome_iff_exists.mpr ⟨_, looked⟩
          obtain ⟨w', found⟩ := Option.isSome_iff_exists.mp still
          simp only
          rw [Change.on_bind, on_update (orderly_addEdge orderly first _), found]
          simp only [Change.on_bind, on_invalidate]
          rfl

/-- Vertices that are put in their places one after the other. -/
theorem on_forM_insert (orderly : Orderly r.vertices) {vertices : List SchemaVertex}
    {after : Registry} (done : vertices.foldlM Registry.insert r = .ok after) :
    Change.on (forM vertices Maps.insert) r.maps = (.ok (), after.maps) := by
  induction vertices generalizing r with
  | nil => exact Except.ok.inj done ▸ rfl
  | cons v rest ih =>
      rw [List.foldlM_cons, Outcome.bind_eq_ok_iff] at done
      obtain ⟨between, first, later⟩ := done
      rw [List.forM_cons, Change.on_bind, on_insert orderly, first]
      exact ih (orderly_insert orderly first) later

end Steps

/-! ## Changes -/

/-- What defining a vertex does: only a name that another one has is refused, and that changes
nothing; else the vertex is there under its number, and no other one is altered. -/
structure Defines (r : Registry) (v : SchemaVertex) : Prop where
  refused : (∃ fault, r.define v = .error fault) ↔
    ∃ owner, r.idOf v.name = some owner ∧ owner ≠ v.id
  unchanged : ∀ fault, r.define v = .error fault →
    r.step (.define v) = r ∧ (Maps.define v).on r.maps = (.error fault, r.maps)
  done : ∀ after, r.define v = .ok after → r.step (.define v) = after ∧
    (Maps.define v).on r.maps = (.ok (), after.maps) ∧
    ∀ id, after.vertex? id = if id = v.id then some v else r.vertex? id

/-- The edges that a vertex gains when two vertices are connected; both if they are one. -/
def gained (first last : SchemaId) (d : EdgeDescription) (id : SchemaId) : List SchemaEdge :=
  (if id = first then [⟨last, .out, d⟩] else []) ++ if id = last then [⟨first, .into, d⟩] else []

/-- What connecting two vertices does: only an end that is missing is refused, and that changes
nothing; else the first gains an outgoing edge and the last one an incoming one, and no other
vertex is altered. -/
structure Connects (r : Registry) (first last : SchemaId) (d : EdgeDescription) : Prop where
  refused : (∃ fault, r.connect first last d = .error fault) ↔
    r.vertex? first = none ∨ r.vertex? last = none
  unchanged : ∀ fault, r.connect first last d = .error fault →
    r.step (.connect first last d) = r ∧
      (Maps.connect first last d).on r.maps = (.error fault, r.maps)
  done : ∀ after, r.connect first last d = .ok after → r.step (.connect first last d) = after ∧
    (Maps.connect first last d).on r.maps = (.ok (), after.maps) ∧
    ∀ id, after.vertex? id =
      (r.vertex? id).map fun v => { v with edges := v.edges ++ gained first last d id }

section Changes

variable {r : Registry}

theorem define_refused_iff (r : Registry) (v : SchemaVertex) :
    (∃ fault, r.define v = .error fault) ↔
      ∃ owner, r.idOf v.name = some owner ∧ owner ≠ v.id := by
  rw [define, insert]
  cases r.idOf v.name with
  | none =>
      constructor
      · rintro ⟨_, never⟩
        cases never
      · rintro ⟨_, never, -⟩
        cases never
  | some owner =>
      by_cases own : owner = v.id
      · simp only [own, if_true]
        constructor
        · rintro ⟨_, never⟩
          cases never
        · rintro ⟨_, same, other⟩
          exact absurd (Option.some.inj same).symm other
      · simp only [own, if_false]
        exact ⟨fun _ => ⟨owner, rfl, own⟩, fun _ => ⟨_, rfl⟩⟩

theorem defines (orderly : Orderly r.vertices) (v : SchemaVertex) : Defines r v where
  refused := define_refused_iff r v
  unchanged := by
    intro fault refused
    have steps := on_define orderly v
    rw [refused] at steps
    refine ⟨?_, steps⟩
    show (r.define v).toOption.getD r = r
    rw [refused]
    rfl
  done := by
    intro after defined
    have steps := on_define orderly v
    rw [defined] at steps
    refine ⟨?_, steps, fun id => ?_⟩
    · show (r.define v).toOption.getD r = after
      rw [defined]
      rfl
    · obtain rfl := define_eq defined
      exact vertexOf_insert v r.vertices id

theorem connect_refused_iff (r : Registry) (first last : SchemaId) (d : EdgeDescription) :
    (∃ fault, r.connect first last d = .error fault) ↔
      r.vertex? first = none ∨ r.vertex? last = none := by
  rw [connect]
  cases r.vertex? last <;> cases r.vertex? first <;> simp

/-- A vertex that an edge may be added to. -/
theorem gains (v : SchemaVertex) (e : SchemaEdge) (p : Prop) [Decidable p] :
    (if p then v.addEdge e else v) = { v with edges := v.edges ++ if p then [e] else [] } := by
  split
  · rfl
  · rw [List.append_nil]

theorem vertex?_connect {after : Registry} {first last : SchemaId} {d : EdgeDescription}
    (connected : r.connect first last d = .ok after) (id : SchemaId) :
    after.vertex? id =
      (r.vertex? id).map fun v => { v with edges := v.edges ++ gained first last d id } := by
  unfold connect at connected
  split at connected
  · cases connected
  · obtain rfl := Except.ok.inj connected
    refine (vertexOf_addEdge _ last _ id).trans ?_
    rw [vertexOf_addEdge]
    show _ = (vertexOf r.vertices id).map _
    cases found : vertexOf r.vertices id with
    | none => rfl
    | some v =>
        obtain ⟨-, rfl⟩ := vertexOf_spec found
        simp only [Option.map_some, gains, gained, List.append_assoc]

theorem connects (orderly : Orderly r.vertices) (first last : SchemaId) (d : EdgeDescription) :
    Connects r first last d where
  refused := connect_refused_iff r first last d
  unchanged := by
    intro fault refused
    have steps := on_connect orderly first last d
    rw [refused] at steps
    refine ⟨?_, steps⟩
    show (r.connect first last d).toOption.getD r = r
    rw [refused]
    rfl
  done := by
    intro after connected
    have steps := on_connect orderly first last d
    rw [connected] at steps
    refine ⟨?_, steps, vertex?_connect connected⟩
    show (r.connect first last d).toOption.getD r = after
    rw [connected]
    rfl

end Changes

/-- Names and numbers are in bijection, whatever was done with a registry: a name leads to the
number of the one vertex that has it, in the vertices as well as in the maps that a change goes
through step by step.  A change that is refused changes nothing at all. -/
theorem names_match_numbers {start : Registry} (opened : Opened start) (events : List Event) :
    (∃ stored : List SchemaVertex,
        Change.on (forM stored Maps.insert) ⟨[], [], [], []⟩ = (.ok (), start.maps)) ∧
      (∀ name id, (start.follow events).idOf name = some id ↔
        ∃ v, (start.follow events).vertex? id = some v ∧ v.name = name) ∧
      (∀ name, (start.follow events).maps.numberOf name = (start.follow events).idOf name) ∧
      (∀ v, Defines (start.follow events) v) ∧
      ∀ first last d, Connects (start.follow events) first last d := by
  have unused := opened.unused
  have orderly := orderly_follow unused.tracked unused.orderly events
  refine ⟨?_, fun name id => idOf_eq_some_iff orderly, numberOf_maps orderly, defines orderly,
    connects orderly⟩
  obtain ⟨stored, done⟩ := opened.stored
  exact ⟨stored, on_forM_insert unused_empty.orderly done⟩

section Swapped

/-- Two keys, of which the first gives up its name, which then the other one takes; the first
is connected with itself. -/
def swapped : List Event :=
  [.define ⟨1, "age", .propertyKey, .empty, []⟩, .define ⟨2, "years", .propertyKey, .empty, []⟩,
    .define ⟨1, "time", .propertyKey, .empty, []⟩, .define ⟨2, "age", .propertyKey, .empty, []⟩,
    .connect 1 1 ⟨.typeModifier, []⟩]

/-- The name that was freed is taken, and a third key is refused it. -/
theorem swapped_names_match_numbers :
    Opened .empty ∧ (empty.follow swapped).idOf "age" = some 2 ∧
      (empty.follow swapped).idOf "time" = some 1 ∧ (empty.follow swapped).idOf "years" = none ∧
      ((empty.follow swapped).vertex? 1).map SchemaVertex.edges =
        some [⟨1, .out, ⟨.typeModifier, []⟩⟩, ⟨1, .into, ⟨.typeModifier, []⟩⟩] ∧
      (∃ fault, (empty.follow swapped).define ⟨3, "age", .edgeLabel, .empty, []⟩ = .error fault) ∧
      (∃ stored : List SchemaVertex,
        Change.on (forM stored Maps.insert) ⟨[], [], [], []⟩ = (.ok (), empty.maps)) ∧
      (∀ name id, (empty.follow swapped).idOf name = some id ↔
        ∃ v, (empty.follow swapped).vertex? id = some v ∧ v.name = name) ∧
      (∀ name, (empty.follow swapped).maps.numberOf name = (empty.follow swapped).idOf name) ∧
      (∀ v, Defines (empty.follow swapped) v) ∧
      ∀ first last d, Connects (empty.follow swapped) first last d :=
  ⟨.empty, rfl, rfl, rfl, rfl, ⟨_, rfl⟩, names_match_numbers .empty swapped⟩

end Swapped

end Registry

end PropertyGraph
