/-
# Proofs.StaleTypes -- when the relation types that a registry keeps are stale

When a vertex is defined, the registry forgets its type and the types that are directly
over it.  What is kept of an index over one of those is not forgotten, and is stale if it
took anything from the vertex that was replaced.

`answers_fresh_iff` says that this is the only way to a stale answer, for every run of
changes and questions under which the relation indexes never form a cycle: connecting two
vertices changes no type that there is, since an index stays over what its first edge
leads to, and a type that is over nothing but a label or a key is always forgotten in
time.  `index_over_index_goes_stale` is the stale answer.

`Kept.use` says what one use preserves, for any choice of watched numbers; the three
choices are all numbers, none, and those of no index over an index.
-/
import PropertyGraph.Proofs.KeptTypes

namespace PropertyGraph

set_option autoImplicit false

open Schema

namespace Registry

/-- One use of a registry. -/
inductive Use where
  | define (v : SchemaVertex)
  | connect (first last : SchemaId) (d : EdgeDescription)
  | invalidate (id : SchemaId)
  | resetCaches
  | relationType (id : SchemaId)
  | typeNamed (name : String)
  | withIndexes (t : RelationType)

/-- The registry after a use.  A change that is refused leaves it as it is; a question
may keep types even if it fails. -/
def use (r : Registry) : Use → Registry
  | .define v => (r.define v).toOption.getD r
  | .connect first last d => (r.connect first last d).toOption.getD r
  | .invalidate id => r.invalidate id
  | .resetCaches => r.resetCaches
  | .relationType id => ((Registry.relationType id).ask r).2
  | .typeNamed name => ((Registry.typeNamed name).ask r).2
  | .withIndexes t => ((Registry.withIndexes t).ask r).2

/-- The registry after some uses. -/
def run (r : Registry) (uses : List Use) : Registry := uses.foldl use r

/-! ## Changes of the schema -/

/-- What is kept when a vertex was invalidated. -/
def Spared (id : SchemaId) (kept : SchemaId × TypeObject) : Prop :=
  kept.1 ≠ id ∧ kept.2.type.base ≠ some id

theorem mem_types_invalidate {r : Registry} {id : SchemaId} {x : SchemaId × TypeObject} :
    x ∈ (r.invalidate id).types ↔ x ∈ r.types ∧ Spared id x := by
  simp [invalidate, Spared]

theorem vertexOf_insert (v : SchemaVertex) (vertices : List SchemaVertex) (id : SchemaId) :
    vertexOf (Sorted.insert SchemaVertex.id v vertices) id =
      if id = v.id then some v else vertexOf vertices id := by
  rw [vertexOf, Sorted.find?_insert]
  simp only [Std.LawfulEqOrd.compare_eq_iff_eq]
  rfl

/-- A vertex that is put in its place is there instead of the one of its number. -/
theorem insert_eq {r r' : Registry} {v : SchemaVertex} (done : r.insert v = .ok r') :
    r' = { r with vertices := Sorted.insert SchemaVertex.id v r.vertices } := by
  unfold insert at done
  split at done
  · split at done
    · exact (Except.ok.inj done).symm
    · cases done
  · exact (Except.ok.inj done).symm

/-- A vertex that is defined takes the place of the one of its number, and what was kept of
it is invalidated. -/
theorem define_eq {r after : Registry} {v : SchemaVertex} (defined : r.define v = .ok after) :
    after = { r.invalidate v.id with
      vertices := Sorted.insert SchemaVertex.id v r.vertices } := by
  rw [define, Outcome.bind_eq_ok_iff] at defined
  obtain ⟨inserted, placed, done⟩ := defined
  obtain rfl := Except.ok.inj done
  obtain rfl := insert_eq placed
  rfl

theorem define_spec {r after : Registry} {v : SchemaVertex} (defined : r.define v = .ok after) :
    after.vertices = Sorted.insert SchemaVertex.id v r.vertices ∧
      after.types = (r.invalidate v.id).types := by
  obtain rfl := define_eq defined
  exact ⟨rfl, rfl⟩

theorem find?_map_of_key {f : SchemaVertex → SchemaVertex} (keeps : ∀ v, (f v).id = v.id)
    (vertices : List SchemaVertex) (id : SchemaId) :
    vertexOf (vertices.map f) id = (vertexOf vertices id).map f := by
  induction vertices with
  | nil => rfl
  | cons v rest ih =>
      unfold vertexOf at ih ⊢
      simp only [List.map_cons, Sorted.find?, keeps]
      split
      · rfl
      · exact ih

theorem vertexOf_addEdge (r : Registry) (at_ : SchemaId) (e : SchemaEdge) (id : SchemaId) :
    vertexOf (r.addEdge at_ e).vertices id =
      (vertexOf r.vertices id).map fun v => if v.id = at_ then v.addEdge e else v := by
  refine find?_map_of_key (fun v => ?_) r.vertices id
  split <;> rfl

theorem growsAt_addEdge (r : Registry) (at_ : SchemaId) (e : SchemaEdge) (id : SchemaId) :
    GrowsAt r.vertices (r.addEdge at_ e).vertices id := by
  intro v found
  refine ⟨_, by rw [vertexOf_addEdge, found]; rfl, ?_⟩
  beta_reduce
  split
  · exact .addEdge v e
  · exact .refl v

theorem vertexOf_addEdge_of_ne (r : Registry) {at_ id : SchemaId} (e : SchemaEdge)
    (other : id ≠ at_) : vertexOf (r.addEdge at_ e).vertices id = vertexOf r.vertices id := by
  rw [vertexOf_addEdge]
  cases found : vertexOf r.vertices id with
  | none => rfl
  | some v =>
      have apart : v.id ≠ at_ := fun same => other ((vertexOf_spec found).2.symm.trans same)
      rw [Option.map_some, if_neg apart]

/-- Connecting lets the two ends gain an edge. -/
theorem connect_spec {r after : Registry} {first last : SchemaId} {d : EdgeDescription}
    (connected : r.connect first last d = .ok after) :
    (∀ id, GrowsAt r.vertices after.vertices id) ∧
      (∀ id, id ≠ first → id ≠ last → vertexOf after.vertices id = vertexOf r.vertices id) ∧
      after.types = ((r.invalidate first).invalidate last).types := by
  unfold connect at connected
  split at connected
  · cases connected
  · obtain rfl := Except.ok.inj connected
    refine ⟨?_, ?_, rfl⟩
    · intro id v found
      obtain ⟨u, found', grown⟩ := growsAt_addEdge r first ⟨last, .out, d⟩ id v found
      obtain ⟨w, found'', further⟩ := growsAt_addEdge _ last ⟨first, .into, d⟩ id u found'
      exact ⟨w, found'', grown.trans further⟩
    · intro id notFirst notLast
      exact (vertexOf_addEdge_of_ne _ _ notLast).trans (vertexOf_addEdge_of_ne r _ notFirst)

theorem baseOf_congr {vertices vertices' : List SchemaVertex} {id : SchemaId}
    (same : vertexOf vertices' id = vertexOf vertices id) :
    baseOf vertices' id = baseOf vertices id := by
  rw [baseOf, baseOf, same]

/-! ## What stays fresh -/

/-- Two links or more lead from an index down to a type. -/
def FarOver (vertices : List SchemaVertex) (id a : SchemaId) : Prop :=
  ∃ b, baseOf vertices id = some b ∧ Over vertices b a

/-- The number is of no index over an index. -/
def Shallow (vertices : List SchemaVertex) (id : SchemaId) : Prop :=
  ∀ b, baseOf vertices id = some b → baseOf vertices b = none

/-- Numbers to be watched in each schema: with an index what it is over, and no number
that was not watched before, unless its vertex, or that of its base, was replaced. -/
structure Watchable (watched : List SchemaVertex → SchemaId → Prop) : Prop where
  closed : ∀ {vertices id b}, watched vertices id → baseOf vertices id = some b →
    watched vertices b
  grown : ∀ {vertices vertices' id}, (∀ x, GrowsAt vertices vertices' x) →
    watched vertices' id → watched vertices id
  placed : ∀ {vertices v id}, id ≠ v.id → baseOf vertices id ≠ some v.id →
    watched (Sorted.insert SchemaVertex.id v vertices) id → watched vertices id

theorem watchable_all : Watchable fun _ _ => True :=
  ⟨fun _ _ => trivial, fun _ _ => trivial, fun _ _ _ => trivial⟩

theorem watchable_none : Watchable fun _ _ => False :=
  ⟨fun never _ => never, fun _ never => never, fun _ _ never => never⟩

theorem watchable_shallow : Watchable Shallow where
  closed := by
    intro vertices id b shallow base c further
    rw [shallow b base] at further
    cases further
  grown := by
    intro vertices vertices' id grows shallow b base
    have none := shallow b (baseOf_of_growsAt (grows id) base)
    cases further : baseOf vertices b with
    | none => rfl
    | some c =>
        rw [baseOf_of_growsAt (grows b) further] at none
        cases none
  placed := by
    intro vertices v id other apart shallow b base
    have same : ∀ x, x ≠ v.id → baseOf (Sorted.insert SchemaVertex.id v vertices) x =
        baseOf vertices x := by
      intro x other
      exact baseOf_congr (by rw [vertexOf_insert, if_neg other])
    have below : b ≠ v.id := fun hit => apart (hit ▸ base)
    rw [← same b below]
    exact shallow b ((same id other).trans base)

/-- Everything kept of a schema stays right in another one, if each type that is still
kept and watched is still the same. -/
theorem Kept.transfer {watched watched' : SchemaId → Prop} {vertices vertices' : List SchemaVertex}
    {types types' : List (SchemaId × TypeObject)} (kept : Kept watched vertices types)
    (fewer : types'.Sublist types)
    (base : ∀ x ∈ types', baseOf vertices' x.1 = baseOf vertices x.1)
    (still : ∀ x ∈ types', watched' x.1 → watched x.1 ∧
      (typeOf vertices x.1 = .ok x.2.type → typeOf vertices' x.1 = .ok x.2.type)) :
    Kept watched' vertices' types' := by
  have among : ∀ x ∈ types', x ∈ types := fun x member => fewer.subset member
  refine ⟨kept.once.sublist (fewer.map Prod.fst), fun x member => kept.own x (among x member),
    fun x member => ?_, fun x member watch => ?_⟩
  · rw [base x member]
    exact kept.base x (among x member)
  · obtain ⟨watch', same⟩ := still x member watch
    exact same (kept.fresh x (among x member) watch')

section Steps

variable {watched : List SchemaVertex → SchemaId → Prop} (watchable : Watchable watched)
  {r after : Registry} (kept : Kept (watched r.vertices) r.vertices r.types)

include watchable kept

theorem Kept.define {v : SchemaVertex} (defined : r.define v = .ok after)
    (acyclic : Acyclic after.vertices)
    (unmoved : ∀ x ∈ r.types, FarOver r.vertices x.1 v.id → watched after.vertices x.1 →
      typeOf after.vertices x.1 = typeOf r.vertices x.1) :
    Kept (watched after.vertices) after.vertices after.types := by
  obtain ⟨schema, types⟩ := define_spec defined
  have spared : ∀ x ∈ after.types, x ∈ r.types ∧ Spared v.id x := by
    intro x member
    rw [types] at member
    exact mem_types_invalidate.mp member
  have same : ∀ x, x ≠ v.id → vertexOf after.vertices x = vertexOf r.vertices x := by
    intro x other
    rw [schema, vertexOf_insert, if_neg other]
  refine kept.transfer (types ▸ List.filter_sublist) ?_ ?_
  · intro x member
    obtain ⟨-, other, -⟩ := spared x member
    exact baseOf_congr (same x.1 other)
  · intro x member watch
    obtain ⟨old, other, apart⟩ := spared x member
    rw [kept.base x old] at apart
    refine ⟨watchable.placed other apart (schema ▸ watch), fun fresh => ?_⟩
    by_cases above : Over r.vertices x.1 v.id
    · have far : FarOver r.vertices x.1 v.id := by
        cases above with
        | link base => exact absurd base apart
        | far base rest => exact ⟨_, base, rest⟩
      exact (unmoved x old far watch).trans fresh
    · refine typeOf_of_grows acyclic (fun y reached w found => ⟨w, ?_, .refl w⟩) fresh
      have elsewhere : y ≠ v.id := by
        rintro rfl
        rcases reached with hit | through
        · exact other hit.symm
        · exact above through
      rw [same y elsewhere, found]

theorem Kept.connect {first last : SchemaId} {d : EdgeDescription}
    (connected : r.connect first last d = .ok after) (acyclic : Acyclic after.vertices) :
    Kept (watched after.vertices) after.vertices after.types := by
  obtain ⟨grows, same, types⟩ := connect_spec connected
  refine kept.transfer ?_ ?_ ?_
  · rw [types]
    exact List.filter_sublist.trans List.filter_sublist
  · intro x member
    rw [types] at member
    obtain ⟨member, notLast, -⟩ := mem_types_invalidate.mp member
    obtain ⟨-, notFirst, -⟩ := mem_types_invalidate.mp member
    exact baseOf_congr (same x.1 notFirst notLast)
  · intro x _ watch
    exact ⟨watchable.grown grows watch, typeOf_of_grows acyclic fun y _ => grows y⟩

omit kept in
/-- A question keeps only what is right. -/
theorem leaves_kept {vertices : List SchemaVertex} (acyclic : Acyclic vertices) (id : SchemaId) :
    Leaves (fun s => s.vertices = vertices ∧ Kept (watched vertices) vertices s.types)
      (typeObject id) := by
  rintro s ⟨rfl, kept⟩
  have answered := answered_typeObject acyclic (fun _ _ => watchable.closed) id kept
  exact ⟨answered.schema, answered.kept⟩

/-- One use of a registry keeps what is watched fresh, unless it defines a vertex that
changes a type far over it. -/
theorem Kept.use (u : Use) (acyclic : Acyclic r.vertices) (acyclic' : Acyclic (r.use u).vertices)
    (unmoved : ∀ v, u = .define v → ∀ x ∈ r.types, FarOver r.vertices x.1 v.id →
      watched (r.use u).vertices x.1 →
      typeOf (r.use u).vertices x.1 = typeOf r.vertices x.1) :
    Kept (watched (r.use u).vertices) (r.use u).vertices (r.use u).types := by
  have asked : ∀ {α : Type} {question : Lookup α},
      Leaves (fun s => s.vertices = r.vertices ∧ Kept (watched r.vertices) r.vertices s.types)
        question →
      Kept (watched (question.ask r).2.vertices) (question.ask r).2.vertices
        (question.ask r).2.types := by
    intro α question leaves
    obtain ⟨schema, still⟩ := leaves r ⟨rfl, kept⟩
    rwa [schema]
  have each := leaves_kept watchable acyclic
  cases u with
  | define v =>
      have moved := unmoved v rfl
      cases defined : r.define v with
      | error fault =>
          have same : r.use (.define v) = r := by rw [Registry.use, defined]; rfl
          rwa [same]
      | ok after =>
          have same : r.use (.define v) = after := by rw [Registry.use, defined]; rfl
          rw [same] at acyclic' moved ⊢
          exact kept.define watchable defined acyclic' moved
  | connect first last d =>
      cases connected : r.connect first last d with
      | error fault =>
          have same : r.use (.connect first last d) = r := by rw [Registry.use, connected]; rfl
          rwa [same]
      | ok after =>
          have same : r.use (.connect first last d) = after := by rw [Registry.use, connected]; rfl
          rw [same] at acyclic' ⊢
          exact kept.connect watchable connected acyclic'
  | invalidate id => exact kept.filter _
  | resetCaches => exact kept_nil
  | relationType id => exact asked (leaves_relationType each id)
  | typeNamed name => exact asked (leaves_typeNamed each name)
  | withIndexes t => exact asked (leaves_withIndexes each t)

/-- What is watched is fresh after every run in which no definition changes a type that
is kept far over it. -/
theorem Kept.run (uses : List Use)
    (acyclic : ∀ p, p <+: uses → Acyclic (r.run p).vertices)
    (unmoved : ∀ p v, p ++ [.define v] <+: uses → ∀ x ∈ (r.run p).types,
      FarOver (r.run p).vertices x.1 v.id → watched (r.run (p ++ [.define v])).vertices x.1 →
      typeOf (r.run (p ++ [.define v])).vertices x.1 = typeOf (r.run p).vertices x.1) :
    Kept (watched (r.run uses).vertices) (r.run uses).vertices (r.run uses).types := by
  induction uses generalizing r with
  | nil => exact kept
  | cons u rest ih =>
      have now : Acyclic r.vertices := acyclic [] List.nil_prefix
      have next : Acyclic (r.use u).vertices := acyclic [u] ⟨rest, rfl⟩
      refine ih (kept.use watchable u now next ?_) ?_ ?_
      · rintro v rfl
        exact unmoved [] v ⟨rest, rfl⟩
      · intro p before
        exact acyclic (u :: p) (List.cons_prefix_cons.mpr ⟨rfl, before⟩)
      · intro p v before
        exact unmoved (u :: p) v (List.cons_prefix_cons.mpr ⟨rfl, before⟩)

end Steps

/-! ## Runs -/

/-- The type of a number is kept. -/
def Keeps (r : Registry) (id : SchemaId) : Prop := (r.types.lookup id).isSome = true

theorem keeps_of_mem {r : Registry} {x : SchemaId × TypeObject} (member : x ∈ r.types) :
    r.Keeps x.1 := by
  unfold Keeps
  cases looked : r.types.lookup x.1 with
  | some o => rfl
  | none => exact absurd rfl (not_mem_of_lookup looked x member)

/-- What is kept far over a vertex that is defined is answered as before. -/
theorem answer_define_of_far {r : Registry} (once : (r.types.map Prod.fst).Nodup)
    (base : ∀ x ∈ r.types, x.2.type.base = baseOf r.vertices x.1) (acyclic : Acyclic r.vertices)
    (v : SchemaVertex) {id : SchemaId} (keeps : r.Keeps id) (far : FarOver r.vertices id v.id) :
    (r.use (.define v)).answer id = r.answer id := by
  cases defined : r.define v with
  | error fault =>
      have same : r.use (.define v) = r := by rw [use, defined]; rfl
      rw [same]
  | ok after =>
      have same : r.use (.define v) = after := by rw [use, defined]; rfl
      obtain ⟨o, looked⟩ := Option.isSome_iff_exists.mp keeps
      have member := mem_of_lookup looked
      obtain ⟨b, linked, rest⟩ := far
      have spared : Spared v.id (id, o) := by
        refine ⟨?_, ?_⟩
        · rintro rfl
          exact acyclic v.id (.far linked rest)
        · rw [base _ member, linked]
          rintro hit
          obtain rfl := Option.some.inj hit
          exact acyclic v.id rest
      obtain ⟨-, types⟩ := define_spec defined
      have still : (id, o) ∈ after.types := types ▸ mem_types_invalidate.mpr ⟨member, spared⟩
      have once' : (after.types.map Prod.fst).Nodup :=
        once.sublist ((types ▸ List.filter_sublist : after.types.Sublist r.types).map Prod.fst)
      rw [same, answer_of_lookup (lookup_of_mem once' still), answer_of_lookup looked]

theorem baseOf_use_define (r : Registry) {v : SchemaVertex} {id : SchemaId} (other : id ≠ v.id) :
    baseOf (r.use (.define v)).vertices id = baseOf r.vertices id := by
  cases defined : r.define v with
  | error fault => rw [use, defined]; rfl
  | ok after =>
      obtain ⟨schema, -⟩ := define_spec defined
      have same : r.use (.define v) = after := by rw [use, defined]; rfl
      rw [same, schema]
      exact baseOf_congr (by rw [vertexOf_insert, if_neg other])

/-- Defining a vertex leaves the indexes over indexes that are far over it. -/
theorem FarOver.not_shallow {r : Registry} (acyclic : Acyclic r.vertices) {v : SchemaVertex}
    {id : SchemaId} (far : FarOver r.vertices id v.id) :
    ¬ Shallow (r.use (.define v)).vertices id := by
  obtain ⟨b, linked, rest⟩ := far
  have other : id ≠ v.id := by
    rintro rfl
    exact acyclic v.id (.far linked rest)
  have below : b ≠ v.id := by
    rintro rfl
    exact acyclic v.id rest
  intro shallow
  have none := shallow b ((baseOf_use_define r other).trans linked)
  rw [baseOf_use_define r below] at none
  cases rest with
  | link base | far base _ =>
      rw [none] at base
      cases base

/-- Of every run on a registry that keeps nothing yet, where the relation indexes never
form a cycle: all answers are always those of a registry that keeps nothing, if and only
if no definition changes a type that is kept two links or more over it; and in any case
those are that concern no index over an index. -/
theorem answers_fresh_iff {r : Registry} (new : r.types = []) (uses : List Use)
    (acyclic : ∀ p, p <+: uses → Acyclic (r.run p).vertices) :
    ((∀ p, p <+: uses → ∀ id, (r.run p).answer id = (r.run p).bare.answer id) ↔
      ∀ p v, p ++ [.define v] <+: uses → ∀ id, (r.run p).Keeps id →
        FarOver (r.run p).vertices id v.id →
        (r.run (p ++ [.define v])).bare.answer id = (r.run p).bare.answer id) ∧
      ∀ p, p <+: uses → ∀ id, Shallow (r.run p).vertices id →
        (r.run p).answer id = (r.run p).bare.answer id := by
  have start : ∀ watched : SchemaId → Prop, Kept watched r.vertices r.types :=
    fun _ => new ▸ kept_nil
  have step : ∀ p v, r.run (p ++ [.define v]) = (r.run p).use (.define v) :=
    fun p v => List.foldl_concat ..
  have within : ∀ {p}, p <+: uses → ∀ q, q <+: p → Acyclic (r.run q).vertices :=
    fun before q earlier => acyclic q (earlier.trans before)
  refine ⟨⟨?_, ?_⟩, ?_⟩
  · intro fresh p v before id keeps far
    have earlier : p <+: uses := (List.prefix_append p _).trans before
    have kept := (start _).run watchable_none p (within earlier)
      fun _ _ _ _ _ _ never => nomatch never
    rw [← fresh p earlier id, ← fresh _ before id, step]
    exact answer_define_of_far kept.once kept.base (acyclic p earlier) v keeps far
  · intro unmoved p before id
    have kept := (start _).run watchable_all p (within before) fun q v earlier x member far _ => by
      have both := unmoved q v (earlier.trans before) x.1 (keeps_of_mem member) far
      rwa [answer_bare (within before _ earlier),
        answer_bare (within before q ((List.prefix_append q _).trans earlier))] at both
    rw [answer_bare (acyclic p before)]
    exact answer_of_watched (acyclic p before) (fun _ _ => watchable_all.closed) kept trivial
  · intro p before id shallow
    have kept := (start _).run watchable_shallow p (within before) fun q v earlier x _ far later =>
      absurd (step q v ▸ later)
        (far.not_shallow (within before q ((List.prefix_append q _).trans earlier)))
    rw [answer_bare (acyclic p before)]
    exact answer_of_watched (acyclic p before) (fun _ _ => watchable_shallow.closed) kept shallow

/-! ## An index over an index -/

section Chain

/-- A label with a definition. -/
def knows (d : Definition) : SchemaVertex := ⟨1, "knows", .edgeLabel, d, []⟩

/-- The label of these values, with an index over it and another over that, which is
asked for its type. -/
def chained : List Use :=
  [.define (knows .empty), .define ⟨2, "byTime", .relationIndex, .empty, []⟩,
    .connect 1 2 ⟨.relationTypeIndex, []⟩, .define ⟨3, "byTimeAgain", .relationIndex, .empty, []⟩,
    .connect 2 3 ⟨.relationTypeIndex, []⟩, .relationType 3]

/-- Then the label is defined once more. -/
def redefined (d : Definition) : List Use := chained ++ [.define (knows d)]

/-- The number of an index is above the number of what it is over. -/
def falling (vertices : List SchemaVertex) : Bool :=
  vertices.all fun v => v.kind != .relationIndex ||
    (indexedId v).toOption.all fun b => decide (b.toNat < v.id.toNat)

theorem acyclic_of_falling {uses : List Use}
    (falls : ((List.range (uses.length + 1)).all fun n =>
      falling (empty.run (uses.take n)).vertices) = true) :
    ∀ p, p <+: uses → Acyclic (empty.run p).vertices := by
  intro p before
  have here : falling (empty.run p).vertices = true := by
    rw [List.prefix_iff_eq_take.mp before]
    exact List.all_eq_true.mp falls p.length (List.mem_range.mpr (Nat.lt_succ_of_le before.length_le))
  refine acyclic_of_rank UInt64.toNat fun v member index b linked => ?_
  have below := List.all_eq_true.mp here v member
  simpa [index, linked, Except.toOption] using below

/-- Another sort order of a label is its own, so nothing that is kept of its indexes is
stale. -/
theorem reordered_is_fresh :
    let uses := redefined (.ofList [(.sortOrder, .order .desc)])
    (∀ p, p <+: uses → Acyclic (empty.run p).vertices) ∧
      ∀ p, p <+: uses → ∀ id, (empty.run p).answer id = (empty.run p).bare.answer id := by
  intro uses
  have acyclic : ∀ p, p <+: uses → Acyclic (empty.run p).vertices :=
    acyclic_of_falling rfl
  refine ⟨acyclic, (answers_fresh_iff rfl uses acyclic).1.mpr ?_⟩
  intro p v before id keeps far
  have nothing : ∀ n < 6, (empty.run (uses.take n)).types = [] := by decide +kernel
  have short : p.length ≤ 6 := by
    have size : uses.length = 7 := rfl
    have bound := before.length_le
    rw [List.length_append, List.length_singleton, size] at bound
    omega
  have taken : p = uses.take p.length :=
    List.prefix_iff_eq_take.mp ((List.prefix_append p _).trans before)
  by_cases early : p.length < 6
  · rw [taken, Keeps, nothing p.length early] at keeps
    cases keeps
  · -- all that is left is the second definition of the label
    have whole : p ++ [.define v] = uses := by
      refine before.eq_of_length ?_
      have : p.length = 6 := by omega
      simp [this, uses, redefined, chained]
    obtain ⟨rfl, last⟩ := List.append_inj' whole rfl
    obtain rfl : v = knows (.ofList [(.sortOrder, .order .desc)]) := by
      simpa using last
    have known : id = 1 ∨ id = 2 ∨ id = 3 := by
      have all : ∀ x ∈ (empty.run chained).types, x.1 = 1 ∨ x.1 = 2 ∨ x.1 = 3 := by
        decide +kernel
      obtain ⟨o, looked⟩ := Option.isSome_iff_exists.mp keeps
      exact all _ (mem_of_lookup looked)
    rcases known with rfl | rfl | rfl
    · obtain ⟨b, linked, rest⟩ := far
      exact absurd (Over.far linked rest) (acyclic chained (List.prefix_append ..) 1)
    · rfl
    · rfl

/-- Another multiplicity of the label is answered for the first index, but not for the
index over it. -/
theorem index_over_index_goes_stale :
    (∀ p, p <+: redefined (.ofList [(.multiplicity, .multiplicity .simple)]) →
        Acyclic (empty.run p).vertices) ∧
      ((empty.run (redefined (.ofList [(.multiplicity, .multiplicity .simple)]))).answer 2).map
        RelationType.multiplicity = .ok .simple ∧
      ((empty.run (redefined (.ofList [(.multiplicity, .multiplicity .simple)]))).answer 3).map
        RelationType.multiplicity = .ok .multi ∧
      ((empty.run (redefined (.ofList [(.multiplicity, .multiplicity .simple)]))).bare.answer 3).map
        RelationType.multiplicity = .ok .simple :=
  ⟨acyclic_of_falling rfl, rfl, rfl, rfl⟩

end Chain

end Registry

end PropertyGraph
