/-
# Proofs.KeptTypes -- questions to a registry that keeps relation types

A registry keeps the types that it derived and derives others from them, so an answer is
what the schema says (`Schema.typeOf`) if what is kept of the type and of those under it
is.  `Kept` says so of a set of numbers that is closed under links, the watched ones;
`answered_deriveType` carries it through the recursion of the question and
`answer_of_watched` is what follows for the answer.

Nothing is said of a number that is not watched, so the same lemma serves registries that
keep stale types of other numbers.
-/
import PropertyGraph.Proofs.DerivedTypes
import PropertyGraph.Proofs.Lookups

namespace PropertyGraph

set_option autoImplicit false

open Schema

/-- The answer to a question, and the registry after it. -/
def Lookup.ask {α : Type} (question : Lookup α) (r : Registry) : Outcome α × Registry :=
  question.run.run r

namespace Lookup

variable {α β : Type}

theorem ask_get (r : Registry) : ask get r = (.ok r, r) := rfl

/-- An outcome that is no question leaves the registry alone. -/
theorem ask_lift (o : Outcome α) (r : Registry) :
    ask (MonadLiftT.monadLift o : Lookup α) r = (o, r) := by
  cases o <;> rfl

theorem ask_bind (question : Lookup α) (next : α → Lookup β) (r : Registry) :
    ask (question >>= next) r =
      match ask question r with
      | (.ok a, after) => ask (next a) after
      | (.error fault, after) => (.error fault, after) := by
  rcases asked : ask question r with ⟨answer, after⟩
  have step : ask (question >>= next) r =
      match ask question r with
      | (answer, after) => ask (ExceptT.bindCont next answer : StateM Registry _) after := rfl
  rw [step, asked]
  cases answer <;> rfl

/-- A question that is answered in the end was answered on the way. -/
theorem of_ask_bind {question : Lookup α} {next : α → Lookup β} {r : Registry} {b : β}
    (answered : (ask (question >>= next) r).1 = .ok b) :
    ∃ a after, ask question r = (.ok a, after) ∧ (ask (next a) after).1 = .ok b := by
  rw [ask_bind] at answered
  rcases asked : ask question r with ⟨_ | a, after⟩
  · rw [asked] at answered
    cases answered
  · rw [asked] at answered
    exact ⟨a, after, rfl, answered⟩

theorem of_ask_lift_bind {o : Outcome α} {next : α → Lookup β} {r : Registry} {b : β}
    (answered : (ask ((MonadLiftT.monadLift o : Lookup α) >>= next) r).1 = .ok b) :
    ∃ a, o = .ok a ∧ (ask (next a) r).1 = .ok b := by
  obtain ⟨a, after, asked, later⟩ := of_ask_bind answered
  rw [ask_lift] at asked
  obtain ⟨rfl, rfl⟩ := Prod.mk.inj asked
  exact ⟨a, rfl, later⟩

end Lookup

namespace Registry

variable {vertices : List SchemaVertex} {watched : SchemaId → Prop}

/-- What is kept of a schema: each type once, under its own number, over what the schema
has it over, and as fresh as if nothing were kept where the number is watched. -/
structure Kept (watched : SchemaId → Prop) (vertices : List SchemaVertex)
    (types : List (SchemaId × TypeObject)) : Prop where
  once : (types.map Prod.fst).Nodup
  own : ∀ kept ∈ types, kept.2.type.id = kept.1
  base : ∀ kept ∈ types, kept.2.type.base = baseOf vertices kept.1
  fresh : ∀ kept ∈ types, watched kept.1 → typeOf vertices kept.1 = .ok kept.2.type

theorem kept_nil : Kept watched vertices [] :=
  ⟨.nil, fun _ member => (by cases member), fun _ member => (by cases member),
    fun _ member => (by cases member)⟩

theorem Kept.filter {types : List (SchemaId × TypeObject)} (kept : Kept watched vertices types)
    (p : SchemaId × TypeObject → Bool) : Kept watched vertices (types.filter p) := by
  have among : ∀ x ∈ types.filter p, x ∈ types := fun x member => (List.mem_filter.mp member).1
  exact ⟨kept.once.sublist (List.filter_sublist.map Prod.fst),
    fun x member => kept.own x (among x member), fun x member => kept.base x (among x member),
    fun x member => kept.fresh x (among x member)⟩

/-- A type that was derived is kept. -/
theorem Kept.cons {types : List (SchemaId × TypeObject)} (kept : Kept watched vertices types)
    {id : SchemaId} (absent : ∀ x ∈ types, x.1 ≠ id) {o : TypeObject} (own : o.type.id = id)
    (base : o.type.base = baseOf vertices id)
    (fresh : watched id → typeOf vertices id = .ok o.type) :
    Kept watched vertices ((id, o) :: types) := by
  refine ⟨?_, List.forall_mem_cons.mpr ⟨own, kept.own⟩, List.forall_mem_cons.mpr ⟨base, kept.base⟩,
    List.forall_mem_cons.mpr ⟨fresh, kept.fresh⟩⟩
  refine List.nodup_cons.mpr ⟨?_, kept.once⟩
  intro member
  obtain ⟨x, inTypes, same⟩ := List.mem_map.mp member
  exact absent x inTypes same

/-- A question for the type of a number was answered. -/
structure Answered (watched : SchemaId → Prop) (vertices : List SchemaVertex) (id : SchemaId)
    (r : Registry) (answer : Outcome TypeObject) (after : Registry) : Prop where
  schema : after.vertices = vertices
  kept : Kept watched vertices after.types
  /-- Only the type and those under it are new. -/
  added : ∀ x ∈ after.types, x ∈ r.types ∨ x.1 = id ∨ Over vertices id x.1
  own : ∀ o, answer = .ok o → o.type.id = id
  fresh : watched id → answer.map TypeObject.type = typeOf vertices id

section Answered

variable {id : SchemaId} {r : Registry} (schema : r.vertices = vertices)
  (kept : Kept watched vertices r.types)

include schema kept

/-- Nothing was kept on the way. -/
theorem answered_unchanged {answer : Outcome TypeObject}
    (own : ∀ o, answer = .ok o → o.type.id = id)
    (fresh : watched id → answer.map TypeObject.type = typeOf vertices id) :
    Answered watched vertices id r answer r :=
  ⟨schema, kept, fun _ member => .inl member, own, fresh⟩

theorem answered_missing (acyclic : Acyclic vertices) (absent : vertexOf vertices id = none) :
    Answered watched vertices id r (.error (.notFound .relationType)) r := by
  refine answered_unchanged schema kept (fun o never => by cases never) fun _ => ?_
  rw [typeOf_eq acyclic, absent]
  rfl

theorem answered_kept {o : TypeObject} (found : r.types.lookup id = some o) :
    Answered watched vertices id r (.ok o) r := by
  have member := mem_of_lookup found
  exact answered_unchanged schema kept (fun o' same => Except.ok.inj same ▸ kept.own _ member)
    fun watch => (kept.fresh _ member watch).symm

end Answered

theorem not_mem_of_lookup {id : SchemaId} {types : List (SchemaId × TypeObject)}
    (absent : types.lookup id = none) : ∀ x ∈ types, x.1 ≠ id := by
  intro x member same
  have apart := List.lookup_eq_none_iff.mp absent x member
  rw [same] at apart
  exact absurd apart (by simp)

/-- Keeps a type, if it was made. -/
def keepMade (id : SchemaId) (made : Outcome RelationType) : Lookup TypeObject := do
  let t ← made
  modifyGet fun r => r.keepType id t

/-- A type that was made is kept, and answers the question. -/
theorem answered_keepMade {id : SchemaId} {r after : Registry} {made : Outcome RelationType}
    (schema : after.vertices = vertices) (kept : Kept watched vertices after.types)
    (added : ∀ x ∈ after.types, x ∈ r.types ∨ Over vertices id x.1)
    (absent : ∀ x ∈ after.types, x.1 ≠ id)
    (own : ∀ t, made = .ok t → t.id = id ∧ t.base = baseOf vertices id)
    (fresh : watched id → made = typeOf vertices id) :
    Answered watched vertices id r ((keepMade id made).ask after).1
      ((keepMade id made).ask after).2 := by
  cases made with
  | error fault =>
      exact ⟨schema, kept, fun x member => (added x member).imp_right .inr,
        fun o never => (by cases never), fun watch => fresh watch⟩
  | ok t =>
      obtain ⟨self, base⟩ := own t rfl
      refine ⟨schema, kept.cons absent self base fun watch => (fresh watch).symm, ?_, ?_,
        fun watch => fresh watch⟩
      · intro x member
        rcases List.mem_cons.mp member with rfl | old
        · exact .inr (.inl rfl)
        · exact (added x old).imp_right .inr
      · intro o same
        obtain rfl := Except.ok.inj same
        exact self

/-- An index is answered once the type that it is over was. -/
theorem answered_over (acyclic : Acyclic vertices)
    (closed : ∀ id b, watched id → baseOf vertices id = some b → watched b) {id b : SchemaId}
    {v : SchemaVertex} (found : vertexOf vertices id = some v) (index : v.kind = .relationIndex)
    (linked : indexedId v = .ok b) {r : Registry} (absent : ∀ x ∈ r.types, x.1 ≠ id)
    {question : Lookup TypeObject}
    (below : Answered watched vertices b r (question.ask r).1 (question.ask r).2) :
    Answered watched vertices id r
      ((question >>= fun base => keepMade id (RelationType.indexOfVertex v base.type)).ask r).1
      ((question >>= fun base => keepMade id (RelationType.indexOfVertex v base.type)).ask r).2 := by
  obtain ⟨-, number⟩ := vertexOf_spec found
  have base := baseOf_eq_some_iff.mpr ⟨v, found, index, linked⟩
  have equation : typeOf vertices id =
      (typeOf vertices b >>= fun base => RelationType.indexOfVertex v base) := by
    rw [typeOf_eq acyclic, found]
    simp only [index, if_true, linked]
    rfl
  rw [Lookup.ask_bind]
  rcases asked : question.ask r with ⟨answer, after⟩
  rw [asked] at below
  have added : ∀ x ∈ after.types, x ∈ r.types ∨ Over vertices id x.1 := by
    intro x member
    rcases below.added x member with old | same | above
    · exact .inl old
    · exact .inr (same ▸ .link base)
    · exact .inr (.far base above)
  cases answer with
  | error fault =>
      refine ⟨below.schema, below.kept, fun x member => (added x member).imp_right .inr,
        fun o never => (by cases never), fun watch => ?_⟩
      rw [equation, ← below.fresh (closed id b watch base)]
      rfl
  | ok o =>
      have absent' : ∀ x ∈ after.types, x.1 ≠ id := by
        intro x member same
        rcases added x member with old | above
        · exact absent x old same
        · exact acyclic id (same ▸ above)
      refine answered_keepMade below.schema below.kept added absent' ?_ fun watch => ?_
      · intro t made
        obtain ⟨self, above⟩ := ids_of_indexOfVertex made
        exact ⟨self.trans number, by rw [above, below.own o rfl, base]⟩
      · rw [equation, ← below.fresh (closed id b watch base)]
        rfl

/-- The question leads to the type that a schema without anything kept has, where the
number and all under it are watched. -/
theorem answered_deriveType (acyclic : Acyclic vertices)
    (closed : ∀ id b, watched id → baseOf vertices id = some b → watched b) {depth : Nat}
    {id : SchemaId} {r : Registry} (schema : r.vertices = vertices)
    (kept : Kept watched vertices r.types)
    (enough : (under vertices id).length < depth ∨ vertexOf vertices id = none) :
    Answered watched vertices id r ((deriveType depth id).ask r).1
      ((deriveType depth id).ask r).2 := by
  induction depth generalizing id r with
  | zero =>
      obtain none | absent := enough
      · exact absurd none (Nat.not_lt_zero _)
      · exact answered_missing schema kept acyclic absent
  | succ depth ih =>
      rw [deriveType, Lookup.ask_bind, Lookup.ask_get]
      simp only
      cases looked : r.types.lookup id with
      | some o => exact answered_kept schema kept looked
      | none =>
          have absent := not_mem_of_lookup looked
          have here : r.vertex? id = vertexOf vertices id := by rw [← schema]; rfl
          rw [here]
          cases found : vertexOf vertices id with
          | none => exact answered_missing schema kept acyclic found
          | some v =>
              obtain ⟨-, number⟩ := vertexOf_spec found
              by_cases index : v.kind = .relationIndex
              · simp only [index, if_true]
                cases linked : indexedId v with
                | error fault =>
                    refine answered_unchanged schema kept (fun o never => by cases never) fun _ => ?_
                    rw [typeOf_eq acyclic, found]
                    simp only [index, if_true, linked]
                    rfl
                | ok b =>
                    have base := baseOf_eq_some_iff.mpr ⟨v, found, index, linked⟩
                    have enough' : (under vertices b).length < depth ∨
                        vertexOf vertices b = none := by
                      cases there : vertexOf vertices b with
                      | none => exact .inr rfl
                      | some w =>
                          have less := length_under_lt acyclic base there
                          have room := enough.resolve_right (by rw [found]; exact nofun)
                          exact .inl (by omega)
                    exact answered_over acyclic closed found index linked absent
                      (ih schema kept enough')
              · simp only [index, if_false]
                refine answered_keepMade schema kept (fun x member => .inl member) absent ?_ fun _ => ?_
                · intro t made
                  obtain ⟨self, none⟩ := ids_of_ofVertex made
                  refine ⟨self.trans number, none.trans ?_⟩
                  simp only [baseOf, found, index, if_false]
                · rw [typeOf_eq acyclic, found]
                  simp only [index, if_false]

/-- The relation type that a registry answers. -/
def answer (r : Registry) (id : SchemaId) : Outcome RelationType := ((relationType id).ask r).1

/-- A registry of the same schema vertices that keeps nothing. -/
def bare (r : Registry) : Registry := { empty with vertices := r.vertices }

theorem ask_typeObject (id : SchemaId) (r : Registry) :
    (typeObject id).ask r = (deriveType (r.vertices.length + 1) id).ask r := rfl

theorem answer_eq_map (r : Registry) (id : SchemaId) :
    r.answer id = ((typeObject id).ask r).1.map TypeObject.type := by
  rw [answer, relationType, Lookup.ask_bind]
  rcases (typeObject id).ask r with ⟨_ | _, _⟩ <;> rfl

theorem answered_typeObject {r : Registry} (acyclic : Acyclic r.vertices)
    (closed : ∀ id b, watched id → baseOf r.vertices id = some b → watched b) (id : SchemaId)
    (kept : Kept watched r.vertices r.types) :
    Answered watched r.vertices id r ((typeObject id).ask r).1 ((typeObject id).ask r).2 := by
  rw [ask_typeObject]
  exact answered_deriveType acyclic closed rfl kept (.inl (Nat.lt_succ_of_le (length_under_le id)))

/-- The answer for a watched number is the type that it has in the schema. -/
theorem answer_of_watched {r : Registry} (acyclic : Acyclic r.vertices)
    (closed : ∀ id b, watched id → baseOf r.vertices id = some b → watched b) {id : SchemaId}
    (kept : Kept watched r.vertices r.types) (watch : watched id) :
    r.answer id = typeOf r.vertices id := by
  rw [answer_eq_map]
  exact (answered_typeObject acyclic closed id kept).fresh watch

theorem answer_bare {r : Registry} (acyclic : Acyclic r.vertices) (id : SchemaId) :
    r.bare.answer id = typeOf r.vertices id := by
  have nothing : Kept (fun _ => True) r.vertices r.bare.types := kept_nil
  exact answer_of_watched (r := r.bare) acyclic (fun _ _ _ _ => trivial) nothing trivial

/-- What is kept is answered as it is. -/
theorem answer_of_lookup {r : Registry} {id : SchemaId} {o : TypeObject}
    (found : r.types.lookup id = some o) : r.answer id = .ok o.type := by
  rw [answer_eq_map, ask_typeObject, deriveType, Lookup.ask_bind, Lookup.ask_get]
  simp only [found]
  rfl

/-! ## Questions -/

/-- Asking leads from a registry that satisfies a condition to another one. -/
def Leaves {α : Type} (condition : Registry → Prop) (question : Lookup α) : Prop :=
  ∀ r, condition r → condition (question.ask r).2

section Leaves

variable {α β : Type} {condition : Registry → Prop}

theorem Leaves.bind {question : Lookup α} {next : α → Lookup β}
    (first : Leaves condition question) (then_ : ∀ a, Leaves condition (next a)) :
    Leaves condition (question >>= next) := by
  intro r holds
  have between := first r holds
  rw [Lookup.ask_bind]
  rcases asked : question.ask r with ⟨_ | a, after⟩
  · rwa [asked] at between
  · rw [asked] at between
    exact then_ a after between

theorem leaves_get : Leaves condition (get : Lookup Registry) := fun _ holds => holds

theorem Leaves.mapM {question : α → Lookup β} (each : ∀ a, Leaves condition (question a))
    (l : List α) : Leaves condition (l.mapM question) := by
  induction l with
  | nil =>
      rw [List.mapM_nil]
      exact fun _ holds => holds
  | cons a rest ih =>
      rw [List.mapM_cons]
      exact (each a).bind fun _ => ih.bind fun _ _ holds => holds

variable (each : ∀ id, Leaves condition (typeObject id))

include each

theorem leaves_relationType (id : SchemaId) : Leaves condition (relationType id) :=
  (each id).bind fun _ _ holds => holds

theorem leaves_typeNamed (name : String) : Leaves condition (typeNamed name) := by
  refine leaves_get.bind fun r => ?_
  cases r.named? name with
  | none => exact fun _ holds => holds
  | some v =>
      simp only
      split
      · exact (leaves_relationType each v.id).bind fun _ _ holds => holds
      · exact fun _ holds => holds

theorem leaves_withIndexes (t : RelationType) : Leaves condition (withIndexes t) := by
  refine Leaves.bind (leaves_get.bind fun r => ?_) fun _ _ holds => holds
  cases r.vertex? t.id with
  | none => exact fun _ holds => holds
  | some v =>
      exact (each t.id).bind fun _ =>
        (Leaves.mapM (fun e : SchemaEdge => each e.other) _).bind fun _ _ holds => holds

end Leaves

end Registry

end PropertyGraph
