/-
# Proofs.DerivedTypes -- relation types without a registry

A relation index takes its kind, its multiplicity and maybe its direction from the type
that it is over, which may be an index itself.  `Schema.typeOf` follows these links
through the schema vertices alone, with nothing kept on the way; where the links form no
cycle (`Schema.Acyclic`) it is a solution of its own equation (`typeOf_eq`), so the bound
on the number of links does not matter.

`typeOf_of_grows` says which changes of a schema leave a type as it is: other vertices
may change at will, and those under it may gain edges.
-/
import PropertyGraph.Schema.Registry

namespace PropertyGraph

set_option autoImplicit false

namespace Schema

open Registry (indexedId)

variable (vertices : List SchemaVertex)

/-- The vertex of a number. -/
def vertexOf (id : SchemaId) : Option SchemaVertex := Sorted.find? SchemaVertex.id id vertices

/-- What a relation index is over. -/
def baseOf (id : SchemaId) : Option SchemaId :=
  match vertexOf vertices id with
  | some v => if v.kind = .relationIndex then (indexedId v).toOption else none
  | none => none

/-- One link or more lead from an index down to a type. -/
inductive Over : SchemaId → SchemaId → Prop
  | link {id b : SchemaId} (base : baseOf vertices id = some b) : Over id b
  | far {id b a : SchemaId} (base : baseOf vertices id = some b) (rest : Over b a) : Over id a

/-- No relation index is over itself. -/
def Acyclic : Prop := ∀ id, ¬ Over vertices id id

/-- The relation type of a number, through fewer links than this. -/
def derived : Nat → SchemaId → Outcome RelationType
  | 0, _ => .error (.notFound .relationType)
  | depth + 1, id =>
      match vertexOf vertices id with
      | none => .error (.notFound .relationType)
      | some v =>
          if v.kind = .relationIndex then do
            let base ← derived depth (← indexedId v)
            RelationType.indexOfVertex v base
          else RelationType.ofVertex v

/-- The relation type of a number. -/
def typeOf (id : SchemaId) : Outcome RelationType := derived vertices (vertices.length + 1) id

variable {vertices}

theorem vertexOf_spec {id : SchemaId} {v : SchemaVertex} (found : vertexOf vertices id = some v) :
    v ∈ vertices ∧ v.id = id := by
  obtain ⟨member, same⟩ := Sorted.mem_of_find? found
  exact ⟨member, (Std.LawfulEqOrd.eq_of_compare same).symm⟩

theorem baseOf_eq_some_iff {id b : SchemaId} :
    baseOf vertices id = some b ↔
      ∃ v, vertexOf vertices id = some v ∧ v.kind = .relationIndex ∧ indexedId v = .ok b := by
  unfold baseOf
  cases found : vertexOf vertices id with
  | none => simp
  | some v =>
      by_cases index : v.kind = .relationIndex
      · cases linked : indexedId v <;> simp [index, linked, Except.toOption]
      · simp [index]

/-- Numbers that fall along every link rule cycles out. -/
theorem acyclic_of_rank (rank : SchemaId → Nat)
    (falls : ∀ v ∈ vertices, v.kind = .relationIndex → ∀ b, indexedId v = .ok b →
      rank b < rank v.id) : Acyclic vertices := by
  have down : ∀ {id a}, Over vertices id a → rank a < rank id := by
    intro id a above
    induction above with
    | link base =>
        obtain ⟨v, found, index, linked⟩ := baseOf_eq_some_iff.mp base
        obtain ⟨member, rfl⟩ := vertexOf_spec found
        exact falls v member index _ linked
    | far base _ ih =>
        obtain ⟨v, found, index, linked⟩ := baseOf_eq_some_iff.mp base
        obtain ⟨member, rfl⟩ := vertexOf_spec found
        exact Nat.lt_trans ih (falls v member index _ linked)
  intro id above
  exact Nat.lt_irrefl _ (down above)

/-! ## The number of links does not matter -/

open Classical in
/-- The vertices under an index. -/
noncomputable def under (vertices : List SchemaVertex) (id : SchemaId) : List SchemaVertex :=
  vertices.filter fun v => Over vertices id v.id

theorem length_under_le (id : SchemaId) : (under vertices id).length ≤ vertices.length :=
  List.length_filter_le ..

/-- Fewer vertices are under the base than under the index. -/
theorem length_under_lt (acyclic : Acyclic vertices) {id b : SchemaId} {v : SchemaVertex}
    (base : baseOf vertices id = some b) (found : vertexOf vertices b = some v) :
    (under vertices b).length < (under vertices id).length := by
  classical
  have among : under vertices b = (under vertices id).filter fun v => Over vertices b v.id := by
    unfold under
    rw [List.filter_filter]
    refine List.filter_congr fun w _ => ?_
    by_cases above : Over vertices b w.id
    · simp [above, Over.far base above]
    · simp [above]
  obtain ⟨member, rfl⟩ := vertexOf_spec found
  rw [among, List.length_filter_lt_length_iff_exists]
  refine ⟨v, List.mem_filter.mpr ⟨member, ?_⟩, ?_⟩
  · exact decide_eq_true (Over.link base)
  · simpa using acyclic v.id

theorem derived_of_missing {id : SchemaId} (missing : vertexOf vertices id = none) (depth : Nat) :
    derived vertices depth id = .error (.notFound .relationType) := by
  cases depth with
  | zero => rfl
  | succ depth => rw [derived, missing]

/-- Any two bounds that leave room for the vertices under an index give one answer. -/
theorem derived_eq_derived (acyclic : Acyclic vertices) {depth depth' : Nat} {id : SchemaId}
    (enough : (under vertices id).length < depth) (enough' : (under vertices id).length < depth') :
    derived vertices depth id = derived vertices depth' id := by
  induction depth generalizing depth' id with
  | zero => exact absurd enough (Nat.not_lt_zero _)
  | succ depth ih =>
      obtain _ | depth' := depth'
      · exact absurd enough' (Nat.not_lt_zero _)
      · simp only [derived]
        cases found : vertexOf vertices id with
        | none => rfl
        | some v =>
            by_cases index : v.kind = .relationIndex
            · simp only [index, if_true]
              cases linked : indexedId v with
              | error fault => rfl
              | ok b =>
                  have base := baseOf_eq_some_iff.mpr ⟨v, found, index, linked⟩
                  have same : derived vertices depth b = derived vertices depth' b := by
                    cases there : vertexOf vertices b with
                    | none => rw [derived_of_missing there, derived_of_missing there]
                    | some w =>
                        have less := length_under_lt acyclic base there
                        exact ih (by omega) (by omega)
                  show (do
                    let base ← derived vertices depth b
                    RelationType.indexOfVertex v base) = _
                  rw [same]
                  rfl
            · simp only [index, if_false]

theorem derived_eq_typeOf (acyclic : Acyclic vertices) {depth : Nat} {id : SchemaId}
    (enough : (under vertices id).length < depth) :
    derived vertices depth id = typeOf vertices id :=
  derived_eq_derived acyclic enough (Nat.lt_succ_of_le (length_under_le id))

theorem derived_of_index {id b : SchemaId} {v : SchemaVertex} (depth : Nat)
    (found : vertexOf vertices id = some v) (index : v.kind = .relationIndex)
    (linked : indexedId v = .ok b) :
    derived vertices (depth + 1) id =
      (derived vertices depth b >>= fun base => RelationType.indexOfVertex v base) := by
  simp only [derived, found, index, if_true, linked]
  rfl

/-- What a type is when the schema is free of cycles. -/
theorem typeOf_eq (acyclic : Acyclic vertices) (id : SchemaId) :
    typeOf vertices id =
      match vertexOf vertices id with
      | none => .error (.notFound .relationType)
      | some v =>
          if v.kind = .relationIndex then do
            let base ← typeOf vertices (← indexedId v)
            RelationType.indexOfVertex v base
          else RelationType.ofVertex v := by
  have room : (under vertices id).length < vertices.length + 1 :=
    Nat.lt_succ_of_le (length_under_le id)
  have more : (under vertices id).length < vertices.length + 2 := Nat.lt_succ_of_lt room
  rw [typeOf, derived_eq_derived acyclic room more, derived]
  rfl

theorem ids_of_ofVertex {v : SchemaVertex} {t : RelationType}
    (made : RelationType.ofVertex v = .ok t) : t.id = v.id ∧ t.base = none := by
  unfold RelationType.ofVertex at made
  cases kind : v.kind <;>
    (simp only [kind, Outcome.bind_eq_ok_iff] at made
     obtain ⟨_, -, made⟩ := made
     split at made
     · cases made
     · simp only [Outcome.bind_eq_ok_iff] at made
       obtain ⟨_, -, _, -, made⟩ := made
       obtain rfl := Except.ok.inj made
       exact ⟨rfl, rfl⟩)

theorem ids_of_indexOfVertex {v : SchemaVertex} {base t : RelationType}
    (made : RelationType.indexOfVertex v base = .ok t) : t.id = v.id ∧ t.base = some base.id := by
  unfold RelationType.indexOfVertex at made
  simp only at made
  split at made
  · cases made
  · simp only [Outcome.bind_eq_ok_iff] at made
    obtain ⟨_, -, _, -, made⟩ := made
    obtain rfl := Except.ok.inj made
    exact ⟨rfl, rfl⟩

theorem derived_succ_of_ok {depth : Nat} {id : SchemaId} {t : RelationType}
    (made : derived vertices depth id = .ok t) : derived vertices (depth + 1) id = .ok t := by
  induction depth generalizing id t with
  | zero => cases made
  | succ depth ih =>
      rw [derived] at made ⊢
      cases found : vertexOf vertices id with
      | none =>
          rw [found] at made
          cases made
      | some v =>
          simp only [found] at made ⊢
          split at made
          · rename_i index
            simp only [index, if_true, Outcome.bind_eq_ok_iff] at made ⊢
            obtain ⟨b, linked, base, below, made⟩ := made
            exact ⟨b, linked, base, ih below, made⟩
          · rename_i plain
            simpa only [plain, if_false] using made

/-- A type that is reached at all is the type of its number. -/
theorem typeOf_of_derived (acyclic : Acyclic vertices) {depth : Nat} {id : SchemaId}
    {t : RelationType} (made : derived vertices depth id = .ok t) :
    typeOf vertices id = .ok t := by
  have deeper : ∀ more, derived vertices (depth + more) id = .ok t := by
    intro more
    induction more with
    | zero => exact made
    | succ more ih => exact derived_succ_of_ok ih
  have enough : (under vertices id).length < depth + (vertices.length + 1) := by
    have atMost : (under vertices id).length ≤ vertices.length := length_under_le id
    omega
  rw [← derived_eq_typeOf acyclic enough]
  exact deeper _

/-! ## Changes of a schema -/

/-- The same vertex with maybe more edges behind those it had. -/
def Grows (v w : SchemaVertex) : Prop := ∃ more, w = { v with edges := v.edges ++ more }

theorem Grows.refl (v : SchemaVertex) : Grows v v :=
  ⟨[], by rw [List.append_nil]⟩

theorem Grows.addEdge (v : SchemaVertex) (e : SchemaEdge) : Grows v (v.addEdge e) := ⟨[e], rfl⟩

theorem Grows.trans {u v w : SchemaVertex} (first : Grows u v) (second : Grows v w) :
    Grows u w := by
  obtain ⟨more, rfl⟩ := first
  obtain ⟨further, rfl⟩ := second
  exact ⟨more ++ further, by rw [List.append_assoc]⟩

/-- An index stays over what its first link leads to. -/
theorem Grows.indexedId {v w : SchemaVertex} (grows : Grows v w) {b : SchemaId}
    (linked : indexedId v = .ok b) : Registry.indexedId w = .ok b := by
  obtain ⟨more, rfl⟩ := grows
  unfold Registry.indexedId SchemaVertex.related at linked ⊢
  simp only [List.filter_append]
  split at linked
  · rename_i e first
    obtain rfl := Except.ok.inj linked
    rw [List.head?_append, first]
    rfl
  · cases linked

variable {vertices' : List SchemaVertex}

/-- Every vertex of a schema grows in another one. -/
def GrowsAt (vertices vertices' : List SchemaVertex) (id : SchemaId) : Prop :=
  ∀ v, vertexOf vertices id = some v → ∃ w, vertexOf vertices' id = some w ∧ Grows v w

theorem baseOf_of_growsAt {id b : SchemaId} (grows : GrowsAt vertices vertices' id)
    (base : baseOf vertices id = some b) : baseOf vertices' id = some b := by
  obtain ⟨v, found, index, linked⟩ := baseOf_eq_some_iff.mp base
  obtain ⟨w, found', grown⟩ := grows v found
  refine baseOf_eq_some_iff.mpr ⟨w, found', ?_, grown.indexedId linked⟩
  obtain ⟨more, rfl⟩ := grown
  exact index

/-- A type stays what it is when its vertex and those under it at most gain edges. -/
theorem derived_of_grows {depth : Nat} {id : SchemaId} {t : RelationType}
    (grows : ∀ x, x = id ∨ Over vertices id x → GrowsAt vertices vertices' x)
    (made : derived vertices depth id = .ok t) : derived vertices' depth id = .ok t := by
  induction depth generalizing id t with
  | zero => cases made
  | succ depth ih =>
      cases found : vertexOf vertices id with
      | none =>
          rw [derived_of_missing found] at made
          cases made
      | some v =>
          obtain ⟨w, found', grown⟩ := grows id (.inl rfl) v found
          by_cases index : v.kind = .relationIndex
          · cases linked : indexedId v with
            | error fault =>
                simp only [derived, found, index, if_true, linked] at made
                cases made
            | ok b =>
                have base := baseOf_eq_some_iff.mpr ⟨v, found, index, linked⟩
                have below : ∀ x, x = b ∨ Over vertices b x → GrowsAt vertices vertices' x := by
                  rintro x (rfl | above)
                  · exact grows x (.inr (.link base))
                  · exact grows x (.inr (.far base above))
                have linked' := grown.indexedId linked
                obtain ⟨more, rfl⟩ := grown
                rw [derived_of_index depth found index linked, Outcome.bind_eq_ok_iff] at made
                rw [derived_of_index depth found' index linked', Outcome.bind_eq_ok_iff]
                obtain ⟨base, made', made⟩ := made
                exact ⟨base, ih below made', made⟩
          · obtain ⟨more, rfl⟩ := grown
            simp only [derived, found, found', index, if_false] at made ⊢
            exact made

theorem typeOf_of_grows (acyclic : Acyclic vertices') {id : SchemaId} {t : RelationType}
    (grows : ∀ x, x = id ∨ Over vertices id x → GrowsAt vertices vertices' x)
    (made : typeOf vertices id = .ok t) : typeOf vertices' id = .ok t :=
  typeOf_of_derived acyclic (derived_of_grows grows made)

end Schema

end PropertyGraph
