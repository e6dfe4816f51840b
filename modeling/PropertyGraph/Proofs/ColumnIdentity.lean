/-
# Proofs.ColumnIdentity -- which relations share a column

A relation that is written into the column of another one replaces it.  The schema says
when that is to happen: the multiplicity of a type leaves some ids open
(`RelationType.extendedSortKey`), relations that agree in these and in their sort values
are one and the same place of a vertex, and a property of a set keeps each value once
(`Relation.Replaces`).

`writeTarget` decides where the ids go by itself, from kind, cardinality, multiplicity and
direction.  `tail_eq_iff` says that it puts into the column just what the extended sort key
and the cardinality ask for; together with the order of the sort values and the heads of
columns this gives `shared_iff`, for relations of any two types of a schema.
-/
import PropertyGraph.Proofs.TypeSlices
import PropertyGraph.Proofs.ValueTuples

namespace PropertyGraph

set_option autoImplicit false

open Bytes

/-- By its type a relation is in the place of another one: in the same direction, under the
same sort values, with the ids that the multiplicity leaves open, and with the value of a
property of a set. -/
structure Relation.Replaces (t : RelationType) (r r' : Relation) : Prop where
  direction : r.direction = r'.direction
  sortValues : r.sortValues = r'.sortValues
  adjacent : .adjacent ∈ t.extendedSortKey r.direction → r.target = r'.target
  relation : .relation ∈ t.extendedSortKey r.direction → r.id = r'.id
  value : t.cardinality = some .set → r.target = r'.target

theorem RelationType.adjacent_mem_iff (t : RelationType) (d : Direction) :
    .adjacent ∈ t.extendedSortKey d ↔ t.multiplicity.isUnique d = false ∧ t.isLabel = true := by
  rw [extendedSortKey]
  cases t.multiplicity.isUnique d <;> simp

theorem RelationType.relation_mem_iff (t : RelationType) (d : Direction) :
    .relation ∈ t.extendedSortKey d ↔
      t.multiplicity.isUnique d = false ∧ t.multiplicity.isConstrained = false := by
  rw [extendedSortKey]
  cases t.multiplicity.isUnique d <;> simp

namespace Column

variable {types : TypeCatalog Outcome}

theorem ofWord_inj {a b : UInt64} : Ordered.ofWord a = Ordered.ofWord b ↔ a = b := by
  have parts := (Ordered.stands_ofWord a b).append_eq_append_iff [] []
  rw [List.append_nil, List.append_nil, Std.LawfulEqOrd.compare_eq_iff_eq] at parts
  exact parts.trans (and_iff_left rfl)

theorem ofWord_append_inj {a b : UInt64} {s t : Bytes} :
    Ordered.ofWord a ++ s = Ordered.ofWord b ++ t ↔ a = b ∧ s = t := by
  rw [(Ordered.stands_ofWord a b).append_eq_append_iff, Std.LawfulEqOrd.compare_eq_iff_eq]

/-- The ends of the columns of edges. -/
theorem edge_tail_eq_iff {t : RelationType} {r r' : Relation} {adjacent adjacent' : UInt64}
    {tail tail' value value' : Bytes} (kind : t.kind = .edge) (target : r.target = .vertex adjacent)
    (target' : r'.target = .vertex adjacent') (direction : r.direction = r'.direction)
    (written : writeTarget t r = .ok (tail, value))
    (written' : writeTarget t r' = .ok (tail', value')) :
    tail = tail' ↔
      (.adjacent ∈ t.extendedSortKey r.direction → r.target = r'.target) ∧
      (.relation ∈ t.extendedSortKey r.direction → r.id = r'.id) := by
  have label : t.isLabel = true := by
    rw [RelationType.isLabel, RelationType.isKey, kind]
    rfl
  simp only [writeTarget, target, target', kind, ← direction] at written written'
  obtain ⟨rfl, -⟩ := Prod.mk.inj (Except.ok.inj written)
  obtain ⟨rfl, -⟩ := Prod.mk.inj (Except.ok.inj written')
  rw [RelationType.adjacent_mem_iff, RelationType.relation_mem_iff, target, target',
    RelationTarget.vertex.injEq]
  cases unique : t.multiplicity.isUnique r.direction with
  | true => simp [isConstrained_of_isUnique unique]
  | false =>
      cases constrained : t.multiplicity.isConstrained with
      | true => simp [label, ofWord_inj]
      | false => simp [label, ofWord_inj, ofWord_append_inj]

/-- The ends of the columns of properties. -/
theorem property_tail_eq_iff {t : RelationType} {r r' : Relation} {d : DataType} {c : Cardinality}
    {v v' : Value} {tail tail' value value' : Bytes} (kind : t.kind = .property d c)
    (multiplicity : t.multiplicity = .ofCardinality c) (leaves : r.direction = .out)
    (target : r.target = .value v) (target' : r'.target = .value v')
    (written : writeTarget t r = .ok (tail, value))
    (written' : writeTarget t r' = .ok (tail', value')) :
    tail = tail' ↔
      (.relation ∈ t.extendedSortKey r.direction → r.id = r'.id) ∧
      (t.cardinality = some .set → r.target = r'.target) := by
  simp only [writeTarget, target, target', kind, Outcome.bind_eq_ok_iff] at written written'
  obtain ⟨b, valued, done⟩ := written
  obtain ⟨b', valued', done'⟩ := written'
  rw [RelationType.relation_mem_iff, multiplicity, leaves, RelationType.cardinality, kind, target,
    target', RelationTarget.value.injEq]
  cases c with
  | single =>
      obtain ⟨rfl, -⟩ := Prod.mk.inj (Except.ok.inj done)
      obtain ⟨rfl, -⟩ := Prod.mk.inj (Except.ok.inj done')
      exact iff_of_true rfl ⟨fun never => absurd never (by decide), fun never => by cases never⟩
  | set =>
      obtain ⟨rfl, -⟩ := Prod.mk.inj (Except.ok.inj done)
      obtain ⟨rfl, -⟩ := Prod.mk.inj (Except.ok.inj done')
      rw [StoredValue.write_inj valued valued']
      exact ⟨fun same => ⟨fun never => absurd never (by decide), fun _ => same⟩,
        fun both => both.2 rfl⟩
  | list =>
      obtain ⟨rfl, -⟩ := Prod.mk.inj (Except.ok.inj done)
      obtain ⟨rfl, -⟩ := Prod.mk.inj (Except.ok.inj done')
      rw [ofWord_inj]
      exact ⟨fun same => ⟨fun _ => same, fun never => by cases never⟩,
        fun both => both.1 (by decide)⟩

/-- The ends of columns tell apart what the extended sort key has behind the sort key, and
the values of a set. -/
theorem tail_eq_iff {t : RelationType} {r r' : Relation} {tail tail' value value' : Bytes}
    (wellFormed : t.WellFormed types) (stored : t.isStoredIn r.direction = true)
    (direction : r.direction = r'.direction) (written : writeTarget t r = .ok (tail, value))
    (written' : writeTarget t r' = .ok (tail', value')) :
    tail = tail' ↔
      (.adjacent ∈ t.extendedSortKey r.direction → r.target = r'.target) ∧
      (.relation ∈ t.extendedSortKey r.direction → r.id = r'.id) ∧
      (t.cardinality = some .set → r.target = r'.target) := by
  cases kind : t.kind with
  | edge =>
      obtain ⟨adjacent, target⟩ := exists_vertex_of_write kind written
      obtain ⟨adjacent', target'⟩ := exists_vertex_of_write kind written'
      have noSet : t.cardinality ≠ some .set := by
        rw [RelationType.cardinality, kind]
        exact fun never => by cases never
      rw [edge_tail_eq_iff kind target target' direction written written']
      simp only [noSet, false_implies, and_true]
  | property d c =>
      obtain ⟨v, target⟩ := exists_value_of_write kind written
      obtain ⟨v', target'⟩ := exists_value_of_write kind written'
      have noOther : .adjacent ∉ t.extendedSortKey r.direction := by
        rw [RelationType.adjacent_mem_iff, RelationType.isLabel, RelationType.isKey, kind]
        exact fun never => absurd never.2 Bool.false_ne_true
      rw [property_tail_eq_iff kind (wellFormed.cardinality d c kind)
        (RelationType.eq_out_of_isStoredIn kind stored) target target' written written']
      simp only [noOther, false_implies, true_and]

/-- The sort values of columns tell apart just as they are. -/
theorem sorted_append_eq_iff {t : RelationType} {r r' : Relation} {sorted sorted' : Bytes}
    (wellFormed : t.WellFormed types) (arity : r.sortValues.length = t.sortKey.length)
    (arity' : r'.sortValues.length = t.sortKey.length)
    (written : writeSorted types (t.sortKey.zip r.sortValues) = .ok sorted)
    (written' : writeSorted types (t.sortKey.zip r'.sortValues) = .ok sorted')
    (tail tail' : Bytes) :
    oriented t.sortOrder sorted ++ tail = oriented t.sortOrder sorted' ++ tail' ↔
      r.sortValues = r'.sortValues ∧ tail = tail' := by
  obtain ⟨expected, typed⟩ := exists_typed wellFormed.keys
  rw [writeSorted_eq typed] at written written'
  have size := typed.length_eq
  have stands := stands_oriented
    (StoredValue.stands_writeAll (arity.trans size) (arity'.trans size) written written')
    t.sortOrder
  rw [stands.append_eq_append_iff, turned_eq_eq_iff, Std.LawfulEqCmp.compare_eq_iff_eq]

/-- Two relations share a column exactly if one of them replaces the other by what the schema
says: they are of one type and in one direction, have the same sort values, the same
vertices and ids as far as the extended sort key of the direction has them, and the same
value if they are properties of a set. -/
theorem shared_iff {t t' : RelationType} {r r' : Relation} {e e' : Entry}
    (wellFormed : t.WellFormed types) (listed : types.byId t'.id = .ok t')
    (written : write types t r = .ok e) (written' : write types t' r' = .ok e') :
    e.column = e'.column ↔ t = t' ∧ r.Replaces t r' := by
  obtain ⟨start, sorted, tail, parts⟩ := parts_of_write written
  obtain ⟨start', sorted', tail', parts'⟩ := parts_of_write written'
  -- Whatever the two types are, one column cannot have two heads.
  have ofHead : e.column = e'.column → t' = t ∧ r'.direction = r.direction := by
    intro same
    rw [← head_prefix_iff parts.proper parts'.proper parts.stored parts'.stored
      (TypeSlice.eq_of_listed wellFormed.listed listed) parts.begun parts'.begun, ← parts'.column,
      ← same, parts.column]
    exact List.prefix_append _ _
  have ofType : t = t' → r.direction = r'.direction →
      (e.column = e'.column ↔ r.sortValues = r'.sortValues ∧ tail = tail') := by
    rintro rfl direction
    obtain rfl := Except.ok.inj (parts.begun.symm.trans (direction ▸ parts'.begun))
    rw [parts.column, parts'.column, List.append_cancel_left_eq,
      sorted_append_eq_iff wellFormed parts.arity parts'.arity parts.values parts'.values]
  constructor
  · intro same
    obtain ⟨rfl, direction⟩ := ofHead same
    obtain ⟨sortValues, ends⟩ := (ofType rfl direction.symm).mp same
    obtain ⟨adjacent, relation, value⟩ :=
      (tail_eq_iff wellFormed parts.stored direction.symm parts.ended parts'.ended).mp ends
    exact ⟨rfl, direction.symm, sortValues, adjacent, relation, value⟩
  · rintro ⟨rfl, replaces⟩
    rw [ofType rfl replaces.direction,
      tail_eq_iff wellFormed parts.stored replaces.direction parts.ended parts'.ended]
    exact ⟨replaces.sortValues, replaces.adjacent, replaces.relation, replaces.value⟩

theorem wellFormed_reviews : reviews.WellFormed reviewTypes where
  listed := rfl
  keys key member := by
    obtain rfl | member := List.mem_cons.mp member
    · exact ⟨.text, rfl⟩
    · obtain rfl := List.mem_singleton.mp member
      exact ⟨.double, rfl⟩
  distinct := by decide
  cardinality d c kind := by cases kind

/-- A vertex reviews another one once, so that a second review under the same sort values
replaces the first one. -/
theorem second_review_shared :
    ∃ e e', write reviewTypes reviews review = .ok e ∧
      write reviewTypes reviews { review with id := 8 } = .ok e' ∧ e.column = e'.column ∧
      e.value ≠ e'.value := by
  have written : ∀ id, ∃ e, write reviewTypes reviews { review with id } = .ok e ∧
      e.value = Ordered.ofWord id := fun id => ⟨_, rfl, rfl⟩
  obtain ⟨e, first, value⟩ := written 7
  obtain ⟨e', second, value'⟩ := written 8
  have shared := shared_iff wellFormed_reviews rfl first second
  refine ⟨e, e', first, second, shared.mpr ⟨rfl, rfl, rfl, fun _ => rfl, ?_, fun _ => rfl⟩, ?_⟩
  · exact fun never => absurd never (by decide)
  · rw [value, value']
    decide

end Column

end PropertyGraph
