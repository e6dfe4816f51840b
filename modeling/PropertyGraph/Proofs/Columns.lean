/-
# Proofs.Columns -- what the column of a relation is made of

Behind the bytes that name the type and the direction, a column spells out the
components of the extended sort key one after the other (`Spells`): keys the way
round that the type is sorted, ids plain.  `Parts.spells` says so of every column
that is written for a well-formed type, and `head_prefix_iff` that the columns of
different types or directions part within their heads.
-/
import PropertyGraph.Proofs.Lookups
import PropertyGraph.Proofs.OrderedForms

namespace PropertyGraph

set_option autoImplicit false

open Bytes

/-- A relation type as a sound schema has it: it is found by its number, it is sorted
by property keys, each once, and a key's multiplicity is that of its cardinality. -/
structure RelationType.WellFormed (types : TypeCatalog Outcome) (t : RelationType) : Prop where
  listed : types.byId t.id = .ok t
  keys : ∀ key ∈ t.sortKey, ∃ d, types.componentType (.key key) = .ok (some d)
  distinct : t.sortKey.Nodup
  cardinality : ∀ d c, t.kind = .property d c → t.multiplicity = .ofCardinality c

/-- Properties leave their vertex. -/
theorem RelationType.eq_out_of_isStoredIn {t : RelationType} {dataType : DataType}
    {c : Cardinality} (kind : t.kind = .property dataType c) {d : Direction}
    (stored : t.isStoredIn d = true) : d = .out := by
  have key : t.isKey = true := by rw [isKey, kind]
  rw [isStoredIn, unidirected, if_pos key] at stored
  exact (beq_iff_eq.mp stored).symm

/-- The value that a relation of a type has for a component. -/
def Relation.component (t : RelationType) (r : Relation) : SortComponent → Option Value
  | .key id => (t.sortKey.zip r.sortValues).lookup id
  | .adjacent =>
      match r.target with
      | .vertex v => some (.id v)
      | .value _ => none
  | .relation => some (.id r.id)

/-- Only keys that a type is sorted by have values in its relations. -/
theorem Relation.mem_sortKey_of_component {t : RelationType} {r : Relation} {key : SchemaId}
    {v : Value} (has : r.component t (.key key) = some v) : key ∈ t.sortKey :=
  (List.of_mem_zip (mem_of_lookup has)).1

theorem Relation.component_adjacent_iff {t : RelationType} {r : Relation} {v : Value} :
    r.component t .adjacent = some v ↔ ∃ w, r.target = .vertex w ∧ v = .id w := by
  rw [component]
  cases r.target <;> simp [eq_comm]

/-- The way round that a component stands in the columns of a type of this order. -/
def SortComponent.orderIn (order : SortOrder) : SortComponent → SortOrder
  | .key _ => order
  | .adjacent => .asc
  | .relation => .asc

namespace Column

/-- Components with their values, spelled out one after the other. -/
inductive Spells (types : TypeCatalog Outcome) (order : SortOrder) :
    List (SortComponent × Value) → Bytes → Prop
  | nil : Spells types order [] []
  | cons {c : SortComponent} {v : Value} {expected : Option DataType} {b : Bytes}
      {rest : List (SortComponent × Value)} {tail : Bytes}
      (typed : types.componentType c = .ok expected)
      (written : StoredValue.write v expected = .ok b) (later : Spells types order rest tail) :
      Spells types order ((c, v) :: rest) (oriented (c.orderIn order) b ++ tail)

variable {types : TypeCatalog Outcome}

theorem Spells.append {order : SortOrder} {first second : List (SortComponent × Value)}
    {a b : Bytes} (spelled : Spells types order first a) (next : Spells types order second b) :
    Spells types order (first ++ second) (a ++ b) := by
  induction spelled with
  | nil => exact next
  | cons typed written _ ih =>
      rw [List.cons_append, List.append_assoc]
      exact .cons typed written ih

/-- An id that follows the sort key. -/
theorem spells_id (order : SortOrder) {c : SortComponent} (v : UInt64)
    (implicit : c = .adjacent ∨ c = .relation) :
    Spells types order [(c, .id v)] (Ordered.ofWord v) := by
  have single : Spells types order [(c, .id v)]
      (oriented (c.orderIn order) (Ordered.ofWord v) ++ []) := by
    obtain rfl | rfl := implicit
    · exact .cons rfl rfl .nil
    · exact .cons rfl rfl .nil
  rw [List.append_nil] at single
  obtain rfl | rfl := implicit
  · exact single
  · exact single

/-- The sort values are spelled out under their keys. -/
theorem spells_sorted {order : SortOrder} {values : List (SchemaId × Value)} {b : Bytes}
    (written : writeSorted types values = .ok b) :
    Spells types order (values.map fun p => (.key p.1, p.2)) (oriented order b) := by
  induction values generalizing b with
  | nil =>
      obtain rfl := Except.ok.inj written
      cases order
      · exact .nil
      · exact .nil
  | cons p rest ih =>
      obtain ⟨key, v⟩ := p
      rw [writeSorted] at written
      simp only [Outcome.bind_eq_ok_iff, monadLift_self] at written
      obtain ⟨expected, typed, first, valued, tail, later, done⟩ := written
      obtain rfl := Except.ok.inj done
      rw [oriented_append]
      exact .cons typed valued (ih later)

/-- The byte that a direction is written as. -/
def directionByte (d : Direction) : UInt8 := if d = .out then 0 else 1

/-- A relation type has columns in the directions that it is stored in. -/
theorem head_eq {t : RelationType} {d : Direction} (proper : d.isProper = true)
    (stored : t.isStoredIn d = true) :
    head t d = .ok (categoryByte t :: (Ordered.ofWord t.id ++ [directionByte d])) := by
  cases d with
  | out => simp [head, directionByte]
  | into =>
      cases kind : t.isKey with
      | true => simp [RelationType.isStoredIn, RelationType.unidirected, kind] at stored
      | false => simp [head, kind, directionByte]
  | both => exact absurd proper (by decide)

/-- Words of eight bytes part unless they are the same. -/
theorem ofWord_prefix_iff (a b : UInt64) (s t : Bytes) :
    Ordered.ofWord a ++ s <+: Ordered.ofWord b ++ t ↔ a = b ∧ s <+: t := by
  rw [(Ordered.stands_ofWord a b).prefix_append_iff, Std.LawfulEqOrd.compare_eq_iff_eq]

theorem directionByte_inj {d d' : Direction} (proper : d.isProper = true)
    (proper' : d'.isProper = true) (same : directionByte d = directionByte d') : d = d' := by
  cases d with
  | out =>
      cases d' with
      | out => rfl
      | into => exact absurd same (by decide)
      | both => exact absurd proper' (by decide)
  | into =>
      cases d' with
      | out => exact absurd same (by decide)
      | into => rfl
      | both => exact absurd proper' (by decide)
  | both => exact absurd proper (by decide)

/-- A column starts with the head of a type and a direction only if it is of them. -/
theorem head_prefix_iff {t t' : RelationType} {d d' : Direction} {h h' : Bytes}
    (proper : d.isProper = true) (proper' : d'.isProper = true) (stored : t.isStoredIn d = true)
    (stored' : t'.isStoredIn d' = true) (same : t'.id = t.id → t' = t) (head' : head t d = .ok h)
    (head'' : head t' d' = .ok h') (b : Bytes) :
    h <+: h' ++ b ↔ t' = t ∧ d' = d := by
  rw [head_eq proper stored] at head'
  rw [head_eq proper' stored'] at head''
  obtain rfl := Except.ok.inj head'
  obtain rfl := Except.ok.inj head''
  rw [List.cons_append, List.cons_prefix_cons, List.append_assoc, ofWord_prefix_iff]
  constructor
  · rintro ⟨-, id, byte⟩
    rw [List.singleton_append, List.cons_prefix_cons] at byte
    exact ⟨same id.symm, directionByte_inj proper' proper byte.1.symm⟩
  · rintro ⟨rfl, rfl⟩
    exact ⟨rfl, rfl, List.prefix_append _ _⟩

/-- What the columns of a label start with, whichever way the relations point. -/
theorem label_prefix_iff {t t' : RelationType} {d : Direction} {h : Bytes}
    (label : t.isLabel = true) (proper : d.isProper = true) (stored : t'.isStoredIn d = true)
    (same : t'.id = t.id → t' = t) (head' : head t' d = .ok h) (b : Bytes) :
    edgeByte :: Ordered.ofWord t.id <+: h ++ b ↔ t' = t := by
  have whole : Ordered.ofWord t.id = Ordered.ofWord t.id ++ [] := (List.append_nil _).symm
  rw [head_eq proper stored] at head'
  obtain rfl := Except.ok.inj head'
  rw [whole, List.cons_append, List.cons_prefix_cons, List.append_assoc, ofWord_prefix_iff]
  constructor
  · rintro ⟨-, id, -⟩
    exact same id.symm
  · rintro rfl
    refine ⟨?_, rfl, List.nil_prefix⟩
    unfold RelationType.isLabel at label
    rw [categoryByte, if_neg (by simpa using label)]

theorem isConstrained_of_isUnique {m : Multiplicity} {d : Direction}
    (unique : m.isUnique d = true) : m.isConstrained = true := by
  cases m with
  | multi => cases d <;> exact absurd unique (by decide)
  | _ => rfl

/-- Edges lead to vertices. -/
theorem exists_vertex_of_write {t : RelationType} {r : Relation} {ends : Bytes × Bytes}
    (kind : t.kind = .edge) (written : writeTarget t r = .ok ends) :
    ∃ adjacent, r.target = .vertex adjacent := by
  cases target : r.target with
  | vertex adjacent => exact ⟨adjacent, rfl⟩
  | value v =>
      simp only [writeTarget, target, kind] at written
      cases written

/-- Properties have values. -/
theorem exists_value_of_write {t : RelationType} {r : Relation} {d : DataType} {c : Cardinality}
    {ends : Bytes × Bytes} (kind : t.kind = .property d c) (written : writeTarget t r = .ok ends) :
    ∃ v, r.target = .value v := by
  cases target : r.target with
  | vertex adjacent =>
      simp only [writeTarget, target, kind] at written
      cases written
  | value v => exact ⟨v, rfl⟩

/-- The ids that the multiplicity of a label leaves open stand at the end of the
column. -/
theorem spells_edge {t : RelationType} {r : Relation} {adjacent : UInt64} {tail value : Bytes}
    (order : SortOrder) (target : r.target = .vertex adjacent) (kind : t.kind = .edge)
    (written : writeTarget t r = .ok (tail, value)) :
    ∃ pairs, Spells types order pairs tail ∧
      t.extendedSortKey r.direction = t.sortKey.map .key ++ pairs.map Prod.fst ∧
      ∀ p ∈ pairs, r.component t p.1 = some p.2 := by
  have label : t.isLabel = true := by
    rw [RelationType.isLabel, RelationType.isKey, kind]
    rfl
  have ofAdjacent : r.component t .adjacent = some (.id adjacent) := by
    rw [Relation.component, target]
  have ofRelation : r.component t .relation = some (.id r.id) := rfl
  simp only [writeTarget, target, kind] at written
  obtain ⟨rfl, -⟩ := Prod.mk.inj (Except.ok.inj written)
  have other : Spells types order [(.adjacent, .id adjacent)] (Ordered.ofWord adjacent) :=
    spells_id order adjacent (.inl rfl)
  have own : Spells types order [(.relation, .id r.id)] (Ordered.ofWord r.id) :=
    spells_id order r.id (.inr rfl)
  unfold RelationType.extendedSortKey
  cases unique : t.multiplicity.isUnique r.direction with
  | true =>
      rw [isConstrained_of_isUnique unique]
      exact ⟨[], .nil, rfl, fun p member => absurd member List.not_mem_nil⟩
  | false =>
      rw [label]
      cases constrained : t.multiplicity.isConstrained with
      | true =>
          refine ⟨_, other.append .nil, rfl, ?_⟩
          intro p member
          obtain rfl := List.mem_singleton.mp member
          exact ofAdjacent
      | false =>
          refine ⟨_, other.append own, rfl, ?_⟩
          intro p member
          obtain rfl | member := List.mem_cons.mp member
          · exact ofAdjacent
          · obtain rfl := List.mem_singleton.mp member
            exact ofRelation

/-- The id of a property of a list stands at the end of the column, and so does the
value of a property of a set, which is no component. -/
theorem spells_property {t : RelationType} {r : Relation} {v : Value} {d : DataType}
    {c : Cardinality} {tail value : Bytes} (order : SortOrder) (target : r.target = .value v)
    (kind : t.kind = .property d c) (multiplicity : t.multiplicity = .ofCardinality c)
    (leaves : r.direction = .out) (written : writeTarget t r = .ok (tail, value)) :
    ∃ pairs body rest, tail = body ++ rest ∧ Spells types order pairs body ∧
      t.extendedSortKey r.direction = t.sortKey.map .key ++ pairs.map Prod.fst ∧
      ∀ p ∈ pairs, r.component t p.1 = some p.2 := by
  have key : t.isLabel = false := by
    rw [RelationType.isLabel, RelationType.isKey, kind]
    rfl
  simp only [writeTarget, target, kind, Outcome.bind_eq_ok_iff] at written
  obtain ⟨b, -, done⟩ := written
  unfold RelationType.extendedSortKey
  rw [multiplicity, leaves, key]
  cases c with
  | single =>
      obtain ⟨rfl, -⟩ := Prod.mk.inj (Except.ok.inj done)
      exact ⟨[], [], [], rfl, .nil, rfl, fun p member => absurd member List.not_mem_nil⟩
  | set =>
      obtain ⟨rfl, -⟩ := Prod.mk.inj (Except.ok.inj done)
      exact ⟨[], [], b, rfl, .nil, rfl, fun p member => absurd member List.not_mem_nil⟩
  | list =>
      obtain ⟨rfl, -⟩ := Prod.mk.inj (Except.ok.inj done)
      have own : Spells types order [(.relation, .id r.id)] (Ordered.ofWord r.id) :=
        spells_id order r.id (.inr rfl)
      refine ⟨_, _, [], (List.append_nil _).symm, own, rfl, ?_⟩
      intro p member
      obtain rfl := List.mem_singleton.mp member
      rfl

/-- What follows the sort values spells out the ids that the multiplicity leaves
open; only the values of a set come behind them. -/
theorem spells_target {t : RelationType} {r : Relation} {tail value : Bytes}
    (order : SortOrder) (wellFormed : t.WellFormed types)
    (stored : t.isStoredIn r.direction = true) (written : writeTarget t r = .ok (tail, value)) :
    ∃ pairs body rest, tail = body ++ rest ∧ Spells types order pairs body ∧
      t.extendedSortKey r.direction = t.sortKey.map .key ++ pairs.map Prod.fst ∧
      ∀ p ∈ pairs, r.component t p.1 = some p.2 := by
  cases kind : t.kind with
  | edge =>
      obtain ⟨adjacent, target⟩ := exists_vertex_of_write kind written
      obtain ⟨pairs, spelled, names, values⟩ := spells_edge order target kind written
      exact ⟨pairs, tail, [], (List.append_nil tail).symm, spelled, names, values⟩
  | property d c =>
      obtain ⟨v, target⟩ := exists_value_of_write kind written
      exact spells_property order target kind (wellFormed.cardinality d c kind)
        (RelationType.eq_out_of_isStoredIn kind stored) written

/-- A key is looked up among the sort values at its place. -/
theorem lookup_zip_of_mem {keys : List SchemaId} {values : List Value} (distinct : keys.Nodup)
    {key : SchemaId} {v : Value} (member : (key, v) ∈ keys.zip values) :
    (keys.zip values).lookup key = some v := by
  induction keys generalizing values with
  | nil => exact absurd member List.not_mem_nil
  | cons first keys ih =>
      cases values with
      | nil => exact absurd member List.not_mem_nil
      | cons w values =>
          rw [List.nodup_cons] at distinct
          rw [List.zip_cons_cons] at member ⊢
          obtain same | inRest := List.mem_cons.mp member
          · obtain ⟨rfl, rfl⟩ := Prod.mk.inj same
            exact List.lookup_cons_self
          · have later : key ≠ first := by
              rintro rfl
              exact distinct.1 (List.of_mem_zip inRest).1
            rw [List.lookup_cons, beq_false_of_ne later]
            exact ih distinct.2 inRest

/-- What an entry that was written was made of. -/
structure Parts (types : TypeCatalog Outcome) (t : RelationType) (r : Relation) (e : Entry)
    (start sorted tail : Bytes) : Prop where
  proper : r.direction.isProper = true
  stored : t.isStoredIn r.direction = true
  arity : r.sortValues.length = t.sortKey.length
  begun : head t r.direction = .ok start
  values : writeSorted types (t.sortKey.zip r.sortValues) = .ok sorted
  ended : writeTarget t r = .ok (tail, e.value)
  column : e.column = start ++ (oriented t.sortOrder sorted ++ tail)

theorem parts_of_write {t : RelationType} {r : Relation} {e : Entry}
    (written : write types t r = .ok e) :
    ∃ start sorted tail, Parts types t r e start sorted tail := by
  unfold write at written
  simp only [Outcome.bind_eq_ok_iff, monadLift_self] at written
  obtain ⟨_, proper, _, stored, _, arity, start, begun, written⟩ := written
  obtain ⟨sorted, values, ⟨tail, value⟩, ended, done⟩ := written
  rw [Fault.unless_eq_ok_iff] at proper stored arity
  obtain rfl := Except.ok.inj done
  exact ⟨start, sorted, tail, proper, stored, beq_iff_eq.mp arity, begun, values, ended, rfl⟩

/-- A written column is the head of its type and direction, then the components of
the extended sort key, then the value of a property of a set. -/
theorem Parts.spells {t : RelationType} {r : Relation} {e : Entry} {start sorted tail : Bytes}
    (wellFormed : t.WellFormed types) (parts : Parts types t r e start sorted tail) :
    ∃ pairs body rest, e.column = start ++ (body ++ rest) ∧ Spells types t.sortOrder pairs body ∧
      pairs.map Prod.fst = t.extendedSortKey r.direction ∧
      ∀ p ∈ pairs, r.component t p.1 = some p.2 := by
  obtain ⟨pairs, body, rest, rfl, ids, names, lookups⟩ :=
    spells_target t.sortOrder wellFormed parts.stored parts.ended
  refine ⟨_, oriented t.sortOrder sorted ++ body, rest, ?_,
    (spells_sorted parts.values).append ids, ?_, ?_⟩
  · rw [parts.column, List.append_assoc]
  · have keys : (t.sortKey.zip r.sortValues).map Prod.fst = t.sortKey :=
      List.map_fst_zip (Nat.le_of_eq parts.arity.symm)
    rw [List.map_append, names, List.map_map, ← keys, List.map_map, keys]
    rfl
  · intro p member
    obtain sortValue | id := List.mem_append.mp member
    · obtain ⟨⟨key, v⟩, atKey, rfl⟩ := List.mem_map.mp sortValue
      exact lookup_zip_of_mem wellFormed.distinct atKey
    · exact lookups p id

/-- A relation that is written has a value for every component of the extended sort key. -/
theorem exists_component {t : RelationType} {r : Relation} {e : Entry}
    (wellFormed : t.WellFormed types) (written : write types t r = .ok e) :
    ∀ component ∈ t.extendedSortKey r.direction, ∃ v, r.component t component = some v := by
  obtain ⟨start, sorted, tail, parts⟩ := parts_of_write written
  obtain ⟨pairs, body, rest, -, -, names, values⟩ := parts.spells wellFormed
  intro component member
  rw [← names] at member
  obtain ⟨p, inPairs, rfl⟩ := List.mem_map.mp member
  exact ⟨p.2, values p inPairs⟩

end Column

end PropertyGraph
