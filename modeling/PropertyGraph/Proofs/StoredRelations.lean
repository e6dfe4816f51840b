/-
# Proofs.StoredRelations -- relations survive their entries

Reading consumes from the front exactly what writing put there, whatever follows
(`StoredValue.read_of_write`, `Column.readSorted_of_write`), and so an entry is read back as the
relation that it was written for (`Column.parse_of_write`).

The sort values of a descending type are complemented, but the reader turns around all
that is left of the column.  What it then has behind the sort values is no written form
of anything, and reading must not depend on it.
-/
import PropertyGraph.Proofs.Columns
import PropertyGraph.Proofs.Cursors

namespace PropertyGraph

set_option autoImplicit false

namespace Ordered

theorem long?_ofLong (v : Long) : long? (ofLong v) = some v := by
  have low := v.le_toInt
  have high := v.toInt_lt
  have small : (v.toInt + 0x8000000000000000).toNat < weight 8 := by
    rw [weight_eight]
    omega
  have size : (ofLong v).length = 8 := length_digits 8 _
  have whole : (ofLong v).take 8 = ofLong v := List.take_of_length_le (Nat.le_of_eq size)
  rw [long?, size, if_pos (Nat.le_refl 8), whole, ofLong, number_digits small]
  have back : (((v.toInt + 0x8000000000000000).toNat : Int) - 0x8000000000000000) = v.toInt := by
    omega
  rw [back, Int64.ofInt_toInt]

theorem double?_ofDouble (v : Double) : double? (ofDouble v) = some v := by
  have size : (ofDouble v).length = 8 := length_digits 8 _
  have whole : (ofDouble v).take 8 = ofDouble v := List.take_of_length_le (Nat.le_of_eq size)
  rw [double?, size, if_pos (Nat.le_refl 8), whole, ofDouble, number_digits (place_lt v),
    ofPlace_place]

end Ordered

/-- A written value is read back, and all that follows it is left. -/
theorem StoredValue.read_of_write {v : Value} {expected : Option DataType} {b : Bytes}
    (written : write v expected = .ok b) {n : Nat} {rest : Bytes}
    (fits : (⟨n, b ++ rest⟩ : Cursor).Fits) :
    read ⟨n, b ++ rest⟩ expected = .ok (v, ⟨n + b.length, rest⟩) := by
  unfold write at written
  split at written
  case h_1 v =>
      cases v with
      | false =>
          obtain rfl := Except.ok.inj written
          rw [read, Outcome.bind_eq_ok_iff]
          exact ⟨_, Cursor.takeByte_append fits.room rfl, rfl⟩
      | true =>
          obtain rfl := Except.ok.inj written
          rw [read, Outcome.bind_eq_ok_iff]
          exact ⟨_, Cursor.takeByte_append fits.room rfl, rfl⟩
  case h_2 v =>
      obtain rfl := Except.ok.inj written
      rw [read, Outcome.bind_eq_ok_iff]
      exact ⟨_, Cursor.take_append fits.room (Ordered.length_digits 8 _),
        by simp only [Ordered.long?_ofLong]; rfl⟩
  case h_3 v =>
      obtain rfl := eq_ofDouble_of_write written
      rw [read, Outcome.bind_eq_ok_iff]
      exact ⟨_, Cursor.take_append fits.room (Ordered.length_digits 8 _),
        by simp only [Ordered.double?_ofDouble]; rfl⟩
  case h_4 v =>
      obtain rfl := Except.ok.inj written
      rw [read, Ordered.text?_append]
      simp only [Outcome.bind_eq_ok_iff]
      exact ⟨_, Cursor.take_append fits.room rfl, rfl⟩
  case h_5 v =>
      obtain rfl := Except.ok.inj written
      rw [read, Outcome.bind_eq_ok_iff]
      exact ⟨_, Cursor.takeWord_append fits.room rfl, rfl⟩
  case h_6 => cases written

namespace Column

/-- Sort values are read back, whatever follows them. -/
theorem readSorted_of_write {types : TypeCatalog Outcome} {values : List (SchemaId × Value)}
    {b : Bytes} (written : writeSorted types values = .ok b) {n : Nat} {rest : Bytes}
    (fits : (⟨n, b ++ rest⟩ : Cursor).Fits) :
    readSorted types (values.map Prod.fst) ⟨n, b ++ rest⟩ =
      .ok (values.map Prod.snd, ⟨n + b.length, rest⟩) := by
  induction values generalizing b n with
  | nil =>
      obtain rfl := Except.ok.inj written
      rfl
  | cons p later ih =>
      obtain ⟨key, v⟩ := p
      simp only [writeSorted, Outcome.bind_eq_ok_iff, monadLift_self] at written
      obtain ⟨expected, typed, first, valued, tail, others, done⟩ := written
      obtain rfl := Except.ok.inj done
      rw [List.append_assoc] at fits ⊢
      simp only [List.map_cons, readSorted, Outcome.bind_eq_ok_iff, monadLift_self]
      refine ⟨expected, typed, _, StoredValue.read_of_write valued fits, _,
        ih others fits.behind, ?_⟩
      rw [List.length_append, ← Nat.add_assoc]
      rfl

/-- The ids of an edge are read back, both from the column or from the value, or one
from each. -/
theorem readTarget_of_write_edge {t : RelationType} {r : Relation} {adjacent : UInt64}
    (target : r.target = .vertex adjacent) (kind : t.kind = .edge) {tail value : Bytes}
    (written : writeTarget t r = .ok (tail, value)) {n : Nat}
    (fits : (⟨n, tail⟩ : Cursor).Fits) (fitsValue : (Cursor.start value).Fits) :
    readTarget t r.direction ⟨n, tail⟩ (Cursor.start value) = .ok (r.target, r.id) := by
  simp only [writeTarget, target, kind] at written
  obtain ⟨rfl, rfl⟩ := Prod.mk.inj (Except.ok.inj written)
  simp only [readTarget, kind, target, Outcome.bind_eq_ok_iff]
  unfold Cursor.start at *
  cases unique : t.multiplicity.isUnique r.direction with
  | true =>
      have constrained := isConstrained_of_isUnique unique
      simp only [unique, constrained, if_true, List.nil_append] at fitsValue ⊢
      have fitsId := fitsValue.behind
      rw [← List.append_nil (Ordered.ofWord r.id)] at fitsId ⊢
      exact ⟨_, Cursor.takeWord_append fitsValue.room rfl, _, Cursor.takeWord_append fitsId.room rfl, rfl⟩
  | false =>
      cases constrained : t.multiplicity.isConstrained with
      | true =>
          simp only [unique, constrained, if_true, Bool.false_eq_true, if_false] at fits fitsValue ⊢
          rw [List.nil_append, ← List.append_nil (Ordered.ofWord r.id)] at fitsValue ⊢
          exact ⟨_, Cursor.takeWord_append fits.room rfl, _, Cursor.takeWord_append fitsValue.room rfl, rfl⟩
      | false =>
          simp only [unique, constrained, Bool.false_eq_true, if_false] at fits ⊢
          have fitsId := fits.behind
          rw [← List.append_nil (Ordered.ofWord r.id)] at fitsId ⊢
          exact ⟨_, Cursor.takeWord_append fits.room rfl, _, Cursor.takeWord_append fitsId.room rfl, rfl⟩

/-- The value and the id of a property are read back from where the cardinality puts
them. -/
theorem readTarget_of_write_property {t : RelationType} {r : Relation} {v : Value} {d : DataType}
    {c : Cardinality} (target : r.target = .value v) (kind : t.kind = .property d c)
    {tail value : Bytes} (written : writeTarget t r = .ok (tail, value)) {n : Nat}
    (fits : (⟨n, tail⟩ : Cursor).Fits) (fitsValue : (Cursor.start value).Fits) :
    readTarget t r.direction ⟨n, tail⟩ (Cursor.start value) = .ok (r.target, r.id) := by
  simp only [writeTarget, target, kind, Outcome.bind_eq_ok_iff] at written
  obtain ⟨b, valued, done⟩ := written
  unfold Cursor.start at *
  cases c with
  | single =>
      obtain ⟨rfl, rfl⟩ := Prod.mk.inj (Except.ok.inj done)
      simp only [readTarget, kind, target, Outcome.bind_eq_ok_iff]
      have fitsId := fitsValue.behind
      rw [← List.append_nil (Ordered.ofWord r.id)] at fitsId ⊢
      exact ⟨_, StoredValue.read_of_write valued fitsValue, _,
        Cursor.takeWord_append fitsId.room rfl, rfl⟩
  | set =>
      obtain ⟨rfl, rfl⟩ := Prod.mk.inj (Except.ok.inj done)
      simp only [readTarget, kind, target, Outcome.bind_eq_ok_iff]
      rw [← List.append_nil b] at fits ⊢
      rw [← List.append_nil (Ordered.ofWord r.id)] at fitsValue ⊢
      exact ⟨_, StoredValue.read_of_write valued fits, _,
        Cursor.takeWord_append fitsValue.room rfl, rfl⟩
  | list =>
      obtain ⟨rfl, rfl⟩ := Prod.mk.inj (Except.ok.inj done)
      simp only [readTarget, kind, target, Outcome.bind_eq_ok_iff]
      rw [← List.append_nil (Ordered.ofWord r.id)] at fits ⊢
      rw [← List.append_nil b] at fitsValue ⊢
      exact ⟨_, Cursor.takeWord_append fits.room rfl, _,
        StoredValue.read_of_write valued fitsValue, rfl⟩

theorem readTarget_of_write {t : RelationType} {r : Relation} {tail value : Bytes}
    (written : writeTarget t r = .ok (tail, value)) {n : Nat}
    (fits : (⟨n, tail⟩ : Cursor).Fits) (fitsValue : (Cursor.start value).Fits) :
    readTarget t r.direction ⟨n, tail⟩ (Cursor.start value) = .ok (r.target, r.id) := by
  cases kind : t.kind with
  | edge =>
      obtain ⟨adjacent, target⟩ := exists_vertex_of_write kind written
      exact readTarget_of_write_edge target kind written fits fitsValue
  | property d c =>
      obtain ⟨v, target⟩ := exists_value_of_write kind written
      exact readTarget_of_write_property target kind written fits fitsValue

theorem direction_directionByte {d : Direction} (proper : d.isProper = true) :
    direction (directionByte d) = .ok d := by
  cases d with
  | out | into => rfl
  | both => exact absurd proper (by decide)

end Column

/-- Both buffers of an entry have offsets to their ends, as all that a machine of 64 bits
can hold have. -/
def Entry.Addressable (e : Entry) : Prop :=
  e.column.length < Cursor.offsetBound ∧ e.value.length < Cursor.offsetBound

namespace Column

@[simp] theorem length_oriented (order : SortOrder) (b : Bytes) :
    (oriented order b).length = b.length := by
  cases order
  · rfl
  · exact List.length_map ..

/-- Turned around as a whole, what is left of a column starts with the sort values. -/
theorem oriented_rest (order : SortOrder) (sorted tail : Bytes) :
    oriented order (oriented order sorted ++ tail) = sorted ++ oriented order tail := by
  rw [oriented_append, oriented_oriented]

/-- The entry of a relation is read back as that relation, whatever its type: with each
of its fields, and with doubles bit for bit, since only those are equal. -/
theorem parse_of_write {types : TypeCatalog Outcome} {t : RelationType} {r : Relation} {e : Entry}
    (listed : types.byId t.id = .ok t) (ofType : r.typeId = t.id)
    (written : write types t r = .ok e) (addressable : e.Addressable) :
    parse types e = .ok r := by
  obtain ⟨start, sorted, tail, parts⟩ := parts_of_write written
  have begun := parts.begun
  rw [head_eq parts.proper parts.stored] at begun
  obtain rfl := Except.ok.inj begun
  have column : e.column = [categoryByte t] ++ (Ordered.ofWord t.id ++
      ([directionByte r.direction] ++ (oriented t.sortOrder sorted ++ tail))) := by
    rw [parts.column]
    simp
  have inValue := Cursor.fits_start addressable.2
  have atCategory := Cursor.fits_start addressable.1
  rw [Cursor.start, column] at atCategory
  have atId := atCategory.behind
  have atDirection := atId.behind
  have atSorted := atDirection.behind
  have sortValues : readSorted types t.sortKey
      (Cursor.start (oriented t.sortOrder (oriented t.sortOrder sorted ++ tail))) =
        .ok (r.sortValues, ⟨sorted.length, oriented t.sortOrder tail⟩) := by
    have keys : (t.sortKey.zip r.sortValues).map Prod.fst = t.sortKey :=
      List.map_fst_zip (Nat.le_of_eq parts.arity.symm)
    have values : (t.sortKey.zip r.sortValues).map Prod.snd = r.sortValues :=
      List.map_snd_zip (Nat.le_of_eq parts.arity)
    have fits : (⟨0, sorted ++ oriented t.sortOrder tail⟩ : Cursor).Fits := by
      simp only [Cursor.Fits, List.length_append, length_oriented] at atSorted ⊢
      omega
    have read := readSorted_of_write parts.values fits
    rwa [keys, values, Nat.zero_add, ← oriented_rest] at read
  have consumed : (oriented t.sortOrder sorted).length =
      (oriented t.sortOrder (oriented t.sortOrder sorted ++ tail)).length -
        (oriented t.sortOrder tail).length := by
    simp
  have category : (Fault.corrupt .relationCategory).unless (categoryByte t == categoryByte t) =
      .ok () := by
    rw [Fault.unless_eq_ok_iff]
    exact beq_self_eq_true _
  unfold parse
  simp only [Outcome.bind_eq_ok_iff, monadLift_self]
  rw [Cursor.start, column]
  refine ⟨_, Cursor.takeByte_append atCategory.room rfl, _, Cursor.takeWord_append atId.room rfl, _,
    Cursor.takeByte_append atDirection.room rfl, _, direction_directionByte parts.proper, t, listed,
    (), category, _, sortValues, _, Cursor.take_append atSorted.room consumed, _,
    readTarget_of_write parts.ended atSorted.behind inValue, ?_⟩
  rw [← ofType]
  rfl

section Reviews

/-- A key of a type of values. -/
def reviewKey (id : SchemaId) (name : String) (d : DataType) : RelationType :=
  ⟨id, name, .property d .single, .manyToOne, [], .asc, none, .enabled, false, none⟩

/-- A label sorted backward by a text and a double. -/
def reviews : RelationType :=
  ⟨3, "reviews", .edge, .simple, [1, 2], .desc, none, .enabled, false, none⟩

/-- A schema of one label and its two keys. -/
def reviewTypes : TypeCatalog Outcome where
  byId id :=
    if id = 1 then .ok (reviewKey 1 "topic" .text)
    else if id = 2 then .ok (reviewKey 2 "stars" .double)
    else .ok reviews
  byName _ := .ok none
  withIndexes t := .ok [t]

/-- A text with the byte that ends texts in it, and a zero with a sign. -/
def review : Relation := ⟨7, 3, .into, .vertex 5, [.text "a\x00", .double ⟨0x8000000000000000⟩]⟩

theorem review_is_read_back :
    ∃ e, write reviewTypes reviews review = .ok e ∧ e.Addressable ∧
      parse reviewTypes e = .ok review := by
  have written : write reviewTypes reviews review = .ok
      ⟨[0x20, 0, 0, 0, 0, 0, 0, 0, 3, 1, 0x9E, 0xFF, 0, 0xFF, 0xFF,
        0x80, 0, 0, 0, 0, 0, 0, 0, 0, 0, 0, 0, 0, 0, 0, 5],
        [0, 0, 0, 0, 0, 0, 0, 7], none⟩ := by
    decide
  have addressable : Entry.Addressable
      ⟨[0x20, 0, 0, 0, 0, 0, 0, 0, 3, 1, 0x9E, 0xFF, 0, 0xFF, 0xFF,
        0x80, 0, 0, 0, 0, 0, 0, 0, 0, 0, 0, 0, 0, 0, 0, 5],
        [0, 0, 0, 0, 0, 0, 0, 7], none⟩ := by
    unfold Entry.Addressable
    decide
  exact ⟨_, written, addressable, parse_of_write rfl rfl written addressable⟩

end Reviews

end Column

end PropertyGraph
