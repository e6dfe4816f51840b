/-
# Proofs.ValueTuples -- values written one after the other

The values of a sort key stand in a column with nothing between them.  Their bytes still
compare as the values do, component by component: two values of one type are written so that
their bytes part as soon as the values differ, and what follows a place where bytes have
parted no longer counts (`Bytes.Stands.append`).

* `StoredValue.writeAll` and `StoredValue.readAll` write and read a tuple of given types;
  `Column.writeSorted_eq` and `Column.readSorted_eq` say that the sort values of a column are
  written and read so.
* `stands_writeAll` is the order, by induction on the types.  `tuples_in_order` derives from it
  that no tuple starts with another one and that complements stand the other way round, and
  adds that reading takes exactly what was written.
-/
import PropertyGraph.Proofs.Intervals
import PropertyGraph.Proofs.StoredRelations
import Mathlib.Data.List.Forall2

namespace PropertyGraph

set_option autoImplicit false

open Bytes

namespace StoredValue

/-- The values of some types, one after the other. -/
def writeAll : List (Option DataType) → List Value → Outcome Bytes
  | expected :: later, v :: values => do
      let b ← write v expected
      return b ++ (← writeAll later values)
  | _, _ => return []

/-- The values of some types at the front. -/
def readAll : List (Option DataType) → Cursor → Outcome (List Value × Cursor)
  | [], c => return ([], c)
  | expected :: later, c => do
      let (v, c) ← read c expected
      let (values, c) ← readAll later c
      return (v :: values, c)

/-- A value of the expected type that has a place in the order. -/
structure Storable (expected : Option DataType) (v : Value) : Prop where
  typed : v.dataType = expected
  number : ∀ d, v = .double d → d.isNaN = false

/-- Storable values are written. -/
theorem exists_writeAll {expected : List (Option DataType)} {vs : List Value}
    (storable : List.Forall₂ Storable expected vs) : ∃ b, writeAll expected vs = .ok b := by
  induction storable with
  | nil => exact ⟨[], rfl⟩
  | cons first _ ih =>
      obtain ⟨a, written⟩ := write_of_dataType first.typed first.number
      obtain ⟨b, later⟩ := ih
      refine ⟨a ++ b, ?_⟩
      rw [writeAll, written, Outcome.ok_bind, later]
      rfl

/-- Tuples of the same types are written as they compare. -/
theorem stands_writeAll {expected : List (Option DataType)} {vs ws : List Value} {a b : Bytes}
    (sizeV : vs.length = expected.length) (sizeW : ws.length = expected.length)
    (writtenV : writeAll expected vs = .ok a) (writtenW : writeAll expected ws = .ok b) :
    Stands (List.compareLex Value.compare vs ws) a b := by
  induction expected generalizing vs ws a b with
  | nil =>
      obtain rfl := List.length_eq_zero_iff.mp sizeV
      obtain rfl := List.length_eq_zero_iff.mp sizeW
      obtain rfl := Except.ok.inj writtenV
      obtain rfl := Except.ok.inj writtenW
      exact rfl
  | cons first later ih =>
      obtain ⟨v, vs, rfl⟩ := List.exists_cons_of_length_eq_add_one sizeV
      obtain ⟨w, ws, rfl⟩ := List.exists_cons_of_length_eq_add_one sizeW
      simp only [writeAll, Outcome.bind_eq_ok_iff] at writtenV writtenW
      obtain ⟨a, writtenV, as, laterV, done⟩ := writtenV
      obtain rfl := Except.ok.inj done
      obtain ⟨b, writtenW, bs, laterW, done⟩ := writtenW
      obtain rfl := Except.ok.inj done
      rw [List.compareLex_cons_cons]
      exact (stands_of_write writtenV writtenW).append
        (ih (Nat.succ.inj sizeV) (Nat.succ.inj sizeW) laterV laterW)

/-- Values of one type are written alike only if they are the same. -/
theorem write_inj {expected : Option DataType} {v w : Value} {a b : Bytes}
    (writtenV : write v expected = .ok a) (writtenW : write w expected = .ok b) :
    a = b ↔ v = w := by
  have parts := (stands_of_write writtenV writtenW).append_eq_append_iff [] []
  rw [List.append_nil, List.append_nil, Std.LawfulEqCmp.compare_eq_iff_eq] at parts
  exact parts.trans (and_iff_left rfl)

/-- A tuple that was written is read back, and all that follows it is left. -/
theorem readAll_of_writeAll {expected : List (Option DataType)} {vs : List Value} {b : Bytes}
    (size : vs.length = expected.length) (written : writeAll expected vs = .ok b) {n : Nat}
    {rest : Bytes} (fits : (⟨n, b ++ rest⟩ : Cursor).Fits) :
    readAll expected ⟨n, b ++ rest⟩ = .ok (vs, ⟨n + b.length, rest⟩) := by
  induction expected generalizing vs b n with
  | nil =>
      obtain rfl := List.length_eq_zero_iff.mp size
      obtain rfl := Except.ok.inj written
      rfl
  | cons first later ih =>
      obtain ⟨v, vs, rfl⟩ := List.exists_cons_of_length_eq_add_one size
      simp only [writeAll, Outcome.bind_eq_ok_iff] at written
      obtain ⟨a, written, as, writtenLater, done⟩ := written
      obtain rfl := Except.ok.inj done
      rw [List.append_assoc] at fits ⊢
      simp only [readAll, Outcome.bind_eq_ok_iff]
      refine ⟨_, read_of_write written fits, _,
        ih (Nat.succ.inj size) writtenLater fits.behind, ?_⟩
      rw [List.length_append, ← Nat.add_assoc]
      rfl

/-- The written form of tuples is an order isomorphism onto its image.  Values of the types,
none of them not-a-number, are written; the bytes compare as the tuples do, value by value; of
different tuples neither form starts with the other; complemented forms compare the other way
round; and reading takes exactly the written form from the front, whatever follows it. -/
theorem tuples_in_order {expected : List (Option DataType)} {vs ws : List Value}
    (storableV : List.Forall₂ Storable expected vs)
    (storableW : List.Forall₂ Storable expected ws) :
    ∃ a b, writeAll expected vs = .ok a ∧ writeAll expected ws = .ok b ∧
      compare a b = List.compareLex Value.compare vs ws ∧
      (vs ≠ ws → ¬ a <+: b ∧ ¬ b <+: a) ∧
      compare (Column.complement a) (Column.complement b) =
        (List.compareLex Value.compare vs ws).swap ∧
      ∀ n rest, (⟨n, a ++ rest⟩ : Cursor).Fits →
        readAll expected ⟨n, a ++ rest⟩ = .ok (vs, ⟨n + a.length, rest⟩) := by
  obtain ⟨a, writtenV⟩ := exists_writeAll storableV
  obtain ⟨b, writtenW⟩ := exists_writeAll storableW
  have sizeV := storableV.length_eq.symm
  have sizeW := storableW.length_eq.symm
  have stands := stands_writeAll sizeV sizeW writtenV writtenW
  have back := stands_writeAll sizeW sizeV writtenW writtenV
  have differ : ∀ {us us' : List Value} {x y : Bytes},
      Stands (List.compareLex Value.compare us us') x y → us ≠ us' → ¬ x <+: y := by
    intro us us' x y stands differ starts
    rw [← List.append_nil x, ← List.append_nil y, stands.prefix_append_iff] at starts
    exact differ (Std.LawfulEqCmp.eq_of_compare starts.1)
  refine ⟨a, b, writtenV, writtenW, stands.compare_eq, fun different => ?_, ?_,
    fun n rest fits => readAll_of_writeAll sizeV writtenV fits⟩
  · exact ⟨differ stands different, differ back different.symm⟩
  · exact (Column.stands_oriented stands .desc).compare_eq

/-- The form of a text goes on, and behind it stand zeros of both signs. -/
theorem zeros_in_order :
    ∃ a b,
      writeAll [some .text, some .double] [.text "a\x00", .double ⟨0x8000000000000000⟩] = .ok a ∧
      writeAll [some .text, some .double] [.text "a\x00", .double ⟨0⟩] = .ok b ∧
      compare a b = .lt ∧ ¬ a <+: b ∧
      compare (Column.complement a) (Column.complement b) = .gt ∧
      readAll [some .text, some .double] ⟨0, a ++ [0, 0xFF]⟩ =
        .ok ([.text "a\x00", .double ⟨0x8000000000000000⟩], ⟨0 + a.length, [0, 0xFF]⟩) := by
  have storable : ∀ zero : Double, zero.isNaN = false →
      List.Forall₂ Storable [some .text, some .double] [.text "a\x00", .double zero] := by
    intro zero number
    refine .cons ⟨rfl, fun d never => by cases never⟩ (.cons ⟨rfl, ?_⟩ .nil)
    rintro d ⟨rfl⟩
    exact number
  obtain ⟨a, b, writtenV, writtenW, order, apart, reversed, read⟩ :=
    tuples_in_order (storable ⟨0x8000000000000000⟩ rfl) (storable ⟨0⟩ rfl)
  have less : List.compareLex Value.compare [.text "a\x00", .double ⟨0x8000000000000000⟩]
      [.text "a\x00", .double ⟨0⟩] = .lt := by
    decide
  rw [less] at order reversed
  have short : (⟨0, a ++ [0, 0xFF]⟩ : Cursor).Fits := by
    obtain rfl := Except.ok.inj writtenV
    unfold Cursor.Fits
    decide
  exact ⟨a, b, writtenV, writtenW, order, (apart (by decide)).1, reversed, read 0 _ short⟩

end StoredValue

namespace Column

variable {types : TypeCatalog Outcome}

/-- The sort values of a column are written one after the other, each as its key says. -/
theorem writeSorted_eq {keys : List SchemaId} {expected : List (Option DataType)}
    (typed : List.Forall₂ (fun key d => types.componentType (.key key) = .ok d) keys expected)
    (values : List Value) :
    writeSorted types (keys.zip values) = StoredValue.writeAll expected values := by
  induction typed generalizing values with
  | nil => rfl
  | cons first _ ih =>
      cases values with
      | nil => rfl
      | cons v values =>
          simp only [List.zip_cons_cons, writeSorted, StoredValue.writeAll, first, ih values]
          rfl

/-- Keys of a sound schema have types. -/
theorem exists_typed {keys : List SchemaId}
    (known : ∀ key ∈ keys, ∃ d, types.componentType (.key key) = .ok (some d)) :
    ∃ expected,
      List.Forall₂ (fun key d => types.componentType (.key key) = .ok d) keys expected := by
  induction keys with
  | nil => exact ⟨[], .nil⟩
  | cons key later ih =>
      rw [List.forall_mem_cons] at known
      obtain ⟨⟨d, first⟩, others⟩ := known
      obtain ⟨expected, typed⟩ := ih others
      exact ⟨some d :: expected, .cons first typed⟩

theorem readSorted_eq {keys : List SchemaId} {expected : List (Option DataType)}
    (typed : List.Forall₂ (fun key d => types.componentType (.key key) = .ok d) keys expected)
    (c : Cursor) : readSorted types keys c = StoredValue.readAll expected c := by
  induction typed generalizing c with
  | nil => rfl
  | cons first _ ih =>
      simp only [readSorted, StoredValue.readAll, first, ih]
      rfl

end Column

end PropertyGraph
