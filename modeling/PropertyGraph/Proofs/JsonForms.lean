/-
# Proofs.JsonForms -- written JSON reads back

`Json.Plain` are the values that are written from scratch: their texts are escaped texts
and their integers fit into 64 bits.  Such a value is read from the front of any bytes
that it is written at, up to what can follow it in a document (`value_write`), so the
document that consists of it is read back (`parse_write`).

Each value takes a step, and each item or field one more; twice the length of what is
written is enough for both.
-/
import Mathlib.Data.List.TakeDrop
import PropertyGraph.Json.Reader

namespace PropertyGraph.Json

set_option autoImplicit false

inductive Plain : Json → Prop
  | null : Plain .null
  | bool (b : Bool) : Plain (.bool b)
  | int {n : Int} (low : -0x8000000000000000 ≤ n) (high : n < 0x10000000000000000) :
      Plain (.int n)
  | text (s : String) : Plain (.text (escape s))
  | list {items : List Json} (all : ∀ item ∈ items, Plain item) : Plain (.list items)
  | object {fields : List (Bytes × Json)} (names : ∀ f ∈ fields, ∃ s, f.1 = escape s)
      (all : ∀ f ∈ fields, Plain f.2) : Plain (.object fields)

/-- What can follow a value: nothing, a comma or a closing bracket. -/
def Follows (rest : Bytes) : Prop :=
  ∀ b tail, rest = b :: tail → b = 0x2C ∨ b = 0x5D ∨ b = 0x7D

theorem follows_nil : Follows [] := nofun

theorem follows_cons {b : UInt8} (closes : b = 0x2C ∨ b = 0x5D ∨ b = 0x7D) (tail : Bytes) :
    Follows (b :: tail) := by
  intro b' tail' same
  obtain ⟨rfl, -⟩ := List.cons.inj same
  exact closes

theorem skipSpace_cons {b : UInt8} (visible : isSpace b = false) (rest : Bytes) :
    skipSpace (b :: rest) = b :: rest := by
  rw [skipSpace, List.dropWhile_cons, visible]
  rfl

/-! ## Numbers -/

theorem byte_of_digit {d : Nat} (small : d < 10) :
    isDigit (UInt8.ofNat (0x30 + d)) = true ∧ (UInt8.ofNat (0x30 + d)).toNat - 0x30 = d ∧
      (UInt8.ofNat (0x30 + d) = 0x30 → d = 0) := by
  have all : ∀ d : Fin 10, isDigit (UInt8.ofNat (0x30 + d.val)) = true ∧
      (UInt8.ofNat (0x30 + d.val)).toNat - 0x30 = d.val ∧
      (UInt8.ofNat (0x30 + d.val) = 0x30 → d.val = 0) := by decide
  exact all ⟨d, small⟩

theorem all_isDigit_writeNat (n : Nat) : ∀ b ∈ writeNat n, isDigit b = true := by
  intro b member
  obtain ⟨d, digit, rfl⟩ := List.mem_map.mp member
  exact (byte_of_digit (Numeral.lt_ten_of_mem_digits digit)).1

theorem digitsValue_writeNat (n : Nat) : digitsValue (writeNat n) = n := by
  have same : (writeNat n).map (fun d => d.toNat - 0x30) = Numeral.digits n := by
    rw [writeNat, List.map_map]
    refine (List.map_congr_left fun d member => ?_).trans (List.map_id _)
    exact (byte_of_digit (Numeral.lt_ten_of_mem_digits member)).2.1
  rw [digitsValue, same, Numeral.value_digits]

theorem properDigits_writeNat (n : Nat) : properDigits (writeNat n) = true := by
  have some_ : Numeral.digits n ≠ [] := Numeral.digitsWithin_ne_nil n n
  have leading : 0 < n → (Numeral.digits n).head? ≠ some 0 :=
    Numeral.head?_digitsWithin (Nat.le_refl n)
  have zero : Numeral.digits 0 = [0] := rfl
  unfold writeNat
  rcases shape : Numeral.digits n with _ | ⟨d, _ | ⟨e, more⟩⟩
  · exact absurd shape some_
  · rfl
  · have positive : 0 < n := by
      rcases Nat.eq_zero_or_pos n with rfl | positive
      · rw [zero] at shape
        cases shape
      · exact positive
    have digit : d ∈ Numeral.digits n := by rw [shape]; exact List.mem_cons_self
    have first : d ≠ 0 := by
      rintro rfl
      exact leading positive (by rw [shape]; rfl)
    have byte : UInt8.ofNat (0x30 + d) ≠ 0x30 := fun same =>
      first ((byte_of_digit (Numeral.lt_ten_of_mem_digits digit)).2.2 same)
    simpa [properDigits] using byte

theorem writeNat_ne_nil (n : Nat) : writeNat n ≠ [] := by
  rw [writeNat, Ne, List.map_eq_nil_iff]
  exact Numeral.digitsWithin_ne_nil n n

theorem span_writeNat (n : Nat) {rest : Bytes} (follows : Follows rest) :
    (writeNat n ++ rest).span isDigit = (writeNat n, rest) := by
  have stops : rest.takeWhile isDigit = [] ∧ rest.dropWhile isDigit = rest := by
    cases rest with
    | nil => exact ⟨rfl, rfl⟩
    | cons b tail =>
        have other : isDigit b = false := by
          rcases follows b tail rfl with rfl | rfl | rfl <;> rfl
        simp [other]
  have all := all_isDigit_writeNat n
  rw [List.span_eq_takeWhile_dropWhile, List.takeWhile_append_of_pos all,
    List.dropWhile_append_of_pos all, stops.1, stops.2, List.append_nil]

theorem unsigned_writeNat (negative : Bool) (n : Nat) {rest : Bytes} (follows : Follows rest)
    {i : Int} (fits : integer? negative n = some i) :
    unsigned negative (writeNat n ++ rest) = some (.int i, rest) := by
  have noFraction : fraction rest = some ([], rest) := by
    cases rest with
    | nil => rfl
    | cons b tail => rcases follows b tail rfl with rfl | rfl | rfl <;> rfl
  have noExponent : exponent rest = some ([], rest) := by
    cases rest with
    | nil => rfl
    | cons b tail => rcases follows b tail rfl with rfl | rfl | rfl <;> rfl
  rw [unsigned, span_writeNat n follows]
  simp [properDigits_writeNat, noFraction, noExponent, digitsValue_writeNat, fits]

theorem isSpace_of_isDigit {b : UInt8} (digit : isDigit b = true) : isSpace b = false := by
  simp only [isDigit, Bool.and_eq_true, decide_eq_true_eq] at digit
  have apart : ∀ c : UInt8, c < 0x30 → (b == c) = false := by
    rintro c below
    rw [beq_eq_false_iff_ne]
    rintro rfl
    exact absurd digit.1 (UInt8.not_le.mpr below)
  simp only [isSpace, apart 0x20 (by decide), apart 0x09 (by decide), apart 0x0A (by decide),
    apart 0x0D (by decide), Bool.or_self]

/-- A value that starts with neither a letter, a mark nor a bracket is a number. -/
theorem value_of_digit {b : UInt8} (digit : b = 0x2D ∨ isDigit b = true) (steps : Nat)
    (rest : Bytes) : value (steps + 1) (b :: rest) = number (b :: rest) := by
  have visible : isSpace b = false := by
    rcases digit with rfl | digit
    · rfl
    · exact isSpace_of_isDigit digit
  rw [value, skipSpace_cons visible]
  split
  all_goals first
    | rfl
    | (rename_i same
       obtain ⟨rfl, -⟩ := List.cons.inj same
       rcases digit with never | never <;> exact absurd never (by decide))

theorem number_of_digit {b : UInt8} (digit : isDigit b = true) (rest : Bytes) :
    number (b :: rest) = unsigned false (b :: rest) := by
  unfold number
  split
  · rename_i same
    obtain ⟨rfl, -⟩ := List.cons.inj same
    exact absurd digit (by decide)
  · rfl

theorem value_writeInt {n : Int} (low : -0x8000000000000000 ≤ n)
    (high : n < 0x10000000000000000) (steps : Nat) {rest : Bytes} (follows : Follows rest) :
    value (steps + 1) (writeInt n ++ rest) = some (.int n, rest) := by
  unfold writeInt
  by_cases negative : n < 0
  · have fits : integer? true n.natAbs = some n := by
      have inside : 0 < n.natAbs ∧ n.natAbs ≤ 0x8000000000000000 := by omega
      have back : -(n.natAbs : Int) = n := by omega
      rw [integer?, if_pos rfl, if_pos inside, back]
    rw [if_pos negative, List.cons_append, value_of_digit (.inl rfl)]
    exact unsigned_writeNat true n.natAbs follows fits
  · have fits : integer? false n.natAbs = some n := by
      have inside : n.natAbs < 0x10000000000000000 := by omega
      have back : (n.natAbs : Int) = n := by omega
      rw [integer?, if_neg (by decide), if_pos inside, back]
    have read := unsigned_writeNat false n.natAbs follows fits
    rw [if_neg negative]
    obtain ⟨b, more, shape⟩ := List.exists_cons_of_ne_nil (writeNat_ne_nil n.natAbs)
    have digit : isDigit b = true :=
      all_isDigit_writeNat n.natAbs b (by rw [shape]; exact List.mem_cons_self)
    rw [shape, List.cons_append] at read ⊢
    rw [value_of_digit (.inr digit), number_of_digit digit, read]

/-! ## Values -/

/-- The value is read from the front of whatever it is written at. -/
def Reads (j : Json) : Prop :=
  ∀ steps rest, Follows rest → 2 * (write j).length ≤ steps →
    value steps (write j ++ rest) = some (j, rest)

/-- No value starts with a space or a closing bracket. -/
theorem Plain.write_cons {j : Json} (plain : Plain j) :
    ∃ b more, write j = b :: more ∧ isSpace b = false ∧ b ≠ 0x5D ∧ b ≠ 0x7D := by
  cases plain with
  | null => exact ⟨0x6E, _, rfl, rfl, by decide, by decide⟩
  | bool b =>
      cases b
      · exact ⟨0x66, _, rfl, rfl, by decide, by decide⟩
      · exact ⟨0x74, _, rfl, rfl, by decide, by decide⟩
  | @int n =>
      rw [write, writeInt]
      split
      · exact ⟨0x2D, _, rfl, rfl, by decide, by decide⟩
      · obtain ⟨b, more, shape⟩ := List.exists_cons_of_ne_nil (writeNat_ne_nil n.natAbs)
        have digit : isDigit b = true :=
          all_isDigit_writeNat n.natAbs b (by rw [shape]; exact List.mem_cons_self)
        refine ⟨b, more, shape, isSpace_of_isDigit digit, ?_, ?_⟩
        · rintro rfl
          exact absurd digit (by decide)
        · rintro rfl
          exact absurd digit (by decide)
  | text s => exact ⟨0x22, _, by rw [write]; rfl, rfl, by decide, by decide⟩
  | list _ => exact ⟨0x5B, _, by rw [write], rfl, by decide, by decide⟩
  | object _ _ => exact ⟨0x7B, _, by rw [write], rfl, by decide, by decide⟩

theorem quote_append (written rest : Bytes) :
    quote written ++ rest = 0x22 :: (written ++ 0x22 :: rest) := by
  simp [quote]

theorem writeItems_cons_cons (j k : Json) (more : List Json) :
    writeItems (j :: k :: more) = write j ++ 0x2C :: writeItems (k :: more) := by
  rw [writeItems]
  exact nofun

theorem writeFields_cons_cons (name : Bytes) (j : Json) (g : Bytes × Json)
    (more : List (Bytes × Json)) :
    writeFields ((name, j) :: g :: more) =
      quote name ++ 0x3A :: (write j ++ 0x2C :: writeFields (g :: more)) := by
  rw [writeFields]
  exact nofun

theorem items_write {js : List Json} (some_ : js ≠ []) (each : ∀ j ∈ js, Reads j)
    {steps : Nat} (enough : 2 * (writeItems js).length + 1 ≤ steps) (rest : Bytes) :
    items steps (writeItems js ++ 0x5D :: rest) = some (js, rest) := by
  induction js generalizing steps with
  | nil => exact absurd rfl some_
  | cons j others ih =>
      obtain _ | steps := steps
      · exact absurd enough (Nat.not_succ_le_zero _)
      · have first := each j List.mem_cons_self
        cases others with
        | nil =>
            rw [writeItems] at enough ⊢
            have read := first steps (0x5D :: rest) (follows_cons (by decide) rest) (by omega)
            rw [items, read]
            rfl
        | cons k more =>
            rw [writeItems_cons_cons] at enough ⊢
            simp only [List.length_append, List.length_cons] at enough
            have read := first steps (0x2C :: (writeItems (k :: more) ++ 0x5D :: rest))
              (follows_cons (by decide) _) (by omega)
            have later : items steps (writeItems (k :: more) ++ 0x5D :: rest) = _ :=
              ih (by simp) (fun j member => each j (List.mem_cons_of_mem _ member)) (by omega)
            rw [List.append_assoc, List.cons_append, items]
            simp only [read, Option.bind_eq_bind, Option.bind_some,
              skipSpace_cons (b := 0x2C) rfl, later]
            rfl

theorem fields_write {fs : List (Bytes × Json)} (some_ : fs ≠ [])
    (names : ∀ f ∈ fs, ∃ s, f.1 = escape s) (each : ∀ f ∈ fs, Reads f.2) {steps : Nat}
    (enough : 2 * (writeFields fs).length + 1 ≤ steps) (rest : Bytes) :
    fields steps (writeFields fs ++ 0x7D :: rest) = some (fs, rest) := by
  induction fs generalizing steps with
  | nil => exact absurd rfl some_
  | cons f others ih =>
      obtain ⟨name, j⟩ := f
      obtain _ | steps := steps
      · exact absurd enough (Nat.not_succ_le_zero _)
      · have first : Reads j := each (name, j) List.mem_cons_self
        obtain ⟨s, rfl⟩ : ∃ s, name = escape s := names (name, j) List.mem_cons_self
        cases others with
        | nil =>
            rw [writeFields] at enough ⊢
            simp only [List.length_append, List.length_cons] at enough
            have read := first steps (0x7D :: rest) (follows_cons (by decide) rest) (by omega)
            rw [List.append_assoc, quote_append, fields, skipSpace_cons rfl]
            simp only [scan_escape, Option.bind_eq_bind, Option.bind_some, List.cons_append,
              skipSpace_cons (b := 0x3A) rfl, read]
            rfl
        | cons g more =>
            rw [writeFields_cons_cons] at enough ⊢
            simp only [List.length_append, List.length_cons] at enough
            have read := first steps (0x2C :: (writeFields (g :: more) ++ 0x7D :: rest))
              (follows_cons (by decide) _) (by omega)
            have later : fields steps (writeFields (g :: more) ++ 0x7D :: rest) = _ :=
              ih (by simp) (fun f member => names f (List.mem_cons_of_mem _ member))
                (fun f member => each f (List.mem_cons_of_mem _ member)) (by omega)
            rw [List.append_assoc, quote_append, fields, skipSpace_cons rfl]
            simp only [scan_escape, Option.bind_eq_bind, Option.bind_some, List.cons_append,
              List.append_assoc, skipSpace_cons (b := 0x3A) rfl, read,
              skipSpace_cons (b := 0x2C) rfl, later]
            rfl

/-- Every value takes a step. -/
theorem reads_of_step {j : Json} (plain : Plain j)
    (step : ∀ steps rest, Follows rest → 2 * (write j).length ≤ steps + 1 →
      value (steps + 1) (write j ++ rest) = some (j, rest)) : Reads j := by
  intro steps rest follows enough
  obtain _ | steps := steps
  · obtain ⟨b, more, shape, -⟩ := plain.write_cons
    rw [shape, List.length_cons] at enough
    omega
  · exact step steps rest follows enough

theorem value_bracket {b : UInt8} (visible : isSpace b = false) (open_ : b ≠ 0x5D) (steps : Nat)
    (tail : Bytes) : value (steps + 1) (0x5B :: b :: tail) =
      (items steps (b :: tail)).map fun (js, rest) => (.list js, rest) := by
  rw [value, skipSpace_cons rfl]
  simp only [skipSpace_cons visible]
  split
  · rename_i same
    exact absurd (List.cons.inj same).1 open_
  · rfl

theorem value_brace {b : UInt8} (visible : isSpace b = false) (open_ : b ≠ 0x7D) (steps : Nat)
    (tail : Bytes) : value (steps + 1) (0x7B :: b :: tail) =
      (fields steps (b :: tail)).map fun (fs, rest) => (.object fs, rest) := by
  rw [value, skipSpace_cons rfl]
  simp only [skipSpace_cons visible]
  split
  · rename_i same
    exact absurd (List.cons.inj same).1 open_
  · rfl

theorem reads_list {js : List Json} (all : ∀ j ∈ js, Plain j)
    (each : ∀ j ∈ js, Reads j) : Reads (.list js) := by
  refine reads_of_step (.list all) fun steps rest _ enough => ?_
  rw [write] at enough ⊢
  simp only [List.length_cons, List.length_append, List.length_nil] at enough
  rw [List.cons_append, List.append_assoc]
  cases js with
  | nil => rfl
  | cons j others =>
      have read : items steps (writeItems (j :: others) ++ 0x5D :: rest) = some (j :: others, rest) :=
        items_write (by simp) each (by omega) rest
      obtain ⟨b, more, shape, visible, open_, -⟩ := (all j List.mem_cons_self).write_cons
      obtain ⟨tail, starts⟩ : ∃ tail, writeItems (j :: others) ++ 0x5D :: rest = b :: tail := by
        cases others with
        | nil => exact ⟨_, by rw [writeItems, shape]; rfl⟩
        | cons k others => exact ⟨_, by rw [writeItems_cons_cons, shape]; rfl⟩
      rw [List.singleton_append, starts, value_bracket visible open_, ← starts, read]
      rfl

theorem reads_object {fs : List (Bytes × Json)} (names : ∀ f ∈ fs, ∃ s, f.1 = escape s)
    (all : ∀ f ∈ fs, Plain f.2) (each : ∀ f ∈ fs, Reads f.2) : Reads (.object fs) := by
  refine reads_of_step (.object names all) fun steps rest _ enough => ?_
  rw [write] at enough ⊢
  simp only [List.length_cons, List.length_append, List.length_nil] at enough
  rw [List.cons_append, List.append_assoc]
  cases fs with
  | nil => rfl
  | cons f others =>
      have read : fields steps (writeFields (f :: others) ++ 0x7D :: rest) =
          some (f :: others, rest) :=
        fields_write (by simp) names each (by omega) rest
      obtain ⟨tail, starts⟩ : ∃ tail, writeFields (f :: others) ++ 0x7D :: rest = 0x22 :: tail := by
        obtain ⟨name, j⟩ := f
        cases others with
        | nil => exact ⟨_, by rw [writeFields]; rfl⟩
        | cons g others => exact ⟨_, by rw [writeFields_cons_cons]; rfl⟩
      rw [List.singleton_append, starts, value_brace rfl (by decide), ← starts, read]
      rfl

/-- A value that is written from scratch reads back, up to what follows it. -/
theorem value_write {j : Json} (plain : Plain j) : Reads j := by
  induction plain with
  | null => exact reads_of_step .null fun steps rest _ _ => rfl
  | bool b =>
      cases b with
      | false => exact reads_of_step (.bool false) fun steps rest _ _ => rfl
      | true => exact reads_of_step (.bool true) fun steps rest _ _ => rfl
  | int low high =>
      refine reads_of_step (.int low high) fun steps rest follows _ => ?_
      rw [write]
      exact value_writeInt low high steps follows
  | text s =>
      refine reads_of_step (.text s) fun steps rest _ _ => ?_
      rw [write, quote_append, value, skipSpace_cons rfl]
      simp only [scan_escape, Option.map_some]
  | list all each => exact reads_list all each
  | object names all each => exact reads_object names all each

/-- The document of a value that is written from scratch is read back. -/
theorem parse_write {j : Json} (plain : Plain j) : parse (write j) = some j := by
  have read := value_write plain (2 * (write j).length + 2) [] follows_nil (by omega)
  rw [List.append_nil] at read
  rw [parse, read]
  rfl

end PropertyGraph.Json
