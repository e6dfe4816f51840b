/-
# Json.Text -- text between the quotation marks of JSON

A text is kept in its written form, the bytes between its quotation marks.
`escape` writes a text, and `read?` reads a written form: escapes are resolved,
and what comes out has to be a text, so half of a surrogate pair is none.  What
was written by `escape` reads back (`read?_escape`).

`scan` finds the end of a written form (`scan_escape`), which holds no control
character and no other escapes than those of the grammar.
-/
import PropertyGraph.Bytes.Utf8

namespace PropertyGraph.Json

set_option autoImplicit false

/-- The letter that stands for a byte behind a backslash. -/
def shortEscape (b : UInt8) : Option UInt8 :=
  if b = 0x22 then some 0x22
  else if b = 0x5C then some 0x5C
  else if b = 0x08 then some 0x62
  else if b = 0x0C then some 0x66
  else if b = 0x0A then some 0x6E
  else if b = 0x0D then some 0x72
  else if b = 0x09 then some 0x74
  else none

/-- A digit of base sixteen as a byte, in lower case. -/
def hexByte (n : UInt8) : UInt8 := if n < 10 then 0x30 + n else 0x57 + n

/-- A byte of a text as it is written. -/
def escapeByte (b : UInt8) : Bytes :=
  match shortEscape b with
  | some letter => [0x5C, letter]
  | none => if b < 0x20 then [0x5C, 0x75, 0x30, 0x30, hexByte (b / 16), hexByte (b % 16)] else [b]

/-- The written form of a text. -/
def escape (s : String) : Bytes := (Bytes.ofText s).flatMap escapeByte

/-- The value of a digit of base sixteen. -/
def hexValue (b : UInt8) : Option Nat :=
  if 0x30 ≤ b ∧ b ≤ 0x39 then some (b.toNat - 0x30)
  else if 0x41 ≤ b ∧ b ≤ 0x46 then some (b.toNat - 0x37)
  else if 0x61 ≤ b ∧ b ≤ 0x66 then some (b.toNat - 0x57)
  else none

/-- The number of four digits at the front. -/
def hexWord : Bytes → Option (Nat × Bytes)
  | a :: b :: c :: d :: rest => do
      return (((← hexValue a) * 16 + (← hexValue b)) * 256 + (← hexValue c) * 16 + (← hexValue d),
        rest)
  | _ => none

/-- The byte that a letter behind a backslash stands for. -/
def letterValue (b : UInt8) : Option UInt8 :=
  if b = 0x22 ∨ b = 0x5C ∨ b = 0x2F then some b
  else if b = 0x62 then some 0x08
  else if b = 0x66 then some 0x0C
  else if b = 0x6E then some 0x0A
  else if b = 0x72 then some 0x0D
  else if b = 0x74 then some 0x09
  else none

/-- The written form at the front, up to a quotation mark, and what follows the
mark. -/
def scan : Bytes → Option (Bytes × Bytes)
  | [] => none
  | 0x22 :: rest => some ([], rest)
  | 0x5C :: 0x75 :: a :: b :: c :: d :: rest =>
      if (hexWord [a, b, c, d]).isSome then
        (scan rest).map fun (w, tail) => (0x5C :: 0x75 :: a :: b :: c :: d :: w, tail)
      else none
  | 0x5C :: letter :: rest =>
      if (letterValue letter).isSome then
        (scan rest).map fun (w, tail) => (0x5C :: letter :: w, tail)
      else none
  | b :: rest =>
      if b < 0x20 ∨ b = 0x5C then none else (scan rest).map fun (w, tail) => (b :: w, tail)

/-- The first of a pair of surrogates. -/
def isHigh (n : Nat) : Bool := 0xD800 ≤ n && n < 0xDC00

/-- The second of a pair of surrogates. -/
def isLow (n : Nat) : Bool := 0xDC00 ≤ n && n < 0xE000

/-- What a written form consists of: a byte, or a code unit of sixteen bits. -/
inductive Piece where
  | byte (b : UInt8)
  | unit (n : Nat)
  deriving DecidableEq

/-- The pieces of a written form. -/
def pieces : Bytes → Option (List Piece)
  | [] => some []
  | 0x5C :: 0x75 :: a :: b :: c :: d :: rest => do
      let (n, _) ← hexWord [a, b, c, d]
      return .unit n :: (← pieces rest)
  | 0x5C :: letter :: rest => do return .byte (← letterValue letter) :: (← pieces rest)
  | b :: rest => do return .byte b :: (← pieces rest)

/-- The bytes that pieces stand for; surrogates come in pairs. -/
def join : List Piece → Option Bytes
  | [] => some []
  | .byte b :: rest => do return b :: (← join rest)
  | .unit n :: .unit m :: rest =>
      if isHigh n then
        if isLow m then do
          return String.utf8EncodeChar
            (Char.ofNat (0x10000 + (n - 0xD800) * 0x400 + (m - 0xDC00))) ++ (← join rest)
        else none
      else if isLow n then none
      else do return String.utf8EncodeChar (Char.ofNat n) ++ (← join (.unit m :: rest))
  | .unit n :: rest =>
      if isHigh n || isLow n then none
      else do return String.utf8EncodeChar (Char.ofNat n) ++ (← join rest)

/-- The text of a written form. -/
def read? (written : Bytes) : Option String := ((pieces written).bind join).bind Bytes.text?

/-- The piece that a byte of a text is written as. -/
def pieceOf (b : UInt8) : Piece :=
  if (shortEscape b).isNone ∧ b < 0x20 then .unit b.toNat else .byte b

theorem hexWord_control (b : UInt8) (small : b < 0x20) :
    hexWord [0x30, 0x30, hexByte (b / 16), hexByte (b % 16)] = some (b.toNat, []) := by
  have all : ∀ n : Fin 32, hexWord [0x30, 0x30, hexByte (UInt8.ofNat n / 16),
      hexByte (UInt8.ofNat n % 16)] = some (n.val, []) := by decide
  have := all ⟨b.toNat, by simpa [UInt8.lt_iff_toNat_lt] using small⟩
  simpa using this

theorem pieces_plain {b : UInt8} (plain : b ≠ 0x5C) (rest : Bytes) :
    pieces (b :: rest) = (pieces rest).map (.byte b :: ·) := by
  rw [pieces.eq_def]
  split
  · simp_all
  · rename_i same; cases same; exact absurd rfl plain
  · rename_i same; cases same; exact absurd rfl plain
  · rename_i same
    cases same
    cases pieces rest <;> simp

theorem pieces_escapeByte (b : UInt8) (rest : Bytes) :
    pieces (escapeByte b ++ rest) = (pieces rest).map (pieceOf b :: ·) := by
  unfold escapeByte pieceOf
  split
  · rename_i letter h
    unfold shortEscape at h
    repeat' split at h
    all_goals simp only [Option.some.injEq, reduceCtorEq] at h
    all_goals (subst_vars; simp [pieces, shortEscape, letterValue])
    all_goals cases pieces rest <;> simp
  · rename_i h
    simp only [h, Option.isNone_none, true_and]
    split
    · rename_i small
      simp [pieces, hexWord_control b small]
      cases pieces rest <;> simp
    · rename_i big
      have : b ≠ 0x5C := by rintro rfl; simp [shortEscape] at h
      exact pieces_plain this rest

theorem pieces_flatMap (b : Bytes) : pieces (b.flatMap escapeByte) = some (b.map pieceOf) := by
  induction b with
  | nil => rfl
  | cons b rest ih => simp [pieces_escapeByte, ih]

theorem encode_control (n : Nat) (small : n < 32) :
    String.utf8EncodeChar (Char.ofNat n) = [UInt8.ofNat n] := by
  have all : ∀ n : Fin 32, String.utf8EncodeChar (Char.ofNat n.val) =
      [UInt8.ofNat n.val] := by decide
  exact all ⟨n, small⟩

theorem join_pieceOf (b : Bytes) : join (b.map pieceOf) = some b := by
  induction b with
  | nil => rfl
  | cons b rest ih =>
      rw [List.map_cons, pieceOf]
      split
      · rename_i h
        have small : b.toNat < 32 := by simpa [UInt8.lt_iff_toNat_lt] using h.2
        have notHigh : isHigh b.toNat = false := by simp [isHigh]; omega
        have notLow : isLow b.toNat = false := by simp [isLow]; omega
        have step : ∀ ps, join ps = some rest → join (.unit b.toNat :: ps) = some (b :: rest) := by
          intro ps h
          rw [join.eq_def]
          split
          · simp_all
          · simp_all
          · rename_i same; cases same
            simp_all [encode_control _ small]
          · rename_i same; cases same
            simp_all [encode_control _ small]
        exact step _ ih
      · simp [join, ih]

/-- What was written reads back. -/
theorem read?_escape (s : String) : read? (escape s) = some s := by
  simp [read?, escape, pieces_flatMap, join_pieceOf, Bytes.text?_ofText]

theorem scan_plain {b : UInt8} (visible : 0x20 ≤ b) (plain : b ≠ 0x5C) (mark : b ≠ 0x22)
    (rest : Bytes) : scan (b :: rest) = (scan rest).map fun (w, tail) => (b :: w, tail) := by
  rw [scan.eq_def]
  split
  · simp_all
  · rename_i same; cases same; exact absurd rfl mark
  · rename_i same; cases same; exact absurd rfl plain
  · rename_i same; cases same; exact absurd rfl plain
  · rename_i same
    cases same
    have : ¬ b < 0x20 := by
      simp only [UInt8.lt_iff_toNat_lt, UInt8.le_iff_toNat_le] at *
      omega
    simp [this, plain]

theorem scan_escapeByte (b : UInt8) (rest : Bytes) :
    scan (escapeByte b ++ rest) =
      (scan rest).map fun (w, tail) => (escapeByte b ++ w, tail) := by
  unfold escapeByte
  split
  · rename_i letter h
    unfold shortEscape at h
    repeat' split at h
    all_goals simp only [Option.some.injEq, reduceCtorEq] at h
    all_goals (subst h; simp [scan, letterValue])
  · rename_i h
    split
    · rename_i small
      simp [scan, hexWord_control b small]
    · rename_i big
      have plain : b ≠ 0x5C := by rintro rfl; simp [shortEscape] at h
      have mark : b ≠ 0x22 := by rintro rfl; simp [shortEscape] at h
      have visible : 0x20 ≤ b := by
        simp only [UInt8.lt_iff_toNat_lt, UInt8.le_iff_toNat_le] at *
        omega
      exact scan_plain visible plain mark rest

/-- A written form ends at its quotation mark. -/
theorem scan_escape (s : String) (rest : Bytes) :
    scan (escape s ++ 0x22 :: rest) = some (escape s, rest) := by
  unfold escape
  induction Bytes.ofText s with
  | nil => simp [scan]
  | cons b tail ih => simp [scan_escapeByte, ih]

end PropertyGraph.Json
