/-
# Json.Reader -- reading JSON

A reader takes a value from the front of the bytes and answers it with what is
left.  A document is a single value with nothing but space around it.

An integer that fits into 64 bits, signed or unsigned, is read as such; every
other number is kept as it is written.  So is a negative zero, which no integer
can stand for.
-/
import PropertyGraph.Json.Basic

namespace PropertyGraph.Json

set_option autoImplicit false

def isSpace (b : UInt8) : Bool := b == 0x20 || b == 0x09 || b == 0x0A || b == 0x0D

def skipSpace (b : Bytes) : Bytes := b.dropWhile isSpace

def isDigit (b : UInt8) : Bool := 0x30 ≤ b && b ≤ 0x39

/-- What is left behind a literal. -/
def expect (literal b : Bytes) : Option Bytes :=
  if literal.isPrefixOf b then some (b.drop literal.length) else none

/-- A fraction at the front: a point and at least one digit, or nothing. -/
def fraction (b : Bytes) : Option (Bytes × Bytes) :=
  match b with
  | 0x2E :: rest =>
      let (ds, tail) := rest.span isDigit
      if ds.isEmpty then none else some (0x2E :: ds, tail)
  | b => some ([], b)

/-- A sign at the front, or nothing. -/
def sign (b : Bytes) : Bytes × Bytes :=
  match b with
  | 0x2B :: rest => ([0x2B], rest)
  | 0x2D :: rest => ([0x2D], rest)
  | b => ([], b)

/-- An exponent at the front: its letter, a sign or none, and at least one digit;
or nothing. -/
def exponent (b : Bytes) : Option (Bytes × Bytes) :=
  match b with
  | [] => some ([], [])
  | e :: rest =>
      if e = 0x65 ∨ e = 0x45 then
        let (s, rest) := sign rest
        let (ds, tail) := rest.span isDigit
        if ds.isEmpty then none else some (e :: (s ++ ds), tail)
      else some ([], e :: rest)

/-- The integer of a sign and digits, where it fits into 64 bits. -/
def integer? (negative : Bool) (n : Nat) : Option Int :=
  if negative then
    if 0 < n ∧ n ≤ 0x8000000000000000 then some (-(n : Int)) else none
  else if n < 0x10000000000000000 then some n else none

/-- The number of some digits. -/
def digitsValue (ds : Bytes) : Nat := Numeral.value (ds.map fun d => d.toNat - 0x30)

/-- No zero stands in front of another digit. -/
def properDigits (ds : Bytes) : Bool :=
  match ds with
  | [] => false
  | [_] => true
  | d :: _ => d != 0x30

/-- An unsigned number at the front. -/
def unsigned (negative : Bool) (b : Bytes) : Option (Json × Bytes) := do
  let (ds, rest) := b.span isDigit
  if !properDigits ds then none
  else
    let (f, rest) ← fraction rest
    let (e, rest) ← exponent rest
    let written := (if negative then [0x2D] else []) ++ ds ++ f ++ e
    if f.isEmpty && e.isEmpty then
      match integer? negative (digitsValue ds) with
      | some n => return (.int n, rest)
      | none => return (.real written, rest)
    else return (.real written, rest)

def number (b : Bytes) : Option (Json × Bytes) :=
  match b with
  | 0x2D :: rest => unsigned true rest
  | b => unsigned false b

mutual

/-- The value at the front, through at most so many steps. -/
def value : Nat → Bytes → Option (Json × Bytes)
  | 0, _ => none
  | steps + 1, b =>
      match skipSpace b with
      | 0x6E :: rest => (expect (ascii "ull") rest).map fun tail => (.null, tail)
      | 0x74 :: rest => (expect (ascii "rue") rest).map fun tail => (.bool true, tail)
      | 0x66 :: rest => (expect (ascii "alse") rest).map fun tail => (.bool false, tail)
      | 0x22 :: rest => (scan rest).map fun (w, tail) => (.text w, tail)
      | 0x5B :: rest =>
          match skipSpace rest with
          | 0x5D :: tail => some (.list [], tail)
          | b => (items steps b).map fun (l, tail) => (.list l, tail)
      | 0x7B :: rest =>
          match skipSpace rest with
          | 0x7D :: tail => some (.object [], tail)
          | b => (fields steps b).map fun (l, tail) => (.object l, tail)
      | b => number b

/-- The items at the front, up to a closing bracket. -/
def items : Nat → Bytes → Option (List Json × Bytes)
  | 0, _ => none
  | steps + 1, b => do
      let (item, rest) ← value steps b
      match skipSpace rest with
      | 0x2C :: rest => do
          let (others, tail) ← items steps rest
          return (item :: others, tail)
      | 0x5D :: tail => return ([item], tail)
      | _ => none

/-- The fields at the front, up to a closing brace. -/
def fields : Nat → Bytes → Option (List (Bytes × Json) × Bytes)
  | 0, _ => none
  | steps + 1, b =>
      match skipSpace b with
      | 0x22 :: rest => do
          let (name, rest) ← scan rest
          match skipSpace rest with
          | 0x3A :: rest => do
              let (item, rest) ← value steps rest
              match skipSpace rest with
              | 0x2C :: rest => do
                  let (others, tail) ← fields steps rest
                  return ((name, item) :: others, tail)
              | 0x7D :: tail => return ([(name, item)], tail)
              | _ => none
          | _ => none
      | _ => none

end

/-- The value of a document. -/
def parse (b : Bytes) : Option Json :=
  match value (2 * b.length + 2) b with
  | some (j, rest) => if (skipSpace rest).isEmpty then some j else none
  | none => none

end PropertyGraph.Json
