/-
# Toml.Number -- numbers in TOML

Numbers may have a sign and underscores between their digits.  Whole numbers can
be written in base sixteen, eight or two as well; they are the only numbers whose
value a document is asked for.  A number with a fraction or an exponent is one
that a double can hold: only a positive one can be too great.
-/
import PropertyGraph.Double.Range
import PropertyGraph.Toml.Lexical

namespace PropertyGraph.Toml

set_option autoImplicit false

/-- A sign at the front, if there is one: whether it is negative. -/
def sign (s : List Char) : Bool × List Char :=
  match s with
  | '-' :: rest => (true, rest)
  | '+' :: rest => (false, rest)
  | s => (false, s)

def signed (negative : Bool) (n : Nat) : Int := if negative then -(n : Int) else n

/-- Digits of base ten; zero stands alone. -/
def wholeDigits (s : List Char) : Option (List Nat × List Char) :=
  match s with
  | '0' :: rest => some ([0], rest)
  | s => digitRun 10 s

/-- A number in a base. -/
def numberIn (base : Nat) (s : List Char) : Option (Int × List Char) :=
  (digitRun base s).map fun (ds, tail) => ((valueIn base ds : Int), tail)

/-- A number in base ten with or without a sign. -/
def decimal (s : List Char) : Option (Int × List Char) :=
  let (negative, rest) := sign s
  (wholeDigits rest).map fun (ds, tail) => (signed negative (valueIn 10 ds), tail)

/-- A whole number within the bounds of a document. -/
def bounded (n : Int) : Option Setting :=
  if least ≤ n ∧ n ≤ greatest then some (.int n) else none

/-- A whole number. -/
def wholeNumber (s : List Char) : Option (Setting × List Char) := do
  let (n, rest) ← (match s with
    | '0' :: 'x' :: rest => numberIn 16 rest
    | '0' :: 'o' :: rest => numberIn 8 rest
    | '0' :: 'b' :: rest => numberIn 2 rest
    | s => decimal s)
  return (← bounded n, rest)

/-- The digits of a fraction. -/
def fraction : List Char → Option (List Nat × List Char)
  | '.' :: rest => digitRun 10 rest
  | _ => none

/-- An exponent of ten. -/
def exponent : List Char → Option (Int × List Char)
  | [] => none
  | c :: rest =>
      if c = 'e' ∨ c = 'E' then
        let (negative, rest) := sign rest
        (digitRun 10 rest).map fun (ds, tail) => (signed negative (valueIn 10 ds), tail)
      else none

/-- A number with a fraction, an exponent or both: its digits as a number, and the
exponent of ten of the last of them. -/
def scientific (s : List Char) : Option ((Nat × Int) × List Char) := do
  let (whole, rest) ← wholeDigits s
  match fraction rest with
  | some (places, rest) =>
      let (e, rest) := (exponent rest).getD (0, rest)
      return ((valueIn 10 (whole ++ places), e - places.length), rest)
  | none =>
      let (e, rest) ← exponent rest
      return ((valueIn 10 whole, e), rest)

/-- What is left behind a number that is not whole, an infinity or no number. -/
def skipReal (s : List Char) : Option (List Char) :=
  let (negative, rest) := sign s
  match rest with
  | 'i' :: 'n' :: 'f' :: tail => some tail
  | 'n' :: 'a' :: 'n' :: tail => some tail
  | rest => do
      let ((k, e), tail) ← scientific rest
      if !negative && Double.exceeds k e then none else return tail

end PropertyGraph.Toml
