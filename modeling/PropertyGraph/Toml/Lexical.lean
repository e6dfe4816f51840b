/-
# Toml.Lexical -- blanks, comments and digits in TOML

Each scanner takes one thing from the front of a text and answers it with what is
left.  A scanner whose name starts with `skip` answers only what is left.
-/
import PropertyGraph.Toml.Basic

namespace PropertyGraph.Toml

set_option autoImplicit false

def skipBlank (s : List Char) : List Char := s.dropWhile isBlank

/-- What is left behind a comment, if one stands at the front. -/
def skipComment (s : List Char) : List Char :=
  match s with
  | '#' :: rest => rest.dropWhile isVisible
  | s => s

/-- What is left behind the end of a line. -/
def newline : List Char → Option (List Char)
  | '\n' :: rest => some rest
  | '\r' :: '\n' :: rest => some rest
  | _ => none

/-- What is left of the lines when nothing but blanks and a comment remains on the
first of them. -/
def endOfLine (s : List Char) : Option (List Char) :=
  match skipComment (skipBlank s) with
  | [] => some []
  | s => newline s

/-- What is left behind blanks, comments and ends of lines, through at most so many
lines. -/
def skipLines : Nat → List Char → List Char
  | 0, s => s
  | lines + 1, s =>
      let s := skipComment (skipBlank s)
      match newline s with
      | some rest => skipLines lines rest
      | none => s

/-- What is left behind a character that has to stand at the front. -/
def skipChar (c : Char) : List Char → Option (List Char)
  | [] => none
  | d :: rest => if d = c then some rest else none

/-- The value of a digit in some base. -/
def digitValue (base : Nat) (c : Char) : Option Nat :=
  let v :=
    if '0' ≤ c ∧ c ≤ '9' then c.toNat - 48
    else if 'a' ≤ c ∧ c ≤ 'f' then c.toNat - 87
    else if 'A' ≤ c ∧ c ≤ 'F' then c.toNat - 55
    else base
  if v < base then some v else none

/-- Digits of a base, each behind the first with or without an underscore before
it. -/
def digitsFrom (base : Nat) : List Char → List Nat × List Char
  | [] => ([], [])
  | '_' :: c :: rest =>
      match digitValue base c with
      | some d =>
          let (ds, tail) := digitsFrom base rest
          (d :: ds, tail)
      | none => ([], '_' :: c :: rest)
  | c :: rest =>
      match digitValue base c with
      | some d =>
          let (ds, tail) := digitsFrom base rest
          (d :: ds, tail)
      | none => ([], c :: rest)

/-- Digits of a base: one, and more. -/
def digitRun (base : Nat) : List Char → Option (List Nat × List Char)
  | [] => none
  | c :: rest => do
      let d ← digitValue base c
      let (ds, tail) := digitsFrom base rest
      return (d :: ds, tail)

/-- The number of digits in a base. -/
def valueIn (base : Nat) (ds : List Nat) : Nat := ds.foldl (fun acc d => acc * base + d) 0

end PropertyGraph.Toml
