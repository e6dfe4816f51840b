/-
# Toml.Basic -- documents of named settings

The part of TOML that configurations are written in: a document has settings and
tables of settings, and a setting is a truth value or a whole number.  Where a
table is expected its values may also stand alone, as a list; a list can hold
values that no setting has.

* `TomlLibrary` is what reads and writes documents.
* `Toml.writeTable` is a table under its heading, one setting a line.
-/
import PropertyGraph.Numeral

namespace PropertyGraph

set_option autoImplicit false

/-- The value of a setting. -/
inductive Setting where
  | bool (b : Bool)
  | int (n : Int)
  deriving DecidableEq

/-- What a name stands for in a document. -/
inductive Toml where
  | setting (v : Setting)
  /-- The settings of a list, with none in the place of any other value. -/
  | list (values : List (Option Setting))
  | table (entries : List (String × Setting))
  deriving DecidableEq

/-- A table and its name. -/
abbrev NamedTable := String × List (String × Setting)

/-- What reads and writes documents. -/
structure TomlLibrary where
  /-- The names of a document and what they stand for, unless the text is refused. -/
  read? : String → Option (List (String × Toml))
  /-- A document of some tables, unless they cannot be written. -/
  write? : List NamedTable → Option String

namespace Toml

/-- A line of a document. -/
inductive Line where
  | heading (title : String)
  | assign (names : List String) (value : Toml)
  deriving DecidableEq

def isBlank (c : Char) : Bool := c == ' ' || c == '\t'

/-- Neither a control character nor the end of a line. -/
def isVisible (c : Char) : Bool := c == '\t' || (' ' ≤ c && c != '\x7f')

/-- A character of a name that needs no quotation marks. -/
def isBare (c : Char) : Bool := c.isAlphanum || c == '_' || c == '-'

/-- The greatest whole number of a document. -/
def greatest : Int := 0x7FFFFFFFFFFFFFFF

/-- The least whole number of a document. -/
def least : Int := -0x8000000000000000

/-- A document has room for the setting. -/
def Fits : Setting → Prop
  | .bool _ => True
  | .int n => least ≤ n ∧ n ≤ greatest

instance : DecidablePred Fits
  | .bool _ => inferInstanceAs (Decidable True)
  | .int n => inferInstanceAs (Decidable (least ≤ n ∧ n ≤ greatest))

/-- The character of a digit. -/
def digit (d : Nat) : Char := Char.ofNat (48 + d)

/-- The digits of a natural number. -/
def writeNat (n : Nat) : List Char := (Numeral.digits n).map digit

def writeSetting : Setting → List Char
  | .bool b => if b then "true".toList else "false".toList
  | .int n => if n < 0 then '-' :: writeNat n.natAbs else writeNat n.natAbs

/-- A setting on a line of its own. -/
def writeLine (entry : String × Setting) : List Char :=
  entry.1.toList ++ ' ' :: '=' :: ' ' :: (writeSetting entry.2 ++ ['\n'])

/-- A table under its heading. -/
def writeTable (name : String) (entries : List (String × Setting)) : List Char :=
  '[' :: (name.toList ++ ']' :: '\n' :: entries.flatMap writeLine)

/-- Tables with an empty line between them. -/
def writeTables : List NamedTable → List Char
  | [] => []
  | [last] => writeTable last.1 last.2
  | first :: rest => writeTable first.1 first.2 ++ '\n' :: writeTables rest

end Toml

end PropertyGraph
