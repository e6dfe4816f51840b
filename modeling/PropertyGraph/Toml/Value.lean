/-
# Toml.Value -- values in TOML

Values are texts, moments, numbers, truth values, lists and tables on one line.
Of a value only the setting is kept, if it is one; any other value has to be well
formed and is passed over.

* Lists and tables stand at most `nesting` deep within one another.
* In a table on one line a name is given once, and what is given for it is not
  added to: no name with points begins with another (`apart`).
-/
import PropertyGraph.Toml.Moment
import PropertyGraph.Toml.Number
import PropertyGraph.Toml.Text

namespace PropertyGraph.Toml

set_option autoImplicit false

/-- How deep lists and tables can stand within one another, and how many parts a
name can have. -/
def nesting : Nat := 79

/-- A truth value or a whole number. -/
def plainValue (s : List Char) : Option (Setting × List Char) :=
  match s with
  | 't' :: 'r' :: 'u' :: 'e' :: rest => some (.bool true, rest)
  | 'f' :: 'a' :: 'l' :: 's' :: 'e' :: rest => some (.bool false, rest)
  | s => wholeNumber s

/-- A value that is neither a list nor a table, and its setting. -/
def scalar (s : List Char) : Option (Option Setting × List Char) :=
  match skipText s <|> skipMoment s <|> skipReal s with
  | some rest => some (none, rest)
  | none => (plainValue s).map fun (v, rest) => (some v, rest)

variable {α : Type}

/-- The values of a list, up to its closing bracket. -/
def listValues (read : List Char → Option (α × List Char)) :
    Nat → List Char → Option (List α × List Char)
  | 0, _ => none
  | more + 1, s =>
      match skipLines s.length s with
      | ']' :: tail => some ([], tail)
      | s => do
          let (v, rest) ← read s
          match skipLines rest.length rest with
          | ',' :: rest => do
              let (others, tail) ← listValues read more rest
              return (v :: others, tail)
          | ']' :: tail => return ([v], tail)
          | _ => none

/-- The entries of a table on one line, up to its closing brace. -/
def inlineEntries (read : List Char → Option (α × List Char)) :
    Nat → List Char → Option (List (List String × α) × List Char)
  | 0, _ => none
  | more + 1, s => do
      let (names, rest) ← path nesting s
      let (v, rest) ← read (skipBlank (← skipChar '=' rest))
      match skipBlank rest with
      | ',' :: rest => do
          let (others, tail) ← inlineEntries read more rest
          return ((names, v) :: others, tail)
      | '\x7d' :: tail => return ([(names, v)], tail)
      | _ => none

/-- No list of names begins with another one. -/
def apart : List (List String) → Bool
  | [] => true
  | names :: rest =>
      rest.all (fun other => !names.isPrefixOf other && !other.isPrefixOf names) && apart rest

/-- A table on one line, behind its opening brace. -/
def inlineTable (read : List Char → Option (α × List Char)) (s : List Char) :
    Option (List (List String × α) × List Char) :=
  match skipBlank s with
  | '\x7d' :: tail => some ([], tail)
  | rest => do
      let (entries, tail) ← inlineEntries read rest.length rest
      if apart (entries.map Prod.fst) then return (entries, tail) else none

/-- A value with at most so many lists and tables around its parts, and its
setting. -/
def value : Nat → List Char → Option (Option Setting × List Char)
  | 0, s => scalar s
  | levels + 1, s =>
      match s with
      | '[' :: rest =>
          (listValues (value levels) s.length rest).map fun (_, tail) => (none, tail)
      | '\x7b' :: rest => (inlineTable (value levels) rest).map fun (_, tail) => (none, tail)
      | s => scalar s

end PropertyGraph.Toml
