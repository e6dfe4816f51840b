/-
# Toml.Reader -- reading documents of settings

A document is a sequence of lines: headings, which open a table, and assignments.
An assignment before the first heading may give a whole table at once or, with a
name of two parts, one setting of a table.

A table is given in one of these three ways only, and no setting is given twice.
A list may hold any values.  Documents with anything else in them are refused.

`Toml.library` reads documents in this way and writes tables under their headings.
-/
import PropertyGraph.Toml.Value

namespace PropertyGraph.Toml

set_option autoImplicit false

/-- A setting under a single name. -/
def ownSetting : List String × Option Setting → Option (String × Setting)
  | ([key], some v) => some (key, v)
  | _ => none

/-- What is assigned to a name. -/
def assigned (s : List Char) : Option (Toml × List Char) :=
  match s with
  | '\x7b' :: rest => do
      let (entries, tail) ← inlineTable (value (nesting - 1)) rest
      return (.table (← entries.mapM ownSetting), tail)
  | '[' :: rest =>
      (listValues (value (nesting - 1)) s.length rest).map fun (values, tail) =>
        (.list values, tail)
  | s => (plainValue s).map fun (v, tail) => (.setting v, tail)

/-- A heading or an assignment. -/
def line (s : List Char) : Option (Line × List Char) :=
  match s with
  | '[' :: rest => do
      let (title, rest) ← name (skipBlank rest)
      match skipBlank rest with
      | ']' :: tail => return (.heading title, tail)
      | _ => none
  | s => do
      let (names, rest) ← path nesting s
      match rest with
      | '=' :: rest => do
          let (v, tail) ← assigned (skipBlank rest)
          return (.assign names v, tail)
      | _ => none

/-- The lines of a document, at most so many. -/
def lines : Nat → List Char → Option (List Line)
  | 0, s => if s.isEmpty then some [] else none
  | more + 1, s =>
      match skipBlank s with
      | [] => some []
      | s =>
          match endOfLine s with
          | some rest => lines more rest
          | none => do
              let (first, rest) ← line s
              let others ← lines more (← endOfLine rest)
              return first :: others

/-- A table while the document is read, and whether lines can still add to it. -/
structure Draft where
  value : Toml
  /-- The table is being put together from assignments with two names. -/
  byParts : Bool
  deriving DecidableEq

/-- Adds a setting to a table. -/
def addSetting (key : String) (v : Toml) (d : Draft) : Option Draft :=
  match d.value, v with
  | .table entries, .setting v =>
      if entries.any fun e => e.1 == key then none
      else some { d with value := .table (entries ++ [(key, v)]) }
  | _, _ => none

/-- Changes what a name stands for. -/
def change (key : String) (f : Draft → Option Draft) :
    List (String × Draft) → Option (List (String × Draft))
  | [] => none
  | (other, d) :: rest =>
      if other = key then (f d).map fun d => (other, d) :: rest
      else (change key f rest).map fun rest => (other, d) :: rest

/-- The names of a document and the table that is open. -/
structure Drafting where
  names : List (String × Draft)
  opened : Option String
  deriving DecidableEq

/-- Takes a line. -/
def Drafting.take (d : Drafting) (l : Line) : Option Drafting :=
  match l, d.opened with
  | .heading title, _ =>
      if (d.names.lookup title).isSome then none
      else some ⟨d.names ++ [(title, ⟨.table [], false⟩)], some title⟩
  | .assign [key] v, none =>
      if (d.names.lookup key).isSome then none
      else some { d with names := d.names ++ [(key, ⟨v, false⟩)] }
  | .assign [title, key] v, none =>
      match d.names.lookup title with
      | some draft =>
          if draft.byParts then
            (change title (addSetting key v) d.names).map fun names => { d with names }
          else none
      | none =>
          (addSetting key v ⟨.table [], true⟩).map fun draft =>
            { d with names := d.names ++ [(title, draft)] }
  | .assign [key] v, some title =>
      (change title (addSetting key v) d.names).map fun names => { d with names }
  | _, _ => none

/-- A mark at the start of a text that says how it is encoded. -/
def skipMark (s : List Char) : List Char :=
  match s with
  | '\ufeff' :: rest => rest
  | s => s

/-- What the names of a document stand for. -/
def read? (s : String) : Option (List (String × Toml)) := do
  let text := skipMark s.toList
  let found ← lines (text.length + 1) text
  let drafting ← found.foldlM Drafting.take ⟨[], none⟩
  return drafting.names.map fun (key, draft) => (key, draft.value)

/-- The library that reads and writes with the definitions above. -/
def library : TomlLibrary where
  read? := read?
  write? tables :=
    if ∀ t ∈ tables, ∀ e ∈ t.2, Fits e.2 then some (String.ofList (writeTables tables)) else none

end PropertyGraph.Toml
