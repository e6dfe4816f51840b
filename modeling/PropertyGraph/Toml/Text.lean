/-
# Toml.Text -- texts and names in TOML

A text stands between quotation marks, where a backslash starts an escape, or
between apostrophes, where it does not.  Three marks in place of one let a text go
on over several lines.  Names are bare, or texts on one line.
-/
import PropertyGraph.Toml.Lexical

namespace PropertyGraph.Toml

set_option autoImplicit false

/-- The character of some digits of base sixteen. -/
def codePoint (ds : List Char) : Option Char := do
  let vs ← ds.mapM (digitValue 16)
  let n := vs.foldl (fun acc d => acc * 16 + d) 0
  if n.isValidChar then some (Char.ofNat n) else none

/-- What a letter behind a backslash stands for. -/
def escaped (c : Char) : Option Char :=
  match c with
  | 'b' => some '\x08'
  | 't' => some '\t'
  | 'n' => some '\n'
  | 'f' => some '\x0c'
  | 'r' => some '\r'
  | '\x22' => some c
  | '\\' => some c
  | _ => none

/-- What stands before the closing quotation mark, with escapes. -/
def basicText : List Char → Option (List Char × List Char)
  | [] => none
  | '\x22' :: rest => some ([], rest)
  | '\\' :: 'u' :: a :: b :: c :: d :: rest => do
      let x ← codePoint [a, b, c, d]
      let (text, tail) ← basicText rest
      return (x :: text, tail)
  | '\\' :: 'U' :: a :: b :: c :: d :: e :: f :: g :: h :: rest => do
      let x ← codePoint [a, b, c, d, e, f, g, h]
      let (text, tail) ← basicText rest
      return (x :: text, tail)
  | '\\' :: letter :: rest => do
      let x ← escaped letter
      let (text, tail) ← basicText rest
      return (x :: text, tail)
  | c :: rest => do
      if !isVisible c || c == '\\' then none
      else
        let (text, tail) ← basicText rest
        return (c :: text, tail)

/-- What stands before the closing apostrophe; there are no escapes. -/
def literalText (s : List Char) : Option (List Char × List Char) :=
  match s.span fun c => isVisible c && c != '\x27' with
  | (text, '\x27' :: rest) => some (text, rest)
  | _ => none

/-- What is left behind a mark, if one stands at the front. -/
def passMark (mark : Char) (s : List Char) : List Char :=
  match s with
  | [] => []
  | c :: rest => if c = mark then rest else s

/-- What is left behind the three marks that close a long text.  Up to two marks
more belong to the text, which then ends in them. -/
def passMarks (mark : Char) (s : List Char) : List Char := passMark mark (passMark mark s)

/-- What is left behind a text up to three quotation marks.  A backslash at the
end of a line takes the end of the line out of the text. -/
def skipLongBasic : List Char → Option (List Char)
  | [] => none
  | '\x22' :: '\x22' :: '\x22' :: rest => some (passMarks '\x22' rest)
  | '\\' :: 'u' :: a :: b :: c :: d :: rest => do
      let _ ← codePoint [a, b, c, d]
      skipLongBasic rest
  | '\\' :: 'U' :: a :: b :: c :: d :: e :: f :: g :: h :: rest => do
      let _ ← codePoint [a, b, c, d, e, f, g, h]
      skipLongBasic rest
  | '\\' :: c :: rest =>
      if (escaped c).isSome || (newline (skipBlank (c :: rest))).isSome then skipLongBasic rest
      else none
  | '\n' :: rest => skipLongBasic rest
  | '\r' :: '\n' :: rest => skipLongBasic rest
  | c :: rest => if isVisible c && c != '\\' then skipLongBasic rest else none

/-- What is left behind a text up to three apostrophes. -/
def skipLongLiteral : List Char → Option (List Char)
  | [] => none
  | '\x27' :: '\x27' :: '\x27' :: rest => some (passMarks '\x27' rest)
  | '\n' :: rest => skipLongLiteral rest
  | '\r' :: '\n' :: rest => skipLongLiteral rest
  | c :: rest => if isVisible c then skipLongLiteral rest else none

/-- What is left behind a text of any form. -/
def skipText : List Char → Option (List Char)
  | '\x22' :: '\x22' :: '\x22' :: rest => skipLongBasic rest
  | '\x22' :: rest => (basicText rest).map Prod.snd
  | '\x27' :: '\x27' :: '\x27' :: rest => skipLongLiteral rest
  | '\x27' :: rest => (literalText rest).map Prod.snd
  | _ => none

/-- A name. -/
def name (s : List Char) : Option (String × List Char) :=
  match s with
  | '\x22' :: rest => (basicText rest).map fun (text, tail) => (String.ofList text, tail)
  | '\x27' :: rest => (literalText rest).map fun (text, tail) => (String.ofList text, tail)
  | s =>
      match s.span isBare with
      | ([], _) => none
      | (text, rest) => some (String.ofList text, rest)

/-- Names with points between them, and blanks around these; at most so many. -/
def path : Nat → List Char → Option (List String × List Char)
  | 0, _ => none
  | more + 1, s => do
      let (first, rest) ← name (skipBlank s)
      match skipBlank rest with
      | '.' :: rest => do
          let (others, tail) ← path more rest
          return (first :: others, tail)
      | rest => return ([first], rest)

end PropertyGraph.Toml
