/-
# Json.Basic -- JSON values and how they are written

Texts and the names of fields are kept in their written form (`Json.Text`), and so
are numbers that are no integers.  `Json.write` is the compact form of a value,
without any space.
-/
import PropertyGraph.Json.Text
import PropertyGraph.Numeral

namespace PropertyGraph

set_option autoImplicit false

inductive Json where
  | null
  | bool (b : Bool)
  | int (n : Int)
  | real (written : Bytes)
  | text (written : Bytes)
  | list (items : List Json)
  | object (fields : List (Bytes × Json))

namespace Json

/-- A text as a JSON value. -/
def ofText (s : String) : Json := .text (escape s)

/-- An object with these fields. -/
def record (fields : List (String × Json)) : Json :=
  .object (fields.map fun f => (escape f.1, f.2))

/-- The bytes of characters of ASCII. -/
def ascii (s : String) : Bytes := s.toList.map fun c => UInt8.ofNat c.toNat

/-- The digits of a natural number. -/
def writeNat (n : Nat) : Bytes := (Numeral.digits n).map fun d => UInt8.ofNat (0x30 + d)

def writeInt (n : Int) : Bytes :=
  if n < 0 then 0x2D :: writeNat n.natAbs else writeNat n.natAbs

/-- A written text between quotation marks. -/
def quote (written : Bytes) : Bytes := 0x22 :: (written ++ [0x22])

mutual

/-- The compact form of a value. -/
def write : Json → Bytes
  | .null => ascii "null"
  | .bool b => ascii (if b then "true" else "false")
  | .int n => writeInt n
  | .real written => written
  | .text written => quote written
  | .list items => 0x5B :: (writeItems items ++ [0x5D])
  | .object fields => 0x7B :: (writeFields fields ++ [0x7D])

/-- Items with commas between them. -/
def writeItems : List Json → Bytes
  | [] => []
  | [item] => write item
  | item :: rest => write item ++ 0x2C :: writeItems rest

/-- Fields with commas between them. -/
def writeFields : List (Bytes × Json) → Bytes
  | [] => []
  | [(name, item)] => quote name ++ 0x3A :: write item
  | (name, item) :: rest => quote name ++ 0x3A :: (write item ++ 0x2C :: writeFields rest)

end

end Json

end PropertyGraph
