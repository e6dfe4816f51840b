/-
# Json.Shape -- records, variants and tagged values in JSON

What a value has to look like to stand for a member of a domain type.

* A record is an object with one field for each name, in any order; other fields
  are passed over.  The values alone, in order, may stand for it too.
* A variant without content is its name, or an object that has the name for a
  field and nothing in it.
* A tagged value is a record of the name of a variant and its content.  A content
  that stands before its tag may also have an empty object where a variant has
  nothing in it.
-/
import PropertyGraph.Json.Reader
import PropertyGraph.Schema.Vocabulary

namespace PropertyGraph.Json

set_option autoImplicit false

def text? : Json → Option String
  | .text written => read? written
  | _ => none

def bool? : Json → Option Bool
  | .bool b => some b
  | _ => none

def word? : Json → Option UInt64
  | .int n => if 0 ≤ n ∧ n < 0x10000000000000000 then some (UInt64.ofNat n.toNat) else none
  | _ => none

def long? : Json → Option Int64
  | .int n => if -0x8000000000000000 ≤ n ∧ n < 0x8000000000000000 then some (Int64.ofInt n) else none
  | _ => none

theorem text?_ofText (s : String) : (ofText s).text? = some s := read?_escape s

theorem long?_toInt (v : Int64) : (Json.int v.toInt).long? = some v := by
  have := v.toInt_lt
  have := v.le_toInt
  have inside : -0x8000000000000000 ≤ v.toInt ∧ v.toInt < 0x8000000000000000 := by omega
  simp only [long?, if_pos inside, Int64.ofInt_toInt]

def list? : Json → Option (List Json)
  | .list items => some items
  | _ => none

/-- The fields with their names, if all of these are texts. -/
def fields? : Json → Option (List (String × Json))
  | .object fields => fields.mapM fun f => (read? f.1).map fun name => (name, f.2)
  | _ => none

theorem fields?_record (name : String) (j : Json) :
    (record [(name, j)]).fields? = some [(name, j)] := by
  simp [record, fields?, read?_escape]

/-- The first field of a name. -/
def field? (name : String) : Json → Option Json
  | .object fields => fields.lookup (escape name)
  | _ => none

/-- The only field of a name. -/
def only? (name : String) (fields : List (String × Json)) : Option Json :=
  match fields.filter fun f => f.1 == name with
  | [f] => some f.2
  | _ => none

/-- The values of the fields of a record. -/
def record? (names : List String) : Json → Option (List Json)
  | .list items => if items.length = names.length then some items else none
  | j => do
      let fields ← fields? j
      names.mapM fun name => only? name fields

/-- A value, or null where there is none. -/
def ofOption {α : Type} (form : α → Json) : Option α → Json
  | some a => form a
  | none => .null

/-- A value that null stands for the absence of. -/
def option? {α : Type} (read : Json → Option α) : Json → Option (Option α)
  | .null => some none
  | j => (read j).map some

/-- The values of a list. -/
def listOf? {α : Type} (read : Json → Option α) (j : Json) : Option (List α) := do
  (← j.list?).mapM read

/-- The name of a variant without content. -/
def variant? : Json → Option String
  | .text written => read? written
  | .object [(name, .null)] => read? name
  | _ => none

/-- The member of a vocabulary. -/
def named? {α : Type} [Named α] (j : Json) : Option α := (variant? j).bind Named.ofName?

/-- The name of a member of a vocabulary. -/
def ofNamed {α : Type} [Named α] (a : α) : Json := ofText (Named.name a)

/-- A field of the one name stands before every field of the other. -/
def leads (one other : String) (j : Json) : Bool :=
  match ((fields? j).getD []).find? fun f => f.1 == one || f.1 == other with
  | some f => f.1 == one
  | none => false

/-- A variant with an empty object in it as one with nothing in it. -/
def emptied : Json → Json
  | .object [(name, .object [])] => .object [(name, .null)]
  | j => j

/-- The variant and the content of a tagged value. -/
def tagged? (tag content : String) (j : Json) : Option (String × Json) := do
  match ← record? [tag, content] j with
  | [kind, inner] => return (← variant? kind, if leads content tag j then emptied inner else inner)
  | _ => none

end PropertyGraph.Json
