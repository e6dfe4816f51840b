/-
# Schema.Definition -- what is recorded about a schema vertex

A definition has at most one value for each category, in the order of the
categories.  `Definition.set` refuses a value that its category does not accept
(`get?_of_set`); a definition that was read from elsewhere may hold such a value,
and then asking for it is a fault.

Edges between schema vertices carry a category and parameters.  A parameter of a
well-known name may stand on an edge once.
-/
import PropertyGraph.Schema.Vocabulary
import PropertyGraph.Sorted
import PropertyGraph.Text.Quoted

namespace PropertyGraph

set_option autoImplicit false

/-- The number of a schema vertex. -/
abbrev SchemaId := UInt64

inductive DefinitionValue where
  | bool (v : Bool)
  | ids (v : List SchemaId)
  | order (v : SortOrder)
  | multiplicity (v : Multiplicity)
  | dataType (v : DataType)
  | direction (v : Direction)
  | status (v : Status)
  | name (v : String)
  | cardinality (v : Cardinality)
  | element (v : Element)
  | consistency (v : Consistency)
  | seconds (v : UInt64)
  deriving DecidableEq

namespace DefinitionValue

/-- The form of a list of ids in messages. -/
def shownIds (ids : List SchemaId) : String :=
  "[" ++ String.intercalate ", " (ids.map fun id => "SchemaId(" ++ toString id ++ ")") ++ "]"

/-- The name of a variant. -/
def kind : DefinitionValue → String
  | .bool _ => "Bool"
  | .ids _ => "Ids"
  | .order _ => "Order"
  | .multiplicity _ => "Multiplicity"
  | .dataType _ => "DataType"
  | .direction _ => "Direction"
  | .status _ => "Status"
  | .name _ => "Name"
  | .cardinality _ => "Cardinality"
  | .element _ => "Element"
  | .consistency _ => "Consistency"
  | .seconds _ => "Seconds"

/-- The form of what a value holds in messages. -/
def shownContent : DefinitionValue → String
  | .bool v => if v then "true" else "false"
  | .ids v => shownIds v
  | .order v => Named.name v
  | .multiplicity v => Named.name v
  | .dataType v => Named.name v
  | .direction v => Named.name v
  | .status v => Named.name v
  | .name v => Text.quoted v
  | .cardinality v => Named.name v
  | .element v => Named.name v
  | .consistency v => Named.name v
  | .seconds v => toString v

/-- The form of a value in messages. -/
def shown (v : DefinitionValue) : String := v.kind ++ "(" ++ v.shownContent ++ ")"

end DefinitionValue

/-- The category accepts the value. -/
def Category.accepts : Category → DefinitionValue → Bool
  | .invisible, .bool _ => true
  | .internalIndex, .bool _ => true
  | .sortKey, .ids _ => true
  | .signature, .ids _ => true
  | .sortOrder, .order _ => true
  | .multiplicity, .multiplicity _ => true
  | .dataType, .dataType _ => true
  | .unidirected, .direction _ => true
  | .status, .status _ => true
  | .backingIndex, .name _ => true
  | .indexStoreName, .name _ => true
  | .indexCardinality, .cardinality _ => true
  | .elementCategory, .element _ => true
  | .consistencyModifier, .consistency _ => true
  | .ttl, .seconds _ => true
  | _, _ => false

/-- A category of edges accepts no value at all. -/
theorem Category.accepts_of_isEdge {c : Category} (edge : c.isEdge = true)
    (v : DefinitionValue) : c.accepts v = false := by
  cases c <;> simp_all [Category.isEdge, Category.accepts]

/-- One value for some of the categories, in the order of the categories. -/
structure Definition where
  entries : List (Category × DefinitionValue)
  deriving DecidableEq

namespace Definition

def empty : Definition := ⟨[]⟩

def get? (d : Definition) (c : Category) : Option DefinitionValue :=
  (Sorted.find? Prod.fst c d.entries).map Prod.snd

def contains (d : Definition) (c : Category) : Bool := (d.get? c).isSome

/-- Puts a value in the place of its category. -/
def insert (d : Definition) (c : Category) (v : DefinitionValue) : Definition :=
  ⟨Sorted.insert Prod.fst (c, v) d.entries⟩

/-- The definition with these values; of several for one category the last. -/
def ofList (values : List (Category × DefinitionValue)) : Definition :=
  ⟨Sorted.ofList Prod.fst values⟩

/-- Records a value that its category accepts. -/
def set (d : Definition) (c : Category) (v : DefinitionValue) : Outcome Definition :=
  if c.accepts v then .ok (d.insert c v)
  else .error (.invalid (.wrongDefinitionValue v.shown (Named.name c)))

theorem get?_of_set {d d' : Definition} {c : Category} {v : DefinitionValue}
    (done : d.set c v = .ok d') : c.accepts v = true ∧ d'.get? c = some v := by
  simp only [set] at done
  split at done
  · rename_i accepted
    cases done
    exact ⟨accepted, by simp [get?, insert, Sorted.find?_insert, Std.ReflCmp.compare_self]⟩
  · simp at done

/-- The value of a category that has to be there. -/
def require {α : Type} (d : Definition) (c : Category) (read : DefinitionValue → Option α) :
    Outcome α :=
  match d.get? c with
  | none => .error (.schema (.missingDefinition (Named.name c)))
  | some v =>
      match read v with
      | some a => .ok a
      | none => .error (.schema (.wrongValueType (Named.name c)))

/-- The value of a category, or another one where the category has none. -/
def requireOr {α : Type} (d : Definition) (c : Category) (otherwise : α)
    (read : DefinitionValue → Option α) : Outcome α :=
  if d.contains c then d.require c read else .ok otherwise

def status (d : Definition) : Outcome Status :=
  d.require .status fun | .status v => some v | _ => none

def multiplicity (d : Definition) : Outcome Multiplicity :=
  d.require .multiplicity fun | .multiplicity v => some v | _ => none

def dataType (d : Definition) : Outcome DataType :=
  d.require .dataType fun | .dataType v => some v | _ => none

def cardinality (d : Definition) : Outcome Cardinality :=
  d.require .indexCardinality fun | .cardinality v => some v | _ => none

def element (d : Definition) : Outcome Element :=
  d.require .elementCategory fun | .element v => some v | _ => none

/-- The name of the external index behind a mixed index. -/
def backingIndex (d : Definition) : Outcome String :=
  d.require .backingIndex fun | .name v => some v | _ => none

/-- The name of the store inside that external index. -/
def storeName (d : Definition) : Outcome String :=
  d.require .indexStoreName fun | .name v => some v | _ => none

/-- The keys that relations are sorted by; without an entry there are none. -/
def sortKey (d : Definition) : Outcome (List SchemaId) :=
  d.requireOr .sortKey [] fun | .ids v => some v | _ => none

def sortOrder (d : Definition) : SortOrder :=
  match d.get? .sortOrder with
  | some (.order v) => v
  | _ => .asc

/-- The only direction that the relations are stored in, as recorded. -/
def unidirected (d : Definition) : Option Direction :=
  match d.get? .unidirected with
  | some (.direction v) => some v
  | _ => none

def consistency (d : Definition) : Consistency :=
  match d.get? .consistencyModifier with
  | some (.consistency v) => v
  | _ => .standard

/-- The category is set to true. -/
def flag (d : Definition) (c : Category) : Bool :=
  match d.get? c with
  | some (.bool v) => v
  | _ => false

end Definition

/-- What a parameter of an edge is set to. -/
inductive ParameterValue where
  | int (v : Int64)
  | text (v : String)
  | mapping (v : Mapping)
  | status (v : Status)
  deriving DecidableEq

namespace ParameterValue

/-- The name of a variant. -/
def kind : ParameterValue → String
  | .int _ => "Int"
  | .text _ => "Text"
  | .mapping _ => "Mapping"
  | .status _ => "Status"

/-- The form of what a value holds in messages. -/
def shownContent : ParameterValue → String
  | .int v => toString v.toInt
  | .text v => Text.quoted v
  | .mapping v => Named.name v
  | .status v => Named.name v

/-- The form of a value in messages. -/
def shown (v : ParameterValue) : String := v.kind ++ "(" ++ v.shownContent ++ ")"

end ParameterValue

structure Parameter where
  key : String
  value : ParameterValue
  deriving DecidableEq

/-- The parameters that mean something to the schema itself. -/
inductive FieldParameter where
  /-- The place of a field in its index. -/
  | position
  | mapping
  | status
  deriving DecidableEq

namespace FieldParameter

/-- The key of the parameter. -/
def key : FieldParameter → String
  | .position => "index-position"
  | .mapping => "mapping"
  | .status => "status"

/-- The value of the parameter; it may be given at most once. -/
def find? (p : FieldParameter) (parameters : List Parameter) :
    Outcome (Option ParameterValue) :=
  match parameters.filter fun q => q.key == p.key with
  | [] => .ok none
  | [q] => .ok (some q.value)
  | _ => .error (.schema (.repeatedParameter p.key))

end FieldParameter

/-- What an edge between two schema vertices says. -/
structure EdgeDescription where
  category : Category
  modifier : List Parameter
  deriving DecidableEq

namespace EdgeDescription

/-- A description of an edge category. -/
def create (category : Category) (modifier : List Parameter) : Outcome EdgeDescription :=
  if category.isEdge then .ok ⟨category, modifier⟩
  else .error (.invalid (.notAnEdgeCategory (Named.name category)))

/-- The place of a field in its index. -/
def position (d : EdgeDescription) : Outcome (Option Int64) := do
  match ← FieldParameter.position.find? d.modifier with
  | none => return none
  | some (.int v) => return some v
  | some other => .error (.schema (.positionNotInteger other.shown))

/-- The status of a field; without a parameter it is enabled. -/
def fieldStatus (d : EdgeDescription) : Outcome Status := do
  match ← FieldParameter.status.find? d.modifier with
  | none => return .enabled
  | some (.status v) => return v
  | some other => .error (.schema (.statusNotStatus other.shown))

def mapping (d : EdgeDescription) : Outcome Mapping := do
  match ← FieldParameter.mapping.find? d.modifier with
  | none => return .standard
  | some (.mapping v) => return v
  | some other => .error (.schema (.mappingNotMapping other.shown))

end EdgeDescription

end PropertyGraph
