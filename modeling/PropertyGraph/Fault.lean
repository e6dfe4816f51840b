/-
# Faults -- why an operation was refused

Every operation that can fail answers `Except Fault`.  A fault is a cause: which
rule was broken and by what, never a finished text.  The wording of every cause
stands in this module and nowhere else.

* `Fault.message` is the text of a fault, with the words that name its family.
* `Fault.isTemporary` singles out the faults after which the same call may
  succeed (`Fault.isTemporary_iff`).
-/

namespace PropertyGraph

set_option autoImplicit false

/-- Whether a backend that failed may succeed when asked again. -/
inductive BackendKind where
  | temporary
  | permanent
  deriving DecidableEq

/-- Stored bytes that cannot be read back. -/
inductive Corruption where
  | columnTruncated
  | offsetOverflow
  | valueTruncated
  | booleanValue
  | relationDirection
  | relationCategory
  | schemaEdgeDirection
  | unknownSchemaColumn
  | noSuccessor
  deriving DecidableEq

def Corruption.message : Corruption → String
  | .columnTruncated => "column truncated"
  | .offsetOverflow => "cursor offset overflow"
  | .valueTruncated => "value truncated"
  | .booleanValue => "boolean value"
  | .relationDirection => "relation direction"
  | .relationCategory => "relation category"
  | .schemaEdgeDirection => "schema edge direction"
  | .unknownSchemaColumn => "unknown schema column"
  | .noSuccessor => "column has no successor"

/-- Arguments that break a rule of the operation they were given to. -/
inductive Refusal where
  /-- A rule that the caller states in its own words. -/
  | custom (reason : String)
  | wrongDefinitionValue (value category : String)
  | notAnEdgeCategory (category : String)
  | schemaNameTaken (name : String) (owner : UInt64)
  | undirectedSchemaEdge
  | adjacentWithoutEdges
  | keyAmongEdges (name : String)
  | labelAmongProperties (name : String)
  | unknownOrderKey (name : String)
  | mixedOrders
  | labelCondition
  | unsupportedType (name : String)
  | notPropertyKey (name : String)
  | valueAgainstKey (value key dataType : String)
  | textPredicateWithoutText
  | blankQueryName
  | queryNameTaken (name : String)
  | duplicateQuery (name : String)
  | notReadBothWays (name : String)
  | notStoredIn (name direction : String)
  | manyPoints (component : String)
  | rangeOnImplicit
  | invertedConstraints (name : String)
  | improperDirection
  | sortKeyArity (name : String) (expected found : Nat)
  | targetMismatch (name : String)
  | noColumnHead (name direction : String)
  | valueAgainstType (value dataType : String)
  | notANumber
  deriving DecidableEq

def Refusal.message : Refusal → String
  | .custom reason => reason
  | .wrongDefinitionValue value category =>
      value ++ " is not a valid value for " ++ category
  | .notAnEdgeCategory category => category ++ " does not describe a schema edge"
  | .schemaNameTaken name owner =>
      "schema name " ++ name ++ " already used by " ++ toString owner
  | .undirectedSchemaEdge => "schema edges have a proper direction"
  | .adjacentWithoutEdges => "adjacent vertex constraints only apply to edges"
  | .keyAmongEdges name => "querying for edges but including property key " ++ name
  | .labelAmongProperties name =>
      "querying for properties but including edge label " ++ name
  | .unknownOrderKey name => "cannot order by unknown key " ++ name
  | .mixedOrders => "all orders of a vertex-centric query must share one direction"
  | .labelCondition => "label conditions do not apply to vertex-centric queries"
  | .unsupportedType name =>
      "schema does not support the query constraints for type " ++ name
  | .notPropertyKey name => name ++ " is not a property key"
  | .valueAgainstKey value key dataType =>
      "value " ++ value ++ " does not match key " ++ key ++ " of type " ++ dataType
  | .textPredicateWithoutText => "text predicates need text values"
  | .blankQueryName => "query names must not be blank"
  | .queryNameTaken name => "a query named " ++ name ++ " already exists"
  | .duplicateQuery name => "query " ++ name ++ " duplicates an existing query"
  | .notReadBothWays name => name ++ " cannot be read in both directions"
  | .notStoredIn name direction => name ++ " is not stored in direction " ++ direction
  | .manyPoints component =>
      "slice constraints on " ++ component ++ " must be single points"
  | .rangeOnImplicit => "implicit sort key components take points only"
  | .invertedConstraints name => "constraints on " ++ name ++ " yield an inverted slice"
  | .improperDirection => "relations are stored in a proper direction"
  | .sortKeyArity name expected found =>
      name ++ " expects " ++ toString expected ++ " sort key values, got " ++ toString found
  | .targetMismatch name => "relation target does not match type " ++ name
  | .noColumnHead name direction => name ++ " has no column prefix for " ++ direction
  | .valueAgainstType value dataType =>
      "value " ++ value ++ " does not match " ++ dataType
  | .notANumber => "NaN cannot be stored"

/-- Schema data that cannot be interpreted. -/
inductive SchemaFault where
  | wrongValueType (category : String)
  | missingDefinition (category : String)
  | repeatedParameter (name : String)
  | positionNotInteger (found : String)
  | statusNotStatus (found : String)
  | mappingNotMapping (found : String)
  | notRelationType (name category : String)
  | unidirectedKey (name : String)
  | notRelationIndex (name : String)
  | noIndexedType (name : String)
  | notIndex (name category : String)
  | fieldWithoutPosition (index : String) (field : UInt64)
  | positionOutside (index : String) (position : Int) (count : Nat)
  | duplicatePosition (index : String) (position : Int)
  | missingPosition (index : String) (position : Nat)
  | unknownField (index : String) (field : UInt64)
  | fieldNotKey (index name : String)
  | unknownConstraint (index : String) (target : UInt64)
  | manyConstraints (index : String)
  | sortKeyNotKey (name : String)
  | undecodable
  deriving DecidableEq

def SchemaFault.message : SchemaFault → String
  | .wrongValueType category => "definition " ++ category ++ " has the wrong value type"
  | .missingDefinition category => "definition " ++ category ++ " is missing"
  | .repeatedParameter name => "parameter " ++ name ++ " appears more than once"
  | .positionNotInteger found => "index position must be an integer, found " ++ found
  | .statusNotStatus found => "field status must be a status, found " ++ found
  | .mappingNotMapping found => "mapping must be a mapping, found " ++ found
  | .notRelationType name category =>
      name ++ " is a " ++ category ++ ", not a relation type"
  | .unidirectedKey name => "property key " ++ name ++ " cannot be unidirected"
  | .notRelationIndex name => name ++ " is not a relation index"
  | .noIndexedType name => "relation index " ++ name ++ " has no indexed type"
  | .notIndex name category => name ++ " is a " ++ category ++ ", not an index"
  | .fieldWithoutPosition index field =>
      "index " ++ index ++ ": field " ++ toString field ++ " has no position"
  | .positionOutside index position count =>
      "index " ++ index ++ ": field position " ++ toString position ++ " outside 0.." ++
        toString count
  | .duplicatePosition index position =>
      "index " ++ index ++ ": duplicate field position " ++ toString position
  | .missingPosition index position =>
      "index " ++ index ++ ": missing field position " ++ toString position
  | .unknownField index field =>
      "index " ++ index ++ ": unknown field key " ++ toString field
  | .fieldNotKey index name =>
      "index " ++ index ++ ": field " ++ name ++ " is not a property key"
  | .unknownConstraint index target =>
      "index " ++ index ++ ": unknown schema constraint " ++ toString target
  | .manyConstraints index => "index " ++ index ++ ": more than one schema constraint"
  | .sortKeyNotKey name => "sort key " ++ name ++ " is not a property key"
  | .undecodable => "failed to decode schema value"

/-- Configuration documents that are refused. -/
inductive ConfigFault where
  | unparsable
  | unwritable
  | notPositive (setting : String)
  deriving DecidableEq

def ConfigFault.message : ConfigFault → String
  | .unparsable => "failed to parse config"
  | .unwritable => "failed to serialize config"
  | .notPositive setting => setting ++ " must be positive"

/-- Things asked for by id or name that are not there. -/
inductive Missing where
  | schemaVertex
  | relationType
  | index
  | value
  deriving DecidableEq

def Missing.message : Missing → String
  | .schemaVertex => "schema vertex"
  | .relationType => "relation type"
  | .index => "index"
  | .value => "value"

/-- Calls that no correct caller makes; they say nothing about the data. -/
inductive Misuse where
  /-- A slice whose bounds, given as text, are the wrong way round. -/
  | invertedSlice (start stop : String)
  | zeroLimit
  | invertedKeyRange
  | outsideBuffer
  deriving DecidableEq

def Misuse.message : Misuse → String
  | .invertedSlice start stop => "slice start " ++ start ++ " sorts after end " ++ stop
  | .zeroLimit => "slice limit must be positive"
  | .invertedKeyRange => "key range start sorts after end"
  | .outsideBuffer => "range lies outside the buffer"

/-- Why an operation was refused. -/
inductive Fault where
  | unreadable (reason : String)
  | backend (kind : BackendKind) (reason : String)
  | invalid (reason : Refusal)
  | schema (reason : SchemaFault)
  | corrupt (reason : Corruption)
  | config (reason : ConfigFault)
  /-- A configuration file, named by its path, with an unacceptable content. -/
  | configFile (path : String) (reason : ConfigFault)
  | notFound (what : Missing)
  | misuse (what : Misuse)
  deriving DecidableEq

namespace Fault

/-- The text of a fault: the words of its family, then the words of its cause. -/
def message : Fault → String
  | .unreadable reason => "IO: " ++ reason
  | .backend .temporary reason => "temporary backend failure: " ++ reason
  | .backend .permanent reason => "permanent backend failure: " ++ reason
  | .invalid reason => "invalid argument: " ++ reason.message
  | .schema reason => "schema: " ++ reason.message
  | .corrupt reason => "corruption: " ++ reason.message
  | .config reason => "config: " ++ reason.message
  | .configFile path reason => "config: " ++ path ++ ": " ++ reason.message
  | .notFound what => what.message ++ " not found"
  | .misuse what => what.message

/-- The same call may succeed when it is made again. -/
def isTemporary : Fault → Bool
  | .backend .temporary _ => true
  | _ => false

/-- Only a backend's temporary failure is worth a retry. -/
theorem isTemporary_iff (f : Fault) :
    f.isTemporary = true ↔ ∃ reason, f = .backend .temporary reason := by
  cases f with
  | backend kind reason => cases kind <;> simp [isTemporary]
  | _ => simp [isTemporary]

end Fault

/-- An answer, or the reason there is none. -/
abbrev Outcome (α : Type) := Except Fault α

/-- There is no answer, for this reason. -/
def Fault.refuse {α : Type} (f : Fault) : Outcome α := .error f

/-- There is an answer only if a condition holds. -/
def Fault.unless (f : Fault) (condition : Bool) : Outcome Unit :=
  if condition then .ok () else .error f

theorem Fault.unless_eq_ok_iff (f : Fault) (condition : Bool) :
    f.unless condition = .ok () ↔ condition = true := by
  cases condition <;> simp [Fault.unless]

/-- After a step that gave an answer comes the next. -/
theorem Outcome.ok_bind {α β : Type} (a : α) (f : α → Outcome β) :
    ((Except.ok a : Outcome α) >>= f) = f a := rfl

/-- One step after another gives an answer when both do. -/
theorem Outcome.bind_eq_ok_iff {α β : Type} {x : Outcome α} {f : α → Outcome β} {b : β} :
    (x >>= f) = .ok b ↔ ∃ a, x = .ok a ∧ f a = .ok b := by
  cases x with
  | error fault =>
      constructor
      · intro done
        cases done
      · rintro ⟨_, failed, -⟩
        cases failed
  | ok a =>
      constructor
      · intro done
        exact ⟨a, rfl, done⟩
      · rintro ⟨_, same, done⟩
        obtain rfl := Except.ok.inj same
        exact done

end PropertyGraph
