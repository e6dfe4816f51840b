/-
# Query.IndexChoice -- an index that answers part of a query

A composite index answers a query that says for each of its fields which values
the field may have; it is looked up once per combination of these values.  A mixed
index answers those conditions that its enabled fields support.  An index that is
restricted to a label is only used when the query asks for just that label.

The index that covers most conditions is chosen; of several a composite one, and
of these one that leads to a single element.
-/
import PropertyGraph.Query.Condition
import PropertyGraph.Schema.Registry

namespace PropertyGraph

set_option autoImplicit false

/-- How an index answers the conditions that it covers. -/
inductive IndexCover where
  /-- The values of the fields, one list a lookup. -/
  | composite (values : List (List Value))
  /-- The conditions that the external index is given. -/
  | mixed (conditions : List Condition)
  deriving DecidableEq

structure IndexCandidate where
  /-- The index object. -/
  place : Nat
  /-- The positions of the covered conditions in ascending order. -/
  covered : List Nat
  cover : IndexCover
  deriving DecidableEq

namespace IndexChoice

/-- The conditions with their positions. -/
def numbered (conditions : List Condition) : List (Nat × Condition) :=
  (List.range conditions.length).zip conditions

/-- The first condition that asks for just this label. -/
def labelPosition (conditions : List Condition) (label : String) : Option Nat :=
  ((numbered conditions).find? fun c => c.2 == .labels [label]).map Prod.fst

/-- The first condition that says which values a key may have. -/
def equalityFor (conditions : List Condition) (key : String) : Option (Nat × List Value) :=
  (numbered conditions).findSome? fun c =>
    if c.2.key = some key then c.2.equalityValues.map fun values => (c.1, values) else none

/-- Every choice of one value from each set, the last one varying fastest. -/
def combinations : List (List Value) → List (List Value)
  | [] => [[]]
  | set :: rest => set.flatMap fun v => (combinations rest).map fun row => v :: row

/-- What a composite index with these fields covers. -/
def coverComposite (fields : List IndexField) (conditions : List Condition) :
    Option (List Nat × IndexCover) := do
  let found ← fields.mapM fun f => equalityFor conditions f.key.name
  return (found.map Prod.fst, .composite (combinations (found.map Prod.snd)))

/-- The external index can answer the condition for a field. -/
def supports (f : IndexField) (c : Condition) : Bool :=
  let mapping := (f.analysis.map FieldAnalysis.mapping).getD .standard
  match c with
  | .has _ (.compare .notEqual) none => true
  | .has _ _ none => false
  | .has _ (.words _) (some _) =>
      mapping.supportsText || (mapping == .standard && f.key.dataType == some .text)
  | .has _ (.compare _) (some _) => mapping != .text
  | .anyOf _ _ => mapping != .text
  | .labels _ => false

/-- Some enabled field answers the condition. -/
def answered (fields : List IndexField) (c : Condition) : Bool :=
  fields.any fun f => f.status == .enabled && c.key == some f.key.name && supports f c

/-- What a mixed index with these fields covers. -/
def coverMixed (fields : List IndexField) (conditions : List Condition) :
    Option (List Nat × IndexCover) :=
  let found := (numbered conditions).filter fun c => answered fields c.2
  if found.isEmpty then none else some (found.map Prod.fst, .mixed (found.map Prod.snd))

/-- The condition that answers the label of an index, none where the index has no
label; without an answer the index cannot be used. -/
def coverLabel (label : Option String) (conditions : List Condition) : Option (List Nat) :=
  match label with
  | none => some []
  | some l => (labelPosition conditions l).map fun position => [position]

/-- What an index object can answer, if it can be used at all. -/
def candidate (place : Nat) (element : Element) (conditions : List Condition) :
    Lookup (Option IndexCandidate) := do
  match (← get).objects[place]? with
  | none => return none
  | some index =>
      if (← index.status) ≠ .enabled then return none
      else if (← index.element) ≠ element then return none
      else
        match coverLabel (← Registry.constraintOf place) conditions with
        | none => return none
        | some labelled =>
            let fields ← Registry.fieldsOf place
            let found :=
              if index.isComposite then coverComposite fields conditions
              else coverMixed fields conditions
            return found.map fun (covered, cover) =>
              ⟨place, Sorted.ofList id (labelled ++ covered), cover⟩

/-- More conditions first, then composite indexes, then those that lead to a
single element. -/
def rank (covered : Nat) (composite single : Bool) : Nat :=
  4 * covered + (if composite then 2 else 0) + (if single then 1 else 0)

/-- The rank of a candidate. -/
def rankOf (c : IndexCandidate) : Lookup Nat := do
  match (← get).objects[c.place]? with
  | none => return 0
  | some index =>
      if index.isComposite then
        let cardinality ← Registry.cardinalityOf c.place
        return rank c.covered.length true (cardinality == .single)
      else return rank c.covered.length false false

/-- The first best of some index objects, given the best so far. -/
def bestOf (element : Element) (conditions : List Condition) :
    List Nat → Option (Nat × IndexCandidate) → Lookup (Option (Nat × IndexCandidate))
  | [], best => return best
  | place :: rest, best => do
      match ← candidate place element conditions with
      | none => bestOf element conditions rest best
      | some found =>
          let r ← rankOf found
          bestOf element conditions rest
            (if best.all fun top => top.1 < r then some (r, found) else best)

/-- The index of a registry that answers most of a query. -/
def select (element : Element) (conditions : List Condition) : Lookup (Option IndexCandidate) := do
  let places ← Registry.allIndexes
  return (← bestOf element conditions places none).map Prod.snd

end IndexChoice

end PropertyGraph
