/-
# Query.Plan -- relations of one vertex as slices of its row

A vertex query names relation types, a direction, conditions, orders and a limit.
Planning turns it into slices.  Per type and direction it picks the relation index
whose sort key answers most of the query, and asks for one slice per combination
of points.

* A slice is `fitted` when everything in it meets the conditions of the query; the
  rest has to be checked against the kept conditions.
* A slice is `sorted` when its relations come in the order that was asked for.
-/
import PropertyGraph.Query.Constraints
import PropertyGraph.Query.Limits
import PropertyGraph.Query.Score
import PropertyGraph.Relation.TypeSlice

namespace PropertyGraph

set_option autoImplicit false

/-- A query for relations of one vertex. -/
structure VertexQuery where
  direction : Direction
  /-- The names of the types; without any, all types. -/
  types : List String
  conditions : List Condition
  orders : List (String × SortOrder)
  limit : UInt64
  /-- The vertex at the other end. -/
  adjacent : Option UInt64
  deriving DecidableEq

/-- What is planned for: bounds, and whether the reader has changes of its own. -/
structure PlanSetting where
  limits : QueryLimits
  modified : Bool
  deriving DecidableEq

/-- A slice and what is known of its relations. -/
structure SubQuery where
  slice : Slice
  fitted : Bool
  sorted : Bool
  deriving DecidableEq

structure Plan where
  conditions : List Condition
  direction : Direction
  queries : List SubQuery
  orders : List (SchemaId × SortOrder)
  limit : UInt64
  types : List SchemaId
  category : RelationCategory
  deriving DecidableEq

namespace VertexQuery

/-- The query for everything. -/
def all : VertexQuery := ⟨.both, [], [], [], noLimit, none⟩

/-- The name of the type, where just one was given. -/
def singleType (q : VertexQuery) : Option String :=
  match q.types with
  | [name] => some name
  | _ => none

end VertexQuery

namespace Plan

/-- The plan that finds nothing. -/
def nothing (category : RelationCategory) : Plan := ⟨[], .both, [], [], 0, [], category⟩

def isEmpty (p : Plan) : Bool := p.queries.isEmpty

/-- What the planning of every type shares. -/
structure Frame where
  setting : PlanSetting
  constraints : Constraints
  orders : List (SchemaId × SortOrder)
  limit : UInt64
  deriving DecidableEq

/-- What was planned for the types so far. -/
structure Progress where
  types : List SchemaId
  category : RelationCategory
  queries : List SubQuery
  deriving DecidableEq

/-- A type or index to read, and whether it comes in the order asked for. -/
structure Candidate where
  type : RelationType
  sorted : Bool
  deriving DecidableEq

variable {m : Type → Type} [Monad m] [MonadLiftT Outcome m]

/-- All orders point the same way. -/
def sameWay : List (SchemaId × SortOrder) → Bool
  | [] => true
  | first :: rest => rest.all fun o => o.2 == first.2

/-- The property keys that a query is ordered by. -/
def resolveOrders (types : TypeCatalog m) : List (String × SortOrder) →
    m (List (SchemaId × SortOrder))
  | [] => return []
  | (name, order) :: rest => do
      match (← types.byName name).filter RelationType.isKey with
      | some key => return (key.id, order) :: (← resolveOrders types rest)
      | none => (Fault.invalid (.unknownOrderKey name)).refuse

/-- Goes through the components that a slice can answer.  Points on a component
count five shared among them, a range counts one and is the last.  The answer
keeps the order keys that were not met. -/
def scoreFrom (constraints : Constraints) : List SortComponent → List SchemaId → Score →
    Score × List SchemaId
  | [], orders, score => (score, orders)
  | component :: rest, orders, score =>
      let orders :=
        match orders with
        | next :: later => if component = .key next then later else next :: later
        | [] => []
      match constraints.interval? component with
      | some (.points values) =>
          scoreFrom constraints rest orders (score.add (.share 5 values.length))
      | some (.range _ _) => (score.add (.whole 1), orders)
      | none => (score, orders)

/-- How well a type or index answers a query, three more if it comes in the order
asked for. -/
def score (f : Frame) (t : RelationType) (d : Direction) : Score × Candidate :=
  let (s, unmet) := scoreFrom f.constraints (t.extendedSortKey d) (f.orders.map Prod.fst) .zero
  let sorted := (f.orders.head?.all fun o => o.2 == t.sortOrder) && unmet.isEmpty
  (if sorted then s.add (.whole 3) else s, ⟨t, sorted⟩)

/-- The first of the best. -/
def best : List (Score × Candidate) → Option (Score × Candidate)
  | [] => none
  | first :: rest =>
      some (rest.foldl
        (fun top next => if top.1.units < next.1.units then next else top) first)

/-- The type or the relation index over it that answers most of the query.  Only
enabled indexes are used, and only what is stored in the direction. -/
def bestCandidate (types : TypeCatalog m) (f : Frame) (t : RelationType) (d : Direction) :
    m Candidate := do
  let usable := (← types.withIndexes t).filter fun c =>
    c.isStoredIn d && (c.id == t.id || c.status == .enabled)
  match best (usable.map fun c => score f c d) with
  | some (_, c) => return c
  | none => (Fault.invalid (.unsupportedType t.name)).refuse

/-- The slice for constraints on leading components.  A range that is open above
also finds relations without a value. -/
def subQuery (types : TypeCatalog m) (f : Frame) (c : Candidate) (d : Direction)
    (taken : List ComponentInterval) : m SubQuery := do
  let wanted := f.constraints.intervals.length
  let slice ← TypeSlice.slice types c.type d (taken.map some)
  let limited ← slice.withLimit
    (f.setting.limits.forSlice f.setting.modified (wanted - taken.length) f.limit)
  return {
    slice := limited
    fitted := f.constraints.complete && taken.length == wanted &&
      !(taken.getLast?.any fun last => last.interval.isOpenAbove)
    sorted := c.sorted }

/-- One slice per combination of points on the leading components, up to the first
component without an interval or behind the first range. -/
def expand (types : TypeCatalog m) (f : Frame) (c : Candidate) (d : Direction) :
    List SortComponent → List ComponentInterval → m (List SubQuery)
  | [], taken => return [← subQuery types f c d taken]
  | component :: rest, taken =>
      match f.constraints.interval? component with
      | none => return [← subQuery types f c d taken]
      | some (.points values) => do
          let slices ← values.mapM fun v =>
            expand types f c d rest (taken ++ [⟨component, .point v⟩])
          return slices.flatten
      | some i => return [← subQuery types f c d (taken ++ [⟨component, i⟩])]

/-- The slices of a type in each of some directions. -/
def planDirections (types : TypeCatalog m) (f : Frame) (t : RelationType) :
    List Direction → m (List SubQuery)
  | [] => return []
  | d :: rest => do
      let c ← bestCandidate types f t d
      let slices ← expand types f c d (c.type.extendedSortKey d) []
      return slices ++ (← planDirections types f t rest)

/-- The category that is left when a type is among those asked for. -/
def narrow (name : String) (t : RelationType) : RelationCategory → Outcome RelationCategory
  | .edge => if t.isKey then .error (.invalid (.keyAmongEdges name)) else .ok .edge
  | .property => if t.isKey then .ok .property else .error (.invalid (.labelAmongProperties name))
  | .relation => .ok (if t.isKey then .property else .edge)

/-- The direction to read a type in; none where it is stored the other way. -/
def readingDirection (t : RelationType) (d : Direction) : Option Direction :=
  match t.unidirected with
  | none => some d
  | some only =>
      if t.isKey then some .out
      else if d = .both ∨ d = only then some only
      else none

/-- The slices of a type. -/
def planType (types : TypeCatalog m) (f : Frame) (t : RelationType) (d : Direction) :
    m (List SubQuery) :=
  if t.isLabel && d == .both && f.constraints.intervals.isEmpty && f.orders.isEmpty then do
    let slice ← TypeSlice.slice types t .both []
    return [⟨← slice.withLimit f.limit, f.constraints.complete, true⟩]
  else planDirections types f t (if d = .both then Direction.proper else [d])

/-- Plans the types of some names in turn.  Names of no relation type ask for
nothing. -/
def planTypes (types : TypeCatalog m) (f : Frame) (d : Direction) :
    List String → Progress → m Progress
  | [], p => return p
  | name :: rest, p => do
      match ← types.byName name with
      | none => planTypes types f d rest p
      | some t =>
          let category ← narrow name t p.category
          let p := { p with types := p.types ++ [t.id], category }
          match readingDirection t d with
          | none => planTypes types f d rest p
          | some d' =>
              let slices ← planType types f t d'
              planTypes types f d rest { p with queries := p.queries ++ slices }

/-- What the slice of a query for all types asks for: about half of a scan in one
direction is filtered out. -/
def scanLimit (category : RelationCategory) (d : Direction) (limit : UInt64) : UInt64 :=
  if limit ≠ noLimit ∧ limit.toNat < QueryLimits.cap / 3 ∧ d ≠ .both ∧ category ≠ .property then
    limit * 2
  else limit

/-- The slice of a query for all types. -/
def scan (f : Frame) (category : RelationCategory) (d : Direction) (adjacent : Option UInt64) :
    Outcome SubQuery := do
  let conditions := f.constraints.kept
  let slice ← (TypeSlice.ofCategory category).withLimit
    (f.setting.limits.forSlice f.setting.modified conditions.length
      (scanLimit category d f.limit))
  return {
    slice
    fitted := (d == .both || (category == .property && d == .out)) && conditions.isEmpty &&
      adjacent.isNone
    sorted := f.orders.isEmpty }

/-- The direction to read a category in; properties only leave their vertex. -/
def categoryDirection (category : RelationCategory) (d : Direction) : Option Direction :=
  match category, d with
  | .property, .into => none
  | .property, _ => some .out
  | _, d => some d

/-- Plans a query whose conditions were sorted out. -/
def assemble (types : TypeCatalog m) (q : VertexQuery) (f : Frame) (category : RelationCategory)
    (d : Direction) : m Plan := do
  let plan (p : Progress) : Plan :=
    ⟨f.constraints.kept, d, p.queries, f.orders, q.limit, p.types, p.category⟩
  if q.types.isEmpty then
    return plan ⟨[], category, [← scan f category d q.adjacent]⟩
  else if f.constraints.intervals.any fun i => i.2.isEmpty then return nothing category
  else do
    let p ← planTypes types f d q.types ⟨[], category, []⟩
    return if p.queries.isEmpty then nothing category else plan p

/-- The plan of a query for relations of a category. -/
def build (types : TypeCatalog m) (s : PlanSetting) (q : VertexQuery)
    (category : RelationCategory) : m Plan := do
  (Fault.invalid .adjacentWithoutEdges).unless (q.adjacent.isNone || category == .edge)
  if q.limit = 0 then return nothing category
  else
    match categoryDirection category q.direction with
    | none => return nothing category
    | some d =>
        let orders ← resolveOrders types q.orders
        (Fault.invalid .mixedOrders).unless (sameWay orders)
        match ← Constraints.compile types q.conditions q.adjacent with
        | none => return nothing category
        | some constraints =>
            assemble types q ⟨s, constraints, orders, q.limit⟩ category d

end Plan

end PropertyGraph
