/-
# Query.Container -- named queries that are answered together

A container plans queries as they are added and keeps the slices that they read,
so that a caller can read every slice once and hand what it finds to all queries
that asked for it.

* Names are unique (`register_of_taken`), and so is what queries ask for, queries
  without slices apart.  A query that is refused leaves the container as it was.
* Beside the queries stand the different slices and, for each of them, its readers.
  A query that is registered is entered for one of its slices after the other
  (`enter`), as often as a slice is among them.
-/
import PropertyGraph.Query.Plan
import PropertyGraph.Text.Blank

namespace PropertyGraph

set_option autoImplicit false

/-- A planned query of a container. -/
structure NamedQuery where
  name : String
  category : RelationCategory
  /-- The slices with their final limits. -/
  slices : List Slice
  plan : Plan
  deriving DecidableEq

namespace NamedQuery

/-- Both ask for the same category of the same slices. -/
def sameRequest (a b : NamedQuery) : Bool := a.category == b.category && a.slices == b.slices

end NamedQuery

structure Container where
  setting : PlanSetting
  /-- The limit of slices that need filtering. -/
  hardLimit : UInt64
  queries : List NamedQuery
  /-- The different slices in the order of their first use. -/
  slices : List Slice
  /-- The queries that read a slice, in the order they were entered. -/
  index : List (Slice × List NamedQuery)
  deriving DecidableEq

namespace Container

def new (setting : PlanSetting) : Container := ⟨setting, setting.limits.hard, [], [], []⟩

def withHardLimit (c : Container) (limit : UInt64) : Container :=
  { c with hardLimit := max limit 1 }

/-- The queries that read a slice. -/
def readers (c : Container) (s : Slice) : List NamedQuery := (c.index.lookup s).getD []

/-- Puts a query behind the readers of a slice. -/
def addReader (q : NamedQuery) (s : Slice) :
    List (Slice × List NamedQuery) → List (Slice × List NamedQuery)
  | [] => [(s, [q])]
  | (t, readers) :: rest =>
      if t = s then (t, readers ++ [q]) :: rest else (t, readers) :: addReader q s rest

/-- Enters a query for one of its slices.  A slice that nobody reads yet is new. -/
def enter (q : NamedQuery) (c : Container) (s : Slice) : Container :=
  { c with
    slices := if (c.readers s).isEmpty then c.slices ++ [s] else c.slices
    index := addReader q s c.index }

/-- Number of different requests among the queries. -/
def distinctRequests : List NamedQuery → Nat
  | [] => 0
  | q :: rest =>
      (if rest.any fun other => q.sameRequest other then 0 else 1) + distinctRequests rest

/-- The slices of a plan with their final limits: a slice that needs no filtering
gets the limit of the query. -/
def limited (hardLimit : UInt64) (p : Plan) : Outcome (List Slice) :=
  p.queries.mapM fun s => s.slice.withLimit (if s.fitted then p.limit else hardLimit)

/-- The name of a query: the given one, the type that it asks for, or its
number. -/
def nameFor (c : Container) (given : Option String) (q : VertexQuery) : String :=
  (given.or q.singleType).getD ("query$" ++ toString c.queries.length)

/-- Registers a planned query. -/
def register (c : Container) (name : String) (category : RelationCategory) (p : Plan) :
    Outcome (NamedQuery × Container) := do
  let slices ← limited c.hardLimit p
  (Fault.invalid (.queryNameTaken name)).unless (!c.queries.any fun q => q.name == name)
  let added : NamedQuery := ⟨name, category, slices, p⟩
  (Fault.invalid (.duplicateQuery name)).unless
    (slices.isEmpty || !c.queries.any fun q => q.sameRequest added)
  let entered := slices.foldl (enter added) c
  return (added, { entered with queries := c.queries ++ [added] })

variable {m : Type → Type} [Monad m] [MonadLiftT Outcome m]

/-- Plans a query for relations of a category and registers it. -/
def add (types : TypeCatalog m) (c : Container) (given : Option String) (q : VertexQuery)
    (category : RelationCategory) : m (NamedQuery × Container) := do
  (Fault.invalid .blankQueryName).unless (!given.any Text.isBlank)
  let p ← Plan.build types c.setting q category
  c.register (c.nameFor given q) category p

/-- A name that is taken is refused. -/
theorem register_of_taken {c : Container} {name : String} {category : RelationCategory} {p : Plan}
    {slices : List Slice} (fits : limited c.hardLimit p = .ok slices)
    (taken : (c.queries.any fun q => q.name == name) = true) :
    c.register name category p = .error (.invalid (.queryNameTaken name)) := by
  simp [register, fits, taken, Fault.unless, bind, Except.bind]

end Container

end PropertyGraph
