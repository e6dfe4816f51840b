/-
# Schema.Catalog -- where relation types are looked up

Whoever encodes columns or plans queries needs relation types by number and by
name, and the relation indexes over a type.  A catalog answers these questions;
the answers may have effects of their own, such as being kept for the next time.
-/
import PropertyGraph.Schema.RelationType

namespace PropertyGraph

set_option autoImplicit false

structure TypeCatalog (m : Type → Type) where
  byId : SchemaId → m RelationType
  /-- The relation type of a name; other schema vertices have none. -/
  byName : String → m (Option RelationType)
  /-- A type and the relation indexes over it. -/
  withIndexes : RelationType → m (List RelationType)

namespace TypeCatalog

variable {m : Type → Type} [Monad m] [MonadLiftT Outcome m]

/-- The type of the values of a component; the implicit ones are ids. -/
def componentType (types : TypeCatalog m) : SortComponent → m (Option DataType)
  | .key id => do
      let key ← types.byId id
      match key.dataType with
      | some d => return some d
      | none => (Fault.schema (.sortKeyNotKey key.name)).refuse
  | .adjacent => return none
  | .relation => return none

end TypeCatalog

end PropertyGraph
