/-
# Schema.Stored -- schemas in a store

Schema vertices are written to and read from a store through a cache, as part of a
transaction.  Writing a vertex deletes the columns that it no longer has.  Loading
reads every row of the store that holds a schema vertex.
-/
import PropertyGraph.Cache.Transaction
import PropertyGraph.Schema.Registry
import PropertyGraph.Schema.Row

namespace PropertyGraph.StoredSchema

set_option autoImplicit false

variable [RowCodec]

/-- Holds the row of a schema vertex back in a transaction. -/
def write (s : Storage) (cache : Nat) (t : Transaction) (v : SchemaVertex) :
    Outcome Unit × Transaction × Storage :=
  match s.getSlice cache t ⟨SchemaRow.key v.id, SchemaRow.slice⟩ with
  | (.error fault, s) => (.error fault, t, s)
  | (.ok existing, s) =>
      match SchemaRow.encode v with
      | .error fault => (.error fault, t, s)
      | .ok additions =>
          let gone := (existing.map Entry.column).filter fun c =>
            !additions.any fun e => e.column == c
          s.mutateEntries cache t (SchemaRow.key v.id) ⟨additions, gone⟩

/-- Holds the rows of some vertices of a registry back, each `pace` ticks after the
one before. -/
def persist (r : Registry) (cache pace : Nat) :
    List SchemaId → Transaction → Storage → Outcome Unit × Transaction × Storage
  | [], t, s => (.ok (), t, s)
  | id :: rest, t, s =>
      match r.vertex? id with
      | none => (.error (.notFound .schemaVertex), t, s)
      | some v =>
          match write s cache t v with
          | (.error fault, t, s) => (.error fault, t, s)
          | (.ok _, t, s) => persist r cache pace rest t (s.advance pace)

/-- The schema vertex of a number, if its row holds one. -/
def read (s : Storage) (cache : Nat) (t : Transaction) (id : SchemaId) :
    Outcome (Option SchemaVertex) × Storage :=
  match s.getSlice cache t ⟨SchemaRow.key id, SchemaRow.slice⟩ with
  | (.error fault, s) => (.error fault, s)
  | (.ok entries, s) => (SchemaRow.decode id entries, s)

/-- The schema vertices of rows whose contents were read. -/
def decodeRows (found : List KeyedRow) : List Bytes → Outcome (List SchemaVertex)
  | [] => .ok []
  | key :: rest => do
      let (id, _) ← (Cursor.start key).takeWord
      let v ← SchemaRow.decode id ((found.lookup key).getD [])
      return v.toList ++ (← decodeRows found rest)

/-- The schema vertices in a store, in ascending order of their keys. -/
def readAll (s : Storage) (cache : Nat) (t : Transaction) :
    Outcome (List SchemaVertex) × Storage :=
  let keys := (s.readKeys cache SchemaRow.slice).map Prod.fst
  match s.getSlices cache t keys SchemaRow.slice with
  | (.error fault, s) => (.error fault, s)
  | (.ok found, s) => (decodeRows found keys, s)

/-- A registry of the schema vertices in a store. -/
def load (s : Storage) (cache : Nat) (t : Transaction) : Outcome Registry × Storage :=
  match readAll s cache t with
  | (.error fault, s) => (.error fault, s)
  | (.ok vertices, s) => (vertices.foldlM Registry.insert Registry.empty, s)

end PropertyGraph.StoredSchema
