/-
# Query.Answer -- reading what the queries of a container ask for

Every slice of a container is read once through a cache, in the order of first
use, and its relations are handed to all queries that read it.  The first fault
ends the reading.
-/
import PropertyGraph.Cache.Transaction
import PropertyGraph.Query.Container
import PropertyGraph.Schema.Registry

namespace PropertyGraph

set_option autoImplicit false

/-- The relations found for queries, in ascending order of their names. -/
abbrev Answers := List (String × List Relation)

namespace Container

/-- Hands a relation to a query. -/
def handTo (r : Relation) (answers : Answers) (name : String) : Answers :=
  let before := ((Sorted.find? Prod.fst name answers).map Prod.snd).getD []
  Sorted.insert Prod.fst (name, before ++ [r]) answers

/-- Hands the relations of entries to some queries. -/
def handOut (names : List String) : List Entry → Answers → Lookup Answers
  | [], answers => return answers
  | e :: rest, answers => do
      let r ← Column.parse Registry.catalog e
      handOut names rest (names.foldl (handTo r) answers)

/-- Reads some slices of the row of a key. -/
def answerFrom (c : Container) (cache : Nat) (t : Transaction) (key : Bytes) :
    List Slice → Answers → Storage → Registry → Outcome Answers × Storage × Registry
  | [], answers, s, r => (.ok answers, s, r)
  | slice :: rest, answers, s, r =>
      match s.getSlices cache t [key] slice with
      | (.error fault, s) => (.error fault, s, r)
      | (.ok found, s) =>
          let names := (c.readers slice).map NamedQuery.name
          match (handOut names (found.flatMap Prod.snd) answers).run r with
          | (.error fault, r) => (.error fault, s, r)
          | (.ok answers, r) => answerFrom c cache t key rest answers s r

/-- Answers every query of a container for the row of a key. -/
def answer (c : Container) (cache : Nat) (t : Transaction) (key : Bytes) (s : Storage)
    (r : Registry) : Outcome Answers × Storage × Registry :=
  answerFrom c cache t key c.slices [] s r

end Container

end PropertyGraph
