/-
# Schema.LazyScript -- sequences of uses of a lazily filled slot

A script is a list of uses of one slot; the computation of a value may itself be
a script on the same slot.  `LazySlot.run` goes through a script and answers what
each use saw.
-/
import PropertyGraph.Schema.LazySlot

namespace PropertyGraph

set_option autoImplicit false

/-- One use of a slot. -/
inductive SlotUse (α : Type) where
  | state
  | get
  | reset
  /-- Asks for the value, which is computed by a script and then has this
  outcome. -/
  | init (outcome : Outcome α) (inner : List (SlotUse α))

/-- What a use of a slot saw. -/
inductive SlotAnswer (α : Type) where
  | state (word : String)
  | value (kept : Option α)
  | nothing
  /-- The value, what its computation saw, and the number of computations so
  far. -/
  | init (got : Outcome α) (inner : List (SlotAnswer α)) (computations : Nat)

namespace LazySlot

variable {α : Type}

/-- What stands beside the slot while a script runs. -/
structure Trace (α : Type) where
  computations : Nat
  /-- What the script of the last computation saw. -/
  inner : List (SlotAnswer α)

mutual

/-- Goes through a script; the counter is the number of computations begun. -/
def run : List (SlotUse α) → LazySlot α → Nat → List (SlotAnswer α) × LazySlot α × Nat
  | [], s, count => ([], s, count)
  | use :: rest, s, count =>
      let (answer, s, count) := apply use s count
      let (answers, s, count) := run rest s count
      (answer :: answers, s, count)

/-- One use of a slot. -/
def apply : SlotUse α → LazySlot α → Nat → SlotAnswer α × LazySlot α × Nat
  | .state, s, count => (.state s.content.state, s, count)
  | .get, s, count => (.value s.get?, s, count)
  | .reset, s, count => (.nothing, s.reset, count)
  | .init outcome inner, s, count =>
      let (got, (s, trace)) := getOrInitWith
        (fun (s, trace) =>
          let (answers, s, count) := run inner s (trace.computations + 1)
          (outcome, (s, ⟨count, answers⟩)))
        s (⟨count, []⟩ : Trace α)
      (.init got trace.inner trace.computations, s, trace.computations)

end

end LazySlot

end PropertyGraph
