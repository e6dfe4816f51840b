/-
# Schema.LazySlot -- derived values that are computed once

A slot holds a derived value from its first computation until it is reset.  The
computation may itself use the slot, so it runs between two moments: `begin`
notes the generation of the slot, `finish` stores the value only if the slot was
not reset in between.

* A kept value is answered without another computation (`getOrInit_of_ready`).
* A value computed across a reset is answered but not kept
  (`content_finish_of_reset`).
* Resetting a slot that holds nothing changes nothing (`reset_of_unset`).
-/
import PropertyGraph.Fault

namespace PropertyGraph

set_option autoImplicit false

inductive SlotContent (α : Type) where
  | unset
  | computing
  | ready (value : α)
  deriving DecidableEq

/-- The word for the state of a slot. -/
def SlotContent.state {α : Type} : SlotContent α → String
  | .unset => "Uninitialized"
  | .computing => "Computing"
  | .ready _ => "Ready"

structure LazySlot (α : Type) where
  content : SlotContent α
  /-- Number of values and computations that were given up. -/
  generation : Nat
  deriving DecidableEq

namespace LazySlot

variable {α : Type}

def empty : LazySlot α := ⟨.unset, 0⟩

/-- The kept value. -/
def get? (s : LazySlot α) : Option α :=
  match s.content with
  | .ready value => some value
  | _ => none

/-- Gives the value, or a computation under way, up. -/
def reset (s : LazySlot α) : LazySlot α :=
  match s.content with
  | .unset => s
  | _ => ⟨.unset, s.generation + 1⟩

/-- A computation is under way. -/
def begin (s : LazySlot α) : LazySlot α := { s with content := .computing }

/-- Takes the outcome of a computation that began in a generation.  Within that
generation the first value stays. -/
def finish (s : LazySlot α) (generation : Nat) : Outcome α → Outcome α × LazySlot α
  | .ok value =>
      if s.generation = generation then
        match s.content with
        | .ready first => (.ok first, s)
        | _ => (.ok value, { s with content := .ready value })
      else (.ok value, s)
  | .error fault =>
      match s.content with
      | .computing =>
          (.error fault,
            if s.generation = generation then { s with content := .unset } else s)
      | _ => (.error fault, s)

/-- The kept value, or the outcome of a computation that may use the slot and
whatever stands beside it. -/
def getOrInitWith {σ : Type} (compute : LazySlot α × σ → Outcome α × (LazySlot α × σ))
    (s : LazySlot α) (beside : σ) : Outcome α × (LazySlot α × σ) :=
  match s.content with
  | .ready value => (.ok value, (s, beside))
  | _ =>
      let (computed, (after, beside)) := compute (s.begin, beside)
      let (answer, after) := after.finish s.generation computed
      (answer, (after, beside))

/-- The kept value, or a value that is computed without the slot. -/
def getOrInit (s : LazySlot α) (compute : Outcome α) : Outcome α × LazySlot α :=
  let (answer, (after, _)) := getOrInitWith (fun s => (compute, s)) s ()
  (answer, after)

theorem getOrInit_of_ready {s : LazySlot α} {value : α} (kept : s.content = .ready value)
    (compute : Outcome α) : s.getOrInit compute = (.ok value, s) := by
  simp [getOrInit, getOrInitWith, kept]

theorem content_finish_of_reset {s : LazySlot α} {generation : Nat}
    (other : s.generation ≠ generation) (value : α) :
    s.finish generation (.ok value) = (.ok value, s) := by
  simp [finish, other]

theorem reset_of_unset {s : LazySlot α} (nothing : s.content = .unset) : s.reset = s := by
  simp [reset, nothing]

end LazySlot

end PropertyGraph
