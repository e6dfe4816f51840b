/-
# Bytes.Cursor -- reading a buffer from the front

A cursor is a place in a buffer: how much was read and what is left.  Reading
either takes exactly what was asked for or fails and leaves the cursor alone;
`Cursor.take_eq_ok_iff` says when it succeeds and what it answers.
-/
import PropertyGraph.Bytes.Ordered

namespace PropertyGraph

set_option autoImplicit false

structure Cursor where
  /-- Bytes read so far. -/
  offset : Nat
  /-- Bytes not yet read. -/
  rest : Bytes
  deriving DecidableEq

namespace Cursor

/-- A cursor in front of a whole buffer. -/
def start (b : Bytes) : Cursor := ⟨0, b⟩

/-- Offsets are 64-bit words. -/
def offsetBound : Nat := 0x10000000000000000

def take (c : Cursor) (n : Nat) : Outcome (Bytes × Cursor) :=
  if offsetBound ≤ c.offset + n then .error (.corrupt .offsetOverflow)
  else if c.rest.length < n then .error (.corrupt .columnTruncated)
  else .ok (c.rest.take n, ⟨c.offset + n, c.rest.drop n⟩)

theorem take_eq_ok_iff (c d : Cursor) (n : Nat) (b : Bytes) :
    c.take n = .ok (b, d) ↔
      c.offset + n < offsetBound ∧ b.length = n ∧ c.rest = b ++ d.rest ∧
        d.offset = c.offset + n := by
  unfold take
  constructor
  · intro taken
    split at taken
    · simp at taken
    · split at taken
      · simp at taken
      · rename_i inBound enough
        simp only [Except.ok.injEq, Prod.mk.injEq] at taken
        obtain ⟨rfl, rfl⟩ := taken
        refine ⟨by omega, ?_, ?_, rfl⟩
        · simp only [List.length_take]; omega
        · simp
  · rintro ⟨inBound, size, shape, place⟩
    have notOver : ¬ offsetBound ≤ c.offset + n := by omega
    have enough : ¬ c.rest.length < n := by simp [shape, size]
    simp only [notOver, enough, if_false, Except.ok.injEq, Prod.mk.injEq]
    subst size
    cases d
    simp_all

def takeByte (c : Cursor) : Outcome (UInt8 × Cursor) := do
  let (b, d) ← c.take 1
  return (b.headD 0, d)

def takeWord (c : Cursor) : Outcome (UInt64 × Cursor) := do
  let (b, d) ← c.take 8
  return (UInt64.ofNat (Ordered.number b), d)

/-- The form of a cursor in messages. -/
def shown (c : Cursor) : String :=
  "Cursor \x7b off: " ++ toString c.offset ++ ", remaining: " ++ toString c.rest.length ++ " \x7d"

end Cursor

end PropertyGraph
