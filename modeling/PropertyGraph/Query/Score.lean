/-
# Query.Score -- how well an index answers a query

A score is a binary fraction that is kept to 53 significant digits; both a share
of a whole and a sum are rounded to the nearest such fraction, a tie to the even
one.  Scores are compared as numbers.
-/
import PropertyGraph.Fault

namespace PropertyGraph

set_option autoImplicit false

/-- A score counted in units of `2 ^ -128`. -/
structure Score where
  units : Nat
  deriving DecidableEq

namespace Score

/-- The quotient to the nearest integer, a tie to the even one. -/
def nearest (n d : Nat) : Nat :=
  let q := n / d
  let r := n % d
  if 2 * r < d then q
  else if d < 2 * r then q + 1
  else if q % 2 = 0 then q else q + 1

/-- The quotient kept to 53 significant binary digits. -/
def rounded (n d : Nat) : Score :=
  let step := 1 <<< (Nat.log2 (n / d) - 52)
  ⟨nearest n (d * step) * step⟩

def zero : Score := ⟨0⟩

def whole (n : Nat) : Score := ⟨n <<< 128⟩

/-- The share of each of so many in a whole. -/
def share (n parts : Nat) : Score := rounded (n <<< 128) parts

def add (a b : Score) : Score := rounded (a.units + b.units) 1

theorem nearest_one (n : Nat) : nearest n 1 = n := by
  simp [nearest, Nat.mod_one]

/-- Small sums of units are exact. -/
theorem rounded_one_of_small {n : Nat} (small : Nat.log2 n ≤ 52) : rounded n 1 = ⟨n⟩ := by
  have : Nat.log2 n - 52 = 0 := by omega
  simp [rounded, this, nearest_one]

end Score

end PropertyGraph
