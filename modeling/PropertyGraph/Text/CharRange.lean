/-
# Text.CharRange -- sets of characters as code point ranges

A property of characters is a list of ranges of code points.  `CharRange.covers`
is membership in one of them (`covers_eq_true_iff`).
-/

namespace PropertyGraph

set_option autoImplicit false

/-- All code points from the first to the last, both included. -/
abbrev CharRange := Nat × Nat

namespace CharRange

/-- The character lies in one of the ranges. -/
def covers (ranges : List CharRange) (c : Char) : Bool :=
  ranges.any fun r => decide (r.1 ≤ c.toNat) && decide (c.toNat ≤ r.2)

theorem covers_eq_true_iff (ranges : List CharRange) (c : Char) :
    covers ranges c = true ↔ ∃ r ∈ ranges, r.1 ≤ c.toNat ∧ c.toNat ≤ r.2 := by
  simp [covers]

end CharRange

end PropertyGraph
