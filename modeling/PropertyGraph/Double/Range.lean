/-
# Double.Range -- decimals beyond every double

A decimal rounds to the nearest double, and half way between two to the even one.
What lies half way between the greatest double and the next power of two, or
farther, rounds to infinity.
-/
import PropertyGraph.Double.Basic

namespace PropertyGraph.Double

set_option autoImplicit false

/-- The least number that rounds to infinity. -/
def overflow : Nat := 0x3FFFFFFFFFFFFF <<< 970

/-- The decimal `k * 10 ^ e` rounds to infinity.  That number has as many digits
before the point as `overflow`, unless its size alone decides. -/
def exceeds (k : Nat) (e : Int) : Bool :=
  let size : Int := (Nat.toDigits 10 k).length + e
  if k = 0 ∨ size < 309 then false
  else if 309 < size then true
  else decide (overflow * Nat.pow 10 (-e).toNat ≤ k * Nat.pow 10 e.toNat)

end PropertyGraph.Double
