/-
# Double.Decimal -- the shortest decimal of a double

A finite double other than zero is shown by the decimal with the fewest digits
among those that round to it, and of several such by the nearest.  All decimals
that round to a double form an interval around it; a decimal `k * 10 ^ e` lies on
the grid of exponent `e`, and the fewest digits are on the coarsest grid that
meets the interval.  `Rounding.onGrid_mem` says that what is taken lies inside.

The digits are written positionally, however many zeros that takes.
-/
import PropertyGraph.Double.Basic

namespace PropertyGraph.Double

set_option autoImplicit false

/-- The leading bit of a mantissa, which is not stored. -/
def leadingBit : Nat := 0x10000000000000

/-- The mantissa and the binary exponent of a finite double. -/
def parts (d : Double) : Nat × Int :=
  let biased : Nat := d.magnitude / leadingBit
  let fraction : Nat := d.magnitude % leadingBit
  if biased = 0 then (fraction, -1074) else (fraction + leadingBit, (biased : Int) - 1075)

/-- The reals that round to one double, counted in units of `2 ^ exponent`. -/
structure Rounding where
  value : Nat
  lower : Nat
  upper : Nat
  exponent : Int
  /-- The ends of the interval round to the double too. -/
  closed : Bool

/-- Half way to the next double on either side.  Below a power of two the next
double is only half as far; an even mantissa takes both ends. -/
def rounding (d : Double) : Rounding :=
  let (mantissa, exponent) := d.parts
  { value := 4 * mantissa
    lower := 4 * mantissa - (if mantissa = leadingBit then 1 else 2)
    upper := 4 * mantissa + 2
    exponent := exponent - 2
    closed := mantissa % 2 == 0 }

namespace Rounding

/-- One unit of the interval, on a scale on which grid and interval are integral. -/
def scale (r : Rounding) (e : Int) : Nat := Nat.pow 10 (-e).toNat <<< r.exponent.toNat

/-- The distance of two points of the grid of exponent `e`, on the same scale. -/
def step (r : Rounding) (e : Int) : Nat := Nat.pow 10 e.toNat <<< (-r.exponent).toNat

/-- The point `k * 10 ^ e` rounds to the double. -/
def holds (r : Rounding) (e : Int) (k : Nat) : Bool :=
  let lower := r.lower * r.scale e
  let upper := r.upper * r.scale e
  if r.closed then decide (lower ≤ k * r.step e) && decide (k * r.step e ≤ upper)
  else decide (lower < k * r.step e) && decide (k * r.step e < upper)

/-- The nearest point of a grid that rounds to the double; of two equally near
the greater. -/
def onGrid (r : Rounding) (e : Int) : Option Nat :=
  let value := r.value * r.scale e
  let below := value / r.step e
  let above := below + 1
  if r.holds e above &&
      (!r.holds e below || decide (above * r.step e - value ≤ value - below * r.step e)) then
    some above
  else if r.holds e below then some below
  else none

theorem onGrid_mem {r : Rounding} {e : Int} {k : Nat} (found : r.onGrid e = some k) :
    r.holds e k = true := by
  simp only [onGrid] at found
  split at found
  · simp_all
  · split at found <;> simp_all

/-- The point on the coarsest of so many grids, from exponent `e` downward. -/
def coarsest (r : Rounding) : Nat → Int → Nat × Int
  | 0, e => (0, e)
  | grids + 1, e =>
      match r.onGrid e with
      | some k => (k, e)
      | none => coarsest r grids (e - 1)

end Rounding

/-- The decimal of a finite double other than zero: its digits as a number and
the exponent of ten. -/
def decimal (d : Double) : Nat × Int := d.rounding.coarsest 640 309

/-- The number `k * 10 ^ e` without an exponent. -/
def positional (k : Nat) (e : Int) : List Char :=
  let digits := Nat.toDigits 10 k
  if 0 ≤ e then digits ++ List.replicate e.toNat '0'
  else
    let places := (-e).toNat
    if places < digits.length then
      digits.take (digits.length - places) ++ '.' :: digits.drop (digits.length - places)
    else '0' :: '.' :: (List.replicate (places - digits.length) '0' ++ digits)

/-- The text of a double. -/
def shown (d : Double) : String :=
  let sign := if d.negative then "-" else ""
  if d.isNaN then "NaN"
  else if d.magnitude = infinity then sign ++ "inf"
  else if d.magnitude = 0 then sign ++ "0"
  else
    let (k, e) := d.decimal
    sign ++ String.ofList (positional k e)

end PropertyGraph.Double
