/-
# Double -- binary floating point numbers as words

A double is its 64 bits, so that two zeros and all the not-a-numbers stay apart.
`Double.compare` is the total order of the format: every negative number comes
before every positive one, a larger magnitude lies further from zero, and equal
means equal bits (`Double.compare_eq_iff`).
-/
import PropertyGraph.Fault

namespace PropertyGraph

set_option autoImplicit false

/-- A binary floating point number of 64 bits. -/
structure Double where
  bits : UInt64
  deriving DecidableEq

namespace Double

/-- The sign bit is set. -/
def negative (d : Double) : Bool := decide (0x8000000000000000 ≤ d.bits.toNat)

/-- The bits without the sign, as a number. -/
def magnitude (d : Double) : Nat := d.bits.toNat % 0x8000000000000000

/-- The magnitude of infinity; whatever lies above it is no number. -/
def infinity : Nat := 0x7FF0000000000000

def isNaN (d : Double) : Bool := decide (infinity < d.magnitude)

/-- The total order of doubles. -/
def compare (a b : Double) : Ordering :=
  match a.negative, b.negative with
  | true, false => .lt
  | false, true => .gt
  | false, false => Ord.compare a.magnitude b.magnitude
  | true, true => Ord.compare b.magnitude a.magnitude

instance : Ord Double := ⟨compare⟩

/-- Sign and magnitude together are all of a double. -/
theorem eq_of_magnitude {a b : Double} (sign : a.negative = b.negative)
    (size : a.magnitude = b.magnitude) : a = b := by
  have ha := a.bits.toNat_lt
  have hb := b.bits.toNat_lt
  have signs : 0x8000000000000000 ≤ a.bits.toNat ↔ 0x8000000000000000 ≤ b.bits.toNat := decide_eq_decide.1 sign
  have : a.bits = b.bits := by
    apply UInt64.toNat.inj
    simp only [magnitude] at size
    by_cases high : 0x8000000000000000 ≤ a.bits.toNat
    · have := signs.1 high
      omega
    · have := mt signs.2 high
      omega
  cases a; cases b; simp_all

theorem compare_eq_iff (a b : Double) : compare a b = .eq ↔ a = b := by
  constructor
  · intro same
    cases ha : a.negative <;> cases hb : b.negative <;> simp [compare, ha, hb] at same
    · exact eq_of_magnitude (by rw [ha, hb]) same
    · exact eq_of_magnitude (by rw [ha, hb]) same.symm
  · rintro rfl
    cases ha : a.negative <;> simp [compare, ha]

end Double

end PropertyGraph
