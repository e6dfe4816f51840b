/-
# Numeral -- natural numbers in base ten

`Numeral.digits` are the digits of a number, most significant first and without
leading zeros, and `Numeral.value` is the number of some digits
(`value_digits`).
-/

namespace PropertyGraph.Numeral

set_option autoImplicit false

/-- The digits of a number that has at most so many digits behind the first. -/
def digitsWithin : Nat → Nat → List Nat
  | 0, n => [n]
  | more + 1, n => if n < 10 then [n] else digitsWithin more (n / 10) ++ [n % 10]

/-- The digits of a number. -/
def digits (n : Nat) : List Nat := digitsWithin n n

/-- The number that digits stand for. -/
def value (ds : List Nat) : Nat := ds.foldl (fun acc d => acc * 10 + d) 0

theorem value_append_singleton (ds : List Nat) (d : Nat) :
    value (ds ++ [d]) = value ds * 10 + d := by
  simp [value]

theorem value_digitsWithin (more n : Nat) : value (digitsWithin more n) = n := by
  induction more generalizing n with
  | zero => simp [digitsWithin, value]
  | succ more ih =>
      simp only [digitsWithin]
      split
      · simp [value]
      · rw [value_append_singleton, ih]
        omega

theorem value_digits (n : Nat) : value (digits n) = n := value_digitsWithin n n

theorem digitsWithin_ne_nil (more n : Nat) : digitsWithin more n ≠ [] := by
  cases more with
  | zero => simp [digitsWithin]
  | succ more => simp only [digitsWithin]; split <;> simp

theorem lt_ten_of_mem_digitsWithin {more n d : Nat} (bound : n ≤ more)
    (member : d ∈ digitsWithin more n) : d < 10 := by
  induction more generalizing n with
  | zero => simp_all [digitsWithin]
  | succ more ih =>
      simp only [digitsWithin] at member
      split at member
      · simp_all
      · rcases List.mem_append.1 member with front | last
        · exact ih (by omega) front
        · simp at last; omega

theorem lt_ten_of_mem_digits {n d : Nat} (member : d ∈ digits n) : d < 10 :=
  lt_ten_of_mem_digitsWithin (Nat.le_refl n) member

/-- Only zero starts with a zero. -/
theorem head?_digitsWithin {more n : Nat} (bound : n ≤ more) (positive : 0 < n) :
    (digitsWithin more n).head? ≠ some 0 := by
  induction more generalizing n with
  | zero => omega
  | succ more ih =>
      simp only [digitsWithin]
      split
      · simp; omega
      · have := ih (n := n / 10) (by omega) (by omega)
        have front := digitsWithin_ne_nil more (n / 10)
        cases shape : digitsWithin more (n / 10) with
        | nil => exact absurd shape front
        | cons d rest => simpa [shape] using this

end PropertyGraph.Numeral
