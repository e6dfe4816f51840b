/-
# Proofs.PrefixBounds -- what lies between a buffer and its successor

The successor of a buffer drops the greatest bytes at its end and counts the byte before
them up (`successor_eq_some_iff`), so it is often shorter than the buffer.  The stretch up to
it is no wider for that: what is neither below the buffer nor reaches the successor starts
with the buffer (`between_successor_iff`).

`prefix_bounds_are_exact` says so in both directions, with the successor as the least upper
bound, and says what holds where there is none.  The order comes in through
`successor_le_iff` alone: the successor is reached by what comes after the buffer.
-/
import PropertyGraph.Proofs.ByteOrder

namespace PropertyGraph.Bytes

set_option autoImplicit false

/-! ## The form of the successor -/

/-- Greatest bytes at the end do not count. -/
theorem successor_append_greatest (p : Bytes) (k : Nat) :
    successor (p ++ greatest k) = successor p := by
  induction p with
  | nil =>
      show successor (greatest k) = none
      rw [successor_eq_none_iff]
      intro x member
      exact List.eq_of_mem_replicate member
  | cons b rest ih =>
      show successor (b :: (rest ++ greatest k)) = successor (b :: rest)
      simp only [successor, ih]

/-- Any other byte at the end is counted up. -/
theorem successor_concat (front : Bytes) {x : UInt8} (low : x ≠ 0xFF) :
    successor (front ++ [x]) = some (front ++ [x + 1]) := by
  induction front with
  | nil => simp [successor, low]
  | cons b front ih => simp only [List.cons_append, successor, ih]

/-- A buffer has greatest bytes only, or another byte and behind it greatest ones. -/
theorem greatest_or_append (p : Bytes) :
    p = greatest p.length ∨ ∃ front x k, p = front ++ [x] ++ greatest k ∧ x ≠ 0xFF := by
  induction p with
  | nil => exact .inl rfl
  | cons b rest ih =>
      rcases ih with full | ⟨front, x, k, rfl, low⟩
      · by_cases top : b = 0xFF
        · left
          rw [top, full]
          simp [greatest, List.replicate_succ]
        · right
          refine ⟨[], b, rest.length, ?_, top⟩
          rw [← full]
          rfl
      · exact .inr ⟨b :: front, x, k, rfl, low⟩

theorem successor_eq_some_iff (p n : Bytes) :
    successor p = some n ↔
      ∃ front x k, p = front ++ [x] ++ greatest k ∧ x ≠ 0xFF ∧ n = front ++ [x + 1] := by
  constructor
  · intro next
    rcases greatest_or_append p with full | ⟨front, x, k, rfl, low⟩
    · have none : successor p = none := by
        rw [full]
        exact successor_append_greatest [] p.length
      rw [none] at next
      cases next
    · rw [successor_append_greatest, successor_concat front low] at next
      exact ⟨front, x, k, rfl, low, (Option.some.inj next).symm⟩
  · rintro ⟨front, x, k, rfl, low, rfl⟩
    rw [successor_append_greatest, successor_concat front low]

/-! ## The bounds -/

/-- What starts with a buffer lies between it and its successor, and nothing else does. -/
theorem between_successor_iff {p n : Bytes} (next : successor p = some n) (b : Bytes) :
    p ≤ b ∧ b < n ↔ p <+: b := by
  rw [← List.not_le, successor_le_iff next, le_iff]
  constructor
  · rintro ⟨before | starts, within⟩
    · exact absurd before within
    · exact starts
  · intro starts
    refine ⟨.inr starts, ?_⟩
    intro before
    exact before.not_prefix starts

/-- The successor is not above anything that what starts with the buffer does not exceed. -/
theorem successor_le_of_forall {p n m : Bytes} (next : successor p = some n)
    (above : ∀ b, p <+: b → b ≤ m) : n ≤ m := by
  rw [successor_le_iff next]
  rcases (le_iff p m).mp (above p (List.prefix_refl p)) with before | starts
  · exact before
  · -- What starts with the buffer itself is exceeded by its own extensions.
    have longer : m ++ [0] ≤ m := above _ (starts.trans (List.prefix_append m [0]))
    exact absurd (lt_append_zero m) (List.not_lt.mpr longer)

/-- A buffer without a successor is reached by nothing but what starts with it. -/
theorem le_iff_of_successor_eq_none {p : Bytes} (full : successor p = none) (b : Bytes) :
    p ≤ b ↔ p <+: b := by
  rw [le_iff]
  constructor
  · rintro (before | starts)
    · exact absurd before (not_before_of_successor_eq_none full b)
    · exact starts
  · exact .inr

/-- The successor of a buffer bounds what starts with the buffer.  Where there is one, it is the
buffer without the greatest bytes at its end and with the byte before them counted up; from the
buffer up to, not including, the successor there is exactly what starts with the buffer; and
nothing lower bounds it.  Where there is none, the buffer has no byte but the greatest one, and
exactly what starts with it reaches it. -/
theorem prefix_bounds_are_exact (p : Bytes) :
    (∀ n, successor p = some n →
      (∃ front x k, p = front ++ [x] ++ greatest k ∧ x ≠ 0xFF ∧ n = front ++ [x + 1]) ∧
      (∀ b, p ≤ b ∧ b < n ↔ startsWith b p = true) ∧
      ∀ m, (∀ b, startsWith b p = true → b ≤ m) → n ≤ m) ∧
    (successor p = none →
      (∀ x ∈ p, x = 0xFF) ∧ ∀ b, p ≤ b ↔ startsWith b p = true) := by
  simp only [startsWith_iff]
  constructor
  · intro n next
    refine ⟨(successor_eq_some_iff p n).mp next, between_successor_iff next, ?_⟩
    intro m above
    exact successor_le_of_forall next above
  · intro full
    exact ⟨(successor_eq_none_iff p).mp full, le_iff_of_successor_eq_none full⟩

/-- A carry shortens the bound, which stays above the long extensions and is still the least
one; behind greatest bytes there is no bound. -/
theorem carried_bounds_are_exact :
    successor [0x10, 0xFF, 0xFF] = some [0x11] ∧
      ([0x10, 0xFF, 0xFF, 0xFF] : Bytes) < [0x11] ∧ ([0x11] : Bytes) ≤ [0x11, 0] ∧
      successor [0xFF, 0xFF] = none ∧ ([0xFF, 0xFF] : Bytes) ≤ [0xFF, 0xFF, 0] := by
  have carried : successor [0x10, 0xFF, 0xFF] = some [0x11] := by decide
  have full : successor [0xFF, 0xFF] = none := by decide
  obtain ⟨-, within, least⟩ := (prefix_bounds_are_exact [0x10, 0xFF, 0xFF]).1 [0x11] carried
  obtain ⟨-, reached⟩ := (prefix_bounds_are_exact [0xFF, 0xFF]).2 full
  refine ⟨carried, ((within _).mpr (by decide)).2, least _ ?_, full, (reached _).mpr (by decide)⟩
  intro b starts
  have below : b < [0x11] := ((within b).mpr starts).2
  exact List.le_of_lt (List.lt_trans below (lt_append_zero [0x11]))

end PropertyGraph.Bytes
