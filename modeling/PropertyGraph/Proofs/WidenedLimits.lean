/-
# Proofs.WidenedLimits -- a widened limit is enough and stays within bounds

A limit is doubled for each condition left over, but by no more than keeps it up to
`QueryLimits.cap`, and a reader with changes of its own gets up to five more.  The numbers
here are exact ones, while limits are words.

* `QueryLimits.inWords` takes the same steps on words.  Sums, powers, differences and even the
  product, which needs no cut at the greatest word, are taken exactly and have to be words again
  (`Word.ofNat?`).  So the steps answer a limit only if none of them leaves the words, and
  `inWords_eq` says that they always do.
* As long as the doubled limit is within the cap, nothing cuts the doubling
  (`widened_of_le_cap`).

`widened_limits_are_safe` says for all words what is asked for.
-/
import Mathlib.Data.UInt
import PropertyGraph.Query.Limits

namespace PropertyGraph

set_option autoImplicit false

namespace Word

/-- The word for an exact result, if there is one. -/
def ofNat? (n : Nat) : Option UInt64 :=
  if n < 0x10000000000000000 then some (UInt64.ofNat n) else none

theorem ofNat?_of_lt {n : Nat} (small : n < 0x10000000000000000) :
    ∃ w, ofNat? n = some w ∧ w.toNat = n := by
  refine ⟨UInt64.ofNat n, if_pos small, ?_⟩
  rw [UInt64.toNat_ofNat']
  exact Nat.mod_eq_of_lt small

/-- A quotient, unless nothing divides. -/
def quotient? (a b : UInt64) : Option UInt64 := if b = 0 then none else some (a / b)

end Word

namespace QueryLimits

/-! ## The steps on words -/

/-- Two to the number of conditions, or more than the cap allows. -/
def factorInWords (remaining : UInt64) : Option UInt64 :=
  if 31 ≤ remaining then some 0xFFFFFFFFFFFFFFFF else Word.ofNat? (1 <<< remaining.toNat)

/-- A limit doubled for each condition, within the cap. -/
def scaledInWords (remaining limit : UInt64) : Option UInt64 :=
  if remaining = 0 then some limit
  else do
    let most ← Word.quotient? 0x7FFFFFFF (max limit 1)
    let factor ← factorInWords remaining
    Word.ofNat? (limit.toNat * (min most factor).toNat)

/-- Room for the changes of the reader, within the cap.  The difference stops at zero. -/
def roomInWords (modified : Bool) (limit : UInt64) : Option UInt64 :=
  if modified then do
    let gap ← Word.ofNat? (0x7FFFFFFF - limit.toNat)
    Word.ofNat? (limit.toNat + (min gap 5).toNat)
  else some limit

/-- What a slice asks for, step by step on words. -/
def inWords (l : QueryLimits) (modified : Bool) (remaining wanted : UInt64) : Option UInt64 :=
  if wanted = noLimit then some wanted
  else do
    let scaled ← scaledInWords remaining wanted
    let adjusted ← roomInWords modified scaled
    return max wanted (min adjusted l.vertex)

/-! ## Exact numbers -/

/-- A limit multiplied by no more than the cap allows stays within the cap. -/
theorem mul_min_le_cap (limit factor : Nat) : limit * min (cap / max limit 1) factor ≤ cap := by
  have least : limit * min (cap / max limit 1) factor ≤ limit * (cap / max limit 1) :=
    Nat.mul_le_mul_left limit (Nat.min_le_left _ _)
  have share : max limit 1 * (cap / max limit 1) ≤ cap := Nat.mul_div_le cap _
  have more : limit * (cap / max limit 1) ≤ max limit 1 * (cap / max limit 1) :=
    Nat.mul_le_mul_right _ (Nat.le_max_left limit 1)
  omega

theorem widened_false (remaining limit : Nat) :
    widened false remaining limit =
      if remaining = 0 then limit else limit * min (cap / max limit 1) (1 <<< min remaining 31) :=
  rfl

theorem widened_true (remaining limit : Nat) :
    widened true remaining limit =
      widened false remaining limit + min (cap - widened false remaining limit) 5 :=
  rfl

/-- Where the doubled limit is within the cap, the doubling is not cut. -/
theorem widened_of_le_cap {remaining limit : Nat} (within : limit * 2 ^ remaining ≤ cap) :
    widened false remaining limit = limit * 2 ^ remaining := by
  rw [widened_false]
  by_cases nothing : remaining = 0
  · rw [if_pos nothing, nothing, Nat.pow_zero, Nat.mul_one]
  · rw [if_neg nothing]
    rcases Nat.eq_zero_or_pos limit with zero | positive
    · rw [zero, Nat.zero_mul, Nat.zero_mul]
    · have power : 2 ^ remaining ≤ cap := Nat.le_trans (Nat.le_mul_of_pos_left _ positive) within
      have short : remaining < 31 :=
        (Nat.pow_lt_pow_iff_right Nat.one_lt_two).mp (Nat.lt_of_le_of_lt power (by decide))
      have share : 2 ^ remaining ≤ cap / limit :=
        (Nat.le_div_iff_mul_le positive).mpr (by rwa [Nat.mul_comm])
      rw [Nat.max_eq_left positive, Nat.min_eq_left (Nat.le_of_lt short), Nat.shiftLeft_eq,
        Nat.one_mul, Nat.min_eq_right share]

theorem toNat_forSlice (l : QueryLimits) (modified : Bool) (remaining : Nat) {wanted : UInt64}
    (limited : wanted ≠ noLimit) :
    (l.forSlice modified remaining wanted).toNat =
      max wanted.toNat (min (widened modified remaining wanted.toNat) l.vertex.toNat) := by
  have small : min (widened modified remaining wanted.toNat) l.vertex.toNat < 2 ^ 64 :=
    Nat.lt_of_le_of_lt (Nat.min_le_right _ _) l.vertex.toNat_lt
  rw [forSlice, if_neg limited, UInt64.toNat_max, UInt64.toNat_ofNat', Nat.mod_eq_of_lt small]

/-! ## No step leaves the words -/

/-- The factor is a word and cuts the same as the exact one. -/
theorem factorInWords_eq (remaining : UInt64) :
    ∃ f, factorInWords remaining = some f ∧
      ∀ m ≤ cap, min m f.toNat = min m (1 <<< min remaining.toNat 31) := by
  by_cases long : 31 ≤ remaining
  · -- From 31 on either factor is above the cap and cuts nothing that is within it.
    refine ⟨0xFFFFFFFFFFFFFFFF, if_pos long, fun m within => ?_⟩
    have atLeast : 31 ≤ remaining.toNat := UInt64.le_iff_toNat_le.mp long
    have belowAll : m ≤ 0xFFFFFFFFFFFFFFFF := Nat.le_trans within (by decide)
    have belowPower : m ≤ 1 <<< 31 := Nat.le_trans within (by decide)
    rw [Nat.min_eq_right atLeast, Nat.min_eq_left belowPower]
    exact Nat.min_eq_left belowAll
  · have short : remaining.toNat < 31 := by
      rw [UInt64.le_iff_toNat_le] at long
      exact Nat.lt_of_not_le long
    have small : 1 <<< remaining.toNat < 0x10000000000000000 := by
      rw [Nat.shiftLeft_eq, Nat.one_mul]
      exact Nat.lt_trans (Nat.pow_lt_pow_right Nat.one_lt_two short) (by decide)
    obtain ⟨f, power, same⟩ := Word.ofNat?_of_lt small
    refine ⟨f, by rw [factorInWords, if_neg long, power], fun m _ => ?_⟩
    rw [same, Nat.min_eq_left (Nat.le_of_lt short)]

theorem scaledInWords_eq (remaining limit : UInt64) :
    ∃ w, scaledInWords remaining limit = some w ∧
      w.toNat = widened false remaining.toNat limit.toNat := by
  by_cases nothing : remaining = 0
  · subst nothing
    exact ⟨limit, rfl, rfl⟩
  · have more : remaining.toNat ≠ 0 := fun zero => nothing (UInt64.toNat.inj zero)
    have divisor : (max limit 1).toNat = max limit.toNat 1 := UInt64.toNat_max limit 1
    have divides : max limit 1 ≠ 0 := by
      intro zero
      rw [zero] at divisor
      have positive : 1 ≤ max limit.toNat 1 := Nat.le_max_right _ _
      rw [← divisor] at positive
      exact absurd positive (by decide)
    have most : (0x7FFFFFFF / max limit 1).toNat = cap / max limit.toNat 1 := by
      rw [UInt64.toNat_div, divisor]
      rfl
    obtain ⟨factor, power, cuts⟩ := factorInWords_eq remaining
    have product : limit.toNat * (min (0x7FFFFFFF / max limit 1) factor).toNat =
        widened false remaining.toNat limit.toNat := by
      rw [widened_false, if_neg more, UInt64.toNat_min, most, cuts _ (Nat.div_le_self _ _)]
    have small : widened false remaining.toNat limit.toNat < 0x10000000000000000 := by
      rw [widened_false, if_neg more]
      exact Nat.lt_of_le_of_lt (mul_min_le_cap _ _) (by decide)
    obtain ⟨w, isWord, same⟩ := Word.ofNat?_of_lt small
    refine ⟨w, ?_, same⟩
    simp only [scaledInWords, if_neg nothing, Word.quotient?, if_neg divides, power,
      Option.bind_eq_bind, Option.bind_some, product, isWord]

theorem roomInWords_eq (modified : Bool) (limit : UInt64) (remaining wanted : Nat)
    (scaled : limit.toNat = widened false remaining wanted) :
    ∃ w, roomInWords modified limit = some w ∧ w.toNat = widened modified remaining wanted := by
  cases modified with
  | false => exact ⟨limit, rfl, scaled⟩
  | true =>
      have bound := limit.toNat_lt
      have gapSmall : 0x7FFFFFFF - limit.toNat < 0x10000000000000000 := by omega
      obtain ⟨gap, difference, gapIs⟩ := Word.ofNat?_of_lt gapSmall
      have room : (min gap 5).toNat = min (cap - limit.toNat) 5 := by
        rw [UInt64.toNat_min, gapIs]
        rfl
      have small : limit.toNat + (min gap 5).toNat < 0x10000000000000000 := by
        rw [room, cap]
        omega
      obtain ⟨w, sum, same⟩ := Word.ofNat?_of_lt small
      refine ⟨w, ?_, ?_⟩
      · simp only [roomInWords, if_true, difference, Option.bind_eq_bind, Option.bind_some, sum]
      · rw [same, room, widened_true, scaled]

/-- The steps on words all come to words, and to the limit that is asked for. -/
theorem inWords_eq (l : QueryLimits) (modified : Bool) (remaining wanted : UInt64) :
    l.inWords modified remaining wanted = some (l.forSlice modified remaining.toNat wanted) := by
  by_cases unlimited : wanted = noLimit
  · rw [inWords, forSlice, if_pos unlimited, if_pos unlimited]
  · obtain ⟨scaled, isScaled, exactly⟩ := scaledInWords_eq remaining wanted
    obtain ⟨adjusted, isAdjusted, same⟩ := roomInWords_eq modified scaled _ _ exactly
    simp only [inWords, if_neg unlimited, isScaled, isAdjusted, Option.bind_eq_bind,
      Option.bind_some]
    apply congrArg some
    apply UInt64.toNat.inj
    rw [toNat_forSlice l modified remaining.toNat unlimited, UInt64.toNat_max, UInt64.toNat_min,
      same]

/-- A reader without changes of its own asks for the doubled limit where nothing cuts it, and
any reader for at most five more. -/
theorem forSlice_of_le_cap (l : QueryLimits) (modified : Bool) {remaining : Nat} {wanted : UInt64}
    (withinCap : wanted.toNat * 2 ^ remaining ≤ cap)
    (withinVertex : wanted.toNat * 2 ^ remaining ≤ l.vertex.toNat) :
    wanted.toNat * 2 ^ remaining ≤ (l.forSlice modified remaining wanted).toNat ∧
      (modified = false →
        (l.forSlice modified remaining wanted).toNat = wanted.toNat * 2 ^ remaining) ∧
      (l.forSlice modified remaining wanted).toNat ≤ wanted.toNat * 2 ^ remaining + 5 := by
  have doubled := widened_of_le_cap withinCap
  have least : wanted.toNat ≤ wanted.toNat * 2 ^ remaining :=
    Nat.le_mul_of_pos_right _ (Nat.pow_pos Nat.two_pos)
  have limited : wanted ≠ noLimit := by
    rintro rfl
    exact absurd (Nat.le_trans least withinCap) (by decide)
  rw [toNat_forSlice l modified remaining limited]
  generalize wanted.toNat * 2 ^ remaining = product at *
  cases modified with
  | false =>
      rw [doubled]
      refine ⟨by omega, fun _ => by omega, by omega⟩
  | true =>
      rw [widened_true, doubled]
      refine ⟨by omega, nofun, by omega⟩

/-- Widening is safe and sufficient, for all words.  No step of it leaves the words or divides by
zero.  A slice without a limit stays without one.  Any other limit is widened to at least itself
and at most the greater of itself and the vertex limit.  Where the limit doubled for each
condition left over is within the cap and the vertex limit, at least so much is asked for, by a
reader without changes of its own exactly so much, and by any reader at most five more. -/
theorem widened_limits_are_safe (l : QueryLimits) (modified : Bool) (remaining wanted : UInt64) :
    l.inWords modified remaining wanted = some (l.forSlice modified remaining.toNat wanted) ∧
    (wanted = noLimit → l.forSlice modified remaining.toNat wanted = noLimit) ∧
    (wanted ≠ noLimit →
      wanted ≤ l.forSlice modified remaining.toNat wanted ∧
      l.forSlice modified remaining.toNat wanted ≤ max wanted l.vertex) ∧
    (wanted.toNat * 2 ^ remaining.toNat ≤ cap →
      wanted.toNat * 2 ^ remaining.toNat ≤ l.vertex.toNat →
        wanted.toNat * 2 ^ remaining.toNat ≤ (l.forSlice modified remaining.toNat wanted).toNat ∧
        (modified = false → (l.forSlice modified remaining.toNat wanted).toNat =
          wanted.toNat * 2 ^ remaining.toNat) ∧
        (l.forSlice modified remaining.toNat wanted).toNat ≤
          wanted.toNat * 2 ^ remaining.toNat + 5) := by
  refine ⟨inWords_eq l modified remaining wanted, ?_, ?_, ?_⟩
  · intro unlimited
    rw [forSlice, if_pos unlimited, unlimited]
  · intro limited
    refine ⟨l.le_forSlice modified remaining.toNat wanted, ?_⟩
    rw [UInt64.le_iff_toNat_le, toNat_forSlice l modified remaining.toNat limited,
      UInt64.toNat_max]
    omega
  · intro withinCap withinVertex
    exact forSlice_of_le_cap l modified withinCap withinVertex

/-- Ten and two conditions left over come to forty, and to five more with changes; what is more
than the cap is not widened, and what is without a limit stays so. -/
theorem ten_is_widened :
    (default.forSlice false 2 10).toNat = 40 ∧
      40 ≤ (default.forSlice true 2 10).toNat ∧ (default.forSlice true 2 10).toNat ≤ 45 ∧
      default.forSlice true 3 noLimit = noLimit ∧
      default.forSlice true 40 0x80000000 ≤ max 0x80000000 default.vertex := by
  obtain ⟨-, -, -, enough⟩ := widened_limits_are_safe default false 2 10
  obtain ⟨-, -, -, enough'⟩ := widened_limits_are_safe default true 2 10
  obtain ⟨-, endless, -, -⟩ := widened_limits_are_safe default true 3 noLimit
  obtain ⟨-, -, bounded, -⟩ := widened_limits_are_safe default true 40 0x80000000
  obtain ⟨-, exactly, -⟩ := enough (by decide) (by decide)
  obtain ⟨least, -, most⟩ := enough' (by decide) (by decide)
  exact ⟨exactly rfl, least, most, endless rfl, (bounded (by decide)).2⟩

end QueryLimits

end PropertyGraph
