/-
# Proofs.OrderedForms -- written values stand as the values compare

Values of one type are written so that their bytes part, and part the right way
round, as soon as the values differ (`StoredValue.stands_of_write`).  Words,
integers and doubles are digits of a number in the same order; a text is told by its
characters, then by its UTF-8 bytes, and the escaped form tells even a text from its
extensions.  Complementing the bytes turns the order round.
-/
import PropertyGraph.Proofs.ByteOrder
import PropertyGraph.Relation.Column
import Mathlib.Data.List.Basic

namespace PropertyGraph

set_option autoImplicit false

open Bytes

namespace Bytes

/-- A form that takes smaller values before greater ones stands as they compare. -/
theorem stands_of_lt {α : Type} [LT α] [DecidableLT α] [DecidableEq α] (form : α → Bytes)
    {a b : α} (total : a < b ∨ a = b ∨ b < a) (below : a < b → Before (form a) (form b))
    (above : b < a → Before (form b) (form a)) :
    Stands (compareOfLessAndEq a b) (form a) (form b) := by
  unfold compareOfLessAndEq
  split
  · case isTrue less => exact below less
  · case isFalse notLess =>
      split
      · case isTrue same => exact congrArg form same
      · case isFalse different =>
          obtain less | same | greater := total
          · exact absurd less notLess
          · exact absurd same different
          · exact above greater

/-- A list before another by a byte is below it. -/
theorem Before.lt {a b : Bytes} (before : Before a b) : a < b := by
  apply List.not_le.mp
  intro reached
  obtain back | starts := (le_iff b a).mp reached
  · exact before.asymm back
  · exact before.not_prefix_of starts

/-- A list before another by a byte compares as less. -/
theorem Before.compare_eq_lt {a b : Bytes} (before : Before a b) : compare a b = .lt := by
  induction a generalizing b with
  | nil => exact absurd before (not_nil_before b)
  | cons x a ih =>
      cases b with
      | nil => exact absurd before (not_before_nil _)
      | cons y b =>
          rw [List.compare_eq_compareLex, List.compareLex_cons_cons, Ordering.then_eq_lt]
          obtain less | ⟨rfl, before⟩ := before
          · exact .inl (Std.compare_eq_lt.2 less)
          · exact .inr ⟨Std.ReflOrd.compare_self, ih before⟩

/-- Lists that stand to each other as something else compare as it does. -/
theorem Stands.compare_eq {o : Ordering} {a b : Bytes} (stands : Stands o a b) :
    compare a b = o := by
  cases o with
  | lt => exact Before.compare_eq_lt stands
  | eq =>
      obtain rfl : a = b := stands
      exact Std.ReflOrd.compare_self
  | gt => exact Std.OrientedCmp.gt_of_lt (Before.compare_eq_lt stands)

end Bytes

namespace Ordered

theorem weight_pos (n : Nat) : 0 < weight n := by
  induction n with
  | zero => exact Nat.one_pos
  | succ n ih => rw [weight]; omega

/-- Of two numbers that fit, the smaller one comes first. -/
theorem before_digits {n a b : Nat} (less : a < b) (fits : b < weight n) :
    Before (digits n a) (digits n b) := by
  induction n generalizing a b with
  | zero => rw [weight] at fits; omega
  | succ n ih =>
      have positive := weight_pos n
      rw [weight, Nat.mul_comm] at fits
      have top : b / weight n < 256 := Nat.div_lt_of_lt_mul (by rwa [Nat.mul_comm] at fits)
      have leading : a / weight n ≤ b / weight n := Nat.div_le_div_right (Nat.le_of_lt less)
      rw [digits, digits, before_cons_iff, UInt8.lt_iff_toNat_lt, UInt8.toNat_ofNat',
        UInt8.toNat_ofNat', ← UInt8.toNat_inj, UInt8.toNat_ofNat', UInt8.toNat_ofNat']
      rw [Nat.mod_eq_of_lt top, Nat.mod_eq_of_lt (Nat.lt_of_le_of_lt leading top)]
      obtain lower | same := Nat.lt_or_eq_of_le leading
      · exact .inl lower
      · refine .inr ⟨same, ih ?_ (Nat.mod_lt b positive)⟩
        have wholeA := Nat.div_add_mod a (weight n)
        have wholeB := Nat.div_add_mod b (weight n)
        rw [same] at wholeA
        omega

/-- Digits stand as the numbers compare. -/
theorem stands_digits {n a b : Nat} (fitsA : a < weight n) (fitsB : b < weight n) :
    Stands (Ord.compare a b) (digits n a) (digits n b) := by
  apply stands_of_lt (digits n) (Nat.lt_trichotomy a b)
  · intro less
    exact before_digits less fitsB
  · intro greater
    exact before_digits greater fitsA

theorem weight_eight : weight 8 = 0x10000000000000000 := rfl

theorem stands_ofWord (a b : UInt64) : Stands (Ord.compare a b) (ofWord a) (ofWord b) := by
  have fitsA := a.toNat_lt
  have fitsB := b.toNat_lt
  apply stands_of_lt ofWord
  · rw [UInt64.lt_iff_toNat_lt, UInt64.lt_iff_toNat_lt, ← UInt64.toNat_inj]
    exact Nat.lt_trichotomy _ _
  · intro less
    exact before_digits (UInt64.lt_iff_toNat_lt.mp less) fitsB
  · intro greater
    exact before_digits (UInt64.lt_iff_toNat_lt.mp greater) fitsA

theorem stands_ofLong (a b : Long) : Stands (Ord.compare a b) (ofLong a) (ofLong b) := by
  have lowA := a.le_toInt
  have highA := a.toInt_lt
  have lowB := b.le_toInt
  have highB := b.toInt_lt
  have size := weight_eight
  apply stands_of_lt ofLong
  · rw [Int64.lt_iff_toInt_lt, Int64.lt_iff_toInt_lt, ← Int64.toInt_inj]
    omega
  · intro less
    rw [Int64.lt_iff_toInt_lt] at less
    exact before_digits (by omega) (by omega)
  · intro greater
    rw [Int64.lt_iff_toInt_lt] at greater
    exact before_digits (by omega) (by omega)

theorem place_lt (d : Double) : place d < weight 8 := by
  have size := d.bits.toNat_lt
  rw [weight_eight, place]
  split
  · omega
  · case isFalse positive =>
      simp only [Double.negative, decide_eq_true_eq] at positive
      omega

/-- Numbers compare alike when they are smaller and greater alike. -/
theorem compare_congr {a b c d : Nat} (less : a < b ↔ c < d) (greater : b < a ↔ d < c) :
    Ord.compare a b = Ord.compare c d := by
  simp only [Nat.compare_eq_ite_lt, less, greater]

/-- Doubles compare as their places. -/
theorem compare_place (a b : Double) : Ord.compare (place a) (place b) = a.compare b := by
  have sizeA := a.bits.toNat_lt
  have sizeB := b.bits.toNat_lt
  have splitA : a.negative = decide (0x8000000000000000 ≤ a.bits.toNat) := rfl
  have splitB : b.negative = decide (0x8000000000000000 ≤ b.bits.toNat) := rfl
  unfold Double.compare place Double.magnitude
  cases signA : a.negative <;> cases signB : b.negative <;>
    simp only [signA, signB, Bool.false_eq_true, if_false, if_true] at splitA splitB ⊢
  · have lowA := of_decide_eq_false splitA.symm
    have lowB := of_decide_eq_false splitB.symm
    apply compare_congr <;> omega
  · have lowA := of_decide_eq_false splitA.symm
    have highB := of_decide_eq_true splitB.symm
    rw [Nat.compare_eq_gt]
    omega
  · have highA := of_decide_eq_true splitA.symm
    have lowB := of_decide_eq_false splitB.symm
    rw [Nat.compare_eq_lt]
    omega
  · have highA := of_decide_eq_true splitA.symm
    have highB := of_decide_eq_true splitB.symm
    apply compare_congr <;> omega

theorem stands_ofDouble (a b : Double) : Stands (a.compare b) (ofDouble a) (ofDouble b) := by
  rw [← compare_place]
  exact stands_digits (place_lt a) (place_lt b)

/-- The escaped form parts a buffer even from its extensions. -/
theorem before_escape {a b : Bytes} (less : a < b) : Before (escape a) (escape b) := by
  induction a generalizing b with
  | nil =>
      cases b with
      | nil => exact absurd less (List.lt_irrefl [])
      | cons y b =>
          by_cases zero : y = 0
          · rw [escape, escape, if_pos zero]
            exact .inr ⟨rfl, .inl (by decide)⟩
          · rw [escape, escape, if_neg zero]
            left
            have positive : y.toNat ≠ 0 := fun none => zero (UInt8.toNat.inj none)
            rw [UInt8.lt_iff_toNat_lt]
            change 0 < y.toNat
            omega
  | cons x a ih =>
      cases b with
      | nil => exact absurd less (List.not_lt_nil _)
      | cons y b =>
          rw [List.cons_lt_cons_iff] at less
          obtain lower | ⟨rfl, less⟩ := less
          · have above : y ≠ 0 := by
              rintro rfl
              exact absurd lower (UInt8.not_lt_zero)
            by_cases zero : x = 0
            · rw [escape, escape, if_pos zero, if_neg above]
              exact .inl (zero ▸ lower)
            · rw [escape, escape, if_neg zero, if_neg above]
              exact .inl lower
          · have before := ih less
            by_cases zero : x = 0
            · rw [escape, escape, if_pos zero, if_pos zero]
              exact .inr ⟨rfl, .inr ⟨rfl, before⟩⟩
            · rw [escape, escape, if_neg zero, if_neg zero]
              exact .inr ⟨rfl, before⟩

/-- The forms of two characters part, the smaller one first. -/
theorem before_utf8EncodeChar {c d : Char} (less : c < d) :
    Before (String.utf8EncodeChar c) (String.utf8EncodeChar d) := by
  have lower : c.val.toNat < d.val.toNat := less
  have bound : d.val.toNat < 0x110000 := by
    obtain low | ⟨-, high⟩ := d.valid
    · exact Nat.lt_trans low (by decide)
    · exact high
  unfold String.utf8EncodeChar
  generalize c.val.toNat = m at lower
  generalize d.val.toNat = n at lower bound
  -- Further digits divide what the digit before them left.
  have midM : m / 4096 = m / 64 / 64 := (Nat.div_div_eq_div_mul m 64 64).symm
  have midN : n / 4096 = n / 64 / 64 := (Nat.div_div_eq_div_mul n 64 64).symm
  have topM : m / 262144 = m / 64 / 64 / 64 := by
    rw [Nat.div_div_eq_div_mul, Nat.div_div_eq_div_mul]
  have topN : n / 262144 = n / 64 / 64 / 64 := by
    rw [Nat.div_div_eq_div_mul, Nat.div_div_eq_div_mul]
  simp only [midM, midN, topM, topN]
  split_ifs
  all_goals
    simp (disch := omega) only [before_cons_iff, not_before_nil, UInt8.lt_iff_toNat_lt,
      ← UInt8.toNat_inj, UInt8.toNat_ofNat', Nat.mod_eq_of_lt]
    omega

/-- A text is below another as its bytes are. -/
theorem lt_ofText {s t : String} (less : s < t) : Bytes.ofText s < Bytes.ofText t := by
  have form : ∀ s : String, Bytes.ofText s = s.toList.flatMap String.utf8EncodeChar := by
    intro s
    have bytes : s.toByteArray = (s.toList.flatMap String.utf8EncodeChar).toByteArray :=
      String.utf8Encode_toList.symm
    show s.toByteArray.data.toList = _
    rw [bytes, List.data_toByteArray]
  have less : s.toList < t.toList := less
  rw [form, form]
  generalize s.toList = a at less
  generalize t.toList = b at less
  induction a generalizing b with
  | nil =>
      cases b with
      | nil => exact absurd less (List.lt_irrefl [])
      | cons d b =>
          have filled : String.utf8EncodeChar d ≠ [] := String.utf8EncodeChar_ne_nil
          obtain ⟨y, rest, shape⟩ := List.exists_cons_of_ne_nil filled
          rw [List.flatMap_cons, shape]
          exact List.nil_lt_cons _ _
  | cons c a ih =>
      cases b with
      | nil => exact absurd less (List.not_lt_nil _)
      | cons d b =>
          rw [List.flatMap_cons, List.flatMap_cons]
          rw [List.cons_lt_cons_iff] at less
          obtain lower | ⟨rfl, less⟩ := less
          · exact ((before_utf8EncodeChar lower).append _ _).lt
          · exact List.append_left_lt (ih b less)

theorem stands_ofText (s t : String) : Stands (Ord.compare s t) (ofText s) (ofText t) := by
  apply stands_of_lt ofText
  · by_cases less : s < t
    · exact .inl less
    · by_cases greater : t < s
      · exact .inr (.inr greater)
      · exact .inr (.inl (String.le_antisymm greater less))
  · intro less
    exact before_escape (lt_ofText less)
  · intro greater
    exact before_escape (lt_ofText greater)

end Ordered

namespace StoredValue

theorem eq_ofDouble_of_write {d : Double} {b : Bytes}
    (written : write (.double d) (some .double) = .ok b) : b = Ordered.ofDouble d := by
  simp only [write] at written
  split at written
  · cases written
  · exact (Except.ok.inj written).symm

/-- Values of one type are written as they compare. -/
theorem stands_of_write {v w : Value} {expected : Option DataType} {a b : Bytes}
    (writtenV : write v expected = .ok a) (writtenW : write w expected = .ok b) :
    Stands (Value.compare v w) a b := by
  have typeV := dataType_of_write writtenV
  have typeW := dataType_of_write writtenW
  subst typeV
  cases v <;> cases w <;> simp only [Value.dataType, reduceCtorEq, Option.some.injEq] at typeW
  case bool v w =>
    obtain rfl := Except.ok.inj writtenV
    obtain rfl := Except.ok.inj writtenW
    cases v <;> cases w
    · exact rfl
    · exact .inl (by decide)
    · exact .inl (by decide)
    · exact rfl
  case long v w =>
    obtain rfl := Except.ok.inj writtenV
    obtain rfl := Except.ok.inj writtenW
    exact Ordered.stands_ofLong v w
  case double v w =>
    rw [eq_ofDouble_of_write writtenV, eq_ofDouble_of_write writtenW]
    exact Ordered.stands_ofDouble v w
  case text v w =>
    obtain rfl := Except.ok.inj writtenV
    obtain rfl := Except.ok.inj writtenW
    exact Ordered.stands_ofText v w
  case id v w =>
    obtain rfl := Except.ok.inj writtenV
    obtain rfl := Except.ok.inj writtenW
    exact Ordered.stands_ofWord v w

/-- A value of the expected type is written, unless it has no place in the order. -/
theorem write_of_dataType {v : Value} {expected : Option DataType}
    (typed : v.dataType = expected) (number : ∀ d, v = .double d → d.isNaN = false) :
    ∃ b, write v expected = .ok b := by
  subst typed
  cases v with
  | bool v => exact ⟨_, rfl⟩
  | long v => exact ⟨_, rfl⟩
  | double v => exact ⟨_, if_neg (by rw [number v rfl]; exact Bool.false_ne_true)⟩
  | text v => exact ⟨_, rfl⟩
  | id v => exact ⟨_, rfl⟩

end StoredValue

namespace Column

@[simp] theorem complement_append (a b : Bytes) :
    complement (a ++ b) = complement a ++ complement b := List.map_append

theorem oriented_append (order : SortOrder) (a b : Bytes) :
    oriented order (a ++ b) = oriented order a ++ oriented order b := by
  cases order with
  | asc => rfl
  | desc => exact complement_append a b

/-- Complements stand the other way round. -/
theorem before_complement {a b : Bytes} (before : Before a b) :
    Before (complement b) (complement a) := by
  induction a generalizing b with
  | nil => exact absurd before (not_nil_before b)
  | cons x a ih =>
      cases b with
      | nil => exact absurd before (not_before_nil _)
      | cons y b =>
          obtain less | ⟨rfl, before⟩ := before
          · left
            have boundX := x.toNat_lt
            have boundY := y.toNat_lt
            rw [UInt8.lt_iff_toNat_lt] at less
            rw [UInt8.lt_iff_toNat_lt, UInt8.toNat_not, UInt8.toNat_not]
            change 256 - 1 - y.toNat < 256 - 1 - x.toNat
            omega
          · exact .inr ⟨rfl, ih before⟩

/-- How two values stand in the columns of a type of this order. -/
def turned : SortOrder → Ordering → Ordering
  | .asc, o => o
  | .desc, o => o.swap

theorem turned_inj (order : SortOrder) (o o' : Ordering) :
    turned order o = turned order o' ↔ o = o' := by
  cases order with
  | asc => rfl
  | desc => cases o <;> cases o' <;> decide

theorem turned_eq_eq_iff (order : SortOrder) (o : Ordering) : turned order o = .eq ↔ o = .eq := by
  cases order <;> cases o <;> decide

theorem stands_oriented {o : Ordering} {a b : Bytes} (stands : Stands o a b)
    (order : SortOrder) : Stands (turned order o) (oriented order a) (oriented order b) := by
  cases order with
  | asc => exact stands
  | desc =>
      cases o with
      | lt => exact before_complement stands
      | eq => exact congrArg complement stands
      | gt => exact before_complement stands

end Column

end PropertyGraph
