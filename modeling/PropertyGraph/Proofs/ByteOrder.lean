/-
# Proofs.ByteOrder -- where buffers part

Two buffers part at the first position where they differ, if both have it; the one
with the smaller byte there comes before the other, whatever follows in either
(`Bytes.Before`).  A buffer is therefore not below another exactly when it comes
after it or starts with it (`le_iff`), and the successor of a buffer stands right
behind everything that starts with the buffer (`successor_le_iff`).

A `Cut` is a place in front of everything that starts with some bytes or behind it,
and a `Span` is what lies between two cuts.
-/
import PropertyGraph.Bytes.Basic

namespace PropertyGraph.Bytes

set_option autoImplicit false

/-- The buffers part, and the first has the smaller byte where they do. -/
def Before : Bytes → Bytes → Prop
  | x :: s, y :: t => x < y ∨ x = y ∧ Before s t
  | _, _ => False

@[simp] theorem not_nil_before (b : Bytes) : ¬ Before [] b := by
  cases b <;> exact id

@[simp] theorem not_before_nil (a : Bytes) : ¬ Before a [] := by
  cases a <;> exact id

@[simp] theorem before_cons_iff (x y : UInt8) (s t : Bytes) :
    Before (x :: s) (y :: t) ↔ x < y ∨ x = y ∧ Before s t := Iff.rfl

/-- What buffers have in common in front does not matter. -/
@[simp] theorem before_append_iff (p a b : Bytes) : Before (p ++ a) (p ++ b) ↔ Before a b := by
  induction p with
  | nil => rfl
  | cons x p ih =>
      rw [List.cons_append, List.cons_append, before_cons_iff, ih]
      constructor
      · rintro (less | ⟨-, before⟩)
        · exact absurd less (UInt8.lt_irrefl x)
        · exact before
      · intro before
        exact .inr ⟨rfl, before⟩

/-- Buffers that have parted stay so. -/
theorem Before.append {a b : Bytes} (before : Before a b) (s t : Bytes) :
    Before (a ++ s) (b ++ t) := by
  induction a generalizing b with
  | nil => exact absurd before (not_nil_before b)
  | cons x a ih =>
      cases b with
      | nil => exact absurd before (not_before_nil _)
      | cons y b =>
          obtain less | ⟨same, before⟩ := before
          · exact .inl less
          · exact .inr ⟨same, ih before⟩

theorem not_before_self (a : Bytes) : ¬ Before a a := by
  intro before
  have empty := (before_append_iff a [] []).mp (by rwa [List.append_nil])
  exact not_nil_before [] empty

theorem Before.trans {a b c : Bytes} (first : Before a b) (second : Before b c) :
    Before a c := by
  induction a generalizing b c with
  | nil => exact absurd first (not_nil_before b)
  | cons x a ih =>
      cases b with
      | nil => exact absurd first (not_before_nil _)
      | cons y b =>
          cases c with
          | nil => exact absurd second (not_before_nil _)
          | cons z c =>
              obtain less | ⟨rfl, first⟩ := first
              · obtain less' | ⟨rfl, -⟩ := second
                · exact .inl (UInt8.lt_trans less less')
                · exact .inl less
              · obtain less | ⟨rfl, second⟩ := second
                · exact .inl less
                · exact .inr ⟨rfl, ih first second⟩

theorem Before.asymm {a b : Bytes} (before : Before a b) : ¬ Before b a := by
  intro back
  exact not_before_self a (before.trans back)

/-- A buffer has not parted from what starts with it. -/
theorem not_before_append (p s : Bytes) : ¬ Before p (p ++ s) := by
  intro before
  have empty := (before_append_iff p [] s).mp (by rwa [List.append_nil])
  exact not_nil_before s empty

theorem Before.not_prefix {a b : Bytes} (before : Before a b) : ¬ a <+: b := by
  rintro ⟨s, rfl⟩
  exact not_before_append a s before

theorem Before.not_prefix_of {a b : Bytes} (before : Before a b) : ¬ b <+: a := by
  rintro ⟨s, rfl⟩
  have empty := (before_append_iff b s []).mp (by rwa [List.append_nil])
  exact not_before_nil s empty

/-- A buffer is reached by those that come after it and those that start with it. -/
theorem le_iff (a b : Bytes) : a ≤ b ↔ Before a b ∨ a <+: b := by
  induction a generalizing b with
  | nil => simp
  | cons x a ih =>
      cases b with
      | nil => simp
      | cons y b =>
          rw [List.cons_le_cons_iff, ih, before_cons_iff, List.cons_prefix_cons]
          constructor
          · rintro (less | ⟨same, before | starts⟩)
            · exact .inl (.inl less)
            · exact .inl (.inr ⟨same, before⟩)
            · exact .inr ⟨same, starts⟩
          · rintro ((less | ⟨same, before⟩) | ⟨same, starts⟩)
            · exact .inl less
            · exact .inr ⟨same, .inl before⟩
            · exact .inr ⟨same, .inr starts⟩

/-- Nothing comes after a run of the greatest byte. -/
theorem not_before_of_successor_eq_none {p : Bytes} (full : successor p = none) (b : Bytes) :
    ¬ Before p b := by
  rw [successor_eq_none_iff] at full
  induction p generalizing b with
  | nil => exact not_nil_before b
  | cons x p ih =>
      cases b with
      | nil => exact not_before_nil _
      | cons y b =>
          have top : x = 0xFF := full x List.mem_cons_self
          rintro (less | ⟨-, before⟩)
          · have bound := y.toNat_lt
            rw [top, UInt8.lt_iff_toNat_lt] at less
            change 255 < y.toNat at less
            omega
          · exact ih (fun x member => full x (List.mem_cons_of_mem _ member)) b before

/-- The successor is reached by exactly those that come after the buffer. -/
theorem successor_le_iff {p n : Bytes} (next : successor p = some n) (b : Bytes) :
    n ≤ b ↔ Before p b := by
  induction p generalizing n b with
  | nil => simp [successor] at next
  | cons x p ih =>
      unfold successor at next
      cases within : successor p with
      | some n' =>
          simp only [within, Option.some.injEq] at next
          subst next
          cases b with
          | nil => simp
          | cons y b => rw [List.cons_le_cons_iff, ih within, before_cons_iff]
      | none =>
          simp only [within, Option.ite_none_left_eq_some, Option.some.injEq] at next
          obtain ⟨low, rfl⟩ := next
          cases b with
          | nil => simp
          | cons y b =>
              have more : (x + 1).toNat = x.toNat + 1 := by
                have bound := x.toNat_lt
                have small : x.toNat ≠ 255 := fun top => low (UInt8.toNat.inj top)
                rw [UInt8.toNat_add]
                change (x.toNat + 1) % 256 = _
                omega
              have never := not_before_of_successor_eq_none within b
              rw [List.cons_le_cons_iff, before_cons_iff, UInt8.lt_iff_toNat_lt,
                UInt8.lt_iff_toNat_lt, ← UInt8.toNat_inj, more]
              constructor
              · rintro (less | ⟨same, -⟩)
                · exact .inl (by omega)
                · exact .inl (by omega)
              · rintro (less | ⟨-, before⟩)
                · by_cases same : x.toNat + 1 = y.toNat
                  · exact .inr ⟨same, List.nil_le b⟩
                  · exact .inl (by omega)
                · exact absurd before never

/-- A place in the order of buffers, in front of everything that starts with some
bytes or behind it. -/
structure Cut where
  bytes : Bytes
  behind : Bool

namespace Cut

/-- The buffer lies on the far side of the cut. -/
def Past (c : Cut) (b : Bytes) : Prop := Before c.bytes b ∨ c.behind = false ∧ c.bytes <+: b

/-- The same place among what starts with some bytes. -/
def under (p : Bytes) (c : Cut) : Cut := ⟨p ++ c.bytes, c.behind⟩

theorem under_past_iff (p : Bytes) (c : Cut) (b : Bytes) :
    (c.under p).Past (p ++ b) ↔ c.Past b := by
  unfold Past under
  rw [before_append_iff, List.prefix_append_right_inj]

/-- What lies past a cut is not below its bytes. -/
theorem Past.le {c : Cut} {b : Bytes} (past : c.Past b) : c.bytes ≤ b := by
  rw [le_iff]
  obtain before | ⟨-, starts⟩ := past
  · exact .inl before
  · exact .inr starts

theorem past_start (b : Bytes) : Past ⟨[], false⟩ b := .inr ⟨rfl, List.nil_prefix⟩

theorem not_past_end (b : Bytes) : ¬ Past ⟨[], true⟩ b := by
  rintro (before | ⟨behind, -⟩)
  · exact not_nil_before b before
  · cases behind

end Cut

/-- Whatever parts from bytes parts from all that starts with them. -/
theorem Before.extend {a b : Bytes} (before : Before a b) (s : Bytes) : Before (a ++ s) b := by
  have extended := before.append s []
  rwa [List.append_nil] at extended

theorem Before.of_le {a b c : Bytes} (before : Before a b) (le : b ≤ c) : Before a c := by
  obtain later | ⟨s, rfl⟩ := (le_iff b c).mp le
  · exact before.trans later
  · have extended := before.append [] s
    rwa [List.append_nil] at extended

/-- The buffers between two places. -/
structure Span where
  first : Cut
  last : Cut

namespace Span

def Holds (s : Span) (b : Bytes) : Prop := s.first.Past b ∧ ¬ s.last.Past b

/-- The places are not the wrong way round. -/
def Ordered (s : Span) : Prop := ∀ b, s.last.Past b → s.first.Past b

/-- The same stretch among what starts with some bytes. -/
def under (p : Bytes) (s : Span) : Span := ⟨s.first.under p, s.last.under p⟩

/-- Every buffer. -/
def everything : Span := ⟨⟨[], false⟩, ⟨[], true⟩⟩

theorem everything_holds (b : Bytes) : everything.Holds b :=
  ⟨Cut.past_start b, Cut.not_past_end b⟩

theorem under_under (p q : Bytes) (s : Span) : (s.under q).under p = s.under (p ++ q) := by
  simp only [under, Cut.under, List.append_assoc]

theorem under_holds_iff (p : Bytes) (s : Span) (b : Bytes) :
    (s.under p).Holds (p ++ b) ↔ s.Holds b := by
  show (s.first.under p).Past (p ++ b) ∧ ¬ (s.last.under p).Past (p ++ b) ↔ _
  rw [Cut.under_past_iff, Cut.under_past_iff]
  rfl

/-- What lies between places among what starts with some bytes starts with them. -/
theorem prefix_of_holds {p : Bytes} {s : Span} {b : Bytes} (holds : (s.under p).Holds b) :
    p <+: b := by
  obtain ⟨entered, left⟩ := holds
  have shorter : p ≤ p ++ s.first.bytes := (le_iff _ _).mpr (.inr (List.prefix_append p _))
  obtain before | starts := (le_iff p b).mp (List.le_trans shorter entered.le)
  · exact absurd (.inl (before.extend s.last.bytes)) left
  · exact starts

theorem everything_under_holds_iff (p b : Bytes) :
    (everything.under p).Holds b ↔ p <+: b := by
  constructor
  · exact prefix_of_holds
  · rintro ⟨rest, rfl⟩
    rw [under_holds_iff]
    exact everything_holds rest

/-- Places stay in order among what starts with some bytes. -/
theorem Ordered.under {s : Span} (ordered : s.Ordered) (p : Bytes) : (s.under p).Ordered := by
  intro b past
  have shorter : p ≤ p ++ s.last.bytes := (le_iff _ _).mpr (.inr (List.prefix_append p _))
  obtain before | ⟨rest, rfl⟩ := (le_iff p b).mp (List.le_trans shorter past.le)
  · exact .inl (before.extend s.first.bytes)
  · apply (Cut.under_past_iff p s.first rest).mpr
    exact ordered rest ((Cut.under_past_iff p s.last rest).mp past)

theorem ordered_everything : everything.Ordered := by
  intro b past
  exact absurd past (Cut.not_past_end b)

theorem ordered_of_before {s : Span} (before : Before s.first.bytes s.last.bytes) :
    s.Ordered := by
  intro b past
  exact .inl (before.of_le past.le)

/-- The place in front of something is not after any place at the same bytes. -/
theorem ordered_of_eq {s : Span} (same : s.first.bytes = s.last.bytes)
    (front : s.first.behind = false) : s.Ordered := by
  intro b past
  obtain before | starts := (le_iff _ b).mp past.le
  · exact .inl (same ▸ before)
  · exact .inr ⟨front, same ▸ starts⟩

end Span

/-- Two buffers stand to each other as two values compare. -/
def Stands : Ordering → Bytes → Bytes → Prop
  | .lt, a, b => Before a b
  | .eq, a, b => a = b
  | .gt, a, b => Before b a

/-- Which side of a cut something lies on is told by the bytes it starts with. -/
theorem Stands.past_iff {o : Ordering} {a b : Bytes} (stands : Stands o a b) (behind : Bool)
    (rest : Bytes) : Cut.Past ⟨b, behind⟩ (a ++ rest) ↔ o = .gt ∨ o = .eq ∧ behind = false := by
  cases o with
  | lt =>
      have before : Before (a ++ rest) b := Before.extend stands rest
      constructor
      · rintro (back | ⟨-, starts⟩)
        · exact absurd back before.asymm
        · exact absurd starts before.not_prefix_of
      · rintro (never | ⟨never, -⟩)
        · cases never
        · cases never
  | eq =>
      obtain rfl : a = b := stands
      constructor
      · rintro (before | ⟨front, -⟩)
        · exact absurd before (not_before_append a rest)
        · exact .inr ⟨rfl, front⟩
      · rintro (never | ⟨-, front⟩)
        · cases never
        · exact .inr ⟨front, List.prefix_append a rest⟩
  | gt =>
      have before : Before b (a ++ rest) :=
        Before.of_le stands ((le_iff _ _).mpr (.inr (List.prefix_append a rest)))
      constructor
      · intro _
        exact .inl rfl
      · intro _
        exact .inl before

/-- Of two that do not stand equal, neither starts with the other. -/
theorem Stands.prefix_append_iff {o : Ordering} {a b : Bytes} (stands : Stands o a b)
    (s t : Bytes) : a ++ s <+: b ++ t ↔ o = .eq ∧ s <+: t := by
  cases o with
  | lt =>
      have parted : Before (a ++ s) (b ++ t) := Before.append stands s t
      constructor
      · intro starts
        exact absurd starts parted.not_prefix
      · rintro ⟨never, -⟩
        cases never
  | eq =>
      obtain rfl : a = b := stands
      rw [List.prefix_append_right_inj]
      constructor
      · intro starts
        exact ⟨rfl, starts⟩
      · rintro ⟨-, starts⟩
        exact starts
  | gt =>
      have parted : Before (b ++ t) (a ++ s) := Before.append stands t s
      constructor
      · intro starts
        exact absurd starts parted.not_prefix_of
      · rintro ⟨never, -⟩
        cases never

/-- What stands behind two buffers counts where they are the same. -/
theorem Stands.append {o o' : Ordering} {a b s t : Bytes} (first : Stands o a b)
    (next : Stands o' s t) : Stands (o.then o') (a ++ s) (b ++ t) := by
  cases o with
  | lt => exact Before.append first s t
  | gt => exact Before.append first t s
  | eq =>
      obtain rfl : a = b := first
      cases o' with
      | lt => exact (before_append_iff a s t).mpr next
      | eq => exact congrArg (a ++ ·) next
      | gt => exact (before_append_iff a t s).mpr next

/-- Of two that do not stand equal, no continuations are the same. -/
theorem Stands.append_eq_append_iff {o : Ordering} {a b : Bytes} (stands : Stands o a b)
    (s t : Bytes) : a ++ s = b ++ t ↔ o = .eq ∧ s = t := by
  constructor
  · intro same
    obtain ⟨rfl, -⟩ := (stands.prefix_append_iff s t).mp (same ▸ List.prefix_refl _)
    obtain rfl : a = b := stands
    exact ⟨rfl, List.append_cancel_left same⟩
  · rintro ⟨rfl, rfl⟩
    exact congrArg (· ++ s) stands

end PropertyGraph.Bytes
