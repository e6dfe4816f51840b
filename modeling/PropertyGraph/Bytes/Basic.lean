/-
# Bytes -- buffers in unsigned byte order

A buffer is a finite list of bytes; `compare` and `<` order buffers as unsigned
bytes from the left, so a buffer comes before each of its extensions.

* `Bytes.successor` is the least buffer above everything that starts with the
  given one; it is absent exactly when every byte is `0xFF`
  (`Bytes.successor_eq_none_iff`).
* `Bytes.hex` writes a buffer with two digits a byte (`Bytes.length_hexDigits`).
-/
import PropertyGraph.Fault

namespace PropertyGraph

set_option autoImplicit false

/-- An immutable byte buffer. -/
abbrev Bytes := List UInt8

namespace Bytes

/-- A digit of base sixteen, in lower case. -/
def hexDigit (n : Nat) : Char :=
  if n < 10 then Char.ofNat (48 + n) else Char.ofNat (87 + n)

def hexDigits : Bytes → List Char
  | [] => []
  | b :: rest => hexDigit (b.toNat / 16) :: hexDigit (b.toNat % 16) :: hexDigits rest

/-- Two digits a byte, most significant first. -/
def hex (b : Bytes) : String := String.ofList (hexDigits b)

/-- The form of a buffer in messages. -/
def shown (b : Bytes) : String := "0x" ++ hex b

theorem length_hexDigits (b : Bytes) : (hexDigits b).length = 2 * b.length := by
  induction b with
  | nil => rfl
  | cons b rest ih => simp only [hexDigits, List.length_cons, ih]; omega

theorem compare_eq_lt_iff {a b : Bytes} : compare a b = .lt ↔ a < b := by
  induction a generalizing b with
  | nil =>
      cases b with
      | nil => simp [Std.ReflOrd.compare_self]
      | cons y b => simp
  | cons x a ih =>
      cases b with
      | nil => simp
      | cons y b =>
          rw [List.compare_eq_compareLex, List.compareLex_cons_cons, Ordering.then_eq_lt,
            List.cons_lt_cons_iff, Std.compare_eq_lt, Std.LawfulEqOrd.compare_eq_iff_eq,
            ← List.compare_eq_compareLex, ih]

theorem lt_append_zero (b : Bytes) : b < b ++ [0] := by
  induction b with
  | nil => exact List.nil_lt_cons 0 []
  | cons x rest ih => exact List.cons_lt_cons_self.mpr ih

/-- The least buffer above every buffer that starts with this one.  Trailing
`0xFF` bytes have no successor of their own and are dropped. -/
def successor : Bytes → Option Bytes
  | [] => none
  | b :: rest =>
      match successor rest with
      | some next => some (b :: next)
      | none => if b = 0xFF then none else some [b + 1]

theorem successor_eq_none_iff (b : Bytes) : successor b = none ↔ ∀ x ∈ b, x = 0xFF := by
  induction b with
  | nil => simp [successor]
  | cons b rest ih =>
      simp only [successor, List.forall_mem_cons]
      cases h : successor rest with
      | some next =>
          have : ¬ ∀ x ∈ rest, x = 0xFF := fun all => by simp [ih.2 all] at h
          simp [this]
      | none =>
          have all := ih.1 h
          by_cases hb : b = 0xFF
          · simpa [hb] using all
          · simp [hb]

/-- The bytes from position `first` up to, not including, `last`. -/
def slice (b : Bytes) (first last : Nat) : Outcome Bytes :=
  if first ≤ last ∧ last ≤ b.length then .ok ((b.drop first).take (last - first))
  else .error (.misuse .outsideBuffer)

/-- Starts with all of `head`. -/
def startsWith (b head : Bytes) : Bool := head.isPrefixOf b

@[simp] theorem startsWith_iff (b head : Bytes) : startsWith b head = true ↔ head <+: b :=
  List.isPrefixOf_iff_prefix

/-- The least buffer of a length. -/
def least (length : Nat) : Bytes := List.replicate length 0

/-- The greatest buffer of a length. -/
def greatest (length : Nat) : Bytes := List.replicate length 0xFF

/-- What a buffer weighs in a cache, its bookkeeping included. -/
def byteSize (b : Bytes) : Nat := 32 + b.length

end Bytes

end PropertyGraph
