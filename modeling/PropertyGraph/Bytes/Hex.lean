/-
# Bytes.Hex -- buffers read from their digits

`Bytes.ofHex?` reads what `Bytes.hex` writes (`ofHex?_hex`): two digits of base
sixteen a byte, in lower case.
-/
import PropertyGraph.Bytes.Basic

namespace PropertyGraph.Bytes

set_option autoImplicit false

/-- The value of a digit. -/
def hexValue? (c : Char) : Option Nat :=
  if '0' ≤ c ∧ c ≤ '9' then some (c.toNat - 48)
  else if 'a' ≤ c ∧ c ≤ 'f' then some (c.toNat - 87)
  else none

theorem hexValue?_hexDigit {n : Nat} (small : n < 16) : hexValue? (hexDigit n) = some n := by
  revert n
  decide

/-- The bytes whose digits these are. -/
def ofHexDigits? : List Char → Option Bytes
  | [] => some []
  | [_] => none
  | high :: low :: rest => do
      return UInt8.ofNat ((← hexValue? high) * 16 + (← hexValue? low)) :: (← ofHexDigits? rest)

/-- The buffer of a text of digits. -/
def ofHex? (s : String) : Option Bytes := ofHexDigits? s.toList

theorem ofHexDigits?_hexDigits (b : Bytes) : ofHexDigits? (hexDigits b) = some b := by
  induction b with
  | nil => rfl
  | cons x rest ih =>
      have bound := x.toNat_lt
      have value : UInt8.ofNat (x.toNat / 16 * 16 + x.toNat % 16) = x := by
        rw [show x.toNat / 16 * 16 + x.toNat % 16 = x.toNat by omega]
        exact UInt8.ofNat_toNat
      simp only [hexDigits, ofHexDigits?, ih, hexValue?_hexDigit (n := x.toNat / 16) (by omega),
        hexValue?_hexDigit (n := x.toNat % 16) (by omega), Option.bind_eq_bind,
        Option.bind_some, value, pure]

theorem ofHex?_hex (b : Bytes) : ofHex? (hex b) = some b := by
  simp [ofHex?, hex, ofHexDigits?_hexDigits]

end PropertyGraph.Bytes
