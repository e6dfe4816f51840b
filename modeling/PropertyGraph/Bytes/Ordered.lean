/-
# Bytes.Ordered -- values as bytes that compare like the values

Keys of a store compare as unsigned bytes, so a value that takes part in a key
is written in a form whose byte order is the order of the values.

* Words are big-endian; integers are shifted so that the least one is all zeros;
  doubles are sent to their place in the total order.
* Text is its UTF-8 form with every zero byte escaped as `00 FF` and `00 00` at
  the end, so a text sorts before its extensions and its end can be found.
* Each reader takes a value from the front and ignores what follows;
  `Ordered.unescape_append` says that a written text is read back whole.
-/
import PropertyGraph.Bytes.Utf8
import PropertyGraph.Double.Basic

namespace PropertyGraph

set_option autoImplicit false

/-- The 64-bit signed integers. -/
abbrev Long := Int64

namespace Ordered

/-- What a digit of base 256 counts for with so many digits behind it. -/
def weight : Nat → Nat
  | 0 => 1
  | n + 1 => weight n * 256

/-- The `n` low digits of `v` in base 256, most significant first. -/
def digits : Nat → Nat → Bytes
  | 0, _ => []
  | n + 1, v => UInt8.ofNat (v / weight n) :: digits n (v % weight n)

/-- The number that a list of base 256 digits stands for. -/
def number (b : Bytes) : Nat := b.foldl (fun acc digit => acc * 256 + digit.toNat) 0

theorem length_digits (n v : Nat) : (digits n v).length = n := by
  induction n generalizing v with
  | zero => rfl
  | succ n ih => simp [digits, ih]

theorem foldl_digits (n v acc : Nat) :
    (digits n v).foldl (fun acc digit => acc * 256 + digit.toNat) acc =
      acc * weight n + v % weight n := by
  induction n generalizing v acc with
  | zero => simp [digits, weight, Nat.mod_one]
  | succ n ih =>
      have low : v % weight (n + 1) = v / weight n % 256 * weight n + v % weight n := by
        rw [weight, Nat.mod_mul, Nat.mul_comm, Nat.add_comm]
      have byte : (UInt8.ofNat (v / weight n)).toNat = v / weight n % 256 := UInt8.toNat_ofNat'
      rw [digits, List.foldl_cons, ih, byte, Nat.mod_mod, low, weight, Nat.add_mul,
        Nat.mul_assoc acc, Nat.mul_comm 256, Nat.add_assoc]

/-- The digits of a number that fits stand for the number. -/
theorem number_digits {n v : Nat} (fits : v < weight n) : number (digits n v) = v := by
  simp [number, foldl_digits, Nat.mod_eq_of_lt fits]

/-- The place of a double in the total order, from zero. -/
def place (d : Double) : Nat :=
  if d.negative then 0xFFFFFFFFFFFFFFFF - d.bits.toNat else d.bits.toNat + 0x8000000000000000

/-- The double at a place of the total order. -/
def ofPlace (n : Nat) : Double :=
  if 0x8000000000000000 ≤ n then ⟨UInt64.ofNat (n - 0x8000000000000000)⟩ else ⟨UInt64.ofNat (0xFFFFFFFFFFFFFFFF - n)⟩

theorem ofPlace_place (d : Double) : ofPlace (place d) = d := by
  have size := d.bits.toNat_lt
  by_cases high : 0x8000000000000000 ≤ d.bits.toNat
  · have low : ¬ 0x8000000000000000 ≤ 0xFFFFFFFFFFFFFFFF - d.bits.toNat := by omega
    have back : 0xFFFFFFFFFFFFFFFF - (0xFFFFFFFFFFFFFFFF - d.bits.toNat) = d.bits.toNat := by omega
    simp only [place, Double.negative, high, decide_true, if_true, ofPlace, low, if_false, back]
    cases d; simp
  · have up : 0x8000000000000000 ≤ d.bits.toNat + 0x8000000000000000 := by omega
    have back : d.bits.toNat + 0x8000000000000000 - 0x8000000000000000 = d.bits.toNat := by omega
    simp only [place, Double.negative, high, decide_false, Bool.false_eq_true, if_false, ofPlace,
      up, if_true, back]
    cases d; simp

def ofWord (v : UInt64) : Bytes := digits 8 v.toNat

def word? (b : Bytes) : Option UInt64 :=
  if 8 ≤ b.length then some (UInt64.ofNat (number (b.take 8))) else none

def ofLong (v : Long) : Bytes := digits 8 (v.toInt + 0x8000000000000000).toNat

def long? (b : Bytes) : Option Long :=
  if 8 ≤ b.length then some (Int64.ofInt ((number (b.take 8) : Int) - 0x8000000000000000)) else none

def ofDouble (v : Double) : Bytes := digits 8 (place v)

def double? (b : Bytes) : Option Double :=
  if 8 ≤ b.length then some (ofPlace (number (b.take 8))) else none

/-- Escapes zero bytes and marks the end. -/
def escape : Bytes → Bytes
  | [] => [0, 0]
  | b :: rest => if b = 0 then 0 :: 0xFF :: escape rest else b :: escape rest

/-- The written form of a content without the end mark. -/
def escaped (content : Bytes) : Bytes :=
  content.flatMap fun b => if b = 0 then [0, 0xFF] else [b]

theorem escape_eq_append (content : Bytes) : escape content = escaped content ++ [0, 0] := by
  induction content with
  | nil => rfl
  | cons b rest ih =>
      by_cases zero : b = 0
      · simp [escape, escaped, zero, ih]
      · simp [escape, escaped, zero, ih]

/-- The content before the end mark and what follows the mark.  Absent when the
mark is missing or a zero byte stands before anything but `00` or `FF`. -/
def unescape : Bytes → Option (Bytes × Bytes)
  | [] => none
  | [_] => none
  | b :: next :: rest =>
      if b ≠ 0 then (unescape (next :: rest)).map fun (content, tail) => (b :: content, tail)
      else if next = 0 then some ([], rest)
      else if next = 0xFF then (unescape rest).map fun (content, tail) => (0 :: content, tail)
      else none

theorem unescape_cons_of_ne {b : UInt8} (other : b ≠ 0) (rest : Bytes) :
    unescape (b :: rest) = (unescape rest).map fun found => (b :: found.1, found.2) := by
  cases rest with
  | nil => rfl
  | cons next rest => rw [unescape, if_pos other]

theorem unescape_zero_mark (rest : Bytes) :
    unescape (0 :: 0xFF :: rest) = (unescape rest).map fun found => (0 :: found.1, found.2) := by
  simp [unescape]

/-- What is written before counts as content, and reading goes on behind it. -/
theorem unescape_escaped_append (content tail : Bytes) :
    unescape (escaped content ++ tail) =
      (unescape tail).map fun found => (content ++ found.1, found.2) := by
  induction content with
  | nil => simp [escaped]
  | cons b rest ih =>
      by_cases zero : b = 0
      · have head : escaped (b :: rest) = 0 :: 0xFF :: escaped rest := by simp [escaped, zero]
        rw [head, List.cons_append, List.cons_append, unescape_zero_mark, ih, Option.map_map, zero]
        rfl
      · have head : escaped (b :: rest) = b :: escaped rest := by simp [escaped, zero]
        rw [head, List.cons_append, unescape_cons_of_ne zero, ih, Option.map_map]
        rfl

/-- Whatever follows a written text is left over when it is read. -/
theorem unescape_append (content rest : Bytes) :
    unescape (escape content ++ rest) = some (content, rest) := by
  rw [escape_eq_append, List.append_assoc, unescape_escaped_append]
  simp [unescape]

def ofText (s : String) : Bytes := escape (Bytes.ofText s)

/-- The text at the front and the number of bytes it takes. -/
def text? (b : Bytes) : Option (String × Nat) := do
  let (content, rest) ← unescape b
  let s ← Bytes.text? content
  return (s, b.length - rest.length)

theorem text?_append (s : String) (rest : Bytes) :
    text? (ofText s ++ rest) = some (s, (ofText s).length) := by
  simp [text?, ofText, unescape_append, Bytes.text?_ofText]

end Ordered

end PropertyGraph
