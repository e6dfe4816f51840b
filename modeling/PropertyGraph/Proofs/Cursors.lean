/-
# Proofs.Cursors -- what a cursor takes from the front

Where a buffer goes on with some bytes, taking as many answers those bytes and leaves
what follows them.  The only bound is that offsets are 64-bit words; a buffer that
`Fits` never reaches it.
-/
import PropertyGraph.Bytes.Cursor

namespace PropertyGraph

set_option autoImplicit false

namespace Cursor

section Front

variable {n : Nat} {b rest : Bytes} (room : n + b.length < offsetBound)

include room

theorem take_append {count : Nat} (size : b.length = count) :
    take ⟨n, b ++ rest⟩ count = .ok (b, ⟨n + b.length, rest⟩) := by
  rw [take_eq_ok_iff]
  exact ⟨size ▸ room, size, rfl, by rw [size]⟩

theorem takeByte_append {byte : UInt8} (single : b = [byte]) :
    takeByte ⟨n, b ++ rest⟩ = .ok (byte, ⟨n + b.length, rest⟩) := by
  rw [takeByte, Outcome.bind_eq_ok_iff]
  refine ⟨_, take_append room (by rw [single]; rfl), ?_⟩
  rw [single]
  rfl

theorem takeWord_append {v : UInt64} (word : b = Ordered.ofWord v) :
    takeWord ⟨n, b ++ rest⟩ = .ok (v, ⟨n + b.length, rest⟩) := by
  have small : v.toNat < Ordered.weight 8 := v.toNat_lt
  have size : b.length = 8 := by rw [word, Ordered.ofWord, Ordered.length_digits]
  have read : UInt64.ofNat (Ordered.number b) = v := by
    rw [word, Ordered.ofWord, Ordered.number_digits small, UInt64.ofNat_toNat]
  rw [takeWord, Outcome.bind_eq_ok_iff]
  exact ⟨_, take_append room size, by simp only [read]; rfl⟩

end Front

/-- The end of the buffer has an offset. -/
def Fits (c : Cursor) : Prop := c.offset + c.rest.length < offsetBound

theorem fits_start {b : Bytes} (short : b.length < offsetBound) : (start b).Fits := by
  rwa [Fits, start, Nat.zero_add]

section Fits

variable {n : Nat} {b rest : Bytes} (fits : (⟨n, b ++ rest⟩ : Cursor).Fits)

include fits

theorem Fits.room : n + b.length < offsetBound := by
  simp only [Fits, List.length_append] at fits
  omega

theorem Fits.behind : (⟨n + b.length, rest⟩ : Cursor).Fits := by
  simp only [Fits, List.length_append] at fits ⊢
  omega

end Fits

end Cursor

end PropertyGraph
