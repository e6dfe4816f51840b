/-
# Query.Limits -- how much a slice asks for

When conditions are left to be checked after reading, a slice has to ask for more
than the query wants.  `QueryLimits.forSlice` doubles the wanted number for each
condition left over, within bounds; it never falls below the wanted number
(`le_forSlice`).
-/
import PropertyGraph.Store.Slice

namespace PropertyGraph

set_option autoImplicit false

structure QueryLimits where
  /-- For slices whose results are filtered in memory. -/
  hard : UInt64
  /-- The most that a slice asks for to make up for conditions left over. -/
  vertex : UInt64
  deriving DecidableEq

namespace QueryLimits

def default : QueryLimits := ⟨100000, 300000⟩

/-- Limits are widened up to the greatest 32-bit integer. -/
def cap : Nat := 0x7FFFFFFF

/-- A limit widened for conditions left over, and slightly for a reader with
changes of its own. -/
def widened (modified : Bool) (remaining limit : Nat) : Nat :=
  let scaled :=
    if remaining = 0 then limit else limit * min (cap / max limit 1) (1 <<< min remaining 31)
  if modified then scaled + min (cap - scaled) 5 else scaled

/-- What a slice asks for when so many are wanted and so many conditions are left
over. -/
def forSlice (l : QueryLimits) (modified : Bool) (remaining : Nat) (wanted : UInt64) : UInt64 :=
  if wanted = noLimit then wanted
  else max wanted (UInt64.ofNat (min (widened modified remaining wanted.toNat) l.vertex.toNat))

theorem le_forSlice (l : QueryLimits) (modified : Bool) (remaining : Nat) (wanted : UInt64) :
    wanted ≤ l.forSlice modified remaining wanted := by
  simp only [forSlice]
  split
  · exact UInt64.le_refl _
  · rw [UInt64.le_iff_toNat_le]
    simp only [max]
    split
    · rename_i le; exact UInt64.le_iff_toNat_le.1 le
    · exact Nat.le_refl _

end QueryLimits

end PropertyGraph
