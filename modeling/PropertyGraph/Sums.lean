/-
# Sums -- adding up a measure over a list

`sumOf measure l` adds up what a measure says of the elements of a list.  Lists
put together add their sums (`sumOf_append`), the order of the elements does not matter
(`sumOf_perm`), and no element measures more than all of them (`le_sumOf_of_mem`).
-/

namespace PropertyGraph

set_option autoImplicit false

variable {α : Type}

/-- The sum of a measure over a list. -/
def sumOf (measure : α → Nat) : List α → Nat
  | [] => 0
  | x :: rest => measure x + sumOf measure rest

theorem sumOf_append (measure : α → Nat) (l more : List α) :
    sumOf measure (l ++ more) = sumOf measure l + sumOf measure more := by
  induction l with
  | nil => simp [sumOf]
  | cons x rest ih => simp [sumOf, ih, Nat.add_assoc]

theorem sumOf_perm (measure : α → Nat) {l l' : List α} (same : l.Perm l') :
    sumOf measure l = sumOf measure l' := by
  induction same with
  | nil => rfl
  | cons x _ ih => exact congrArg (measure x + ·) ih
  | swap x y l => exact Nat.add_left_comm ..
  | trans _ _ first second => exact first.trans second

theorem le_sumOf_of_mem (measure : α → Nat) {x : α} {l : List α} (member : x ∈ l) :
    measure x ≤ sumOf measure l := by
  induction l with
  | nil => simp at member
  | cons y rest ih =>
      simp only [sumOf]
      rcases List.mem_cons.1 member with rfl | inRest
      · omega
      · have := ih inRest
        omega

end PropertyGraph
