/-
# Proofs.BatchWords -- batches are the same when they are cut on words

A flush counts changes on words of 64 bits, and to tell whether a store goes whole into a
batch it compares products of them.  `WriteBuffer.batchesInWords` cuts a buffer that way: sums
and products wrap.

The number of changes that are held back is bounded by memory, the size of a batch by nothing
but the word, so it is three times the size that may wrap.  Then the size is more than all the
changes together.  No batch is cut off for want of room, and a store that is added row by row
because of a product that wrapped ends up in the batch as if it were added whole
(`Chunking.addSplit_of_roomy`).  So the batches are the same (`batchesInWords_eq`).
-/
import Mathlib.Data.UInt
import PropertyGraph.Proofs.HeldWrites

namespace PropertyGraph

set_option autoImplicit false

namespace Sorted

variable {α κ : Type} [Ord κ] [Std.TransOrd κ]

/-- What is put in adds its measure, and takes away that of what it replaces. -/
theorem sumOf_insert (measure : α → Nat) {key : α → κ} {l : List α} (ascending : Ascending key l)
    (x : α) : sumOf measure (insert key x l) + ((find? key (key x) l).map measure).getD 0 =
      measure x + sumOf measure l := by
  induction l with
  | nil => simp [insert, find?, sumOf]
  | cons y rest ih =>
      obtain ⟨below, tail⟩ := List.pairwise_cons.1 ascending
      have later := ih tail
      simp only [insert, find?]
      cases order : compare (key x) (key y) with
      | lt =>
          have absent : find? key (key x) rest = none :=
            find?_eq_none_of_lt fun z member => Std.TransCmp.lt_trans order (below z member)
          simp [absent, sumOf]
      | eq =>
          simp only [if_true, Option.map_some, Option.getD_some, sumOf]
          omega
      | gt =>
          simp only [reduceCtorEq, if_false, sumOf]
          omega

end Sorted

namespace WriteBuffer

/-- The number of changes of some rows. -/
def changesOf (rows : List (Bytes × Mutation)) : Nat := sumOf (fun row => row.2.total) rows

/-- The number of changes that are held back. -/
def heldChanges (b : WriteBuffer) : Nat := sumOf (fun store => changesOf store.2.rows) b.stores

namespace Chunking

/-! ## Cutting on words -/

/-- The count as it is kept, on a word. -/
def countWord (c : Chunking) : UInt64 := UInt64.ofNat c.count

def addSplitInWords (size : UInt64) (c : Chunking) (name : String)
    (rows : List (Bytes × Mutation)) : Chunking :=
  rows.foldl
    (fun c row =>
      if row.2.consolidate.isEmpty then c
      else
        let added := c.add name row
        if size ≤ added.countWord then added.cut else added) c

def addStoreInWords (size : UInt64) (c : Chunking) (store : String × PendingStore) : Chunking :=
  let rows := store.2.rows
  let total := UInt64.ofNat (changesOf rows)
  if total = 0 then c
  else if total * 2 ≤ size * 3 then
    let c := if 0 < c.countWord ∧ size < c.countWord + total then c.cut else c
    c.addWhole store.1 rows
  else addSplitInWords size c store.1 rows

def finishInWords (c : Chunking) : List Batch := if 0 < c.countWord then c.cut.done else c.done

/-! ## Counts -/

theorem count_add (c : Chunking) (name : String) (row : Bytes × Mutation) :
    (c.add name row).count = c.count + row.2.total := by
  unfold add
  by_cases nothing : row.2.consolidate.isEmpty = true
  · have none : row.2.total = 0 := by
      rw [Mutation.total_eq_zero_iff, ← Mutation.isEmpty_consolidate]
      exact nothing
    rw [if_pos nothing, none, Nat.add_zero]
  · rw [if_neg nothing]

theorem count_addWhole (c : Chunking) (name : String) (rows : List (Bytes × Mutation)) :
    (c.addWhole name rows).count = c.count + changesOf rows := by
  unfold addWhole
  induction rows generalizing c with
  | nil => rfl
  | cons row rest ih =>
      rw [List.foldl_cons, ih, count_add, changesOf, changesOf, sumOf, Nat.add_assoc]

theorem count_addSplit_le (size : Nat) (c : Chunking) (name : String)
    (rows : List (Bytes × Mutation)) :
    (addSplit size c name rows).count ≤ c.count + changesOf rows := by
  unfold addSplit
  induction rows generalizing c with
  | nil => exact Nat.le_refl _
  | cons row rest ih =>
      have added := count_add c name row
      have sum : changesOf (row :: rest) = row.2.total + changesOf rest := rfl
      rw [List.foldl_cons]
      refine Nat.le_trans (ih _) ?_
      split
      · omega
      · dsimp only
        split
        · show 0 + _ ≤ _
          omega
        · omega

theorem count_addStore_le (size : Nat) (c : Chunking) (store : String × PendingStore) :
    (addStore size c store).count ≤ c.count + changesOf store.2.rows := by
  simp only [addStore]
  split
  · exact Nat.le_add_right ..
  · split
    · rw [count_addWhole]
      split
      · show 0 + _ ≤ _
        omega
      · exact Nat.le_refl _
    · exact count_addSplit_le size c store.1 store.2.rows

/-- Where there is room for all of them, rows added one by one are added as a whole. -/
theorem addSplit_of_roomy {size : Nat} {c : Chunking} (name : String)
    {rows : List (Bytes × Mutation)} (roomy : c.count + changesOf rows < size) :
    addSplit size c name rows = c.addWhole name rows := by
  unfold addSplit addWhole
  induction rows generalizing c with
  | nil => rfl
  | cons row rest ih =>
      have added := count_add c name row
      have sum : changesOf (row :: rest) = row.2.total + changesOf rest := rfl
      have step : (if row.2.consolidate.isEmpty then c
          else if size ≤ (c.add name row).count then (c.add name row).cut else c.add name row) =
          c.add name row := by
        by_cases nothing : row.2.consolidate.isEmpty = true
        · simp only [add, nothing, if_true]
        · rw [if_neg nothing, if_neg (by omega)]
      rw [List.foldl_cons, List.foldl_cons]
      dsimp only
      rw [step]
      exact ih (by omega)

/-! ## Words say the same -/

section Words

variable (size : UInt64) {c : Chunking}

theorem toNat_countWord (few : c.count < 2 ^ 62) : c.countWord.toNat = c.count := by
  rw [countWord, UInt64.toNat_ofNat']
  exact Nat.mod_eq_of_lt (by omega)

theorem addSplitInWords_eq (name : String) {rows : List (Bytes × Mutation)}
    (few : c.count + changesOf rows < 2 ^ 62) :
    addSplitInWords size c name rows = addSplit size.toNat c name rows := by
  unfold addSplitInWords addSplit
  induction rows generalizing c with
  | nil => rfl
  | cons row rest ih =>
      have added := count_add c name row
      have sum : changesOf (row :: rest) = row.2.total + changesOf rest := rfl
      have full : size ≤ (c.add name row).countWord ↔ size.toNat ≤ (c.add name row).count := by
        rw [UInt64.le_iff_toNat_le, toNat_countWord (by omega)]
      rw [List.foldl_cons, List.foldl_cons]
      dsimp only
      simp only [full]
      apply ih
      split
      · omega
      · split
        · show 0 + _ < _
          omega
        · omega

theorem addStoreInWords_eq {store : String × PendingStore}
    (few : c.count + changesOf store.2.rows < 2 ^ 62) :
    addStoreInWords size c store = addStore size.toNat c store := by
  have split := addSplitInWords_eq size store.1 few
  have bound := size.toNat_lt
  have counted : c.countWord.toNat = c.count := toNat_countWord (by omega)
  have exactly : sumOf (fun row => row.2.total) store.2.rows = changesOf store.2.rows := rfl
  unfold addStoreInWords addStore
  dsimp only
  rw [split, exactly]
  generalize held : changesOf store.2.rows = total at few ⊢
  have word : (UInt64.ofNat total).toNat = total := by
    rw [UInt64.toNat_ofNat']
    exact Nat.mod_eq_of_lt (by omega)
  have none : UInt64.ofNat total = 0 ↔ total = 0 := by
    rw [← UInt64.toNat_inj, word]
    rfl
  have twice : (UInt64.ofNat total * 2).toNat = total * 2 := by
    rw [UInt64.toNat_mul, word]
    exact Nat.mod_eq_of_lt (by show total * 2 < 2 ^ 64; omega)
  have thrice : (size * 3).toNat = size.toNat * 3 % 2 ^ 64 := UInt64.toNat_mul size 3
  have together : (c.countWord + UInt64.ofNat total).toNat = c.count + total := by
    rw [UInt64.toNat_add, counted, word]
    exact Nat.mod_eq_of_lt (by omega)
  have some : 0 < c.countWord ↔ 0 < c.count := by
    rw [UInt64.lt_iff_toNat_lt, counted]
    rfl
  simp only [none, some, UInt64.le_iff_toNat_le, UInt64.lt_iff_toNat_lt, twice, thrice, together]
  by_cases wraps : size.toNat * 3 < 2 ^ 64
  · rw [Nat.mod_eq_of_lt wraps]
  · -- The size is more than all that is held, so the store goes whole into the batch at hand.
    have room : ¬ (0 < c.count ∧ size.toNat < c.count + total) := by omega
    have whole : total * 2 ≤ size.toNat * 3 := by omega
    rw [if_neg room, if_pos whole, addSplit_of_roomy store.1 (by rw [held]; omega)]
    simp only [ite_self]

end Words

end Chunking

/-- The batches that a flush writes, cut on words. -/
def batchesInWords (b : WriteBuffer) : List Batch :=
  (b.stores.foldl (Chunking.addStoreInWords (max (UInt64.ofNat b.options.bufferSize) 1))
    Chunking.start).finishInWords

/-- Cut on words, the batches are the same: a size that is a word may be as great as it likes. -/
theorem batchesInWords_eq {b : WriteBuffer} (word : b.options.bufferSize < 2 ^ 64)
    (few : b.heldChanges < 2 ^ 62) : b.batchesInWords = b.batches := by
  have size : (max (UInt64.ofNat b.options.bufferSize) 1).toNat = max b.options.bufferSize 1 := by
    rw [UInt64.toNat_max, UInt64.toNat_ofNat', Nat.mod_eq_of_lt word]
    rfl
  have cut : ∀ (stores : List (String × PendingStore)) (c : Chunking),
      c.count + sumOf (fun store => changesOf store.2.rows) stores < 2 ^ 62 →
      stores.foldl (Chunking.addStoreInWords (max (UInt64.ofNat b.options.bufferSize) 1)) c =
          stores.foldl (Chunking.addStore (max b.options.bufferSize 1)) c ∧
        (stores.foldl (Chunking.addStore (max b.options.bufferSize 1)) c).count <
          2 ^ 62 := by
    intro stores
    induction stores with
    | nil => exact fun c few => ⟨rfl, few⟩
    | cons store rest ih =>
        intro c few
        have more := Chunking.count_addStore_le (max b.options.bufferSize 1) c store
        have same : Chunking.addStoreInWords (max (UInt64.ofNat b.options.bufferSize) 1) c store =
            _ := Chunking.addStoreInWords_eq _ (by simp only [sumOf] at few; omega)
        rw [size] at same
        rw [List.foldl_cons, List.foldl_cons, same]
        exact ih _ (by simp only [sumOf] at few; omega)
  obtain ⟨same, small⟩ := cut b.stores Chunking.start ((Nat.zero_add _).symm ▸ few)
  rw [batchesInWords, batches, same, Chunking.finishInWords, Chunking.finish]
  have some : 0 < (b.stores.foldl (Chunking.addStore (max b.options.bufferSize 1))
      Chunking.start).countWord ↔ _ := UInt64.lt_iff_toNat_lt
  simp only [some, Chunking.toNat_countWord small]
  rfl

/-! ## What is held was counted -/

theorem total_merge_le (earlier later : Mutation) :
    (earlier.merge later).total ≤ earlier.total + later.total := by
  have kept := List.length_filter_le
    (fun e => !later.deletions.contains e.column && !later.adds e.column) earlier.additions
  simp only [Mutation.total, Mutation.merge, List.length_append]
  omega

theorem changesOf_mergeRow_le (key : Bytes) (m : Mutation) (rows : List (Bytes × Mutation)) :
    changesOf (mergeRow key m rows) ≤ changesOf rows + m.total := by
  unfold changesOf
  induction rows with
  | nil => simp [mergeRow, sumOf]
  | cons row rest ih =>
      obtain ⟨other, earlier⟩ := row
      have merged := total_merge_le earlier m
      simp only [mergeRow]
      split
      · simp only [sumOf]
        omega
      · simp only [sumOf]
        omega

theorem heldChanges_hold_le {b : WriteBuffer} (sound : b.Sound) (cache : Nat) (name : String)
    (key : Bytes) (m : Mutation) :
    (b.hold cache name key m).heldChanges ≤ b.heldChanges + m.total := by
  let store := (b.store? name).getD ⟨cache, []⟩
  have put := Sorted.sumOf_insert (fun store : String × PendingStore => changesOf store.2.rows)
    sound.stores (name, { store with rows := mergeRow key m store.rows })
  have before : ((Sorted.find? Prod.fst name b.stores).map
      fun store => changesOf store.2.rows).getD 0 = changesOf store.rows := by
    simp only [store, store?]
    cases Sorted.find? Prod.fst name b.stores <;> rfl
  have merged := changesOf_mergeRow_le key m store.rows
  have held : (b.hold cache name key m).heldChanges = sumOf
      (fun store : String × PendingStore => changesOf store.2.rows)
      (Sorted.insert Prod.fst (name, { store with rows := mergeRow key m store.rows }) b.stores) :=
    rfl
  rw [before] at put
  dsimp only at put
  rw [held, heldChanges]
  omega

/-- No change is held back that was not counted. -/
theorem heldChanges_holding_le (o : TransactionOptions) (writes : List Write) :
    (holding o writes).heldChanges ≤ (holding o writes).count := by
  induction writes using List.reverseRecOn with
  | nil => exact Nat.le_refl _
  | append_singleton writes w ih =>
      rw [holding_concat, accept]
      split
      · exact ih
      · refine Nat.le_trans (heldChanges_hold_le (sound_holding o writes) ..) ?_
        exact Nat.add_le_add_right ih _

/-- The order of the rows does not change their number. -/
theorem heldChanges_arranged (b : WriteBuffer) (order : RowOrder) :
    (b.arranged order).heldChanges = b.heldChanges := by
  unfold heldChanges WriteBuffer.arranged
  induction b.stores with
  | nil => rfl
  | cons store rest ih =>
      rw [List.map_cons, sumOf, sumOf, ih]
      exact congrArg (· + _) (sumOf_perm _ (order.perm store.1 store.2.rows))

end WriteBuffer

end PropertyGraph
