/-
# Proofs.FlushBatches -- how a flush cuts a buffer into batches

A flush cuts the held back rows into batches and hands these to the backend one after the
other, each until it is taken (`Backend.Takes`).

* The cutting counts the changes of the rows in the batch in the making, as they were before
  they were consolidated.  `Chunking.Within` is its invariant: the count is the weight of that
  batch and at most one and a half times the size of a batch, and a batch that was cut off has
  rows and is too heavy by one row at most.  Taking a row in, a store as a whole, or a store
  row by row keeps it.
* `held_rows_batched`: a flush that succeeds hands the backend every held back row in exactly
  one batch, consolidated and with something to change, and no batch is empty or too heavy,
  whatever the order in which it goes through the rows.  On words of 64 bits it cuts the same
  batches (`Proofs.BatchWords`).
  A size of zero counts as one there; taken at its word it would be exceeded
  (`unsized_batch_overfills`).
-/
import Mathlib.Data.List.Nodup
import Mathlib.Data.List.Perm.Basic
import PropertyGraph.Proofs.BatchWords
import PropertyGraph.Proofs.Storages

namespace PropertyGraph

set_option autoImplicit false

/-! ## Handing batches over -/

namespace Backend

/-- The backend is handed batches one after the other, each until it takes it. -/
inductive Takes : List Batch → Backend → Backend → Prop where
  | done (b : Backend) : Takes [] b b
  | refused {batch : Batch} {rest : List Batch} {b after : Backend} {fault : Fault}
      (refusal : (mutateMany batch b).1 = .error fault)
      (later : Takes (batch :: rest) (mutateMany batch b).2 after) : Takes (batch :: rest) b after
  | taken {batch : Batch} {rest : List Batch} {b after : Backend}
      (success : (mutateMany batch b).1 = .ok ())
      (later : Takes rest (mutateMany batch b).2 after) : Takes (batch :: rest) b after

/-- A batch that was taken after some attempts, and then the others. -/
theorem Takes.retryMore {batch : Batch} {rest : List Batch} {after : Backend} (more : Nat)
    {b : Backend} (success : (retryMore (mutateMany batch) more b).1 = .ok ())
    (later : Takes rest (retryMore (mutateMany batch) more b).2 after) :
    Takes (batch :: rest) b after := by
  induction more generalizing b with
  | zero => exact .taken success later
  | succ more ih =>
      simp only [PropertyGraph.retryMore] at success later
      cases tried : (mutateMany batch b).1 with
      | ok u =>
          rw [tried] at success later
          exact .taken tried later
      | error fault =>
          rw [tried] at success later
          by_cases again : isIndecisive (.error fault : Outcome Unit) = true
          · rw [if_pos again] at success later
            exact .refused tried (ih success later)
          · rw [if_neg again] at success
            cases success

theorem takes_writeAll {attempts : Nat} {batches : List Batch} {b : Backend}
    (success : (WriteBuffer.writeAll attempts batches b).1 = .ok ()) :
    Takes batches b (WriteBuffer.writeAll attempts batches b).2 := by
  induction batches generalizing b with
  | nil => exact .done b
  | cons batch rest ih =>
      simp only [WriteBuffer.writeAll] at success ⊢
      rcases tried : retry attempts (mutateMany batch) b with ⟨fault | u, next⟩
      · rw [tried] at success
        cases success
      · rw [tried] at success
        refine Takes.retryMore (attempts - 1) (congrArg Prod.fst tried) ?_
        have same : (PropertyGraph.retryMore (mutateMany batch) (attempts - 1) b).2 = next :=
          congrArg Prod.snd tried
        rw [same]
        exact ih success

/-- The attempts that succeeded stand in the journal in the order of the batches. -/
theorem Takes.journal {batches : List Batch} {b after : Backend} (takes : Takes batches b after) :
    ∃ records, after.journal = b.journal ++ records ∧
      (records.filter fun r => r.failure.isNone) =
        batches.map fun batch => ⟨shapeOf batch, none⟩ := by
  induction takes with
  | done b => exact ⟨[], (List.append_nil _).symm, rfl⟩
  | @refused batch rest b after fault refusal later ih =>
      obtain ⟨records, same, successes⟩ := ih
      obtain ⟨failure, entered, decisive⟩ := journal_mutateMany batch b
      have failed : failure.isNone = false := by
        rw [Option.isNone_eq_false_iff, Option.isSome_iff_ne_none, Ne, decisive, refusal]
        exact fun impossible => by cases impossible
      refine ⟨⟨shapeOf batch, failure⟩ :: records, ?_, ?_⟩
      · rw [same, entered, List.append_assoc, List.singleton_append]
      · rw [List.filter_cons_of_neg (by simp [failed]), successes]
  | @taken batch rest b after success later ih =>
      obtain ⟨records, same, successes⟩ := ih
      obtain ⟨failure, entered, decisive⟩ := journal_mutateMany batch b
      obtain rfl := decisive.2 success
      refine ⟨⟨shapeOf batch, none⟩ :: records, ?_, ?_⟩
      · rw [same, entered, List.append_assoc, List.singleton_append]
      · rw [List.filter_cons_of_pos rfl, successes, List.map_cons]

end Backend

/-! ## Rows in any order -/

namespace Mutation

theorem isEmpty_merge {later : Mutation} (something : later.isEmpty = false) (earlier : Mutation) :
    (earlier.merge later).isEmpty = false := by
  rw [isEmpty, Bool.and_eq_false_iff] at something ⊢
  refine something.imp ?_ ?_ <;>
  · intro some
    rw [List.isEmpty_eq_false_iff] at some ⊢
    exact List.append_ne_nil_of_right_ne_nil _ some

end Mutation

namespace WriteBuffer

/-- No row is held that changes nothing. -/
def Filled (b : WriteBuffer) : Prop :=
  ∀ store ∈ b.stores, ∀ row ∈ store.2.rows, row.2.isEmpty = false

theorem mem_mergeRow {key : Bytes} {m : Mutation} {rows : List (Bytes × Mutation)}
    {row : Bytes × Mutation} (member : row ∈ mergeRow key m rows) :
    row ∈ rows ∨ row.2 = m ∨ ∃ earlier : Mutation, row.2 = earlier.merge m := by
  induction rows with
  | nil =>
      obtain rfl := List.mem_singleton.1 member
      exact .inr (.inl rfl)
  | cons first rest ih =>
      obtain ⟨other, earlier⟩ := first
      simp only [mergeRow] at member
      split at member
      · rcases List.mem_cons.1 member with rfl | inRest
        · exact .inr (.inr ⟨earlier, rfl⟩)
        · exact .inl (List.mem_cons_of_mem _ inRest)
      · rcases List.mem_cons.1 member with rfl | inRest
        · exact .inl List.mem_cons_self
        · exact (ih inRest).imp_left (List.mem_cons_of_mem _)

theorem filled_holding (o : TransactionOptions) (writes : List Write) :
    (holding o writes).Filled := by
  induction writes using List.reverseRecOn with
  | nil => exact fun _ member => by cases member
  | append_singleton writes w ih =>
      rw [holding_concat, accept]
      split
      · exact ih
      · rename_i something
        rw [Mutation.total_eq_zero_iff, Bool.not_eq_true] at something
        intro store inStores row inRows
        rcases Sorted.mem_insert inStores with rfl | old
        · rcases mem_mergeRow inRows with old | new | ⟨earlier, merged⟩
          · cases held : (holding o writes).store? w.name with
            | none =>
                rw [held] at old
                cases old
            | some p =>
                rw [held] at old
                exact ih (w.name, p) (mem_of_store? held) row old
          · rw [new]
            exact something
          · rw [merged]
            exact Mutation.isEmpty_merge something earlier
        · exact ih store old row inRows

theorem Filled.arranged {b : WriteBuffer} (filled : b.Filled) (order : RowOrder) :
    (b.arranged order).Filled := by
  intro store member row inRows
  obtain ⟨held, inStores, -, -, rows⟩ := mem_stores_arranged member
  exact filled held inStores row (rows.mem_iff.1 inRows)

/-! ## Weights -/

end WriteBuffer

/-- The row that a cell is about. -/
def Cell.address (cell : Cell) : String × Bytes := (cell.1, cell.2.1)

/-- What the rows of a batch weigh together. -/
def Batch.weight (rowWeight : String → Bytes → Nat) (batch : Batch) : Nat :=
  sumOf (fun cell => rowWeight cell.1 cell.2.1) batch.cells

namespace WriteBuffer

/-- The number of changes of a row as it is held back. -/
def changes (b : WriteBuffer) (name : String) (key : Bytes) : Nat :=
  ((b.row? name key).map Mutation.total).getD 0

/-- The number of changes of the row that has most. -/
def largestRow (b : WriteBuffer) : Nat :=
  ((b.stores.flatMap fun store => store.2.rows).map fun row => row.2.total).foldr max 0

theorem total_le_largestRow {b : WriteBuffer} {store : String × PendingStore}
    {row : Bytes × Mutation} (inStores : store ∈ b.stores) (inRows : row ∈ store.2.rows) :
    row.2.total ≤ b.largestRow := by
  have member : row ∈ b.stores.flatMap fun store => store.2.rows :=
    List.mem_flatMap.2 ⟨store, inStores, inRows⟩
  unfold largestRow
  generalize (b.stores.flatMap fun store => store.2.rows) = rows at member
  induction rows with
  | nil => cases member
  | cons first rest ih =>
      rw [List.map_cons, List.foldr_cons]
      rcases List.mem_cons.1 member with rfl | inRest
      · exact Nat.le_max_left ..
      · exact Nat.le_trans (ih inRest) (Nat.le_max_right ..)

theorem row?_of_mem {b : WriteBuffer} (sound : b.Sound) {store : String × PendingStore}
    (inStores : store ∈ b.stores) {row : Bytes × Mutation} (inRows : row ∈ store.2.rows) :
    b.row? store.1 row.1 = some row.2 := by
  rw [row?, store?_of_mem sound inStores, Option.bind_some]
  exact lookup_of_mem (sound.rows store inStores) inRows

theorem mem_of_row? {b : WriteBuffer} {name : String} {key : Bytes} {m : Mutation}
    (held : b.row? name key = some m) :
    ∃ store ∈ b.stores, store.1 = name ∧ (key, m) ∈ store.2.rows := by
  obtain ⟨p, store, inRows⟩ := Option.bind_eq_some_iff.1 held
  exact ⟨(name, p), mem_of_store? store, rfl, mem_of_lookup inRows⟩

theorem changes_arranged {b : WriteBuffer} (sound : b.Sound) (order : RowOrder) :
    (b.arranged order).changes = b.changes := by
  funext name key
  rw [changes, changes, row?_arranged sound]

theorem largestRow_arranged (b : WriteBuffer) (order : RowOrder) :
    (b.arranged order).largestRow = b.largestRow := by
  have rows : ((b.arranged order).stores.flatMap fun store => store.2.rows).Perm
      (b.stores.flatMap fun store => store.2.rows) := by
    rw [WriteBuffer.arranged, List.flatMap_map]
    exact .flatMap_left _ fun store _ => order.perm store.1 store.2.rows
  exact (rows.map fun row => row.2.total).foldr_eq (f := max) 0

namespace Chunking

variable {rowWeight : String → Bytes → Nat} {size largest : Nat} {c : Chunking}

/-- A row taken in adds as much to the weight of the batch as to the count. -/
theorem weight_add (counted : c.current.weight rowWeight = c.count) {name : String}
    {row : Bytes × Mutation} (weighed : rowWeight name row.1 = row.2.total) :
    (c.add name row).current.weight rowWeight = (c.add name row).count ∧
      (c.add name row).done = c.done := by
  unfold add
  by_cases nothing : row.2.consolidate.isEmpty = true
  · rw [if_pos nothing]
    exact ⟨counted, rfl⟩
  · rw [if_neg nothing]
    refine ⟨?_, rfl⟩
    rw [Batch.weight, sumOf_perm _ (cells_addRow name (row.1, row.2.consolidate) c.current),
      sumOf_append]
    show c.current.weight rowWeight + (rowWeight name row.1 + 0) = _
    rw [counted, weighed, Nat.add_zero]

theorem weight_addWhole {name : String} {rows : List (Bytes × Mutation)}
    (weighed : ∀ row ∈ rows, rowWeight name row.1 = row.2.total) (c : Chunking)
    (counted : c.current.weight rowWeight = c.count) :
    (c.addWhole name rows).current.weight rowWeight = (c.addWhole name rows).count ∧
      (c.addWhole name rows).done = c.done := by
  unfold addWhole
  induction rows generalizing c with
  | nil => exact ⟨counted, rfl⟩
  | cons row rest ih =>
      obtain ⟨here, later⟩ := List.forall_mem_cons.1 weighed
      obtain ⟨counted', done⟩ := weight_add counted here
      obtain ⟨counted'', done'⟩ := ih later (c.add name row) counted'
      exact ⟨counted'', done'.trans done⟩

/-- A batch with rows, too heavy by one row at most. -/
def Fit (rowWeight : String → Bytes → Nat) (size largest : Nat) (batch : Batch) : Prop :=
  batch.cells ≠ [] ∧ 2 * batch.weight rowWeight ≤ 3 * size + 2 * largest

/-- What holds while a buffer is cut into batches. -/
structure Within (rowWeight : String → Bytes → Nat) (size largest : Nat) (c : Chunking) :
    Prop where
  counted : c.current.weight rowWeight = c.count
  light : 2 * c.count ≤ 3 * size
  done : ∀ batch ∈ c.done, Fit rowWeight size largest batch

theorem within_start : Within rowWeight size largest start :=
  ⟨rfl, Nat.zero_le _, fun _ member => by cases member⟩

theorem fit_current (counted : c.current.weight rowWeight = c.count) (some : 0 < c.count)
    (light : 2 * c.count ≤ 3 * size + 2 * largest) : Fit rowWeight size largest c.current := by
  refine ⟨?_, by rw [counted]; exact light⟩
  intro nothing
  rw [Batch.weight, nothing, sumOf] at counted
  omega

/-- Cutting a batch off that has rows. -/
theorem within_cut (counted : c.current.weight rowWeight = c.count) (some : 0 < c.count)
    (light : 2 * c.count ≤ 3 * size + 2 * largest)
    (done : ∀ batch ∈ c.done, Fit rowWeight size largest batch) :
    Within rowWeight size largest c.cut := by
  refine ⟨rfl, Nat.zero_le _, ?_⟩
  intro batch member
  rcases List.mem_append.1 member with old | new
  · exact done batch old
  · obtain rfl := List.mem_singleton.1 new
    exact fit_current counted some light

theorem Within.addSplit (positive : 0 < size) {name : String} {rows : List (Bytes × Mutation)}
    (weighed : ∀ row ∈ rows, rowWeight name row.1 = row.2.total ∧ row.2.total ≤ largest)
    (within : Within rowWeight size largest c) :
    Within rowWeight size largest (addSplit size c name rows) := by
  unfold Chunking.addSplit
  induction rows generalizing c with
  | nil => exact within
  | cons row rest ih =>
      obtain ⟨⟨here, bounded⟩, later⟩ := List.forall_mem_cons.1 weighed
      obtain ⟨counted, done⟩ := weight_add within.counted here
      have count := count_add c name row
      have light := within.light
      rw [List.foldl_cons]
      apply ih later
      split
      · exact within
      · dsimp only
        split
        · refine within_cut counted (by omega) (by omega) ?_
          rw [done]
          exact within.done
        · refine ⟨counted, by omega, ?_⟩
          rw [done]
          exact within.done

/-- A store that goes whole into a batch is at most half again as large as the buffer, and
joins others only if it fits. -/
theorem Within.addWhole {name : String} {rows : List (Bytes × Mutation)}
    (weighed : ∀ row ∈ rows, rowWeight name row.1 = row.2.total)
    (within : Within rowWeight size largest c)
    (light : 2 * (c.count + changesOf rows) ≤ 3 * size) :
    Within rowWeight size largest (c.addWhole name rows) := by
  obtain ⟨counted, done⟩ := weight_addWhole weighed c within.counted
  refine ⟨counted, by rw [count_addWhole]; exact light, ?_⟩
  rw [done]
  exact within.done

theorem Within.addStore (positive : 0 < size) {store : String × PendingStore}
    (weighed : ∀ row ∈ store.2.rows,
      rowWeight store.1 row.1 = row.2.total ∧ row.2.total ≤ largest)
    (within : Within rowWeight size largest c) :
    Within rowWeight size largest (addStore size c store) := by
  have weights := fun row member => (weighed row member).1
  have light := within.light
  have exactly : sumOf (fun row => row.2.total) store.2.rows = changesOf store.2.rows := rfl
  unfold Chunking.addStore
  dsimp only
  rw [exactly]
  split
  · exact within
  · split
    · rename_i small
      split
      · refine Within.addWhole weights
          (within_cut within.counted (by omega) (by omega) within.done) ?_
        show 2 * (0 + _) ≤ _
        omega
      · exact Within.addWhole weights within (by omega)
    · exact within.addSplit positive weighed

theorem Within.finish (within : Within rowWeight size largest c) :
    ∀ batch ∈ c.finish, Fit rowWeight size largest batch := by
  have light := within.light
  unfold Chunking.finish
  split
  · exact (within_cut within.counted (by omega) (by omega) within.done).done
  · exact within.done

end Chunking

/-- Every batch of a buffer has rows, and is too heavy by one row at most. -/
theorem fit_batches {b : WriteBuffer} (sound : b.Sound) : ∀ batch ∈ b.batches,
    Chunking.Fit b.changes (max b.options.bufferSize 1) b.largestRow batch := by
  have cut : ∀ (stores : List (String × PendingStore)) (c : Chunking),
      (∀ store ∈ stores, store ∈ b.stores) →
      c.Within b.changes (max b.options.bufferSize 1) b.largestRow →
      (stores.foldl (Chunking.addStore (max b.options.bufferSize 1)) c).Within b.changes
        (max b.options.bufferSize 1) b.largestRow := by
    intro stores
    induction stores with
    | nil => exact fun c _ within => within
    | cons store rest ih =>
        intro c all within
        obtain ⟨here, later⟩ := List.forall_mem_cons.1 all
        refine ih _ later (within.addStore (by omega) fun row inRows => ⟨?_, ?_⟩)
        · rw [changes, row?_of_mem sound here inRows]
          rfl
        · exact total_le_largestRow here inRows
  exact (cut b.stores Chunking.start (fun _ member => member) Chunking.within_start).finish

/-! ## Each row once -/

theorem address_cellOf {name : String} {row : Bytes × Mutation} {cell : Cell}
    (member : cell ∈ cellOf name row) : cell.address = (name, row.1) := by
  unfold cellOf at member
  split at member
  · cases member
  · obtain rfl := List.mem_singleton.1 member
    rfl

/-- No row is held back twice. -/
theorem nodup_cells {b : WriteBuffer} (sound : b.Sound) :
    (b.cells.map Cell.address).Nodup := by
  have inStore : ∀ store ∈ b.stores,
      ((store.2.rows.flatMap (cellOf store.1)).map Cell.address).Nodup := by
    intro store member
    have nodup := sound.rows store member
    rw [List.map_flatMap]
    generalize store.2.rows = rows at nodup
    induction rows with
    | nil => exact List.nodup_nil
    | cons row rest ih =>
        obtain ⟨absent, later⟩ := List.nodup_cons.1 nodup
        rw [List.flatMap_cons]
        refine List.nodup_append'.2 ⟨?_, ih later, ?_⟩
        · unfold cellOf
          split <;> simp
        · intro address here elsewhere
          obtain ⟨cell, inCell, rfl⟩ := List.mem_map.1 here
          obtain ⟨other, inRest, there⟩ := List.mem_flatMap.1 elsewhere
          obtain ⟨cell', inCell', same⟩ := List.mem_map.1 there
          rw [address_cellOf inCell, address_cellOf inCell'] at same
          exact absent (List.mem_map.2 ⟨other, inRest, (Prod.mk.inj same).2⟩)
  have addressed : ∀ {store : String × PendingStore} {cell : Cell},
      cell ∈ store.2.rows.flatMap (cellOf store.1) → cell.1 = store.1 := by
    intro store cell member
    obtain ⟨row, -, inCell⟩ := List.mem_flatMap.1 member
    exact congrArg Prod.fst (address_cellOf inCell)
  have stores := sound.stores
  unfold cells
  rw [List.map_flatMap]
  refine List.nodup_flatMap.2 ⟨inStore, stores.imp fun {first second} apart => ?_⟩
  intro address here there
  obtain ⟨cell, inFirst, rfl⟩ := List.mem_map.1 here
  obtain ⟨cell', inSecond, same⟩ := List.mem_map.1 there
  have names : first.1 = second.1 := by
    rw [← addressed inFirst, ← addressed inSecond]
    exact (congrArg Prod.fst same).symm
  rw [names, Std.ReflOrd.compare_self] at apart
  cases apart

/-- Every cell of a batch is a row that is held back, consolidated. -/
theorem held_of_mem_batches {b : WriteBuffer} (sound : b.Sound) {batch : Batch}
    (inBatches : batch ∈ b.batches) {cell : Cell} (inCells : cell ∈ batch.cells) :
    ∃ m, b.row? cell.1 cell.2.1 = some m ∧ cell.2.2 = m.consolidate := by
  have member : cell ∈ b.cells :=
    (cells_batches b).mem_iff.1 (List.mem_flatMap.2 ⟨batch, inBatches, inCells⟩)
  have held := (mem_cells_iff sound cell.1 cell.2.1 cell.2.2).1 member
  obtain ⟨m, row, same⟩ := Option.map_eq_some_iff.1 (Option.filter_eq_some_iff.1 held).1
  exact ⟨m, row, same.symm⟩

/-- A row that is held back is in a batch, and in no other. -/
theorem exists_batch {b : WriteBuffer} (sound : b.Sound) (filled : b.Filled) {name : String}
    {key : Bytes} {m : Mutation} (held : b.row? name key = some m) :
    m.consolidate.isEmpty = false ∧ ∃ i batch, b.batches[i]? = some batch ∧
      (name, key, m.consolidate) ∈ batch.cells ∧
      ∀ (j : Nat) (other : Batch) (m' : Mutation), b.batches[j]? = some other →
        (name, key, m') ∈ other.cells → j = i := by
  obtain ⟨store, inStores, rfl, inRows⟩ := mem_of_row? held
  have something : m.consolidate.isEmpty = false := by
    rw [Mutation.isEmpty_consolidate]
    exact filled store inStores _ inRows
  have member : (store.1, key, m.consolidate) ∈ b.cells := by
    rw [mem_cells_iff sound, toWrite, held]
    simp [Option.filter, something]
  obtain ⟨batch, inBatches, inCells⟩ := List.mem_flatMap.1 ((cells_batches b).mem_iff.2 member)
  obtain ⟨i, there⟩ := List.mem_iff_getElem?.1 inBatches
  refine ⟨something, i, batch, there, inCells, ?_⟩
  intro j other m' elsewhere again
  -- The addresses of all batches together are those of the buffer, which has none twice.
  have nodup : ((b.batches.flatMap Batch.cells).map Cell.address).Nodup :=
    ((cells_batches b).map Cell.address).nodup_iff.2 (nodup_cells sound)
  rw [List.map_flatMap] at nodup
  have apart := (List.nodup_flatMap.1 nodup).2
  by_contra different
  have here : (store.1, key) ∈ batch.cells.map Cell.address := List.mem_map.2 ⟨_, inCells, rfl⟩
  have there' : (store.1, key) ∈ other.cells.map Cell.address := List.mem_map.2 ⟨_, again, rfl⟩
  obtain ⟨inBounds, rfl⟩ := List.getElem?_eq_some_iff.1 there
  obtain ⟨inBounds', rfl⟩ := List.getElem?_eq_some_iff.1 elsewhere
  rcases Nat.lt_or_gt_of_ne different with before | behind
  · exact List.pairwise_iff_getElem.1 apart j i inBounds' inBounds before there' here
  · exact List.pairwise_iff_getElem.1 apart i j inBounds inBounds' behind here there'

theorem nodup_batch {b : WriteBuffer} (sound : b.Sound) {batch : Batch}
    (inBatches : batch ∈ b.batches) : (batch.cells.map Cell.address).Nodup := by
  have nodup : ((b.batches.flatMap Batch.cells).map Cell.address).Nodup :=
    ((cells_batches b).map Cell.address).nodup_iff.2 (nodup_cells sound)
  rw [List.map_flatMap] at nodup
  exact (List.nodup_flatMap.1 nodup).1 batch inBatches

/-- What a flush that succeeds hands to the backend. -/
theorem takes_flush {o : TransactionOptions} {writes : List Write} {s : Storage}
    (success : ((holding o writes).flush s).1 = .ok ()) :
    Backend.Takes ((holding o writes).arranged s.nextOrder).batches s.backend
      ((holding o writes).flush s).2.2.backend := by
  by_cases nothing : (holding o writes).count = 0
  · rw [flush_of_nothing nothing, holding_of_count nothing]
    exact .done s.backend
  · rw [flush_of_something nothing] at success ⊢
    rw [backend_invalidateHeld]
    exact Backend.takes_writeAll success

/-- A flush that succeeds hands the backend batches, each until it is taken.  Every row that
is held back is in exactly one of them, consolidated and with something to change; no batch is
empty, has rows that are not held back, or has one twice; and counted as they were held back,
the changes in a batch are at most one and a half times the size of a batch and those of the
largest row together.  All this holds in whatever order the flush goes through the rows, and on
words whose products wrap the batches are the same. -/
theorem held_rows_batched {o : TransactionOptions} {writes : List Write} {s : Storage}
    (success : ((holding o writes).flush s).1 = .ok ()) :
    let b := holding o writes
    let sent := b.arranged s.nextOrder
    let batches := sent.batches
    (o.bufferSize < 2 ^ 64 → b.count < 2 ^ 62 → sent.batchesInWords = batches) ∧
    Backend.Takes batches s.backend (b.flush s).2.2.backend ∧
    (∃ records, (b.flush s).2.2.backend.journal = s.backend.journal ++ records ∧
      (records.filter fun r => r.failure.isNone) =
        batches.map fun batch => ⟨Backend.shapeOf batch, none⟩) ∧
    (∀ name key m, b.row? name key = some m →
      m.consolidate.isEmpty = false ∧ ∃ i batch, batches[i]? = some batch ∧
        (name, key, m.consolidate) ∈ batch.cells ∧
        ∀ (j : Nat) (other : Batch) (m' : Mutation), batches[j]? = some other →
          (name, key, m') ∈ other.cells → j = i) ∧
    ∀ batch ∈ batches,
      batch.cells ≠ [] ∧ (batch.cells.map Cell.address).Nodup ∧
      (∀ cell ∈ batch.cells, ∃ m, b.row? cell.1 cell.2.1 = some m ∧ cell.2.2 = m.consolidate) ∧
      2 * batch.weight b.changes ≤ 3 * max o.bufferSize 1 + 2 * b.largestRow := by
  intro b sent batches
  have held : b.Sound := sound_holding o writes
  have sound : sent.Sound := held.arranged s.nextOrder
  have filled := (filled_holding o writes).arranged s.nextOrder
  have rows := row?_arranged held s.nextOrder
  have takes := takes_flush success
  have options : sent.options = o := options_holding o writes
  refine ⟨fun word few => ?_, takes, takes.journal, fun name key m row => ?_,
    fun batch inBatches => ?_⟩
  · refine batchesInWords_eq (options ▸ word) ?_
    rw [heldChanges_arranged]
    exact Nat.lt_of_le_of_lt (heldChanges_holding_le o writes) few
  · rw [← rows] at row
    exact exists_batch sound filled row
  · obtain ⟨some, light⟩ := fit_batches sound batch inBatches
    rw [options, changes_arranged held, largestRow_arranged] at light
    refine ⟨some, nodup_batch sound inBatches, fun cell inCells => ?_, light⟩
    rw [← rows]
    exact held_of_mem_batches sound inBatches inCells

/-- A mutation that adds columns, as many as there are. -/
def adding (columns : List UInt8) : Mutation := ⟨columns.map fun column => ⟨[column], [], none⟩, []⟩

/-- Caches in front of two stores; the next flush meets the rows that were written to last
first. -/
def twoStores : Storage :=
  (Storage.prepared [] [⟨"edges", .default, false, fun _ => 0⟩,
    ⟨"index", .default, false, fun _ => 0⟩]).shuffled [.reversed]

/-- One change of a row of the first store, and seven of two rows of the second. -/
def eightChanges : WriteBuffer :=
  holding (.withBufferSize .default 4)
    [⟨0, "edges", [1], adding [5]⟩, ⟨1, "index", [1], adding [5, 6, 7, 8]⟩,
      ⟨1, "index", [2], adding [5, 6, 7]⟩]

theorem swapped_rows_batched :
    let batches := (eightChanges.arranged twoStores.nextOrder).batches
    (eightChanges.flush twoStores).1 = .ok () ∧ batches.length = 2 ∧
      ∃ (i : Nat) (batch : Batch), batches[i]? = some batch ∧
        ("index", [1], (adding [5, 6, 7, 8]).consolidate) ∈ batch.cells := by
  intro batches
  have success : (eightChanges.flush twoStores).1 = .ok () := rfl
  obtain ⟨-, -, -, each, -⟩ := held_rows_batched success
  obtain ⟨-, i, batch, there, inCells, -⟩ := each "index" [1] (adding [5, 6, 7, 8]) rfl
  exact ⟨success, rfl, i, batch, there, inCells⟩

/-- One change of a row of the first store, and two of a row of the second. -/
def threeChanges : List Write :=
  [⟨0, "edges", [1], adding [5]⟩, ⟨1, "index", [1], adding [5, 6]⟩]

/-- Some batch of the three changes is too heavy for a size taken at its word. -/
def Overfills (size : Nat) (o : TransactionOptions) : Prop :=
  ∃ batch ∈ (holding o threeChanges).batches,
    ¬ 2 * batch.weight (holding o threeChanges).changes ≤
      3 * size + 2 * (holding o threeChanges).largestRow

/-- A buffer that is asked for without any size, or left without one, writes three changes at
once, though no row has more than two. -/
theorem unsized_batch_overfills :
    Overfills 0 (TransactionOptions.default.withBufferSize 0) ∧
      Overfills 0 { TransactionOptions.default with bufferSize := 0 } := by
  constructor
  · unfold Overfills
    decide
  · unfold Overfills
    decide

end WriteBuffer

end PropertyGraph
