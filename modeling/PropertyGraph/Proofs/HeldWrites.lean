/-
# Proofs.HeldWrites -- what a write buffer holds, and what a flush makes of it

A buffer that is not empty was filled by writes since it was last empty:
`WriteBuffer.holding` is the buffer that a list of writes fills.

* The mutation that it holds for a row acts like the writes to that row one after
  the other, in the order they were issued (`applied_holding`).
* Its counter is zero only if the writes change nothing (`count_holding`).
* The rows of a store have no order of their own: arranged anew, a buffer holds the
  same mutation for each (`row?_arranged`).
* The batches of a flush hold every row that changes something, consolidated and
  once, and no other (`cells_batches`), however rows and stores are cut into
  batches.
-/
import Mathlib.Data.List.Induction
import PropertyGraph.Proofs.Batches
import PropertyGraph.Proofs.Lookups

namespace PropertyGraph

set_option autoImplicit false

/-- A mutation of a row as it is issued, through a cache in front of a store. -/
structure Write where
  cache : Nat
  name : String
  key : Bytes
  mutation : Mutation
  deriving DecidableEq

namespace Write

/-- The write goes to the row. -/
def reaches (w : Write) (name : String) (key : Bytes) : Bool := w.name == name && w.key == key

/-- A row after writes in the order they were issued. -/
def replay (writes : List Write) (name : String) (key : Bytes) (row : List Entry) : List Entry :=
  writes.foldl (fun row w => if w.reaches name key then w.mutation.applyTo row else row) row

theorem replay_concat (writes : List Write) (w : Write) (name : String) (key : Bytes)
    (row : List Entry) :
    replay (writes ++ [w]) name key row =
      if w.reaches name key then w.mutation.applyTo (replay writes name key row)
      else replay writes name key row := by
  simp [replay]

/-- Writes that go elsewhere leave the row as it is. -/
theorem replay_of_misses {writes : List Write} {name : String} {key : Bytes}
    (misses : ∀ w ∈ writes, w.reaches name key = false) (row : List Entry) :
    replay writes name key row = row := by
  induction writes with
  | nil => rfl
  | cons w rest ih =>
      have here := misses w List.mem_cons_self
      rw [replay, List.foldl_cons, here]
      exact ih fun w later => misses w (List.mem_cons_of_mem _ later)

end Write

namespace WriteBuffer

/-- The mutation of a row that is held back, the empty one included. -/
def row? (b : WriteBuffer) (name : String) (key : Bytes) : Option Mutation :=
  (b.store? name).bind fun p => p.rows.lookup key

theorem pending_eq (b : WriteBuffer) (name : String) (key : Bytes) :
    b.pending name key = (b.row? name key).filter fun m => !m.isEmpty := rfl

theorem lookup_mergeRow (key k : Bytes) (m : Mutation) (rows : List (Bytes × Mutation)) :
    (mergeRow key m rows).lookup k =
      if k = key then
        some (match rows.lookup key with
          | some earlier => earlier.merge m
          | none => m)
      else rows.lookup k := by
  induction rows with
  | nil => simp [mergeRow, lookup_cons_eq_ite]
  | cons row rest ih =>
      obtain ⟨other, earlier⟩ := row
      simp only [mergeRow]
      by_cases here : other = key
      · subst here
        by_cases same : k = other <;> simp [lookup_cons_eq_ite, same]
      · have apart : key ≠ other := fun eq => here eq.symm
        simp only [if_neg here, lookup_cons_eq_ite, ih, if_neg apart]
        by_cases same : k = other
        · subst same
          simp [here]
        · simp [same]

theorem store?_hold (b : WriteBuffer) (cache : Nat) (name other : String) (key : Bytes)
    (m : Mutation) :
    (b.hold cache name key m).store? other =
      if other = name then
        some { (b.store? name).getD ⟨cache, []⟩ with
          rows := mergeRow key m ((b.store? name).getD ⟨cache, []⟩).rows }
      else b.store? other := by
  have same : compare other name = .eq ↔ other = name :=
    ⟨Std.LawfulEqOrd.eq_of_compare, fun h => h ▸ Std.ReflOrd.compare_self⟩
  simp only [hold, store?, Sorted.find?_insert, same]
  by_cases here : other = name <;> simp [here]

theorem row?_hold (b : WriteBuffer) (cache : Nat) (name other : String) (key k : Bytes)
    (m : Mutation) :
    (b.hold cache name key m).row? other k =
      if other = name ∧ k = key then
        some (match b.row? name key with
          | some earlier => earlier.merge m
          | none => m)
      else b.row? other k := by
  simp only [row?, store?_hold]
  by_cases store : other = name
  · subst store
    rw [if_pos rfl, Option.bind_some, lookup_mergeRow]
    cases held : b.store? other with
    | none => by_cases here : k = key <;> simp [here]
    | some p => by_cases here : k = key <;> simp [here]
  · simp [store]

/-- Takes a write in; one that changes nothing is not held back. -/
def accept (b : WriteBuffer) (w : Write) : WriteBuffer :=
  if w.mutation.total = 0 then b else b.hold w.cache w.name w.key w.mutation

/-- The buffer that writes fill in the order they are issued. -/
def holding (o : TransactionOptions) (writes : List Write) : WriteBuffer :=
  writes.foldl accept (new o)

theorem holding_concat (o : TransactionOptions) (writes : List Write) (w : Write) :
    holding o (writes ++ [w]) = (holding o writes).accept w := by
  simp [holding]

theorem options_holding (o : TransactionOptions) (writes : List Write) :
    (holding o writes).options = o := by
  induction writes using List.reverseRecOn with
  | nil => rfl
  | append_singleton writes w ih =>
      rw [holding_concat, accept]
      split <;> simp [ih, hold]

theorem count_holding (o : TransactionOptions) (writes : List Write) :
    (holding o writes).count = sumOf (fun w => w.mutation.total) writes := by
  induction writes using List.reverseRecOn with
  | nil => rfl
  | append_singleton writes w ih =>
      rw [holding_concat, sumOf_append, accept]
      split
      · rename_i nothing
        simp [ih, sumOf, nothing]
      · simp [ih, sumOf, hold]

/-- What was never counted was never held back. -/
theorem holding_of_count {o : TransactionOptions} {writes : List Write}
    (none : (holding o writes).count = 0) : holding o writes = new o := by
  induction writes using List.reverseRecOn with
  | nil => rfl
  | append_singleton writes w ih =>
      rw [holding_concat] at none ⊢
      unfold accept at none ⊢
      split
      · rename_i nothing
        rw [if_pos nothing] at none
        exact ih none
      · rename_i something
        rw [if_neg something] at none
        simp only [hold] at none
        omega

/-- The held back mutation of a row acts like its writes in turn. -/
theorem applied_holding (o : TransactionOptions) (writes : List Write) (name : String)
    (key : Bytes) {row : List Entry} (ascending : Sorted.Ascending Entry.column row) :
    (match (holding o writes).row? name key with
      | some m => m.applyTo row
      | none => row) = Write.replay writes name key row := by
  induction writes using List.reverseRecOn with
  | nil => rfl
  | append_singleton writes w ih =>
      rw [holding_concat, Write.replay_concat, ← ih, accept]
      by_cases nothing : w.mutation.total = 0
      · rw [if_pos nothing,
          Mutation.applyTo_of_isEmpty ((Mutation.total_eq_zero_iff w.mutation).1 nothing)]
        simp
      · rw [if_neg nothing, row?_hold]
        by_cases here : name = w.name ∧ key = w.key
        · obtain ⟨rfl, rfl⟩ := here
          simp only [Write.reaches, and_self, if_true, BEq.rfl, Bool.and_self]
          cases held : (holding o writes).row? w.name w.key with
          | none => rfl
          | some earlier => exact Mutation.applyTo_merge ascending earlier w.mutation
        · have misses : w.reaches name key = false := by
            rw [Bool.eq_false_iff]
            intro reaches
            simp only [Write.reaches, Bool.and_eq_true, beq_iff_eq] at reaches
            exact here ⟨reaches.1.symm, reaches.2.symm⟩
          simp [here, misses]

/-- Stores are held once each, and so are the rows of a store. -/
structure Sound (b : WriteBuffer) : Prop where
  stores : Sorted.Ascending Prod.fst b.stores
  rows : ∀ store ∈ b.stores, (store.2.rows.map Prod.fst).Nodup

theorem keys_mergeRow (key : Bytes) (m : Mutation) (rows : List (Bytes × Mutation)) :
    (mergeRow key m rows).map Prod.fst =
      if key ∈ rows.map Prod.fst then rows.map Prod.fst else rows.map Prod.fst ++ [key] := by
  induction rows with
  | nil => rfl
  | cons row rest ih =>
      obtain ⟨other, earlier⟩ := row
      simp only [mergeRow]
      by_cases here : other = key
      · simp [here]
      · have apart : key ≠ other := fun eq => here eq.symm
        by_cases later : key ∈ rest.map Prod.fst <;> simp_all

theorem nodup_mergeRow {key : Bytes} {m : Mutation} {rows : List (Bytes × Mutation)}
    (nodup : (rows.map Prod.fst).Nodup) : ((mergeRow key m rows).map Prod.fst).Nodup := by
  rw [keys_mergeRow]
  split
  · exact nodup
  · rename_i absent
    exact List.nodup_append.2 ⟨nodup, by simp, fun a inRows b isKey => by
      rw [List.mem_singleton] at isKey
      exact fun eq => absent (isKey ▸ eq ▸ inRows)⟩

theorem store?_of_mem {b : WriteBuffer} (sound : b.Sound) {name : String} {p : PendingStore}
    (member : (name, p) ∈ b.stores) : b.store? name = some p := by
  rw [store?, Sorted.find?_of_mem sound.stores member Std.ReflOrd.compare_self]
  rfl

theorem mem_of_store? {b : WriteBuffer} {name : String} {p : PendingStore}
    (held : b.store? name = some p) : (name, p) ∈ b.stores := by
  obtain ⟨⟨name', p'⟩, found, rfl⟩ := Option.map_eq_some_iff.1 held
  obtain ⟨member, same⟩ := Sorted.mem_of_find? found
  obtain rfl := Std.LawfulEqOrd.eq_of_compare same
  exact member

theorem sound_holding (o : TransactionOptions) (writes : List Write) :
    (holding o writes).Sound := by
  induction writes using List.reverseRecOn with
  | nil => exact ⟨.nil, fun _ member => by cases member⟩
  | append_singleton writes w ih =>
      rw [holding_concat, accept]
      split
      · exact ih
      · refine ⟨ih.stores.insert _, ?_⟩
        intro store member
        rcases Sorted.mem_insert member with rfl | old
        · apply nodup_mergeRow
          cases held : (holding o writes).store? w.name with
          | none => exact List.nodup_nil
          | some p => exact ih.rows _ (mem_of_store? held)
        · exact ih.rows store old

/-! ## Rows in any order -/

end WriteBuffer

/-- The rows that were written to last come first. -/
def RowOrder.reversed : RowOrder := ⟨fun _ rows => rows.reverse, fun _ rows => rows.reverse_perm⟩

namespace WriteBuffer

section Arranged

variable {b : WriteBuffer} {order : RowOrder}

theorem mem_stores_arranged {store : String × PendingStore}
    (member : store ∈ (b.arranged order).stores) :
    ∃ held ∈ b.stores, store.1 = held.1 ∧ store.2.cache = held.2.cache ∧
      store.2.rows.Perm held.2.rows := by
  obtain ⟨held, inStores, rfl⟩ := List.mem_map.1 member
  exact ⟨held, inStores, rfl, rfl, order.perm held.1 held.2.rows⟩

theorem Sound.arranged (sound : b.Sound) (order : RowOrder) : (b.arranged order).Sound := by
  refine ⟨List.pairwise_map.2 sound.stores, ?_⟩
  intro store member
  obtain ⟨held, inStores, -, -, rows⟩ := mem_stores_arranged member
  exact (rows.map Prod.fst).nodup_iff.2 (sound.rows held inStores)

theorem store?_arranged (b : WriteBuffer) (order : RowOrder) (name : String) :
    (b.arranged order).store? name =
      (b.store? name).map fun p => { p with rows := order.arrange name p.rows } := by
  simp only [store?, WriteBuffer.arranged]
  induction b.stores with
  | nil => rfl
  | cons store rest ih =>
      simp only [List.map_cons, Sorted.find?]
      by_cases here : compare name store.1 = .eq
      · obtain rfl := Std.LawfulEqOrd.eq_of_compare here
        simp only [here, if_true, Option.map_some]
      · simpa only [here, if_false] using ih

/-- Whatever the order of the rows, the same mutation is held back for each. -/
theorem row?_arranged (sound : b.Sound) (order : RowOrder) (name : String) (key : Bytes) :
    (b.arranged order).row? name key = b.row? name key := by
  simp only [row?, store?_arranged]
  cases held : b.store? name with
  | none => rfl
  | some p =>
      exact lookup_eq_of_perm (order.perm name p.rows) (sound.rows _ (mem_of_store? held)) key

end Arranged

/-! ## The batches of a flush -/

/-- A held back row as a batch has it: consolidated, and not at all if it changes
nothing. -/
def cellOf (name : String) (row : Bytes × Mutation) : List Cell :=
  if row.2.consolidate.isEmpty then [] else [(name, row.1, row.2.consolidate)]

/-- All held back rows as batches have them. -/
def cells (b : WriteBuffer) : List Cell :=
  b.stores.flatMap fun store => store.2.rows.flatMap (cellOf store.1)

namespace Chunking

/-- The rows in the batches so far. -/
def cells (c : Chunking) : List Cell := c.done.flatMap Batch.cells ++ c.current.cells

theorem cells_cut (c : Chunking) : c.cut.cells = c.cells := by
  simp [cells, cut, Batch.cells]

theorem cells_addRow (name : String) (row : Bytes × Mutation) (batch : Batch) :
    (addRow name row batch).cells.Perm (batch.cells ++ [(name, row.1, row.2)]) := by
  induction batch with
  | nil => exact .refl _
  | cons store rest ih =>
      obtain ⟨other, rows⟩ := store
      simp only [addRow]
      split
      · rename_i same
        subst same
        simp only [Batch.cells, List.flatMap_cons, List.map_append, List.append_assoc]
        exact .append_left _ List.perm_append_comm
      · simp only [Batch.cells, List.flatMap_cons, List.append_assoc]
        exact .append_left _ ih

theorem cells_add (c : Chunking) (name : String) (row : Bytes × Mutation) :
    (c.add name row).cells.Perm (c.cells ++ cellOf name row) := by
  simp only [add, cellOf]
  split
  · simp
  · simp only [cells, List.append_assoc]
    exact .append_left _ (cells_addRow name _ c.current)

/-- Rows taken in one by one, with the batch cut wherever it may be. -/
theorem cells_foldl (name : String) {next : Chunking → Bytes × Mutation → Chunking}
    (takes : ∀ c row, (next c row).cells.Perm (c.cells ++ cellOf name row))
    (rows : List (Bytes × Mutation)) (c : Chunking) :
    (rows.foldl next c).cells.Perm (c.cells ++ rows.flatMap (cellOf name)) := by
  induction rows generalizing c with
  | nil => simp
  | cons row rest ih =>
      rw [List.foldl_cons, List.flatMap_cons, ← List.append_assoc]
      exact (ih (next c row)).trans (.append_right _ (takes c row))

theorem cellOf_of_total {row : Bytes × Mutation} (nothing : row.2.total = 0) (name : String) :
    cellOf name row = [] := by
  rw [cellOf, if_pos]
  rw [Mutation.isEmpty_consolidate]
  exact (Mutation.total_eq_zero_iff row.2).1 nothing

theorem cells_addStore (size : Nat) (c : Chunking) (store : String × PendingStore) :
    (addStore size c store).cells.Perm
      (c.cells ++ store.2.rows.flatMap (cellOf store.1)) := by
  simp only [addStore]
  split
  · rename_i nothing
    have empty : store.2.rows.flatMap (cellOf store.1) = [] := by
      rw [List.flatMap_eq_nil_iff]
      intro row member
      have part : row.2.total ≤ sumOf (fun row => row.2.total) store.2.rows :=
        le_sumOf_of_mem (fun row : Bytes × Mutation => row.2.total) member
      exact cellOf_of_total (by omega) store.1
    simp [empty]
  · split
    · refine (cells_foldl store.1 (fun c row => cells_add c store.1 row) _ _).trans ?_
      split
      · rw [cells_cut]
      · exact .refl _
    · refine cells_foldl store.1 ?_ _ _
      intro c row
      by_cases nothing : row.2.consolidate.isEmpty = true
      · simp [nothing, cellOf]
      · simp only [nothing, if_false, Bool.false_eq_true]
        split
        · rw [cells_cut]
          exact cells_add c store.1 row
        · exact cells_add c store.1 row

/-- A batch in the making that is counted as empty is empty. -/
def Counted (c : Chunking) : Prop := c.count = 0 → c.current = []

theorem Counted.add {c : Chunking} (counted : Counted c) (name : String)
    (row : Bytes × Mutation) : Counted (c.add name row) := by
  simp only [Chunking.add]
  split
  · exact counted
  · rename_i something
    intro none
    have nothing : row.2.total = 0 := by
      simp only at none
      omega
    rw [Mutation.isEmpty_consolidate, (Mutation.total_eq_zero_iff row.2).1 nothing] at something
    exact absurd rfl something

theorem Counted.cut (c : Chunking) : Counted c.cut := fun _ => rfl

theorem Counted.foldl {next : Chunking → Bytes × Mutation → Chunking}
    (keeps : ∀ c row, Counted c → Counted (next c row)) (rows : List (Bytes × Mutation))
    {c : Chunking} (counted : Counted c) : Counted (rows.foldl next c) := by
  induction rows generalizing c with
  | nil => exact counted
  | cons row rest ih => exact ih (keeps c row counted)

theorem Counted.addStore {c : Chunking} (counted : Counted c) (size : Nat)
    (store : String × PendingStore) : Counted (addStore size c store) := by
  simp only [Chunking.addStore]
  split
  · exact counted
  · split
    · apply Counted.foldl (fun c row counted => counted.add store.1 row) _
      split
      · exact .cut c
      · exact counted
    · refine Counted.foldl ?_ _ counted
      intro c row counted
      by_cases nothing : row.2.consolidate.isEmpty = true
      · simpa [nothing] using counted
      · simp only [nothing, if_false, Bool.false_eq_true]
        split
        · exact .cut _
        · exact counted.add store.1 row

theorem cells_finish {c : Chunking} (counted : Counted c) :
    c.finish.flatMap Batch.cells = c.cells := by
  unfold finish
  split
  · simp [cells, Chunking.cut, Batch.cells]
  · rename_i none
    have empty := counted (by omega)
    simp [cells, empty, Batch.cells]

end Chunking

/-- The batches of a flush hold the held back rows, and each once. -/
theorem cells_batches (b : WriteBuffer) : (b.batches.flatMap Batch.cells).Perm b.cells := by
  let size := max b.options.bufferSize 1
  have gathered : ∀ (stores : List (String × PendingStore)) (c : Chunking), c.Counted →
      (stores.foldl (Chunking.addStore size) c).Counted ∧
        (stores.foldl (Chunking.addStore size) c).cells.Perm
          (c.cells ++ stores.flatMap fun store => store.2.rows.flatMap (cellOf store.1)) := by
    intro stores
    induction stores with
    | nil => exact fun c counted => ⟨counted, by simp⟩
    | cons store rest ih =>
        intro c counted
        obtain ⟨counted', perm⟩ := ih _ (counted.addStore size store)
        refine ⟨counted', perm.trans ?_⟩
        rw [List.flatMap_cons, ← List.append_assoc]
        exact .append_right _ (Chunking.cells_addStore size c store)
  obtain ⟨counted, perm⟩ := gathered b.stores Chunking.start fun _ => rfl
  rw [batches, Chunking.cells_finish counted]
  simpa [Chunking.cells, Chunking.start, Batch.cells, cells] using perm

/-- What a flush writes to a row. -/
def toWrite (b : WriteBuffer) (name : String) (key : Bytes) : Option Mutation :=
  ((b.row? name key).map Mutation.consolidate).filter fun m => !m.isEmpty

theorem toWrite_arranged {b : WriteBuffer} (sound : b.Sound) (order : RowOrder) :
    (b.arranged order).toWrite = b.toWrite := by
  funext name key
  rw [toWrite, toWrite, row?_arranged sound]

theorem mem_cells_iff {b : WriteBuffer} (sound : b.Sound) (name : String) (key : Bytes)
    (m : Mutation) : (name, key, m) ∈ b.cells ↔ b.toWrite name key = some m := by
  have inStore : ∀ store : String × PendingStore,
      (name, key, m) ∈ store.2.rows.flatMap (cellOf store.1) ↔
        name = store.1 ∧ ∃ m', (key, m') ∈ store.2.rows ∧ m'.consolidate = m ∧
          m.isEmpty = false := by
    intro store
    simp only [List.mem_flatMap, cellOf]
    constructor
    · rintro ⟨⟨k, m'⟩, member, here⟩
      split at here
      · cases here
      · rename_i something
        simp only [List.mem_singleton, Prod.mk.injEq] at here
        obtain ⟨rfl, rfl, rfl⟩ := here
        exact ⟨rfl, m', member, rfl, by simpa using something⟩
    · rintro ⟨rfl, m', member, rfl, something⟩
      exact ⟨(key, m'), member, by simp [something]⟩
  constructor
  · intro member
    obtain ⟨⟨name', p⟩, inStores, here⟩ := List.mem_flatMap.1 member
    obtain ⟨rfl, m', inRows, rfl, something⟩ := (inStore _).1 here
    have row : b.row? name key = some m' := by
      rw [row?, store?_of_mem sound inStores, Option.bind_some]
      exact lookup_of_mem (sound.rows _ inStores) inRows
    simp [toWrite, row, Option.filter, something]
  · intro held
    obtain ⟨mapped, something⟩ := Option.filter_eq_some_iff.1 held
    obtain ⟨m', row, rfl⟩ := Option.map_eq_some_iff.1 mapped
    obtain ⟨p, store, inRows⟩ := Option.bind_eq_some_iff.1 row
    refine List.mem_flatMap.2 ⟨(name, p), mem_of_store? store, (inStore _).2 ⟨rfl, m', ?_, rfl, ?_⟩⟩
    · exact mem_of_lookup inRows
    · simpa using something

end WriteBuffer

end PropertyGraph
