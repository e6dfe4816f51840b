/-
# Proofs.Batches -- what writing batches does to the rows of a backend

Rows are addressed by the name of their table and their key (`Backend.rowOf`).
Batches are written on behalf of mutations that are held back, `held name key` for
the row of a key: `Reached held b b'` says that `b'` is `b` with some of these
written, and nothing else.

* A failed batch may have reached any of its rows and is tried again whole, so a
  mutation may be applied twice.  That is harmless, since applying it again changes
  nothing; it is the reason why `Reached` is kept by every attempt
  (`Reached.mutateMany`) and by all batches together (`Reached.writeAll`).
* When writing succeeds, every row that the batches name was written.
-/
import PropertyGraph.Proofs.Rows
import PropertyGraph.Cache.Transaction

namespace PropertyGraph

set_option autoImplicit false

namespace Backend

/-- The names stand for tables of their own, and the tables are in order. -/
structure Sound (b : Backend) : Prop where
  named : ∀ name id, b.names.lookup name = some id → id < b.tables.length
  apart : ∀ name other id, b.names.lookup name = some id → b.names.lookup other = some id →
    name = other
  tables : ∀ t ∈ b.tables, t.Sound

/-- The row of a key in the table of a name. -/
def rowOf (b : Backend) (name : String) (key : Bytes) : List Entry :=
  match b.names.lookup name with
  | some id => (b.table id).row key
  | none => []

theorem rowOf_of_lookup {b : Backend} {name : String} {id : Nat}
    (known : b.names.lookup name = some id) (key : Bytes) :
    b.rowOf name key = (b.table id).row key := by
  simp [rowOf, known]

theorem Sound.table {b : Backend} (sound : b.Sound) (id : Nat) : (b.table id).Sound := by
  unfold Backend.table
  cases found : b.tables[id]? with
  | none => exact Table.sound_empty ""
  | some t => exact sound.tables t (List.mem_of_getElem? found)

theorem Sound.ascending {b : Backend} (sound : b.Sound) (name : String) (key : Bytes) :
    Sorted.Ascending Entry.column (b.rowOf name key) := by
  unfold rowOf
  split
  · exact (sound.table _).ascending key
  · exact .nil

/-- Applies a mutation to a row of the table at a place. -/
def writeTable (b : Backend) (id : Nat) (key : Bytes) (m : Mutation) : Backend :=
  { b with tables := b.tables.modify id fun t => t.mutate key m }

theorem mutateRow_of_lookup {b : Backend} {name : String} {id : Nat}
    (known : b.names.lookup name = some id) (key : Bytes) (m : Mutation) :
    b.mutateRow name key m = b.writeTable id key m := by
  simp [mutateRow, openTable, known, writeTable]

theorem table_writeTable {b : Backend} {id : Nat} (there : id < b.tables.length) (other : Nat)
    (key : Bytes) (m : Mutation) :
    (b.writeTable id key m).table other =
      if other = id then (b.table id).mutate key m else b.table other := by
  simp only [writeTable, Backend.table, List.getElem?_modify]
  by_cases same : id = other
  · subst same
    simp [there]
  · simp [same, Ne.symm same]

theorem sound_writeTable {b : Backend} (sound : b.Sound) (id : Nat) (key : Bytes)
    (m : Mutation) : (b.writeTable id key m).Sound := by
  refine ⟨?_, sound.apart, ?_⟩
  · intro name id known
    simpa [writeTable] using sound.named name id known
  · intro t member
    obtain ⟨place, found⟩ := List.getElem?_of_mem member
    simp only [writeTable, List.getElem?_modify, Option.map_eq_map, Option.map_eq_some_iff]
      at found
    obtain ⟨t', found', rfl⟩ := found
    have sound' := sound.tables t' (List.mem_of_getElem? found')
    split
    · exact Table.sound_mutate sound' key m
    · exact sound'

theorem sound_empty : empty.Sound := by
  refine ⟨?_, ?_, ?_⟩
  · intro name id known
    cases known
  · intro name other id known
    cases known
  · intro t member
    cases member

/-- A name that is not known gets a table of its own, at the next place. -/
theorem sound_openTable {b : Backend} (sound : b.Sound) (name : String) :
    (b.openTable name).2.Sound ∧
      (b.openTable name).2.names.lookup name = some (b.openTable name).1 ∧
      ∀ other id, b.names.lookup other = some id →
        (b.openTable name).2.names.lookup other = some id := by
  unfold openTable
  cases known : b.names.lookup name with
  | some id => exact ⟨sound, known, fun _ _ found => found⟩
  | none =>
      have lookup : ∀ other, ((name, b.tables.length) :: b.names).lookup other =
          if other = name then some b.tables.length else b.names.lookup other := by
        intro other
        rw [List.lookup_cons]
        by_cases same : other = name
        · simp [same]
        · have apart : (other == name) = false := by simpa using same
          simp [same, apart]
      have below : ∀ other id, b.names.lookup other = some id → id ≠ b.tables.length :=
        fun other id found => Nat.ne_of_lt (sound.named other id found)
      refine ⟨⟨?_, ?_, ?_⟩, ?_, ?_⟩
      · intro other id found
        rw [List.length_append, List.length_singleton]
        rw [lookup] at found
        split at found
        · obtain rfl := Option.some.inj found
          omega
        · have := sound.named other id found
          omega
      · intro other third id found found'
        rw [lookup] at found found'
        split at found
        · rename_i here
          obtain rfl := Option.some.inj found
          split at found'
          · rename_i here'
            rw [here, here']
          · exact absurd rfl (below third _ found')
        · split at found'
          · obtain rfl := Option.some.inj found'
            exact absurd rfl (below other _ found)
          · exact sound.apart other third id found found'
      · intro t member
        rcases List.mem_append.1 member with old | new
        · exact sound.tables t old
        · obtain rfl := List.mem_singleton.1 new
          exact Table.sound_empty name
      · rw [lookup, if_pos rfl]
      · intro other id found
        have apart : other ≠ name := by
          rintro rfl
          rw [known] at found
          cases found
        rw [lookup, if_neg apart]
        exact found

theorem sound_mutateRow {b : Backend} (sound : b.Sound) (name : String) (key : Bytes)
    (m : Mutation) : (b.mutateRow name key m).Sound :=
  sound_writeTable (sound_openTable sound name).1 (b.openTable name).1 key m

theorem rowOf_mutateRow {b : Backend} (sound : b.Sound) {name : String} {id : Nat}
    (known : b.names.lookup name = some id) (key : Bytes) (m : Mutation) (other : String)
    (k : Bytes) :
    (b.mutateRow name key m).rowOf other k =
      if other = name ∧ k = key then m.applyTo (b.rowOf name key) else b.rowOf other k := by
  rw [mutateRow_of_lookup known, rowOf_of_lookup known]
  have there := sound.named name id known
  unfold rowOf
  show (match b.names.lookup other with
    | some place => ((b.writeTable id key m).table place).row k
    | none => []) = _
  cases found : b.names.lookup other with
  | none =>
      have apart : other ≠ name := by
        rintro rfl
        rw [found] at known
        cases known
      simp [apart]
  | some place =>
      simp only [table_writeTable there]
      by_cases same : place = id
      · subst same
        obtain rfl := sound.apart other name place found known
        by_cases here : k = key
        · subst here
          simp [Table.row_mutate_self (sound.table place)]
        · simp [here, Table.row_mutate (sound.table place).ordered key k m here]
      · have apart : other ≠ name := by
          rintro rfl
          rw [found] at known
          exact same (Option.some.inj known)
        simp [same, apart]

end Backend

/-- A row mutation in a batch: the store, the key and what is to be done. -/
abbrev Cell := String × Bytes × Mutation

/-- The row mutations of a batch, in order. -/
def Batch.cells (batch : Batch) : List Cell :=
  batch.flatMap fun store => store.2.map fun row => (store.1, row.1, row.2)

namespace Backend

/-- `b'` is `b` with some of the held back mutations written. -/
structure Reached (held : String → Bytes → Option Mutation) (b b' : Backend) : Prop where
  sound : b'.Sound
  names : b'.names = b.names
  labels : b'.tables.map Table.name = b.tables.map Table.name
  rows : ∀ name key, b'.rowOf name key = b.rowOf name key ∨
    ∃ m, held name key = some m ∧ b'.rowOf name key = m.applyTo (b.rowOf name key)
  unnamed : ∀ id, (∀ name, b.names.lookup name ≠ some id) → b'.table id = b.table id

/-- The mutation held back for a row was written. -/
def Written (held : String → Bytes → Option Mutation) (b b' : Backend) (name : String)
    (key : Bytes) : Prop :=
  ∃ m, held name key = some m ∧ b'.rowOf name key = m.applyTo (b.rowOf name key)

section Writing

variable {held : String → Bytes → Option Mutation} {b b' : Backend}

theorem Reached.refl (sound : b.Sound) : Reached held b b :=
  ⟨sound, rfl, rfl, fun _ _ => .inl rfl, fun _ _ => rfl⟩

/-- Only the tables and their names matter. -/
theorem Reached.congr {b'' : Backend} (reached : Reached held b b')
    (tables : b''.tables = b'.tables) (names : b''.names = b'.names) : Reached held b b'' := by
  obtain ⟨sound, same, labels, rows, unnamed⟩ := reached
  refine ⟨⟨?_, ?_, ?_⟩, names.trans same, tables ▸ labels, ?_, ?_⟩
  · rw [names, tables]
    exact sound.named
  · rw [names]
    exact sound.apart
  · rw [tables]
    exact sound.tables
  · intro name key
    simpa only [rowOf, Backend.table, names, tables] using rows name key
  · intro id none
    simpa only [Backend.table, tables] using unnamed id none

/-- Writing a held back mutation, perhaps not for the first time. -/
theorem Reached.mutateRow (sound : b.Sound) (reached : Reached held b b') {name : String}
    {key : Bytes} {m : Mutation} (known : (b.names.lookup name).isSome = true)
    (holds : held name key = some m) :
    Reached held b (b'.mutateRow name key m) ∧
      Written held b (b'.mutateRow name key m) name key ∧
      ∀ other k, Written held b b' other k →
        Written held b (b'.mutateRow name key m) other k := by
  obtain ⟨id, lookup⟩ := Option.isSome_iff_exists.1 known
  have lookup' : b'.names.lookup name = some id := by rw [reached.names, lookup]
  have written : m.applyTo (b'.rowOf name key) = m.applyTo (b.rowOf name key) := by
    rcases reached.rows name key with same | ⟨m', holds', after⟩
    · rw [same]
    · rw [holds] at holds'
      obtain rfl := Option.some.inj holds'
      rw [after, Mutation.applyTo_applyTo (sound.ascending name key)]
  have row := Backend.rowOf_mutateRow reached.sound lookup' key m
  refine ⟨⟨?_, ?_, ?_, ?_, ?_⟩, ⟨m, holds, ?_⟩, fun other k ⟨m', holds', after⟩ => ⟨m', holds', ?_⟩⟩
  · rw [mutateRow_of_lookup lookup']
    exact sound_writeTable reached.sound id key m
  · rw [mutateRow_of_lookup lookup']
    exact reached.names
  · rw [mutateRow_of_lookup lookup', ← reached.labels]
    refine List.ext_getElem? ?_
    intro place
    simp only [writeTable, List.getElem?_map, List.getElem?_modify, Option.map_eq_map]
    cases b'.tables[place]? with
    | none => rfl
    | some t => by_cases here : id = place <;> simp [here, Table.name_mutate]
  · intro other k
    rw [row]
    by_cases here : other = name ∧ k = key
    · obtain ⟨rfl, rfl⟩ := here
      exact .inr ⟨m, holds, by simp [written]⟩
    · rw [if_neg here]
      exact reached.rows other k
  · intro place none
    have apart : place ≠ id := fun same => none name (same ▸ lookup)
    rw [mutateRow_of_lookup lookup', table_writeTable (reached.sound.named name id lookup'),
      if_neg apart]
    exact reached.unnamed place none
  · rw [row, if_pos ⟨rfl, rfl⟩, written]
  · rw [row]
    by_cases here : other = name ∧ k = key
    · obtain ⟨rfl, rfl⟩ := here
      rw [holds] at holds'
      obtain rfl := Option.some.inj holds'
      rw [if_pos ⟨rfl, rfl⟩, written]
    · rw [if_neg here, after]

/-- The cells are row mutations that are held back for known stores. -/
def Backed (held : String → Bytes → Option Mutation) (b : Backend) (cells : List Cell) : Prop :=
  ∀ cell ∈ cells, (b.names.lookup cell.1).isSome = true ∧ held cell.1 cell.2.1 = some cell.2.2

theorem applyBatch_eq_foldl (b : Backend) (batch : Batch) (reached : String → Bytes → Bool) :
    b.applyBatch batch reached =
      batch.cells.foldl
        (fun acc cell =>
          if reached cell.1 cell.2.1 then acc.mutateRow cell.1 cell.2.1 cell.2.2 else acc) b := by
  simp only [applyBatch, applyRows, Batch.cells, List.foldl_flatMap, List.foldl_map]

theorem Reached.applyBatch (sound : b.Sound) (reached : Reached held b b') {batch : Batch}
    (backed : Backed held b batch.cells) (picks : String → Bytes → Bool) :
    Reached held b (b'.applyBatch batch picks) ∧
      (∀ name key, Written held b b' name key →
        Written held b (b'.applyBatch batch picks) name key) ∧
      ((∀ name key, picks name key = true) → ∀ cell ∈ batch.cells,
        Written held b (b'.applyBatch batch picks) cell.1 cell.2.1) := by
  rw [applyBatch_eq_foldl]
  generalize batch.cells = cells at backed
  induction cells generalizing b' with
  | nil => exact ⟨reached, fun _ _ written => written, fun _ _ member => by cases member⟩
  | cons cell rest ih =>
      have backedRest : Backed held b rest := fun c member =>
        backed c (List.mem_cons_of_mem _ member)
      obtain ⟨known, holds⟩ := backed cell List.mem_cons_self
      rw [List.foldl_cons]
      by_cases picked : picks cell.1 cell.2.1 = true
      · rw [if_pos picked]
        obtain ⟨next, here, kept⟩ := reached.mutateRow sound known holds
        obtain ⟨after, later, all⟩ := ih next backedRest
        refine ⟨after, fun name key written => later _ _ (kept _ _ written), ?_⟩
        intro every c member
        rcases List.mem_cons.1 member with rfl | inRest
        · exact later _ _ here
        · exact all every c inRest
      · rw [if_neg picked]
        obtain ⟨after, later, _⟩ := ih reached backedRest
        exact ⟨after, later, fun every => absurd (every _ _) picked⟩

/-- One attempt: it may reach some rows when it fails, and reaches all when it
succeeds. -/
theorem Reached.mutateMany (sound : b.Sound) (reached : Reached held b b') {batch : Batch}
    (backed : Backed held b batch.cells) :
    Reached held b (b'.mutateMany batch).2 ∧
      (∀ name key, Written held b b' name key →
        Written held b (b'.mutateMany batch).2 name key) ∧
      ((b'.mutateMany batch).1 = .ok () → ∀ cell ∈ batch.cells,
        Written held b (b'.mutateMany batch).2 cell.1 cell.2.1) := by
  unfold Backend.mutateMany
  split
  · rename_i kind reason picks rest planned
    have next : Reached held b
        { b' with
          outcomes := b'.outcomes.tail
          journal := b'.journal ++ [⟨shapeOf batch, some kind⟩] } := reached.congr rfl rfl
    obtain ⟨after, kept, _⟩ := next.applyBatch sound backed picks
    exact ⟨after, kept, fun ok => by cases ok⟩
  · have next : Reached held b
        { b' with
          outcomes := b'.outcomes.tail
          journal := b'.journal ++ [⟨shapeOf batch, none⟩] } := reached.congr rfl rfl
    obtain ⟨after, kept, all⟩ := next.applyBatch sound backed fun _ _ => true
    exact ⟨after, kept, fun _ => all fun _ _ => rfl⟩

end Writing

end Backend

/-- What a retried call comes to is what its last attempt came to. -/
theorem retry_eq_call {σ α : Type} (call : σ → Outcome α × σ) (attempts : Nat)
    (kept : σ → Prop) (keeps : ∀ s, kept s → kept (call s).2) {s : σ} (start : kept s) :
    ∃ last, kept last ∧ retry attempts call s = call last := by
  unfold retry
  generalize attempts - 1 = more
  induction more generalizing s with
  | zero => exact ⟨s, start, rfl⟩
  | succ more ih =>
      simp only [retryMore]
      by_cases again : isIndecisive (call s).1 = true
      · rw [if_pos again]
        exact ih (keeps s start)
      · rw [if_neg again]
        exact ⟨s, start, rfl⟩

namespace Backend

/-- Writing batches in turn, each with some attempts. -/
theorem Reached.writeAll {held : String → Bytes → Option Mutation} {b b' : Backend}
    (sound : b.Sound) (reached : Reached held b b') (attempts : Nat) {batches : List Batch}
    (backed : ∀ batch ∈ batches, Backed held b batch.cells) :
    Reached held b (WriteBuffer.writeAll attempts batches b').2 ∧
      (∀ name key, Written held b b' name key →
        Written held b (WriteBuffer.writeAll attempts batches b').2 name key) ∧
      ((WriteBuffer.writeAll attempts batches b').1 = .ok () → ∀ batch ∈ batches,
        ∀ cell ∈ batch.cells,
          Written held b (WriteBuffer.writeAll attempts batches b').2 cell.1 cell.2.1) := by
  induction batches generalizing b' with
  | nil => exact ⟨reached, fun _ _ written => written, fun _ _ member => by cases member⟩
  | cons batch rest ih =>
      have backedRest : ∀ batch ∈ rest, Backed held b batch.cells := fun batch member =>
        backed batch (List.mem_cons_of_mem _ member)
      have here := backed batch List.mem_cons_self
      -- Every attempt keeps what earlier batches and attempts have written.
      obtain ⟨last, ⟨reachedLast, keptLast⟩, same⟩ := retry_eq_call (Backend.mutateMany batch)
        attempts
        (fun s => Reached held b s ∧
          ∀ name key, Written held b b' name key → Written held b s name key)
        (fun s kept =>
          have next := kept.1.mutateMany sound here
          ⟨next.1, fun name key written => next.2.1 _ _ (kept.2 _ _ written)⟩)
        ⟨reached, fun _ _ written => written⟩
      obtain ⟨after, kept, all⟩ := reachedLast.mutateMany sound here
      simp only [WriteBuffer.writeAll, same]
      rcases outcome : Backend.mutateMany batch last with ⟨_ | _, next⟩
      · rw [outcome] at after kept
        exact ⟨after, fun name key written => kept _ _ (keptLast _ _ written),
          fun ok => by cases ok⟩
      · rw [outcome] at after kept all
        obtain ⟨done, later, others⟩ := ih after backedRest
        refine ⟨done, fun name key written => later _ _ (kept _ _ (keptLast _ _ written)), ?_⟩
        intro ok other member cell inCells
        rcases List.mem_cons.1 member with rfl | inRest
        · exact later _ _ (all rfl cell inCells)
        · exact others ok other inRest cell inCells

end Backend

end PropertyGraph
