/-
# Proofs.Flushing -- what a flush does to a storage

A flush goes through what the buffer holds in some order (`RowOrder`), writes it and
then makes every held row bypass its cache.  Seen from outside, and whatever that order:

* rows that are not held stay as they are, and after a flush that succeeds each row
  is what replaying the held writes makes of it (`Flushed.rows`, `Flushed.done`);
* the caches change only by invalidations, one for each held row of theirs
  (`caches_invalidateHeld`), and each held row is among them (`mem_heldKeys`).
-/
import PropertyGraph.Proofs.HeldWrites

namespace PropertyGraph

set_option autoImplicit false

namespace Storage

/-- The tables are in order and each cache stands in front of the table of its name. -/
structure Sound (s : Storage) : Prop where
  backend : s.backend.Sound
  linked : ∀ c ∈ s.caches, s.backend.names.lookup c.name = some c.table

/-- No two caches stand in front of one store. -/
def OneEach (s : Storage) : Prop :=
  ∀ (i j : Nat) (c d : StoreCache), s.caches[i]? = some c → s.caches[j]? = some d →
    c.name = d.name → i = j

theorem getElem?_onCache (s : Storage) (i j : Nat) (f : StoreCache → StoreCache) :
    (s.onCache i f).caches[j]? = if i = j then s.caches[j]?.map f else s.caches[j]? := by
  simp only [onCache, List.getElem?_modify, Option.map_eq_map]
  cases s.caches[j]? with
  | none => simp
  | some c => by_cases here : i = j <;> simp [here]

end Storage

/-- The write went through a cache of the storage, to the store of that cache. -/
def Write.Through (w : Write) (s : Storage) : Prop :=
  ∃ c, s.caches[w.cache]? = some c ∧ c.name = w.name

namespace WriteBuffer

/-- Each held store is the store of the cache that is noted for it. -/
def Fits (b : WriteBuffer) (s : Storage) : Prop :=
  ∀ store ∈ b.stores, ∃ c, s.caches[store.2.cache]? = some c ∧ c.name = store.1

theorem fits_holding {s : Storage} {writes : List Write} (through : ∀ w ∈ writes, w.Through s)
    (o : TransactionOptions) : (holding o writes).Fits s := by
  induction writes using List.reverseRecOn with
  | nil => exact fun _ member => by cases member
  | append_singleton writes w ih =>
      have before := ih fun w member => through w (List.mem_append_left _ member)
      rw [holding_concat, accept]
      split
      · exact before
      · intro store member
        rcases Sorted.mem_insert member with rfl | old
        · cases held : (holding o writes).store? w.name with
          | none => exact through w (by simp)
          | some p => exact before (w.name, p) (mem_of_store? held)
        · exact before store old

theorem Fits.arranged {b : WriteBuffer} {s : Storage} (fits : b.Fits s) (order : RowOrder) :
    (b.arranged order).Fits s := by
  intro store member
  obtain ⟨held, inStores, name, cache, -⟩ := mem_stores_arranged member
  rw [name, cache]
  exact fits held inStores

/-- The keys of a cache whose rows are held. -/
def heldKeys (b : WriteBuffer) (i : Nat) : List Bytes :=
  (b.heldRows.filter fun row => row.1 == i).map Prod.snd

theorem caches_invalidateHeld (b : WriteBuffer) (s : Storage) (i : Nat) :
    (b.invalidateHeld s).caches[i]? =
      s.caches[i]?.map fun c => (b.heldKeys i).foldl StoreCache.invalidate c := by
  suffices ∀ (rows : List (Nat × Bytes)) (s : Storage),
      (rows.foldl (fun s row => s.onCache row.1 fun c => c.invalidate row.2) s).caches[i]? =
        s.caches[i]?.map fun c =>
          ((rows.filter fun row => row.1 == i).map Prod.snd).foldl StoreCache.invalidate c from
    this b.heldRows s
  intro rows
  induction rows with
  | nil => exact fun s => Option.map_id'.symm
  | cons row rest ih =>
      intro s
      rw [List.foldl_cons, ih, Storage.getElem?_onCache]
      by_cases here : row.1 = i
      · simp [here, Option.map_map, Function.comp_def]
      · simp [here]

theorem backend_invalidateHeld (b : WriteBuffer) (s : Storage) :
    (b.invalidateHeld s).backend = s.backend := by
  unfold invalidateHeld
  generalize b.heldRows = rows
  induction rows generalizing s with
  | nil => rfl
  | cons row rest ih => exact ih (s.onCache row.1 fun c => c.invalidate row.2)

theorem orders_invalidateHeld (b : WriteBuffer) (s : Storage) :
    (b.invalidateHeld s).orders = s.orders := by
  unfold invalidateHeld
  generalize b.heldRows = rows
  induction rows generalizing s with
  | nil => rfl
  | cons row rest ih => exact ih (s.onCache row.1 fun c => c.invalidate row.2)

/-- A held row is among the keys of the only cache of its store. -/
theorem mem_heldKeys {b : WriteBuffer} {s : Storage} (fits : b.Fits s) (oneEach : s.OneEach)
    {i : Nat} {c : StoreCache} (there : s.caches[i]? = some c) {key : Bytes}
    (held : (b.row? c.name key).isSome = true) : key ∈ b.heldKeys i := by
  obtain ⟨m, row⟩ := Option.isSome_iff_exists.1 held
  obtain ⟨p, store, inRows⟩ := Option.bind_eq_some_iff.1 row
  have member := mem_of_store? store
  obtain ⟨d, place, name⟩ := fits _ member
  have same : p.cache = i := oneEach p.cache i d c place there name
  refine List.mem_map.2 ⟨(p.cache, key), List.mem_filter.2 ⟨?_, by simp [same]⟩, rfl⟩
  exact List.mem_flatMap.2 ⟨_, member, List.mem_map.2 ⟨(key, m), mem_of_lookup inRows, rfl⟩⟩

/-- What a flush that wrote something, perhaps not everything, made of a backend. -/
structure Flushed (b : WriteBuffer) (writes : List Write) (before after : Backend)
    (outcome : Outcome Unit) : Prop where
  sound : after.Sound
  names : after.names = before.names
  labels : after.tables.map Table.name = before.tables.map Table.name
  unnamed : ∀ id, (∀ name, before.names.lookup name ≠ some id) → after.table id = before.table id
  /-- A row is as it was, or was replaced by what the held writes make of it. -/
  rows : ∀ name key, after.rowOf name key = before.rowOf name key ∨
    (b.row? name key).isSome = true ∧
      after.rowOf name key = Write.replay writes name key (before.rowOf name key)
  done : outcome = .ok () → ∀ name key,
    after.rowOf name key = Write.replay writes name key (before.rowOf name key)

/-- Nothing held, nothing done. -/
theorem Flushed.refl {b : Backend} (sound : b.Sound) (o : TransactionOptions)
    {writes : List Write} (nothing : (holding o writes).count = 0) :
    Flushed (holding o writes) writes b b (.ok ()) := by
  refine ⟨sound, rfl, rfl, fun _ _ => rfl, fun _ _ => .inl rfl, ?_⟩
  intro _ name key
  rw [← applied_holding o writes name key (sound.ascending name key), holding_of_count nothing]
  rfl

theorem backed_batches {b : WriteBuffer} (sound : b.Sound) {s : Storage} (ordered : s.Sound)
    (fits : b.Fits s) :
    ∀ batch ∈ b.batches, Backend.Backed b.toWrite s.backend batch.cells := by
  intro batch inBatches cell inCells
  have member : cell ∈ b.cells :=
    (cells_batches b).mem_iff.1 (List.mem_flatMap.2 ⟨batch, inBatches, inCells⟩)
  obtain ⟨name, key, m⟩ := cell
  refine ⟨?_, (mem_cells_iff sound name key m).1 member⟩
  obtain ⟨store, inStores, here⟩ := List.mem_flatMap.1 member
  obtain ⟨row, _, inRow⟩ := List.mem_flatMap.1 here
  have same : name = store.1 := by
    simp only [cellOf] at inRow
    split at inRow
    · cases inRow
    · exact (Prod.mk.inj (List.mem_singleton.1 inRow)).1
  obtain ⟨c, place, label⟩ := fits store inStores
  have known := ordered.linked c (List.mem_of_getElem? place)
  rw [label, ← same] at known
  rw [known]
  rfl

/-- What a flush writes to a row is what replaying the held writes makes of it. -/
theorem applied_toWrite (o : TransactionOptions) (writes : List Write) (name : String)
    (key : Bytes) {row : List Entry} (ascending : Sorted.Ascending Entry.column row) :
    (match (holding o writes).toWrite name key with
      | some m => m.applyTo row
      | none => row) = Write.replay writes name key row := by
  rw [← applied_holding o writes name key ascending, toWrite]
  cases (holding o writes).row? name key with
  | none => rfl
  | some m =>
      simp only [Option.map_some, Option.filter]
      by_cases nothing : m.consolidate.isEmpty = true
      · simp only [nothing, Bool.not_true, if_false, Bool.false_eq_true]
        rw [Mutation.isEmpty_consolidate] at nothing
        exact (Mutation.applyTo_of_isEmpty nothing row).symm
      · simp only [nothing, Bool.not_false, if_true]
        exact Mutation.applyTo_consolidate ascending m

theorem row?_of_toWrite {b : WriteBuffer} {name : String} {key : Bytes} {m : Mutation}
    (holds : b.toWrite name key = some m) : (b.row? name key).isSome = true := by
  obtain ⟨mapped, -⟩ := Option.filter_eq_some_iff.1 holds
  obtain ⟨m', row, -⟩ := Option.map_eq_some_iff.1 mapped
  rw [row]
  rfl

/-- Everything that writing the batches of a buffer does, whatever the order of its rows. -/
theorem flushed_writeAll {o : TransactionOptions} {writes : List Write} {s : Storage}
    (ordered : s.Sound) (through : ∀ w ∈ writes, w.Through s) (order : RowOrder)
    (attempts : Nat) :
    Flushed (holding o writes) writes s.backend
      (writeAll attempts ((holding o writes).arranged order).batches s.backend).2
      (writeAll attempts ((holding o writes).arranged order).batches s.backend).1 := by
  have sound := sound_holding o writes
  have arranged := sound.arranged order
  have backed := backed_batches arranged ordered ((fits_holding through o).arranged order)
  rw [toWrite_arranged sound] at backed
  obtain ⟨reached, -, all⟩ := (Backend.Reached.refl ordered.backend).writeAll ordered.backend
    attempts backed
  have replayed := fun name key =>
    applied_toWrite o writes name key (ordered.backend.ascending name key)
  refine ⟨reached.sound, reached.names, reached.labels, reached.unnamed, ?_, ?_⟩
  · intro name key
    rcases reached.rows name key with same | ⟨m, holds, row⟩
    · exact .inl same
    · exact .inr ⟨row?_of_toWrite holds, by rw [← replayed, row, holds]⟩
  · intro ok name key
    rw [← replayed]
    cases holds : (holding o writes).toWrite name key with
    | none =>
        rcases reached.rows name key with same | ⟨m, holds', -⟩
        · exact same
        · rw [holds] at holds'
          cases holds'
    | some m =>
        have member := (mem_cells_iff arranged name key m).2
          ((congrFun₂ (toWrite_arranged sound order) name key).trans holds)
        obtain ⟨batch, inBatches, inCells⟩ :=
          List.mem_flatMap.1 ((cells_batches _).mem_iff.2 member)
        obtain ⟨m', holds', row⟩ := all ok batch inBatches _ inCells
        rw [holds] at holds'
        obtain rfl := Option.some.inj holds'
        exact row

/-- What a flush leaves of the writes that are held back. -/
def leftover (writes : List Write) : Outcome Unit → List Write
  | .ok _ => []
  | .error _ => writes

/-- Everything a flush does, in whatever order it goes through the rows. -/
theorem flush_spec {o : TransactionOptions} {writes : List Write} {s : Storage}
    (ordered : s.Sound) (through : ∀ w ∈ writes, w.Through s) :
    ∃ outcome after orders, Flushed (holding o writes) writes s.backend after outcome ∧
      (holding o writes).flush s =
        (outcome, holding o (leftover writes outcome),
          ((holding o writes).arranged s.nextOrder).invalidateHeld
            { s with backend := after, orders }) := by
  by_cases nothing : (holding o writes).count = 0
  · refine ⟨.ok (), s.backend, s.orders, .refl ordered.backend o nothing, ?_⟩
    rw [flush_of_nothing nothing, holding_of_count nothing]
    rfl
  · have flushed := flushed_writeAll (o := o) ordered through s.nextOrder
      (holding o writes).options.writeAttempts
    have cleared : (holding o writes).clear = holding o [] := by
      rw [clear, options_holding]
      rfl
    refine ⟨_, _, s.orders.tail, flushed, ?_⟩
    rw [flush_of_something nothing, cleared]
    cases (writeAll (holding o writes).options.writeAttempts
      ((holding o writes).arranged s.nextOrder).batches s.backend).1 <;> rfl

end WriteBuffer

end PropertyGraph
