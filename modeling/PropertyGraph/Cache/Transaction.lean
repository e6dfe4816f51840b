/-
# Cache.Transaction -- writes held back until they are flushed

A storage is a backend and the caches in front of its tables.  A write buffer
holds back row mutations, grouped by store and row.  A flush writes them in
batches, each with a bounded number of attempts, and whatever comes of it then
makes every held back row bypass its cache.

* `WriteBuffer.batches` cuts the held back rows into batches: a store goes whole
  into a batch unless it is more than half again as large as the buffer.
* The rows of a store are held in a hash map, and a flush meets them in any order.
  The orders of the coming flushes are part of the state of a storage (`RowOrder`),
  as the outcomes of the coming batches are part of the state of a backend.
* A flush that fails keeps the buffer as it was (`flush_of_error`); one that
  succeeds empties it (`flush_of_ok`).
* A transaction is a stack of write buffers, the outermost first: a commit
  flushes them in turn, a rollback empties them all.
-/
import PropertyGraph.Store.Backend
import PropertyGraph.Cache.StoreCache

namespace PropertyGraph

set_option autoImplicit false

/-- An order in which a flush goes through the held back rows of each store. -/
structure RowOrder where
  arrange : String → List (Bytes × Mutation) → List (Bytes × Mutation)
  perm : ∀ name rows, (arrange name rows).Perm rows

/-- The order in which the rows were first written to. -/
def RowOrder.issued : RowOrder := ⟨fun _ rows => rows, fun _ _ => .refl _⟩

structure Storage where
  backend : Backend
  /-- Every cache ever opened; a cache is known by its place. -/
  caches : List StoreCache
  /-- Orders of the coming flushes; after these every flush keeps to the order of issue. -/
  orders : List RowOrder

namespace Storage

def empty : Storage := ⟨Backend.empty, [], []⟩

/-- The order in which the next flush goes through rows. -/
def nextOrder (s : Storage) : RowOrder := s.orders.head?.getD .issued

/-- Lets time pass. -/
def advance (s : Storage) (ticks : Nat) : Storage :=
  { s with caches := s.caches.map fun c => c.advance ticks }

/-- Opens a cache in front of the table of a name. -/
def openCache (s : Storage) (name : String) (o : CacheOptions) (metrics : Bool)
    (route : Bytes → Nat) : Nat × Storage :=
  let (table, backend) := s.backend.openTable name
  (s.caches.length,
    { s with backend, caches := s.caches ++ [StoreCache.create table name o metrics route] })

def onCache (s : Storage) (id : Nat) (f : StoreCache → StoreCache) : Storage :=
  { s with caches := s.caches.modify id f }

/-- Reads through a cache; `absent` is the answer when there is no such cache. -/
def readThrough {α : Type} (s : Storage) (id : Nat) (absent : α)
    (f : Table → StoreCache → α × StoreCache) : α × Storage :=
  match s.caches[id]? with
  | some c =>
      let (answer, after) := f (s.backend.table c.table) c
      (answer, s.onCache id fun _ => after)
  | none => (absent, s)

end Storage

/-- The held back mutations of one store. -/
structure PendingStore where
  /-- The cache that the first of them went through. -/
  cache : Nat
  rows : List (Bytes × Mutation)
  deriving DecidableEq

structure WriteBuffer where
  options : TransactionOptions
  /-- Stores with held back mutations, in ascending order of their names. -/
  stores : List (String × PendingStore)
  /-- Number of changes issued since the buffer was last empty. -/
  count : Nat
  deriving DecidableEq

namespace WriteBuffer

def new (options : TransactionOptions) : WriteBuffer := ⟨options, [], 0⟩

def clear (b : WriteBuffer) : WriteBuffer := { b with stores := [], count := 0 }

def store? (b : WriteBuffer) (name : String) : Option PendingStore :=
  (Sorted.find? Prod.fst name b.stores).map Prod.snd

/-- The changes of a row that are held back. -/
def pending (b : WriteBuffer) (name : String) (key : Bytes) : Option Mutation :=
  ((b.store? name).bind fun p => p.rows.lookup key).filter fun m => !m.isEmpty

/-- Puts a mutation behind those of the same row. -/
def mergeRow (key : Bytes) (m : Mutation) : List (Bytes × Mutation) → List (Bytes × Mutation)
  | [] => [(key, m)]
  | (other, earlier) :: rest =>
      if other = key then (other, earlier.merge m) :: rest
      else (other, earlier) :: mergeRow key m rest

/-- Holds a mutation back. -/
def hold (b : WriteBuffer) (cache : Nat) (name : String) (key : Bytes) (m : Mutation) :
    WriteBuffer :=
  let store := (b.store? name).getD ⟨cache, []⟩
  { b with
    stores :=
      Sorted.insert Prod.fst (name, { store with rows := mergeRow key m store.rows }) b.stores
    count := b.count + m.total }

/-- Batches in the making. -/
structure Chunking where
  done : List Batch
  current : Batch
  /-- Changes in the current batch, before they were consolidated. -/
  count : Nat
  deriving DecidableEq

namespace Chunking

def start : Chunking := ⟨[], [], 0⟩

def cut (c : Chunking) : Chunking := ⟨c.done ++ [c.current], [], 0⟩

/-- Adds a row to its store in a batch. -/
def addRow (name : String) (row : Bytes × Mutation) : Batch → Batch
  | [] => [(name, [row])]
  | (other, rows) :: rest =>
      if other = name then (other, rows ++ [row]) :: rest
      else (other, rows) :: addRow name row rest

/-- Adds a row, consolidated, and counts the changes it had before. -/
def add (c : Chunking) (name : String) (row : Bytes × Mutation) : Chunking :=
  let m := row.2.consolidate
  if m.isEmpty then c
  else { c with current := addRow name (row.1, m) c.current, count := c.count + row.2.total }

/-- Adds a store as a whole. -/
def addWhole (c : Chunking) (name : String) (rows : List (Bytes × Mutation)) : Chunking :=
  rows.foldl (fun c row => c.add name row) c

/-- Adds a store row by row, cutting whenever the batch is full. -/
def addSplit (size : Nat) (c : Chunking) (name : String) (rows : List (Bytes × Mutation)) :
    Chunking :=
  rows.foldl
    (fun c row =>
      if row.2.consolidate.isEmpty then c
      else
        let added := c.add name row
        if size ≤ added.count then added.cut else added) c

def addStore (size : Nat) (c : Chunking) (store : String × PendingStore) : Chunking :=
  let rows := store.2.rows
  let total := sumOf (fun row => row.2.total) rows
  if total = 0 then c
  else if total * 2 ≤ size * 3 then
    let c := if 0 < c.count ∧ size < c.count + total then c.cut else c
    c.addWhole store.1 rows
  else addSplit size c store.1 rows

def finish (c : Chunking) : List Batch := if 0 < c.count then c.cut.done else c.done

end Chunking

/-- The batches that a flush writes. -/
def batches (b : WriteBuffer) : List Batch :=
  (b.stores.foldl (Chunking.addStore (max b.options.bufferSize 1)) Chunking.start).finish

/-- Writes batches in turn, up to the first that fails for good. -/
def writeAll (attempts : Nat) : List Batch → Backend → Outcome Unit × Backend
  | [], backend => (.ok (), backend)
  | batch :: rest, backend =>
      match retry attempts (Backend.mutateMany batch) backend with
      | (.ok _, backend) => writeAll attempts rest backend
      | (.error fault, backend) => (.error fault, backend)

/-- The rows with held back mutations, each with its cache. -/
def heldRows (b : WriteBuffer) : List (Nat × Bytes) :=
  b.stores.flatMap fun store => store.2.rows.map fun row => (store.2.cache, row.1)

/-- Makes every held back row bypass its cache. -/
def invalidateHeld (b : WriteBuffer) (s : Storage) : Storage :=
  b.heldRows.foldl (fun s row => s.onCache row.1 fun c => c.invalidate row.2) s

/-- The buffer with the rows of each store in some order. -/
def arranged (b : WriteBuffer) (order : RowOrder) : WriteBuffer :=
  { b with
    stores := b.stores.map fun store =>
      (store.1, { store.2 with rows := order.arrange store.1 store.2.rows }) }

/-- Writes everything that is held back.  The rows bypass their caches even on a
failure, for earlier batches may have been written. -/
def flush (b : WriteBuffer) (s : Storage) : Outcome Unit × WriteBuffer × Storage :=
  if b.count = 0 then (.ok (), b, s)
  else
    let sent := b.arranged s.nextOrder
    let (outcome, backend) := writeAll b.options.writeAttempts sent.batches s.backend
    let after := sent.invalidateHeld { s with backend, orders := s.orders.tail }
    match outcome with
    | .ok _ => (.ok (), b.clear, after)
    | .error fault => (.error fault, b, after)

/-- Holds a mutation back, and flushes if the buffer is to be written when full. -/
def mutate (b : WriteBuffer) (s : Storage) (cache : Nat) (name : String) (key : Bytes)
    (m : Mutation) : Outcome Unit × WriteBuffer × Storage :=
  if m.total = 0 then (.ok (), b, s)
  else
    let held := b.hold cache name key m
    if held.options.continuous && decide (held.options.bufferSize ≤ held.count) then
      held.flush s
    else (.ok (), held, s)

theorem flush_of_nothing {b : WriteBuffer} (nothing : b.count = 0) (s : Storage) :
    b.flush s = (.ok (), b, s) := if_pos nothing

/-- A flush ends as the writing of its batches does.  Whatever that end, it leaves what was
written, and the rows bypass their caches. -/
theorem flush_of_something {b : WriteBuffer} (something : b.count ≠ 0) (s : Storage) :
    let sent := b.arranged s.nextOrder
    let written := writeAll b.options.writeAttempts sent.batches s.backend
    b.flush s =
      (written.1, (match written.1 with | .ok _ => b.clear | .error _ => b),
        sent.invalidateHeld { s with backend := written.2, orders := s.orders.tail }) := by
  intro sent written
  rw [flush, if_neg something]
  show (match written.1 with | .ok _ => _ | .error fault => _) = _
  cases written.1 <;> rfl

theorem flush_of_error {b : WriteBuffer} {s : Storage} {f : Fault}
    (failed : (b.flush s).1 = .error f) : (b.flush s).2.1 = b := by
  by_cases nothing : b.count = 0
  · rw [flush_of_nothing nothing]
  · rw [flush_of_something nothing] at failed ⊢
    simp only at failed
    simp only [failed]

theorem flush_of_ok {b : WriteBuffer} {s : Storage} (done : (b.flush s).1 = .ok ()) :
    (b.flush s).2.1.count = 0 := by
  by_cases nothing : b.count = 0
  · rw [flush_of_nothing nothing]
    exact nothing
  · rw [flush_of_something nothing] at done ⊢
    simp only at done
    simp only [done, clear]

end WriteBuffer

/-- A stack of write buffers, the outermost first. -/
structure Transaction where
  buffer : WriteBuffer
  /-- The buffers of the transactions it is wrapped around. -/
  inner : List WriteBuffer
  deriving DecidableEq

namespace Transaction

def start (options : TransactionOptions) : Transaction := ⟨WriteBuffer.new options, []⟩

/-- A new transaction around another one. -/
def around (options : TransactionOptions) (t : Transaction) : Transaction :=
  ⟨WriteBuffer.new options, t.buffer :: t.inner⟩

/-- Only the changes in the outermost buffer are seen by reads. -/
def pending (t : Transaction) (name : String) (key : Bytes) : Option Mutation :=
  t.buffer.pending name key

def mutate (t : Transaction) (s : Storage) (cache : Nat) (name : String) (key : Bytes)
    (m : Mutation) : Outcome Unit × Transaction × Storage :=
  let (outcome, buffer, s) := t.buffer.mutate s cache name key m
  (outcome, { t with buffer }, s)

def flush (t : Transaction) (s : Storage) : Outcome Unit × Transaction × Storage :=
  let (outcome, buffer, s) := t.buffer.flush s
  (outcome, { t with buffer }, s)

/-- Flushes buffers in turn, up to the first that fails. -/
def flushAll : List WriteBuffer → Storage → Outcome Unit × List WriteBuffer × Storage
  | [], s => (.ok (), [], s)
  | b :: rest, s =>
      match b.flush s with
      | (.error fault, b, s) => (.error fault, b :: rest, s)
      | (.ok _, b, s) =>
          let (outcome, rest, s) := flushAll rest s
          (outcome, b :: rest, s)

/-- Writes everything, the outermost buffer first. -/
def commit (t : Transaction) (s : Storage) : Outcome Unit × Transaction × Storage :=
  match t.flush s with
  | (.error fault, t, s) => (.error fault, t, s)
  | (.ok _, t, s) =>
      let (outcome, inner, s) := flushAll t.inner s
      (outcome, { t with inner }, s)

/-- Gives up everything that is held back. -/
def rollback (t : Transaction) : Transaction :=
  ⟨t.buffer.clear, t.inner.map WriteBuffer.clear⟩

end Transaction

namespace Storage

/-- Reads one slice through a cache, seeing the transaction's own changes. -/
def getSlice (s : Storage) (cache : Nat) (t : Transaction) (q : KeySlice) :
    Outcome (List Entry) × Storage :=
  s.readThrough cache (.ok []) fun table c => c.getSlice table (t.pending c.name q.key) q

/-- Reads the same slice of several rows through a cache. -/
def getSlices (s : Storage) (cache : Nat) (t : Transaction) (keys : List Bytes)
    (slice : Slice) : Outcome (List KeyedRow) × Storage :=
  s.readThrough cache (.ok []) fun table c =>
    c.getSlices table (fun key => t.pending c.name key) keys slice

/-- The rows of a cache's table in a key range; scans are never kept. -/
def readKeyRange (s : Storage) (cache : Nat) (r : KeyRange) : List KeyedRow :=
  match s.caches[cache]? with
  | some c => (s.backend.table c.table).readKeyRange r
  | none => []

/-- The rows of a cache's table with a column in a slice. -/
def readKeys (s : Storage) (cache : Nat) (slice : Slice) : List KeyedRow :=
  match s.caches[cache]? with
  | some c => (s.backend.table c.table).readKeys slice
  | none => []

/-- Buffers a mutation of a row, issued through a cache. -/
def mutateEntries (s : Storage) (cache : Nat) (t : Transaction) (key : Bytes) (m : Mutation) :
    Outcome Unit × Transaction × Storage :=
  match s.caches[cache]? with
  | some c => t.mutate s cache c.name key m
  | none => (.ok (), t, s)

end Storage

end PropertyGraph
