/-
# Cache.StoreCache -- reading a table through its cache

A store cache stands in front of one table.  It answers a slice from memory when
it can and asks the table when it must; what it asks is counted and logged by a
monitor, which can also be told to let reads fail.

* What the monitor lets pass the table may still refuse, read by read (`Refusals`).  Every
  request takes what is refused as an argument; to run is to run with nothing refused.
* A row with changes that its transaction still holds back is always read whole
  from the table; the changes are laid over it and nothing is kept.
* A read is a request, which ends with the answer of the table, and the filling in
  of what may be kept.  Between the two, something else may happen to the cache:
  an `Interruption`.  A fill is kept under the generation that was current before
  the table was asked, so it is refused if the cache was cleared.
* `StoreCache.getSlices` asks for all missing rows at once and names each once.
-/
import PropertyGraph.Store.Table
import PropertyGraph.Cache.Expiring
import PropertyGraph.Cache.Metrics
import PropertyGraph.Cache.Options

namespace PropertyGraph

set_option autoImplicit false

/-- A slice read that reaches a table. -/
inductive TableRead where
  | slice (q : KeySlice)
  /-- The same slice of several rows. -/
  | slices (keys : List Bytes) (slice : Slice)
  deriving DecidableEq

/-- The keys that a read names. -/
def TableRead.keys : TableRead → List Bytes
  | .slice q => [q.key]
  | .slices keys _ => keys

/-- Counts the slice reads that reach a table. -/
structure ReadMonitor where
  calls : UInt64
  keysRead : UInt64
  /-- Reads still to fail, and how they fail. -/
  failing : Nat
  failure : BackendKind
  /-- All reads so far in order, whatever became of them. -/
  log : List TableRead
  deriving DecidableEq

namespace ReadMonitor

def new : ReadMonitor := ⟨0, 0, 0, .temporary, []⟩

def reset (m : ReadMonitor) : ReadMonitor := { m with calls := 0, keysRead := 0 }

def failNext (m : ReadMonitor) (failure : BackendKind) (times : Nat) : ReadMonitor :=
  { m with failing := times, failure }

def failureText : BackendKind → String
  | .temporary => "injected read timeout"
  | .permanent => "injected read failure"

/-- Counts a read; the read may have to fail. -/
def record (m : ReadMonitor) (read : TableRead) : Outcome Unit × ReadMonitor :=
  let counted :=
    { m with
      calls := m.calls + 1
      keysRead := m.keysRead + UInt64.ofNat read.keys.length
      log := m.log ++ [read] }
  if m.failing = 0 then (.ok (), counted)
  else
    (.error (.backend m.failure (failureText m.failure)),
      { counted with failing := m.failing - 1 })

end ReadMonitor

/-- What a table makes of the reads of a call: how the one that comes after some others is
refused, if it is. -/
abbrev Refusals := Nat → Option Fault

/-- Nothing is refused. -/
def granted : Refusals := fun _ => none

/-- An answer, unless it is refused. -/
def unlessRefused {α : Type} (refused : Option Fault) (answer : α) : Outcome α :=
  refused.elim (.ok answer) .error

theorem unlessRefused_eq_ok_iff {α : Type} {refused : Option Fault} {answer a : α} :
    unlessRefused refused answer = .ok a ↔ refused = none ∧ answer = a := by
  cases refused <;> simp [unlessRefused]

theorem unlessRefused_eq_error_iff {α : Type} {refused : Option Fault} {answer : α}
    {fault : Fault} : unlessRefused refused answer = .error fault ↔ refused = some fault := by
  cases refused <;> simp [unlessRefused]

/-- What can be done to a cache from outside while it waits for its table. -/
inductive CacheAction where
  | clear
  | clean
  | invalidate (key : Bytes)
  deriving DecidableEq

/-- An action in the middle of the next read, and how long it takes. -/
structure Interruption where
  action : CacheAction
  duration : Nat
  deriving DecidableEq

structure StoreCache where
  /-- The table, by its place in the backend. -/
  table : Nat
  name : String
  monitor : ReadMonitor
  metrics : Option CacheMetrics
  /-- The kept slices; a disabled cache keeps none. -/
  slices : Option SliceCache
  /-- What time it is. -/
  time : Nat
  interruption : Option Interruption

namespace StoreCache

/-- A cache in front of a table.  `route` spreads the keys over the shards. -/
def create (table : Nat) (name : String) (o : CacheOptions) (metrics : Bool)
    (route : Bytes → Nat) : StoreCache where
  table := table
  name := name
  monitor := ReadMonitor.new
  metrics := if metrics then some CacheMetrics.empty else none
  slices :=
    if o.enabled then some (SliceCache.create o.shards o.maxBytes o.cacheTime o.cleanWait route)
    else none
  time := 0
  interruption := none

def isEnabled (c : StoreCache) : Bool := c.slices.isSome

def advance (c : StoreCache) (ticks : Nat) : StoreCache := { c with time := c.time + ticks }

def record (c : StoreCache) (event : CacheEvent) : StoreCache :=
  { c with metrics := c.metrics.map fun m => m.record c.name event }

def cachedSlices (c : StoreCache) : Nat := (c.slices.map SliceCache.length).getD 0

def cachedBytes (c : StoreCache) : Nat := (c.slices.map SliceCache.weight).getD 0

def expiredKeys (c : StoreCache) : Nat := (c.slices.map fun s => s.expired.length).getD 0

/-- The counts of the cache's own store. -/
def counts (c : StoreCache) : CacheCounts :=
  (c.metrics.map fun m => m.store c.name).getD CacheCounts.zero

/-- Makes reads of a key bypass the cache. -/
def invalidate (c : StoreCache) (key : Bytes) : StoreCache :=
  match c.slices with
  | some s => { c with slices := some (s.invalidate c.time key) }.record .invalidation
  | none => c

/-- Drops every kept slice, after a clean-up of the expired keys. -/
def clear (c : StoreCache) : StoreCache :=
  match c.slices with
  | some s =>
      { c with slices := some (s.clearExpired c.time false).2.invalidateAll }.record .clear
  | none => c

/-- Cleans up the expired keys. -/
def clean (c : StoreCache) : CleanupStats × StoreCache :=
  match c.slices with
  | some s =>
      let (stats, cleaned) := s.clearExpired c.time false
      (stats, { c with slices := some cleaned })
  | none => (CleanupStats.zero, c)

def close (c : StoreCache) : StoreCache :=
  { c with slices := c.slices.map SliceCache.invalidateAll }

def perform (c : StoreCache) : CacheAction → StoreCache
  | .clear => c.clear
  | .clean => c.clean.2
  | .invalidate key => c.invalidate key

/-- Lets a waiting interruption happen. -/
def interrupt (c : StoreCache) : StoreCache :=
  match c.interruption with
  | some i => ({ c with interruption := none }.perform i.action).advance i.duration
  | none => c

/-- Sends a read to the table, to which `answer` is the answer unless the table refuses it.  A
read that the monitor lets fail never comes there. -/
def ask {α : Type} (c : StoreCache) (refused : Option Fault) (read : TableRead) (answer : α) :
    Outcome α × StoreCache :=
  let (permit, monitor) := c.monitor.record read
  (permit.bind fun _ => unlessRefused refused answer, { c with monitor }.interrupt)

/-- What a cache knows about a query before its table is asked. -/
inductive Consultation where
  /-- Ask the table and keep nothing. -/
  | bypass
  | hit (entries : List Entry)
  /-- Ask the table and keep its answer under this generation. -/
  | absent (generation : Nat)
  deriving DecidableEq

def consult (c : StoreCache) (q : KeySlice) : Consultation × StoreCache :=
  match c.slices with
  | none => (.bypass, c)
  | some s =>
      match s.isExpired c.time q.key with
      | (true, s) => (.bypass, { c with slices := some s })
      | (false, s) =>
          match s.get c.time q with
          | (some entries, s) => (.hit entries, { c with slices := some s })
          | (none, s) => (.absent s.generation, { c with slices := some s })

/-- An answer of the table that waits to be kept. -/
structure Fill where
  query : KeySlice
  entries : List Entry
  /-- The generation that was current before the table was asked. -/
  generation : Nat
  deriving DecidableEq

/-- Keeps an answer of the table. -/
def fill (c : StoreCache) (f : Fill) : StoreCache :=
  { c with slices := c.slices.map fun s => s.put c.time f.query f.entries f.generation }

def fillAll (c : StoreCache) (fills : List Fill) : StoreCache := fills.foldl fill c

/-- What may be kept of what became of a query. -/
def Consultation.fills (q : KeySlice) : Consultation → Outcome (List Entry) → List Fill
  | .absent generation, .ok entries => [⟨q, entries, generation⟩]
  | _, _ => []

/-- Reads a row whose changes `pending` are held back by the reader. -/
def readPending (c : StoreCache) (refused : Option Fault) (t : Table) (pending : Mutation)
    (q : KeySlice) : Outcome (List Entry) × StoreCache :=
  let (base, c) := c.ask refused (.slice q.unlimited) (t.readSlice q.unlimited)
  (base.map fun entries => pending.overlay entries q.slice, c)

/-- The part of a read up to the answer of the table, for a reader that holds back
the changes `pending`.  What may be kept of the answer is left to be filled in. -/
def requestSlice (c : StoreCache) (refusals : Refusals) (t : Table) (pending : Option Mutation)
    (q : KeySlice) : Outcome (List Entry) × List Fill × StoreCache :=
  let c := c.record (.retrieval 1)
  match pending with
  | some m =>
      let (outcome, c) := (c.record (.miss 1)).readPending (refusals 0) t m q
      (outcome, [], c)
  | none =>
      match c.consult q with
      | (.hit entries, c) => (.ok entries, [], c)
      | (known, c) =>
          let (outcome, c) := (c.record (.miss 1)).ask (refusals 0) (.slice q) (t.readSlice q)
          (outcome, known.fills q outcome, c)

/-- Reads one slice, for a reader that holds back the changes `pending`. -/
def getSlice (c : StoreCache) (t : Table) (pending : Option Mutation) (q : KeySlice) :
    Outcome (List Entry) × StoreCache :=
  let (outcome, fills, c) := c.requestSlice granted t pending q
  (outcome, c.fillAll fills)

/-- What is known while a list of keys is gone through. -/
structure Gathering where
  /-- Rows already answered. -/
  found : List KeyedRow
  /-- Keys to ask the table about. -/
  missing : List Bytes
  /-- Those of them whose answers may be kept. -/
  fillable : List Bytes
  /-- Number of rows that were read because of changes held back. -/
  overlaid : Nat
  deriving DecidableEq

namespace Gathering

def start : Gathering := ⟨[], [], [], 0⟩

/-- A row was read and the changes held back laid over it. -/
def overlay (g : Gathering) (key : Bytes) (entries : List Entry) : Gathering :=
  { g with found := g.found ++ [(key, entries)], overlaid := g.overlaid + 1 }

/-- The cache was consulted about a row. -/
def note (g : Gathering) (key : Bytes) : Consultation → Gathering
  | .bypass => { g with missing := g.missing ++ [key] }
  | .hit entries => { g with found := g.found ++ [(key, entries)] }
  | .absent _ => { g with missing := g.missing ++ [key], fillable := g.fillable ++ [key] }

theorem overlaid_note (g : Gathering) (key : Bytes) (known : Consultation) :
    (g.note key known).overlaid = g.overlaid := by
  cases known <;> rfl

end Gathering

/-- Goes through distinct keys, reading the rows with changes held back.  Every row that was
read so far was one read of the call. -/
def gather (refusals : Refusals) (t : Table) (pending : Bytes → Option Mutation) (slice : Slice) :
    List Bytes → Gathering → StoreCache → Outcome Gathering × StoreCache
  | [], g, c => (.ok g, c)
  | key :: rest, g, c =>
      match pending key with
      | some m =>
          match c.readPending (refusals g.overlaid) t m ⟨key, slice⟩ with
          | (.error fault, c) => (.error fault, c)
          | (.ok entries, c) => gather refusals t pending slice rest (g.overlay key entries) c
      | none =>
          let (known, c) := c.consult ⟨key, slice⟩
          gather refusals t pending slice rest (g.note key known) c

/-- Those of the table's answers that may be kept. -/
def fillsOf (slice : Slice) (fetched : List KeyedRow) (fillable : List Bytes)
    (generation : Nat) : List Fill :=
  fillable.filterMap fun key =>
    (fetched.lookup key).map fun entries => ⟨⟨key, slice⟩, entries, generation⟩

/-- The part of a read of several rows up to the answer of the table. -/
def requestSlices (c : StoreCache) (refusals : Refusals) (t : Table)
    (pending : Bytes → Option Mutation) (keys : List Bytes) (slice : Slice) :
    Outcome (List KeyedRow) × List Fill × StoreCache :=
  let generation := (c.slices.map SliceCache.generation).getD 0
  let c := c.record (.retrieval (UInt64.ofNat keys.length))
  match gather refusals t pending slice keys.eraseDups Gathering.start c with
  | (.error fault, c) => (.error fault, [], c)
  | (.ok g, c) =>
      let c := c.record (.miss (UInt64.ofNat (g.overlaid + g.missing.length)))
      if g.missing.isEmpty then (.ok g.found, [], c)
      else
        match c.ask (refusals g.overlaid) (.slices g.missing slice)
          (t.readSlices g.missing slice) with
        | (.error fault, c) => (.error fault, [], c)
        | (.ok fetched, c) =>
            (.ok (g.found ++ fetched), fillsOf slice fetched g.fillable generation, c)

/-- Reads the same slice of several rows.  Each key is answered once. -/
def getSlices (c : StoreCache) (t : Table) (pending : Bytes → Option Mutation)
    (keys : List Bytes) (slice : Slice) : Outcome (List KeyedRow) × StoreCache :=
  let (outcome, fills, c) := c.requestSlices granted t pending keys slice
  (outcome, c.fillAll fills)

end StoreCache

end PropertyGraph
