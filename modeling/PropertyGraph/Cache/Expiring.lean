/-
# Cache.Expiring -- kept slices, and keys that bypass them

Slices are kept under their full query.  A key whose row has changed is not
dropped at once: it is entered into a table of expired keys, and while the entry
stands every read of the key bypasses the cache.  A clean-up takes the kept
slices of expired keys out, together with the entries; one runs by itself after
`penaltyThreshold` bypassed reads.  By chance an invalidation counts as one more.

* A shard lists its slices with the most recently used first; `Shard.put` evicts
  from the other end until the weights fit the budget.
* `SliceCache.put` refuses a fill when the cache was cleared since the generation
  it began under, or its key was invalidated (`put_of_generation`,
  `put_of_expired`).
-/
import PropertyGraph.Store.Slice

namespace PropertyGraph

set_option autoImplicit false

/-- An answer that is kept. -/
structure CachedSlice where
  query : KeySlice
  entries : List Entry
  inserted : Nat
  weight : Nat
  deriving DecidableEq

/-- A part of a cache with a budget of its own. -/
structure Shard where
  /-- The kept slices, the most recently used first. -/
  slices : List CachedSlice
  /-- What the kept slices weigh together. -/
  bytes : Nat
  budget : Nat
  deriving DecidableEq

namespace Shard

def find? (s : Shard) (q : KeySlice) : Option CachedSlice :=
  s.slices.find? fun c => c.query = q

def without (s : Shard) (q : KeySlice) : List CachedSlice :=
  s.slices.filter fun c => c.query ≠ q

/-- Takes a query's answer out. -/
def remove (s : Shard) (q : KeySlice) : Shard :=
  match s.find? q with
  | some old => { s with slices := s.without q, bytes := s.bytes - old.weight }
  | none => s

/-- Moves an answer to the front. -/
def touch (s : Shard) (c : CachedSlice) : Shard := { s with slices := c :: s.without c.query }

/-- Drops slices from the front of the list while the weight is over the budget. -/
def shed (budget : Nat) : List CachedSlice → Nat → List CachedSlice × Nat
  | [], bytes => ([], bytes)
  | oldest :: rest, bytes =>
      if budget < bytes then shed budget rest (bytes - oldest.weight) else (oldest :: rest, bytes)

/-- Drops the least recently used slices until the others fit the budget. -/
def evict (s : Shard) : Shard :=
  let (kept, bytes) := shed s.budget s.slices.reverse s.bytes
  { s with slices := kept.reverse, bytes }

/-- Keeps an answer, in place of an older one to the same query. -/
def put (s : Shard) (c : CachedSlice) : Shard :=
  let removed := s.remove c.query
  evict { removed with slices := c :: removed.slices, bytes := removed.bytes + c.weight }

/-- Drops everything. -/
def clear (s : Shard) : Shard := { s with slices := [], bytes := 0 }

/-- Drops the slices of the keys that `doomed` picks. -/
def drop (s : Shard) (doomed : Bytes → Bool) : Shard :=
  (s.slices.filter fun c => doomed c.query.key).foldl (fun acc c => acc.remove c.query) s

end Shard

/-- When a key was invalidated, and when that has no effect any more. -/
structure ExpiredKey where
  since : Nat
  lapse : Option Nat
  deriving DecidableEq

namespace ExpiredKey

def lapsed (e : ExpiredKey) (now : Nat) : Bool :=
  match e.lapse with
  | some lapse => decide (lapse < now)
  | none => false

end ExpiredKey

/-- What a clean-up did. -/
structure CleanupStats where
  keysCleared : Nat
  slicesRemoved : Nat
  keysLapsed : Nat
  deriving DecidableEq

namespace CleanupStats

def zero : CleanupStats := ⟨0, 0, 0⟩

end CleanupStats

structure SliceCache where
  shards : List Shard
  /-- The number, up to multiples of the number of shards, of a key's shard. -/
  route : Bytes → Nat
  /-- The expired keys in ascending order. -/
  expired : List (Bytes × ExpiredKey)
  /-- How long a slice may be kept, if there is an end. -/
  cacheTime : Option Nat
  cleanWait : Nat
  /-- Bypassed reads until the next clean-up. -/
  penalty : Nat
  /-- Number of times the cache was cleared. -/
  generation : Nat
  /-- What chance decides of the coming invalidations: one that comes up counts as
  a bypassed read.  After these none does. -/
  coins : List Bool

namespace SliceCache

/-- Bypassed reads before a clean-up. -/
def penaltyThreshold : Nat := 5

/-- Bookkeeping that is charged to every kept slice. -/
def sliceOverhead : Nat := 64

/-- An empty cache. -/
def create (shards maxBytes cacheTime cleanWait : Nat) (route : Bytes → Nat) : SliceCache where
  shards := List.replicate (max shards 1) ⟨[], 0, max (maxBytes / max shards 1) 1⟩
  route := route
  expired := []
  cacheTime := if cacheTime = 0 then none else some cacheTime
  cleanWait := cleanWait
  penalty := penaltyThreshold
  generation := 0
  coins := []

/-- The place of a key's shard. -/
def shardOf (c : SliceCache) (key : Bytes) : Nat := c.route key % c.shards.length

def onShard (c : SliceCache) (key : Bytes) (f : Shard → Shard) : SliceCache :=
  { c with shards := c.shards.modify (c.shardOf key) f }

def length (c : SliceCache) : Nat := sumOf (fun s => s.slices.length) c.shards

def weight (c : SliceCache) : Nat := sumOf (fun s => s.bytes) c.shards

/-- Takes out the slices of keys that have been expired for the waiting time, the
entries of those keys, and the entries that have lapsed. -/
def clearExpired (c : SliceCache) (now : Nat) (resetPenalty : Bool) :
    CleanupStats × SliceCache :=
  let standing := c.expired.filter fun e => !e.2.lapsed now
  let ripe := standing.filter fun e => decide (c.cleanWait ≤ now - e.2.since)
  let doomed (key : Bytes) : Bool := ripe.any fun e => e.1 == key
  let shards := c.shards.map fun s => s.drop doomed
  let removed :=
    sumOf (fun s => (s.slices.filter fun x => doomed x.query.key).length) c.shards
  (⟨ripe.length, removed, c.expired.length - standing.length⟩,
    { c with
      shards
      expired := standing.filter fun e => !doomed e.1
      penalty := if resetPenalty then penaltyThreshold else c.penalty })

/-- Counts a bypassed read, and cleans up when there were enough of them. -/
def countDown (c : SliceCache) (now : Nat) : SliceCache :=
  if 1 < c.penalty then { c with penalty := c.penalty - 1 }
  else (c.clearExpired now true).2

/-- Whether reads of a key bypass the cache.  An entry that has lapsed is taken
out; one that stands counts as a bypassed read. -/
def isExpired (c : SliceCache) (now : Nat) (key : Bytes) : Bool × SliceCache :=
  match Sorted.find? Prod.fst key c.expired with
  | none => (false, c)
  | some (_, entry) =>
      if entry.lapsed now then
        (false, { c with expired := Sorted.erase Prod.fst key c.expired })
      else (true, c.countDown now)

/-- The slice was kept for its full time. -/
def isStale (c : SliceCache) (now : Nat) (slice : CachedSlice) : Bool :=
  match c.cacheTime with
  | some time => decide (time ≤ now - slice.inserted)
  | none => false

/-- The kept answer to a query.  An answer that is served becomes the most
recently used; one that is stale is dropped instead. -/
def get (c : SliceCache) (now : Nat) (q : KeySlice) : Option (List Entry) × SliceCache :=
  match (c.shards[c.shardOf q.key]?).bind fun s => s.find? q with
  | none => (none, c)
  | some slice =>
      if c.isStale now slice then (none, c.onShard q.key fun s => s.remove q)
      else (some slice.entries, c.onShard q.key fun s => s.touch slice)

/-- What an answer weighs. -/
def weightOf (q : KeySlice) (entries : List Entry) : Nat :=
  sliceOverhead + q.byteSize + Entry.listSize entries

/-- Keeps an answer that was asked for under a generation, unless the cache was
cleared since, the key has been invalidated, or the answer alone is over the
budget. -/
def put (c : SliceCache) (now : Nat) (q : KeySlice) (entries : List Entry)
    (generation : Nat) : SliceCache :=
  if c.generation ≠ generation then c
  else if (Sorted.find? Prod.fst q.key c.expired).isSome then c
  else
    let weight := weightOf q entries
    c.onShard q.key fun s => if s.budget < weight then s else s.put ⟨q, entries, now, weight⟩

/-- Enters a key into the table of expired keys. -/
def expire (c : SliceCache) (now : Nat) (key : Bytes) : SliceCache :=
  let entry : ExpiredKey := ⟨now, c.cacheTime.map fun time => now + time⟩
  { c with expired := Sorted.insert Prod.fst (key, entry) c.expired, coins := c.coins.tail }

/-- Makes reads of a key bypass the cache. -/
def invalidate (c : SliceCache) (now : Nat) (key : Bytes) : SliceCache :=
  let expired := c.expire now key
  if c.coins.headD false then expired.countDown now else expired

/-- Drops every kept slice; expired keys stay expired. -/
def invalidateAll (c : SliceCache) : SliceCache :=
  { c with generation := c.generation + 1, shards := c.shards.map Shard.clear }

theorem put_of_generation {c : SliceCache} {now generation : Nat} {q : KeySlice}
    {entries : List Entry} (cleared : c.generation ≠ generation) :
    c.put now q entries generation = c := by
  simp [put, cleared]

theorem put_of_expired {c : SliceCache} {now generation : Nat} {q : KeySlice}
    {entries : List Entry} (expired : (Sorted.find? Prod.fst q.key c.expired).isSome = true) :
    c.put now q entries generation = c := by
  simp [put, expired]

end SliceCache

end PropertyGraph
