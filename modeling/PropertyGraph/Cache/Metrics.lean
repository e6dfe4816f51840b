/-
# Cache.Metrics -- what a cache was asked and what it cost

Counters are kept for each store and over all stores; every event is counted in
both, so the totals are the sums of the stores' counts (`totals_record`).
-/
import PropertyGraph.Fault

namespace PropertyGraph

set_option autoImplicit false

/-- Counters of 64 bits. -/
structure CacheCounts where
  retrievals : UInt64
  misses : UInt64
  invalidations : UInt64
  clears : UInt64
  deriving DecidableEq

namespace CacheCounts

def zero : CacheCounts := ⟨0, 0, 0, 0⟩

def add (a b : CacheCounts) : CacheCounts :=
  ⟨a.retrievals + b.retrievals, a.misses + b.misses, a.invalidations + b.invalidations,
    a.clears + b.clears⟩

/-- Lookups that were answered from memory. -/
def hits (c : CacheCounts) : UInt64 :=
  if c.misses ≤ c.retrievals then c.retrievals - c.misses else 0

theorem add_assoc (a b c : CacheCounts) : (a.add b).add c = a.add (b.add c) := by
  simp [add, UInt64.add_assoc]

theorem add_comm (a b : CacheCounts) : a.add b = b.add a := by
  simp [add, UInt64.add_comm]

theorem zero_add (a : CacheCounts) : zero.add a = a := by simp [zero, add]

end CacheCounts

/-- Something worth counting. -/
inductive CacheEvent where
  | retrieval (count : UInt64)
  | miss (count : UInt64)
  | invalidation
  | clear
  deriving DecidableEq

namespace CacheEvent

def counts : CacheEvent → CacheCounts
  | .retrieval n => ⟨n, 0, 0, 0⟩
  | .miss n => ⟨0, n, 0, 0⟩
  | .invalidation => ⟨0, 0, 1, 0⟩
  | .clear => ⟨0, 0, 0, 1⟩

end CacheEvent

structure CacheMetrics where
  totals : CacheCounts
  stores : List (String × CacheCounts)
  deriving DecidableEq

namespace CacheMetrics

def empty : CacheMetrics := ⟨CacheCounts.zero, []⟩

/-- The counts of a store; a store without events has none. -/
def store (m : CacheMetrics) (name : String) : CacheCounts :=
  (m.stores.lookup name).getD CacheCounts.zero

def recordIn (name : String) (counts : CacheCounts) :
    List (String × CacheCounts) → List (String × CacheCounts)
  | [] => [(name, counts)]
  | (other, old) :: rest =>
      if other = name then (other, old.add counts) :: rest
      else (other, old) :: recordIn name counts rest

def record (m : CacheMetrics) (name : String) (event : CacheEvent) : CacheMetrics :=
  ⟨m.totals.add event.counts, recordIn name event.counts m.stores⟩

/-- The sum over all stores. -/
def sum (stores : List (String × CacheCounts)) : CacheCounts :=
  stores.foldr (fun s acc => s.2.add acc) CacheCounts.zero

theorem sum_recordIn (name : String) (counts : CacheCounts)
    (stores : List (String × CacheCounts)) :
    sum (recordIn name counts stores) = (sum stores).add counts := by
  induction stores with
  | nil => simp [recordIn, sum, CacheCounts.add_comm]
  | cons s rest ih =>
      simp only [recordIn]
      split
      · simp only [sum, List.foldr_cons, CacheCounts.add_assoc]
        rw [CacheCounts.add_comm counts]
      · simp only [sum, List.foldr_cons] at ih ⊢
        rw [ih, CacheCounts.add_assoc]

/-- What holds of the empty metrics is kept by every event. -/
theorem totals_record (m : CacheMetrics) (name : String) (event : CacheEvent)
    (agree : m.totals = sum m.stores) :
    (m.record name event).totals = sum (m.record name event).stores := by
  simp [record, sum_recordIn, agree]

end CacheMetrics

end PropertyGraph
