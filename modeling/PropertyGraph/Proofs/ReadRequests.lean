/-
# Proofs.ReadRequests -- reads of one row or of several, under one form

A read names its queries, whether it is of one row or of several, and the table may refuse what
is asked of it.  What is true of all reads is said here once.

* The rows are answered as their reader sees them, whatever is refused
  (`StoreCache.request_spec`).
* A query is answered without its row being asked for exactly if it is served and no changes
  of the row are held back (`StoreCache.requested`).
* What a request leaves to be filled in are answers of the table to queries that were not
  served (`StoreCache.fills_request`).
-/
import PropertyGraph.Cache.Transaction
import PropertyGraph.Proofs.ServedSlices

namespace PropertyGraph

set_option autoImplicit false

/-- The part of the rows that a read asks for. -/
def TableRead.part : TableRead → Slice
  | .slice q => q.slice
  | .slices _ part => part

/-- The queries that a read is made of. -/
def TableRead.queries : TableRead → List KeySlice
  | .slice q => [q]
  | .slices keys part => keys.map fun key => ⟨key, part⟩

namespace StoreCache

/-- A request for some rows, for a reader that holds back the changes `pending`. -/
def request (c : StoreCache) (refusals : Refusals) (t : Table)
    (pending : Bytes → Option Mutation) :
    TableRead → Outcome (List KeyedRow) × List Fill × StoreCache
  | .slice q =>
      let (outcome, fills, c) := c.requestSlice refusals t (pending q.key) q
      (outcome.map fun entries => [(q.key, entries)], fills, c)
  | .slices keys slice => c.requestSlices refusals t pending keys slice

/-- Reads some rows, for a reader that holds back the changes `pending`. -/
def read (c : StoreCache) (refusals : Refusals) (t : Table) (pending : Bytes → Option Mutation)
    (r : TableRead) : Outcome (List KeyedRow) × StoreCache :=
  let (outcome, fills, c) := c.request refusals t pending r
  (outcome, c.fillAll fills)

variable {c : StoreCache} {t : Table}

/-- Whatever is requested, the answer is the rows as their reader sees them, and what waits to
be kept are answers of the table. -/
theorem request_spec {right : KeySlice → List Entry → Prop} (coherent : c.Coherent right)
    (sound : t.Sound) (met : ∀ q, right q (t.readSlice q)) (refusals : Refusals)
    (pending : Bytes → Option Mutation) (r : TableRead) :
    let request := c.request refusals t pending r
    Reads right c request.2.2 ∧
      (∀ f ∈ request.2.1, f.Of t c.generation) ∧
      (∀ rows, request.1 = .ok rows →
        (∀ row ∈ rows, row.1 ∈ r.keys ∧ t.Shows right (pending row.1) ⟨row.1, r.part⟩ row.2) ∧
        ∀ key ∈ r.keys, key ∈ rows.map Prod.fst) ∧
      (c.monitor.failing = 0 → refusals = granted → ∃ rows, request.1 = .ok rows) := by
  cases r with
  | slices keys slice => exact requestSlices_spec coherent sound met refusals pending keys slice
  | slice q =>
      obtain ⟨reads, fills, shown, willing⟩ :=
        requestSlice_spec coherent sound met refusals (pending q.key) q
      refine ⟨reads, fills, fun rows same => ?_, fun permitted all => ?_⟩
      · rw [request] at same
        rcases answer : (c.requestSlice refusals t (pending q.key) q).1 with fault | entries
        · simp only [answer] at same
          cases same
        · simp only [answer] at same
          obtain rfl := Except.ok.inj same
          have shown := shown entries answer
          simp only [TableRead.keys, TableRead.part, List.mem_singleton, forall_eq, true_and]
          exact ⟨shown, List.mem_singleton_self _⟩
      · obtain ⟨entries, answer⟩ := willing permitted all
        exact ⟨_, congrArg (Except.map _) answer⟩

/-- A read leaves a coherent cache, whatever is refused. -/
theorem reads_read {right : KeySlice → List Entry → Prop} (coherent : c.Coherent right)
    (sound : t.Sound) (met : ∀ q, right q (t.readSlice q)) (refusals : Refusals)
    (pending : Bytes → Option Mutation) (r : TableRead) :
    Reads right c (c.read refusals t pending r).2 := by
  obtain ⟨reads, fills, -⟩ := request_spec coherent sound met refusals pending r
  refine reads.fillAll fun f member => ?_
  rw [(fills f member).1]
  exact met f.query

theorem wantedRead_eq_nil_iff {pending : Option Mutation} {q : KeySlice} :
    c.wantedRead pending q = [] ↔ pending = none ∧ ∃ entries, c.served? q = some entries := by
  cases pending with
  | some m => simp [wantedRead]
  | none => cases served : c.served? q <;> simp [wantedRead, served]

theorem keys_of_mem_wantedRead {pending : Option Mutation} {q : KeySlice} {read : TableRead}
    (asked : read ∈ c.wantedRead pending q) : read.keys = [q.key] := by
  unfold wantedRead at asked
  split at asked
  · obtain rfl := List.mem_singleton.1 asked
    rfl
  · split at asked
    · obtain rfl := List.mem_singleton.1 asked
      rfl
    · cases asked

/-- What a read of some rows answers from memory, and what it asks the table for. -/
structure Requested (c : StoreCache) (pending : Bytes → Option Mutation) (r : TableRead)
    (outcome : Outcome (List KeyedRow)) (sent : List TableRead) : Prop where
  /-- The table is not asked for rows that are served. -/
  spared : ∀ q ∈ r.queries, pending q.key = none → ∀ entries, c.served? q = some entries →
    (∀ read ∈ sent, q.key ∉ read.keys) ∧
    ∀ rows, outcome = .ok rows → rows.lookup q.key = some entries
  /-- What is answered without being asked for is served. -/
  served : ∀ rows, outcome = .ok rows → ∀ q ∈ r.queries, (∀ read ∈ sent, q.key ∉ read.keys) →
    ∃ entries, c.served? q = some entries ∧ rows.lookup q.key = some entries
  /-- A read of nothing else asks for nothing. -/
  quiet : (∀ q ∈ r.queries, pending q.key = none ∧ (c.served? q).isSome = true) →
    sent = [] ∧ ∃ rows, outcome = .ok rows

theorem requested_slice (calm : c.Calm) (t : Table) (pending : Bytes → Option Mutation)
    (q : KeySlice) : ∃ sent,
    (c.request granted t pending (.slice q)).2.2.monitor.log = c.monitor.log ++ sent ∧
    Requested c pending (.slice q) (c.request granted t pending (.slice q)).1 sent := by
  obtain ⟨outcome, log, -⟩ := requestSlice_exact calm t (pending q.key) q
  -- nothing is asked exactly if the query is served, and then that is the answer
  have at_hand : ∀ entries, pending q.key = none → c.served? q = some entries →
      c.wantedRead (pending q.key) q = [] ∧
        (c.request granted t pending (.slice q)).1 = .ok [(q.key, entries)] := by
    intro entries unheld served
    have nothing := wantedRead_eq_nil_iff.2 ⟨unheld, entries, served⟩
    refine ⟨nothing, ?_⟩
    rw [if_pos nothing, unheld, reply, served] at outcome
    rw [request, unheld]
    exact congrArg (Except.map fun entries => [(q.key, entries)]) outcome
  have found : ∀ entries : List Entry, [(q.key, entries)].lookup q.key = some entries := by simp
  refine ⟨c.wantedRead (pending q.key) q, log, ?_, ?_, ?_⟩
  · intro q' member unheld entries served
    obtain rfl := List.mem_singleton.1 member
    obtain ⟨nothing, answered⟩ := at_hand entries unheld served
    rw [nothing, answered]
    refine ⟨fun _ never => absurd never List.not_mem_nil, fun rows same => ?_⟩
    obtain rfl := Except.ok.inj same
    exact found entries
  · intro rows same q' member spared
    obtain rfl := List.mem_singleton.1 member
    have nothing : c.wantedRead (pending q'.key) q' = [] := by
      refine List.eq_nil_iff_forall_not_mem.2 fun read asked => spared read asked ?_
      rw [keys_of_mem_wantedRead asked]
      exact List.mem_singleton_self _
    obtain ⟨unheld, entries, served⟩ := wantedRead_eq_nil_iff.1 nothing
    obtain rfl := Except.ok.inj ((at_hand entries unheld served).2.symm.trans same)
    exact ⟨entries, served, found entries⟩
  · intro all
    obtain ⟨unheld, served⟩ := all q (List.mem_singleton_self _)
    obtain ⟨entries, served⟩ := Option.isSome_iff_exists.1 served
    obtain ⟨nothing, answered⟩ := at_hand entries unheld served
    exact ⟨nothing, _, answered⟩

/-- The rows that may be asked for: those with changes held back, and those not served. -/
theorem named_wantedReads {pending : Bytes → Option Mutation} {keys : List Bytes} {slice : Slice}
    {key : Bytes} : (∃ read ∈ c.wantedReads pending keys slice, key ∈ read.keys) ↔
      key ∈ keys ∧ ((pending key).isSome = true ∨ c.served? ⟨key, slice⟩ = none) := by
  have together : key ∈ c.missingKeys pending keys slice ↔
      ∃ read ∈ if c.missingKeys pending keys slice = [] then []
        else [TableRead.slices (c.missingKeys pending keys slice) slice], key ∈ read.keys := by
    by_cases complete : c.missingKeys pending keys slice = []
    · simp [complete]
    · simp [complete, TableRead.keys]
  have alone : (∃ read ∈ heldReads pending slice keys.eraseDups, key ∈ read.keys) ↔
      key ∈ keys ∧ (pending key).isSome = true := by
    simp [heldReads, TableRead.keys, and_comm]
  simp only [wantedReads, List.mem_append, or_and_right, exists_or]
  rw [alone, ← together, mem_missingKeys, ← and_or_left]
  cases pending key <;> simp

/-- Each key is answered in its place, whatever the order of the replies. -/
theorem lookup_requestSlices (calm : c.Calm) {pending : Bytes → Option Mutation}
    {keys : List Bytes} {slice : Slice} {rows : List KeyedRow}
    (same : (c.requestSlices granted t pending keys slice).1 = .ok rows) {key : Bytes}
    (there : key ∈ keys) : rows.lookup key = some (c.reply t (pending key) ⟨key, slice⟩) := by
  obtain ⟨-, shape, -⟩ := (requestSlices_exact calm t pending keys slice).2.2.1 rows same
  have order := List.filter_append_perm
    (fun key => !c.absent (pending key) ⟨key, slice⟩) keys.eraseDups
  simp only [Bool.not_not] at order
  have right : ∀ row ∈ rows, row.1 ∈ keys ∧
      row.2 = c.reply t (pending row.1) ⟨row.1, slice⟩ := by
    intro row member
    rw [shape] at member
    obtain ⟨key, inOrder, rfl⟩ := List.mem_map.1 member
    exact ⟨List.mem_eraseDups.1 (order.mem_iff.1 inOrder), rfl⟩
  have all : ∀ key ∈ keys, key ∈ rows.map Prod.fst := by
    intro key there
    rw [shape, List.map_map]
    exact List.mem_map.2 ⟨key, order.mem_iff.2 (List.mem_eraseDups.2 there), rfl⟩
  rw [lookup_eq_ite (f := fun key => c.reply t (pending key) ⟨key, slice⟩) right all,
    if_pos there]

theorem requested_slices (calm : c.Calm) (t : Table) (pending : Bytes → Option Mutation)
    (keys : List Bytes) (slice : Slice) : ∃ sent,
    (c.request granted t pending (.slices keys slice)).2.2.monitor.log = c.monitor.log ++ sent ∧
    Requested c pending (.slices keys slice) (c.request granted t pending (.slices keys slice)).1 sent := by
  obtain ⟨⟨sent, start, log⟩, done, all, -⟩ := requestSlices_exact calm t pending keys slice
  refine ⟨sent, log, ?_, ?_, ?_⟩
  · intro q member unheld entries served
    obtain ⟨key, there, rfl⟩ := List.mem_map.1 member
    have unheld : pending key = none := unheld
    refine ⟨fun read inSent named => ?_, fun rows same => ?_⟩
    · rcases (named_wantedReads.1 ⟨read, start.subset inSent, named⟩).2 with held | unserved
      · simp [unheld] at held
      · simp [served] at unserved
    · rw [lookup_requestSlices calm same there]
      simp [reply, unheld, served]
  · intro rows same q member unnamed
    obtain ⟨key, there, rfl⟩ := List.mem_map.1 member
    obtain rfl : sent = c.wantedReads pending keys slice :=
      List.append_cancel_left (log.symm.trans (all rows same).1)
    have spared : ¬ ∃ read ∈ c.wantedReads pending keys slice, key ∈ read.keys := by
      rintro ⟨read, inSent, named⟩
      exact unnamed read inSent named
    rw [named_wantedReads] at spared
    obtain ⟨held, unserved⟩ := not_or.1 (not_and.1 spared there)
    have unheld : pending key = none := by simpa using held
    obtain ⟨entries, served⟩ := Option.ne_none_iff_exists'.1 unserved
    refine ⟨entries, served, ?_⟩
    rw [lookup_requestSlices calm same there]
    simp [reply, unheld, served]
  · intro every
    have each : ∀ key ∈ keys, pending key = none ∧ (c.served? ⟨key, slice⟩).isSome = true :=
      fun key there => every ⟨key, slice⟩ (List.mem_map_of_mem there)
    have complete : c.missingKeys pending keys slice = [] := by
      refine List.eq_nil_iff_forall_not_mem.2 fun key missing => ?_
      obtain ⟨there, -, unserved⟩ := mem_missingKeys.1 missing
      simpa [unserved] using (each key there).2
    have nothing : c.wantedReads pending keys slice = [] := by
      have unheld : heldReads pending slice keys.eraseDups = [] := by
        simp only [heldReads, List.map_eq_nil_iff, List.filter_eq_nil_iff]
        intro key there
        simp [(each key (List.mem_eraseDups.1 there)).1]
      rw [wantedReads, unheld, if_pos complete]
      rfl
    rw [nothing] at start
    exact ⟨List.prefix_nil.1 start, done (.inr nothing)⟩

/-- Whatever is read, the table is asked for no row that is served, and for every other. -/
theorem requested (calm : c.Calm) (t : Table) (pending : Bytes → Option Mutation)
    (r : TableRead) : ∃ sent,
    (c.request granted t pending r).2.2.monitor.log = c.monitor.log ++ sent ∧
    Requested c pending r (c.request granted t pending r).1 sent :=
  match r with
  | .slice q => requested_slice calm t pending q
  | .slices keys slice => requested_slices calm t pending keys slice

/-- What waits to be kept are answers of the table to queries that were not served, and are
also what the read answers. -/
theorem fills_request (calm : c.Calm) (t : Table) (pending : Bytes → Option Mutation)
    (r : TableRead) {f : Fill} (member : f ∈ (c.request granted t pending r).2.1) :
    f.entries = t.readSlice f.query ∧ f.query ∈ r.queries ∧ pending f.query.key = none ∧
      c.served? f.query = none ∧ ∀ rows, (c.request granted t pending r).1 = .ok rows →
        rows.lookup f.query.key = some f.entries := by
  cases r with
  | slice q =>
      obtain ⟨-, -, fills⟩ := requestSlice_exact calm t (pending q.key) q
      obtain ⟨query, entries, absent, outcome⟩ := fills f member
      obtain ⟨unheld, unserved⟩ := Bool.and_eq_true_iff.1 absent
      refine ⟨query ▸ entries, query ▸ List.mem_singleton_self q,
        query ▸ Option.isNone_iff_eq_none.1 unheld, query ▸ Option.isNone_iff_eq_none.1 unserved,
        fun rows same => ?_⟩
      rw [request] at same
      dsimp only at same
      rw [outcome] at same
      obtain rfl := Except.ok.inj same
      simp [query]
  | slices keys slice =>
      obtain ⟨entries, cut, missing⟩ :=
        (requestSlices_exact calm t pending keys slice).2.2.2 f member
      obtain ⟨there, unheld, unserved⟩ := mem_missingKeys.1 missing
      have query : ⟨f.query.key, slice⟩ = f.query := by rw [← cut]
      refine ⟨entries, List.mem_map.2 ⟨f.query.key, there, query⟩, unheld, query ▸ unserved,
        fun rows same => ?_⟩
      rw [lookup_requestSlices calm same there, reply_of_absent (List.mem_filter.1 missing).2,
        query, entries]

end StoreCache

namespace Storage

/-- A read through a cache of a table that may refuse reads, of one row or of several. -/
def readUnder (s : Storage) (cache : Nat) (t : Transaction) (refusals : Refusals)
    (r : TableRead) : Outcome (List KeyedRow) × Storage :=
  s.readThrough cache (.ok []) fun table c => c.read refusals table (t.pending c.name) r

/-- A read through a cache, of one row or of several. -/
def read (s : Storage) (cache : Nat) (t : Transaction) (r : TableRead) :
    Outcome (List KeyedRow) × Storage := s.readUnder cache t granted r

theorem readUnder_of_there {s : Storage} {cache : Nat} {c : StoreCache}
    (there : s.caches[cache]? = some c) (t : Transaction) (refusals : Refusals) (r : TableRead) :
    s.readUnder cache t refusals r =
      ((c.read refusals (s.backend.table c.table) (t.pending c.name) r).1,
        s.onCache cache fun _ =>
          (c.read refusals (s.backend.table c.table) (t.pending c.name) r).2) := by
  rw [readUnder, readThrough, there]

theorem read_slice {s : Storage} {cache : Nat} {c : StoreCache}
    (there : s.caches[cache]? = some c) (t : Transaction) (q : KeySlice) :
    s.read cache t (.slice q) =
      ((s.getSlice cache t q).1.map fun entries => [(q.key, entries)],
        (s.getSlice cache t q).2) := by
  rw [read, readUnder, readThrough, getSlice, readThrough, there]
  rfl

end Storage

end PropertyGraph
