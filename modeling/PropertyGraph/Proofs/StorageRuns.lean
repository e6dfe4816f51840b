/-
# Proofs.StorageRuns -- what any run of a storage makes of one of its caches

A run is a list of events, one after the other: reads through any cache by any transaction,
writes through transactions, what is done to a cache itself, time passing, and backends that
change behind the caches.  Transactions are given as they are at the time of the event, with
whatever they hold back and whatever they are wrapped around.

* A cache stands at kept slices and a time (`StoreCache.At`); all that is done to it are
  slice events (`StoreCache.Turns`).
* Whatever happens to a storage, one of its caches goes through slice events that the event
  accounts for (`Storage.Causes`), and then through the fills that it leaves
  (`Storage.open_step`).
* It stays the cache that was opened (`Storage.open_run`).
-/
import PropertyGraph.Proofs.ReadRequests
import PropertyGraph.Proofs.SliceRuns
import PropertyGraph.Proofs.Storages

namespace PropertyGraph

set_option autoImplicit false

/-- A reader looks something up. -/
def SliceEvent.Looks : SliceEvent → Prop
  | .look _ => True
  | .find _ => True
  | _ => False

/-- A fill that arrives. -/
def StoreCache.Fill.event (f : StoreCache.Fill) : SliceEvent :=
  .fill f.query f.entries f.generation

namespace StoreCache

/-- What a cache keeps, and what time it is for it.  One that is off keeps nothing. -/
structure At (c : StoreCache) (on : Bool) (z : Clocked) : Prop where
  slices : c.slices = if on then some z.slices else none
  time : c.time = z.time
  quiet : c.interruption = none

/-- A cache in its place comes to stand at other slices, by events of a kind. -/
def Turns (c c' : StoreCache) (on : Bool) (z : Clocked) (kind : SliceEvent → Prop) : Prop :=
  c'.place = c.place ∧ ∃ events, c'.At on (z.run events) ∧ ∀ e ∈ events, kind e

variable {c c' : StoreCache} {on : Bool} {z : Clocked} {kind : SliceEvent → Prop}

theorem At.turns (stands : c.At on z) : c.Turns c on z kind :=
  ⟨rfl, [], stands, fun _ none => by cases none⟩

theorem Turns.trans {c'' : StoreCache} (first : c.Turns c' on z kind)
    (later : ∀ z, c'.At on z → c'.Turns c'' on z kind) : c.Turns c'' on z kind := by
  obtain ⟨place, events, stands, of_kind⟩ := first
  obtain ⟨place', events', stands', of_kind'⟩ := later _ stands
  refine ⟨place'.trans place, events ++ events', ?_, ?_⟩
  · rw [Clocked.run_append]
    exact stands'
  · intro e member
    exact (List.mem_append.1 member).elim (of_kind e) (of_kind' e)

theorem Turns.mono {kind' : SliceEvent → Prop} (turns : c.Turns c' on z kind)
    (weaker : ∀ e, kind e → kind' e) : c.Turns c' on z kind' := by
  obtain ⟨place, events, stands, of_kind⟩ := turns
  exact ⟨place, events, stands, fun e member => weaker e (of_kind e member)⟩

theorem At.record (stands : c.At on z) (event : CacheEvent) : (c.record event).At on z :=
  ⟨stands.slices, stands.time, stands.quiet⟩

theorem At.turns_record (stands : c.At on z) (event : CacheEvent) :
    c.Turns (c.record event) on z kind :=
  ⟨rfl, [], stands.record event, fun _ none => by cases none⟩

theorem At.turns_noting (stands : c.At on z) (monitor : ReadMonitor) :
    c.Turns { c with monitor } on z kind :=
  ⟨rfl, [], ⟨stands.slices, stands.time, stands.quiet⟩, nofun⟩

theorem At.turns_ask (stands : c.At on z) {α : Type} {refused : Option Fault} {read : TableRead}
    {answer : α} {outcome : Outcome α} (asked : c.ask refused read answer = (outcome, c')) :
    c.Turns c' on z kind := by
  rw [ask_of_quiet stands.quiet] at asked
  obtain rfl := (Prod.mk.inj asked).2
  exact stands.turns_noting _

theorem At.turns_readPending (stands : c.At on z) {refused : Option Fault} {t : Table}
    {m : Mutation} {q : KeySlice} {outcome : Outcome (List Entry)}
    (asked : c.readPending refused t m q = (outcome, c')) : c.Turns c' on z kind := by
  rw [readPending_of_quiet stands.quiet] at asked
  obtain rfl := (Prod.mk.inj asked).2
  exact stands.turns_noting _

/-- A key that is not marked is looked for. -/
theorem At.turns_found (stands : c.At on z) {q : KeySlice} {s s' s'' : SliceCache}
    {got : Option (List Entry)} (kept : c.slices = some s)
    (looked : s.isExpired c.time q.key = (false, s')) (found : s'.get c.time q = (got, s'')) :
    c.Turns { c with slices := some s'' } on z SliceEvent.Looks := by
  refine ⟨rfl, [.look q.key, .find q], ⟨?_, stands.time, stands.quiet⟩, by simp [SliceEvent.Looks]⟩
  rw [stands.slices] at kept
  rw [stands.time] at looked found
  cases on with
  | false => cases kept
  | true =>
      obtain rfl : z.slices = s := Option.some.inj kept
      simp [Clocked.run, Clocked.step, looked, found]

theorem At.turns_consult (stands : c.At on z) {q : KeySlice} {consultation : Consultation}
    (known : c.consult q = (consultation, c')) : c.Turns c' on z SliceEvent.Looks := by
  have goes := c.consult_goes q
  rw [known] at goes
  cases goes with
  | off disabled => exact stands.turns
  | @marked s s' kept looked =>
      refine ⟨rfl, [.look q.key], ⟨?_, stands.time, stands.quiet⟩, by simp [SliceEvent.Looks]⟩
      rw [stands.slices] at kept
      rw [stands.time] at looked
      cases on with
      | false => cases kept
      | true =>
          obtain rfl : z.slices = s := Option.some.inj kept
          simp [Clocked.run, Clocked.step, looked]
  | hit kept looked found => exact stands.turns_found kept looked found
  | absent kept looked found => exact stands.turns_found kept looked found

theorem At.turns_requestSlice (stands : c.At on z) (refusals : Refusals) (t : Table)
    (pending : Option Mutation) (q : KeySlice) :
    c.Turns (c.requestSlice refusals t pending q).2.2 on z SliceEvent.Looks := by
  have goes := c.requestSlice_goes refusals t pending q
  have counted : c.Turns (c.record (.retrieval 1)) on z SliceEvent.Looks :=
    stands.turns_record (.retrieval 1)
  generalize c.requestSlice refusals t pending q = request at goes ⊢
  cases goes with
  | overlaid held asked =>
      exact (counted.trans fun _ stands => stands.turns_record (.miss 1)).trans
        fun _ stands => stands.turns_readPending asked
  | served unheld known => exact counted.trans fun _ stands => stands.turns_consult known
  | missed unheld known unserved asked =>
      exact ((counted.trans fun _ stands => stands.turns_consult known).trans
        fun _ stands => stands.turns_record (.miss 1)).trans fun _ stands => stands.turns_ask asked

theorem At.turns_gather (stands : c.At on z) (refusals : Refusals) (t : Table)
    (pending : Bytes → Option Mutation) (slice : Slice) (keys : List Bytes) (g : Gathering) :
    c.Turns (gather refusals t pending slice keys g c).2 on z SliceEvent.Looks := by
  have goes := gather_goes refusals t pending slice keys g c
  generalize gather refusals t pending slice keys g c = gathered at goes ⊢
  induction goes generalizing z with
  | done => exact stands.turns
  | refused held asked => exact stands.turns_readPending asked
  | overlaid held asked later ih =>
      exact (stands.turns_readPending asked).trans fun _ stands => ih stands
  | consulted unheld known later ih =>
      exact (stands.turns_consult known).trans fun _ stands => ih stands

theorem At.turns_requestSlices (stands : c.At on z) (refusals : Refusals) (t : Table)
    (pending : Bytes → Option Mutation) (keys : List Bytes) (slice : Slice) :
    c.Turns (c.requestSlices refusals t pending keys slice).2.2 on z SliceEvent.Looks := by
  have gathers := (stands.turns_record (.retrieval (UInt64.ofNat keys.length))).trans
    fun z stands => stands.turns_gather refusals t pending slice keys.eraseDups Gathering.start
  have goes := c.requestSlices_goes refusals t pending keys slice
  generalize c.requestSlices refusals t pending keys slice = request at goes ⊢
  cases goes with
  | stopped gathered =>
      rw [gathered] at gathers
      exact gathers
  | complete gathered nothing =>
      rw [gathered] at gathers
      exact gathers.trans fun _ stands => stands.turns_record _
  | refused gathered missing asked =>
      rw [gathered] at gathers
      exact (gathers.trans fun _ stands => stands.turns_record _).trans
        fun _ stands => stands.turns_ask asked
  | fetched gathered missing asked =>
      rw [gathered] at gathers
      exact (gathers.trans fun _ stands => stands.turns_record _).trans
        fun _ stands => stands.turns_ask asked

/-- A request looks some queries up. -/
theorem At.turns_request (stands : c.At on z) (refusals : Refusals) (t : Table)
    (pending : Bytes → Option Mutation) (r : TableRead) :
    c.Turns (c.request refusals t pending r).2.2 on z SliceEvent.Looks :=
  match r with
  | .slice q => stands.turns_requestSlice refusals t (pending q.key) q
  | .slices keys slice => stands.turns_requestSlices refusals t pending keys slice

theorem At.fill (stands : c.At on z) (f : Fill) : (c.fill f).At on (z.step f.event) := by
  refine ⟨?_, stands.time, stands.quiet⟩
  rw [StoreCache.fill, stands.slices, stands.time]
  cases on <;> rfl

theorem At.fillAll (stands : c.At on z) (fills : List Fill) :
    (c.fillAll fills).At on (z.run (fills.map Fill.event)) := by
  induction fills generalizing c z with
  | nil => exact stands
  | cons f rest ih => exact ih (stands.fill f)

theorem place_fillAll (fills : List Fill) (c : StoreCache) :
    (c.fillAll fills).place = c.place := by
  induction fills generalizing c with
  | nil => rfl
  | cons f rest ih => exact ih (c.fill f)

theorem At.advance (stands : c.At on z) (ticks : Nat) :
    (c.advance ticks).At on (z.step (.pass ticks)) :=
  ⟨stands.slices, congrArg (· + ticks) stands.time, stands.quiet⟩

theorem At.invalidate (stands : c.At on z) (key : Bytes) :
    (c.invalidate key).At on (z.step (.invalidate key)) := by
  unfold StoreCache.invalidate
  rw [stands.slices, stands.time]
  cases on with
  | false => exact ⟨stands.slices, stands.time, stands.quiet⟩
  | true => exact ⟨rfl, rfl, stands.quiet⟩

theorem At.invalidateEach (stands : c.At on z) (keys : List Bytes) :
    (keys.foldl StoreCache.invalidate c).At on (z.run (keys.map .invalidate)) := by
  induction keys generalizing c z with
  | nil => exact stands
  | cons key rest ih => exact ih (stands.invalidate key)

theorem At.clean (stands : c.At on z) : c.clean.2.At on (z.step .clean) := by
  unfold StoreCache.clean
  rw [stands.slices, stands.time]
  cases on with
  | false => exact ⟨stands.slices, stands.time, stands.quiet⟩
  | true => exact ⟨rfl, rfl, stands.quiet⟩

theorem At.clear (stands : c.At on z) : c.clear.At on (z.run [.clean, .clear]) := by
  unfold StoreCache.clear
  rw [stands.slices, stands.time]
  cases on with
  | false => exact ⟨stands.slices, stands.time, stands.quiet⟩
  | true => exact ⟨rfl, rfl, stands.quiet⟩

theorem At.close (stands : c.At on z) : c.close.At on (z.step .clear) := by
  refine ⟨?_, stands.time, stands.quiet⟩
  rw [StoreCache.close, stands.slices]
  cases on <;> rfl

end StoreCache

/-! ## Events of a storage -/

/-- What happens to a storage. -/
inductive StorageEvent where
  /-- A read through a cache.  Some time passes between the answer of the table and its being
  kept. -/
  | read (t : Transaction) (cache : Nat) (r : TableRead) (ticks : Nat)
  | mutate (t : Transaction) (cache : Nat) (key : Bytes) (m : Mutation)
  | flush (t : Transaction)
  | commit (t : Transaction)
  | tend (cache : Nat) (action : CacheAction)
  | closeCache (cache : Nat)
  | pass (ticks : Nat)
  /-- The backend changes behind the caches. -/
  | become (backend : Backend)
  /-- In which orders the coming flushes go through rows. -/
  | shuffle (orders : List RowOrder)
  /-- Reads of a table are going to fail. -/
  | failReads (cache : Nat) (failure : BackendKind) (times : Nat)
  /-- What chance decides of the coming invalidations. -/
  | toss (cache : Nat) (coins : List Bool)

namespace WriteBuffer

/-- The rows that a flush makes bypass their caches. -/
def flushedRows (b : WriteBuffer) (s : Storage) : List (Nat × Bytes) :=
  if b.count = 0 then [] else (b.arranged s.nextOrder).heldRows

/-- The rows that flushes in turn make bypass their caches, up to the first that fails. -/
def flushedRowsAll : List WriteBuffer → Storage → List (Nat × Bytes)
  | [], _ => []
  | b :: rest, s =>
      b.flushedRows s ++
        match b.flush s with
        | (.ok _, _, s) => flushedRowsAll rest s
        | (.error _, _, _) => []

end WriteBuffer

namespace Storage

/-- The rows that an event makes bypass their caches. -/
def invalidated (s : Storage) : StorageEvent → List (Nat × Bytes)
  | .tend cache (.invalidate key) => [(cache, key)]
  | .mutate t cache key m =>
      match s.caches[cache]? with
      | some c =>
          let held := t.buffer.hold cache c.name key m
          if m.total ≠ 0 ∧ held.options.continuous = true ∧ held.options.bufferSize ≤ held.count
          then held.flushedRows s else []
      | none => []
  | .flush t => t.buffer.flushedRows s
  | .commit t => WriteBuffer.flushedRowsAll (t.buffer :: t.inner) s
  | _ => []

/-- All of an event but the filling in. -/
def begin (s : Storage) : StorageEvent → Storage
  | .read t cache r ticks =>
      (s.readThrough cache () fun table c =>
        ((), (c.request granted table (t.pending c.name) r).2.2)).2.advance ticks
  | .mutate t cache key m => (s.mutateEntries cache t key m).2.2
  | .flush t => (t.flush s).2.2
  | .commit t => (t.commit s).2.2
  | .tend cache action => s.onCache cache fun c => c.perform action
  | .closeCache cache => s.onCache cache StoreCache.close
  | .pass ticks => s.advance ticks
  | .become backend => { s with backend }
  | .shuffle orders => s.shuffled orders
  | .failReads cache failure times =>
      s.onCache cache fun c => { c with monitor := c.monitor.failNext failure times }
  | .toss cache coins =>
      s.onCache cache fun c => { c with slices := c.slices.map fun s => { s with coins } }

/-- What an event leaves to be filled in to a cache. -/
def fills (s : Storage) (i : Nat) : StorageEvent → List StoreCache.Fill
  | .read t cache r _ =>
      if cache = i then
        match s.caches[i]? with
        | some c => (c.request granted (s.backend.table c.table) (t.pending c.name) r).2.1
        | none => []
      else []
  | _ => []

def step (s : Storage) (e : StorageEvent) : Storage :=
  { s.begin e with caches := (s.begin e).caches.mapIdx fun i c => c.fillAll (s.fills i e) }

def run (events : List StorageEvent) (s : Storage) : Storage := events.foldl step s

/-- The keys of a cache among some rows. -/
def keysOf (rows : List (Nat × Bytes)) (i : Nat) : List Bytes :=
  (rows.filter fun row => row.1 == i).map Prod.snd

theorem mem_keysOf {rows : List (Nat × Bytes)} {i : Nat} {key : Bytes} :
    key ∈ keysOf rows i ↔ (i, key) ∈ rows := by
  simp [keysOf]

/-- All that becomes of the caches is that some rows bypass them. -/
def Bypassed (s s' : Storage) (rows : List (Nat × Bytes)) : Prop :=
  ∀ i, s'.caches[i]? = s.caches[i]?.map fun c => (keysOf rows i).foldl StoreCache.invalidate c

theorem bypassed_nil (s : Storage) : s.Bypassed s [] := fun _ => Option.map_id'.symm

theorem Bypassed.append {s s' s'' : Storage} {rows rows' : List (Nat × Bytes)}
    (first : s.Bypassed s' rows) (later : s'.Bypassed s'' rows') :
    s.Bypassed s'' (rows ++ rows') := by
  intro i
  rw [later, first, Option.map_map]
  simp only [keysOf, List.filter_append, List.map_append, List.foldl_append]
  rfl

theorem bypassed_flush (b : WriteBuffer) (s : Storage) :
    s.Bypassed (b.flush s).2.2 (b.flushedRows s) := by
  unfold WriteBuffer.flushedRows
  by_cases nothing : b.count = 0
  · rw [WriteBuffer.flush_of_nothing nothing, if_pos nothing]
    exact s.bypassed_nil
  · rw [WriteBuffer.flush_of_something nothing, if_neg nothing]
    exact WriteBuffer.caches_invalidateHeld _ _

theorem bypassed_flushAll (buffers : List WriteBuffer) (s : Storage) :
    s.Bypassed (Transaction.flushAll buffers s).2.2 (WriteBuffer.flushedRowsAll buffers s) := by
  induction buffers generalizing s with
  | nil => exact s.bypassed_nil
  | cons b rest ih =>
      have first := bypassed_flush b s
      unfold Transaction.flushAll WriteBuffer.flushedRowsAll
      rcases flushed : b.flush s with ⟨fault | u, b', s'⟩ <;> rw [flushed] at first
      · simpa using first
      · exact first.append (ih s')

theorem bypassed_commit (t : Transaction) (s : Storage) :
    s.Bypassed (t.commit s).2.2 (WriteBuffer.flushedRowsAll (t.buffer :: t.inner) s) := by
  have same : (t.commit s).2.2 = (Transaction.flushAll (t.buffer :: t.inner) s).2.2 := by
    rw [Transaction.flushAll]
    unfold Transaction.commit Transaction.flush
    rcases t.buffer.flush s with ⟨fault | u, b', s'⟩ <;> rfl
  rw [same]
  exact bypassed_flushAll _ s

theorem bypassed_mutate (s : Storage) (t : Transaction) (cache : Nat) (key : Bytes)
    (m : Mutation) :
    s.Bypassed (s.mutateEntries cache t key m).2.2 (s.invalidated (.mutate t cache key m)) := by
  simp only [mutateEntries, invalidated]
  cases s.caches[cache]? with
  | none => exact s.bypassed_nil
  | some c =>
      simp only [Transaction.mutate, WriteBuffer.mutate]
      by_cases nothing : m.total = 0
      · simp only [nothing, if_true, ne_eq, not_true_eq_false, false_and, if_false]
        exact s.bypassed_nil
      · simp only [nothing, if_false, ne_eq, not_false_eq_true, true_and, Bool.and_eq_true,
          decide_eq_true_eq]
        split
        · exact bypassed_flush _ s
        · exact s.bypassed_nil

/-- What an event can do to a cache before anything is filled in. -/
def Causes (s : Storage) (e : StorageEvent) (i : Nat) : SliceEvent → Prop
  | .fill .. => False
  | .invalidate key => (i, key) ∈ s.invalidated e
  | .clear => e = .tend i .clear ∨ e = .closeCache i
  | _ => True

variable {s : Storage} {i : Nat} {c : StoreCache} {on : Bool} {z : Clocked}

theorem Bypassed.turns {s' : Storage} {e : StorageEvent}
    (bypassed : s.Bypassed s' (s.invalidated e)) (there : s.caches[i]? = some c)
    (stands : c.At on z) :
    ∃ c', s'.caches[i]? = some c' ∧ c.Turns c' on z (s.Causes e i) := by
  refine ⟨_, (bypassed i).trans (congrArg _ there), StoreCache.place_invalidateEach _ c, _,
    stands.invalidateEach _, ?_⟩
  intro ev member
  obtain ⟨key, named, rfl⟩ := List.mem_map.1 member
  exact mem_keysOf.1 named

/-- One operation on one of the caches. -/
theorem turns_onCache {f : StoreCache → StoreCache} {j : Nat} {kind : SliceEvent → Prop}
    (there : s.caches[i]? = some c) (stands : c.At on z)
    (turns : j = i → c.Turns (f c) on z kind) :
    ∃ c', (s.onCache j f).caches[i]? = some c' ∧ c.Turns c' on z kind := by
  rw [getElem?_onCache, there]
  by_cases here : j = i
  · rw [if_pos here]
    exact ⟨f c, rfl, turns here⟩
  · rw [if_neg here]
    exact ⟨c, rfl, stands.turns⟩

theorem getElem?_advance (s : Storage) (ticks i : Nat) :
    (s.advance ticks).caches[i]? = s.caches[i]?.map fun c => c.advance ticks :=
  List.getElem?_map ..

/-- What an event does to a cache before anything is filled in. -/
theorem turns_begin (there : s.caches[i]? = some c) (stands : c.At on z) (e : StorageEvent) :
    ∃ c', (s.begin e).caches[i]? = some c' ∧ c.Turns c' on z (s.Causes e i) := by
  have passed : ∀ {c : StoreCache} {z} (_ : c.At on z) (e : StorageEvent) (ticks : Nat),
      c.Turns (c.advance ticks) on z (s.Causes e i) := fun stands e ticks =>
    ⟨rfl, [.pass ticks], stands.advance ticks, by simp [Causes]⟩
  cases e with
  | read t j r ticks =>
      have looked : ∃ c', (s.readThrough j () fun table c =>
          ((), (c.request granted table (t.pending c.name) r).2.2)).2.caches[i]? = some c' ∧
          c.Turns c' on z (s.Causes (.read t j r ticks) i) := by
        unfold readThrough
        cases found : s.caches[j]? with
        | none => exact ⟨c, there, stands.turns⟩
        | some d =>
            refine turns_onCache there stands fun here => ?_
            subst here
            obtain rfl := Option.some.inj (there.symm.trans found)
            refine (stands.turns_request granted _ _ r).mono fun ev looks => ?_
            cases ev with
            | look key => trivial
            | find q => trivial
            | _ => cases looks
      obtain ⟨c', there', turns⟩ := looked
      refine ⟨c'.advance ticks, ?_, turns.trans fun z stands => passed stands _ ticks⟩
      rw [begin, getElem?_advance, there']
      rfl
  | mutate t j key m => exact (s.bypassed_mutate t j key m).turns there stands
  | flush t => exact (bypassed_flush t.buffer s).turns (e := .flush t) there stands
  | commit t => exact (bypassed_commit t s).turns (e := .commit t) there stands
  | tend j action =>
      refine turns_onCache there stands fun here => ?_
      refine ⟨c.place_perform action, ?_⟩
      cases action with
      | clear => exact ⟨_, stands.clear, by simp [Causes, here]⟩
      | clean => exact ⟨[.clean], stands.clean, by simp [Causes]⟩
      | invalidate key =>
          exact ⟨[.invalidate key], stands.invalidate key, by simp [Causes, invalidated, here]⟩
  | closeCache j =>
      refine turns_onCache there stands fun here => ?_
      exact ⟨rfl, [.clear], stands.close, by simp [Causes, here]⟩
  | pass ticks =>
      refine ⟨c.advance ticks, ?_, passed stands _ ticks⟩
      rw [begin, getElem?_advance, there]
      rfl
  | become backend | shuffle orders => exact ⟨c, there, stands.turns⟩
  | failReads j failure times =>
      refine turns_onCache there stands fun _ => ?_
      exact ⟨rfl, [], ⟨stands.slices, stands.time, stands.quiet⟩, fun _ none => by cases none⟩
  | toss j coins =>
      refine turns_onCache there stands fun _ => ?_
      refine ⟨rfl, [.toss coins], ⟨?_, stands.time, stands.quiet⟩, by simp [Causes]⟩
      simp only [stands.slices]
      cases on <;> rfl

theorem getElem?_step (s : Storage) (e : StorageEvent) (i : Nat) :
    (s.step e).caches[i]? = (s.begin e).caches[i]?.map fun c => c.fillAll (s.fills i e) :=
  List.getElem?_mapIdx ..

/-- What a read answers, and what it leaves in the monitor, are those of its request. -/
theorem read_spec (there : s.caches[i]? = some c) (t : Transaction) (r : TableRead) :
    let request := c.request granted (s.backend.table c.table) (t.pending c.name) r
    (s.read i t r).1 = request.1 ∧ ∃ c', (s.read i t r).2.caches[i]? = some c' ∧
      c'.monitor = request.2.2.monitor := by
  intro request
  rw [Storage.read, readUnder_of_there there]
  refine ⟨rfl, _, ?_, StoreCache.monitor_fillAll request.2.1⟩
  rw [getElem?_onCache, if_pos rfl, there]
  rfl

/-- What is filled in are answers of the table to queries that are not served. -/
theorem mem_fills {f : StoreCache.Fill} {e : StorageEvent} (there : s.caches[i]? = some c)
    (calm : c.Calm) (member : f ∈ s.fills i e) :
    (s.begin e).backend = s.backend ∧
      f.entries = (s.backend.table c.table).readSlice f.query ∧ c.served? f.query = none := by
  cases e with
  | read t j r ticks =>
      simp only [fills] at member
      split at member
      · rw [there] at member
        obtain ⟨entries, -, -, unserved, -⟩ := StoreCache.fills_request calm _ _ r member
        refine ⟨?_, entries, unserved⟩
        simp only [begin, readThrough]
        cases s.caches[j]? <;> rfl
      · cases member
  | _ => cases member

theorem run_append (before after : List StorageEvent) (s : Storage) :
    s.run (before ++ after) = (s.run before).run after :=
  List.foldl_append ..

theorem run_concat (events : List StorageEvent) (e : StorageEvent) (s : Storage) :
    s.run (events ++ [e]) = (s.run events).step e :=
  s.run_append events [e]

end Storage

/-! ## Runs -/

namespace StoreCache

variable {c : StoreCache} {on : Bool} {z : Clocked}

/-- A cache that stands at slices in order. -/
theorem At.calm (stands : c.At on z) (sound : z.Sound) : c.Calm := by
  refine ⟨stands.quiet, fun s kept => ?_⟩
  rw [stands.slices] at kept
  cases on with
  | false => cases kept
  | true => exact Option.some.inj kept ▸ sound.ordered

theorem At.served? (stands : c.At on z) (q : KeySlice) :
    c.served? q = if on then z.slices.served? z.time q else none := by
  rw [StoreCache.served?, stands.slices, stands.time]
  cases on <;> rfl

end StoreCache

namespace Storage

/-- The cache in a place, by the options it was opened with and what it keeps now. -/
structure Open (s : Storage) (i : Nat) (o : Opening) (c : StoreCache) (z : Clocked) : Prop where
  there : s.caches[i]? = some c
  name : c.name = o.name
  stands : c.At o.options.enabled z
  sound : z.Sound
  constants : z.slices.constants = (SliceCache.create o.options.shards o.options.maxBytes
    o.options.cacheTime o.options.cleanWait o.route).constants

theorem Open.cacheTime {s : Storage} {i : Nat} {o : Opening} {c : StoreCache} {z : Clocked}
    (opened : s.Open i o c z) :
    z.slices.cacheTime = if o.options.cacheTime = 0 then none else some o.options.cacheTime :=
  congrArg Prod.fst opened.constants

/-- What an event makes of a cache: some events before anything is filled in, and the fills. -/
theorem open_step {s : Storage} {i : Nat} {o : Opening} {c : StoreCache} {z : Clocked}
    (opened : s.Open i o c z) (e : StorageEvent) :
    ∃ c₁ c' events, (s.begin e).Open i o c₁ (z.run events) ∧ c₁.table = c.table ∧
      (∀ ev ∈ events, s.Causes e i ev) ∧ c' = c₁.fillAll (s.fills i e) ∧
      (s.step e).Open i o c' ((z.run events).run ((s.fills i e).map StoreCache.Fill.event)) := by
  obtain ⟨c₁, there, place, events, stands, causes⟩ := turns_begin opened.there opened.stands e
  obtain ⟨table, name⟩ := Prod.mk.inj place
  have begun : (s.begin e).Open i o c₁ (z.run events) :=
    ⟨there, name.trans opened.name, stands, Clocked.sound_run opened.sound events,
      (z.constants_run events).trans opened.constants⟩
  refine ⟨c₁, _, events, begun, table, causes, rfl, ?_⟩
  refine ⟨?_, ?_, stands.fillAll _, Clocked.sound_run begun.sound _,
    ((z.run events).constants_run _).trans begun.constants⟩
  · rw [getElem?_step, there]
    rfl
  · exact (Prod.mk.inj (StoreCache.place_fillAll (s.fills i e) c₁)).2.trans begun.name

/-- The caches of a prepared storage are those that were opened, each before some table. -/
theorem caches_prepared (rows : List Cell) (openings : List Opening) :
    (prepared rows openings).caches.map (fun c => { c with table := 0 }) =
      openings.map fun o => StoreCache.create 0 o.name o.options o.metrics o.route := by
  have opened : ∀ (openings : List Opening) (s : Storage),
      (openings.foldl (fun s o => (s.openCache o.name o.options o.metrics o.route).2) s).caches.map
          (fun c => { c with table := 0 }) =
        s.caches.map (fun c => { c with table := 0 }) ++
          openings.map fun o => StoreCache.create 0 o.name o.options o.metrics o.route := by
    intro openings
    induction openings with
    | nil => exact fun s => (List.append_nil _).symm
    | cons o rest ih =>
        intro s
        rw [List.foldl_cons, ih]
        simp [openCache, StoreCache.create]
  exact opened openings _

theorem open_prepared (rows : List Cell) {openings : List Opening} {i : Nat} {o : Opening}
    (there : openings[i]? = some o) : ∃ c, (prepared rows openings).Open i o c
      (.start o.options.shards o.options.maxBytes o.options.cacheTime o.options.cleanWait
        o.route) := by
  have place : ((prepared rows openings).caches.map fun c => { c with table := 0 })[i]? =
      some (StoreCache.create 0 o.name o.options o.metrics o.route) := by
    rw [caches_prepared, List.getElem?_map, there]
    rfl
  rw [List.getElem?_map] at place
  obtain ⟨c, found, same⟩ := Option.map_eq_some_iff.1 place
  refine ⟨c, found, ?_, ⟨?_, ?_, ?_⟩, Clocked.sound_start .., rfl⟩
  · exact congrArg StoreCache.name same
  · exact congrArg StoreCache.slices same
  · exact congrArg StoreCache.time same
  · exact congrArg StoreCache.interruption same

/-- A cache stays the one that was opened, whatever happens. -/
theorem open_run {s : Storage} {i : Nat} {o : Opening} {c : StoreCache} {z : Clocked}
    (opened : s.Open i o c z) (events : List StorageEvent) :
    ∃ c' z', (s.run events).Open i o c' z' ∧ c'.table = c.table ∧ z.time ≤ z'.time := by
  induction events generalizing s c z with
  | nil => exact ⟨c, z, opened, rfl, Nat.le_refl _⟩
  | cons e rest ih =>
      obtain ⟨c₁, c', events, -, table, -, filled, opened'⟩ := open_step opened e
      obtain ⟨c'', z'', opened'', table', later⟩ := ih opened'
      have same : c'.table = c₁.table :=
        filled ▸ (Prod.mk.inj (StoreCache.place_fillAll (s.fills i e) c₁)).1
      refine ⟨c'', z'', opened'', table'.trans (same.trans table), ?_⟩
      calc z.time ≤ (z.run events).time := Clocked.time_le_run events z
        _ ≤ ((z.run events).run _).time := Clocked.time_le_run _ _
        _ ≤ z''.time := later

end Storage

end PropertyGraph
