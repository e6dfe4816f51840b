/-
# Proofs.MissCounts -- counted misses against the keys that a store is asked for

Every read of a store names keys, and a cache counts a miss for each of them, with one
exception: a call for several rows counts its misses when it has gone through all keys, so
if a read of a row with changes held back is refused before that, none of the reads that the
call has sent is counted (`TableRead.forgone`).

* `StoreCache.Tallied` is the balance of a cache; events of its own store (`Tallied.count`)
  and of others (`Tallied.share`) keep it, and so does whatever happens to a system
  (`System.tallied_occur`).
* `misses_and_forgone_reads` draws up the balance after any run.
-/
import PropertyGraph.Proofs.FailedReads

namespace PropertyGraph

set_option autoImplicit false

namespace CacheMetrics

theorem lookup_recordIn (name other : String) (counts : CacheCounts)
    (stores : List (String × CacheCounts)) :
    (recordIn name counts stores).lookup other =
      if other = name then some (((stores.lookup name).getD .zero).add counts)
      else stores.lookup other := by
  induction stores with
  | nil => simp [recordIn, lookup_cons_eq_ite, CacheCounts.zero_add]
  | cons s rest ih =>
      obtain ⟨here, old⟩ := s
      unfold recordIn
      by_cases found : here = name
      · subst found
        by_cases same : other = here <;> simp [lookup_cons_eq_ite, same]
      · rw [if_neg found, lookup_cons_eq_ite, lookup_cons_eq_ite, lookup_cons_eq_ite, ih,
          if_neg (Ne.symm found)]
        by_cases first : other = here
        · subst first
          simp [found]
        · simp [first]

/-- An event is counted for its own store, and for no other. -/
theorem store_record (m : CacheMetrics) (name other : String) (event : CacheEvent) :
    (m.record name event).store other =
      if other = name then (m.store name).add event.counts else m.store other := by
  rw [store, record, lookup_recordIn]
  split <;> rfl

theorem misses_recordAll (m : CacheMetrics) (name : String) (events : List CacheEvent) :
    ((m.recordAll name events).store name).misses =
      (m.store name).misses + CacheEvent.misses events := by
  unfold recordAll
  induction events generalizing m with
  | nil => exact (UInt64.add_zero _).symm
  | cons e rest ih =>
      rw [List.foldl_cons, ih, store_record, if_pos rfl]
      show (m.store name).misses + e.counts.misses + CacheEvent.misses rest = _
      rw [UInt64.add_assoc]
      rfl

theorem totals_recordAll {m : CacheMetrics} (agree : m.totals = sum m.stores) (name : String)
    (events : List CacheEvent) :
    (m.recordAll name events).totals = sum (m.recordAll name events).stores := by
  unfold recordAll
  induction events generalizing m with
  | nil => exact agree
  | cons e rest ih => exact ih (totals_record m name e agree)

end CacheMetrics

namespace StoreCache

theorem counted_nil (c : StoreCache) : c.counted [] = c.metrics := Option.map_id'

/-- The balance of a cache whose calls forgot to count some reads. -/
structure Tallied (c : StoreCache) (lost : Nat) : Prop where
  coherent : c.Coherent fun _ _ => True
  asked : c.monitor.keysRead = UInt64.ofNat (TableRead.named c.monitor.log)
  watched : c.metrics.isSome = true
  misses : c.counts.misses + UInt64.ofNat lost = c.monitor.keysRead
  totals : ∀ m, c.metrics = some m → m.totals = CacheMetrics.sum m.stores

namespace Tallied

variable {c c' : StoreCache} {lost : Nat}

/-- The keys that are asked for are counted, or forgotten. -/
theorem count (tallied : c.Tallied lost) {sent : List TableRead} {events : List CacheEvent}
    {more : Nat} (coherent : c'.Coherent fun _ _ => True) (name : c'.name = c.name)
    (log : c'.monitor.log = c.monitor.log ++ sent)
    (keysRead : c'.monitor.keysRead = c.monitor.keysRead + UInt64.ofNat (TableRead.named sent))
    (metrics : c'.metrics = c.counted events)
    (misses : CacheEvent.misses events + UInt64.ofNat more =
      UInt64.ofNat (TableRead.named sent)) : c'.Tallied (lost + more) := by
  obtain ⟨m, found⟩ := Option.isSome_iff_exists.1 tallied.watched
  have metrics : c'.metrics = some (m.recordAll c.name events) := by
    rw [metrics, counted, found]
    rfl
  have before : c.counts = m.store c.name := by rw [counts, found]; rfl
  have after : c'.counts = (m.recordAll c.name events).store c.name := by
    rw [counts, metrics, name]
    rfl
  refine ⟨coherent, ?_, by rw [metrics]; rfl, ?_, fun m' same => ?_⟩
  · rw [keysRead, tallied.asked, log, TableRead.named_append, UInt64.ofNat_add]
  · calc c'.counts.misses + UInt64.ofNat (lost + more)
        = c.counts.misses + UInt64.ofNat lost +
            (CacheEvent.misses events + UInt64.ofNat more) := by
          rw [after, CacheMetrics.misses_recordAll, ← before, UInt64.ofNat_add]
          ac_rfl
      _ = c'.monitor.keysRead := by rw [tallied.misses, misses, keysRead]
  · obtain rfl := Option.some.inj (metrics.symm.trans same)
    exact CacheMetrics.totals_recordAll (tallied.totals m found) c.name events

/-- Nothing is asked for, and at most events that are no misses are counted. -/
theorem quietly (tallied : c.Tallied lost) (events : List CacheEvent)
    (coherent : c'.Coherent fun _ _ => True) (name : c'.name = c.name)
    (log : c'.monitor.log = c.monitor.log) (keysRead : c'.monitor.keysRead = c.monitor.keysRead)
    (metrics : c'.metrics = c.counted events) (hits : CacheEvent.misses events = 0) :
    c'.Tallied lost :=
  have none : CacheEvent.misses events + UInt64.ofNat 0 = UInt64.ofNat (TableRead.named []) := by
    rw [hits]
    rfl
  tallied.count coherent name (log.trans (List.append_nil _).symm)
    (keysRead.trans (UInt64.add_zero _).symm) metrics none

/-- Another store counts an event. -/
theorem share (tallied : c.Tallied lost) {store : String} (other : store ≠ c.name)
    (event : CacheEvent) : (c.share store event).Tallied lost := by
  obtain ⟨m, found⟩ := Option.isSome_iff_exists.1 tallied.watched
  have metrics : (c.share store event).metrics = some (m.record store event) := by
    rw [StoreCache.share, found]
    rfl
  have same : (c.share store event).counts = c.counts := by
    rw [counts, counts, metrics, found]
    show (m.record store event).store c.name = m.store c.name
    rw [CacheMetrics.store_record, if_neg other.symm]
  refine ⟨⟨tallied.coherent.quiet, tallied.coherent.slices⟩, tallied.asked, by rw [metrics]; rfl,
    ?_, fun m' is => ?_⟩
  · rw [same]
    exact tallied.misses
  · obtain rfl := Option.some.inj (metrics.symm.trans is)
    exact CacheMetrics.totals_record m store event (tallied.totals m found)

theorem invalidate (tallied : c.Tallied lost) (key : Bytes) : (c.invalidate key).Tallied lost := by
  have coherent : (c.invalidate key).Coherent fun _ _ => True :=
    tallied.coherent.invalidate fun _ _ fine => .inl fine
  revert coherent
  unfold StoreCache.invalidate
  cases c.slices with
  | none => exact fun _ => tallied
  | some s => exact fun coherent => tallied.quietly [.invalidation] coherent rfl rfl rfl rfl rfl

theorem invalidateEach (tallied : c.Tallied lost) (keys : List Bytes) :
    (keys.foldl StoreCache.invalidate c).Tallied lost := by
  induction keys generalizing c with
  | nil => exact tallied
  | cons key rest ih => exact ih (tallied.invalidate key)

theorem perform (tallied : c.Tallied lost) (action : CacheAction) :
    (c.perform action).Tallied lost := by
  cases action with
  | invalidate key => exact tallied.invalidate key
  | clear =>
      have coherent : c.clear.Coherent fun _ _ => True := tallied.coherent.clear
      show c.clear.Tallied lost
      revert coherent
      unfold StoreCache.clear
      cases c.slices with
      | none => exact fun _ => tallied
      | some s => exact fun coherent => tallied.quietly [.clear] coherent rfl rfl rfl rfl rfl
  | clean =>
      have coherent : c.clean.2.Coherent fun _ _ => True := tallied.coherent.clean
      show c.clean.2.Tallied lost
      revert coherent
      unfold StoreCache.clean
      cases c.slices with
      | none => exact fun _ => tallied
      | some s =>
          exact fun coherent => tallied.quietly [] coherent rfl rfl rfl (counted_nil c).symm rfl

end Tallied

/-- The reads of a call that it forgets to count. -/
def forgone (c : StoreCache) (refusals : Refusals) (t : Table)
    (pending : Bytes → Option Mutation) (r : TableRead) : Nat :=
  let (outcome, after) := c.read refusals t pending r
  r.forgone outcome (after.monitor.log.drop c.monitor.log.length)

theorem metrics_fillAll (fills : List Fill) (c : StoreCache) :
    (c.fillAll fills).metrics = c.metrics := by
  induction fills generalizing c with
  | nil => rfl
  | cons f rest ih => exact ih (c.fill f)

theorem Tallied.read {c : StoreCache} {lost : Nat} (tallied : c.Tallied lost)
    (refusals : Refusals) (t : Table) (pending : Bytes → Option Mutation) (r : TableRead) :
    (c.read refusals t pending r).2.name = c.name ∧
      (c.read refusals t pending r).2.Tallied (lost + c.forgone refusals t pending r) := by
  obtain ⟨sent, events, served⟩ := served_request tallied.coherent refusals t pending r
  have reads : Reads (fun _ _ => True) c (c.read refusals t pending r).2 :=
    served.passage.reads.fillAll fun _ _ => trivial
  have name : (c.read refusals t pending r).2.name = c.name := (Prod.mk.inj reads.place).2
  have log : (c.read refusals t pending r).2.monitor.log = c.monitor.log ++ sent := by
    rw [StoreCache.read, monitor_fillAll, served.passage.log]
  have forgone : c.forgone refusals t pending r =
      r.forgone (c.request refusals t pending r).1 sent := by
    rw [StoreCache.forgone, StoreCache.read]
    dsimp only
    rw [monitor_fillAll, served.passage.log, List.drop_left]
  refine ⟨name, tallied.count reads.coherent name log ?_ ?_ (forgone ▸ served.misses)⟩
  · rw [StoreCache.read, monitor_fillAll, served.passage.keysRead]
  · rw [StoreCache.read, metrics_fillAll, served.passage.metrics]

end StoreCache

/-- A call of a session invalidates rows, and does no more to any cache. -/
theorem Storage.bypassed_perform (s : Storage) (x : Session) (call : Call) :
    ∃ rows, s.Bypassed (x.perform s call).2.2 rows := by
  cases call with
  | mutate cache key m => exact ⟨_, s.bypassed_mutate x.transaction cache key m⟩
  | flush => exact ⟨_, bypassed_flush x.transaction.buffer s⟩
  | commit => exact ⟨_, bypassed_commit x.transaction s⟩
  | rollback => exact ⟨[], s.bypassed_nil⟩

namespace System

/-- The reads that a call through the cache in place `i` forgets to count. -/
def forgoneBy (y : System) (i session cache : Nat) (refusals : Refusals) (r : TableRead) : Nat :=
  match y.sessions[session]?, y.storage.caches[i]? with
  | some x, some c =>
      if cache = i then
        c.forgone refusals (y.storage.backend.table c.table) (x.transaction.pending c.name) r
      else 0
  | _, _ => 0

/-- The reads that are not counted for the cache in place `i`. -/
def forgone (y : System) (i : Nat) : Occurrence → Nat
  | .act (.read session cache q) => y.forgoneBy i session cache granted (.slice q)
  | .act (.readMany session cache keys slice) =>
      y.forgoneBy i session cache granted (.slices keys slice)
  | .read session cache refusals r => y.forgoneBy i session cache refusals r
  | _ => 0

/-- The reads of a run that are not counted for the cache in place `i`. -/
def forgoneAll (i : Nat) : List Occurrence → System → Nat
  | [], _ => 0
  | e :: rest, y => y.forgone i e + forgoneAll i rest (y.occur e)

variable {y : System} {i : Nat} {c : StoreCache} {lost : Nat}

/-- The cache in a place, with its balance. -/
def Balanced (y : System) (i : Nat) (name : String) (lost : Nat) : Prop :=
  ∃ c, y.storage.caches[i]? = some c ∧ c.name = name ∧ c.Tallied lost

theorem balanced_onCache {s : Storage} (there : s.caches[i]? = some c) (tallied : c.Tallied lost)
    (j : Nat) {f : StoreCache → StoreCache}
    (keeps : j = i → (f c).name = c.name ∧ (f c).Tallied lost) (sessions : List Session) :
    Balanced ⟨s.onCache j f, sessions⟩ i c.name lost := by
  by_cases here : j = i
  · obtain ⟨name, tallied'⟩ := keeps here
    refine ⟨f c, ?_, name, tallied'⟩
    rw [Storage.getElem?_onCache, if_pos here, there]
    rfl
  · refine ⟨c, ?_, rfl, tallied⟩
    rw [Storage.getElem?_onCache, if_neg here, there]

theorem balanced_read (there : y.storage.caches[i]? = some c) (tallied : c.Tallied lost)
    (session cache : Nat) (refusals : Refusals) (r : TableRead) :
    (y.occur (.read session cache refusals r)).Balanced i c.name
      (lost + y.forgoneBy i session cache refusals r) := by
  unfold forgoneBy
  rw [there]
  simp only [occur, withSession]
  cases y.sessions[session]? with
  | none => exact ⟨c, there, rfl, tallied⟩
  | some x =>
      unfold Storage.readUnder Storage.readThrough
      by_cases here : cache = i
      · subst here
        obtain ⟨name, tallied'⟩ := tallied.read refusals (y.storage.backend.table c.table)
          (x.transaction.pending c.name) r
        simp only [there, if_true]
        refine ⟨_, ?_, name, tallied'⟩
        rw [Storage.getElem?_onCache, if_pos rfl, there]
        rfl
      · simp only [if_neg here]
        cases y.storage.caches[cache]? with
        | none => exact ⟨c, there, rfl, tallied⟩
        | some d => exact balanced_onCache there tallied cache (fun same => absurd same here) _

/-- Whatever happens, the balance of a cache is kept. -/
theorem balanced_occur (there : y.storage.caches[i]? = some c) (tallied : c.Tallied lost)
    (e : Occurrence) (others : ∀ store event, e = .share i store event → store ≠ c.name) :
    (y.occur e).Balanced i c.name (lost + y.forgone i e) := by
  cases e with
  | read session cache refusals r => exact balanced_read there tallied session cache refusals r
  | share cache store event =>
      refine balanced_onCache there tallied cache (fun here => ⟨rfl, ?_⟩) _
      subst here
      exact tallied.share (others store event rfl) event
  | act action =>
      cases action with
      | start options => exact ⟨c, there, rfl, tallied⟩
      | call session call =>
          simp only [occur, step, withSession]
          cases y.sessions[session]? with
          | none => exact ⟨c, there, rfl, tallied⟩
          | some x =>
              obtain ⟨rows, bypassed⟩ := y.storage.bypassed_perform x call
              exact ⟨_, (bypassed i).trans (congrArg _ there),
                (Prod.mk.inj (StoreCache.place_invalidateEach _ c)).2, tallied.invalidateEach _⟩
      | read session cache q =>
          rw [occur, ← occur_granted]
          exact balanced_read there tallied session cache granted (.slice q)
      | readMany session cache keys slice =>
          rw [occur, ← occur_granted_slices]
          exact balanced_read there tallied session cache granted (.slices keys slice)
      | tend cache action =>
          exact balanced_onCache there tallied cache
            (fun _ => ⟨(Prod.mk.inj (c.place_perform action)).2, tallied.perform action⟩) _
      | closeCache cache =>
          exact balanced_onCache there tallied cache (fun _ => ⟨rfl,
            tallied.quietly [] tallied.coherent.close rfl rfl rfl c.counted_nil.symm rfl⟩) _
      | pass ticks =>
          refine ⟨c.advance ticks, ?_, rfl, tallied.quietly [] (tallied.coherent.advance ticks)
            rfl rfl rfl c.counted_nil.symm rfl⟩
          rw [occur, step, Storage.getElem?_advance, there]
          rfl
      | failReads cache failure times =>
          exact balanced_onCache there tallied cache (fun _ => ⟨rfl, tallied.quietly []
            ⟨tallied.coherent.quiet, tallied.coherent.slices⟩ rfl rfl rfl c.counted_nil.symm rfl⟩) _
      | decideWrites outcomes | shuffle orders => exact ⟨c, there, rfl, tallied⟩
      | toss cache coins =>
          refine balanced_onCache there tallied cache (fun _ => ⟨rfl, tallied.quietly []
            ⟨tallied.coherent.quiet, fun s kept => ?_⟩ rfl rfl rfl c.counted_nil.symm rfl⟩) _
          obtain ⟨s', found, rfl⟩ := Option.map_eq_some_iff.1 kept
          have fine := tallied.coherent.slices s' found
          exact ⟨fine.lasting, fine.shards, fine.ordered, fine.entered, fine.kept⟩

theorem balanced_undergo {name : String} (occurrences : List Occurrence) {y : System}
    (balanced : y.Balanced i name lost)
    (others : ∀ store event, .share i store event ∈ occurrences → store ≠ name) :
    (y.undergo occurrences).Balanced i name (lost + y.forgoneAll i occurrences) := by
  induction occurrences generalizing y lost with
  | nil => exact balanced
  | cons e rest ih =>
      obtain ⟨c, there, rfl, tallied⟩ := balanced
      have next := ih (balanced_occur there tallied e fun store event same =>
        others store event (same ▸ List.mem_cons_self)) fun store event member =>
        others store event (List.mem_cons_of_mem e member)
      rw [Nat.add_assoc] at next
      exact next

end System

/-- A cache that was just opened has counted nothing. -/
theorem Storage.tallied_prepared (rows : List Cell) {openings : List Opening} {i : Nat}
    {o : Opening} (there : openings[i]? = some o) (watched : o.metrics = true) :
    ∃ c, (prepared rows openings).caches[i]? = some c ∧ c.name = o.name ∧ c.Tallied 0 := by
  have place : ((prepared rows openings).caches.map fun c => { c with table := 0 })[i]? =
      some (StoreCache.create 0 o.name o.options o.metrics o.route) := by
    rw [caches_prepared, List.getElem?_map, there]
    rfl
  rw [List.getElem?_map] at place
  obtain ⟨c, found, same⟩ := Option.map_eq_some_iff.1 place
  have name : c.name = o.name := congrArg StoreCache.name same
  have monitor : c.monitor = .new := congrArg StoreCache.monitor same
  have metrics : c.metrics = some .empty := by
    have made : c.metrics = if o.metrics then some CacheMetrics.empty else none :=
      congrArg StoreCache.metrics same
    rw [made, if_pos watched]
  refine ⟨c, found, name, (prepared_spec rows openings).2.1 c (List.mem_of_getElem? found) _,
    ?_, by rw [metrics]; rfl, ?_, fun m kept => ?_⟩
  · rw [monitor]
    rfl
  · rw [StoreCache.counts, metrics, monitor]
    rfl
  · obtain rfl := Option.some.inj (metrics.symm.trans kept)
    rfl

/-- After any run, the misses that are counted for a store fall short of the keys that it was
asked for by the reads that calls forgot to count, and by nothing else; and for each counter
the stores' counts add up to the total. -/
theorem misses_and_forgone_reads (rows : List Cell) {openings : List Opening} {i : Nat}
    {o : Opening} (there : openings[i]? = some o) (watched : o.metrics = true)
    (occurrences : List Occurrence)
    (others : ∀ store event, .share i store event ∈ occurrences → store ≠ o.name) :
    let y := System.begin (.prepared rows openings)
    ∃ c m, (y.undergo occurrences).storage.caches[i]? = some c ∧ c.metrics = some m ∧
      c.monitor.keysRead = UInt64.ofNat (TableRead.named c.monitor.log) ∧
      (m.store o.name).misses + UInt64.ofNat (y.forgoneAll i occurrences) = c.monitor.keysRead ∧
      ((m.store o.name).misses = c.monitor.keysRead ↔
        UInt64.ofNat (y.forgoneAll i occurrences) = 0) ∧
      m.totals = CacheMetrics.sum m.stores := by
  intro y
  obtain ⟨c, found, name, tallied⟩ := System.balanced_undergo occurrences
    (y := y) (Storage.tallied_prepared rows there watched) others
  rw [Nat.zero_add] at tallied
  obtain ⟨m, metrics⟩ := Option.isSome_iff_exists.1 tallied.watched
  have counts : c.counts = m.store o.name := by
    rw [StoreCache.counts, metrics, name]
    rfl
  have misses := tallied.misses
  rw [counts] at misses
  refine ⟨c, m, found, metrics, tallied.asked, misses, ?_, tallied.totals m metrics⟩
  rw [← misses]
  exact ⟨fun same => UInt64.left_eq_add.1 same, fun none => by rw [none, UInt64.add_zero]⟩

/-- A cache that counts. -/
def Opening.counting : Opening := ⟨"edges", .default, true, fun _ => 0⟩

/-- A change of a row is held back, another store counts three lookups, and then the row is
asked for, while the next read is bound to fail. -/
def System.refusedOverlay : List Occurrence :=
  [.act (.start .default), .act (.call 0 (.mutate 0 [1] ⟨[⟨[5], [6], none⟩], []⟩)),
    .share 0 "index" (.retrieval 3), .act (.failReads 0 .temporary 1),
    .act (.readMany 0 0 [[1]] (KeySlice.firstSeven []).slice)]

/-- The caches after that. -/
def System.countedCaches : List StoreCache :=
  ((begin (.prepared [] [.counting])).undergo refusedOverlay).storage.caches

theorem refused_overlay_is_forgone : ∃ (c : StoreCache) (m : CacheMetrics),
    System.countedCaches[0]? = some c ∧
      (m.store "edges").misses + 1 = c.monitor.keysRead ∧
      m.totals = CacheMetrics.sum m.stores := by
  have others : ∀ store event,
      Occurrence.share 0 store event ∈ System.refusedOverlay → store ≠ "edges" := by
    intro store event member
    obtain ⟨rfl, -⟩ : store = "index" ∧ event = .retrieval 3 := by
      simpa [System.refusedOverlay] using member
    decide
  obtain ⟨c, m, there, -, -, misses, -, totals⟩ :=
    misses_and_forgone_reads [] (rfl : [Opening.counting][0]? = _) rfl System.refusedOverlay others
  exact ⟨c, m, there, misses, totals⟩

/-- The store was asked for one key, and no miss was counted. -/
theorem refused_overlay_is_no_miss : ∃ (c : StoreCache) (m : CacheMetrics),
    System.countedCaches[0]? = some c ∧
      c.metrics = some m ∧ c.monitor.keysRead = 1 ∧ (m.store "edges").misses = 0 ∧
      (m.store "edges").misses ≠ c.monitor.keysRead :=
  ⟨_, _, rfl, rfl, rfl, rfl, by decide⟩

end PropertyGraph
