/-
# Proofs.RefusedReads -- reads of a table that may refuse them

A monitor lets reads pass or not, and what it lets pass the table may still refuse, whatever
it answered to the reads before.

* A call sends its reads one after the other, up to the first that is refused, and ends in
  the fault of that one (`Stops`).
* Up to the fills, a call keeps nothing that was not kept, and leaves the cache in its place
  and time (`Passage`).
* One that ends in a fault leaves nothing to be filled in, and every miss is counted but those
  that a refused call for several rows forgets (`Served`, `served_request`).
-/
import PropertyGraph.Proofs.StorageRuns

namespace PropertyGraph

set_option autoImplicit false

/-- The read is of one row, and not of several. -/
def TableRead.isSlice : TableRead → Bool
  | .slice _ => true
  | .slices _ _ => false

/-- How many keys some reads name. -/
def TableRead.named (sent : List TableRead) : Nat := sumOf (fun read => read.keys.length) sent

theorem TableRead.named_append (sent later : List TableRead) :
    named (sent ++ later) = named sent + named later := by
  simp [named, sumOf_append]

theorem TableRead.named_of_slices {sent : List TableRead} (slices : ∀ read ∈ sent, read.isSlice) :
    named sent = sent.length := by
  induction sent with
  | nil => rfl
  | cons read rest ih =>
      obtain ⟨here, later⟩ := List.forall_mem_cons.1 slices
      have rest := ih later
      cases read with
      | slice q =>
          simp only [named, sumOf, TableRead.keys, List.length_cons, List.length_nil] at rest ⊢
          omega
      | slices keys slice => cases here

/-- The reads that a call for several rows forgets to count: all, if one of them is refused
before the rows that are missing are asked for. -/
def TableRead.forgone {α : Type} (outcome : Outcome α) (sent : List TableRead) : TableRead → Nat
  | .slice _ => 0
  | .slices _ _ =>
      match outcome with
      | .ok _ => 0
      | .error _ => if sent.all isSlice then sent.length else 0

/-- A call for several rows that comes to ask for those that are missing forgets none. -/
theorem TableRead.forgone_of_fetched {α : Type} (outcome : Outcome α) (sent : List TableRead)
    (missing keys : List Bytes) (slice slice' : Slice) :
    forgone outcome (sent ++ [.slices missing slice]) (.slices keys slice') = 0 := by
  have fetched : (sent ++ [TableRead.slices missing slice]).all isSlice = false := by
    simp [isSlice]
  unfold forgone
  cases outcome with
  | ok _ => rfl
  | error _ =>
      rw [fetched]
      rfl

/-- How many misses some events count. -/
def CacheEvent.misses (events : List CacheEvent) : UInt64 :=
  events.foldr (fun e n => e.counts.misses + n) 0

/-- Counts some events of a store. -/
def CacheMetrics.recordAll (m : CacheMetrics) (name : String) (events : List CacheEvent) :
    CacheMetrics :=
  events.foldl (fun m e => m.record name e) m

/-- A call stops at the first of its reads that is refused, and ends in the fault of it. -/
structure Stops {α : Type} (verdict : Refusals) (sent : Nat) (outcome : Outcome α) : Prop where
  before : ∀ n, n + 1 < sent → verdict n = none
  error : ∀ fault, outcome = .error fault → ∃ n, sent = n + 1 ∧ verdict n = some fault
  ok : ∀ a, outcome = .ok a → ∀ n, n < sent → verdict n = none

namespace Stops

variable {α β : Type} {verdict : Refusals} {sent : Nat} {outcome : Outcome α}

theorem of_ok (passed : ∀ n, n < sent → verdict n = none) (a : α) :
    Stops verdict sent (.ok a : Outcome α) :=
  ⟨fun n lt => passed n (Nat.lt_of_succ_lt lt), fun _ same => (by cases same), fun _ _ => passed⟩

theorem map (stops : Stops verdict sent outcome) (f : α → β) :
    Stops verdict sent (outcome.map f) := by
  cases outcome with
  | error fault =>
      refine ⟨stops.before, fun other same => ?_, fun _ same => (by cases same)⟩
      obtain rfl : fault = other := Except.error.inj same
      exact stops.error fault rfl
  | ok a => exact of_ok (stops.ok a rfl) (f a)

/-- The fault is that of the refused read, wherever in the call it stands. -/
theorem error_of_refused (stops : Stops verdict sent outcome) {n : Nat} {fault : Fault}
    (asked : n < sent) (refused : verdict n = some fault) : outcome = .error fault := by
  cases outcome with
  | ok a =>
      rw [stops.ok a rfl n asked] at refused
      cases refused
  | error other =>
      obtain ⟨last, rfl, ended⟩ := stops.error other rfl
      have here : n = last := by
        by_contra earlier
        rw [stops.before n (by omega)] at refused
        cases refused
      subst here
      rw [ended] at refused
      exact congrArg _ (Option.some.inj refused)

end Stops

namespace StoreCache

variable {c c' : StoreCache} {t : Table} {right : KeySlice → List Entry → Prop}

/-! ## What a call leaves behind -/

/-- A slice that is kept. -/
def Keeps (c : StoreCache) (x : CachedSlice) : Prop := ∃ s, c.slices = some s ∧ s.Keeps x

/-- The events are counted for the cache's own store. -/
def counted (c : StoreCache) (events : List CacheEvent) : Option CacheMetrics :=
  c.metrics.map fun m => m.recordAll c.name events

/-- What a call makes of a cache before anything is filled in, when it has sent some reads and
counted some events. -/
structure Passage (right : KeySlice → List Entry → Prop) (c c' : StoreCache)
    (sent : List TableRead) (events : List CacheEvent) : Prop where
  reads : Reads right c c'
  time : c'.time = c.time
  kept : ∀ x, c'.Keeps x → c.Keeps x
  log : c'.monitor.log = c.monitor.log ++ sent
  keysRead : c'.monitor.keysRead = c.monitor.keysRead + UInt64.ofNat (TableRead.named sent)
  metrics : c'.metrics = c.counted events
  idle : sent = [] → c'.monitor = c.monitor

namespace Passage

variable {sent : List TableRead} {events : List CacheEvent}

theorem start (coherent : c.Coherent right) : Passage right c c [] [] := by
  refine ⟨.refl coherent, rfl, fun _ => id, (List.append_nil _).symm, ?_, ?_, fun _ => rfl⟩
  · exact (UInt64.add_zero _).symm
  · exact Option.map_id'.symm

theorem record (passage : Passage right c c' sent events) (event : CacheEvent) :
    Passage right c (c'.record event) sent (events ++ [event]) := by
  have name : c'.name = c.name := (Prod.mk.inj passage.reads.place).2
  refine ⟨passage.reads.record event, passage.time, passage.kept, passage.log, passage.keysRead,
    ?_, passage.idle⟩
  show c'.metrics.map _ = _
  rw [passage.metrics, counted, counted, Option.map_map, name]
  simp only [CacheMetrics.recordAll, List.foldl_append, List.foldl_cons, List.foldl_nil]
  rfl

theorem consult (passage : Passage right c c' sent events) {q : KeySlice}
    {consultation : Consultation} {after : StoreCache}
    (known : c'.consult q = (consultation, after)) : Passage right c after sent events := by
  have reads := (passage.reads.consult known).1
  have goes := c'.consult_goes q
  rw [known] at goes
  -- slices that stay in the cache were in it
  have keep : ∀ {s s' : SliceCache}, c'.slices = some s → (∀ x, s'.Keeps x → s.Keeps x) →
      Reads right c { c' with slices := some s' } →
      Passage right c { c' with slices := some s' } sent events := by
    intro s s' kept drops reads
    refine ⟨reads, passage.time, fun x keeps => passage.kept x ?_, passage.log, passage.keysRead,
      passage.metrics, passage.idle⟩
    obtain ⟨_, same, inSlices⟩ := keeps
    obtain rfl := Option.some.inj same
    exact ⟨s, kept, drops x inSlices⟩
  have looked : ∀ {s s' : SliceCache} {marked : Bool}, c'.slices = some s →
      s.isExpired c'.time q.key = (marked, s') → ∀ x, s'.Keeps x → s.Keeps x := by
    intro s s' marked kept looked x keeps
    obtain rfl : (s.isExpired c'.time q.key).2 = s' := congrArg Prod.snd looked
    exact SliceCache.keeps_isExpired (passage.reads.coherent.slices s kept).ordered keeps
  have found : ∀ {s s'' : SliceCache} {got : Option (List Entry)},
      s.get c'.time q = (got, s'') → ∀ x, s''.Keeps x → s.Keeps x := by
    intro s s'' got found x keeps
    obtain rfl : (s.get c'.time q).2 = s'' := congrArg Prod.snd found
    exact SliceCache.keeps_get keeps
  cases goes with
  | off disabled => exact passage
  | marked kept expired => exact keep kept (looked kept expired) reads
  | hit kept expired got =>
      exact keep kept (fun x keeps => looked kept expired x (found got x keeps)) reads
  | absent kept expired got =>
      exact keep kept (fun x keeps => looked kept expired x (found got x keeps)) reads

/-- The monitor notes a read. -/
theorem note (passage : Passage right c c' sent events) (read : TableRead) :
    Passage right c { c' with monitor := (c'.monitor.record read).2 } (sent ++ [read]) events := by
  refine ⟨passage.reads.note read, passage.time, passage.kept, ?_, ?_, passage.metrics,
    fun none => ?_⟩
  · show (c'.monitor.record read).2.log = _
    rw [ReadMonitor.log_record, passage.log, List.append_assoc]
  · show (c'.monitor.record read).2.keysRead = _
    rw [ReadMonitor.keysRead_record, passage.keysRead, TableRead.named_append, UInt64.ofNat_add,
      UInt64.add_assoc]
    rfl
  · simp at none

/-- As long as nothing is refused, the monitor lets through what it did. -/
theorem verdict (passage : Passage right c c' sent events) {refusals : Refusals}
    (passed : ∀ n, n < sent.length → c.monitor.verdict (refusals n) = none)
    (refused : Option Fault) : c'.monitor.verdict refused = c.monitor.verdict refused := by
  by_cases nothing : sent = []
  · rw [passage.idle nothing]
  · have willing : c.monitor.failing = 0 := by
      by_contra failing
      have first := passed 0 (List.length_pos_iff.2 nothing)
      rw [ReadMonitor.verdict, if_neg failing] at first
      cases first
    rw [ReadMonitor.verdict, ReadMonitor.verdict, if_pos willing,
      if_pos (passage.reads.permits willing)]

/-- One more read of a call of which none was refused so far. -/
theorem noteNext (passage : Passage right c c' sent events) {refusals : Refusals}
    (passed : ∀ n, n < sent.length → c.monitor.verdict (refusals n) = none) {α : Type}
    (read : TableRead) (answer : α) :
    Passage right c { c' with monitor := (c'.monitor.record read).2 } (sent ++ [read]) events ∧
      Stops (fun n => c.monitor.verdict (refusals n)) (sent ++ [read]).length
        (unlessRefused (c'.monitor.verdict (refusals sent.length)) answer) := by
  refine ⟨passage.note read, ?_⟩
  rw [passage.verdict passed, List.length_append, List.length_singleton]
  cases last : c.monitor.verdict (refusals sent.length) with
  | none =>
      refine .of_ok (fun n lt => ?_) answer
      rcases Nat.lt_succ_iff_lt_or_eq.1 lt with earlier | rfl
      · exact passed n earlier
      · exact last
  | some fault =>
      refine ⟨fun n lt => passed n (Nat.lt_of_succ_lt_succ lt), fun other same => ?_, nofun⟩
      obtain rfl : fault = other := Option.some.inj (unlessRefused_eq_error_iff.1 same)
      exact ⟨sent.length, rfl, last⟩

theorem ask (passage : Passage right c c' sent events) {refusals : Refusals}
    (passed : ∀ n, n < sent.length → c.monitor.verdict (refusals n) = none) {α : Type}
    {read : TableRead} {answer : α} {outcome : Outcome α} {after : StoreCache}
    (asked : c'.ask (refusals sent.length) read answer = (outcome, after)) :
    Passage right c after (sent ++ [read]) events ∧
      Stops (fun n => c.monitor.verdict (refusals n)) (sent ++ [read]).length outcome := by
  rw [ask_of_quiet passage.reads.coherent.quiet] at asked
  obtain ⟨rfl, rfl⟩ := Prod.mk.inj asked
  exact passage.noteNext passed read answer

theorem readPending (passage : Passage right c c' sent events) {refusals : Refusals}
    (passed : ∀ n, n < sent.length → c.monitor.verdict (refusals n) = none) {m : Mutation}
    {q : KeySlice} {outcome : Outcome (List Entry)} {after : StoreCache}
    (asked : c'.readPending (refusals sent.length) t m q = (outcome, after)) :
    Passage right c after (sent ++ [.slice q.unlimited]) events ∧
      Stops (fun n => c.monitor.verdict (refusals n))
        (sent ++ [TableRead.slice q.unlimited]).length outcome := by
  rw [readPending_of_quiet passage.reads.coherent.quiet] at asked
  obtain ⟨rfl, rfl⟩ := Prod.mk.inj asked
  exact passage.noteNext passed (.slice q.unlimited) _

theorem gather (passage : Passage right c c' sent events) (refusals : Refusals) (t : Table)
    (pending : Bytes → Option Mutation) (slice : Slice) (keys : List Bytes) {g : Gathering}
    (passed : ∀ n, n < sent.length → c.monitor.verdict (refusals n) = none)
    (overlaid : sent.length = g.overlaid) (slices : ∀ read ∈ sent, read.isSlice) :
    let gathered := StoreCache.gather refusals t pending slice keys g c'
    ∃ sent', Passage right c gathered.2 sent' events ∧
      Stops (fun n => c.monitor.verdict (refusals n)) sent'.length gathered.1 ∧
      (∀ read ∈ sent', read.isSlice) ∧
      ∀ g', gathered.1 = .ok g' → sent'.length = g'.overlaid := by
  have goes := gather_goes refusals t pending slice keys g c'
  dsimp only
  generalize StoreCache.gather refusals t pending slice keys g c' = gathered at goes ⊢
  have slices_concat : ∀ {sent : List TableRead} (q : KeySlice), (∀ read ∈ sent, read.isSlice) →
      ∀ read ∈ sent ++ [TableRead.slice q], read.isSlice := by
    intro sent q slices read member
    rcases List.mem_append.1 member with old | new
    · exact slices read old
    · obtain rfl := List.mem_singleton.1 new
      rfl
  induction goes generalizing sent with
  | done =>
      refine ⟨sent, passage, .of_ok passed _, slices, fun g' same => ?_⟩
      obtain rfl := Except.ok.inj same
      exact overlaid
  | @refused key rest g before after m fault held asked =>
      obtain ⟨passage, stops⟩ := passage.readPending passed (overlaid ▸ asked)
      exact ⟨_, passage, stops.map fun _ => g, slices_concat _ slices, nofun⟩
  | overlaid held asked later ih =>
      obtain ⟨passage, stops⟩ := passage.readPending passed (overlaid ▸ asked)
      exact ih passage (stops.ok _ rfl) (by simp [overlaid, Gathering.overlay])
        (slices_concat _ slices)
  | consulted unheld known later ih =>
      exact ih (passage.consult known) passed (overlaid.trans (Gathering.overlaid_note ..).symm)
        slices

end Passage

/-- What a call has done when it comes to its fills: the reads that it sent and the events that
it counted. -/
structure Served {α : Type} (right : KeySlice → List Entry → Prop) (c : StoreCache)
    (refusals : Refusals) (r : TableRead) (result : Outcome α × List Fill × StoreCache)
    (sent : List TableRead) (events : List CacheEvent) : Prop where
  passage : Passage right c result.2.2 sent events
  stops : Stops (fun n => c.monitor.verdict (refusals n)) sent.length result.1
  unfilled : ∀ fault, result.1 = .error fault → result.2.1 = []
  misses : CacheEvent.misses events + UInt64.ofNat (r.forgone result.1 sent) =
    UInt64.ofNat (TableRead.named sent)

section

variable (coherent : c.Coherent right) (refusals : Refusals)

include coherent

theorem served_requestSlice (t : Table) (pending : Option Mutation) (q : KeySlice) :
    ∃ sent events, Served right c refusals (.slice q) (c.requestSlice refusals t pending q)
      sent events := by
  have started := (Passage.start coherent).record (.retrieval 1)
  have unasked : ∀ n, n < ([] : List TableRead).length →
      c.monitor.verdict (refusals n) = none := fun n lt => absurd lt (Nat.not_lt_zero n)
  have goes := c.requestSlice_goes refusals t pending q
  generalize c.requestSlice refusals t pending q = request at goes ⊢
  cases goes with
  | overlaid held asked =>
      obtain ⟨passage, stops⟩ := (started.record (.miss 1)).readPending unasked asked
      exact ⟨_, _, passage, stops, fun _ _ => rfl, rfl⟩
  | served unheld known =>
      exact ⟨_, _, started.consult known, .of_ok unasked _, nofun, rfl⟩
  | missed unheld known unserved asked =>
      obtain ⟨passage, stops⟩ := ((started.consult known).record (.miss 1)).ask unasked asked
      refine ⟨_, _, passage, stops, fun fault ended => ?_, rfl⟩
      refine List.eq_nil_iff_forall_not_mem.2 fun f member => ?_
      obtain ⟨-, answered, -⟩ := Consultation.mem_fills.1 member
      cases ended.symm.trans answered

theorem served_requestSlices (t : Table) (pending : Bytes → Option Mutation) (keys : List Bytes)
    (slice : Slice) :
    ∃ sent events, Served right c refusals (.slices keys slice)
      (c.requestSlices refusals t pending keys slice) sent events := by
  have started := (Passage.start coherent).record (.retrieval (UInt64.ofNat keys.length))
  obtain ⟨sent, passage, stops, slices, overlaid⟩ := started.gather refusals t pending slice
    keys.eraseDups (g := Gathering.start) (fun n lt => absurd lt (Nat.not_lt_zero n)) rfl
    fun _ never => absurd never List.not_mem_nil
  have goes := c.requestSlices_goes refusals t pending keys slice
  generalize c.requestSlices refusals t pending keys slice = request at goes ⊢
  -- a call that comes to ask for the missing rows has counted them all
  have misses : ∀ (g : Gathering) (outcome : Outcome (List KeyedRow)),
      CacheEvent.misses ([] ++ [.retrieval (UInt64.ofNat keys.length)] ++
          [.miss (UInt64.ofNat (sent.length + g.missing.length))]) +
        UInt64.ofNat (TableRead.forgone outcome (sent ++ [.slices g.missing slice])
          (.slices keys slice)) =
        UInt64.ofNat (TableRead.named (sent ++ [.slices g.missing slice])) := by
    intro g outcome
    rw [TableRead.forgone_of_fetched, TableRead.named_append, TableRead.named_of_slices slices]
    simp [CacheEvent.misses, CacheEvent.counts, TableRead.named, sumOf, TableRead.keys]
  cases goes with
  | stopped gathered =>
      rw [gathered] at passage stops
      refine ⟨_, _, passage, stops.map (fun _ => []), fun _ _ => rfl, ?_⟩
      have all : sent.all TableRead.isSlice = true := List.all_eq_true.2 slices
      simp [TableRead.forgone, all, TableRead.named_of_slices slices, CacheEvent.misses,
        CacheEvent.counts]
  | @complete g c' gathered nothing =>
      rw [gathered] at passage stops overlaid
      have overlaid : sent.length = g.overlaid := overlaid g rfl
      refine ⟨_, _, passage.record _, .of_ok (stops.ok g rfl) _, fun _ never => (by cases never), ?_⟩
      simp [TableRead.forgone, TableRead.named_of_slices slices, CacheEvent.misses,
        CacheEvent.counts, nothing, overlaid]
  | @refused g fault c' c'' gathered missing asked =>
      rw [gathered] at passage stops overlaid
      rw [← overlaid g rfl] at asked
      obtain ⟨passage, stops⟩ := (passage.record _).ask (stops.ok g rfl) asked
      exact ⟨_, _, passage, stops.map (fun rows => g.found ++ rows), fun _ _ => rfl,
        misses g _⟩
  | @fetched g rows c' c'' gathered missing asked =>
      rw [gathered] at passage stops overlaid
      rw [← overlaid g rfl] at asked
      obtain ⟨passage, stops⟩ := (passage.record _).ask (stops.ok g rfl) asked
      exact ⟨_, _, passage, stops.map (fun rows => g.found ++ rows),
        fun _ never => (by cases never), misses g _⟩

/-- What any call has done when it comes to its fills. -/
theorem served_request (t : Table) (pending : Bytes → Option Mutation) (r : TableRead) :
    ∃ sent events, Served right c refusals r (c.request refusals t pending r) sent events := by
  cases r with
  | slice q =>
      obtain ⟨sent, events, served⟩ := served_requestSlice coherent refusals t (pending q.key) q
      refine ⟨sent, events, served.passage, served.stops.map _, fun fault same => ?_, served.misses⟩
      unfold request at same ⊢
      dsimp only at same ⊢
      rcases known : (c.requestSlice refusals t (pending q.key) q).1 with other | entries
      · exact served.unfilled other known
      · rw [known] at same
        cases same
  | slices keys slice => exact served_requestSlices coherent refusals t pending keys slice

end

end StoreCache

end PropertyGraph
