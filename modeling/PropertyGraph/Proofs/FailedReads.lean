/-
# Proofs.FailedReads -- a read that fails leaves no trace

Reads go to stores that may refuse any of them.  A call that is refused a read ends in that
fault and keeps nothing that was not kept.  What it does do to its cache (it looks keys up,
drops slices that are too old, cleans up) no later read can tell, for reads that succeed are
fresh, and nothing else looks at the caches.

* `System.occur` is `System.step` with such reads added, and other stores that count events
  in the same metrics; it keeps a system coherent (`coherent_undergo`).
* Sessions and tables go the same way in systems that differ in their caches only
  (`System.Agrees`, `agrees_undergo`).
* `refused_reads_leave_no_trace` compares all that can come after the call with what would
  have come without it.
-/
import PropertyGraph.Proofs.FreshReads
import PropertyGraph.Proofs.RefusedReads

namespace PropertyGraph

set_option autoImplicit false

namespace StoreCache

variable {c : StoreCache} {t : Table} {right : KeySlice → List Entry → Prop}

/-- The monitor's log says how many reads a call sent.  If one of them was refused, the call
ends in that fault, and nothing is kept that was not. -/
theorem read_of_refused (coherent : c.Coherent right) {refusals : Refusals}
    {pending : Bytes → Option Mutation} {r : TableRead} {n : Nat} {fault : Fault}
    (sent : c.monitor.log.length + n < (c.read refusals t pending r).2.monitor.log.length)
    (refused : c.monitor.verdict (refusals n) = some fault) :
    (c.read refusals t pending r).1 = .error fault ∧
      ∀ x, (c.read refusals t pending r).2.Keeps x → c.Keeps x := by
  obtain ⟨reads, events, served⟩ := served_request coherent refusals t pending r
  unfold read at sent ⊢
  dsimp only at sent ⊢
  rw [monitor_fillAll, served.passage.log, List.length_append] at sent
  have ended := served.stops.error_of_refused (Nat.lt_of_add_lt_add_left sent) refused
  rw [served.unfilled fault ended]
  exact ⟨ended, served.passage.kept⟩

end StoreCache

namespace Storage

/-- Storages that differ at most in what their caches keep and count. -/
structure Agrees (s s' : Storage) : Prop where
  backend : s'.backend = s.backend
  orders : s'.orders = s.orders
  places : s'.places = s.places

namespace Agrees

variable {s s' : Storage}

theorem refl (s : Storage) : s.Agrees s := ⟨rfl, rfl, rfl⟩

theorem symm (agrees : s.Agrees s') : s'.Agrees s :=
  ⟨agrees.backend.symm, agrees.orders.symm, agrees.places.symm⟩

theorem trans {s'' : Storage} (first : s.Agrees s') (later : s'.Agrees s'') : s.Agrees s'' :=
  ⟨later.backend.trans first.backend, later.orders.trans first.orders,
    later.places.trans first.places⟩

theorem name (agrees : s.Agrees s') (i : Nat) :
    s'.caches[i]?.map StoreCache.name = s.caches[i]?.map StoreCache.name := by
  have place : s'.places[i]?.map Prod.snd = s.places[i]?.map Prod.snd := by rw [agrees.places]
  simp only [Storage.places, List.getElem?_map, Option.map_map] at place
  exact place

theorem onCache (i : Nat) {f : StoreCache → StoreCache} (place : ∀ c, (f c).place = c.place) :
    s.Agrees (s.onCache i f) := ⟨rfl, rfl, places_onCache fun c _ => place c⟩

theorem readThrough {right : Standard} (coherent : s.Coherent right) {α : Type} (i : Nat)
    (absent : α) {f : Table → StoreCache → α × StoreCache}
    (reads : ∀ c, s.caches[i]? = some c →
      StoreCache.Reads (right (s.backend.table c.table)) c (f (s.backend.table c.table) c).2) :
    s.Agrees (s.readThrough i absent f).2 := by
  refine ⟨?_, ?_, (coherent.readThrough i absent reads).2⟩ <;>
  · unfold Storage.readThrough
    cases s.caches[i]? <;> rfl

end Agrees

/-- Two calls end alike, and what they leave behind agrees. -/
structure SameEnd {β : Type} (result result' : Outcome Unit × β × Storage) : Prop where
  outcome : result'.1 = result.1
  left : result'.2.1 = result.2.1
  storage : result.2.2.Agrees result'.2.2

variable {s s' : Storage}

theorem sameEnd_flush (agrees : s.Agrees s') (b : WriteBuffer) :
    SameEnd (b.flush s) (b.flush s') := by
  by_cases nothing : b.count = 0
  · rw [WriteBuffer.flush_of_nothing nothing, WriteBuffer.flush_of_nothing nothing]
    exact ⟨rfl, rfl, agrees⟩
  · have order : s'.nextOrder = s.nextOrder := by rw [nextOrder, nextOrder, agrees.orders]
    rw [WriteBuffer.flush_of_something nothing, WriteBuffer.flush_of_something nothing, order,
      agrees.backend, agrees.orders]
    refine ⟨rfl, rfl, ⟨?_, ?_, ?_⟩⟩
    · simp only [WriteBuffer.backend_invalidateHeld]
    · simp only [WriteBuffer.orders_invalidateHeld]
    · simp only [WriteBuffer.places_invalidateHeld]
      exact agrees.places

theorem sameEnd_flushAll (agrees : s.Agrees s') (buffers : List WriteBuffer) :
    SameEnd (Transaction.flushAll buffers s) (Transaction.flushAll buffers s') := by
  induction buffers generalizing s s' with
  | nil => exact ⟨rfl, rfl, agrees⟩
  | cons b rest ih =>
      have flushed := sameEnd_flush agrees b
      unfold Transaction.flushAll
      generalize b.flush s = result, b.flush s' = result' at flushed ⊢
      obtain ⟨outcome, left, storage⟩ := flushed
      rcases result with ⟨_ | u, b₁, after⟩ <;> rcases result' with ⟨_ | u', b₂, after'⟩ <;>
        cases outcome <;> cases left
      · exact ⟨rfl, rfl, storage⟩
      · obtain ⟨outcome, left, storage⟩ := ih storage
        exact ⟨outcome, congrArg (b₁ :: ·) left, storage⟩

theorem sameEnd_commit (agrees : s.Agrees s') (t : Transaction) :
    SameEnd (t.commit s) (t.commit s') := by
  have flushed := sameEnd_flush agrees t.buffer
  unfold Transaction.commit Transaction.flush
  generalize t.buffer.flush s = result, t.buffer.flush s' = result' at flushed ⊢
  obtain ⟨outcome, left, storage⟩ := flushed
  rcases result with ⟨_ | u, b₁, after⟩ <;> rcases result' with ⟨_ | u', b₂, after'⟩ <;>
    cases outcome <;> cases left
  · exact ⟨rfl, rfl, storage⟩
  · obtain ⟨outcome, left, storage⟩ := sameEnd_flushAll storage t.inner
    exact ⟨outcome, congrArg (Transaction.mk b₁) left, storage⟩

theorem sameEnd_mutate (agrees : s.Agrees s') (t : Transaction) (cache : Nat) (key : Bytes)
    (m : Mutation) :
    SameEnd (s.mutateEntries cache t key m) (s'.mutateEntries cache t key m) := by
  have name := agrees.name cache
  unfold mutateEntries
  generalize s.caches[cache]? = here, s'.caches[cache]? = here' at name ⊢
  rcases here with _ | c <;> rcases here' with _ | c'
  · exact ⟨rfl, rfl, agrees⟩
  · cases name
  · cases name
  · have name : c'.name = c.name := Option.some.inj name
    simp only [Transaction.mutate, WriteBuffer.mutate, name]
    split
    · exact ⟨rfl, rfl, agrees⟩
    · split
      · obtain ⟨outcome, left, storage⟩ :=
          sameEnd_flush agrees (t.buffer.hold cache c.name key m)
        exact ⟨outcome, congrArg (Transaction.mk · t.inner) left, storage⟩
      · exact ⟨rfl, rfl, agrees⟩

theorem sameEnd_perform (agrees : s.Agrees s') (x : Session) (call : Call) :
    SameEnd (x.perform s call) (x.perform s' call) := by
  cases call with
  | rollback => exact ⟨rfl, rfl, agrees⟩
  | flush =>
      obtain ⟨outcome, left, storage⟩ := sameEnd_flush agrees x.transaction.buffer
      refine ⟨outcome, ?_, storage⟩
      simp only [Session.perform, Session.flush, Transaction.flush, outcome, left]
  | commit =>
      obtain ⟨outcome, left, storage⟩ := sameEnd_commit agrees x.transaction
      refine ⟨outcome, ?_, storage⟩
      simp only [Session.perform, outcome, left]
  | mutate cache key m =>
      obtain ⟨outcome, left, storage⟩ := sameEnd_mutate agrees x.transaction cache key m
      refine ⟨outcome, ?_, storage⟩
      have noted : ∀ outcome, x.noted s' cache key m outcome = x.noted s cache key m outcome := by
        intro outcome
        have name := agrees.name cache
        unfold Session.noted
        generalize s.caches[cache]? = here, s'.caches[cache]? = here' at name ⊢
        rcases here with _ | c <;> rcases here' with _ | c'
        · rfl
        · cases name
        · cases name
        · simp only [(Option.some.inj name : c'.name = c.name)]
      simp only [Session.perform, outcome, left, noted]

end Storage

/-! ## Systems over stores that may refuse reads -/

/-- What can happen to a system when stores may refuse reads. -/
inductive Occurrence where
  | act (action : Action)
  | read (session cache : Nat) (refusals : Refusals) (r : TableRead)
  /-- Another store counts an event in the metrics of a cache. -/
  | share (cache : Nat) (store : String) (event : CacheEvent)

/-- Counts an event of any store. -/
def StoreCache.share (c : StoreCache) (store : String) (event : CacheEvent) : StoreCache :=
  { c with metrics := c.metrics.map fun m => m.record store event }

namespace System

def occur (y : System) : Occurrence → System
  | .act action => y.step action
  | .read i cache refusals r =>
      y.withSession i fun x => (x, (y.storage.readUnder cache x.transaction refusals r).2)
  | .share cache store event =>
      { y with storage := y.storage.onCache cache fun c => c.share store event }

def undergo (occurrences : List Occurrence) (y : System) : System := occurrences.foldl occur y

/-- Reads of a table that refuses nothing are those that are run. -/
theorem occur_granted (y : System) (i cache : Nat) (q : KeySlice) :
    y.occur (.read i cache granted (.slice q)) = y.step (.read i cache q) := by
  simp only [occur, step, withSession]
  cases y.sessions[i]? with
  | none => rfl
  | some x =>
      simp only [Storage.readUnder, Storage.getSlice, Storage.readThrough]
      cases y.storage.caches[cache]? <;> rfl

theorem occur_granted_slices (y : System) (i cache : Nat) (keys : List Bytes) (slice : Slice) :
    y.occur (.read i cache granted (.slices keys slice)) =
      y.step (.readMany i cache keys slice) := rfl

variable {y y' : System} {right : Standard}

theorem reads_under (fair : right.Fair) (coherent : y.Coherent right) {cache : Nat}
    {c : StoreCache} (there : y.storage.caches[cache]? = some c) (refusals : Refusals)
    (pending : Bytes → Option Mutation) (r : TableRead) :
    let t := y.storage.backend.table c.table
    StoreCache.Reads (right t) c (c.read refusals t pending r).2 :=
  StoreCache.reads_read (coherent.storage.caches c (List.mem_of_getElem? there))
    (coherent.storage.sound.backend.table c.table) (fair.met _) refusals pending r

theorem coherent_occur (fair : right.Fair) (coherent : y.Coherent right) (e : Occurrence) :
    (y.occur e).Coherent right := by
  cases e with
  | act action => exact coherent_step fair coherent action
  | read i cache refusals r =>
      exact coherent.withSession i fun x o sound =>
        ⟨sound, coherent.storage.readThrough cache _ fun c there =>
          reads_under fair coherent there refusals _ r⟩
  | share cache store event =>
      exact coherent.onCache cache (fun _ => rfl) fun c _ fine => ⟨fine.quiet, fine.slices⟩

theorem coherent_undergo (fair : right.Fair) (occurrences : List Occurrence) {y : System}
    (coherent : y.Coherent right) : (y.undergo occurrences).Coherent right := by
  induction occurrences generalizing y with
  | nil => exact coherent
  | cons e rest ih => exact ih (coherent_occur fair coherent e)

/-! ## Systems that differ in their caches -/

/-- The sessions and the tables are the same, and the caches are before the same tables. -/
structure Agrees (y y' : System) : Prop where
  sessions : y'.sessions = y.sessions
  storage : y.storage.Agrees y'.storage

theorem Agrees.symm (agrees : y.Agrees y') : y'.Agrees y :=
  ⟨agrees.sessions.symm, agrees.storage.symm⟩

theorem Agrees.trans {y'' : System} (first : y.Agrees y') (later : y'.Agrees y'') : y.Agrees y'' :=
  ⟨later.sessions.trans first.sessions, first.storage.trans later.storage⟩

/-- What leaves the session as it is. -/
theorem agrees_withSession (i : Nat) {f : Session → Storage}
    (agrees : ∀ x, y.storage.Agrees (f x)) : y.Agrees (y.withSession i fun x => (x, f x)) := by
  unfold withSession
  cases found : y.sessions[i]? with
  | none => exact ⟨rfl, .refl _⟩
  | some x =>
      obtain ⟨bound, rfl⟩ := List.getElem?_eq_some_iff.1 found
      exact ⟨List.set_getElem_self bound, agrees _⟩

/-- A read leaves everything but its cache as it is, whatever is refused. -/
theorem agrees_read (fair : right.Fair) (coherent : y.Coherent right) (i cache : Nat)
    (refusals : Refusals) (r : TableRead) : y.Agrees (y.occur (.read i cache refusals r)) :=
  agrees_withSession i fun _ => .readThrough coherent.storage cache _ fun _ there =>
    reads_under fair coherent there refusals _ r

/-- What the caches are like makes no difference to anything else. -/
theorem agrees_occur (fair : right.Fair) (coherent : y.Coherent right)
    (coherent' : y'.Coherent right) (agrees : y.Agrees y') (e : Occurrence) :
    (y.occur e).Agrees (y'.occur e) := by
  -- Reads, and what is done to one cache, leave everything else as it is in both systems.
  have both : y.Agrees (y.occur e) → y'.Agrees (y'.occur e) →
      (y.occur e).Agrees (y'.occur e) := fun one other => one.symm.trans (agrees.trans other)
  have onCache : ∀ (y : System) (cache : Nat) {f : StoreCache → StoreCache},
      (∀ c, (f c).place = c.place) → y.Agrees { y with storage := y.storage.onCache cache f } :=
    fun _ cache _ place => ⟨rfl, .onCache cache place⟩
  cases e with
  | read i cache refusals r =>
      exact both (agrees_read fair coherent i cache refusals r)
        (agrees_read fair coherent' i cache refusals r)
  | share cache store event =>
      exact both (onCache y cache fun _ => rfl) (onCache y' cache fun _ => rfl)
  | act action =>
      cases action with
      | start options => exact ⟨congrArg (· ++ _) agrees.sessions, agrees.storage⟩
      | call i call =>
          simp only [occur, step, withSession, agrees.sessions]
          cases y.sessions[i]? with
          | none => exact ⟨agrees.sessions, agrees.storage⟩
          | some x =>
              obtain ⟨-, left, storage⟩ := Storage.sameEnd_perform agrees.storage x call
              exact ⟨congrArg (y.sessions.set i ·) left, storage⟩
      | read i cache q =>
          rw [occur, occur, ← occur_granted, ← occur_granted] at both ⊢
          exact both (agrees_read fair coherent i cache granted (.slice q))
            (agrees_read fair coherent' i cache granted (.slice q))
      | readMany i cache keys slice =>
          rw [occur, occur, ← occur_granted_slices, ← occur_granted_slices] at both ⊢
          exact both (agrees_read fair coherent i cache granted (.slices keys slice))
            (agrees_read fair coherent' i cache granted (.slices keys slice))
      | tend cache action =>
          exact both (onCache y cache fun c => c.place_perform action)
            (onCache y' cache fun c => c.place_perform action)
      | closeCache cache =>
          exact both (onCache y cache fun _ => rfl) (onCache y' cache fun _ => rfl)
      | pass ticks =>
          exact both ⟨rfl, rfl, rfl, (coherent.storage.advance ticks).2⟩
            ⟨rfl, rfl, rfl, (coherent'.storage.advance ticks).2⟩
      | failReads cache failure times =>
          exact both (onCache y cache fun _ => rfl) (onCache y' cache fun _ => rfl)
      | decideWrites outcomes =>
          refine ⟨agrees.sessions, ?_, agrees.storage.orders, agrees.storage.places⟩
          simp only [occur, step, Storage.expecting, agrees.storage.backend]
      | shuffle orders =>
          exact ⟨agrees.sessions, agrees.storage.backend, rfl, agrees.storage.places⟩
      | toss cache coins =>
          exact both (onCache y cache fun _ => rfl) (onCache y' cache fun _ => rfl)

theorem agrees_undergo (fair : right.Fair) (occurrences : List Occurrence) {y y' : System}
    (coherent : y.Coherent right) (coherent' : y'.Coherent right) (agrees : y.Agrees y') :
    (y.undergo occurrences).Agrees (y'.undergo occurrences) := by
  induction occurrences generalizing y y' with
  | nil => exact agrees
  | cons e rest ih =>
      exact ih (coherent_occur fair coherent e) (coherent_occur fair coherent' e)
        (agrees_occur fair coherent coherent' agrees e)

end System

/-! ## Reads that succeed, before and after -/

namespace System

/-- Whatever is read in the one system is what the same read answers in the other, where it is
answered unless it is refused; and there is nothing else to tell them apart. -/
structure AnswersAlike (y y' : System) : Prop where
  sessions : y'.sessions = y.sessions
  backend : y'.storage.backend = y.storage.backend
  answers : ∀ (i cache : Nat) (x : Session) (refusals refusals' : Refusals) (r : TableRead)
    (rows rows' : List KeyedRow), y.sessions[i]? = some x →
    (y'.storage.readUnder cache x.transaction refusals' r).1 = .ok rows' →
    (y.storage.readUnder cache x.transaction refusals r).1 = .ok rows →
    ∀ key, rows'.lookup key = rows.lookup key
  answered : ∀ (i cache : Nat) (x : Session) (r : TableRead), y.sessions[i]? = some x →
    (∀ c, y.storage.caches[cache]? = some c → c.monitor.failing = 0) →
    ∃ rows, (y.storage.readUnder cache x.transaction granted r).1 = .ok rows

theorem Agrees.answersAlike {y y' : System} (agrees : y.Agrees y')
    (coherent : y.Coherent Table.Answers) (coherent' : y'.Coherent Table.Answers) :
    y.AnswersAlike y' := by
  refine ⟨agrees.sessions, agrees.storage.backend, ?_, ?_⟩
  · intro i cache x refusals refusals' r rows rows' session ended' ended key
    have session' : y'.sessions[i]? = some x := by rw [agrees.sessions, session]
    obtain ⟨o, sound⟩ := coherent.sessions x (List.mem_of_getElem? session)
    obtain ⟨o', sound'⟩ := coherent'.sessions x (List.mem_of_getElem? session')
    have name := agrees.storage.name cache
    cases there : y.storage.caches[cache]? with
    | none =>
        have there' : y'.storage.caches[cache]? = none := by
          rw [there] at name
          exact Option.map_eq_none_iff.1 name
        rw [Storage.readUnder, Storage.readThrough, there] at ended
        rw [Storage.readUnder, Storage.readThrough, there'] at ended'
        rw [Except.ok.inj (ended'.symm.trans ended)]
    | some c =>
        rw [there] at name
        obtain ⟨c', there', same⟩ := Option.map_eq_some_iff.1 name
        have sees : x.sees y'.storage c'.name key = x.sees y.storage c.name key := by
          rw [Session.sees, Session.sees, agrees.storage.backend, same]
        rw [(coherent.readUnder_spec sound there refusals r).1 rows ended key,
          (coherent'.readUnder_spec sound' there' refusals' r).1 rows' ended' key, sees]
  · intro i cache x r session willing
    obtain ⟨o, sound⟩ := coherent.sessions x (List.mem_of_getElem? session)
    cases there : y.storage.caches[cache]? with
    | none => exact ⟨[], by rw [Storage.readUnder, Storage.readThrough, there]⟩
    | some c => exact (coherent.readUnder_spec sound there granted r).2 (willing c there) rfl

/-- A system in which a call has left its own cache with less, and nothing else changed. -/
structure OnlyDropped (y y' : System) (cache : Nat) : Prop where
  sessions : y'.sessions = y.sessions
  backend : y'.storage.backend = y.storage.backend
  others : ∀ i, i ≠ cache → y'.storage.caches[i]? = y.storage.caches[i]?
  kept : ∀ c c', y.storage.caches[cache]? = some c → y'.storage.caches[cache]? = some c' →
    ∀ x, c'.Keeps x → c.Keeps x

end System

/-- A call that is refused a read, be it the first that it sends or a later one, ends in the
fault of that read.  Every slice that its cache keeps then was kept before, the same in all
its parts, and nothing else has changed.  Whatever happens later, a read that succeeds
answers what it would have answered without the call. -/
theorem refused_reads_leave_no_trace (rows : List Cell) {openings : List Opening}
    (oneEach : (openings.map Opening.name).Nodup) (before : List Occurrence) {i cache : Nat}
    {x : Session} {c c' : StoreCache} (refusals : Refusals) (r : TableRead) :
    let y := (System.begin (.prepared rows openings)).undergo before
    let y' := y.occur (.read i cache refusals r)
    ∀ {n : Nat} {fault : Fault}, y.sessions[i]? = some x → y.storage.caches[cache]? = some c →
      y'.storage.caches[cache]? = some c' →
      c.monitor.log.length + n < c'.monitor.log.length →
      c.monitor.verdict (refusals n) = some fault →
      (y.storage.readUnder cache x.transaction refusals r).1 = .error fault ∧
      y.OnlyDropped y' cache ∧
      ∀ later, (y.undergo later).AnswersAlike (y'.undergo later) := by
  intro y y' n fault session there there' sent refused
  have coherent : y.Coherent Table.Answers := System.coherent_undergo Table.fair_answers before
    (System.coherent_begin (Storage.coherent_prepared rows oneEach Table.Answers))
  have coherent' : y'.Coherent Table.Answers :=
    System.coherent_occur Table.fair_answers coherent _
  have agrees : y.Agrees y' := System.agrees_read Table.fair_answers coherent i cache refusals r
  let pending := fun key => x.transaction.pending c.name key
  let t := y.storage.backend.table c.table
  have through : y.storage.readUnder cache x.transaction refusals r =
      ((c.read refusals t pending r).1,
        y.storage.onCache cache fun _ => (c.read refusals t pending r).2) :=
    Storage.readUnder_of_there there x.transaction refusals r
  have storage : y'.storage =
      y.storage.onCache cache fun _ => (c.read refusals t pending r).2 := by
    simp only [y', System.occur, System.withSession, session, through]
  have left : c' = (c.read refusals t pending r).2 := by
    rw [storage, Storage.getElem?_onCache, if_pos rfl, there] at there'
    exact (Option.some.inj there').symm
  subst left
  obtain ⟨ended, kept⟩ := StoreCache.read_of_refused
    (coherent.storage.caches c (List.mem_of_getElem? there)) sent refused
  refine ⟨through ▸ ended, ⟨agrees.sessions, agrees.storage.backend, ?_, ?_⟩, ?_⟩
  · intro j other
    rw [storage, Storage.getElem?_onCache, if_neg other.symm]
  · intro d d' here here'
    obtain rfl := Option.some.inj (there.symm.trans here)
    obtain rfl := Option.some.inj (there'.symm.trans here')
    exact kept
  · intro later
    exact (System.agrees_undergo Table.fair_answers later coherent coherent' agrees).answersAlike
      (System.coherent_undergo Table.fair_answers later coherent)
      (System.coherent_undergo Table.fair_answers later coherent')

/-- One row is committed and read, so that it is kept; then changes of two others are held
back. -/
def System.twoRowsHeld : List Occurrence :=
  [.act (.start .default), .act (.call 0 (.mutate 0 [1] ⟨[⟨[5], [6], none⟩], []⟩)),
    .act (.call 0 .commit), .act (.pass 60), .act (.tend 0 .clean),
    .act (.read 0 0 (.firstSeven [1])),
    .act (.call 0 (.mutate 0 [2] ⟨[⟨[5], [7], none⟩], []⟩)),
    .act (.call 0 (.mutate 0 [3] ⟨[⟨[5], [8], none⟩], []⟩))]

/-- The second read of a call is refused. -/
def secondRefused : Refusals := fun n => if n = 1 then some (.backend .permanent "gone") else none

/-- Of three rows the first is kept, the second is read, and the third is refused. -/
theorem third_row_is_refused :
    let y := (System.begin (.prepared [] [⟨"edges", .default, false, fun _ => 0⟩])).undergo
      System.twoRowsHeld
    let r := TableRead.slices [[1], [2], [3]] (KeySlice.firstSeven []).slice
    ∃ x, y.sessions[0]? = some x ∧
      (y.storage.readUnder 0 x.transaction secondRefused r).1 =
        .error (.backend .permanent "gone") ∧
      y.OnlyDropped (y.occur (.read 0 0 secondRefused r)) 0 := by
  intro y r
  obtain ⟨ended, dropped, -⟩ := refused_reads_leave_no_trace [] (by decide) System.twoRowsHeld
    (n := 1) secondRefused r (rfl : y.sessions[0]? = _) (rfl : y.storage.caches[0]? = _) rfl
    (by decide) rfl
  exact ⟨_, rfl, ended, dropped⟩

end PropertyGraph
