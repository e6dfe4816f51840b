/-
# Proofs.FreshReads -- no read is stale, and every transaction sees its own writes

A system is a storage and the sessions that use it.  Its actions are taken one after
the other: calls of any session, reads, whatever can be done to a cache, time passing,
and what lies outside, such as failures to come.

* `System.Coherent` is the invariant: the storage is coherent and every session is
  sound.  One action keeps it (`System.coherent_step`), so a run does
  (`System.coherent_run`).
* `reads_are_fresh`: in every system that a run leads to, a read that succeeds through
  a session answers the row of the backend with the session's held back writes applied,
  cut to the slice.
-/
import PropertyGraph.Proofs.ReadRequests
import PropertyGraph.Proofs.Storages

namespace PropertyGraph

set_option autoImplicit false

structure System where
  storage : Storage
  sessions : List Session

/-- What happens to a system. -/
inductive Action where
  | start (options : TransactionOptions)
  | call (session : Nat) (call : Call)
  | read (session cache : Nat) (q : KeySlice)
  | readMany (session cache : Nat) (keys : List Bytes) (slice : Slice)
  | tend (cache : Nat) (action : CacheAction)
  | closeCache (cache : Nat)
  | pass (ticks : Nat)
  /-- Reads of a table are going to fail. -/
  | failReads (cache : Nat) (failure : BackendKind) (times : Nat)
  /-- What becomes of the coming batches. -/
  | decideWrites (outcomes : List WriteOutcome)
  /-- In which orders the coming flushes go through rows. -/
  | shuffle (orders : List RowOrder)
  /-- What chance decides of the coming invalidations. -/
  | toss (cache : Nat) (coins : List Bool)

namespace System

def begin (s : Storage) : System := ⟨s, []⟩

/-- What a session does to the storage. -/
def withSession (y : System) (i : Nat) (f : Session → Session × Storage) : System :=
  match y.sessions[i]? with
  | some x => ⟨(f x).2, y.sessions.set i (f x).1⟩
  | none => y

def step (y : System) : Action → System
  | .start options => { y with sessions := y.sessions ++ [Session.start options] }
  | .call i call => y.withSession i fun x => (x.perform y.storage call).2
  | .read i cache q => y.withSession i fun x => (x, (y.storage.getSlice cache x.transaction q).2)
  | .readMany i cache keys slice =>
      y.withSession i fun x => (x, (y.storage.getSlices cache x.transaction keys slice).2)
  | .tend cache action =>
      { y with storage := y.storage.onCache cache fun c => c.perform action }
  | .closeCache cache => { y with storage := y.storage.onCache cache StoreCache.close }
  | .pass ticks => { y with storage := y.storage.advance ticks }
  | .failReads cache failure times =>
      { y with
        storage := y.storage.onCache cache fun c =>
          { c with monitor := c.monitor.failNext failure times } }
  | .decideWrites outcomes => { y with storage := y.storage.expecting outcomes }
  | .shuffle orders => { y with storage := y.storage.shuffled orders }
  | .toss cache coins =>
      { y with
        storage := y.storage.onCache cache fun c =>
          { c with slices := c.slices.map fun s => { s with coins } } }

def run (actions : List Action) (y : System) : System := actions.foldl step y

/-- The storage is coherent, and every session holds back what its ledger says. -/
structure Coherent (y : System) (right : Standard) : Prop where
  storage : y.storage.Coherent right
  sessions : ∀ x ∈ y.sessions, ∃ o, x.Sound o y.storage

theorem coherent_begin {s : Storage} {right : Standard} (storage : s.Coherent right) :
    (begin s).Coherent right :=
  ⟨storage, fun _ member => by cases member⟩

namespace Coherent

variable {y : System} {right : Standard}

/-- What a storage becomes without a session being involved. -/
theorem withStorage (coherent : y.Coherent right) {s : Storage} (storage : s.Coherent right)
    (places : s.places = y.storage.places) : Coherent { y with storage := s } right := by
  refine ⟨storage, ?_⟩
  intro x member
  obtain ⟨o, sound⟩ := coherent.sessions x member
  exact ⟨o, sound.congr places⟩

theorem withSession (coherent : y.Coherent right) (i : Nat) {f : Session → Session × Storage}
    (keeps : ∀ x o, x.Sound o y.storage →
      (f x).1.Sound o y.storage ∧ (f x).2.Coherent right ∧
        (f x).2.places = y.storage.places) :
    (y.withSession i f).Coherent right := by
  unfold System.withSession
  cases found : y.sessions[i]? with
  | none => exact coherent
  | some x =>
      obtain ⟨o, sound⟩ := coherent.sessions x (List.mem_of_getElem? found)
      obtain ⟨sound', storage, places⟩ := keeps x o sound
      refine ⟨storage, ?_⟩
      intro x' member
      rcases List.mem_or_eq_of_mem_set member with old | rfl
      · obtain ⟨o', sound⟩ := coherent.sessions x' old
        exact ⟨o', sound.congr places⟩
      · exact ⟨o, sound'.congr places⟩

theorem onCache (coherent : y.Coherent right) (i : Nat) {f : StoreCache → StoreCache}
    (place : ∀ c, (f c).place = c.place)
    (keeps : ∀ c right, c.Coherent right → (f c).Coherent right) :
    Coherent { y with storage := y.storage.onCache i f } right :=
  coherent.withStorage (coherent.storage.onCache (fun c _ => place c) fun c _ => keeps c _)
    (Storage.places_onCache fun c _ => place c)

end Coherent

/-- No action makes a cache wrong, or a session lose sight of what it holds back. -/
theorem coherent_step {y : System} {right : Standard} (fair : right.Fair)
    (coherent : y.Coherent right) (action : Action) : (y.step action).Coherent right := by
  have storage := coherent.storage
  cases action with
  | start options =>
      refine ⟨storage, ?_⟩
      intro x member
      rcases List.mem_append.1 member with old | new
      · exact coherent.sessions x old
      · obtain rfl := List.mem_singleton.1 new
        exact ⟨options, Session.sound_start options y.storage⟩
  | call i call =>
      apply coherent.withSession i
      intro x o sound
      obtain ⟨after, performed⟩ := Session.perform_spec storage.sound sound call
      exact ⟨performed.session, storage.performed fair performed, performed.places⟩
  | read i cache q =>
      exact coherent.withSession i fun x o sound =>
        ⟨sound, storage.getSlice fair cache x.transaction q⟩
  | readMany i cache keys slice =>
      exact coherent.withSession i fun x o sound =>
        ⟨sound, storage.getSlices fair cache x.transaction keys slice⟩
  | tend cache action =>
      exact coherent.onCache cache (fun c => c.place_perform action) fun c _ fine =>
        fine.perform action
  | closeCache cache => exact coherent.onCache cache (fun _ => rfl) fun c _ fine => fine.close
  | pass ticks =>
      obtain ⟨later, places⟩ := storage.advance ticks
      exact coherent.withStorage later places
  | failReads cache failure times =>
      exact coherent.onCache cache (fun _ => rfl) fun c _ fine => ⟨fine.quiet, fine.slices⟩
  | decideWrites outcomes =>
      exact coherent.withStorage ⟨storage.sound.expecting outcomes, storage.oneEach.congr rfl,
        storage.caches⟩ rfl
  | shuffle orders =>
      exact coherent.withStorage ⟨storage.sound.shuffled orders, storage.oneEach.congr rfl,
        storage.caches⟩ rfl
  | toss cache coins =>
      refine coherent.onCache cache (fun _ => rfl) fun c _ fine => ⟨fine.quiet, ?_⟩
      intro s kept
      obtain ⟨s', there, rfl⟩ := Option.map_eq_some_iff.1 kept
      have before := fine.slices s' there
      exact ⟨before.lasting, before.shards, before.ordered, before.entered, before.kept⟩

theorem coherent_run {right : Standard} (fair : right.Fair) (actions : List Action) {y : System}
    (coherent : y.Coherent right) : (y.run actions).Coherent right := by
  induction actions generalizing y with
  | nil => exact coherent
  | cons action rest ih => exact ih (coherent_step fair coherent action)

end System

/-- A row as a session sees it: the row of the backend, with the session's writes to it
that are still held back applied in the order they were issued. -/
def Session.sees (x : Session) (s : Storage) (name : String) (key : Bytes) : List Entry :=
  Write.replay x.ledger.held name key (s.backend.rowOf name key)

/-- The table and what is held back of a row make up what the session sees. -/
theorem Session.Sound.seen {x : Session} {o : TransactionOptions} {s : Storage}
    (sound : x.Sound o s) (ordered : s.Sound) {c : StoreCache} (member : c ∈ s.caches)
    (key : Bytes) :
    (s.backend.table c.table).seen (x.transaction.pending c.name key) key =
      x.sees s c.name key := by
  have row := Storage.Coherent.row_table ordered member key
  have ascending := ordered.backend.ascending c.name key
  rw [Session.sees, ← WriteBuffer.applied_holding o x.ledger.held c.name key ascending,
    Transaction.pending, sound.buffer, WriteBuffer.pending_eq]
  cases held : (WriteBuffer.holding o x.ledger.held).row? c.name key with
  | none => exact row
  | some m =>
      by_cases nothing : m.isEmpty = true
      · simp only [Option.filter, nothing, Bool.not_true, if_false, Bool.false_eq_true]
        rw [Mutation.applyTo_of_isEmpty nothing]
        exact row
      · simp only [Option.filter, nothing, Bool.not_false, if_true]
        rw [Table.seen, row]

namespace System.Coherent

variable {y : System} {x : Session} {o : TransactionOptions} {i : Nat} {c : StoreCache}

/-- A read answers each row that was asked for as its session sees it, and no other row. -/
theorem readUnder_spec (coherent : y.Coherent Table.Answers) (sound : x.Sound o y.storage)
    (there : y.storage.caches[i]? = some c) (refusals : Refusals) (r : TableRead) :
    (∀ rows, (y.storage.readUnder i x.transaction refusals r).1 = .ok rows → ∀ key,
      rows.lookup key =
        if key ∈ r.keys then some (r.part.apply (x.sees y.storage c.name key)) else none) ∧
    (c.monitor.failing = 0 → refusals = granted →
      ∃ rows, (y.storage.readUnder i x.transaction refusals r).1 = .ok rows) := by
  have member : c ∈ y.storage.caches := List.mem_of_getElem? there
  have ordered := coherent.storage.sound
  obtain ⟨-, -, right, succeeds⟩ := StoreCache.request_spec (coherent.storage.caches c member)
    (ordered.backend.table c.table) (Table.fair_answers.met _) refusals
    (fun key => x.transaction.pending c.name key) r
  rw [Storage.readUnder_of_there there]
  refine ⟨fun rows ended key => ?_, succeeds⟩
  obtain ⟨shown, all⟩ := right rows ended
  refine StoreCache.lookup_eq_ite (f := fun key => r.part.apply (x.sees y.storage c.name key))
    ?_ all key
  intro row inRows
  obtain ⟨asked, shown⟩ := shown row inRows
  rw [Table.shows_answers_iff (ordered.backend.table c.table), sound.seen ordered member] at shown
  exact ⟨asked, shown⟩

/-- A read of one slice answers the row as its session sees it. -/
theorem getSlice_spec (coherent : y.Coherent Table.Answers) (sound : x.Sound o y.storage)
    (there : y.storage.caches[i]? = some c) (q : KeySlice) :
    (∀ entries, (y.storage.getSlice i x.transaction q).1 = .ok entries →
      entries = q.slice.apply (x.sees y.storage c.name q.key)) ∧
    (c.monitor.failing = 0 →
      ∃ entries, (y.storage.getSlice i x.transaction q).1 = .ok entries) := by
  obtain ⟨fresh, succeeds⟩ := coherent.readUnder_spec sound there granted (.slice q)
  have read := congrArg Prod.fst (Storage.read_slice there x.transaction q)
  rw [Storage.read] at read
  rw [read] at fresh succeeds
  constructor
  · intro entries ended
    rw [ended] at fresh
    have shown := fresh _ rfl q.key
    simpa [TableRead.keys, TableRead.part] using shown
  · intro permitted
    obtain ⟨rows, ended⟩ := succeeds permitted rfl
    cases answer : (y.storage.getSlice i x.transaction q).1 with
    | ok entries => exact ⟨entries, rfl⟩
    | error fault =>
        rw [answer] at ended
        cases ended

/-- A read of several rows answers each row that was asked for, and no other. -/
theorem getSlices_spec (coherent : y.Coherent Table.Answers) (sound : x.Sound o y.storage)
    (there : y.storage.caches[i]? = some c) (keys : List Bytes) (slice : Slice) :
    (∀ answers, (y.storage.getSlices i x.transaction keys slice).1 = .ok answers →
      ∀ key, answers.lookup key =
        if key ∈ keys then some (slice.apply (x.sees y.storage c.name key)) else none) ∧
    (c.monitor.failing = 0 →
      ∃ answers, (y.storage.getSlices i x.transaction keys slice).1 = .ok answers) := by
  obtain ⟨fresh, succeeds⟩ := coherent.readUnder_spec sound there granted (.slices keys slice)
  exact ⟨fresh, fun permitted => succeeds permitted rfl⟩

end System.Coherent

/-- Whatever was done before, a read that succeeds answers the current row of the
backend with the reader's own held back writes applied, restricted to the slice; and it
succeeds unless the table's reads are bound to fail. -/
theorem reads_are_fresh (rows : List Cell) {openings : List Opening}
    (oneEach : (openings.map Opening.name).Nodup) (actions : List Action) {i cache : Nat}
    {x : Session} {c : StoreCache}
    (session : ((System.begin (.prepared rows openings)).run actions).sessions[i]? = some x)
    (there : ((System.begin (.prepared rows openings)).run actions).storage.caches[cache]? =
      some c) :
    let s := ((System.begin (.prepared rows openings)).run actions).storage
    (∀ q entries, (s.getSlice cache x.transaction q).1 = .ok entries →
      entries = q.slice.apply (x.sees s c.name q.key)) ∧
    (∀ keys slice answers, (s.getSlices cache x.transaction keys slice).1 = .ok answers →
      ∀ key, answers.lookup key =
        if key ∈ keys then some (slice.apply (x.sees s c.name key)) else none) ∧
    (c.monitor.failing = 0 →
      (∀ q, ∃ entries, (s.getSlice cache x.transaction q).1 = .ok entries) ∧
      ∀ keys slice, ∃ answers, (s.getSlices cache x.transaction keys slice).1 = .ok answers) := by
  intro s
  have coherent := System.coherent_run Table.fair_answers actions
    (System.coherent_begin (Storage.coherent_prepared rows oneEach Table.Answers))
  obtain ⟨o, sound⟩ := coherent.sessions x (List.mem_of_getElem? session)
  refine ⟨?_, ?_, ?_⟩
  · intro q entries read
    exact (coherent.getSlice_spec sound there q).1 entries read
  · intro keys slice answers read
    exact (coherent.getSlices_spec sound there keys slice).1 answers read
  · intro willing
    constructor
    · intro q
      exact (coherent.getSlice_spec sound there q).2 willing
    · intro keys slice
      exact (coherent.getSlices_spec sound there keys slice).2 willing

/-- The first columns of a row, seven at most. -/
def KeySlice.firstSeven (key : Bytes) : KeySlice :=
  ⟨key, ⟨[], [9], 7, List.nil_le _, by decide⟩⟩

/-- One session commits a column and reads the row, so that it is kept; another one then
holds a second column back. -/
def System.sharedRow : System :=
  (begin (.prepared [] [⟨"edges", .default, false, fun _ => 0⟩])).run
    [.start .default, .start .default,
      .call 0 (.mutate 0 [1] ⟨[⟨[5], [6], none⟩], []⟩), .call 0 .commit,
      .pass 60, .tend 0 .clean, .read 0 0 (.firstSeven [1]),
      .call 1 (.mutate 0 [1] ⟨[⟨[7], [8], none⟩], []⟩)]

theorem sharedRow_read : ∃ x c,
    System.sharedRow.sessions[1]? = some x ∧ System.sharedRow.storage.caches[0]? = some c ∧
      (System.sharedRow.storage.getSlice 0 x.transaction (.firstSeven [1])).1 =
        .ok [⟨[5], [6], none⟩, ⟨[7], [8], none⟩] := by
  obtain ⟨right, -, succeeds⟩ := reads_are_fresh [] (by decide) _
    (rfl : System.sharedRow.sessions[1]? = _) (rfl : System.sharedRow.storage.caches[0]? = _)
  obtain ⟨entries, read⟩ := (succeeds rfl).1 (.firstSeven [1])
  have row : entries = [⟨[5], [6], none⟩, ⟨[7], [8], none⟩] := right _ entries read
  exact ⟨_, _, rfl, rfl, read.trans (congrArg Except.ok row)⟩

end PropertyGraph
