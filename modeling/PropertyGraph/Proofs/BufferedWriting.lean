/-
# Proofs.BufferedWriting -- buffered writing refines direct writing

`Backend.direct` applies writes to the tables one by one, as they are issued.  A
backend replays writes when each of its rows is the old row with the writes to it
applied in turn, and nothing else has changed; that decides its tables
(`Replayed.tables_eq`).

* Direct writing replays what it writes (`replayed_direct`), and so does a flush that
  succeeds (`Flushed.replayed`), however it merged, consolidated, grouped and split.
* `buffered_writing`: after a run in which nothing fails, the tables are those of
  direct writing of the writes that a flush took along.
* What is still held back at the end is not in the tables (`held_back_is_not_written`).
-/
import PropertyGraph.Proofs.Storages

namespace PropertyGraph

set_option autoImplicit false

namespace Backend

/-- Writes applied to the tables one by one. -/
def direct (writes : List Write) (b : Backend) : Backend :=
  writes.foldl (fun b w => b.mutateRow w.name w.key w.mutation) b

/-- `b'` is `b` with some writes replayed on its rows. -/
structure Replayed (writes : List Write) (b b' : Backend) : Prop where
  sound : b'.Sound
  names : b'.names = b.names
  labels : b'.tables.map Table.name = b.tables.map Table.name
  unnamed : ∀ id, (∀ name, b.names.lookup name ≠ some id) → b'.table id = b.table id
  rows : ∀ name key, b'.rowOf name key = Write.replay writes name key (b.rowOf name key)

theorem Replayed.refl {b : Backend} (sound : b.Sound) : Replayed [] b b :=
  ⟨sound, rfl, rfl, fun _ _ => rfl, fun _ _ => rfl⟩

theorem Replayed.append {writes more : List Write} {b b' b'' : Backend}
    (first : Replayed writes b b') (then_ : Replayed more b' b'') :
    Replayed (writes ++ more) b b'' := by
  refine ⟨then_.sound, then_.names.trans first.names, then_.labels.trans first.labels, ?_, ?_⟩
  · intro id unnamed
    rw [then_.unnamed id, first.unnamed id unnamed]
    rw [first.names]
    exact unnamed
  · intro name key
    rw [then_.rows, first.rows]
    exact (List.foldl_append ..).symm

/-- The tables are known from the names, the labels and the rows. -/
theorem Replayed.tables_eq {writes : List Write} {b b' b'' : Backend}
    (one : Replayed writes b b') (other : Replayed writes b b'') : b'.tables = b''.tables := by
  have labels := one.labels.trans other.labels.symm
  have lengths : b'.tables.length = b''.tables.length := by
    simpa using congrArg List.length labels
  have tables : ∀ id, b'.table id = b''.table id := by
    intro id
    by_cases named : ∃ name, b.names.lookup name = some id
    · obtain ⟨name, known⟩ := named
      have known' : b'.names.lookup name = some id := by rw [one.names, known]
      have known'' : b''.names.lookup name = some id := by rw [other.names, known]
      refine Table.eq_of_row (one.sound.table id) (other.sound.table id) ?_ ?_
      · have label : (b'.tables.map Table.name)[id]? = (b''.tables.map Table.name)[id]? := by
          rw [labels]
        have there := one.sound.named name id known'
        have there' := other.sound.named name id known''
        simp only [List.getElem?_map, List.getElem?_eq_getElem there,
          List.getElem?_eq_getElem there', Option.map_some, Option.some.injEq] at label
        simpa only [Backend.table, List.getElem?_eq_getElem there,
          List.getElem?_eq_getElem there', Option.getD_some] using label
      · intro key
        rw [← rowOf_of_lookup known', ← rowOf_of_lookup known'', one.rows, other.rows]
    · have unnamed : ∀ name, b.names.lookup name ≠ some id := fun name known => named ⟨name, known⟩
      rw [one.unnamed id unnamed, other.unnamed id unnamed]
  apply List.ext_getElem lengths
  intro id there there'
  simpa only [Backend.table, List.getElem?_eq_getElem there, List.getElem?_eq_getElem there',
    Option.getD_some] using tables id

/-- A write whose store is known. -/
theorem replayed_mutateRow {b : Backend} (sound : b.Sound) {w : Write} {id : Nat}
    (known : b.names.lookup w.name = some id) :
    Replayed [w] b (b.mutateRow w.name w.key w.mutation) := by
  refine ⟨sound_mutateRow sound _ _ _, ?_, ?_, ?_, ?_⟩
  · rw [mutateRow_of_lookup known]
    rfl
  · rw [mutateRow_of_lookup known]
    refine List.ext_getElem? ?_
    intro place
    simp only [writeTable, List.getElem?_map, List.getElem?_modify]
    cases b.tables[place]? with
    | none => rfl
    | some t => by_cases here : id = place <;> simp [here, Table.name_mutate]
  · intro other unnamed
    rw [mutateRow_of_lookup known, table_writeTable (sound.named _ _ known), if_neg]
    rintro rfl
    exact unnamed w.name known
  · intro name key
    rw [rowOf_mutateRow sound known]
    show _ = if w.reaches name key then _ else _
    by_cases here : name = w.name ∧ key = w.key
    · obtain ⟨rfl, rfl⟩ := here
      simp [Write.reaches]
    · have misses : w.reaches name key = false := by
        rw [Bool.eq_false_iff]
        intro reaches
        simp only [Write.reaches, Bool.and_eq_true, beq_iff_eq] at reaches
        exact here ⟨reaches.1.symm, reaches.2.symm⟩
      simp [here, misses]

theorem replayed_direct {b : Backend} (sound : b.Sound) {writes : List Write}
    (known : ∀ w ∈ writes, ∃ id, b.names.lookup w.name = some id) :
    Replayed writes b (b.direct writes) := by
  induction writes generalizing b with
  | nil => exact .refl sound
  | cons w rest ih =>
      obtain ⟨id, here⟩ := known w List.mem_cons_self
      have first := replayed_mutateRow sound here
      refine first.append (ih first.sound ?_)
      intro w' member
      rw [first.names]
      exact known w' (List.mem_cons_of_mem _ member)

end Backend

/-- A flush that succeeds replays what was held back. -/
theorem WriteBuffer.Flushed.replayed {b : WriteBuffer} {writes : List Write}
    {before after : Backend} {outcome : Outcome Unit}
    (flushed : Flushed b writes before after outcome) (ok : outcome = .ok ()) :
    Backend.Replayed writes before after :=
  ⟨flushed.sound, flushed.names, flushed.labels, flushed.unnamed, flushed.done ok⟩

namespace Call

/-- The call decides about everything that is held back. -/
def Settles : Call → Prop
  | .mutate .. => False
  | _ => True

theorem write?_congr {s s' : Storage} (call : Call) (places : s'.places = s.places) :
    call.write? s' = call.write? s := by
  cases call with
  | mutate cache key m =>
      have names : ∀ s : Storage, (s.caches[cache]?.map fun c => c.name) =
          s.places[cache]?.map Prod.snd := by
        intro s
        rw [Storage.places, List.getElem?_map, Option.map_map]
        rfl
      have same := (names s').trans ((congrArg (fun p => p[cache]?.map Prod.snd) places).trans
        (names s).symm)
      have written := congrArg (Option.map fun name => Write.mk cache name key m) same
      rw [Option.map_map, Option.map_map] at written
      exact written
  | flush => rfl
  | commit => rfl
  | rollback => rfl

end Call

namespace Session

/-- The calls of one session in turn, with the outcome of each. -/
def runCalls : List Call → Session → Storage → List (Outcome Unit) × Session × Storage
  | [], x, s => ([], x, s)
  | call :: rest, x, s =>
      let (outcome, x, s) := x.perform s call
      let (outcomes, x, s) := runCalls rest x s
      (outcome :: outcomes, x, s)

/-- What a session has written so far is what it was replayed on the rows. -/
structure Writes (base : Backend) (x : Session) (o : TransactionOptions) (s : Storage) :
    Prop where
  storage : s.Sound
  session : x.Sound o s
  replayed : Backend.Replayed x.ledger.written base s.backend
  known : ∀ w ∈ x.ledger.written, ∃ id, base.names.lookup w.name = some id

variable {base : Backend} {x : Session} {o : TransactionOptions} {s : Storage}

/-- A call that succeeds replays what it takes along. -/
theorem Writes.perform (writes : Writes base x o s) (call : Call)
    (ok : (x.perform s call).1 = .ok ()) :
    Writes base (x.perform s call).2.1 o (x.perform s call).2.2 ∧
      (x.perform s call).2.2.places = s.places ∧
      (x.perform s call).2.1.ledger.issued = x.ledger.issued ++ (call.write? s).toList := by
  obtain ⟨after, performed⟩ := perform_spec writes.storage writes.session call
  have written := performed.written ok
  have places := performed.places
  have replayed := writes.replayed.append (performed.flushed.replayed ok)
  refine ⟨⟨writes.storage.congr places ?_ ?_, performed.session.congr places, ?_, ?_⟩,
    places, performed.issued⟩
  · rw [performed.backend]
    exact performed.flushed.names
  · rw [performed.backend]
    exact performed.flushed.sound
  · rw [performed.backend, written]
    exact replayed
  · intro w member
    rw [written] at member
    rcases List.mem_append.1 member with old | new
    · exact writes.known w old
    · obtain ⟨c, there, name⟩ := performed.through w new
      have linked := writes.storage.linked c (List.mem_of_getElem? there)
      rw [writes.replayed.names, name] at linked
      exact ⟨c.table, linked⟩

/-- Nothing is held back after a flush, a commit or a rollback that succeeds. -/
theorem held_perform {call : Call} (settles : call.Settles)
    (ok : (x.perform s call).1 = .ok ()) : (x.perform s call).2.1.ledger.held = [] := by
  have flushed : ∀ outcome : Outcome Unit, outcome = .ok () →
      (x.ledger.flushed outcome).held = [] := by
    rintro outcome rfl
    rfl
  cases call with
  | mutate _ _ _ => exact settles.elim
  | flush => exact flushed _ ok
  | commit => exact flushed _ ok
  | rollback => rfl

/-- A run that succeeds replays what flushes took along. -/
theorem Writes.run (calls : List Call) (writes : Writes base x o s)
    (ok : ∀ outcome ∈ (runCalls calls x s).1, outcome = .ok ()) :
    Writes base (runCalls calls x s).2.1 o (runCalls calls x s).2.2 ∧
      (runCalls calls x s).2.1.ledger.issued = x.ledger.issued ++ calls.filterMap (Call.write? s) ∧
      ∀ call, calls.getLast? = some call → call.Settles →
        (runCalls calls x s).2.1.ledger.held = [] := by
  induction calls generalizing x s with
  | nil => exact ⟨writes, (List.append_nil _).symm, fun _ last => by cases last⟩
  | cons call rest ih =>
      have okHere : (x.perform s call).1 = .ok () := ok _ List.mem_cons_self
      obtain ⟨writes', places, issued⟩ := writes.perform call okHere
      obtain ⟨after, issued', settled⟩ := ih writes' fun outcome member =>
        ok outcome (List.mem_cons_of_mem _ member)
      refine ⟨after, ?_, ?_⟩
      · have step : (runCalls (call :: rest) x s).2.1 =
            (runCalls rest (x.perform s call).2.1 (x.perform s call).2.2).2.1 := rfl
        rw [step, issued', issued, List.append_assoc, List.filterMap_cons]
        have same : rest.filterMap (Call.write? (x.perform s call).2.2) =
            rest.filterMap (Call.write? s) :=
          congrArg (rest.filterMap ·) (funext fun call => call.write?_congr places)
        rw [same]
        cases call.write? s <;> rfl
      · intro last isLast settles
        cases rest with
        | nil =>
            obtain rfl := Option.some.inj isLast
            exact held_perform settles okHere
        | cons next rest => exact settled last isLast settles

end Session

/-- After a run of one transaction in which nothing fails, the tables are those of direct
writing of what flushes took along, in the order it was issued, whatever the orders in which
the flushes went through their rows.  Of the issued writes
that leaves out those that were still held back when a rollback gave them up, or when
the run ended; and nothing is held back after a flush, a commit or a rollback. -/
theorem buffered_writing (rows : List Cell) (openings : List Opening)
    (outcomes : List WriteOutcome) (orders : List RowOrder) (o : TransactionOptions)
    (calls : List Call)
    (succeeds : ∀ outcome ∈ (Session.runCalls calls (.start o)
      (((Storage.prepared rows openings).expecting outcomes).shuffled orders)).1,
      outcome = .ok ()) :
    let s := ((Storage.prepared rows openings).expecting outcomes).shuffled orders
    let (_, x, after) := Session.runCalls calls (.start o) s
    after.backend.tables = (s.backend.direct x.ledger.written).tables ∧
      x.ledger.issued = calls.filterMap (Call.write? s) ∧
      ∀ call, calls.getLast? = some call → call.Settles → x.ledger.held = [] := by
  intro s
  have sound : s.Sound :=
    ((Storage.prepared_spec rows openings).1.expecting outcomes).shuffled orders
  have start : Session.Writes s.backend (.start o) o s :=
    ⟨sound, Session.sound_start o s, .refl sound.backend, fun _ member => by cases member⟩
  obtain ⟨writes, issued, settled⟩ := start.run calls succeeds
  exact ⟨writes.replayed.tables_eq (Backend.replayed_direct sound.backend writes.known),
    issued, settled⟩

/-- A first attempt to write fails though it reached the row, the second one succeeds; of the
four writes a rollback gives up the second, and the last flush goes through its two rows the
other way round. -/
theorem rolled_back_is_skipped :
    let s := ((Storage.prepared [] [⟨"edges", .default, false, fun _ => 0⟩]).expecting
      [.failed .temporary "busy" fun _ _ => true]).shuffled [.issued, .reversed]
    (Session.runCalls
      [.mutate 0 [1] ⟨[⟨[5], [6], none⟩], []⟩, .flush, .mutate 0 [1] ⟨[], [[5]]⟩, .rollback,
        .mutate 0 [1] ⟨[⟨[7], [8], none⟩], []⟩, .mutate 0 [2] ⟨[⟨[7], [9], none⟩], []⟩, .commit]
      (.start .default) s).2.2.backend.tables =
      (s.backend.direct
        [⟨0, "edges", [1], ⟨[⟨[5], [6], none⟩], []⟩⟩,
          ⟨0, "edges", [1], ⟨[⟨[7], [8], none⟩], []⟩⟩,
          ⟨0, "edges", [2], ⟨[⟨[7], [9], none⟩], []⟩⟩]).tables :=
  (buffered_writing [] [⟨"edges", .default, false, fun _ => 0⟩]
    [.failed .temporary "busy" fun _ _ => true] [.issued, .reversed] .default
    [.mutate 0 [1] ⟨[⟨[5], [6], none⟩], []⟩, .flush, .mutate 0 [1] ⟨[], [[5]]⟩, .rollback,
      .mutate 0 [1] ⟨[⟨[7], [8], none⟩], []⟩, .mutate 0 [2] ⟨[⟨[7], [9], none⟩], []⟩, .commit]
    fun _ member => List.eq_of_mem_replicate
      (show _ ∈ List.replicate 7 (Except.ok ()) from member)).1

/-- What is held back when a run ends is not written, though no rollback gave it up. -/
theorem held_back_is_not_written :
    let s := Storage.prepared [] [⟨"edges", .default, false, fun _ => 0⟩]
    let run := Session.runCalls [.mutate 0 [1] ⟨[⟨[5], [6], none⟩], []⟩] (.start .default) s
    run.1 = [.ok ()] ∧ run.2.1.ledger.settled = [] ∧
      run.2.1.ledger.issued = [⟨0, "edges", [1], ⟨[⟨[5], [6], none⟩], []⟩⟩] ∧
      run.2.2.backend.tables ≠ (s.backend.direct run.2.1.ledger.issued).tables := by
  refine ⟨rfl, rfl, rfl, ?_⟩
  decide

end PropertyGraph
