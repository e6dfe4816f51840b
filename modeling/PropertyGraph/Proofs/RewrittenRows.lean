/-
# Proofs.RewrittenRows -- what is left of a row after its vertex was written

Writing a vertex deletes the columns that a read of its row finds and the vertex does not
have.  The read shows what the session holds back over a row that may come from a cache, and
the write joins what is held back, so nothing of the former row is left.

* A mutation that covers the columns of a slice leaves in it what it adds, whatever else the
  row has (`SchemaRow.apply_applyTo_rewrite`).
* A write is a read and a call of its session (`StoredSchema.write_eq_run`), after which the
  session sees the row of the vertex until it changes it again (`StoredSchema.sees_rewritten`).
* A row that no session tries to write stays as it is (`System.rowOf_run`), so what a session
  saw of it is what all are answered after a commit (`System.reads_seen`).
* `rewritten_row_is_exact` puts these together.
-/
import PropertyGraph.Proofs.FailedFlushes
import PropertyGraph.Proofs.StoredSchemas

namespace PropertyGraph

set_option autoImplicit false

/-- Of a row that has any other columns a vertex takes all that schema vertices have. -/
theorem SchemaRow.apply_applyTo_rewrite [RowCodec] {row : List Entry}
    (ascending : Sorted.Ascending Entry.column row) (v : SchemaVertex) :
    slice.apply ((rewrite (slice.apply row) v).applyTo row) = rowOf v := by
  have selected : Sorted.Ascending Entry.column (slice.apply row) := ascending.filter _
  calc slice.apply ((rewrite (slice.apply row) v).applyTo row)
      = slice.apply ((rewrite (slice.apply row) v).applyTo (slice.apply row)) :=
        (Mutation.overlay_unlimited ascending _ slice).symm
    _ = slice.apply (rowOf v) := by rw [applyTo_rewrite selected]
    _ = rowOf v := apply_rowOf v

/-! ## Reading -/

/-- A read through the cache answers these entries, if reads of its table are not bound to
fail. -/
def Storage.ReadsAs (s : Storage) (cache : Nat) (t : Transaction) (q : KeySlice)
    (entries : List Entry) : Prop :=
  (s.getSlice cache t q).1 = .ok entries ∨
    ∃ f c, (s.getSlice cache t q).1 = .error f ∧ s.caches[cache]? = some c ∧ c.monitor.failing ≠ 0

theorem Storage.ReadsAs.eq_ok {s : Storage} {cache : Nat} {t : Transaction} {q : KeySlice}
    {entries : List Entry} (reads : s.ReadsAs cache t q entries)
    (willing : ∀ c, s.caches[cache]? = some c → c.monitor.failing = 0) :
    (s.getSlice cache t q).1 = .ok entries :=
  reads.resolve_right fun ⟨_, c, _, there, failing⟩ => failing (willing c there)

namespace System

variable {y : System}

theorem Coherent.readsAs (coherent : y.Coherent Table.Answers) {x : Session}
    {o : TransactionOptions} (sound : x.Sound o y.storage) {cache : Nat} {c : StoreCache}
    (there : y.storage.caches[cache]? = some c) (q : KeySlice) :
    y.storage.ReadsAs cache x.transaction q (q.slice.apply (x.sees y.storage c.name q.key)) := by
  obtain ⟨right, succeeds⟩ := coherent.getSlice_spec sound there q
  cases read : (y.storage.getSlice cache x.transaction q).1 with
  | ok entries =>
      left
      rw [read, right entries read]
  | error f =>
      refine .inr ⟨f, c, read, there, fun willing => ?_⟩
      obtain ⟨entries, answered⟩ := succeeds willing
      rw [read] at answered
      cases answered

/-- A cache stays in front of its store. -/
theorem cache_run {right : Standard} (fair : right.Fair) (actions : List Action)
    (coherent : y.Coherent right) {cache : Nat} {c : StoreCache}
    (there : y.storage.caches[cache]? = some c) :
    ∃ c', (y.run actions).storage.caches[cache]? = some c' ∧ c'.name = c.name := by
  induction actions generalizing y c with
  | nil => exact ⟨c, there, rfl⟩
  | cons action rest ih =>
      have places := places_step coherent fair action
      obtain ⟨c₁, there₁, place⟩ := Storage.cache_of_places places.symm there
      obtain ⟨c', there', name⟩ := ih (coherent_step fair coherent action) there₁
      exact ⟨c', there', name.trans (Prod.mk.inj place).2.symm⟩

/-! ## Rows that nobody writes -/

/-- No session tries to write the row in this action. -/
def Passes (y : System) (name : String) (key : Bytes) : Action → Prop
  | .call j call =>
      ∀ z, y.sessions[j]? = some z → ∀ w ∈ z.attempts y.storage call, w.reaches name key = false
  | _ => True

/-- Throughout the actions no session tries to write the row. -/
def Untouched (name : String) (key : Bytes) : List Action → System → Prop
  | [], _ => True
  | action :: rest, y => y.Passes name key action ∧ Untouched name key rest (y.step action)

variable {right : Standard} {name : String} {key : Bytes}

theorem rowOf_withSession (j : Nat) {f : Session → Session × Storage}
    (same : ∀ z, y.sessions[j]? = some z →
      (f z).2.backend.rowOf name key = y.storage.backend.rowOf name key) :
    (y.withSession j f).storage.backend.rowOf name key = y.storage.backend.rowOf name key := by
  unfold System.withSession
  cases found : y.sessions[j]? with
  | none => rfl
  | some z => exact same z found

theorem rowOf_step (coherent : y.Coherent right) {action : Action}
    (passes : y.Passes name key action) :
    (y.step action).storage.backend.rowOf name key = y.storage.backend.rowOf name key := by
  cases action with
  | call j call =>
      refine rowOf_withSession j fun z found => ?_
      obtain ⟨o, sound⟩ := coherent.sessions z (List.mem_of_getElem? found)
      exact Session.rowOf_perform_of_misses coherent.storage.sound sound (passes z found)
  | read j cache q =>
      exact rowOf_withSession j fun z _ => congrArg (·.rowOf name key)
        (y.storage.backend_readThrough ..)
  | readMany j cache keys slice =>
      exact rowOf_withSession j fun z _ => congrArg (·.rowOf name key)
        (y.storage.backend_readThrough ..)
  | start options | tend cache action | closeCache cache | pass ticks
  | failReads cache failure times | decideWrites outcomes | shuffle orders | toss cache coins => rfl

theorem rowOf_run (fair : right.Fair) (actions : List Action) (coherent : y.Coherent right)
    (untouched : y.Untouched name key actions) :
    (y.run actions).storage.backend.rowOf name key = y.storage.backend.rowOf name key := by
  induction actions generalizing y with
  | nil => rfl
  | cons action rest ih =>
      obtain ⟨passes, later⟩ := untouched
      exact (ih (coherent_step fair coherent action) later).trans (rowOf_step coherent passes)

end System

/-- What a session holds back of a row shows over the row of the backend. -/
theorem Session.Sound.apply_sees {x : Session} {o : TransactionOptions} {s : Storage}
    (sound : x.Sound o s) (ordered : s.Sound) {c : StoreCache} (member : c ∈ s.caches)
    (key : Bytes) (slice : Slice) :
    slice.apply (x.sees s c.name key) =
      match x.transaction.pending c.name key with
      | none => slice.apply (s.backend.rowOf c.name key)
      | some m => m.overlay (slice.unlimited.apply (s.backend.rowOf c.name key)) slice := by
  have row := Storage.Coherent.row_table ordered member key
  rw [← sound.seen ordered member]
  cases x.transaction.pending c.name key with
  | none => exact congrArg _ row
  | some m =>
      refine (congrArg (fun row => slice.apply (m.applyTo row)) row).trans ?_
      exact (Mutation.overlay_unlimited (ordered.backend.ascending c.name key) m slice).symm

/-- What a session saw of a row is what all sessions are answered after its commit, with what
they hold back themselves, until one of them tries to write the row. -/
theorem System.reads_committed {y : System} (coherent : y.Coherent Table.Answers) {i cache : Nat}
    {x : Session} (session : y.sessions[i]? = some x) {c : StoreCache}
    (there : y.storage.caches[cache]? = some c)
    (ok : (x.transaction.commit y.storage).1 = .ok ()) {later : List Action} {q : KeySlice}
    (untouched : (y.step (.call i .commit)).Untouched c.name q.key later) :
    let after := (y.step (.call i .commit)).run later
    ∀ z ∈ after.sessions, after.storage.ReadsAs cache z.transaction q
      (match z.transaction.pending c.name q.key with
        | none => q.slice.apply (x.sees y.storage c.name q.key)
        | some m => m.overlay (q.slice.unlimited.apply (x.sees y.storage c.name q.key)) q.slice) := by
  intro after z member
  obtain ⟨o, sound⟩ := coherent.sessions x (List.mem_of_getElem? session)
  have committed : (y.step (.call i .commit)).Coherent Table.Answers :=
    coherent_step Table.fair_answers coherent _
  have coherent' : after.Coherent Table.Answers :=
    coherent_run Table.fair_answers later committed
  have row : after.storage.backend.rowOf c.name q.key = x.sees y.storage c.name q.key := by
    have step : (y.step (.call i .commit)).storage = (x.perform y.storage .commit).2.2 := by
      simp only [System.step, System.withSession, session]
    rw [rowOf_run Table.fair_answers later committed untouched, step]
    exact Session.rowOf_of_settled coherent.storage.sound sound (show Call.Settles .commit from trivial)
      Call.noConfusion ok c.name q.key
  obtain ⟨c', there', name⟩ := cache_run Table.fair_answers (.call i .commit :: later) coherent there
  obtain ⟨o', sound'⟩ := coherent'.sessions z member
  have reads := coherent'.readsAs sound' there' q
  rw [sound'.apply_sees coherent'.storage.sound (List.mem_of_getElem? there'), name, row] at reads
  exact reads

/-- A session is answered the row that it sees, and all sessions are after its commit, with
what they hold back themselves. -/
theorem System.reads_seen {y : System} (coherent : y.Coherent Table.Answers) {i cache : Nat}
    {x : Session} (session : y.sessions[i]? = some x) {c : StoreCache}
    (there : y.storage.caches[cache]? = some c) {q : KeySlice}
    (whole : q.slice.unlimited = q.slice) {row : List Entry}
    (seen : q.slice.apply (x.sees y.storage c.name q.key) = row) :
    y.storage.ReadsAs cache x.transaction q row ∧
      ((x.transaction.commit y.storage).1 = .ok () → ∀ later,
        let committed := y.step (.call i .commit)
        committed.Untouched c.name q.key later → ∀ z ∈ (committed.run later).sessions,
          (committed.run later).storage.ReadsAs cache z.transaction q
            (match z.transaction.pending c.name q.key with
              | none => row
              | some m => m.overlay row q.slice)) := by
  obtain ⟨o, sound⟩ := coherent.sessions x (List.mem_of_getElem? session)
  constructor
  · rw [← seen]
    exact coherent.readsAs sound there q
  · intro ok later committed untouched
    have reads := reads_committed coherent session there ok untouched
    rw [whole, seen] at reads
    exact reads

/-! ## Writing a vertex -/

namespace StoredSchema

/-- The slice of the row of a vertex. -/
abbrev rowSlice (v : SchemaVertex) : KeySlice := ⟨SchemaRow.key v.id, SchemaRow.slice⟩

section Writing

variable [RowCodec]

/-- What writing a vertex consists of, once its row was read. -/
def writing (i cache : Nat) (existing : List Entry) (v : SchemaVertex) : List Action :=
  [.read i cache (rowSlice v),
    .call i (.mutate cache (SchemaRow.key v.id) (SchemaRow.rewrite existing v))]

variable {y : System} {i cache : Nat} {x : Session}

theorem write_eq_run (session : y.sessions[i]? = some x) {v : SchemaVertex} {existing : List Entry}
    (read : (y.storage.getSlice cache x.transaction (rowSlice v)).1 = .ok existing)
    (encoded : SchemaRow.encode v = .ok (SchemaRow.entriesOf v)) :
    let written := write y.storage cache x.transaction v
    let after := y.run (writing i cache existing v)
    after.storage = written.2.2 ∧
      ∃ x', after.sessions[i]? = some x' ∧ x'.transaction = written.2.1 := by
  intro written after
  have bound : i < y.sessions.length := (List.getElem?_eq_some_iff.1 session).1
  have same : y.sessions.set i x = y.sessions := by
    obtain ⟨_, rfl⟩ := List.getElem?_eq_some_iff.1 session
    exact List.set_getElem_self _
  rcases answered : y.storage.getSlice cache x.transaction (rowSlice v) with ⟨outcome, s₁⟩
  obtain rfl : outcome = .ok existing := by rw [← read, answered]
  let call : Call := .mutate cache (SchemaRow.key v.id) (SchemaRow.rewrite existing v)
  have result : written = ((x.perform s₁ call).1, (x.perform s₁ call).2.1.transaction,
      (x.perform s₁ call).2.2) := write_eq_perform answered encoded
  have ran : after = ⟨(x.perform s₁ call).2.2, y.sessions.set i (x.perform s₁ call).2.1⟩ := by
    simp only [after, writing, System.run, List.foldl_cons, List.foldl_nil, System.step,
      System.withSession, session, answered, same, call]
  rw [ran, result]
  exact ⟨rfl, _, List.getElem?_set_self bound, rfl⟩

/-- A write that succeeds has read its row and encoded its vertex. -/
theorem reads_and_encodes_of_write {s : Storage} {t : Transaction} {v : SchemaVertex}
    (ok : (write s cache t v).1 = .ok ()) :
    ∃ existing additions, (s.getSlice cache t (rowSlice v)).1 = .ok existing ∧
      SchemaRow.encode v = .ok additions := by
  rcases read : s.getSlice cache t (rowSlice v) with ⟨f | existing, s₁⟩
  · rw [write, read] at ok
    cases ok
  · rcases encoded : SchemaRow.encode v with f | additions
    · rw [write, read, encoded] at ok
      cases ok
    · exact ⟨existing, additions, rfl, rfl⟩

/-- A write whose row is not read or whose vertex is not encoded leaves the transaction alone. -/
theorem write_of_error {s : Storage} {t : Transaction} {v : SchemaVertex} {f : Fault}
    (failed : (s.getSlice cache t (rowSlice v)).1 = .error f ∨
      (∃ existing, (s.getSlice cache t (rowSlice v)).1 = .ok existing) ∧
        SchemaRow.encode v = .error f) :
    write s cache t v = (.error f, t, (s.getSlice cache t (rowSlice v)).2) := by
  rcases read : s.getSlice cache t (rowSlice v) with ⟨f' | existing, s₁⟩
  · rw [read] at failed
    obtain same | ⟨⟨_, never⟩, -⟩ := failed
    · rw [write, read, ← Except.error.inj same]
    · cases never
  · rw [read] at failed
    obtain never | ⟨-, refused⟩ := failed
    · cases never
    · rw [write, read, refused]

/-- After a write the session sees the row of the vertex until it changes it again, if no other
session tries to write the row. -/
theorem sees_rewritten {right : Standard} (fair : right.Fair) (coherent : y.Coherent right)
    (session : y.sessions[i]? = some x) {c : StoreCache}
    (there : y.storage.caches[cache]? = some c) (v : SchemaVertex) {existing : List Entry}
    (shown : existing =
      SchemaRow.slice.apply (x.sees y.storage c.name (SchemaRow.key v.id))) {more : List Action}
    (undisturbed : System.Undisturbed i c.name (SchemaRow.key v.id) more
      (y.run (writing i cache existing v)))
    (abstains : ∀ call ∈ more.filterMap (Action.callOf i), ∀ w, call.write? y.storage = some w →
      w.reaches c.name (SchemaRow.key v.id) = false) :
    let z := (y.run (writing i cache existing v)).run more
    ∃ x', z.sessions[i]? = some x' ∧
      SchemaRow.slice.apply (x'.sees z.storage c.name (SchemaRow.key v.id)) =
        SchemaRow.rowOf v := by
  intro z
  let key := SchemaRow.key v.id
  let m := SchemaRow.rewrite existing v
  have whole : System.Undisturbed i c.name key (writing i cache existing v ++ more) y := by
    refine ⟨trivial, ?_, undisturbed⟩
    simp only [System.Spares, if_true]
    exact Call.noConfusion
  obtain ⟨x', session', seen⟩ := System.sees_run fair _ coherent session whole
  have run : y.run (writing i cache existing v ++ more) = z := List.foldl_append ..
  have own : (Call.mutate cache key m).write? y.storage = some ⟨cache, c.name, key, m⟩ := by
    rw [Call.write?, there, Option.map_some]
  have issued : ((writing i cache existing v ++ more).filterMap (Action.callOf i)).filterMap
      (Call.write? y.storage) =
        ⟨cache, c.name, key, m⟩ :: (more.filterMap (Action.callOf i)).filterMap
          (Call.write? y.storage) := by
    simp only [writing, List.cons_append, List.nil_append, List.filterMap_cons, Action.callOf,
      if_true]
    rw [own]
  have reaches : Write.reaches ⟨cache, c.name, key, m⟩ c.name key = true := by
    simp [Write.reaches]
  have misses : ∀ w ∈ (more.filterMap (Action.callOf i)).filterMap (Call.write? y.storage),
      w.reaches c.name key = false := by
    intro w member
    obtain ⟨call, inMore, issues⟩ := List.mem_filterMap.1 member
    exact abstains call inMore w issues
  have ascending := Session.ascending_sees coherent.storage.sound x c.name key
  refine ⟨x', run ▸ session', ?_⟩
  rw [run, issued] at seen
  have last : x'.sees z.storage c.name key = m.applyTo (x.sees y.storage c.name key) := by
    rw [seen, Write.replay, List.foldl_cons, reaches]
    exact Write.replay_of_misses misses _
  rw [last]
  subst shown
  exact SchemaRow.apply_applyTo_rewrite ascending v

end Writing

/-- Whatever was done before and whatever the row held: once a vertex was written its session
is answered exactly the row that the vertex is encoded as, until it changes the row again; and
after a commit every session is, up to what it holds back of the row itself.  Other sessions
are not to write the row meanwhile.  If the row is not read or the vertex not encoded,
nothing is held back or written. -/
theorem rewritten_row_is_exact [RowCodec] (rows : List Cell) {openings : List Opening}
    (oneEach : (openings.map Opening.name).Nodup) (actions : List Action) {i cache : Nat}
    {x : Session} {c : StoreCache}
    (session : ((System.begin (.prepared rows openings)).run actions).sessions[i]? = some x)
    (there : ((System.begin (.prepared rows openings)).run actions).storage.caches[cache]? = some c)
    (v : SchemaVertex) :
    let y := (System.begin (.prepared rows openings)).run actions
    let q := rowSlice v
    let read := y.storage.getSlice cache x.transaction q
    let written := write y.storage cache x.transaction v
    (written.1 = .ok () → ∃ existing additions, read.1 = .ok existing ∧
      SchemaRow.encode v = .ok additions ∧
      let after := y.run (writing i cache existing v)
      after.storage = written.2.2 ∧
      (∃ x', after.sessions[i]? = some x' ∧ x'.transaction = written.2.1) ∧
      ∀ more, System.Undisturbed i c.name q.key more after →
        (∀ call ∈ more.filterMap (Action.callOf i), ∀ w, call.write? y.storage = some w →
          w.reaches c.name q.key = false) →
        ∃ x', (after.run more).sessions[i]? = some x' ∧
          (after.run more).storage.ReadsAs cache x'.transaction q (Entry.listOf additions) ∧
          ((x'.transaction.commit (after.run more).storage).1 = .ok () → ∀ later,
            let committed := (after.run more).step (.call i .commit)
            committed.Untouched c.name q.key later → ∀ z ∈ (committed.run later).sessions,
              (committed.run later).storage.ReadsAs cache z.transaction q
                (match z.transaction.pending c.name q.key with
                  | none => Entry.listOf additions
                  | some m => m.overlay (Entry.listOf additions) q.slice))) ∧
    (∀ f, read.1 = .error f ∨ (∃ existing, read.1 = .ok existing) ∧ SchemaRow.encode v = .error f →
      written.1 = .error f ∧ written.2.1 = x.transaction ∧
        written.2.2.backend = y.storage.backend) := by
  intro y q read written
  have coherent : y.Coherent Table.Answers := System.coherent_run Table.fair_answers actions
    (System.coherent_begin (Storage.coherent_prepared rows oneEach Table.Answers))
  obtain ⟨o, sound⟩ := coherent.sessions x (List.mem_of_getElem? session)
  have backend : read.2.backend = y.storage.backend := y.storage.backend_readThrough ..
  constructor
  · intro ok
    obtain ⟨existing, additions, answered, encoded⟩ := reads_and_encodes_of_write ok
    obtain ⟨-, rfl⟩ := SchemaRow.encode_eq_ok_iff.1 encoded
    have shown := (coherent.getSlice_spec sound there q).1 existing answered
    obtain ⟨storage, transaction⟩ := write_eq_run session answered encoded
    refine ⟨existing, _, answered, encoded, storage, transaction, fun more undisturbed abstains => ?_⟩
    obtain ⟨x', session', seen⟩ := sees_rewritten Table.fair_answers coherent session there v shown
      undisturbed abstains
    let z := (y.run (writing i cache existing v)).run more
    have ran : z = y.run (writing i cache existing v ++ more) := (List.foldl_append ..).symm
    have coherent' : z.Coherent Table.Answers := by
      rw [ran]
      exact System.coherent_run Table.fair_answers _ coherent
    obtain ⟨c', there', name⟩ : ∃ c', z.storage.caches[cache]? = some c' ∧ c'.name = c.name := by
      rw [ran]
      exact System.cache_run Table.fair_answers _ coherent there
    refine ⟨x', session', ?_⟩
    rw [← name] at seen ⊢
    exact System.reads_seen coherent' session' there' rfl
      (seen.trans (SchemaRow.listOf_entriesOf v).symm)
  · intro f failed
    have result : written = (.error f, x.transaction, read.2) := write_of_error failed
    rw [result]
    exact ⟨rfl, rfl, backend⟩

/-- A key that is indexed no longer. -/
def bareKey : SchemaVertex :=
  ⟨1, "name", .propertyKey, ⟨[(.dataType, .dataType .text)]⟩, []⟩

/-- Its former row, with a value and an edge that it does not have any more and with a column
that is none of schema vertices. -/
def staleRow : Cell :=
  ("system_schema", SchemaRow.key 1,
    ⟨⟨[9], [1], none⟩ :: SchemaRow.entriesOf ⟨1, "label", .propertyKey,
        ⟨[(.dataType, .dataType .text), (.status, .status .disabled)]⟩,
        [⟨2, .into, ⟨.indexField, []⟩⟩]⟩, []⟩)

/-- One session has read the former row, so that it is kept, and the other one holds back a
further edge and takes the name away. -/
def staleSystem : System :=
  (System.begin (.prepared [staleRow] [opening])).run
    [.start .default, .start .default, .read 1 0 (rowSlice bareKey), .pass 60,
      .call 0 (.mutate 0 (SchemaRow.key 1)
        ⟨[SchemaEdge.entry ⟨3, .into, ⟨.indexField, []⟩⟩], [[1]]⟩)]

/-- Nothing that was in the row, in the cache or held back stays. -/
theorem stale_columns_are_dropped : ∃ x z,
    staleSystem.sessions[0]? = some x ∧ staleSystem.sessions[1]? = some z ∧
    let written := write staleSystem.storage 0 x.transaction bareKey
    let committed := written.2.1.commit written.2.2
    written.1 = .ok () ∧ committed.1 = .ok () ∧
      (written.2.2.getSlice 0 written.2.1 (rowSlice bareKey)).1 = .ok (SchemaRow.rowOf bareKey) ∧
      (committed.2.2.getSlice 0 z.transaction (rowSlice bareKey)).1 =
        .ok (SchemaRow.rowOf bareKey) := by
  obtain ⟨exact, -⟩ := rewritten_row_is_exact [staleRow] alone_opening _
    (rfl : staleSystem.sessions[0]? = _) (rfl : staleSystem.storage.caches[0]? = _) bareKey
  obtain ⟨existing, additions, answered, encoded, storage, ⟨x', session, transaction⟩, reads⟩ :=
    exact rfl
  obtain rfl := Except.ok.inj answered
  obtain ⟨-, rfl⟩ := SchemaRow.encode_eq_ok_iff.1 encoded
  obtain ⟨x'', session', own, everyone⟩ := reads [] trivial fun _ never => by cases never
  obtain rfl : x' = x'' := Option.some.inj (session.symm.trans session')
  obtain rfl := Option.some.inj session
  have others := everyone rfl [] trivial _ (List.mem_of_getElem? (i := 1) rfl)
  refine ⟨_, _, rfl, rfl, rfl, rfl, ?_, ?_⟩
  · exact own.eq_ok fun c there => by obtain rfl := Option.some.inj there; rfl
  · exact others.eq_ok fun c there => by obtain rfl := Option.some.inj there; rfl

end StoredSchema

end PropertyGraph
