/-
# Proofs.UnflushedSchemas -- schemas that are loaded before they are flushed

A schema is loaded in two steps: the store is scanned for the keys of its rows, and then
these rows are read.  What a transaction holds back shows in the second step only.

* After vertices were written their rows, as the session sees them, have the column of a
  name, and no other row is held back (`Persisted.write`, `Persisted.persist`).
* A load makes a registry of the scanned rows as the session sees them (`load_spec`).  Keys
  that are missing leave their vertices out, and nothing else (`registryOf_more`).
* `load_before_commit`: a load of the same transaction leaves out the vertices whose keys the
  scan does not find yet, and those alone.
-/
import PropertyGraph.Proofs.FailedFlushes
import PropertyGraph.Proofs.StoredSchemas

namespace PropertyGraph

set_option autoImplicit false

/-! ## Rows with a name -/

namespace SchemaRow

/-- The row has the column of the name. -/
def Headed (entries : List Entry) : Prop := ∃ e ∈ entries, e.column = [headerByte]

/-- A column that is added is in the row. -/
theorem headed_applyTo {row : List Entry} (ascending : Sorted.Ascending Entry.column row)
    {m : Mutation} (added : Headed m.additions) : Headed (slice.apply (m.applyTo row)) := by
  obtain ⟨e, member, column⟩ := added
  have adds : (m.last? [headerByte]).isSome = true := by
    rw [Mutation.last?_isSome, Mutation.adds, List.any_eq_true]
    exact ⟨e, member, by simp [column]⟩
  obtain ⟨last, is⟩ := Option.isSome_iff_exists.1 adds
  have found := Mutation.find?_applyTo ascending m [headerByte]
  rw [is, Option.some_or] at found
  obtain ⟨there, same⟩ := Sorted.mem_of_find? found
  have column := Std.LawfulEqOrd.eq_of_compare same
  refine ⟨last, List.mem_filter.2 ⟨there, ?_⟩, column.symm⟩
  rw [← column]
  exact slice_contains (by decide) (by decide) []

variable [RowCodec]

theorem header_mem_encode {v : SchemaVertex} {additions : List Entry}
    (encoded : encode v = .ok additions) : header v ∈ additions := by
  obtain ⟨-, rfl⟩ := encode_eq_ok_iff.1 encoded
  exact List.mem_cons_self

/-- Taking an entry in keeps the name, and the entry of the name brings one. -/
theorem header_readEntry {r r' : Reading} {e : Entry} (done : readEntry r e = .ok r')
    (named : e.column = [headerByte] ∨ r.header.isSome = true) : r'.header.isSome = true := by
  obtain ⟨⟨kind, c⟩, taken, rest⟩ := Outcome.bind_eq_ok_iff.1 done
  dsimp only at rest
  split at rest
  · obtain ⟨header, -, same⟩ := Outcome.bind_eq_ok_iff.1 rest
    obtain rfl := Except.ok.inj same
    rfl
  · rename_i other
    have before : r.header.isSome = true := by
      refine named.resolve_left fun column => ?_
      rw [column, takeByte_start] at taken
      exact other (congrArg Prod.fst (Except.ok.inj taken)).symm
    split at rest
    · simp only [Outcome.bind_eq_ok_iff] at rest
      obtain ⟨category, -, value, -, definition, -, same⟩ := rest
      obtain rfl := Except.ok.inj same
      exact before
    · split at rest
      · simp only [Outcome.bind_eq_ok_iff] at rest
        obtain ⟨byte, -, direction, -, other, -, category, -, modifier, -, description, -, same⟩ :=
          rest
        obtain rfl := Except.ok.inj same
        exact before
      · cases rest

theorem header_readEntries {entries : List Entry} {r r' : Reading}
    (done : entries.foldlM readEntry r = .ok r')
    (named : Headed entries ∨ r.header.isSome = true) : r'.header.isSome = true := by
  induction entries generalizing r with
  | nil =>
      obtain rfl := Except.ok.inj done
      exact named.resolve_left fun ⟨_, never, _⟩ => by cases never
  | cons e rest ih =>
      rw [List.foldlM_cons] at done
      obtain ⟨next, here, later⟩ := Outcome.bind_eq_ok_iff.1 done
      refine ih later ?_
      rcases named with ⟨e', member, column⟩ | before
      · rcases List.mem_cons.1 member with rfl | inRest
        · exact .inr (header_readEntry here (.inl column))
        · exact .inl ⟨e', inRest, column⟩
      · exact .inr (header_readEntry here (.inr before))

/-- A row that is read holds a vertex of its number if it has the column of the name. -/
theorem decode_spec {id : SchemaId} {entries : List Entry} {found : Option SchemaVertex}
    (done : decode id entries = .ok found) :
    (∀ v, found = some v → v.id = id) ∧ (Headed entries → found.isSome = true) := by
  obtain ⟨r, read, same⟩ := Outcome.bind_eq_ok_iff.1 done
  obtain rfl := Except.ok.inj same
  constructor
  · intro v held
    obtain ⟨header, -, rfl⟩ := Option.map_eq_some_iff.1 held
    rfl
  · intro headed
    rw [Option.isSome_map]
    exact header_readEntries read (.inl headed)

end SchemaRow

namespace StoredSchema

/-! ## Rows that were read -/

section Rows

variable [RowCodec]

theorem decodeRows_congr {found found' : List KeyedRow} {keys : List Bytes}
    (same : ∀ key ∈ keys, found.lookup key = found'.lookup key) :
    decodeRows found keys = decodeRows found' keys := by
  induction keys with
  | nil => rfl
  | cons key rest ih =>
      rw [decodeRows, decodeRows, same key List.mem_cons_self,
        ih fun key member => same key (List.mem_cons_of_mem _ member)]

theorem decodeRows_cons_eq_ok_iff {found : List KeyedRow} {id : SchemaId} {keys : List Bytes}
    {vertices : List SchemaVertex} :
    decodeRows found (SchemaRow.key id :: keys) = .ok vertices ↔
      ∃ here later, SchemaRow.decode id ((found.lookup (SchemaRow.key id)).getD []) = .ok here ∧
        decodeRows found keys = .ok later ∧ vertices = here.toList ++ later := by
  obtain ⟨c, word⟩ := takeWord_key id
  rw [decodeRows, word, Outcome.ok_bind]
  simp only [Outcome.bind_eq_ok_iff]
  constructor
  · rintro ⟨here, decoded, later, rest, same⟩
    exact ⟨here, later, decoded, rest, (Except.ok.inj same).symm⟩
  · rintro ⟨here, later, decoded, rest, rfl⟩
    exact ⟨here, decoded, later, rest, rfl⟩

/-- Of rows under numbers the vertices are read in the order of these, one from each row with
a name; and from some of the rows theirs. -/
theorem decodeRows_spec {found : List KeyedRow} {ids : List SchemaId}
    {vertices : List SchemaVertex}
    (done : decodeRows found (ids.map SchemaRow.key) = .ok vertices) :
    (vertices.map SchemaVertex.id).Sublist ids ∧
      (∀ id ∈ ids, SchemaRow.Headed ((found.lookup (SchemaRow.key id)).getD []) →
        ∃ v ∈ vertices, v.id = id) ∧
      ∀ p : SchemaId → Bool, decodeRows found ((ids.filter p).map SchemaRow.key) =
        .ok (vertices.filter fun v => p v.id) := by
  induction ids generalizing vertices with
  | nil =>
      obtain rfl := Except.ok.inj done
      exact ⟨.slnil, fun _ never => (by cases never), fun _ => rfl⟩
  | cons id rest ih =>
      rw [List.map_cons, decodeRows_cons_eq_ok_iff] at done
      obtain ⟨here, later, decoded, done, rfl⟩ := done
      obtain ⟨numbers, headed, some_⟩ := ih done
      obtain ⟨own, named⟩ := SchemaRow.decode_spec decoded
      refine ⟨?_, ?_, fun p => ?_⟩
      · rw [List.map_append]
        cases here with
        | none => exact numbers.cons id
        | some v => exact (own v rfl) ▸ numbers.cons_cons v.id
      · intro id' member row
        rcases List.mem_cons.1 member with rfl | inRest
        · obtain ⟨v, held⟩ := Option.isSome_iff_exists.1 (named row)
          exact ⟨v, List.mem_append_left _ (by simp [held]), own v held⟩
        · obtain ⟨v, inside, number⟩ := headed id' inRest row
          exact ⟨v, List.mem_append_right _ inside, number⟩
      · have first : here.toList.filter (fun v => p v.id) =
            if p id = true then here.toList else [] := by
          cases here with
          | none => simp
          | some v => by_cases picked : p id = true <;> simp [own v rfl, picked]
        rw [List.filter_append, first]
        by_cases picked : p id = true
        · rw [List.filter_cons_of_pos picked, if_pos picked, List.map_cons,
            decodeRows_cons_eq_ok_iff]
          exact ⟨here, _, decoded, some_ p, rfl⟩
        · rw [List.filter_cons_of_neg picked, if_neg picked]
          exact some_ p

end Rows

/-! ## Vertices that were written -/

/-- A session that wrote the rows of some vertices and nothing else, perhaps without a flush. -/
structure Persisted (ids : List SchemaId) (x : Session) (o : TransactionOptions) (s : Storage)
    (cache : Nat) (name : String) : Prop where
  coherent : s.Coherent Table.Answers
  session : x.Sound o s
  fronts : Fronts s cache name
  held : ∀ w ∈ x.ledger.held, ∃ id ∈ ids, w.key = SchemaRow.key id
  headed : ∀ id ∈ ids, SchemaRow.Headed (SchemaRow.slice.apply (x.sees s name (SchemaRow.key id)))

namespace Persisted

variable {ids : List SchemaId} {x : Session} {o : TransactionOptions} {s : Storage} {cache : Nat}
  {name : String}

theorem quietly (persisted : Persisted ids x o s cache name) {s' : Storage}
    (coherent : s'.Coherent Table.Answers) (places : s'.places = s.places)
    (backend : s'.backend = s.backend) : Persisted ids x o s' cache name := by
  refine ⟨coherent, persisted.session.congr places, persisted.fronts.congr places,
    persisted.held, fun id member => ?_⟩
  rw [Session.sees, backend]
  exact persisted.headed id member

/-- Rows that were not written are those of the backend. -/
theorem sees_of_other (persisted : Persisted ids x o s cache name) {key : Bytes}
    (other : ∀ id ∈ ids, key ≠ SchemaRow.key id) :
    x.sees s name key = s.backend.rowOf name key := by
  have misses : ∀ w ∈ x.ledger.held, w.reaches name key = false := by
    intro w member
    obtain ⟨id, inside, same⟩ := persisted.held w member
    rw [Bool.eq_false_iff]
    intro reaches
    simp only [Write.reaches, Bool.and_eq_true, beq_iff_eq] at reaches
    exact other id inside (reaches.2.symm.trans same)
  exact Write.replay_of_misses misses _

/-- One vertex more that is written. -/
theorem write [RowCodec] (persisted : Persisted ids x o s cache name) {v : SchemaVertex}
    (ok : (StoredSchema.write s cache x.transaction v).1 = .ok ()) :
    ∃ x', x'.transaction = (StoredSchema.write s cache x.transaction v).2.1 ∧
      Persisted (v.id :: ids) x' o (StoredSchema.write s cache x.transaction v).2.2 cache name := by
  obtain ⟨coherent, places⟩ := persisted.coherent.getSlice Table.fair_answers cache x.transaction
    ⟨SchemaRow.key v.id, SchemaRow.slice⟩
  have read_ := persisted.quietly coherent places (s.backend_readThrough _ _ _)
  rcases read : s.getSlice cache x.transaction ⟨SchemaRow.key v.id, SchemaRow.slice⟩ with
    ⟨fault | existing, s₁⟩
  · rw [StoredSchema.write, read] at ok
    cases ok
  · rcases encoded : SchemaRow.encode v with fault | additions
    · rw [StoredSchema.write, read, encoded] at ok
      cases ok
    · rw [read] at read_
      let m : Mutation := ⟨additions, (existing.map Entry.column).filter fun c =>
        !additions.any fun e => e.column == c⟩
      let call : Call := .mutate cache (SchemaRow.key v.id) m
      rw [write_eq_perform read encoded]
      have goesOn : call ≠ .rollback := Call.noConfusion
      obtain ⟨-, session, places⟩ :=
        Session.perform_sound read_.coherent.sound read_.session call
      obtain ⟨c, there, named⟩ := read_.fronts
      have issues : call.write? s₁ = some ⟨cache, name, SchemaRow.key v.id, m⟩ := by
        simp only [call, Call.write?, there, Option.map_some, named]
      refine ⟨_, rfl, Session.coherent_perform read_.coherent Table.fair_answers read_.session call,
        session, read_.fronts.congr places, fun w member => ?_, fun id member => ?_⟩
      · rcases Session.mem_of_mem_held_perform goesOn member with old | new
        · obtain ⟨id, inside, same⟩ := read_.held w old
          exact ⟨id, List.mem_cons_of_mem _ inside, same⟩
        · rw [issues] at new
          obtain rfl := Option.some.inj new
          exact ⟨v.id, List.mem_cons_self, rfl⟩
      · rw [Session.sees_perform read_.coherent.sound read_.session goesOn, issues]
        simp only [Option.toList_some, Write.replay, List.foldl_cons, List.foldl_nil, Write.reaches,
          BEq.rfl, Bool.true_and, beq_iff_eq]
        split
        · exact SchemaRow.headed_applyTo
            (Session.ascending_sees read_.coherent.sound x name _)
            ⟨SchemaRow.header v, SchemaRow.header_mem_encode encoded, rfl⟩
        · rename_i apart
          refine read_.headed id ((List.mem_cons.1 member).resolve_left fun same => apart ?_)
          rw [same]

/-- The vertices of a registry that are written, whatever the store held. -/
theorem persist [RowCodec] {r : Registry} (pace : Nat) (more : List SchemaId)
    (persisted : Persisted [] x o s cache name)
    (ok : (StoredSchema.persist r cache pace more x.transaction s).1 = .ok ()) :
    ∃ x' all, x'.transaction = (StoredSchema.persist r cache pace more x.transaction s).2.1 ∧
      Persisted all x' o (StoredSchema.persist r cache pace more x.transaction s).2.2 cache name ∧
      ∀ id, id ∈ all ↔ id ∈ more := by
  have before : Persisted (List.map SchemaVertex.id []) x o s cache name := persisted
  obtain ⟨x', transaction, persisted', known⟩ := persist_induction
    (P := fun vertices x s => Persisted (vertices.map SchemaVertex.id) x o s cache name)
    (fun _ _ _ persisted _ _ ok => persisted.write ok)
    (fun _ _ _ persisted => by
      obtain ⟨later, places⟩ := persisted.coherent.advance pace
      exact persisted.quietly later places rfl)
    more before ok
  refine ⟨x', _, transaction, persisted', fun id => ?_⟩
  have number {id : SchemaId} {v : SchemaVertex} (found : r.vertex? id = some v) : v.id = id :=
    (Std.LawfulEqOrd.eq_of_compare (Sorted.mem_of_find? found).2).symm
  rw [List.append_nil, List.mem_map]
  simp only [List.mem_reverse, List.mem_filterMap]
  constructor
  · rintro ⟨v, ⟨id', there, found⟩, rfl⟩
    rwa [number found]
  · intro there
    obtain ⟨v, found⟩ := Option.isSome_iff_exists.1 (known id there)
    exact ⟨v, ⟨id, there, found⟩, number found⟩

/-- A commit leaves the rows in the store as the session saw them. -/
theorem commit (persisted : Persisted ids x o s cache name)
    (ok : (x.transaction.commit s).1 = .ok ()) :
    (x.transaction.commit s).2.2.Coherent Table.Answers ∧
      (x.transaction.commit s).2.2.places = s.places ∧
      ∀ key, (x.transaction.commit s).2.2.backend.rowOf name key = x.sees s name key := by
  have ordered := persisted.coherent.sound
  have settles : Call.commit.Settles := trivial
  obtain ⟨-, -, places⟩ := Session.perform_sound ordered persisted.session .commit
  exact ⟨Session.coherent_perform persisted.coherent Table.fair_answers persisted.session .commit,
    places, Session.rowOf_of_settled ordered persisted.session settles Call.noConfusion ok name⟩

/-- Where the rows are as the session sees them, a scan finds the keys it found before and
those of the vertices that were written. -/
theorem scanned_shown (persisted : Persisted ids x o s cache name) {s' : Storage}
    (coherent : s'.Coherent Table.Answers) (places : s'.places = s.places)
    (rows : ∀ key, s'.backend.rowOf name key = x.sees s name key) (key : Bytes) :
    key ∈ scanned s' cache ↔ key ∈ scanned s cache ∨ ∃ id ∈ ids, key = SchemaRow.key id := by
  obtain ⟨c, there, rfl⟩ := persisted.fronts
  obtain ⟨c', there', named⟩ := persisted.fronts.congr places
  rw [(scanned_spec coherent there').2, (scanned_spec persisted.coherent there).2, named, rows]
  by_cases written : ∃ id ∈ ids, key = SchemaRow.key id
  · obtain ⟨id, member, rfl⟩ := written
    obtain ⟨e, inside, -⟩ := persisted.headed id member
    exact iff_of_true (List.ne_nil_of_mem inside) (.inr ⟨id, member, rfl⟩)
  · have other := persisted.sees_of_other fun id member same => written ⟨id, member, same⟩
    rw [other, or_iff_left written]

end Persisted

/-! ## Loading before and after a commit -/

/-- Numbers stand in the order of their keys. -/
theorem ascending_of_keys {ids : List SchemaId}
    (ascending : Sorted.Ascending id (ids.map SchemaRow.key)) : Sorted.Ascending id ids := by
  refine (List.pairwise_map.1 ascending).imp
    @fun a b (less : compare (SchemaRow.key a) (SchemaRow.key b) = .lt) => ?_
  show compare a b = .lt
  cases order : compare a b with
  | lt => rfl
  | eq =>
      rw [Std.LawfulEqOrd.eq_of_compare order, Std.ReflOrd.compare_self] at less
      cases less
  | gt =>
      have stands := Ordered.stands_ofWord b a
      rw [Std.OrientedCmp.lt_of_gt order] at stands
      have greater : compare (SchemaRow.key b) (SchemaRow.key a) = .lt := stands.compare_eq_lt
      rw [Std.OrientedCmp.gt_of_lt greater] at less
      cases less

section Loads

variable [RowCodec]

/-- The registry of the rows under some keys. -/
def registryOf (found : List KeyedRow) (keys : List Bytes) : Outcome Registry := do
  (← decodeRows found keys).foldlM Registry.insert .empty

/-- A load makes a registry of the scanned rows as the session sees them, and leaves the
backend alone. -/
theorem load_spec {x : Session} {o : TransactionOptions} {s : Storage} {cache : Nat}
    (coherent : s.Coherent Table.Answers) (session : x.Sound o s) {c : StoreCache}
    (there : s.caches[cache]? = some c) (willing : c.monitor.failing = 0) :
    ∃ found s₁, load s cache x.transaction = (registryOf found (scanned s cache), s₁) ∧
      (∀ key ∈ scanned s cache,
        found.lookup key = some (SchemaRow.slice.apply (x.sees s c.name key))) ∧
      s₁.Coherent Table.Answers ∧ s₁.places = s.places ∧ s₁.backend = s.backend := by
  obtain ⟨found, s₁, read, rest⟩ := readAll_spec coherent session there willing
  refine ⟨found, s₁, ?_, rest⟩
  rw [load, read, registryOf]
  cases decodeRows found (scanned s cache) <;> rfl

/-- A registry of rows under numbers has a vertex of each row with a name, and from some of
the rows it has the vertices of these. -/
theorem registryOf_spec {found : List KeyedRow} {ids : List SchemaId}
    (ascending : Sorted.Ascending id (ids.map SchemaRow.key)) {loaded : Registry}
    (done : registryOf found (ids.map SchemaRow.key) = .ok loaded) :
    (∀ id ∈ ids, SchemaRow.Headed ((found.lookup (SchemaRow.key id)).getD []) →
      ∃ v ∈ loaded.vertices, v.id = id) ∧
    ∀ p : SchemaId → Bool, registryOf found ((ids.filter p).map SchemaRow.key) =
      .ok { loaded with vertices := loaded.vertices.filter fun v => p v.id } := by
  obtain ⟨vertices, decoded, inserted⟩ := Outcome.bind_eq_ok_iff.1 done
  obtain ⟨numbers, headed, part⟩ := decodeRows_spec decoded
  have inOrder : Sorted.Ascending SchemaVertex.id vertices :=
    List.pairwise_map.1 ((ascending_of_keys ascending).sublist numbers)
  obtain ⟨distinct, rfl⟩ := (Registry.foldlM_insert_eq_ok_iff inOrder).1 inserted
  refine ⟨headed, fun p => ?_⟩
  rw [registryOf, part p, Outcome.ok_bind]
  exact (Registry.foldlM_insert_eq_ok_iff (inOrder.filter _)).2
    ⟨distinct.sublist (List.filter_sublist.map _), rfl⟩

/-- The registry of some keys, and that of these and the keys of further rows with a name. -/
theorem registryOf_more {found : List KeyedRow} {keys more : List Bytes} {ids : List SchemaId}
    (ascending : Sorted.Ascending id keys) (ascending' : Sorted.Ascending id more)
    (members : ∀ key, key ∈ more ↔ key ∈ keys ∨ ∃ id ∈ ids, key = SchemaRow.key id)
    (headed : ∀ id ∈ ids, SchemaRow.Headed ((found.lookup (SchemaRow.key id)).getD [])) :
    ((∀ id ∈ ids, SchemaRow.key id ∈ keys) → registryOf found keys = registryOf found more) ∧
    ((∀ key ∈ keys, ∃ id, key = SchemaRow.key id) →
      ∀ loaded, registryOf found more = .ok loaded →
        registryOf found keys = .ok { loaded with
          vertices := loaded.vertices.filter fun v => keys.contains (SchemaRow.key v.id) } ∧
        (registryOf found keys = registryOf found more ↔
          ∀ id ∈ ids, SchemaRow.key id ∈ keys)) := by
  have agree : (∀ id ∈ ids, SchemaRow.key id ∈ keys) →
      registryOf found keys = registryOf found more := by
    intro known
    have same : keys = more := by
      refine ascending.eq_of_mem_iff ascending' fun key => ?_
      rw [members]
      exact ⟨.inl, fun either => either.elim id fun ⟨n, member, here⟩ => here ▸ known n member⟩
    rw [same]
  refine ⟨agree, fun numbers loaded done => ?_⟩
  obtain ⟨all, rfl⟩ : ∃ all : List SchemaId, all.map SchemaRow.key = more := by
    have numbered : ∀ key ∈ more, ∃ id, SchemaRow.key id = key := by
      intro key member
      rcases (members key).1 member with old | ⟨id, -, here⟩
      · obtain ⟨id, here⟩ := numbers key old
        exact ⟨id, here.symm⟩
      · exact ⟨id, here.symm⟩
    choose number same using numbered
    refine ⟨more.attach.map fun key => number key.1 key.2, ?_⟩
    rw [List.map_map]
    exact (List.map_congr_left fun key _ => same key.1 key.2).trans more.attach_map_subtype_val
  have part : keys = (all.filter fun id => keys.contains (SchemaRow.key id)).map SchemaRow.key := by
    refine Eq.trans ?_ (List.filter_map (f := SchemaRow.key) (p := keys.contains) (l := all))
    refine ascending.eq_of_mem_iff (ascending'.filter _) fun key => ?_
    rw [List.mem_filter, List.contains_iff_mem]
    exact ⟨fun old => ⟨(members key).2 (.inl old), old⟩, And.right⟩
  obtain ⟨vertex, filtered⟩ := registryOf_spec ascending' done
  have own := filtered fun id => keys.contains (SchemaRow.key id)
  rw [← part] at own
  refine ⟨own, ⟨fun same id member => ?_, agree⟩⟩
  -- The vertex of the number is in the larger registry, so the filter must have left it there.
  have listed : id ∈ all := by
    obtain ⟨id', there, here⟩ := List.mem_map.1 ((members _).2 (.inr ⟨id, member, rfl⟩))
    exact SchemaRow.key_inj here ▸ there
  obtain ⟨v, there, rfl⟩ := vertex id listed (headed id member)
  rw [own, done] at same
  have whole : (loaded.vertices.filter fun v => keys.contains (SchemaRow.key v.id)) =
      loaded.vertices := congrArg Registry.vertices (Except.ok.inj same)
  exact List.contains_iff_mem.1 (List.filter_eq_self.1 whole v there)

/-- Loads of a session that wrote the rows of some vertices, and of another one after its
commit. -/
theorem Persisted.loads {ids : List SchemaId} {x : Session} {o : TransactionOptions} {s : Storage}
    {cache : Nat} {name : String} (persisted : Persisted ids x o s cache name)
    (o' : TransactionOptions)
    (willing : ∀ c, s.caches[cache]? = some c → c.monitor.failing = 0) :
    let own := load s cache x.transaction
    let committed := x.transaction.commit own.2
    let fresh := load committed.2.2 cache (.start o')
    let keys := scanned s cache
    committed.1 = .ok () →
    (∀ c, committed.2.2.caches[cache]? = some c → c.monitor.failing = 0) →
    ((∀ id ∈ ids, SchemaRow.key id ∈ keys) → own.1 = fresh.1) ∧
    ((∀ key ∈ keys, ∃ id, key = SchemaRow.key id) → ∀ loaded, fresh.1 = .ok loaded →
      own.1 = .ok { loaded with
        vertices := loaded.vertices.filter fun v => keys.contains (SchemaRow.key v.id) } ∧
      (own.1 = fresh.1 ↔ ∀ id ∈ ids, SchemaRow.key id ∈ keys)) := by
  intro own committed fresh keys ok willing'
  obtain ⟨c, there, rfl⟩ := persisted.fronts
  obtain ⟨found, s₁, loads, rows, coherent₁, places₁, backend₁⟩ :=
    load_spec persisted.coherent persisted.session there (willing c there)
  have read : own.2 = s₁ := congrArg Prod.snd loads
  -- The first load leaves the rows as they were, so the commit is one right after the writes.
  have later : Persisted ids x o own.2 cache c.name := by
    rw [read]
    exact persisted.quietly coherent₁ places₁ backend₁
  obtain ⟨coherent₂, places₂, rows₂⟩ := later.commit ok
  have shown : ∀ key, committed.2.2.backend.rowOf c.name key = x.sees s c.name key := by
    intro key
    rw [rows₂, Session.sees, Session.sees, read, backend₁]
  have places : committed.2.2.places = s.places := places₂.trans (read ▸ places₁)
  have members := persisted.scanned_shown coherent₂ places shown
  obtain ⟨c₂, there₂, named⟩ := persisted.fronts.congr places
  obtain ⟨found₂, s₂, loads₂, lookups, -⟩ :=
    load_spec coherent₂ (Session.sound_start o' _) there₂ (willing' c₂ there₂)
  have lookups₂ : ∀ key ∈ scanned committed.2.2 cache,
      found₂.lookup key = some (SchemaRow.slice.apply (x.sees s c.name key)) := by
    intro key listed
    rw [lookups key listed, named]
    exact congrArg (fun row => some (SchemaRow.slice.apply row)) (shown key)
  have ownRows : own.1 = registryOf found₂ keys := by
    refine (congrArg Prod.fst loads).trans ?_
    rw [registryOf, registryOf, decodeRows_congr fun key listed =>
      (rows key listed).trans (lookups₂ key ((members key).2 (.inl listed))).symm]
  have freshRows : fresh.1 = registryOf found₂ (scanned committed.2.2 cache) :=
    congrArg Prod.fst loads₂
  rw [ownRows, freshRows]
  refine registryOf_more (scanned_spec persisted.coherent there).1
    (scanned_spec coherent₂ there₂).1 members fun id member => ?_
  rw [lookups₂ _ ((members _).2 (.inr ⟨id, member, rfl⟩))]
  exact persisted.headed id member

end Loads

/-- Whatever was done before, a load of a transaction that has written the rows of some
vertices, and another one after its commit: they agree if each of these rows had a column of a
schema vertex in the store already.  The first leaves out exactly the vertices whose keys the
scan does not find, so that it agrees with a later load that succeeds if and only if all
keys are found. -/
theorem load_before_commit [RowCodec] (rows : List Cell) {openings : List Opening}
    (oneEach : (openings.map Opening.name).Nodup) (actions : List Action) {cache : Nat}
    {c : StoreCache}
    (there : ((System.begin (.prepared rows openings)).run actions).storage.caches[cache]? = some c)
    (r : Registry) (ids : List SchemaId) (pace : Nat) (o o' : TransactionOptions) :
    let written := persist r cache pace ids (.start o)
      ((System.begin (.prepared rows openings)).run actions).storage
    let own := load written.2.2 cache written.2.1
    let committed := written.2.1.commit own.2
    let fresh := load committed.2.2 cache (.start o')
    let keys := scanned written.2.2 cache
    written.1 = .ok () →
    (∀ c', written.2.2.caches[cache]? = some c' → c'.monitor.failing = 0) →
    committed.1 = .ok () →
    (∀ c', committed.2.2.caches[cache]? = some c' → c'.monitor.failing = 0) →
    ((∀ id ∈ ids, SchemaRow.key id ∈ keys) → own.1 = fresh.1) ∧
    ((∀ key ∈ keys, ∃ id, key = SchemaRow.key id) → ∀ loaded, fresh.1 = .ok loaded →
      own.1 = .ok { loaded with
        vertices := loaded.vertices.filter fun v => keys.contains (SchemaRow.key v.id) } ∧
      (own.1 = fresh.1 ↔ ∀ id ∈ ids, SchemaRow.key id ∈ keys)) := by
  intro written own committed fresh keys done willing saved willing'
  have coherent := (System.coherent_run Table.fair_answers actions
    (System.coherent_begin (Storage.coherent_prepared rows oneEach Table.Answers))).storage
  have start : Persisted [] (.start o) o
      ((System.begin (.prepared rows openings)).run actions).storage cache c.name :=
    ⟨coherent, Session.sound_start o _, ⟨c, there, rfl⟩, fun _ never => (by cases never),
      fun _ never => (by cases never)⟩
  obtain ⟨x, all, same, persisted, members⟩ := start.persist pace ids done
  have loads := persisted.loads o' willing
  rw [same] at loads
  have each : (∀ id ∈ all, SchemaRow.key id ∈ keys) ↔ ∀ id ∈ ids, SchemaRow.key id ∈ keys := by
    simp only [members]
  rw [← each]
  exact loads saved willing'

/-- The row of a key under a name it had before. -/
def formerly : Cell :=
  ("system_schema", SchemaRow.key 1,
    ⟨[SchemaRow.header ⟨1, "label", .propertyKey, ⟨[]⟩, []⟩], []⟩)

/-- The row is written anew and that of an index is added, and nothing fails. -/
theorem rewritten_formerly :
    let written := persist (.indexed []) 0 60 [1, 2] (.start .default)
      (.prepared [formerly] [opening])
    let own := load written.2.2 0 written.2.1
    let committed := written.2.1.commit own.2
    let fresh := load committed.2.2 0 (.start .default)
    written.1 = .ok () ∧ (∀ c ∈ written.2.2.caches[0]?, c.monitor.failing = 0) ∧
      committed.1 = .ok () ∧ (∀ c ∈ committed.2.2.caches[0]?, c.monitor.failing = 0) ∧
      scanned written.2.2 0 = [SchemaRow.key 1] ∧
      fresh.1 = .ok { Registry.empty with vertices := (Registry.indexed []).vertices } := by
  decide +kernel

/-- The key is loaded under its new name, and the index, whose row is held back whole, is not
loaded before the commit. -/
theorem renamed_key_is_loaded :
    let written := persist (.indexed []) 0 60 [1, 2] (.start .default)
      (.prepared [formerly] [opening])
    let own := load written.2.2 0 written.2.1
    let fresh := load (written.2.1.commit own.2).2.2 0 (.start .default)
    fresh.1 = .ok { Registry.empty with vertices := (Registry.indexed []).vertices } ∧
      own.1 = .ok { Registry.empty with vertices := (Registry.indexed []).vertices.take 1 } ∧
      own.1 ≠ fresh.1 := by
  have run := rewritten_formerly
  have unchanged : ((System.begin (.prepared [formerly] [opening])).run []).storage =
    .prepared [formerly] [opening] := rfl
  have loads := load_before_commit [formerly] alone_opening []
    (rfl : ((System.begin _).run []).storage.caches[0]? = _) (.indexed []) [1, 2] 60
    .default .default
  rw [unchanged] at loads
  dsimp only at run loads ⊢
  -- From here on the run is known by these facts only; nothing evaluates it again.
  generalize persist (.indexed []) 0 60 [1, 2] (.start .default) (.prepared [formerly] [opening]) =
    written at run loads ⊢
  obtain ⟨done, willing, saved, willing', scan, loaded⟩ := run
  have numbers : ∀ key ∈ scanned written.2.2 0, ∃ id, key = SchemaRow.key id := by
    rw [scan]
    exact fun key member => ⟨1, List.mem_singleton.1 member⟩
  obtain ⟨part, agree⟩ := (loads done willing saved willing').2 numbers _ loaded
  rw [scan] at part agree
  refine ⟨loaded, part, fun same => ?_⟩
  exact absurd (agree.1 same 2 (by decide)) (by decide)

/-- What a transaction has written is not loaded by it, though its commit succeeds and the
next transaction loads all of it. -/
theorem unflushed_schema_is_missed :
    let written := persist (.indexed []) 0 60 [1, 2] (.start .default) vacant
    let own := load written.2.2 0 written.2.1
    let committed := written.2.1.commit own.2
    let fresh := load committed.2.2 0 (.start .default)
    written.1 = .ok () ∧ committed.1 = .ok () ∧
      ∃ loaded loaded', own.1 = .ok loaded ∧ fresh.1 = .ok loaded' ∧
        loaded.vertices = [] ∧ loaded'.vertices = (Registry.indexed []).vertices :=
  ⟨rfl, rfl, _, _, rfl, rfl, rfl, rfl⟩

end StoredSchema

end PropertyGraph
