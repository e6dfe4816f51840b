/-
# Proofs.StoredSchemas -- schemas that are saved and loaded again

Vertices of a schema are written one by one, each over what its row held, in a
transaction that buffers them, and read from a scan of the store later.

* What is written shows to its session as the rows of the vertices (`Wrote.write`,
  `Wrote.persist`), and is in the store after a commit (`Wrote.commit`).
* From a store that holds the rows of some vertices, and no others, what the rows hold is
  loaded, in the order of the numbers (`Holds.load`), unless an edge is of a category that
  is none of edges (`Holds.refused`).
* `loads_back_iff` puts the two together: all of a schema is loaded again but the edges
  that share their place with a later one of their vertex.  The parameters of an edge are
  no part of its column, and `first_field_is_lost` loses an edge by that.
-/
import PropertyGraph.Proofs.OrderedForms
import PropertyGraph.Proofs.SchemaTables
import PropertyGraph.Proofs.SteadySessions
import PropertyGraph.Schema.Stored

namespace PropertyGraph

set_option autoImplicit false

/-! ## Rows of schema vertices -/

namespace SchemaRow

variable [RowCodec]

/-- The rows of some vertices. -/
def rowsOf (vertices : List SchemaVertex) (key : Bytes) : List Entry :=
  match vertices.find? fun v => SchemaRow.key v.id == key with
  | some v => rowOf v
  | none => []

theorem rowOf_ne_nil (v : SchemaVertex) : rowOf v ≠ [] := List.cons_ne_nil _ _

theorem rowsOf_cases (vertices : List SchemaVertex) (k : Bytes) :
    rowsOf vertices k = [] ∧ (∀ v ∈ vertices, key v.id ≠ k) ∨
      ∃ v ∈ vertices, key v.id = k ∧ rowsOf vertices k = rowOf v := by
  unfold rowsOf
  cases found : vertices.find? fun v => key v.id == k with
  | none =>
      refine .inl ⟨rfl, fun v member => ?_⟩
      simpa using List.find?_eq_none.1 found v member
  | some v =>
      refine .inr ⟨v, List.mem_of_find?_eq_some found, ?_, rfl⟩
      simpa using List.find?_some found

theorem rowsOf_cons (v : SchemaVertex) (vertices : List SchemaVertex) (k : Bytes) :
    rowsOf (v :: vertices) k = if key v.id = k then rowOf v else rowsOf vertices k := by
  unfold rowsOf
  by_cases here : key v.id = k <;> simp [here]

/-- A schema row is in order, and nothing in it is outside the columns of schema vertices. -/
theorem rowsOf_spec (vertices : List SchemaVertex) (k : Bytes) :
    Sorted.Ascending Entry.column (rowsOf vertices k) ∧
      slice.apply (rowsOf vertices k) = rowsOf vertices k := by
  rcases rowsOf_cases vertices k with ⟨nothing, -⟩ | ⟨v, -, -, row⟩
  · rw [nothing]
    exact ⟨.nil, rfl⟩
  · rw [row]
    refine ⟨?_, apply_rowOf v⟩
    rw [← listOf_entriesOf]
    exact Entry.ascending_listOf _

/-- The mutation that makes the row of a vertex of another row. -/
def rewrite (existing : List Entry) (v : SchemaVertex) : Mutation where
  additions := entriesOf v
  deletions := (existing.map Entry.column).filter fun c =>
    !(entriesOf v).any fun e => e.column == c

theorem applyTo_rewrite {row : List Entry} (ascending : Sorted.Ascending Entry.column row)
    (v : SchemaVertex) : (rewrite row v).applyTo row = rowOf v := by
  rw [← listOf_entriesOf]
  refine Mutation.applyTo_of_covers ascending fun e member => ?_
  by_cases added : ((entriesOf v).any fun a => a.column == e.column) = true
  · exact .inr added
  · exact .inl (List.mem_filter.2 ⟨List.mem_map_of_mem member, by simpa using added⟩)

end SchemaRow

/-! ## Writing -/

namespace StoredSchema

open Session (Steady)

variable {base : Backend} {x : Session} {o : TransactionOptions} {s : Storage} {cache : Nat}
  {name : String}

/-- The cache stands in front of the store. -/
def Fronts (s : Storage) (cache : Nat) (name : String) : Prop :=
  ∃ c, s.caches[cache]? = some c ∧ c.name = name

theorem Fronts.congr (fronts : Fronts s cache name) {s' : Storage} (places : s'.places = s.places) :
    Fronts s' cache name := by
  obtain ⟨c, there, named⟩ := fronts
  obtain ⟨c', there', place⟩ := Storage.cache_of_places places.symm there
  exact ⟨c', there', by rw [← named, ← (Prod.mk.inj place).2]⟩

variable [RowCodec]

/-- A session that sees the rows of some vertices in a store, and nothing else there. -/
structure Wrote (vertices : List SchemaVertex) (base : Backend) (x : Session)
    (o : TransactionOptions) (s : Storage) (cache : Nat) (name : String) : Prop where
  steady : Steady base x o s
  fronts : Fronts s cache name
  rows : ∀ key, x.sees s name key = SchemaRow.rowsOf vertices key

variable {vertices : List SchemaVertex}

/-- What is in the storage besides the backend does not show. -/
theorem Wrote.quietly (wrote : Wrote vertices base x o s cache name) {s' : Storage}
    (coherent : s'.Coherent Table.Answers) (places : s'.places = s.places)
    (backend : s'.backend = s.backend) : Wrote vertices base x o s' cache name := by
  refine ⟨wrote.steady.quietly coherent places backend, wrote.fronts.congr places, fun key => ?_⟩
  rw [← wrote.rows, Session.sees, Session.sees, backend]

/-- A row that is read before it is written is the row of its vertex. -/
theorem Wrote.getSlice (wrote : Wrote vertices base x o s cache name) (key : Bytes) :
    Wrote vertices base x o (s.getSlice cache x.transaction ⟨key, SchemaRow.slice⟩).2 cache name ∧
      ∀ row, (s.getSlice cache x.transaction ⟨key, SchemaRow.slice⟩).1 = .ok row →
        row = SchemaRow.rowsOf vertices key := by
  have coherent := wrote.steady.coherent
  obtain ⟨coherent', places⟩ :=
    coherent.getSlice Table.fair_answers cache x.transaction ⟨key, SchemaRow.slice⟩
  refine ⟨wrote.quietly coherent' places (s.backend_readThrough _ _ _), fun row read => ?_⟩
  obtain ⟨c, there, named⟩ := wrote.fronts
  have system : (System.begin s).Coherent Table.Answers := System.coherent_begin coherent
  have shown : row = SchemaRow.slice.apply (x.sees s c.name key) :=
    (system.getSlice_spec wrote.steady.writes.session there _).1 row read
  rw [shown, named, wrote.rows]
  exact (SchemaRow.rowsOf_spec vertices key).2

/-- Writing a vertex is a call of the session, after its row was read. -/
theorem write_eq_perform {v : SchemaVertex} {existing additions : List Entry} {s₁ : Storage}
    (read : s.getSlice cache x.transaction ⟨SchemaRow.key v.id, SchemaRow.slice⟩ =
      (.ok existing, s₁)) (encoded : SchemaRow.encode v = .ok additions) :
    let gone := (existing.map Entry.column).filter fun c =>
      !additions.any fun e => e.column == c
    let result := x.perform s₁ (.mutate cache (SchemaRow.key v.id) ⟨additions, gone⟩)
    write s cache x.transaction v = (result.1, result.2.1.transaction, result.2.2) := by
  simp only [write, read, encoded]
  rfl

/-- One vertex that is written shows from then on. -/
theorem Wrote.write (wrote : Wrote vertices base x o s cache name) {v : SchemaVertex}
    (sound : v.Sound) (ok : (write s cache x.transaction v).1 = .ok ()) :
    ∃ x', x'.transaction = (write s cache x.transaction v).2.1 ∧
      Wrote (v :: vertices) base x' o (write s cache x.transaction v).2.2 cache name := by
  obtain ⟨wrote₁, reading⟩ := wrote.getSlice (SchemaRow.key v.id)
  rcases read : s.getSlice cache x.transaction ⟨SchemaRow.key v.id, SchemaRow.slice⟩ with
    ⟨fault | existing, s₁⟩
  · rw [StoredSchema.write, read] at ok
    cases ok
  · rw [read] at wrote₁ reading
    obtain rfl := reading existing rfl
    rw [write_eq_perform read (SchemaRow.encode_of_sound sound)] at ok ⊢
    have goesOn : Call.mutate cache (SchemaRow.key v.id)
        (SchemaRow.rewrite (SchemaRow.rowsOf vertices (SchemaRow.key v.id)) v) ≠ .rollback := nofun
    obtain ⟨steady, places, shown⟩ := wrote₁.steady.perform goesOn ok
    refine ⟨_, rfl, steady, wrote₁.fronts.congr places, fun key => ?_⟩
    obtain ⟨c, there, named⟩ := wrote₁.fronts
    refine (shown name key).trans ?_
    simp only [Call.write?, there, Option.map_some, Option.toList_some, named, wrote₁.rows,
      SchemaRow.rowsOf_cons, Write.replay, List.foldl_cons, List.foldl_nil, Write.reaches]
    by_cases here : SchemaRow.key v.id = key
    · subst here
      simp only [BEq.rfl, Bool.and_self, if_true]
      exact SchemaRow.applyTo_rewrite (SchemaRow.rowsOf_spec vertices _).1 v
    · simp [here]

/-- What one vertex more keeps that is written, and the time between two, is kept by the
vertices of a registry that are written in turn. -/
theorem persist_induction {P : List SchemaVertex → Session → Storage → Prop} {r : Registry}
    {pace : Nat}
    (one : ∀ vertices x s, P vertices x s → ∀ v ∈ r.vertices,
      (StoredSchema.write s cache x.transaction v).1 = .ok () →
        ∃ x', x'.transaction = (StoredSchema.write s cache x.transaction v).2.1 ∧
          P (v :: vertices) x' (StoredSchema.write s cache x.transaction v).2.2)
    (later : ∀ vertices x s, P vertices x s → P vertices x (s.advance pace)) (ids : List SchemaId)
    (before : P vertices x s) (ok : (persist r cache pace ids x.transaction s).1 = .ok ()) :
    ∃ x', x'.transaction = (persist r cache pace ids x.transaction s).2.1 ∧
      P ((ids.filterMap r.vertex?).reverse ++ vertices) x'
        (persist r cache pace ids x.transaction s).2.2 ∧
      ∀ id ∈ ids, (r.vertex? id).isSome = true := by
  induction ids generalizing x s vertices with
  | nil => exact ⟨x, rfl, before, fun _ never => by cases never⟩
  | cons id rest ih =>
      cases found : r.vertex? id with
      | none =>
          simp only [persist, found] at ok
          cases ok
      | some v =>
          rcases written : StoredSchema.write s cache x.transaction v with ⟨fault | u, t, s₁⟩
          · simp only [persist, found, written] at ok
            cases ok
          · obtain ⟨x₁, same, after⟩ := one vertices x s before v (Sorted.mem_of_find? found).1
              (by rw [written])
            rw [written] at same after
            obtain rfl : x₁.transaction = t := same
            have step : persist r cache pace (id :: rest) x.transaction s =
                persist r cache pace rest x₁.transaction (s₁.advance pace) := by
              simp only [persist, found, written]
            rw [step] at ok ⊢
            obtain ⟨x', transaction, kept, known⟩ := ih (later _ x₁ s₁ after) ok
            refine ⟨x', transaction, ?_, List.forall_mem_cons.2 ⟨by rw [found]; rfl, known⟩⟩
            rw [List.filterMap_cons_some found, List.reverse_cons, List.append_assoc]
            exact kept

/-- The vertices of a registry that are written show from then on, in whatever order and
however often they are. -/
theorem Wrote.persist {r : Registry} (sound : ∀ v ∈ r.vertices, v.Sound) (pace : Nat)
    (ids : List SchemaId) (wrote : Wrote vertices base x o s cache name)
    (ok : (persist r cache pace ids x.transaction s).1 = .ok ()) :
    ∃ x' more, x'.transaction = (persist r cache pace ids x.transaction s).2.1 ∧
      Wrote more base x' o (persist r cache pace ids x.transaction s).2.2 cache name ∧
      ∀ v, v ∈ more ↔ v ∈ vertices ∨ ∃ id ∈ ids, r.vertex? id = some v := by
  obtain ⟨x', transaction, wrote', -⟩ := persist_induction
    (P := fun vertices x s => Wrote vertices base x o s cache name)
    (fun _ _ _ wrote v member ok => wrote.write (sound v member) ok)
    (fun _ _ _ wrote => by
      obtain ⟨later, places⟩ := wrote.steady.coherent.advance pace
      exact wrote.quietly later places rfl)
    ids wrote ok
  refine ⟨x', _, transaction, wrote', fun v => ?_⟩
  rw [List.mem_append, List.mem_reverse, List.mem_filterMap, or_comm]

/-- What was written is in the store after a commit. -/
theorem Wrote.commit (wrote : Wrote vertices base x o s cache name)
    (ok : (x.transaction.commit s).1 = .ok ()) :
    (x.transaction.commit s).2.2.Coherent Table.Answers ∧
      Fronts (x.transaction.commit s).2.2 cache name ∧
      ∀ key, (x.transaction.commit s).2.2.backend.rowOf name key =
        SchemaRow.rowsOf vertices key := by
  have goesOn : Call.commit ≠ .rollback := nofun
  have settles : Call.commit.Settles := trivial
  obtain ⟨steady, places, shown⟩ := wrote.steady.perform goesOn ok
  have held := Session.held_perform settles ok
  refine ⟨steady.coherent, wrote.fronts.congr places, fun key => ?_⟩
  have seen := shown name key
  rw [Session.sees, held, wrote.rows] at seen
  exact seen

end StoredSchema

/-! ## Loading -/

/-- The keys that a scan finds are those of the rows that the slice asks for something of. -/
theorem Table.keys_readKeys {t : Table} (sound : t.Sound) (slice : Slice) :
    Sorted.Ascending id ((t.readKeys slice).map Prod.fst) ∧
      ∀ key, key ∈ (t.readKeys slice).map Prod.fst ↔ slice.apply (t.row key) ≠ [] := by
  refine ⟨List.pairwise_map.2 (sound.ascending_scan slice _), fun key => ?_⟩
  simp only [readKeys, List.mem_map, sound.mem_scan_iff, sound.readSlice_eq]
  constructor
  · rintro ⟨r, ⟨-, same, something⟩, rfl⟩
    exact same ▸ something
  · intro something
    exact ⟨(key, _), ⟨trivial, rfl, something⟩, rfl⟩

namespace StoredSchema

variable {s : Storage} {cache : Nat} {name : String} {vertices : List SchemaVertex}

open SchemaTable (Tidy)

theorem ascending_keys (tidy : Tidy vertices) :
    Sorted.Ascending id (vertices.map fun v => SchemaRow.key v.id) := by
  refine List.pairwise_map.2 (tidy.ascending.imp @fun v w less => ?_)
  have stands := Ordered.stands_ofWord v.id w.id
  rw [less] at stands
  exact stands.compare_eq_lt

/-- The keys that a load goes through. -/
def scanned (s : Storage) (cache : Nat) : List Bytes :=
  (s.readKeys cache SchemaRow.slice).map Prod.fst

/-- They are in order, and those of the rows with a column of a schema vertex. -/
theorem scanned_spec {right : Standard} (coherent : s.Coherent right) {c : StoreCache}
    (there : s.caches[cache]? = some c) :
    Sorted.Ascending id (scanned s cache) ∧ ∀ key, key ∈ scanned s cache ↔
      SchemaRow.slice.apply (s.backend.rowOf c.name key) ≠ [] := by
  have member : c ∈ s.caches := List.mem_of_getElem? there
  obtain ⟨ascending, keys⟩ :=
    Table.keys_readKeys (coherent.sound.backend.table c.table) SchemaRow.slice
  have through : s.readKeys cache SchemaRow.slice =
      (s.backend.table c.table).readKeys SchemaRow.slice := by
    simp only [Storage.readKeys, there]
  rw [scanned, through]
  refine ⟨ascending, fun key => ?_⟩
  rw [keys, Storage.Coherent.row_table coherent.sound member]

theorem takeWord_key (id : SchemaId) :
    ∃ c, (Cursor.start (SchemaRow.key id)).takeWord = .ok (id, c) := by
  have room : 0 + (SchemaRow.key id).length < Cursor.offsetBound := by
    rw [SchemaRow.key, Ordered.ofWord, Ordered.length_digits]
    decide
  have taken : Cursor.takeWord ⟨0, SchemaRow.key id ++ []⟩ = _ := Cursor.takeWord_append room rfl
  rw [List.append_nil] at taken
  exact ⟨_, taken⟩

variable [RowCodec]

/-- A store that holds the rows of some vertices, and no other rows. -/
structure Holds (s : Storage) (cache : Nat) (name : String) (vertices : List SchemaVertex) :
    Prop where
  coherent : s.Coherent Table.Answers
  fronts : Fronts s cache name
  absent : ∀ key, (∀ v ∈ vertices, SchemaRow.key v.id ≠ key) → s.backend.rowOf name key = []
  present : ∀ v ∈ vertices, s.backend.rowOf name (SchemaRow.key v.id) = SchemaRow.rowOf v

/-- A load reads the rows under the scanned keys as the session sees them, unless a read is
bound to fail, and leaves the backend alone. -/
theorem readAll_spec {x : Session} {o : TransactionOptions} (coherent : s.Coherent Table.Answers)
    (session : x.Sound o s) {c : StoreCache} (there : s.caches[cache]? = some c)
    (willing : c.monitor.failing = 0) :
    ∃ found s₁, readAll s cache x.transaction = (decodeRows found (scanned s cache), s₁) ∧
      (∀ key ∈ scanned s cache,
        found.lookup key = some (SchemaRow.slice.apply (x.sees s c.name key))) ∧
      s₁.Coherent Table.Answers ∧ s₁.places = s.places ∧ s₁.backend = s.backend := by
  have system : (System.begin s).Coherent Table.Answers := System.coherent_begin coherent
  obtain ⟨right, succeeds⟩ := system.getSlices_spec session there (scanned s cache) SchemaRow.slice
  obtain ⟨found, read⟩ := succeeds willing
  obtain ⟨coherent', places⟩ := coherent.getSlices Table.fair_answers cache x.transaction
    (scanned s cache) SchemaRow.slice
  have backend : (s.getSlices cache x.transaction (scanned s cache) SchemaRow.slice).2.backend =
      s.backend := s.backend_readThrough _ _ _
  rcases reading : s.getSlices cache x.transaction (scanned s cache) SchemaRow.slice with ⟨_, s₁⟩
  obtain rfl : _ = Except.ok found := (congrArg Prod.fst reading).symm.trans read
  rw [reading] at coherent' places backend
  refine ⟨found, s₁, ?_, fun key listed => ?_, coherent', places, backend⟩
  · rw [scanned] at reading ⊢
    simp only [StoredSchema.readAll, reading]
  · rw [right found read, if_pos listed]
    rfl

/-- The keys that are scanned are those of the vertices. -/
theorem Holds.keys (holds : Holds s cache name vertices) (tidy : Tidy vertices) :
    scanned s cache = vertices.map fun v => SchemaRow.key v.id := by
  obtain ⟨c, there, named⟩ := holds.fronts
  obtain ⟨ascending, keys⟩ := scanned_spec holds.coherent there
  refine ascending.eq_of_mem_iff (ascending_keys tidy) fun key => ?_
  rw [keys, named]
  constructor
  · intro some_
    by_cases known : ∃ v ∈ vertices, SchemaRow.key v.id = key
    · obtain ⟨v, inside, rfl⟩ := known
      exact List.mem_map_of_mem inside
    · rw [holds.absent key fun v inside same => known ⟨v, inside, same⟩] at some_
      exact absurd rfl some_
  · intro listed
    obtain ⟨v, inside, rfl⟩ := List.mem_map.1 listed
    show SchemaRow.slice.apply (s.backend.rowOf name (SchemaRow.key v.id)) ≠ []
    rw [holds.present v inside, SchemaRow.apply_rowOf]
    exact SchemaRow.rowOf_ne_nil v

/-- All rows are read from a store that holds those of some vertices, unless a read is
bound to fail. -/
theorem Holds.readAll (holds : Holds s cache name vertices) (tidy : Tidy vertices)
    (willing : ∀ c, s.caches[cache]? = some c → c.monitor.failing = 0) (o : TransactionOptions) :
    ∃ found, (∀ v ∈ vertices, found.lookup (SchemaRow.key v.id) = some (SchemaRow.rowOf v)) ∧
      (readAll s cache (Transaction.start o)).1 =
        decodeRows found (vertices.map fun v => SchemaRow.key v.id) := by
  obtain ⟨c, there, named⟩ := holds.fronts
  obtain ⟨found, s₁, read, rows, -⟩ := readAll_spec holds.coherent (Session.sound_start o s) there
    (willing c there)
  have keys := holds.keys tidy
  refine ⟨found, fun v inside => ?_, by rw [← keys]; exact congrArg Prod.fst read⟩
  have seen : (Session.start o).sees s c.name (SchemaRow.key v.id) = SchemaRow.rowOf v := by
    rw [named]
    exact holds.present v inside
  rw [rows _ (by rw [keys]; exact List.mem_map_of_mem inside), seen, SchemaRow.apply_rowOf]

theorem tidy_stored (tidy : Tidy vertices) : Tidy (vertices.map SchemaVertex.stored) := by
  refine ⟨List.pairwise_map.2 tidy.ascending, ?_, ?_⟩
  · rintro _ member _ member' same
    obtain ⟨v, there, rfl⟩ := List.mem_map.1 member
    obtain ⟨w, there', rfl⟩ := List.mem_map.1 member'
    rw [tidy.named v there w there' same]
  · rintro _ member
    obtain ⟨v, there, rfl⟩ := List.mem_map.1 member
    have before := tidy.sound v there
    exact ⟨before.definition, fun e inside => before.proper e (Sorted.mem_of_mem_ofList inside)⟩

variable [RowCodec.Faithful]

/-- Rows that were read are decoded as what they hold of their vertices. -/
theorem decodeRows_eq {found : List KeyedRow} (sound : ∀ v ∈ vertices, v.Sound)
    (described : ∀ v ∈ vertices, v.Described)
    (rows : ∀ v ∈ vertices, found.lookup (SchemaRow.key v.id) = some (SchemaRow.rowOf v)) :
    decodeRows found (vertices.map fun v => SchemaRow.key v.id) =
      .ok (vertices.map SchemaVertex.stored) := by
  induction vertices with
  | nil => rfl
  | cons v rest ih =>
      obtain ⟨c, word⟩ := takeWord_key v.id
      have later := ih (fun w inside => sound w (List.mem_cons_of_mem _ inside))
        (fun w inside => described w (List.mem_cons_of_mem _ inside))
        fun w inside => rows w (List.mem_cons_of_mem _ inside)
      rw [List.map_cons, decodeRows, word, Outcome.ok_bind]
      simp only [rows v List.mem_cons_self, Option.getD_some]
      rw [SchemaRow.decode_rowOf (sound v List.mem_cons_self) (described v List.mem_cons_self),
        Outcome.ok_bind, later]
      rfl

/-- One row that is not read is enough to read none. -/
theorem decodeRows_refused {found : List KeyedRow} (sound : ∀ v ∈ vertices, v.Sound)
    {w : SchemaVertex} (member : w ∈ vertices) (foreign : ¬ w.Described)
    (rows : ∀ v ∈ vertices, found.lookup (SchemaRow.key v.id) = some (SchemaRow.rowOf v)) :
    ∃ fault, decodeRows found (vertices.map fun v => SchemaRow.key v.id) = .error fault := by
  induction vertices with
  | nil => cases member
  | cons v rest ih =>
      obtain ⟨c, word⟩ := takeWord_key v.id
      rw [List.map_cons, decodeRows, word, Outcome.ok_bind]
      simp only [rows v List.mem_cons_self, Option.getD_some]
      by_cases described : v.Described
      · have inRest : w ∈ rest := (List.mem_cons.1 member).resolve_left fun same =>
          foreign (same ▸ described)
        obtain ⟨fault, refused⟩ := ih (fun w inside => sound w (List.mem_cons_of_mem _ inside)) inRest
          fun w inside => rows w (List.mem_cons_of_mem _ inside)
        rw [SchemaRow.decode_rowOf (sound v List.mem_cons_self) described, Outcome.ok_bind, refused]
        exact ⟨fault, rfl⟩
      · obtain ⟨fault, refused⟩ := SchemaRow.decode_refused (sound v List.mem_cons_self) described
        rw [refused]
        exact ⟨fault, rfl⟩

/-- Loading a store that holds the rows of some vertices answers a registry of what the
rows hold of them. -/
theorem Holds.load (holds : Holds s cache name vertices) (tidy : Tidy vertices)
    (described : ∀ v ∈ vertices, v.Described)
    (willing : ∀ c, s.caches[cache]? = some c → c.monitor.failing = 0) (o : TransactionOptions) :
    (load s cache (Transaction.start o)).1 =
      .ok { Registry.empty with vertices := vertices.map SchemaVertex.stored } := by
  obtain ⟨found, rows, all⟩ := holds.readAll tidy willing o
  rw [decodeRows_eq tidy.sound described rows] at all
  rcases reading : StoredSchema.readAll s cache (Transaction.start o) with ⟨_, s₁⟩
  rw [reading] at all
  subst all
  simp only [StoredSchema.load, reading]
  exact Registry.foldlM_insert (tidy_stored tidy)

/-- Where an edge has another category, nothing is loaded. -/
theorem Holds.refused (holds : Holds s cache name vertices) (tidy : Tidy vertices)
    {v : SchemaVertex} (member : v ∈ vertices) (foreign : ¬ v.Described)
    (willing : ∀ c, s.caches[cache]? = some c → c.monitor.failing = 0) (o : TransactionOptions) :
    ∃ fault, (StoredSchema.load s cache (Transaction.start o)).1 = .error fault := by
  obtain ⟨found, rows, all⟩ := holds.readAll tidy willing o
  obtain ⟨fault, refused⟩ := decodeRows_refused tidy.sound member foreign rows
  rw [refused] at all
  rcases reading : StoredSchema.readAll s cache (Transaction.start o) with ⟨_, s₁⟩
  rw [reading] at all
  subst all
  simp only [StoredSchema.load, reading]
  exact ⟨fault, rfl⟩

end StoredSchema

/-! ## Both in turn -/

namespace StoredSchema

open SchemaTable (Tidy)

variable [RowCodec] {vertices : List SchemaVertex}

/-- Writes the rows of some vertices and commits them. -/
def save (r : Registry) (cache pace : Nat) (ids : List SchemaId) (o : TransactionOptions)
    (s : Storage) : Outcome Unit × Storage :=
  match persist r cache pace ids (.start o) s with
  | (.error fault, _, s) => (.error fault, s)
  | (.ok _, t, s) =>
      let (outcome, _, s) := t.commit s
      (outcome, s)

/-- The rows of tidy vertices are what a store of them holds. -/
theorem holds_of_rows {s : Storage} (coherent : s.Coherent Table.Answers) {cache : Nat}
    {name : String} (fronts : Fronts s cache name) (tidy : Tidy vertices) {more : List SchemaVertex}
    (same : ∀ v, v ∈ more ↔ v ∈ vertices)
    (rows : ∀ key, s.backend.rowOf name key = SchemaRow.rowsOf more key) :
    Holds s cache name vertices := by
  refine ⟨coherent, fronts, fun key unknown => ?_, fun v inside => ?_⟩
  · rw [rows]
    rcases SchemaRow.rowsOf_cases more key with ⟨nothing, -⟩ | ⟨v, there, here, -⟩
    · exact nothing
    · exact absurd here (unknown v ((same v).1 there))
  · rw [rows]
    rcases SchemaRow.rowsOf_cases more (SchemaRow.key v.id) with ⟨-, apart⟩ | ⟨w, there, here, row⟩
    · exact absurd rfl (apart v ((same v).2 inside))
    · rw [row, tidy.ascending.eq_of_key ((same w).1 there) inside (SchemaRow.key_inj here)]

/-- A store that had no rows holds those of a schema after all of it was saved. -/
theorem holds_save {s : Storage} (coherent : s.Coherent Table.Answers) {cache : Nat}
    {c : StoreCache} (there : s.caches[cache]? = some c)
    (empty : ∀ key, s.backend.rowOf c.name key = []) {r : Registry} (tidy : Tidy r.vertices)
    {ids : List SchemaId} (all : ∀ id, id ∈ ids ↔ id ∈ r.ids) {pace : Nat} {o : TransactionOptions}
    (saved : (save r cache pace ids o s).1 = .ok ()) :
    Holds (save r cache pace ids o s).2 cache c.name r.vertices := by
  have start : Wrote [] s.backend (.start o) o s cache c.name := by
    refine ⟨⟨coherent, ⟨coherent.sound, Session.sound_start o s, .refl coherent.sound.backend,
      fun _ never => by cases never⟩, fun _ never => by cases never⟩, ⟨c, there, rfl⟩, empty⟩
  rcases persisted : persist r cache pace ids (.start o) s with ⟨fault | u, t, s₁⟩
  · simp only [save, persisted] at saved
    cases saved
  · have both : save r cache pace ids o s = ((t.commit s₁).1, (t.commit s₁).2.2) := by
      simp only [save, persisted]
    have written : persist r cache pace ids (Session.start o).transaction s = (.ok u, t, s₁) :=
      persisted
    obtain ⟨x, more, same, wrote, members⟩ := start.persist tidy.sound pace ids (by rw [written])
    rw [written] at same wrote
    obtain rfl : x.transaction = t := same
    rw [both] at saved ⊢
    obtain ⟨coherent', fronts, rows⟩ := wrote.commit saved
    refine holds_of_rows coherent' fronts tidy (fun v => (members v).trans ?_) rows
    constructor
    · rintro (never | ⟨id, -, found⟩)
      · cases never
      · exact (Sorted.mem_of_find? found).1
    · intro inside
      refine .inr ⟨v.id, (all v.id).2 (List.mem_map_of_mem inside), ?_⟩
      exact Sorted.find?_of_mem tidy.ascending inside Std.ReflOrd.compare_self

end StoredSchema

/-- The same numbers, and under each the same name, kind, definition and edges, these in
whatever order. -/
def Registry.Agrees (r r' : Registry) : Prop :=
  r'.ids = r.ids ∧ ∀ id v, r.vertex? id = some v → ∃ w, r'.vertex? id = some w ∧
    w.name = v.name ∧ w.kind = v.kind ∧ w.definition = v.definition ∧ w.edges.Perm v.edges

/-- What the rows of a schema hold is the schema exactly when no two edges of a vertex have
one place. -/
theorem Registry.agrees_stored_iff [RowCodec] [RowCodec.Faithful] {r : Registry}
    (tidy : SchemaTable.Tidy r.vertices) :
    r.Agrees { Registry.empty with vertices := r.vertices.map SchemaVertex.stored } ↔
      ∀ v ∈ r.vertices, (v.edges.map SchemaEdge.place).Nodup := by
  have stored (id : SchemaId) :
      Registry.vertex? { Registry.empty with vertices := r.vertices.map SchemaVertex.stored } id =
        (r.vertex? id).map SchemaVertex.stored :=
    find?_map_of_key (fun v => (rfl : v.stored.id = v.id)) r.vertices id
  constructor
  · rintro ⟨-, each⟩ v inside
    have found : r.vertex? v.id = some v :=
      Sorted.find?_of_mem tidy.ascending inside Std.ReflOrd.compare_self
    obtain ⟨w, there, -, -, -, edges⟩ := each v.id v found
    rw [stored, found] at there
    obtain rfl := Option.some.inj there
    exact (SchemaVertex.stored_edges_perm_iff (tidy.sound v inside)).1 edges
  · intro apart
    refine ⟨List.map_map .., fun id v found => ?_⟩
    have inside : v ∈ r.vertices := (Sorted.mem_of_find? found).1
    refine ⟨v.stored, by rw [stored, found]; rfl, rfl, rfl, rfl, ?_⟩
    exact (SchemaVertex.stored_edges_perm_iff (tidy.sound v inside)).2 (apart v inside)

namespace StoredSchema

/-- Whatever was done before, a schema that is saved to a store without rows is loaded
again with all its vertices, their names, kinds and definitions, if its edges are of edge
categories; of the edges of a vertex that have one place the last is loaded.  So it is
loaded as it was saved exactly if besides no vertex has two such edges. -/
theorem loads_back_iff [RowCodec] [RowCodec.Faithful] (rows : List Cell) {openings : List Opening}
    (oneEach : (openings.map Opening.name).Nodup) (actions : List Action) {cache : Nat}
    {c : StoreCache}
    (there : ((System.begin (.prepared rows openings)).run actions).storage.caches[cache]? = some c)
    (empty : ∀ key, ((System.begin (.prepared rows openings)).run actions).storage.backend.rowOf
      c.name key = [])
    {r : Registry} (built : r.Built) {ids : List SchemaId} (all : ∀ id, id ∈ ids ↔ id ∈ r.ids)
    (pace : Nat) (o o' : TransactionOptions) :
    let saved := save r cache pace ids o ((System.begin (.prepared rows openings)).run actions).storage
    saved.1 = .ok () →
    (∀ c', saved.2.caches[cache]? = some c' → c'.monitor.failing = 0) →
    ((∀ v ∈ r.vertices, v.Described) →
      ∃ loaded, (load saved.2 cache (.start o')).1 = .ok loaded ∧
        loaded.vertices = r.vertices.map SchemaVertex.stored) ∧
    ((∃ loaded, (load saved.2 cache (.start o')).1 = .ok loaded ∧ r.Agrees loaded) ↔
      ∀ v ∈ r.vertices, v.Described ∧ (v.edges.map SchemaEdge.place).Nodup) := by
  intro saved done willing
  have coherent := (System.coherent_run Table.fair_answers actions
    (System.coherent_begin (Storage.coherent_prepared rows oneEach Table.Answers))).storage
  have holds := holds_save coherent there empty built.tidy all done
  have answered (described : ∀ v ∈ r.vertices, v.Described) :=
    holds.load built.tidy described willing o'
  refine ⟨fun described => ⟨_, answered described, rfl⟩, ?_, ?_⟩
  · rintro ⟨loaded, loads, agrees⟩ v member
    have described : ∀ v ∈ r.vertices, v.Described := by
      intro v member
      refine Decidable.byContradiction fun foreign => ?_
      obtain ⟨fault, refused⟩ := holds.refused built.tidy member foreign willing o'
      rw [refused] at loads
      cases loads
    rw [answered described] at loads
    obtain rfl := Except.ok.inj loads
    exact ⟨described v member, (Registry.agrees_stored_iff built.tidy).1 agrees v member⟩
  · intro each
    exact ⟨_, answered fun v member => (each v member).1,
      (Registry.agrees_stored_iff built.tidy).2 fun v member => (each v member).2⟩

/-- The cache of the store of schemas. -/
def opening : Opening := ⟨"system_schema", .default, false, fun _ => 0⟩

/-- A storage of that store, without rows. -/
def vacant : Storage := .prepared [] [opening]

theorem alone_opening : ([opening].map Opening.name).Nodup := by decide

end StoredSchema

/-- A key, and an index with a field at each of some positions, all of them this key. -/
def Registry.indexed (positions : List Int64) : Registry where
  vertices :=
    [⟨1, "name", .propertyKey, ⟨[(.dataType, .dataType .text)]⟩,
        positions.map fun p => ⟨2, .into, .indexField, [⟨"index-position", .int p⟩]⟩⟩,
      ⟨2, "byName", .compositeIndex, ⟨[(.elementCategory, .element .vertex)]⟩,
        positions.map fun p => ⟨1, .out, .indexField, [⟨"index-position", .int p⟩]⟩⟩]
  types := []
  nextMark := 0
  indexes := []
  objects := []

theorem Registry.built_indexed (positions : List Int64) : (indexed positions).Built := by
  induction positions using List.reverseRecOn with
  | nil =>
      have key : Definition.Recorded ⟨[(.dataType, .dataType .text)]⟩ :=
        .set (c := .dataType) (v := .dataType .text) .empty rfl
      have index : Definition.Recorded ⟨[(.elementCategory, .element .vertex)]⟩ :=
        .set (c := .elementCategory) (v := .element .vertex) .empty rfl
      exact .define (v := ⟨2, "byName", .compositeIndex, _, []⟩)
        (.define (v := ⟨1, "name", .propertyKey, _, []⟩) .empty rfl key rfl) rfl index rfl
  | append_singleton positions p ih =>
      refine .connect (d := ⟨.indexField, [⟨"index-position", .int p⟩]⟩) ih
        (show (indexed positions).connect 2 1 _ = _ from ?_)
      simp [connect, indexed, vertex?, Sorted.find?, addEdge, invalidate, SchemaVertex.addEdge]

namespace StoredSchema

theorem one_field_is_loaded : ∃ loaded,
    (load (save (.indexed [0]) 0 60 [1, 2] .default vacant).2 0 (.start .default)).1 = .ok loaded ∧
      (Registry.indexed [0]).Agrees loaded := by
  have there : ((System.begin (.prepared [] [opening])).run []).storage.caches[0]? = some _ := rfl
  have all : ∀ id, id ∈ [1, 2] ↔ id ∈ (Registry.indexed [0]).ids := fun _ => Iff.rfl
  obtain ⟨-, agrees⟩ := loads_back_iff [] alone_opening [] there (fun _ => rfl)
    (Registry.built_indexed [0]) all 60 .default .default rfl
    fun _ there' => by obtain rfl := Option.some.inj there'; rfl
  exact agrees.2 (by decide)

/-- The edges of an index to one key have one column, though they are different fields: of
the two the first is lost. -/
theorem first_field_is_lost : ∃ r loaded : Registry, r.Built ∧
    (∀ key, vacant.backend.rowOf "system_schema" key = []) ∧
    (save r 0 60 r.ids .default vacant).1 = .ok () ∧
    (load (save r 0 60 r.ids .default vacant).2 0 (.start .default)).1 = .ok loaded ∧
    ¬ r.Agrees loaded := by
  have built := Registry.built_indexed [0, 1]
  have coherent : vacant.Coherent Table.Answers :=
    Storage.coherent_prepared [] alone_opening Table.Answers
  have there : vacant.caches[0]? = some _ := rfl
  have saved : (save (.indexed [0, 1]) 0 60 (Registry.indexed [0, 1]).ids .default vacant).1 =
      .ok () := rfl
  have holds := holds_save coherent there (fun _ => rfl) built.tidy (fun _ => Iff.rfl) saved
  have loaded := holds.load built.tidy (by decide)
    (fun _ there' => by obtain rfl := Option.some.inj there'; rfl) .default
  refine ⟨.indexed [0, 1], _, built, fun _ => rfl, saved, loaded, ?_⟩
  rw [Registry.agrees_stored_iff built.tidy]
  decide

end StoredSchema

end PropertyGraph
