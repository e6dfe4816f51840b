/-
# Proofs.SchemaRows -- what the row of a schema vertex holds

A vertex is written as a list of entries, of which a row keeps the last for each column.
That row (`SchemaRow.rowOf`) is read as the vertex it was made of with its edges in column
order, and of edges that have one column the last (`SchemaVertex.stored`): `decode_rowOf`.
It reads an entry at a time (`readEntry_header`, `readEntry_definition`, `readEntry_edge`),
and refuses an edge of a category that is none of edges (`decode_refused`).  All of it takes
a codec that reads what it writes (`RowCodec.Faithful`), which also tells columns apart
(`ValueCodec.Faithful.write_inj`).

Two edges have one column exactly when they have one place: their direction, the vertex at
their other end and their category (`SchemaEdge.column_eq_iff`).  So a row holds all edges
of its vertex exactly when no two have one place (`SchemaVertex.stored_edges_perm_iff`), and
besides those loses nothing: `SchemaRow.decode_encode`.
-/
import PropertyGraph.Proofs.Cursors
import PropertyGraph.Proofs.SchemaForms
import PropertyGraph.Proofs.SortedLists

namespace PropertyGraph

set_option autoImplicit false

/-- Definitions whose values were all recorded by `Definition.set`. -/
inductive Definition.Recorded : Definition → Prop
  | empty : Recorded .empty
  | set {d d' : Definition} {c : Category} {v : DefinitionValue} (before : Recorded d)
      (done : d.set c v = .ok d') : Recorded d'

/-- One value a category, in the order of the categories, and each accepted. -/
structure Definition.Sound (d : Definition) : Prop where
  ascending : Sorted.Ascending Prod.fst d.entries
  accepted : ∀ e ∈ d.entries, e.1.accepts e.2 = true

theorem Definition.Recorded.sound {d : Definition} (recorded : d.Recorded) : d.Sound := by
  induction recorded with
  | empty => exact ⟨.nil, fun _ member => by cases member⟩
  | @set d d' c v before done ih =>
      unfold Definition.set at done
      split at done
      · rename_i accepted
        obtain rfl := Except.ok.inj done
        refine ⟨ih.ascending.insert (c, v), ?_⟩
        intro e member
        rcases Sorted.mem_insert member with rfl | old
        · exact accepted
        · exact ih.accepted e old
      · cases done

/-- A schema vertex as a row can hold it. -/
structure SchemaVertex.Sound (v : SchemaVertex) : Prop where
  definition : v.definition.Sound
  proper : ∀ e ∈ v.edges, e.direction.isProper = true

/-- The categories of the edges are categories of edges, as those are that
`EdgeDescription.create` accepts. -/
def SchemaVertex.Described (v : SchemaVertex) : Prop :=
  ∀ e ∈ v.edges, e.description.category.isEdge = true

instance (v : SchemaVertex) : Decidable v.Described :=
  inferInstanceAs (Decidable (∀ e ∈ v.edges, e.description.category.isEdge = true))

instance : Std.LawfulEqOrd Category where
  compare_self := Std.ReflCmp.compare_self
  eq_of_compare {c c'} same := by
    have ranks : c.ctorIdx = c'.ctorIdx := Std.LawfulEqOrd.eq_of_compare same
    rw [← Category.ofNat_ctorIdx c, ranks, Category.ofNat_ctorIdx]

/-- Values are told apart by how they are written. -/
theorem ValueCodec.Faithful.write_inj {α : Type} {codec : ValueCodec α} (faithful : codec.Faithful)
    {a b : α} (same : codec.write a = codec.write b) : a = b := by
  have read := faithful a
  rw [same, faithful b] at read
  exact (Option.some.inj read).symm

/-- What was written for a value is decoded as that value. -/
theorem ValueCodec.Faithful.decoded_write {α : Type} {codec : ValueCodec α}
    (faithful : codec.Faithful) (a : α) : SchemaRow.decoded codec (codec.write a) = .ok a := by
  rw [SchemaRow.decoded, faithful a]

namespace SchemaRow

/-- Vertices have rows of their own. -/
theorem key_inj {a b : SchemaId} (same : key a = key b) : a = b := by
  have number (v : SchemaId) : Ordered.number (key v) = v.toNat :=
    Ordered.number_digits v.toNat_lt
  refine UInt64.toNat_inj.1 ?_
  rw [← number, same, number]

theorem takeByte_start (byte : UInt8) (rest : Bytes) :
    (Cursor.start (byte :: rest)).takeByte = .ok (byte, ⟨1, rest⟩) :=
  Cursor.takeByte_append (b := [byte]) (show 1 < Cursor.offsetBound by decide) rfl

theorem slice_contains {byte : UInt8} (first : 1 ≤ byte) (last : byte < 4) (rest : Bytes) :
    slice.contains (byte :: rest) = true := by
  have start : ([1] : Bytes) ≤ byte :: rest := by
    rw [List.cons_le_cons_iff]
    rcases Nat.lt_or_eq_of_le (UInt8.le_iff_toNat_le.1 first) with less | same
    · exact .inl (UInt8.lt_iff_toNat_lt.2 less)
    · exact .inr ⟨UInt8.toNat_inj.1 same, List.nil_le _⟩
  have stop : byte :: rest < ([4] : Bytes) := List.cons_lt_cons_iff.2 (.inl last)
  exact Bool.and_eq_true_iff.2 ⟨decide_eq_true start, decide_eq_true stop⟩

end SchemaRow

/-! ## Writing a row -/

namespace SchemaEdge

/-- What tells the column of an edge from those of the others at its vertex. -/
def place (e : SchemaEdge) : Direction × SchemaId × Category :=
  (e.direction, e.other, e.description.category)

variable [RowCodec]

/-- The column of an edge that points out of its vertex or into it. -/
def column (e : SchemaEdge) : Bytes :=
  SchemaRow.edgeColumn (if e.direction = .out then 0 else 1) e

/-- The entry of such an edge. -/
def entry (e : SchemaEdge) : Entry where
  column := e.column
  value := RowCodec.modifier.write e.description.modifier

end SchemaEdge

namespace SchemaRow

variable [RowCodec]

theorem edgeEntry_of_proper {e : SchemaEdge} (proper : e.direction.isProper = true) :
    edgeEntry e = .ok e.entry := by
  unfold edgeEntry SchemaEdge.entry SchemaEdge.column
  cases direction : e.direction with
  | out | into => rfl
  | both => exact absurd proper (by rw [direction]; decide)

/-- The entries of a vertex in the order in which they are made. -/
def entriesOf (v : SchemaVertex) : List Entry :=
  header v :: (v.definition.entries.map definitionEntry ++ v.edges.map SchemaEdge.entry)

theorem mapM_edgeEntry_eq_ok_iff {edges : List SchemaEdge} {entries : List Entry} :
    edges.mapM edgeEntry = .ok entries ↔
      (∀ e ∈ edges, e.direction.isProper = true) ∧ entries = edges.map SchemaEdge.entry := by
  induction edges generalizing entries with
  | nil =>
      have none_ : List.mapM edgeEntry [] = .ok [] := rfl
      rw [none_, Except.ok.injEq]
      exact ⟨fun same => ⟨nofun, same.symm⟩, fun both => both.2.symm⟩
  | cons e rest ih =>
      rw [List.mapM_cons, List.forall_mem_cons]
      by_cases proper : e.direction.isProper = true
      · rw [edgeEntry_of_proper proper, Outcome.ok_bind, Outcome.bind_eq_ok_iff]
        simp only [ih, proper, true_and]
        constructor
        · rintro ⟨_, ⟨all, rfl⟩, same⟩
          exact ⟨all, (Except.ok.inj same).symm⟩
        · rintro ⟨all, rfl⟩
          exact ⟨_, ⟨all, rfl⟩, rfl⟩
      · refine iff_of_false (fun done => ?_) fun all => proper all.1.1
        obtain ⟨entry, here, -⟩ := Outcome.bind_eq_ok_iff.1 done
        obtain ⟨byte, towards, -⟩ := Outcome.bind_eq_ok_iff.1 here
        cases direction : e.direction with
        | out | into => exact proper (by rw [direction]; rfl)
        | both =>
            rw [direction] at towards
            cases towards

/-- A vertex can be written if each of its edges points out of it or into it. -/
theorem encode_eq_ok_iff {v : SchemaVertex} {entries : List Entry} :
    encode v = .ok entries ↔
      (∀ e ∈ v.edges, e.direction.isProper = true) ∧ entries = entriesOf v := by
  rw [encode, Outcome.bind_eq_ok_iff]
  simp only [mapM_edgeEntry_eq_ok_iff]
  constructor
  · rintro ⟨_, ⟨proper, rfl⟩, same⟩
    exact ⟨proper, (Except.ok.inj same).symm⟩
  · rintro ⟨proper, rfl⟩
    exact ⟨_, ⟨proper, rfl⟩, rfl⟩

theorem encode_of_sound {v : SchemaVertex} (sound : v.Sound) : encode v = .ok (entriesOf v) :=
  encode_eq_ok_iff.2 ⟨sound.proper, rfl⟩

/-- The row of a vertex: its header, its definition and its edges, the latter two in
column order, and of edges with one column the last. -/
def rowOf (v : SchemaVertex) : List Entry :=
  header v :: ((Sorted.ofList (fun e => (definitionEntry e).column) v.definition.entries).map
    definitionEntry ++ (Sorted.ofList SchemaEdge.column v.edges).map SchemaEdge.entry)

theorem listOf_entriesOf (v : SchemaVertex) : Entry.listOf (entriesOf v) = rowOf v := by
  have behindHeader : ∀ x ∈ v.definition.entries.map definitionEntry ++
      v.edges.map SchemaEdge.entry, ∀ y ∈ [header v], compare x.column y.column = .gt := by
    intro x member y first
    obtain rfl := List.mem_singleton.1 first
    rcases List.mem_append.1 member with definition | edge
    · obtain ⟨e, -, rfl⟩ := List.mem_map.1 definition
      rfl
    · obtain ⟨e, -, rfl⟩ := List.mem_map.1 edge
      rfl
  have behindDefinition : ∀ x ∈ v.edges.map SchemaEdge.entry,
      ∀ y ∈ v.definition.entries.map definitionEntry, compare x.column y.column = .gt := by
    intro x member y definition
    obtain ⟨e, -, rfl⟩ := List.mem_map.1 member
    obtain ⟨d, -, rfl⟩ := List.mem_map.1 definition
    rfl
  have single : Sorted.ofList Entry.column [header v] = [header v] := rfl
  rw [Entry.listOf, entriesOf, ← List.singleton_append, Sorted.ofList_append behindHeader,
    Sorted.ofList_append behindDefinition, Sorted.ofList_map, Sorted.ofList_map, single]
  rfl

theorem contains_entriesOf (v : SchemaVertex) :
    ∀ e ∈ entriesOf v, slice.contains e.column = true := by
  intro e member
  rcases List.mem_cons.1 member with rfl | member
  · exact slice_contains (by decide) (by decide) _
  rcases List.mem_append.1 member with definition | edge
  · obtain ⟨d, -, rfl⟩ := List.mem_map.1 definition
    exact slice_contains (by decide) (by decide) _
  · obtain ⟨d, -, rfl⟩ := List.mem_map.1 edge
    exact slice_contains (by decide) (by decide) _

/-- The columns of a schema vertex are all of its row. -/
theorem apply_rowOf (v : SchemaVertex) : slice.apply (rowOf v) = rowOf v := by
  refine List.filter_eq_self.2 fun e member => contains_entriesOf v e ?_
  rw [← listOf_entriesOf] at member
  exact Sorted.mem_of_mem_ofList member

theorem mem_of_mem_kept {v : SchemaVertex} {e : SchemaEdge}
    (kept : e ∈ Sorted.ofList SchemaEdge.column v.edges) : e ∈ v.edges :=
  Sorted.mem_of_mem_ofList kept

end SchemaRow

/-- What the row of a vertex holds of it: of the edges whose columns are the same, the last,
and the edges in the order of their columns. -/
def SchemaVertex.stored [RowCodec] (v : SchemaVertex) : SchemaVertex :=
  { v with edges := Sorted.ofList SchemaEdge.column v.edges }

/-! ## Reading a row -/

section Reading

variable [RowCodec] [RowCodec.Faithful]

namespace SchemaRow

theorem readEntry_header (r : Reading) (v : SchemaVertex) :
    readEntry r (header v) = .ok { r with header := some (v.name, v.kind) } := by
  have decodes : decoded RowCodec.header (header v).value = .ok (v.name, v.kind) :=
    RowCodec.Faithful.header.decoded_write _
  have front : (Cursor.start (header v).column).takeByte = .ok (headerByte, ⟨1, []⟩) :=
    takeByte_start headerByte []
  rw [readEntry, front]
  simp only [Outcome.ok_bind, if_true, decodes]
  rfl

theorem readEntry_definition (r : Reading) {e : Category × DefinitionValue}
    (accepted : e.1.accepts e.2 = true) :
    readEntry r (definitionEntry e) =
      .ok { r with definition := r.definition.insert e.1 e.2 } := by
  have front : (Cursor.start (definitionEntry e).column).takeByte =
      .ok (definitionByte, ⟨1, RowCodec.category.write e.1⟩) :=
    takeByte_start definitionByte _
  have category : decoded RowCodec.category (RowCodec.category.write e.1) = .ok e.1 :=
    RowCodec.Faithful.category.decoded_write _
  have value : decoded RowCodec.definition (definitionEntry e).value = .ok e.2 :=
    RowCodec.Faithful.definition.decoded_write _
  have done : r.definition.set e.1 e.2 = .ok (r.definition.insert e.1 e.2) := if_pos accepted
  have apart : definitionByte ≠ headerByte := by decide
  rw [readEntry, front]
  simp only [Outcome.ok_bind, if_neg apart, if_true, category, value, done]
  rfl

/-- The entry of an edge is read as the edge, if its description is accepted. -/
theorem readEntry_edge (r : Reading) {e : SchemaEdge} (proper : e.direction.isProper = true) :
    readEntry r e.entry = do
      let d ← EdgeDescription.create e.description.category e.description.modifier
      return { r with edges := r.edges ++ [⟨e.other, e.direction, d⟩] } := by
  obtain ⟨byte, there, back⟩ : ∃ byte, e.column = edgeColumn byte e ∧
      direction byte = .ok e.direction := by
    refine ⟨_, rfl, ?_⟩
    cases towards : e.direction with
    | out | into => rfl
    | both => exact absurd proper (by rw [towards]; decide)
  let name := RowCodec.category.write e.description.category
  have front : (Cursor.start e.entry.column).takeByte =
      .ok (edgeByte, ⟨1, byte :: (Ordered.ofWord e.other ++ name)⟩) := by
    rw [show e.entry.column = _ from there]
    exact takeByte_start edgeByte _
  have second : Cursor.takeByte ⟨1, byte :: (Ordered.ofWord e.other ++ name)⟩ =
      .ok (byte, ⟨2, Ordered.ofWord e.other ++ name⟩) :=
    Cursor.takeByte_append (b := [byte]) (show 2 < Cursor.offsetBound by decide) rfl
  have word : Cursor.takeWord ⟨2, Ordered.ofWord e.other ++ name⟩ = .ok (e.other, ⟨10, name⟩) := by
    have size : (Ordered.ofWord e.other).length = 8 := by rw [Ordered.ofWord, Ordered.length_digits]
    have room : 2 + (Ordered.ofWord e.other).length < Cursor.offsetBound := by rw [size]; decide
    rw [Cursor.takeWord_append room rfl, size]
  have category : decoded RowCodec.category name = .ok e.description.category :=
    RowCodec.Faithful.category.decoded_write _
  have modifier : decoded RowCodec.modifier e.entry.value = .ok e.description.modifier :=
    RowCodec.Faithful.modifier.decoded_write _
  have notHeader : edgeByte ≠ headerByte := by decide
  have notDefinition : edgeByte ≠ definitionByte := by decide
  rw [readEntry, front]
  simp only [Outcome.ok_bind, if_neg notHeader, if_neg notDefinition, if_true, second, back, word,
    category, modifier]

theorem readEntries_definition {entries : List (Category × DefinitionValue)}
    (accepted : ∀ e ∈ entries, e.1.accepts e.2 = true) (r : Reading) :
    (entries.map definitionEntry).foldlM readEntry r =
      .ok { r with definition :=
        ⟨entries.foldl (fun acc e => Sorted.insert Prod.fst e acc) r.definition.entries⟩ } := by
  induction entries generalizing r with
  | nil => rfl
  | cons e rest ih =>
      rw [List.map_cons, List.foldlM_cons, readEntry_definition r (accepted e List.mem_cons_self),
        Outcome.ok_bind, ih fun e' member => accepted e' (List.mem_cons_of_mem _ member)]
      rfl

theorem readEntries_edges {edges : List SchemaEdge}
    (proper : ∀ e ∈ edges, e.direction.isProper = true)
    (described : ∀ e ∈ edges, e.description.category.isEdge = true) (r : Reading) :
    (edges.map SchemaEdge.entry).foldlM readEntry r = .ok { r with edges := r.edges ++ edges } := by
  induction edges generalizing r with
  | nil => rw [List.append_nil]; rfl
  | cons e rest ih =>
      have accepted : EdgeDescription.create e.description.category e.description.modifier =
          .ok e.description := if_pos (described e List.mem_cons_self)
      rw [List.map_cons, List.foldlM_cons, readEntry_edge r (proper e List.mem_cons_self), accepted,
        Outcome.ok_bind]
      refine (ih (fun e' member => proper e' (List.mem_cons_of_mem _ member))
        (fun e' member => described e' (List.mem_cons_of_mem _ member)) _).trans ?_
      rw [List.append_assoc]
      rfl

theorem readEntries_refused {edges : List SchemaEdge}
    (proper : ∀ e ∈ edges, e.direction.isProper = true) {e : SchemaEdge} (member : e ∈ edges)
    (foreign : e.description.category.isEdge = false) (r : Reading) :
    ∃ fault, (edges.map SchemaEdge.entry).foldlM readEntry r = .error fault := by
  induction edges generalizing r with
  | nil => cases member
  | cons e' rest ih =>
      rw [List.map_cons, List.foldlM_cons, readEntry_edge r (proper e' List.mem_cons_self),
        EdgeDescription.create]
      by_cases described : e'.description.category.isEdge = true
      · rw [if_pos described]
        rcases List.mem_cons.1 member with rfl | inRest
        · rw [foreign] at described
          cases described
        · exact ih (fun e' member => proper e' (List.mem_cons_of_mem _ member)) inRest _
      · rw [if_neg described]
        exact ⟨_, rfl⟩

/-- Columns in order hold the values of a definition in another order than its own, and
none is lost. -/
theorem ofList_ofList_of_sound {d : Definition} (sound : d.Sound) :
    Sorted.ofList Prod.fst (Sorted.ofList (fun e => (definitionEntry e).column) d.entries) =
      d.entries := by
  refine Sorted.ofList_eq_of_mem sound.ascending fun e => ⟨Sorted.mem_of_mem_ofList, ?_⟩
  intro member
  refine Sorted.mem_ofList_of_alone member fun e' there same => ?_
  have category : RowCodec.category.write e'.1 = RowCodec.category.write e.1 :=
    (List.cons.inj same).2
  exact sound.ascending.eq_of_key there member (RowCodec.Faithful.category.write_inj category)

/-- In front of the edges the header and the definition are read as they were written. -/
theorem decode_rowOf_eq {v : SchemaVertex} (sound : v.Sound) :
    decode v.id (rowOf v) = do
      let r ← ((Sorted.ofList SchemaEdge.column v.edges).map SchemaEdge.entry).foldlM readEntry
        ⟨some (v.name, v.kind), v.definition, []⟩
      return r.header.map fun (name, kind) => ⟨v.id, name, kind, r.definition, r.edges⟩ := by
  have accepted : ∀ e ∈ Sorted.ofList (fun e => (definitionEntry e).column) v.definition.entries,
      e.1.accepts e.2 = true :=
    fun e member => sound.definition.accepted e (Sorted.mem_of_mem_ofList member)
  have definition := ofList_ofList_of_sound sound.definition
  rw [Sorted.ofList] at definition
  rw [decode, rowOf, List.foldlM_cons, readEntry_header, Outcome.ok_bind, List.foldlM_append,
    readEntries_definition accepted, Outcome.ok_bind]
  simp only [Definition.empty, definition]

/-- The row of a vertex is read as what it holds of it. -/
theorem decode_rowOf {v : SchemaVertex} (sound : v.Sound) (described : v.Described) :
    decode v.id (rowOf v) = .ok (some v.stored) := by
  have edges := readEntries_edges (fun e kept => sound.proper e (mem_of_mem_kept kept))
    fun e kept => described e (mem_of_mem_kept kept)
  rw [decode_rowOf_eq sound, edges]
  rfl

end SchemaRow

/-! ## Columns of edges -/

namespace SchemaEdge

/-- Edges of a vertex have one column when they are of one category and join it with the
same vertex in the same direction, whatever their parameters are. -/
theorem column_eq_iff {e e' : SchemaEdge} (proper : e.direction.isProper = true)
    (proper' : e'.direction.isProper = true) : e.column = e'.column ↔ e.place = e'.place := by
  constructor
  · intro same
    obtain ⟨-, behind⟩ := List.cons.inj same
    obtain ⟨byte, behind⟩ := List.cons.inj behind
    have sizes : (Ordered.ofWord e.other).length = (Ordered.ofWord e'.other).length := by
      rw [Ordered.ofWord, Ordered.ofWord, Ordered.length_digits, Ordered.length_digits]
    obtain ⟨word, name⟩ := List.append_inj behind sizes
    have direction : e.direction = e'.direction := by
      revert byte proper proper'
      cases e.direction <;> cases e'.direction <;> decide
    have other : e.other = e'.other := SchemaRow.key_inj word
    rw [place, place, direction, other, RowCodec.Faithful.category.write_inj name]
  · intro same
    obtain ⟨direction, other, category⟩ : e.direction = e'.direction ∧ e.other = e'.other ∧
        e.description.category = e'.description.category := by
      simpa only [place, Prod.mk.injEq] using same
    rw [column, column, SchemaRow.edgeColumn, SchemaRow.edgeColumn, direction, other, category]

end SchemaEdge

/-- A row holds all edges of its vertex exactly when no two of them have one place. -/
theorem SchemaVertex.stored_edges_perm_iff {v : SchemaVertex} (sound : v.Sound) :
    v.stored.edges.Perm v.edges ↔ (v.edges.map SchemaEdge.place).Nodup := by
  rw [stored, Sorted.ofList_perm_iff, List.Nodup, List.Nodup, List.pairwise_map, List.pairwise_map]
  refine List.Pairwise.iff_of_mem fun first second => not_congr ?_
  exact SchemaEdge.column_eq_iff (sound.proper _ first) (sound.proper _ second)

/-- A row with an edge of another category is not read. -/
theorem SchemaRow.decode_refused {v : SchemaVertex} (sound : v.Sound) (foreign : ¬ v.Described) :
    ∃ fault, decode v.id (rowOf v) = .error fault := by
  obtain ⟨e, member, other⟩ : ∃ e ∈ v.edges, e.description.category.isEdge = false := by
    simpa [SchemaVertex.Described] using foreign
  -- The edge may have been replaced, but only by one of its category.
  obtain ⟨e', kept, same⟩ : ∃ e' ∈ Sorted.ofList SchemaEdge.column v.edges, e'.column = e.column :=
    Sorted.exists_key_ofList member
  have place := (SchemaEdge.column_eq_iff (sound.proper e' (mem_of_mem_kept kept))
    (sound.proper e member)).1 same
  have category : e'.description.category = e.description.category :=
    congrArg (fun place => place.2.2) place
  obtain ⟨fault, refused⟩ := readEntries_refused
    (fun e kept => sound.proper e (mem_of_mem_kept kept)) kept (by rw [category, other]) _
  rw [decode_rowOf_eq sound, refused]
  exact ⟨fault, rfl⟩

/-- Of the edges of a place a row holds the last. -/
theorem SchemaVertex.mem_stored_edges_iff {v : SchemaVertex} (sound : v.Sound) (e : SchemaEdge) :
    e ∈ v.stored.edges ↔
      ∃ front back, v.edges = front ++ e :: back ∧ ∀ e' ∈ back, e'.place ≠ e.place := by
  rw [stored, Sorted.mem_ofList_iff]
  refine exists_congr fun front => exists_congr fun back => and_congr_right fun split => ?_
  have proper := sound.proper
  rw [split] at proper
  refine forall₂_congr fun e' later => not_congr (SchemaEdge.column_eq_iff ?_ ?_)
  · exact proper e' (List.mem_append_right _ (List.mem_cons_of_mem _ later))
  · exact proper e (List.mem_append_right _ List.mem_cons_self)

end Reading

/-- An index with a name that is escaped, and with two fields at one place. -/
def SchemaVertex.twiceIndexed : SchemaVertex where
  id := 9
  name := "by \"name\"\n"
  kind := .compositeIndex
  definition := ⟨[(.internalIndex, .bool true), (.elementCategory, .element .vertex)]⟩
  edges := [
    ⟨7, .out, ⟨.indexField, [⟨"index-position", .int 1⟩]⟩⟩,
    ⟨7, .out, ⟨.indexField, [⟨"index-position", .int 0⟩]⟩⟩]

theorem SchemaVertex.sound_twiceIndexed : twiceIndexed.Sound := by
  have flagged : Definition.Recorded ⟨[(.internalIndex, .bool true)]⟩ :=
    .set (c := .internalIndex) (v := .bool true) .empty rfl
  have both : Definition.Recorded twiceIndexed.definition :=
    .set (c := .elementCategory) (v := .element .vertex) flagged rfl
  exact ⟨both.sound, by decide⟩

/-- A vertex whose definition and edges are accepted is encoded, in columns of its row, and
what its row holds is decoded again: its name, its kind, its definition and its edges in
column order, of those of one place only the last. -/
theorem SchemaRow.decode_encode [RowCodec] [RowCodec.Faithful] {v : SchemaVertex}
    (sound : v.Sound) (described : v.Described) :
    ∃ entries w, encode v = .ok entries ∧
      (∀ e ∈ entries, slice.contains e.column = true) ∧
      decode v.id (Entry.listOf entries) = .ok (some w) ∧
      w.id = v.id ∧ w.name = v.name ∧ w.kind = v.kind ∧ w.definition = v.definition ∧
      (w.edges.Pairwise fun e e' => e.column < e'.column) ∧
      ∀ e, e ∈ w.edges ↔
        ∃ front back, v.edges = front ++ e :: back ∧ ∀ e' ∈ back, e'.place ≠ e.place := by
  have decoded : decode v.id (Entry.listOf (entriesOf v)) = .ok (some v.stored) := by
    rw [listOf_entriesOf, decode_rowOf sound described]
  have order : v.stored.edges.Pairwise fun e e' => e.column < e'.column :=
    (Sorted.ascending_ofList SchemaEdge.column v.edges).imp Bytes.compare_eq_lt_iff.1
  exact ⟨entriesOf v, v.stored, encode_of_sound sound, contains_entriesOf v, decoded, rfl, rfl, rfl,
    rfl, order, v.mem_stored_edges_iff sound⟩

/-- The later of the two fields is decoded, and the earlier is not. -/
theorem SchemaRow.decode_encode_twiceIndexed :
    ∃ entries w, encode .twiceIndexed = .ok entries ∧
      decode 9 (Entry.listOf entries) = .ok (some w) ∧ w.name = "by \"name\"\n" ∧
      w.definition = SchemaVertex.twiceIndexed.definition ∧
      ⟨7, .out, ⟨.indexField, [⟨"index-position", .int 0⟩]⟩⟩ ∈ w.edges ∧
      ⟨7, .out, ⟨.indexField, [⟨"index-position", .int 1⟩]⟩⟩ ∉ w.edges := by
  obtain ⟨entries, w, encoded, -, decoded, -, name, -, definition, -, edges⟩ :=
    decode_encode SchemaVertex.sound_twiceIndexed (by decide)
  refine ⟨entries, w, encoded, decoded, name, definition, (edges _).2 ⟨[_], [], rfl, nofun⟩, ?_⟩
  intro kept
  obtain ⟨front, back, split, later⟩ := (edges _).1 kept
  rcases front with _ | ⟨first, _ | ⟨second, rest⟩⟩
  · obtain rfl := (List.cons.inj split).2
    exact later _ List.mem_cons_self rfl
  · exact absurd split (by simp [SchemaVertex.twiceIndexed])
  · exact absurd (congrArg List.length split) (by simp [SchemaVertex.twiceIndexed])

end PropertyGraph
