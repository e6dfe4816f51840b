/-
# Proofs.Rows -- row mutations as changes of a map

A row is known by what it holds in each column.  Seen so, a mutation replaces the
columns it adds, empties those it only deletes, and leaves the others alone
(`Mutation.find?_applyTo`).  From this:

* a merged mutation acts like the earlier one followed by the later one
  (`Mutation.applyTo_merge`), whatever of the two comes first in a column;
* consolidating changes nothing, and neither does applying a mutation again
  (`Mutation.applyTo_consolidate`, `Mutation.applyTo_applyTo`);
* a slice of a changed row is known from the same slice of the row before
  (`Mutation.overlay_unlimited`);
* a table does to a row exactly what the mutation does (`Table.row_mutate_self`),
  and is known by its rows (`Table.eq_of_row`);
* a scan finds the rows that hold something of what is asked for, in the order of their
  keys (`Table.Sound.mem_scan_iff`, `Table.Sound.ascending_scan`).
-/
import PropertyGraph.Store.Table

namespace PropertyGraph

set_option autoImplicit false

namespace Mutation

/-- The entry that a mutation leaves in a column that it adds. -/
def last? (m : Mutation) (c : Bytes) : Option Entry :=
  m.additions.reverse.find? fun e => e.column = c

theorem last?_isSome (m : Mutation) (c : Bytes) : (m.last? c).isSome = m.adds c := by
  rw [Bool.eq_iff_iff]
  simp [last?, adds]

theorem ascending_applyTo {row : List Entry} (ascending : Sorted.Ascending Entry.column row)
    (m : Mutation) : Sorted.Ascending Entry.column (m.applyTo row) := by
  suffices ∀ (entries acc : List Entry), Sorted.Ascending Entry.column acc →
      Sorted.Ascending Entry.column
        (entries.foldl (fun acc e => Sorted.insert Entry.column e acc) acc) from
    this _ _ (ascending.filter _)
  intro entries
  induction entries with
  | nil => exact fun acc ascending => ascending
  | cons e rest ih => exact fun acc ascending => ih _ (ascending.insert e)

/-- Additions come last, deletions before them, and other columns stay. -/
theorem find?_applyTo {row : List Entry} (ascending : Sorted.Ascending Entry.column row)
    (m : Mutation) (c : Bytes) :
    Sorted.find? Entry.column c (m.applyTo row) =
      (m.last? c).or
        (if c ∈ m.deletions then none else Sorted.find? Entry.column c row) := by
  have survives : Sorted.find? Entry.column c
      (row.filter fun e => !m.deletions.contains e.column) =
        if c ∈ m.deletions then none else Sorted.find? Entry.column c row := by
    rw [Sorted.find?_filter ascending]
    cases found : Sorted.find? Entry.column c row with
    | none => simp
    | some e =>
        have column := (Entry.compare_column_eq_iff c e).1 (Sorted.mem_of_find? found).2
        subst column
        by_cases deleted : e.column ∈ m.deletions <;> simp [Option.filter, deleted]
  rw [applyTo, Entry.find?_foldl_insert, survives]
  rfl

theorem last?_merge (a b : Mutation) (c : Bytes) :
    (a.merge b).last? c =
      (b.last? c).or (if c ∈ b.deletions then none else a.last? c) := by
  simp only [last?, merge, List.reverse_append, List.find?_append, ← List.filter_reverse,
    List.find?_filter]
  cases later : b.additions.reverse.find? fun e => e.column = c with
  | some e => rfl
  | none =>
      have absent : b.adds c = false := by
        rw [← last?_isSome, last?, later]
        rfl
      simp only [Option.none_or]
      by_cases deleted : c ∈ b.deletions
      · rw [if_pos deleted, List.find?_eq_none]
        intro e _ picked
        obtain ⟨survives, column⟩ := of_decide_eq_true picked
        have same : e.column = c := of_decide_eq_true column
        simp [same, deleted] at survives
      · rw [if_neg deleted]
        congr 1
        funext e
        by_cases column : e.column = c
        · subst column
          simp [absent, deleted]
        · simp [column]

theorem applyTo_merge {row : List Entry} (ascending : Sorted.Ascending Entry.column row)
    (a b : Mutation) : (a.merge b).applyTo row = b.applyTo (a.applyTo row) := by
  have once := ascending_applyTo ascending a
  refine Sorted.eq_of_find? (ascending_applyTo ascending _) (ascending_applyTo once b) ?_
  intro c
  rw [find?_applyTo ascending, find?_applyTo once, find?_applyTo ascending, last?_merge]
  have deletions : c ∈ (a.merge b).deletions ↔ c ∈ a.deletions ∨ c ∈ b.deletions :=
    List.mem_append
  by_cases later : c ∈ b.deletions
  · simp [deletions, later]
  · by_cases earlier : c ∈ a.deletions <;> simp [deletions, later, earlier, Option.or_assoc]

theorem applyTo_applyTo {row : List Entry} (ascending : Sorted.Ascending Entry.column row)
    (m : Mutation) : m.applyTo (m.applyTo row) = m.applyTo row := by
  have once := ascending_applyTo ascending m
  refine Sorted.eq_of_find? (ascending_applyTo once m) once ?_
  intro c
  rw [find?_applyTo once, find?_applyTo ascending]
  cases m.last? c <;> by_cases deleted : c ∈ m.deletions <;> simp [deleted]

theorem applyTo_of_isEmpty {m : Mutation} (nothing : m.isEmpty = true) (row : List Entry) :
    m.applyTo row = row := by
  simp only [isEmpty, Bool.and_eq_true, List.isEmpty_iff] at nothing
  simp [applyTo, nothing.1, nothing.2]

/-- A mutation that adds or deletes every column of a row replaces the row. -/
theorem applyTo_of_covers {row : List Entry} (ascending : Sorted.Ascending Entry.column row)
    {m : Mutation} (covers : ∀ e ∈ row, e.column ∈ m.deletions ∨ m.adds e.column = true) :
    m.applyTo row = Entry.listOf m.additions := by
  refine Sorted.eq_of_find? (ascending_applyTo ascending m) (Entry.ascending_listOf _) fun c => ?_
  rw [find?_applyTo ascending, Entry.find?_listOf]
  show (m.last? c).or _ = m.last? c
  cases last : m.last? c with
  | some e => rfl
  | none =>
      rw [Option.none_or]
      split
      · rfl
      · rename_i kept
        cases found : Sorted.find? Entry.column c row with
        | none => rfl
        | some e =>
            obtain ⟨member, same⟩ := Sorted.mem_of_find? found
            obtain rfl := (Entry.compare_column_eq_iff c e).1 same
            rcases covers e member with deleted | added
            · exact absurd deleted kept
            · rw [← last?_isSome, last] at added
              cases added

theorem last?_consolidate (m : Mutation) (c : Bytes) : m.consolidate.last? c = m.last? c := by
  suffices ∀ l : List Entry, ((lastOfEach l).reverse.find? fun e => e.column = c) =
      l.reverse.find? fun e => e.column = c from this m.additions
  intro l
  induction l with
  | nil => rfl
  | cons e rest ih =>
      simp only [lastOfEach, List.reverse_cons, List.find?_append]
      split
      · rename_i again
        rw [ih]
        by_cases column : e.column = c
        · obtain ⟨later, member, same⟩ := List.any_eq_true.1 again
          have found : (rest.reverse.find? fun e => e.column = c).isSome = true := by
            rw [List.find?_isSome]
            exact ⟨later, List.mem_reverse.2 member, by simpa [column] using same⟩
          rw [Option.or_of_isSome found]
        · simp [column]
      · rw [List.reverse_cons, List.find?_append, ih]

theorem mem_firstOfEach (c : Bytes) (l : List Bytes) : c ∈ firstOfEach l ↔ c ∈ l := by
  induction l with
  | nil => rfl
  | cons d rest ih =>
      simp only [firstOfEach, List.mem_cons, List.mem_filter, ih, bne_iff_ne]
      by_cases same : c = d <;> simp [same]

theorem mem_deletions_consolidate (m : Mutation) (c : Bytes) :
    c ∈ m.consolidate.deletions ↔ c ∈ m.deletions ∧ m.adds c = false := by
  simp [consolidate, mem_firstOfEach]

theorem applyTo_consolidate {row : List Entry} (ascending : Sorted.Ascending Entry.column row)
    (m : Mutation) : m.consolidate.applyTo row = m.applyTo row := by
  refine Sorted.eq_of_find? (ascending_applyTo ascending _) (ascending_applyTo ascending _)
    ?_
  intro c
  rw [find?_applyTo ascending, find?_applyTo ascending, last?_consolidate]
  cases last : m.last? c with
  | some e => rfl
  | none =>
      -- Only deletions of columns that are added are dropped, and this one is not added.
      have absent : m.adds c = false := by
        rw [← last?_isSome, last]
        rfl
      simp [mem_deletions_consolidate, absent]

/-- A slice of a changed row needs no more of the row than what lies within its bounds. -/
theorem overlay_unlimited {row : List Entry} (ascending : Sorted.Ascending Entry.column row)
    (m : Mutation) (s : Slice) :
    m.overlay (s.unlimited.apply row) s = s.apply (m.applyTo row) := by
  have endless : s.unlimited.hasLimit = false := bne_self_eq_false noLimit
  have within : s.unlimited.apply row = row.filter fun e => s.contains e.column := by
    unfold Slice.apply
    rw [endless]
    rfl
  have narrow := ascending.filter fun e => s.contains e.column
  have same : (m.applyTo (row.filter fun e => s.contains e.column)).filter
      (fun e => s.contains e.column) = (m.applyTo row).filter fun e => s.contains e.column := by
    refine Sorted.eq_of_find? ((ascending_applyTo narrow m).filter _)
      ((ascending_applyTo ascending m).filter _) ?_
    intro c
    rw [Sorted.find?_filter (ascending_applyTo narrow m),
      Sorted.find?_filter (ascending_applyTo ascending m), find?_applyTo narrow,
      find?_applyTo ascending, Sorted.find?_filter ascending]
    cases m.last? c with
    | some e => rfl
    | none =>
        simp only [Option.none_or]
        split
        · rfl
        · cases Sorted.find? Entry.column c row with
          | none => rfl
          | some e => by_cases inside : s.contains e.column = true <;> simp [Option.filter, inside]
  rw [overlay, within]
  simp only [Slice.apply, same]

/-- Consolidating never empties a mutation that changes something. -/
theorem isEmpty_consolidate (m : Mutation) : m.consolidate.isEmpty = m.isEmpty := by
  rw [Bool.eq_iff_iff]
  simp only [isEmpty, Bool.and_eq_true, List.isEmpty_iff]
  constructor
  · rintro ⟨additions, deletions⟩
    have noAdditions : m.additions = [] := by
      rw [List.eq_nil_iff_forall_not_mem]
      intro e member
      have adds : m.consolidate.adds e.column = true := by
        rw [adds_consolidate]
        exact List.any_eq_true.2 ⟨e, member, by simp⟩
      simp [Mutation.adds, additions] at adds
    refine ⟨noAdditions, ?_⟩
    rw [List.eq_nil_iff_forall_not_mem]
    intro c member
    have kept : c ∈ m.consolidate.deletions :=
      (mem_deletions_consolidate m c).2 ⟨member, by simp [Mutation.adds, noAdditions]⟩
    rw [deletions] at kept
    cases kept
  · rintro ⟨additions, deletions⟩
    simp [consolidate, additions, deletions, lastOfEach, firstOfEach]

end Mutation

namespace Table

/-- What a table of ordered rows is: keys ascend, and every row is kept in order
and holds something. -/
structure Sound (t : Table) : Prop where
  ordered : t.Ordered
  rows : ∀ r ∈ t.rows, Sorted.Ascending Entry.column r.2 ∧ r.2 ≠ []

theorem sound_empty (name : String) : (empty name).Sound :=
  ⟨ordered_empty name, fun _ member => by cases member⟩

theorem Sound.ascending {t : Table} (sound : t.Sound) (key : Bytes) :
    Sorted.Ascending Entry.column (t.row key) := by
  unfold row
  cases found : Sorted.find? Prod.fst key t.rows with
  | none => exact .nil
  | some r => exact (sound.rows r (Sorted.mem_of_find? found).1).1

theorem Sound.readSlice_eq {t : Table} (sound : t.Sound) (q : KeySlice) :
    t.readSlice q = q.slice.apply (t.row q.key) :=
  sliceOf_eq_apply (sound.ascending q.key) q.slice

/-- The rows that a table keeps are those that hold something. -/
theorem Sound.mem_rows_iff {t : Table} (sound : t.Sound) {r : KeyedRow} :
    r ∈ t.rows ↔ r.2 = t.row r.1 ∧ r.2 ≠ [] := by
  constructor
  · intro there
    have found : Sorted.find? Prod.fst r.1 t.rows = some r :=
      Sorted.find?_of_mem sound.ordered there Std.ReflOrd.compare_self
    refine ⟨?_, (sound.rows r there).2⟩
    rw [row, found]
    rfl
  · rintro ⟨same, something⟩
    unfold row at same
    cases found : Sorted.find? Prod.fst r.1 t.rows with
    | none =>
        rw [found] at same
        exact absurd same something
    | some r' =>
        rw [found] at same
        obtain ⟨there, key⟩ := Sorted.mem_of_find? found
        obtain rfl : r' = r := Prod.ext (Std.LawfulEqOrd.eq_of_compare key).symm same.symm
        exact there

/-- A scan finds the rows with a picked key in which the slice finds something. -/
theorem Sound.mem_scan_iff {t : Table} (sound : t.Sound) {slice : Slice} {pick : Bytes → Bool}
    {r : KeyedRow} : r ∈ t.scan slice pick ↔
      pick r.1 = true ∧ r.2 = t.readSlice ⟨r.1, slice⟩ ∧ r.2 ≠ [] := by
  simp only [scan, List.mem_filter, List.mem_map, Bool.not_eq_true', List.isEmpty_eq_false_iff]
  constructor
  · rintro ⟨⟨r', ⟨there, picked⟩, rfl⟩, something⟩
    obtain ⟨same, -⟩ := sound.mem_rows_iff.1 there
    refine ⟨picked, ?_, something⟩
    rw [readSlice, ← same]
  · rintro ⟨picked, same, something⟩
    have held : t.row r.1 ≠ [] := by
      intro nothing
      rw [same, readSlice, nothing, sliceOf_eq_apply .nil] at something
      exact something (by simp [Slice.apply])
    have there : (r.1, t.row r.1) ∈ t.rows := sound.mem_rows_iff.2 ⟨rfl, held⟩
    exact ⟨⟨_, ⟨there, picked⟩, Prod.ext rfl same.symm⟩, something⟩

theorem Sound.ascending_scan {t : Table} (sound : t.Sound) (slice : Slice) (pick : Bytes → Bool) :
    Sorted.Ascending Prod.fst (t.scan slice pick) :=
  List.Pairwise.filter _ (List.pairwise_map.2 (List.Pairwise.filter _ sound.ordered))

theorem sound_setRow {t : Table} (sound : t.Sound) (key : Bytes) {entries : List Entry}
    (ascending : Sorted.Ascending Entry.column entries) : (t.setRow key entries).Sound := by
  refine ⟨ordered_setRow sound.ordered key entries, ?_⟩
  intro r member
  simp only [setRow] at member
  split at member
  · exact sound.rows r (Sorted.mem_of_mem_erase member)
  · rename_i something
    rcases Sorted.mem_insert member with rfl | old
    · exact ⟨ascending, by simpa [List.isEmpty_iff] using something⟩
    · exact sound.rows r old

/-- Deleting columns one after the other leaves the columns that are not among them. -/
theorem foldl_erase_eq_filter {row : List Entry}
    (ascending : Sorted.Ascending Entry.column row) (deletions : List Bytes) :
    deletions.foldl (fun acc c => Sorted.erase Entry.column c acc) row =
      row.filter fun e => !deletions.contains e.column := by
  induction deletions generalizing row with
  | nil => exact (List.filter_eq_self.2 fun _ _ => rfl).symm
  | cons d rest ih =>
      have one : Sorted.erase Entry.column d row = row.filter fun e => !(e.column == d) := by
        refine Sorted.eq_of_find? (ascending.erase d) (ascending.filter _) ?_
        intro c
        rw [Sorted.find?_erase ascending, Sorted.find?_filter ascending]
        cases found : Sorted.find? Entry.column c row with
        | none => simp
        | some e =>
            have column := (Entry.compare_column_eq_iff c e).1 (Sorted.mem_of_find? found).2
            subst column
            by_cases same : e.column = d
            · simp [Option.filter, same, Std.ReflOrd.compare_self]
            · have apart : compare e.column d ≠ .eq := fun eq =>
                same (Std.LawfulEqOrd.eq_of_compare eq)
              simp [Option.filter, same, apart]
      rw [List.foldl_cons, ih (ascending.erase d), one, List.filter_filter]
      congr 1
      funext e
      by_cases same : e.column = d <;> simp [same]

theorem mutate_eq_setRow {t : Table} (sound : t.Sound) (key : Bytes) (m : Mutation) :
    t.mutate key m = t.setRow key (m.applyTo (t.row key)) := by
  simp only [mutate, foldl_erase_eq_filter (sound.ascending key), Mutation.applyTo]

theorem sound_mutate {t : Table} (sound : t.Sound) (key : Bytes) (m : Mutation) :
    (t.mutate key m).Sound := by
  rw [mutate_eq_setRow sound]
  exact sound_setRow sound key (Mutation.ascending_applyTo (sound.ascending key) m)

theorem row_mutate_self {t : Table} (sound : t.Sound) (key : Bytes) (m : Mutation) :
    (t.mutate key m).row key = m.applyTo (t.row key) := by
  rw [mutate_eq_setRow sound, row_setRow sound.ordered, if_pos rfl]

theorem name_mutate (t : Table) (key : Bytes) (m : Mutation) :
    (t.mutate key m).name = t.name := by
  simp only [mutate, setRow]
  split <;> rfl

/-- Rows decide what a table is. -/
theorem eq_of_row {t t' : Table} (sound : t.Sound) (sound' : t'.Sound)
    (name : t.name = t'.name) (same : ∀ key, t.row key = t'.row key) : t = t' := by
  have rows : t.rows = t'.rows := by
    refine Sorted.eq_of_find? sound.ordered sound'.ordered ?_
    intro key
    have row := same key
    simp only [Table.row] at row
    cases found : Sorted.find? Prod.fst key t.rows with
    | none =>
        cases found' : Sorted.find? Prod.fst key t'.rows with
        | none => rfl
        | some r' =>
            rw [found, found'] at row
            exact absurd row.symm (sound'.rows r' (Sorted.mem_of_find? found').1).2
    | some r =>
        cases found' : Sorted.find? Prod.fst key t'.rows with
        | none =>
            rw [found, found'] at row
            exact absurd row (sound.rows r (Sorted.mem_of_find? found).1).2
        | some r' =>
            rw [found, found'] at row
            have first := Std.LawfulEqOrd.eq_of_compare (Sorted.mem_of_find? found).2
            have first' := Std.LawfulEqOrd.eq_of_compare (Sorted.mem_of_find? found').2
            exact congrArg some (Prod.ext (first.symm.trans first') row)
  cases t
  cases t'
  simp_all

end Table

end PropertyGraph
