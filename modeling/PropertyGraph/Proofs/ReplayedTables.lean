/-
# Proofs.ReplayedTables -- a table is an ordered map of rows

What a table answers is known from the mutations it was given.  They are replayed on
contents that have neither order nor rows: a deletion empties one column of a key, and an
addition fills one (`Contents.replay`).

* `Table.Holds` ties the two: looking a column up in a row finds what the contents have
  there.  One mutation keeps it (`Holds.mutate`), so a table holds what all of them leave
  (`holds_mutated`).
* A row lists the contents of its key in the order of the columns (`Contents.Lists`), and
  a slice finds something in it exactly when a column between its bounds is filled
  (`Slice.apply_ne_nil_iff`).
* `table_replays` says of every kind of read, and of the number of rows, what they answer
  in terms of the contents.
-/
import Mathlib.Data.Finset.Card
import PropertyGraph.Proofs.Rows
import PropertyGraph.Proofs.SortedLists

namespace PropertyGraph

set_option autoImplicit false

/-- What each column of each key holds. -/
abbrev Contents := Bytes → Bytes → Option Entry

namespace Contents

def vacant : Contents := fun _ _ => none

/-- Fills or empties one column of a key. -/
def set (contents : Contents) (key column : Bytes) (e : Option Entry) : Contents :=
  fun k c => if k = key ∧ c = column then e else contents k c

/-- Empties the deleted columns of a key and then fills the added ones, each in turn. -/
def mutate (contents : Contents) (key : Bytes) (m : Mutation) : Contents :=
  m.additions.foldl (fun contents e => contents.set key e.column (some e))
    (m.deletions.foldl (fun contents c => contents.set key c none) contents)

def replay (mutations : List (Bytes × Mutation)) : Contents :=
  mutations.foldl (fun contents x => contents.mutate x.1 x.2) vacant

/-- The row is the list of what some columns hold, in their order. -/
structure Lists (row : List Entry) (columns : Bytes → Option Entry) : Prop where
  ascending : Sorted.Ascending Entry.column row
  mem_iff : ∀ e, e ∈ row ↔ columns e.column = some e

theorem foldl_delete (contents : Contents) (key : Bytes) (deletions : List Bytes) (k c : Bytes) :
    deletions.foldl (fun contents c => contents.set key c none) contents k c =
      if k = key ∧ c ∈ deletions then none else contents k c := by
  induction deletions generalizing contents with
  | nil => simp
  | cons d rest ih =>
      rw [List.foldl_cons, ih, set]
      by_cases here : k = key <;> by_cases first : c = d <;> simp [here, first]

theorem foldl_add (contents : Contents) (key : Bytes) (additions : List Entry) (k c : Bytes) :
    additions.foldl (fun contents e => contents.set key e.column (some e)) contents k c =
      if k = key then (additions.reverse.find? fun e => e.column = c).or (contents k c)
      else contents k c := by
  induction additions generalizing contents with
  | nil => simp
  | cons e rest ih =>
      rw [List.foldl_cons, ih, List.reverse_cons, List.find?_append, Option.or_assoc, set]
      by_cases here : k = key
      · by_cases first : e.column = c
        · simp [here, first]
        · simp [here, first, Ne.symm first]
      · simp [here]

/-- Of one column the last addition counts, then whether it was deleted. -/
theorem mutate_apply (contents : Contents) (key : Bytes) (m : Mutation) (k c : Bytes) :
    contents.mutate key m k c =
      if k = key then (m.last? c).or (if c ∈ m.deletions then none else contents k c)
      else contents k c := by
  rw [mutate, foldl_add, foldl_delete]
  by_cases here : k = key
  · simp [here, Mutation.last?]
  · simp [here]

end Contents

namespace Table

open Contents

/-- The columns of the rows hold what they have in the contents. -/
structure Holds (t : Table) (contents : Contents) : Prop where
  sound : t.Sound
  find?_eq : ∀ key c, Sorted.find? Entry.column c (t.row key) = contents key c

theorem holds_empty (name : String) : (empty name).Holds vacant :=
  ⟨sound_empty name, fun _ _ => rfl⟩

theorem Holds.mutate {t : Table} {contents : Contents} (holds : t.Holds contents) (key : Bytes)
    (m : Mutation) : (t.mutate key m).Holds (contents.mutate key m) := by
  refine ⟨sound_mutate holds.sound key m, fun k c => ?_⟩
  rw [mutate_apply]
  by_cases here : k = key
  · subst here
    rw [row_mutate_self holds.sound, Mutation.find?_applyTo (holds.sound.ascending k),
      holds.find?_eq, if_pos rfl]
  · rw [row_mutate holds.sound.ordered key k m here, holds.find?_eq, if_neg here]

/-- The table that some mutations make of an empty one. -/
def mutated (name : String) (mutations : List (Bytes × Mutation)) : Table :=
  mutations.foldl (fun t x => t.mutate x.1 x.2) (empty name)

theorem holds_mutated (name : String) (mutations : List (Bytes × Mutation)) :
    (mutated name mutations).Holds (replay mutations) := by
  suffices ∀ (t : Table) (contents : Contents), t.Holds contents →
      (mutations.foldl (fun t x => t.mutate x.1 x.2) t).Holds
        (mutations.foldl (fun contents x => contents.mutate x.1 x.2) contents) from
    this _ _ (holds_empty name)
  induction mutations with
  | nil => exact fun t contents holds => holds
  | cons x rest ih => exact fun t contents holds => ih _ _ (holds.mutate x.1 x.2)

variable {t : Table} {contents : Contents}

theorem Holds.lists (holds : t.Holds contents) (key : Bytes) :
    Lists (t.row key) (contents key) := by
  refine ⟨holds.sound.ascending key, fun e => ?_⟩
  rw [← holds.find?_eq]
  exact (holds.sound.ascending key).mem_iff

theorem Holds.row_ne_nil_iff (holds : t.Holds contents) (key : Bytes) :
    t.row key ≠ [] ↔ ∃ c, contents key c ≠ none := by
  constructor
  · intro something
    obtain ⟨e, member⟩ := List.exists_mem_of_ne_nil _ something
    refine ⟨e.column, ?_⟩
    rw [((holds.lists key).mem_iff e).1 member]
    exact Option.some_ne_none e
  · rintro ⟨c, filled⟩ nothing
    rw [← holds.find?_eq, nothing] at filled
    exact filled rfl

end Table

/-- A slice asks for at least one entry, so it finds one if there is any. -/
theorem Slice.apply_ne_nil_iff (s : Slice) (row : List Entry) :
    s.apply row ≠ [] ↔ ∃ e ∈ row, s.start ≤ e.column ∧ e.column < s.stop := by
  have positive : s.limit.toNat ≠ 0 := by
    have less : (0 : UInt64).toNat < s.limit.toNat := UInt64.lt_iff_toNat_lt.1 s.positive
    exact Nat.ne_of_gt less
  have selected : (row.filter fun e => s.contains e.column) ≠ [] ↔
      ∃ e ∈ row, s.start ≤ e.column ∧ e.column < s.stop := by
    simp [List.filter_eq_nil_iff, Slice.contains]
  rw [← selected, Slice.apply]
  split
  · rw [Ne, List.take_eq_nil_iff]
    simp [positive]
  · exact Iff.rfl

namespace Table

open Contents

variable {t : Table} {contents : Contents}

theorem Holds.readSlice_ne_nil_iff (holds : t.Holds contents) (key : Bytes) (slice : Slice) :
    t.readSlice ⟨key, slice⟩ ≠ [] ↔
      ∃ c, (slice.start ≤ c ∧ c < slice.stop) ∧ contents key c ≠ none := by
  rw [holds.sound.readSlice_eq, Slice.apply_ne_nil_iff]
  constructor
  · rintro ⟨e, member, inside⟩
    refine ⟨e.column, inside, ?_⟩
    rw [((holds.lists key).mem_iff e).1 member]
    exact Option.some_ne_none e
  · rintro ⟨c, inside, filled⟩
    obtain ⟨e, there⟩ := Option.ne_none_iff_exists'.1 filled
    obtain ⟨member, same⟩ := Sorted.mem_of_find? ((holds.find?_eq key c).trans there)
    obtain rfl := (Entry.compare_column_eq_iff c e).1 same
    exact ⟨e, member, inside⟩

/-- As many rows are kept as keys have a filled column. -/
theorem Holds.rowCount_eq (holds : t.Holds contents) : ∃ keys : Finset Bytes,
    (∀ key, key ∈ keys ↔ ∃ c, contents key c ≠ none) ∧ t.rowCount = keys.card := by
  have nodup : (t.rows.map Prod.fst).Nodup := by
    refine List.pairwise_map.2 (holds.sound.ordered.imp ?_)
    intro r r' less same
    rw [same, Std.ReflOrd.compare_self] at less
    cases less
  refine ⟨⟨t.rows.map Prod.fst, nodup⟩, fun key => ?_, (List.length_map _).symm⟩
  rw [← holds.row_ne_nil_iff]
  show key ∈ t.rows.map Prod.fst ↔ _
  simp only [List.mem_map, holds.sound.mem_rows_iff]
  constructor
  · rintro ⟨r, ⟨same, something⟩, rfl⟩
    exact same ▸ something
  · intro something
    exact ⟨(key, t.row key), ⟨rfl, something⟩, rfl⟩

theorem lookup_readSlices (t : Table) (keys : List Bytes) (slice : Slice) (key : Bytes) :
    (t.readSlices keys slice).lookup key =
      if key ∈ keys then some (t.readSlice ⟨key, slice⟩) else none := by
  induction keys with
  | nil => rfl
  | cons k rest ih =>
      rw [readSlices, List.map_cons, List.lookup_cons]
      by_cases here : key = k
      · subst here
        simp [readSlice]
      · have apart : (key == k) = false := by simpa using here
        have later : (t.readSlices rest slice).lookup key = _ := ih
        rw [readSlices] at later
        simp [apart, here, later]

theorem Sound.pairwise_readKeys (sound : t.Sound) (slice : Slice) :
    (t.readKeys slice).Pairwise fun r r' => r.1 < r'.1 :=
  (sound.ascending_scan slice _).imp Bytes.compare_eq_lt_iff.1

theorem readKeyRange_eq_filter (t : Table) (range : KeyRange) :
    t.readKeyRange range = (t.readKeys range.slice).filter fun r =>
      decide (range.first ≤ r.1 ∧ r.1 < range.last) := by
  rw [readKeyRange, readKeys, scan, scan, List.filter_true, List.filter_filter, List.filter_map,
    List.filter_map, List.filter_filter]
  refine congrArg _ (List.filter_congr fun r _ => ?_)
  rw [KeyRange.containsKey, Function.comp_apply, Function.comp_apply, Bool.decide_and,
    Bool.and_comm]

/-- Whatever mutations a table was given, its rows list what replaying them leaves.  A read
of one row, or of several, answers what the slice asks for of the row; there are as many
rows as keys that hold something; a scan answers in ascending order the keys with a filled
column in the slice, each once and with what a read of its row answers; and a scan of a key
range answers those of them that lie in the range. -/
theorem table_replays (name : String) (mutations : List (Bytes × Mutation)) :
    let t := mutated name mutations
    let contents := replay mutations
    (∀ key, ∃ row, Lists row (contents key) ∧
      (∀ slice, t.readSlice ⟨key, slice⟩ = slice.apply row) ∧
      ∀ keys slice, (t.readSlices keys slice).lookup key =
        if key ∈ keys then some (slice.apply row) else none) ∧
    (∃ keys : Finset Bytes, (∀ key, key ∈ keys ↔ ∃ c, contents key c ≠ none) ∧
      t.rowCount = keys.card) ∧
    (∀ slice, ((t.readKeys slice).Pairwise fun r r' => r.1 < r'.1) ∧
      ∀ r, r ∈ t.readKeys slice ↔
        (∃ c, (slice.start ≤ c ∧ c < slice.stop) ∧ contents r.1 c ≠ none) ∧
          r.2 = t.readSlice ⟨r.1, slice⟩) ∧
    ∀ range, t.readKeyRange range = (t.readKeys range.slice).filter fun r =>
      decide (range.first ≤ r.1 ∧ r.1 < range.last) := by
  intro t contents
  have holds : t.Holds contents := holds_mutated name mutations
  refine ⟨fun key => ⟨t.row key, holds.lists key, fun slice => ?_, fun keys slice => ?_⟩,
    holds.rowCount_eq, fun slice => ⟨holds.sound.pairwise_readKeys slice, fun r => ?_⟩,
    t.readKeyRange_eq_filter⟩
  · exact holds.sound.readSlice_eq ⟨key, slice⟩
  · rw [t.lookup_readSlices, holds.sound.readSlice_eq]
  · rw [readKeys, holds.sound.mem_scan_iff, ← holds.readSlice_ne_nil_iff]
    constructor
    · rintro ⟨-, same, something⟩
      exact ⟨same ▸ something, same⟩
    · rintro ⟨something, same⟩
      exact ⟨rfl, same, same ▸ something⟩

end Table

end PropertyGraph
