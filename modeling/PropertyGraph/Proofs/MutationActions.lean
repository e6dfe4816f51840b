/-
# Proofs.MutationActions -- mutations as actions on rows

A mutation lists its additions and deletions without the order in which they were issued.
Of a row it is enough to know, for each column, the last addition and whether it is deleted
(`Mutation.find?_applyTo`), and merging and consolidating keep both.

* What merging shows is what the later mutation shows over the whole row that the earlier one
  leaves.  The whole row is shown by every slice that covers it (`Slice.Covers`), and there is
  one (`Slice.exists_covers`).
* Consolidating keeps the last addition of each column (`Mutation.mem_lastOfEach_iff`) and
  says nothing twice (`Mutation.concise_consolidate`).
* A table shows after a mutation what the mutation shows over its row
  (`Table.readSlice_mutate`), and any row is a row of a table (`Table.exists_row`).

`Mutation.acts_on_rows` says this of any two mutations and any row.
-/
import PropertyGraph.Proofs.Rows

namespace PropertyGraph

set_option autoImplicit false

/-! ## Slices of whole rows -/

/-- Columns of finitely many entries have an end. -/
theorem Entry.exists_above (entries : List Entry) :
    ∃ stop : Bytes, ∀ e ∈ entries, e.column < stop := by
  induction entries with
  | nil => exact ⟨[], nofun⟩
  | cons e rest ih =>
      obtain ⟨stop, above⟩ := ih
      by_cases higher : e.column < stop
      · exact ⟨stop, List.forall_mem_cons.mpr ⟨higher, above⟩⟩
      · have further : stop < e.column ++ [0] :=
          List.lt_of_le_of_lt (List.not_lt.mp higher) (Bytes.lt_append_zero _)
        exact ⟨e.column ++ [0], List.forall_mem_cons.mpr
          ⟨Bytes.lt_append_zero _, fun d member => List.lt_trans (above d member) further⟩⟩

namespace Slice

/-- Nothing of a row is left out. -/
structure Covers (wide : Slice) (row : List Entry) : Prop where
  endless : wide.hasLimit = false
  within : ∀ e ∈ row, wide.contains e.column = true

theorem exists_covers (row : List Entry) : ∃ wide : Slice, wide.Covers row := by
  obtain ⟨stop, above⟩ := Entry.exists_above row
  refine ⟨⟨[], stop, noLimit, List.nil_le stop, noLimit_pos⟩, bne_self_eq_false noLimit, ?_⟩
  intro e member
  exact Bool.and_eq_true_iff.mpr
    ⟨decide_eq_true (List.nil_le e.column), decide_eq_true (above e member)⟩

theorem Covers.apply_eq {wide : Slice} {row : List Entry} (covers : wide.Covers row) :
    wide.apply row = row := by
  simp only [apply, covers.endless, Bool.false_eq_true, if_false]
  exact List.filter_eq_self.mpr covers.within

end Slice

/-! ## Consolidated mutations -/

namespace Mutation

/-- Of each column the entry stays that no later one follows. -/
theorem mem_lastOfEach_iff {l : List Entry} {e : Entry} :
    e ∈ lastOfEach l ↔
      ∃ before later, l = before ++ e :: later ∧ ∀ x ∈ later, x.column ≠ e.column := by
  induction l with
  | nil => simp [lastOfEach]
  | cons d rest ih =>
      -- Either the entry stands first, or the place of it lies in the rest.
      have places : (∃ before later, d :: rest = before ++ e :: later ∧
            ∀ x ∈ later, x.column ≠ e.column) ↔
          (d = e ∧ ∀ x ∈ rest, x.column ≠ e.column) ∨ e ∈ lastOfEach rest := by
        rw [ih]
        constructor
        · rintro ⟨_ | ⟨first, before⟩, later, parts, last⟩
          · obtain ⟨rfl, rfl⟩ := List.cons.inj parts
            exact .inl ⟨rfl, last⟩
          · obtain ⟨rfl, rfl⟩ := List.cons.inj parts
            exact .inr ⟨before, later, rfl, last⟩
        · rintro (⟨rfl, last⟩ | ⟨before, later, rfl, last⟩)
          · exact ⟨[], rest, rfl, last⟩
          · exact ⟨d :: before, later, rfl, last⟩
      rw [places, lastOfEach]
      split
      · rename_i again
        obtain ⟨x, member, same⟩ := List.any_eq_true.1 again
        refine ⟨.inr, ?_⟩
        rintro (⟨rfl, last⟩ | inside)
        · exact absurd (eq_of_beq same) (last x member)
        · exact inside
      · rename_i alone
        have last : ∀ x ∈ rest, x.column ≠ d.column := by simpa using alone
        rw [List.mem_cons]
        refine or_congr_left ⟨?_, fun first => first.1.symm⟩
        rintro rfl
        exact ⟨rfl, last⟩

theorem nodup_lastOfEach (l : List Entry) : ((lastOfEach l).map Entry.column).Nodup := by
  induction l with
  | nil => exact List.nodup_nil
  | cons d rest ih =>
      rw [lastOfEach]
      split
      · exact ih
      · rename_i alone
        refine List.nodup_cons.mpr ⟨?_, ih⟩
        intro again
        obtain ⟨x, kept, same⟩ := List.mem_map.1 again
        obtain ⟨before, later, rfl, -⟩ := mem_lastOfEach_iff.1 kept
        exact alone (List.any_eq_true.2 ⟨x, by simp, beq_iff_eq.mpr same⟩)

theorem nodup_firstOfEach (l : List Bytes) : (firstOfEach l).Nodup := by
  induction l with
  | nil => exact List.nodup_nil
  | cons c rest ih =>
      refine List.nodup_cons.mpr ⟨?_, ih.filter _⟩
      simp

/-- A mutation that says one thing of a column at most. -/
structure Concise (m : Mutation) : Prop where
  additions : (m.additions.map Entry.column).Nodup
  deletions : m.deletions.Nodup
  apart : ∀ c ∈ m.deletions, m.adds c = false

theorem concise_consolidate (m : Mutation) : m.consolidate.Concise := by
  refine ⟨nodup_lastOfEach _, nodup_firstOfEach _, ?_⟩
  intro c deleted
  rw [adds_consolidate]
  exact ((mem_deletions_consolidate m c).1 deleted).2

end Mutation

/-! ## Tables -/

namespace Table

/-- A table shows what the mutation shows over its row. -/
theorem readSlice_mutate {t : Table} (sound : t.Sound) (key : Bytes) (m : Mutation) (s : Slice) :
    (t.mutate key m).readSlice ⟨key, s⟩ = m.overlay (t.row key) s := by
  rw [(sound_mutate sound key m).readSlice_eq, row_mutate_self sound]
  rfl

/-- Mutations of one row make a table that is known by what they make of the row. -/
theorem eq_mutate_of_row {t t' : Table} (sound : t.Sound) (sound' : t'.Sound) (key : Bytes)
    (m : Mutation) (name : t'.name = t.name) (row : t'.row key = m.applyTo (t.row key))
    (others : ∀ other, other ≠ key → t'.row other = t.row other) : t' = t.mutate key m := by
  refine eq_of_row sound' (sound_mutate sound key m) (name.trans (name_mutate t key m).symm) ?_
  intro other
  by_cases same : other = key
  · rw [same, row, row_mutate_self sound]
  · rw [others other same, row_mutate sound.ordered _ _ _ same]

/-- One mutation behind the other acts as the merged one. -/
theorem mutate_mutate {t : Table} (sound : t.Sound) (key : Bytes) (a b : Mutation) :
    (t.mutate key a).mutate key b = t.mutate key (a.merge b) := by
  have once := sound_mutate sound key a
  refine eq_mutate_of_row sound (sound_mutate once key b) key _ ?_ ?_ ?_
  · rw [name_mutate, name_mutate]
  · rw [row_mutate_self once, row_mutate_self sound,
      Mutation.applyTo_merge (sound.ascending key)]
  · intro other apart
    rw [row_mutate once.ordered _ _ _ apart, row_mutate sound.ordered _ _ _ apart]

theorem mutate_self {t : Table} (sound : t.Sound) (key : Bytes) (m : Mutation) :
    (t.mutate key m).mutate key m = t.mutate key m := by
  have once := sound_mutate sound key m
  refine eq_mutate_of_row sound (sound_mutate once key m) key m ?_ ?_ ?_
  · rw [name_mutate, name_mutate]
  · rw [row_mutate_self once, row_mutate_self sound, Mutation.applyTo_applyTo (sound.ascending key)]
  · intro other apart
    rw [row_mutate once.ordered _ _ _ apart, row_mutate sound.ordered _ _ _ apart]

theorem exists_row (name : String) (key : Bytes) {row : List Entry}
    (ascending : Sorted.Ascending Entry.column row) :
    ∃ t : Table, t.Sound ∧ t.name = name ∧ t.row key = row := by
  refine ⟨(empty name).setRow key row, sound_setRow (sound_empty name) key ascending, ?_, ?_⟩
  · unfold setRow
    split <;> rfl
  · rw [row_setRow (ordered_empty name), if_pos rfl]

end Table

/-- Of any two mutations and any row in order.

A merged mutation shows what the later one shows over the whole row that the earlier one
leaves, or over as much of it as the bounds of the slice let through.  Consolidating changes
nothing that is shown, says one thing of a column at most, keeps the last addition of each
column and the deletions of the others, and leaves something if there was something.  Every
table with this row shows the same, and there is one.  Doing a thing twice does it once. -/
theorem Mutation.acts_on_rows (a b : Mutation) {row : List Entry}
    (ascending : Sorted.Ascending Entry.column row) :
    (∃ whole : Slice, whole.Covers (a.applyTo row)) ∧
      (∀ whole : Slice, whole.Covers (a.applyTo row) → ∀ s,
        (a.merge b).overlay row s = b.overlay (a.overlay row whole) s ∧
          a.overlay (a.overlay row whole) s = a.overlay row s) ∧
      (∀ s, (a.merge b).overlay row s = b.overlay (a.overlay row s.unlimited) s ∧
        (a.merge a).overlay row s = a.overlay row s ∧
        a.consolidate.overlay row s = a.overlay row s) ∧
      (a.consolidate.Concise ∧
        (∀ e, e ∈ a.consolidate.additions ↔ ∃ before later,
          a.additions = before ++ e :: later ∧ ∀ x ∈ later, x.column ≠ e.column) ∧
        (∀ c, c ∈ a.consolidate.deletions ↔ c ∈ a.deletions ∧ a.adds c = false) ∧
        a.consolidate.isEmpty = a.isEmpty) ∧
      (∀ name key, ∃ t : Table, t.Sound ∧ t.name = name ∧ t.row key = row) ∧
      ∀ t : Table, t.Sound → ∀ key, t.row key = row →
        (∀ s, (t.mutate key a).readSlice ⟨key, s⟩ = a.overlay row s) ∧
          (t.mutate key a).mutate key b = t.mutate key (a.merge b) ∧
          (t.mutate key a).mutate key a = t.mutate key a := by
  have kept := ascending_applyTo ascending a
  refine ⟨Slice.exists_covers _, ?_, ?_, ?_, fun name key => Table.exists_row name key ascending,
    ?_⟩
  · intro whole covers s
    have shown : a.overlay row whole = a.applyTo row := covers.apply_eq
    rw [shown]
    exact ⟨congrArg s.apply (applyTo_merge ascending a b),
      congrArg s.apply (applyTo_applyTo ascending a)⟩
  · intro s
    refine ⟨?_, ?_, congrArg s.apply (applyTo_consolidate ascending a)⟩
    · calc (a.merge b).overlay row s = s.apply (b.applyTo (a.applyTo row)) :=
            congrArg s.apply (applyTo_merge ascending a b)
        _ = b.overlay (a.overlay row s.unlimited) s := (overlay_unlimited kept b s).symm
    · refine congrArg s.apply ((applyTo_merge ascending a a).trans ?_)
      exact applyTo_applyTo ascending a
  · exact ⟨concise_consolidate a, fun e => mem_lastOfEach_iff, mem_deletions_consolidate a,
      isEmpty_consolidate a⟩
  · rintro t sound key rfl
    exact ⟨Table.readSlice_mutate sound key a, Table.mutate_mutate sound key a b,
      Table.mutate_self sound key a⟩

/-- Of three columns the first is deleted and later added again, and the third is added twice
and later deleted. -/
theorem Mutation.acts_on_three_columns :
    let row : List Entry := [⟨[1], [1], none⟩, ⟨[2], [2], none⟩]
    let a : Mutation := ⟨[⟨[3], [3], none⟩, ⟨[3], [4], none⟩], [[1], [3], [1]]⟩
    let b : Mutation := ⟨[⟨[1], [9], none⟩], [[3]]⟩
    let s : Slice := ⟨[0], [9], noLimit, by decide, noLimit_pos⟩
    Sorted.Ascending Entry.column row ∧ s.Covers (a.applyTo row) ∧
      b.overlay (a.overlay row s) s = [⟨[1], [9], none⟩, ⟨[2], [2], none⟩] ∧
      (a.merge b).overlay row s = [⟨[1], [9], none⟩, ⟨[2], [2], none⟩] ∧
      a.consolidate = ⟨[⟨[3], [4], none⟩], [[1]]⟩ ∧ a.consolidate.Concise ∧
      ∃ t : Table, t.Sound ∧ t.row [7] = row ∧
        (t.mutate [7] a).readSlice ⟨[7], s⟩ = [⟨[2], [2], none⟩, ⟨[3], [4], none⟩] := by
  intro row a b s
  have ascending : Sorted.Ascending Entry.column row := by
    unfold Sorted.Ascending
    decide
  have covers : s.Covers (a.applyTo row) := ⟨rfl, by decide⟩
  have shown : b.overlay (a.overlay row s) s = [⟨[1], [9], none⟩, ⟨[2], [2], none⟩] := by decide
  obtain ⟨-, merged, -, ⟨concise, -, -, -⟩, there, shows⟩ := acts_on_rows a b ascending
  obtain ⟨t, sound, -, same⟩ := there "edges" [7]
  refine ⟨ascending, covers, shown, (merged s covers s).1.trans shown, by decide, concise, t,
    sound, same, ?_⟩
  rw [(shows t sound [7] same).1 s]
  decide

end PropertyGraph
