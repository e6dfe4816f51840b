/-
# Proofs.TomlGrammar -- tables of settings in the grammar of TOML

What the grammar of TOML (version 1.0) says of documents that have nothing but tables of truth
values and decimal whole numbers.  A document is a sequence of expressions with the end of a
line between them; an expression is a heading, an assignment or nothing, with blanks around
its parts and perhaps a comment behind them.

* `Document text lines`: the text is a document of these lines.
* `Rearranged`: tables have no order, and neither have the settings of a table.
* `TomlLibrary.Standard` is what a library does with such tables.  It reads every document of
  them, however it is laid out; what it writes is some document of them; and a whole number
  that has no room in 64 bits with a sign is not written.
-/
import Mathlib.Data.List.Perm.Basic
import PropertyGraph.Proofs.Lookups
import PropertyGraph.Toml.Basic

namespace PropertyGraph

set_option autoImplicit false

namespace Toml

/-! ## Values -/

/-- Digits behind the first one, each with or without an underscore before it. -/
inductive Behind : List Char → List Nat → Prop where
  | nil : Behind [] []
  | digit {d : Nat} {s : List Char} {ds : List Nat} (small : d < 10) (more : Behind s ds) :
      Behind (digit d :: s) (d :: ds)
  | underscore {d : Nat} {s : List Char} {ds : List Nat} (small : d < 10) (more : Behind s ds) :
      Behind ('_' :: Toml.digit d :: s) (d :: ds)

/-- A number in base ten without a sign.  Only zero starts with a zero. -/
inductive Whole : List Char → Nat → Prop where
  | zero : Whole ['0'] 0
  | digits {d : Nat} {s : List Char} {ds : List Nat} (positive : 0 < d) (small : d < 10)
      (more : Behind s ds) : Whole (digit d :: s) (Numeral.value (d :: ds))

/-- A text that stands for a setting. -/
inductive Spells : List Char → Setting → Prop where
  | yes : Spells ['t', 'r', 'u', 'e'] (.bool true)
  | no : Spells ['f', 'a', 'l', 's', 'e'] (.bool false)
  | unsigned {s : List Char} {n : Nat} (whole : Whole s n) (fits : Fits (.int n)) :
      Spells s (.int n)
  | plus {s : List Char} {n : Nat} (whole : Whole s n) (fits : Fits (.int n)) :
      Spells ('+' :: s) (.int n)
  | minus {s : List Char} {n : Nat} (whole : Whole s n) (fits : Fits (.int (-n))) :
      Spells ('-' :: s) (.int (-n))

/-! ## Lines -/

/-- Spaces and tabs. -/
def Blank (s : List Char) : Prop := ∀ c ∈ s, isBlank c = true

/-- What may stand behind the last part of a line: blanks, and a comment. -/
inductive Trail : List Char → Prop where
  | blank {s : List Char} (blank : Blank s) : Trail s
  | comment {s text : List Char} (blank : Blank s) (visible : ∀ c ∈ text, isVisible c = true) :
      Trail (s ++ '#' :: text)

/-- A name that needs no quotation marks. -/
structure Bare (name : String) : Prop where
  nonempty : name.toList ≠ []
  all : ∀ c ∈ name.toList, isBare c = true

instance : DecidablePred Bare := fun name =>
  decidable_of_iff (name.toList ≠ [] ∧ name.toList.all isBare = true)
    ⟨fun h => ⟨h.1, List.all_eq_true.mp h.2⟩, fun h => ⟨h.1, List.all_eq_true.mpr h.2⟩⟩

/-- A heading or an assignment, from its first character to its last. -/
inductive Spans : List Char → Line → Prop where
  | heading {before behind : List Char} {title : String} (blank : Blank before) (bare : Bare title)
      (blank' : Blank behind) :
      Spans ('[' :: (before ++ (title.toList ++ (behind ++ [']'])))) (.heading title)
  | assign {behind before s : List Char} {key : String} {v : Setting} (bare : Bare key)
      (blank : Blank behind) (blank' : Blank before) (spells : Spells s v) :
      Spans (key.toList ++ (behind ++ '=' :: (before ++ s))) (.assign [key] (.setting v))

/-- What stands between two ends of lines. -/
inductive Expression : List Char → List Line → Prop where
  | empty {s : List Char} (trail : Trail s) : Expression s []
  | line {indent s trail : List Char} {l : Line} (blank : Blank indent) (spans : Spans s l)
      (rest : Trail trail) : Expression (indent ++ (s ++ trail)) [l]

/-- The end of a line. -/
inductive Ending : List Char → Prop where
  | feed : Ending ['\n']
  | carriage : Ending ['\r', '\n']

/-! ## Documents -/

/-- The text is a document of these lines. -/
inductive Document : List Char → List Line → Prop where
  | last {s : List Char} {ls : List Line} (expression : Expression s ls) : Document s ls
  | cons {s ending rest : List Char} {ls later : List Line} (expression : Expression s ls)
      (ends : Ending ending) (document : Document rest later) :
      Document (s ++ (ending ++ rest)) (ls ++ later)

/-- The lines of a table: a heading and its settings. -/
def tableLines (t : NamedTable) : List Line :=
  .heading t.1 :: t.2.map fun e => .assign [e.1] (.setting e.2)

/-- No table is given twice, and no setting of a table. -/
structure Once (tables : List NamedTable) : Prop where
  titles : (tables.map Prod.fst).Nodup
  keys : ∀ t ∈ tables, (t.2.map Prod.fst).Nodup

/-- The names of a table and of its settings need no quotation marks. -/
def Plain (t : NamedTable) : Prop := Bare t.1 ∧ ∀ e ∈ t.2, Bare e.1

/-- The same settings in any order, under the same name. -/
def SameTable (t t' : NamedTable) : Prop := t'.1 = t.1 ∧ t'.2.Perm t.2

/-- The same tables in any order, each with the same settings in any order. -/
def Rearranged (tables tables' : List NamedTable) : Prop :=
  ∃ middle, tables.Perm middle ∧ List.Forall₂ SameTable middle tables'

section Rearranged

variable {tables tables' tables'' : List NamedTable}

theorem Rearranged.refl (tables : List NamedTable) : Rearranged tables tables :=
  ⟨tables, .refl _, List.forall₂_same.mpr fun _ _ => ⟨rfl, .refl _⟩⟩

theorem SameTable.forall₂_trans {tables tables' tables'' : List NamedTable}
    (first : List.Forall₂ SameTable tables tables')
    (later : List.Forall₂ SameTable tables' tables'') : List.Forall₂ SameTable tables tables'' := by
  induction first generalizing tables'' with
  | nil => exact later
  | cons here _ ih =>
      cases later with
      | cons here' rest =>
          exact .cons ⟨here'.1.trans here.1, here'.2.trans here.2⟩ (ih rest)

theorem Rearranged.trans (first : Rearranged tables tables')
    (later : Rearranged tables' tables'') : Rearranged tables tables'' := by
  obtain ⟨middle, perm, alike⟩ := first
  obtain ⟨middle', perm', alike'⟩ := later
  -- the second rearrangement is carried over the first one's tables
  obtain ⟨other, perm'', alike''⟩ : ∃ other, middle.Perm other ∧
      List.Forall₂ SameTable other middle' := by
    have swapped : Relation.Comp (List.Forall₂ SameTable) List.Perm middle middle' :=
      ⟨tables', alike, perm'⟩
    rwa [List.forall₂_comp_perm_eq_perm_comp_forall₂] at swapped
  exact ⟨other, perm.trans perm'', SameTable.forall₂_trans alike'' alike'⟩

theorem Rearranged.once (same : Rearranged tables tables') (once : Once tables) : Once tables' := by
  obtain ⟨middle, perm, alike⟩ := same
  constructor
  · have titles := (perm.map Prod.fst).nodup_iff.mp once.titles
    rw [List.Nodup, List.pairwise_map] at titles ⊢
    refine pairwise_of_forall₂ alike titles fun t u t' u' here here' apart => ?_
    rw [here.1, here'.1]
    exact apart
  · intro t' member
    obtain ⟨t, inMiddle, -, settings⟩ := exists_left_of_forall₂ alike member
    exact (settings.map Prod.fst).nodup_iff.mpr (once.keys t (perm.mem_iff.mpr inMiddle))

end Rearranged

end Toml

/-- What a library does with tables of truth values and whole numbers.  Each of these is what
the grammar says of one of its functions; they may lay out and order tables as they like. -/
structure TomlLibrary.Standard (toml : TomlLibrary) : Prop where
  /-- Every document of tables is read as these tables. -/
  reads : ∀ {text : String} {tables : List NamedTable},
    Toml.Document text.toList (tables.flatMap Toml.tableLines) → Toml.Once tables →
      ∃ found, Toml.Rearranged tables found ∧
        toml.read? text = some (found.map fun t => (t.1, .table t.2))
  /-- Tables for which there is room are written as some document of them. -/
  writes : ∀ {tables : List NamedTable}, (∀ t ∈ tables, Toml.Plain t) → Toml.Once tables →
    (∀ t ∈ tables, ∀ e ∈ t.2, Toml.Fits e.2) →
      ∃ text written, toml.write? tables = some text ∧ Toml.Rearranged tables written ∧
        Toml.Document text.toList (written.flatMap Toml.tableLines)
  /-- Tables for which there is no room are not written. -/
  refuses : ∀ {tables : List NamedTable},
    (∃ t ∈ tables, ∃ e ∈ t.2, ¬ Toml.Fits e.2) → toml.write? tables = none

end PropertyGraph
