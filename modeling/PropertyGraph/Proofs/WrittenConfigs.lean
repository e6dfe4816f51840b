/-
# Proofs.WrittenConfigs -- a written configuration is read back

For a library that reads and writes tables of settings as the grammar of TOML has them
(`TomlLibrary.Standard`).  Such a library may put the tables of a configuration, and the
settings of a table, in any order.

* A setting that is given replaces the one of its name, so the settings of a section give it
  back in any order (`Section.ofToml?_of_perm`), and so do the tables of a configuration
  (`Config.give_rearranged`).
* A document has room for whole numbers up to `Toml.greatest` only, so a configuration is
  written exactly if none of its numbers is greater (`Config.fits_tables_iff`).
* What is read is then checked.  The check is named after the first of six settings that is
  zero (`Config.check_eq`).

`written_parses_back` puts the three together.
-/
import Mathlib.Data.List.Nodup
import PropertyGraph.Config
import PropertyGraph.Proofs.TomlForms

namespace PropertyGraph

set_option autoImplicit false

open Toml

theorem Setting.word?_ofWord (v : UInt64) : (Setting.ofWord v).word? = some v := by
  have inside : (0 : Int) ≤ v.toNat ∧ (v.toNat : Int) < 0x10000000000000000 := by
    have := v.toNat_lt
    omega
  simp only [ofWord, word?, if_pos inside, Int.toNat_natCast, UInt64.ofNat_toNat]

theorem Setting.ofWord_inj {v w : UInt64} : Setting.ofWord v = Setting.ofWord w ↔ v = w := by
  refine ⟨fun same => ?_, congrArg _⟩
  have words := congrArg Setting.word? same
  rw [word?_ofWord, word?_ofWord] at words
  exact Option.some.inj words

/-- Steps that may be taken in any order. -/
theorem foldlM_of_perm {α β : Type} {step : β → α → Option β} {l l' : List α} (same : l.Perm l')
    (swaps : ∀ x ∈ l, ∀ y ∈ l, ∀ b, (step b x >>= (step · y)) = (step b y >>= (step · x)))
    (b : β) : l.foldlM step b = l'.foldlM step b := by
  induction same generalizing b with
  | nil => rfl
  | cons x _ ih =>
      rw [List.foldlM_cons, List.foldlM_cons]
      congr 1
      funext b
      exact ih (fun y inRest z inRest' => swaps y (.tail _ inRest) z (.tail _ inRest')) b
  | swap x y l =>
      have first := swaps y List.mem_cons_self x (.tail _ List.mem_cons_self) b
      simp only [List.foldlM_cons, ← bind_assoc]
      rw [first]
  | trans first _ ih ih' =>
      rw [ih swaps, ih']
      exact fun x member y member' =>
        swaps x (first.mem_iff.mpr member) y (first.mem_iff.mpr member')

/-! ## Sections -/

/-- Puts a setting in the place of the one of its name. -/
def Section.replace (e x : String × Setting) : String × Setting := if x.1 = e.1 then e else x

/-- A section is known from its settings, and giving it one replaces that one. -/
class Section.Faithful (α : Type) [Section α] : Prop where
  settings_injective : ∀ s t : α, Section.settings s = Section.settings t → s = t
  once : ∀ s : α, ((Section.settings s).map Prod.fst).Nodup
  give_settings : ∀ s t : α, ∀ e ∈ Section.settings s, ∃ t', Section.give t e.1 e.2 = some t' ∧
    Section.settings t' = (Section.settings t).map (Section.replace e)
  giveAll_settings : ∀ s : α, Section.giveAll (Section.default : α) (Section.settings s) = some s

instance : Section.Faithful CacheSection where
  settings_injective s t same := by
    cases s
    cases t
    simpa [Section.settings, Setting.ofWord_inj] using same
  once s := by simp [Section.settings]
  give_settings s t := by
    simp [Section.settings, Section.give, Section.replace, Setting.bool?, Setting.word?_ofWord]
  giveAll_settings s := by
    simp [Section.giveAll, Section.settings, Section.give, Setting.bool?, Setting.word?_ofWord]

instance : Section.Faithful StorageSection where
  settings_injective s t same := by
    cases s
    cases t
    simpa [Section.settings, Setting.ofWord_inj] using same
  once s := by simp [Section.settings]
  give_settings s t := by
    simp [Section.settings, Section.give, Section.replace, Setting.bool?, Setting.word?_ofWord]
  giveAll_settings s := by
    simp [Section.giveAll, Section.settings, Section.give, Setting.bool?, Setting.word?_ofWord]

instance : Section.Faithful QuerySection where
  settings_injective s t same := by
    cases s
    cases t
    simpa [Section.settings, Setting.ofWord_inj] using same
  once s := by simp [Section.settings]
  give_settings s t := by
    simp [Section.settings, Section.give, Section.replace, Setting.word?_ofWord]
  giveAll_settings s := by
    simp [Section.giveAll, Section.settings, Section.give, Setting.word?_ofWord]

/-- Two settings of a section may be given in either order. -/
theorem Section.give_swaps {α : Type} [Section α] [Section.Faithful α] {s : α}
    {e e' : String × Setting} (member : e ∈ Section.settings s)
    (member' : e' ∈ Section.settings s) (t : α) :
    (Section.give t e.1 e.2 >>= (Section.give · e'.1 e'.2)) =
      (Section.give t e'.1 e'.2 >>= (Section.give · e.1 e.2)) := by
  obtain ⟨one, given, ofOne⟩ := Section.Faithful.give_settings s t e member
  obtain ⟨both, later, ofBoth⟩ := Section.Faithful.give_settings s one e' member'
  obtain ⟨other, given', ofOther⟩ := Section.Faithful.give_settings s t e' member'
  obtain ⟨both', later', ofBoth'⟩ := Section.Faithful.give_settings s other e member
  simp only [given, given', Option.bind_eq_bind, Option.bind_some, later, later']
  refine congrArg some (Section.Faithful.settings_injective _ _ ?_)
  rw [ofBoth, ofOne, ofBoth', ofOther, List.map_map, List.map_map]
  refine congrArg (List.map · _) (funext fun x => ?_)
  simp only [Function.comp_apply, Section.replace]
  by_cases same : e.1 = e'.1
  · obtain rfl := List.inj_on_of_nodup_map (Section.Faithful.once s) member member' same
    rfl
  · by_cases here : x.1 = e.1
    · simp [here, same]
    · by_cases there : x.1 = e'.1 <;> simp [here, there, Ne.symm same]

theorem Section.ofToml?_of_perm {α : Type} [Section α] [Section.Faithful α] {s : α}
    {entries : List (String × Setting)} (same : entries.Perm (Section.settings s)) :
    Section.ofToml? (.table entries) = some s := by
  have given := foldlM_of_perm same.symm
    (fun e member e' member' => Section.give_swaps member member') (Section.default : α)
  exact given.symm.trans (Section.Faithful.giveAll_settings s)

namespace Config

/-! ## Tables -/

/-- The names of all settings. -/
def layout : List (String × List String) := default.tables.map fun t => (t.1, t.2.map Prod.fst)

/-- The names are those of every configuration. -/
theorem layout_tables (c : Config) : (c.tables.map fun t => (t.1, t.2.map Prod.fst)) = layout := rfl

theorem layout_spec : (layout.map Prod.fst).Nodup ∧
    ∀ t ∈ layout, Bare t.1 ∧ (∀ key ∈ t.2, Bare key) ∧ t.2.Nodup := by
  decide

theorem layout_of_mem {c : Config} {t : NamedTable} (member : t ∈ c.tables) :
    Bare t.1 ∧ (∀ key ∈ t.2.map Prod.fst, Bare key) ∧ (t.2.map Prod.fst).Nodup := by
  have inside : (t.1, t.2.map Prod.fst) ∈ layout := by
    rw [← layout_tables c]
    exact List.mem_map_of_mem member
  exact layout_spec.2 _ inside

theorem plain_tables (c : Config) : ∀ t ∈ c.tables, Plain t := by
  intro t member
  obtain ⟨title, keys, -⟩ := layout_of_mem member
  exact ⟨title, fun e there => keys e.1 (List.mem_map_of_mem there)⟩

theorem once_tables (c : Config) : Once c.tables := by
  refine ⟨?_, fun t member => (layout_of_mem member).2.2⟩
  have titles := layout_spec.1
  rwa [← layout_tables c, List.map_map] at titles

/-- Gives a section by its table. -/
def giveTable (d : Config) (t : NamedTable) : Option Config := d.give (t.1, .table t.2)

theorem give_tables (c : Config) : c.tables.foldlM giveTable default = some c := by
  have cache := Section.ofToml?_of_perm (.refl (Section.settings c.cache))
  have storage := Section.ofToml?_of_perm (.refl (Section.settings c.storage))
  have query := Section.ofToml?_of_perm (.refl (Section.settings c.query))
  simp only [tables, Option.bind_eq_bind, Option.bind_some, List.foldlM_cons, List.foldlM_nil,
    giveTable, give, cache, storage, query, Option.map_some]
  rfl

/-- A table is given as well with its settings in another order. -/
theorem giveTable_of_same {c d : Config} {t t' : NamedTable} (member : t ∈ c.tables)
    (same : SameTable t t') : d.giveTable t' = d.giveTable t := by
  obtain ⟨title, settings⟩ := same
  simp only [tables, List.mem_cons, List.not_mem_nil, or_false] at member
  rcases member with rfl | rfl | rfl <;>
    simp only [giveTable, give, title, Section.ofToml?_of_perm settings,
      Section.ofToml?_of_perm (.refl _)]

theorem giveTable_swaps {c : Config} {t t' : NamedTable} (member : t ∈ c.tables)
    (member' : t' ∈ c.tables) (d : Config) :
    (d.giveTable t >>= (giveTable · t')) = (d.giveTable t' >>= (giveTable · t)) := by
  simp only [tables, List.mem_cons, List.not_mem_nil, or_false] at member member'
  rcases member with rfl | rfl | rfl <;> rcases member' with rfl | rfl | rfl <;>
    simp [giveTable, give, Section.ofToml?_of_perm (.refl _)]

/-- The tables of a configuration give it back in any order. -/
theorem give_rearranged {c : Config} {found : List NamedTable}
    (same : Rearranged c.tables found) :
    (found.map fun t => (t.1, Toml.table t.2)).foldlM give default = some c := by
  obtain ⟨middle, perm, alike⟩ := same
  have each : ∀ {l l' : List NamedTable} (d : Config), (∀ t ∈ l, t ∈ c.tables) →
      List.Forall₂ SameTable l l' → l'.foldlM giveTable d = l.foldlM giveTable d := by
    intro l l' d inside alike
    induction alike generalizing d with
    | nil => rfl
    | @cons t t' rest rest' here _ ih =>
        rw [List.foldlM_cons, List.foldlM_cons, giveTable_of_same (inside t List.mem_cons_self) here]
        congr 1
        funext d
        exact ih d fun t member => inside t (.tail _ member)
  calc (found.map fun t => (t.1, Toml.table t.2)).foldlM give default
      = found.foldlM giveTable default := List.foldlM_map ..
    _ = middle.foldlM giveTable default :=
        each default (fun t member => perm.mem_iff.mpr member) alike
    _ = c.tables.foldlM giveTable default :=
        (foldlM_of_perm perm (fun t member t' => giveTable_swaps member) default).symm
    _ = some c := give_tables c

/-! ## Numbers -/

/-- The whole numbers of a configuration. -/
def numbers (c : Config) : List UInt64 :=
  [c.cache.maxBytes, c.cache.cacheTimeMs, c.cache.cleanWaitMs, c.cache.shards,
    c.storage.bufferSize, c.storage.writeAttempts, c.storage.writeWaitMs, c.query.hardLimit,
    c.query.vertexLimit]

theorem fits_ofWord_iff (v : UInt64) : Fits (.ofWord v) ↔ v.toNat ≤ 0x7FFFFFFFFFFFFFFF := by
  rw [Setting.ofWord, Fits, least, greatest]
  omega

theorem fits_bool (b : Bool) : Fits (.bool b) := trivial

/-- A document has room for a configuration if its numbers are small enough. -/
theorem fits_tables_iff (c : Config) :
    (∀ t ∈ c.tables, ∀ e ∈ t.2, Fits e.2) ↔ ∀ n ∈ c.numbers, n.toNat ≤ 0x7FFFFFFFFFFFFFFF := by
  simp only [tables, Section.settings, numbers, List.forall_mem_cons, fits_bool, fits_ofWord_iff,
    List.not_mem_nil, false_implies, implies_true, and_true, true_and, and_assoc]

/-! ## The check -/

/-- The first setting that has to be positive and is zero. -/
def firstZero? (c : Config) : Option String :=
  if c.cache.maxBytes = 0 then some "cache.db_cache_size"
  else if c.cache.shards = 0 then some "cache.shards"
  else if c.storage.bufferSize = 0 then some "storage.buffer_size"
  else if c.storage.writeAttempts = 0 then some "storage.write_attempts"
  else if c.query.hardLimit = 0 then some "query.hard_max_limit"
  else if c.query.vertexLimit = 0 then some "query.vertex_hard_max_limit"
  else none

/-- The check names the first of the six settings that is zero. -/
theorem check_eq (c : Config) :
    c.check = match c.firstZero? with
      | none => .ok ()
      | some name => .error (.config (.notPositive name)) := by
  unfold check
  have found : (c.positives.find? fun s => s.2 == 0).map Prod.fst = c.firstZero? := by
    simp only [positives, List.find?_cons, List.find?_nil, firstZero?, beq_eq_decide]
    split_ifs <;> simp_all
  rw [← found]
  cases c.positives.find? fun s => s.2 == 0 <;> rfl

variable {toml : TomlLibrary}

/-- What is written is read back, before it is checked. -/
theorem read?_written (standard : toml.Standard) {c : Config}
    (small : ∀ n ∈ c.numbers, n.toNat ≤ 0x7FFFFFFFFFFFFFFF) :
    ∃ text, c.toText toml = .ok text ∧ read? toml text = some c := by
  obtain ⟨text, written, wrote, same, document⟩ :=
    standard.writes c.plain_tables c.once_tables ((fits_tables_iff c).mpr small)
  obtain ⟨found, same', parsed⟩ := standard.reads document (same.once c.once_tables)
  refine ⟨text, ?_, ?_⟩
  · rw [toText, wrote]
  · calc read? toml text
        = (toml.read? text).bind fun entries => entries.foldlM give default := rfl
      _ = (found.map fun t => (t.1, Toml.table t.2)).foldlM give default := by
          rw [parsed, Option.bind_some]
      _ = some c := give_rearranged (same.trans same')

/-- A configuration whose numbers a document has room for is written, and what is written reads
as the configuration if it passes the check, and else as the fault of the check.  No other
configuration is written.  The check is passed exactly if none of six settings is zero, and
its fault names the first that is. -/
theorem written_parses_back (standard : toml.Standard) (c : Config) :
    ((∀ n ∈ c.numbers, n.toNat ≤ 0x7FFFFFFFFFFFFFFF) →
      ∃ text, c.toText toml = .ok text ∧ ofText toml text = c.check.map fun _ => c) ∧
    ((∃ n ∈ c.numbers, 0x7FFFFFFFFFFFFFFF < n.toNat) →
      c.toText toml = .error (.config .unwritable)) ∧
    c.check = match c.firstZero? with
      | none => .ok ()
      | some name => .error (.config (.notPositive name)) := by
  refine ⟨fun small => ?_, ?_, check_eq c⟩
  · obtain ⟨text, written, read⟩ := read?_written standard small
    refine ⟨text, written, ?_⟩
    rw [ofText, read]
    cases checked : c.check <;>
    · simp only [checked]
      rfl
  · rintro ⟨n, member, large⟩
    have outside : ∃ t ∈ c.tables, ∃ e ∈ t.2, ¬ Fits e.2 := by
      by_contra none_
      have fits : ∀ t ∈ c.tables, ∀ e ∈ t.2, Fits e.2 := by
        intro t inTables e inTable
        by_contra room
        exact none_ ⟨t, inTables, e, inTable, room⟩
      exact absurd ((fits_tables_iff c).mp fits n member) (Nat.not_le.mpr large)
    rw [toText, standard.refuses outside]

/-- A cache that is to have no shards, and queries that are to find nothing. -/
def unsharded : Config where
  cache := { (Section.default : CacheSection) with shards := 0 }
  storage := Section.default
  query := ⟨0, 0⟩

theorem small_of_all {c : Config}
    (all : (c.numbers.all fun n => n.toNat ≤ 0x7FFFFFFFFFFFFFFF) = true) :
    ∀ n ∈ c.numbers, n.toNat ≤ 0x7FFFFFFFFFFFFFFF := fun n member =>
  of_decide_eq_true (List.all_eq_true.mp all n member)

/-- The defaults are read back; of two settings that are zero, the first is named. -/
theorem unsharded_is_refused : library.Standard ∧
    (∃ text, default.toText library = .ok text ∧ ofText library text = .ok default) ∧
    ∃ text, unsharded.toText library = .ok text ∧
      ofText library text = .error (.config (.notPositive "cache.shards")) := by
  refine ⟨standard_library, ?_, ?_⟩
  · obtain ⟨written, -, checked⟩ := written_parses_back standard_library default
    obtain ⟨text, wrote, read⟩ := written (small_of_all rfl)
    refine ⟨text, wrote, ?_⟩
    rw [read, checked]
    rfl
  · obtain ⟨written, -, checked⟩ := written_parses_back standard_library unsharded
    obtain ⟨text, wrote, read⟩ := written (small_of_all rfl)
    refine ⟨text, wrote, ?_⟩
    rw [read, checked]
    rfl

end Config

end PropertyGraph
