/-
# Proofs.TomlForms -- tables are read and written as the grammar says

`Toml.library` does with tables what the grammar asks of a library (`standard_library`).

* Reading follows the grammar.  Of each of its forms one thing is shown: the reader takes a
  text of that form, and stops where it ends, whatever may follow there (`wholeNumber_of_spells`,
  `line_of_spans`, `endOfLine_of_trail`).  So the lines of a document are those that the grammar
  gives it (`lines_of_document`), and putting them together gives the tables (`foldlM_tables`).
* Writing makes such a document (`document_writeTables`).

Each expression takes a step of the reader, and all but the last have the end of a line of
their own, so the length of the document is enough for all of them.
-/
import Mathlib.Data.List.DropRight
import Mathlib.Data.List.TakeDrop
import PropertyGraph.Proofs.TomlGrammar
import PropertyGraph.Toml.Reader

namespace PropertyGraph.Toml

set_option autoImplicit false

/-! ## Numbers -/

/-- Nothing follows, or something that can only stand behind a value. -/
def Closed (rest : List Char) : Prop := ∀ c ∈ rest.head?, c ∈ [' ', '\t', '#', '\n', '\r']

theorem digit_spec {d : Nat} (small : d < 10) :
    digitValue 10 (digit d) = some d ∧ (digit d = '0' → d = 0) ∧
      digit d ∉ ['_', '-', '+', 't', 'f', '[', '\x7b', ' ', '\t'] := by
  have all : ∀ d : Fin 10, digitValue 10 (digit d.val) = some d.val ∧
      (digit d.val = '0' → d.val = 0) ∧
      digit d.val ∉ ['_', '-', '+', 't', 'f', '[', '\x7b', ' ', '\t'] := by decide
  exact all ⟨d, small⟩

/-- Nothing that may follow a value is part of a number. -/
theorem digitsFrom_closed {rest : List Char} (closed : Closed rest) :
    digitsFrom 10 rest = ([], rest) := by
  cases rest with
  | nil => rfl
  | cons c tail =>
      have member := closed c rfl
      have none_ : digitValue 10 c = none := by
        have all : [' ', '\t', '#', '\n', '\r'].all (digitValue 10 · == none) = true := by decide
        exact beq_iff_eq.mp (List.all_eq_true.mp all c member)
      rw [digitsFrom]
      · simp only [none_]
      · rintro d more rfl -
        exact absurd member (by decide)

/-- Digits are read up to where they end. -/
theorem digitsFrom_of_behind {s rest : List Char} {ds : List Nat} (digits : Behind s ds)
    (closed : Closed rest) : digitsFrom 10 (s ++ rest) = (ds, rest) := by
  induction digits with
  | nil => exact digitsFrom_closed closed
  | @digit d s ds small more ih =>
      obtain ⟨value, -, apart⟩ := digit_spec small
      rw [List.cons_append, digitsFrom]
      · simp only [value, ih]
      · intro c tail mark
        exact absurd (by simp [mark]) apart
  | @underscore d s ds small more ih =>
      obtain ⟨value, -, -⟩ := digit_spec small
      rw [List.cons_append, List.cons_append, digitsFrom]
      simp only [value, ih]

theorem wholeDigits_of_whole {s rest : List Char} {n : Nat} (whole : Whole s n)
    (closed : Closed rest) :
    (wholeDigits (s ++ rest)).map (fun x => (valueIn 10 x.1, x.2)) = some (n, rest) := by
  cases whole with
  | zero => rfl
  | @digits d s ds positive small more =>
      obtain ⟨value, noZero, -⟩ := digit_spec small
      have later := digitsFrom_of_behind more closed
      rw [List.cons_append, wholeDigits]
      · simp only [digitRun, value, later]
        rfl
      · intro tail same
        have zero := noZero (List.cons.inj same).1
        omega

/-- The first character of a number, and what stands behind a zero. -/
theorem whole_cons {s : List Char} {n : Nat} (whole : Whole s n) :
    ∃ c tail, s = c :: tail ∧ (c = '0' → tail = []) ∧
      c ∉ ['_', '-', '+', 't', 'f', '[', '\x7b', ' ', '\t'] := by
  cases whole with
  | zero => exact ⟨'0', [], rfl, fun _ => rfl, by decide⟩
  | @digits d s ds positive small more =>
      obtain ⟨-, noZero, apart⟩ := digit_spec small
      refine ⟨digit d, s, rfl, fun same => ?_, apart⟩
      have zero := noZero same
      omega

/-- A number without the mark of a base is a decimal. -/
theorem wholeNumber_of_unmarked {s : List Char}
    (unmarked : ∀ c tail, s = '0' :: c :: tail → c ∈ [' ', '\t', '#', '\n', '\r']) :
    wholeNumber s = (decimal s).bind fun x => (bounded x.1).map fun v => (v, x.2) := by
  unfold wholeNumber
  split
  · exact absurd (unmarked _ _ rfl) (by decide)
  · exact absurd (unmarked _ _ rfl) (by decide)
  · exact absurd (unmarked _ _ rfl) (by decide)
  · rcases decimal s with _ | ⟨n, rest⟩
    · rfl
    · simp only [Option.bind_eq_bind, Option.bind_some]
      cases bounded n <;> rfl

/-- The digits of a number behind its sign, if it has one. -/
theorem decimal_of_whole {s t rest : List Char} {n : Nat} {negative : Bool} (whole : Whole s n)
    (closed : Closed rest) (signs : sign t = (negative, s ++ rest)) :
    decimal t = some (signed negative n, rest) := by
  have digits := wholeDigits_of_whole whole closed
  rw [decimal, signs]
  obtain ⟨⟨ds, tail⟩, read, same⟩ := Option.map_eq_some_iff.mp digits
  obtain ⟨value, rfl⟩ := Prod.mk.inj same
  simp only [read, Option.map_some, value]

/-- A whole number is read up to where it ends. -/
theorem wholeNumber_of_spells {s rest : List Char} {n : Int} (spells : Spells s (.int n))
    (closed : Closed rest) : wholeNumber (s ++ rest) = some (.int n, rest) := by
  cases spells with
  | @unsigned _ n whole fits =>
      obtain ⟨c, tail, rfl, zero, apart⟩ := whole_cons whole
      have unmarked : ∀ d more, c :: tail ++ rest = '0' :: d :: more →
          d ∈ [' ', '\t', '#', '\n', '\r'] := by
        intro d more same
        obtain ⟨first, behind⟩ := List.cons.inj same
        rw [zero first] at behind
        exact closed d (by rw [show rest = d :: more from behind]; rfl)
      have signs : sign (c :: tail ++ rest) = (false, c :: tail ++ rest) := by
        rw [List.cons_append, sign]
        · intro more same
          exact apart (by simp [(List.cons.inj same).1])
        · intro more same
          exact apart (by simp [(List.cons.inj same).1])
      have inside : bounded n = some (.int n) := if_pos fits
      rw [wholeNumber_of_unmarked unmarked, decimal_of_whole whole closed signs, Option.bind_some]
      show (bounded n).map _ = _
      rw [inside, Option.map_some]
  | @plus s n whole fits =>
      have inside : bounded n = some (.int n) := if_pos fits
      have signs : sign ('+' :: (s ++ rest)) = (false, s ++ rest) := rfl
      rw [List.cons_append, wholeNumber_of_unmarked (by simp),
        decimal_of_whole whole closed signs, Option.bind_some]
      show (bounded n).map _ = _
      rw [inside, Option.map_some]
  | @minus s n whole fits =>
      have inside : bounded (-n) = some (.int (-n)) := if_pos fits
      have signs : sign ('-' :: (s ++ rest)) = (true, s ++ rest) := rfl
      rw [List.cons_append, wholeNumber_of_unmarked (by simp),
        decimal_of_whole whole closed signs, Option.bind_some]
      show (bounded (-n)).map _ = _
      rw [inside, Option.map_some]

/-! ## Settings -/

theorem spells_int_cons {s : List Char} {n : Int} (spells : Spells s (.int n)) :
    ∃ c tail, s = c :: tail ∧ c ∉ ['t', 'f', '[', '\x7b', ' ', '\t'] := by
  cases spells with
  | unsigned whole fits =>
      obtain ⟨c, tail, shape, -, apart⟩ := whole_cons whole
      exact ⟨c, tail, shape, fun member => apart (by simp_all)⟩
  | plus whole fits => exact ⟨'+', _, rfl, by decide⟩
  | minus whole fits => exact ⟨'-', _, rfl, by decide⟩

theorem plainValue_of_spells {s rest : List Char} {v : Setting} (spells : Spells s v)
    (closed : Closed rest) : plainValue (s ++ rest) = some (v, rest) := by
  cases v with
  | bool b => cases spells <;> rfl
  | int n =>
      obtain ⟨c, tail, rfl, apart⟩ := spells_int_cons spells
      have read := wholeNumber_of_spells spells closed
      rw [List.cons_append] at read ⊢
      rw [plainValue, read]
      · intro more same
        exact apart (by simp [(List.cons.inj same).1])
      · intro more same
        exact apart (by simp [(List.cons.inj same).1])

/-- No setting starts with a bracket, a brace or a blank. -/
theorem spells_cons {s : List Char} {v : Setting} (spells : Spells s v) :
    ∃ c tail, s = c :: tail ∧ c ∉ ['[', '\x7b', ' ', '\t'] := by
  cases v with
  | bool b =>
      cases spells
      · exact ⟨'t', _, rfl, by decide⟩
      · exact ⟨'f', _, rfl, by decide⟩
  | int n =>
      obtain ⟨c, tail, shape, apart⟩ := spells_int_cons spells
      exact ⟨c, tail, shape, fun member => apart (by simp_all)⟩

/-! ## Blanks -/

theorem isBlank_iff {c : Char} : isBlank c = true ↔ c = ' ' ∨ c = '\t' := by
  simp [isBlank]

theorem skipBlank_cons {c : Char} (visible : c ∉ [' ', '\t']) (rest : List Char) :
    skipBlank (c :: rest) = c :: rest := by
  have other : isBlank c = false := by simpa [isBlank] using visible
  rw [skipBlank, List.dropWhile_cons, other]
  rfl

/-- Blanks are passed over. -/
theorem skipBlank_append {s : List Char} (blank : Blank s) (rest : List Char) :
    skipBlank (s ++ rest) = skipBlank rest :=
  List.dropWhile_append_of_pos blank

theorem assigned_of_spells {s rest : List Char} {v : Setting} (spells : Spells s v)
    (closed : Closed rest) : assigned (skipBlank (s ++ rest)) = some (.setting v, rest) := by
  obtain ⟨c, tail, rfl, apart⟩ := spells_cons spells
  have read := plainValue_of_spells spells closed
  have visible : c ∉ [' ', '\t'] := fun member => apart (by simp_all)
  rw [List.cons_append] at read ⊢
  rw [skipBlank_cons visible, assigned, read]
  · rfl
  · intro more same
    exact apart (by simp [(List.cons.inj same).1])
  · intro more same
    exact apart (by simp [(List.cons.inj same).1])

/-! ## Names -/

/-- A bare name is read up to what cannot stand in one. -/
theorem name_of_bare {title rest : List Char} (nonempty : title ≠ [])
    (all : ∀ c ∈ title, isBare c = true) (ends : ∀ c ∈ rest.head?, isBare c = false) :
    name (title ++ rest) = some (String.ofList title, rest) := by
  obtain ⟨first, others, shape⟩ := List.exists_cons_of_ne_nil nonempty
  have front : isBare first = true := all first (by rw [shape]; exact List.mem_cons_self)
  have stops : rest.takeWhile isBare = [] ∧ rest.dropWhile isBare = rest := by
    cases rest with
    | nil => exact ⟨rfl, rfl⟩
    | cons c tail =>
        have other := ends c rfl
        simp [other]
  have span : (title ++ rest).span isBare = (title, rest) := by
    rw [List.span_eq_takeWhile_dropWhile, List.takeWhile_append_of_pos all,
      List.dropWhile_append_of_pos all, stops.1, stops.2, List.append_nil]
  unfold name
  split
  · rename_i same
    rw [shape] at same
    rw [(List.cons.inj same).1] at front
    exact absurd front (by decide)
  · rename_i same
    rw [shape] at same
    rw [(List.cons.inj same).1] at front
    exact absurd front (by decide)
  · rw [span, shape]

/-- A bare name starts with neither a blank nor a bracket, a comment or the end of a line. -/
theorem Bare.cons {title : String} (bare : Bare title) :
    ∃ c tail, title.toList = c :: tail ∧ c ∉ ['[', ' ', '\t', '#', '\n', '\r', '\ufeff'] := by
  obtain ⟨c, tail, shape⟩ := List.exists_cons_of_ne_nil bare.nonempty
  have front : isBare c = true := bare.all c (by rw [shape]; exact List.mem_cons_self)
  refine ⟨c, tail, shape, fun member => ?_⟩
  have never : ['[', ' ', '\t', '#', '\n', '\r', '\ufeff'].any isBare = false := by decide
  rw [List.any_eq_false] at never
  exact never c member front

theorem skipBlank_bare {title : String} (bare : Bare title) (rest : List Char) :
    skipBlank (title.toList ++ rest) = title.toList ++ rest := by
  obtain ⟨c, tail, shape, apart⟩ := bare.cons
  have visible : c ∉ [' ', '\t'] := fun member => apart (by simp_all)
  rw [shape, List.cons_append, skipBlank_cons visible]

/-- A name ends where blanks, or a character that is none of a name, follow. -/
theorem name_bare {title : String} (bare : Bare title) {behind : List Char} (blank : Blank behind)
    {c : Char} (ends : isBare c = false) (rest : List Char) :
    name (title.toList ++ (behind ++ c :: rest)) = some (title, behind ++ c :: rest) := by
  rw [name_of_bare bare.nonempty bare.all, String.ofList_toList]
  cases behind with
  | nil =>
      rintro _ ⟨⟩
      exact ends
  | cons d others =>
      rintro _ ⟨⟩
      rcases isBlank_iff.mp (blank d List.mem_cons_self) with rfl | rfl <;> rfl

/-! ## Lines -/

/-- A heading or an assignment is read up to where it ends. -/
theorem line_of_spans {s rest : List Char} {l : Line} (spans : Spans s l) (closed : Closed rest) :
    line (s ++ rest) = some (l, rest) := by
  cases spans with
  | @heading before behind title blank bare blank' =>
      have shape : '[' :: (before ++ (title.toList ++ (behind ++ [']']))) ++ rest =
          '[' :: (before ++ (title.toList ++ (behind ++ ']' :: rest))) := by simp
      have read := name_bare bare blank' (c := ']') rfl rest
      rw [shape, line, skipBlank_append blank, skipBlank_bare bare]
      simp only [read, Option.bind_eq_bind, Option.bind_some, skipBlank_append blank']
      rfl
  | @assign behind before s key v bare blank blank' spells =>
      obtain ⟨c, tail, front, apart⟩ := bare.cons
      have shape : key.toList ++ (behind ++ '=' :: (before ++ s)) ++ rest =
          key.toList ++ (behind ++ '=' :: (before ++ (s ++ rest))) := by simp
      have parts : path nesting (key.toList ++ (behind ++ '=' :: (before ++ (s ++ rest)))) =
          some ([key], '=' :: (before ++ (s ++ rest))) := by
        have read := name_bare bare blank (c := '=') rfl (before ++ (s ++ rest))
        show path (78 + 1) _ = _
        rw [path, skipBlank_bare bare]
        simp only [read, Option.bind_eq_bind, Option.bind_some, skipBlank_append blank]
        rfl
      have given := assigned_of_spells spells closed
      rw [← skipBlank_append blank'] at given
      rw [shape]
      unfold line
      split
      · rename_i same
        rw [front] at same
        exact absurd (by simp [(List.cons.inj same).1]) apart
      · simp only [parts, Option.bind_eq_bind, Option.bind_some, given]
        rfl

/-- A heading or an assignment starts with no blank, no comment and no end of a line. -/
theorem spans_cons {s : List Char} {l : Line} (spans : Spans s l) :
    ∃ c tail, s = c :: tail ∧ c ∉ [' ', '\t', '#', '\n', '\r', '\ufeff'] := by
  cases spans with
  | heading blank bare blank' => exact ⟨'[', _, rfl, by decide⟩
  | assign bare blank blank' spells =>
      obtain ⟨c, tail, shape, apart⟩ := bare.cons
      rw [shape]
      exact ⟨c, _, rfl, fun member => apart (by simp_all)⟩

theorem endOfLine_eq_none {c : Char} (apart : c ∉ [' ', '\t', '#', '\n', '\r'])
    (tail : List Char) : endOfLine (c :: tail) = none := by
  have visible : c ∉ [' ', '\t'] := fun member => apart (by simp_all)
  have noComment : skipComment (c :: tail) = c :: tail := by
    rw [skipComment]
    intro more same
    exact apart (by simp [(List.cons.inj same).1])
  rw [endOfLine, skipBlank_cons visible, noComment]
  simp only [newline]
  split
  · rename_i same
    exact absurd (by simp [(List.cons.inj same).1]) apart
  · rename_i same
    exact absurd (by simp [(List.cons.inj same).1]) apart
  · rfl

/-- What may follow an expression: nothing, or the end of the line and the rest `rest`. -/
inductive Follows : List Char → List Char → Prop where
  | nothing : Follows [] []
  | ending {e rest : List Char} (ends : Ending e) : Follows (e ++ rest) rest

/-- What follows is neither a blank nor a comment, and is passed over as the end of a line. -/
theorem Follows.spec {tail rest : List Char} (follows : Follows tail rest) :
    tail.dropWhile isVisible = tail ∧ skipComment (skipBlank tail) = tail ∧
      endOfLine tail = some rest := by
  cases follows with
  | nothing => exact ⟨rfl, rfl, rfl⟩
  | ending ends => cases ends <;> exact ⟨rfl, rfl, rfl⟩

theorem endOfLine_of_trail {s tail rest : List Char} (trail : Trail s)
    (follows : Follows tail rest) : endOfLine (s ++ tail) = some rest := by
  obtain ⟨stops, front, ended⟩ := follows.spec
  have same : skipComment (skipBlank (s ++ tail)) = skipComment (skipBlank tail) := by
    cases trail with
    | blank blank => rw [skipBlank_append blank]
    | @comment s text blank visible =>
        have hash : skipBlank ('#' :: text ++ tail) = '#' :: (text ++ tail) :=
          skipBlank_cons (by decide) _
        rw [List.append_assoc, skipBlank_append blank, hash, front]
        show (text ++ tail).dropWhile isVisible = tail
        rw [List.dropWhile_append_of_pos visible, stops]
  rw [endOfLine, same]
  exact ended

theorem closed_of_trail {s tail rest : List Char} (trail : Trail s)
    (follows : Follows tail rest) : Closed (s ++ tail) := by
  have behind : Closed tail := by
    cases follows with
    | nothing => exact nofun
    | ending ends =>
        cases ends <;>
        · rintro _ ⟨⟩
          decide
  have front : ∀ {s t : List Char}, Blank s → Closed t → Closed (s ++ t) := by
    intro s t blank closed
    cases s with
    | nil => exact closed
    | cons c others =>
        rintro _ ⟨⟩
        rcases isBlank_iff.mp (blank c List.mem_cons_self) with rfl | rfl <;> decide
  cases trail with
  | blank blank => exact front blank behind
  | comment blank visible =>
      rw [List.append_assoc]
      refine front blank ?_
      rintro _ ⟨⟩
      decide

/-- One expression takes one step, and leaves what follows behind the end of its line. -/
theorem lines_of_expression {s tail rest : List Char} {ls : List Line}
    (expression : Expression s ls) (follows : Follows tail rest) (more : Nat) :
    lines (more + 1) (s ++ tail) = (lines more rest).map (ls ++ ·) := by
  cases expression with
  | empty trail =>
      have ended := endOfLine_of_trail trail follows
      have same : (lines more rest).map ([] ++ ·) = lines more rest := by simp
      have idle : endOfLine (skipBlank (s ++ tail)) = endOfLine (s ++ tail) := by
        rw [endOfLine, endOfLine, skipBlank, skipBlank, List.dropWhile_idempotent isBlank]
      rw [same, lines]
      cases left : skipBlank (s ++ tail) with
      | nil =>
          -- nothing but blanks is left, so the text ends here
          have done : endOfLine (s ++ tail) = some [] := by
            rw [endOfLine, left]
            rfl
          obtain rfl := Option.some.inj (ended.symm.trans done)
          cases more <;> rfl
      | cons c others =>
          rw [left] at idle
          simp only [idle, ended]
  | @line indent s trail l blank spans behind =>
      obtain ⟨c, others, rfl, apart⟩ := spans_cons spans
      have read := line_of_spans spans (closed_of_trail behind follows)
      have ended := endOfLine_of_trail behind follows
      have visible : c ∉ [' ', '\t'] := fun member => apart (by simp_all)
      have starts : c ∉ [' ', '\t', '#', '\n', '\r'] := fun member => apart (by simp_all)
      have front : skipBlank (indent ++ (c :: others ++ trail) ++ tail) =
          c :: (others ++ (trail ++ tail)) := by
        rw [List.append_assoc, skipBlank_append blank, List.append_assoc, List.cons_append,
          skipBlank_cons visible]
      rw [List.cons_append] at read
      rw [lines, front]
      simp only [endOfLine_eq_none starts, read, ended, Option.bind_eq_bind, Option.bind_some]
      cases lines more rest <;> rfl

theorem lines_nil (steps : Nat) : lines steps [] = some [] := by
  cases steps <;> rfl

/-- The lines of a document are those that the grammar gives it. -/
theorem lines_of_document {s : List Char} {ls : List Line} (document : Document s ls)
    {steps : Nat} (enough : s.length < steps) : lines steps s = some ls := by
  induction document generalizing steps with
  | @last s ls expression =>
      obtain ⟨more, rfl⟩ := Nat.exists_eq_add_one_of_ne_zero (Nat.ne_zero_of_lt enough)
      have read := lines_of_expression expression .nothing more
      rw [List.append_nil, lines_nil, Option.map_some, List.append_nil] at read
      exact read
  | @cons s ending rest ls later expression ends document ih =>
      obtain ⟨more, rfl⟩ := Nat.exists_eq_add_one_of_ne_zero (Nat.ne_zero_of_lt enough)
      have positive : 0 < ending.length := by cases ends <;> decide
      simp only [List.length_append] at enough
      rw [lines_of_expression expression (.ending ends), ih (by omega), Option.map_some]

/-- No document starts with the mark of an encoding. -/
theorem skipMark_of_document {s : List Char} {ls : List Line} (document : Document s ls) :
    skipMark s = s := by
  have blank : ∀ {s : List Char}, Blank s → ∀ t, t.head? ≠ some '\ufeff' →
      (s ++ t).head? ≠ some '\ufeff' := by
    intro s blank t other
    cases s with
    | nil => exact other
    | cons c others =>
        have space := blank c List.mem_cons_self
        rintro ⟨⟩
        exact absurd space (by decide)
  have expression : ∀ {s : List Char} {ls : List Line}, Expression s ls → ∀ t,
      t.head? ≠ some '\ufeff' → (s ++ t).head? ≠ some '\ufeff' := by
    intro s ls expression t other
    cases expression with
    | empty trail =>
        cases trail with
        | blank all => exact blank all t other
        | comment all visible =>
            rw [List.append_assoc]
            exact blank all _ (by simp)
    | line all spans trail =>
        obtain ⟨c, others, rfl, apart⟩ := spans_cons spans
        rw [List.append_assoc]
        refine blank all _ ?_
        rintro ⟨⟩
        exact absurd apart (by decide)
  have first : s.head? ≠ some '\ufeff' := by
    cases document with
    | last only =>
        have alone := expression only [] (by simp)
        rwa [List.append_nil] at alone
    | cons front ends document =>
        refine expression front _ ?_
        cases ends <;>
        · rintro ⟨⟩
  rw [skipMark]
  rintro rest rfl
  exact first rfl

/-! ## Tables -/

theorem change_last {names : List (String × Draft)} {key : String}
    (fresh : names.lookup key = none) (f : Draft → Option Draft) (d : Draft) :
    change key f (names ++ [(key, d)]) = (f d).map fun d => names ++ [(key, d)] := by
  induction names with
  | nil => simp [change]
  | cons first others ih =>
      obtain ⟨other, d'⟩ := first
      rw [List.lookup_cons] at fresh
      by_cases same : key = other
      · simp [same] at fresh
      · have apart : (key == other) = false := by simpa using same
        rw [apart] at fresh
        rw [List.cons_append, change, if_neg (Ne.symm same), ih fresh]
        cases f d <;> rfl

/-- Assignments under a heading fill the table that it opened. -/
theorem foldlM_assigns {names : List (String × Draft)} {title : String}
    (fresh : names.lookup title = none) (given entries : List (String × Setting))
    (once : ((given ++ entries).map Prod.fst).Nodup) :
    (entries.map fun e => Line.assign [e.1] (.setting e.2)).foldlM Drafting.take
        ⟨names ++ [(title, ⟨.table given, false⟩)], some title⟩ =
      some ⟨names ++ [(title, ⟨.table (given ++ entries), false⟩)], some title⟩ := by
  induction entries generalizing given with
  | nil => simp
  | cons e others ih =>
      have absent : (given.any fun g => g.1 == e.1) = false := by
        rw [List.map_append, List.nodup_append] at once
        rw [List.any_eq_false]
        intro g member
        simpa using once.2.2 g.1 (List.mem_map_of_mem member) e.1 (by simp)
      have added : addSetting e.1 (.setting e.2) ⟨.table given, false⟩ =
          some ⟨.table (given ++ [e]), false⟩ := by
        simp [addSetting, absent]
      have shifted : given ++ e :: others = given ++ [e] ++ others := by simp
      rw [shifted] at once ⊢
      rw [List.map_cons, List.foldlM_cons, ← ih _ once]
      simp only [Drafting.take, change_last fresh, added, Option.map_some, Option.bind_eq_bind,
        Option.bind_some]

/-- A table among the names of a document that is read. -/
def drafted (t : NamedTable) : String × Draft := (t.1, ⟨.table t.2, false⟩)

theorem foldlM_tableLines {d : Drafting} {t : NamedTable}
    (fresh : d.names.lookup t.1 = none) (once : (t.2.map Prod.fst).Nodup) :
    (tableLines t).foldlM Drafting.take d = some ⟨d.names ++ [drafted t], some t.1⟩ := by
  have opened : d.take (.heading t.1) =
      some ⟨d.names ++ [(t.1, ⟨.table [], false⟩)], some t.1⟩ := by
    simp [Drafting.take, fresh]
  have filled := foldlM_assigns fresh [] t.2 once
  rw [tableLines, List.foldlM_cons, opened]
  exact filled

/-- Tables of different names are put behind one another. -/
theorem foldlM_tables {tables : List NamedTable}
    (once : ∀ t ∈ tables, (t.2.map Prod.fst).Nodup) {d : Drafting}
    (apart : (d.names.map Prod.fst ++ tables.map Prod.fst).Nodup) :
    ∃ opened, (tables.flatMap tableLines).foldlM Drafting.take d =
      some ⟨d.names ++ tables.map drafted, opened⟩ := by
  induction tables generalizing d with
  | nil => exact ⟨d.opened, by simp⟩
  | cons t others ih =>
      have fresh : d.names.lookup t.1 = none := by
        rw [List.lookup_eq_none_iff]
        intro p member
        rw [List.nodup_append] at apart
        have other := apart.2.2 p.1 (List.mem_map_of_mem member) t.1 (by simp)
        simpa using Ne.symm other
      obtain ⟨opened, later⟩ := ih (fun t member => once t (List.mem_cons_of_mem _ member))
        (d := ⟨d.names ++ [drafted t], some t.1⟩) (by simpa [drafted] using apart)
      refine ⟨opened, ?_⟩
      rw [List.flatMap_cons, List.foldlM_append,
        foldlM_tableLines fresh (once t List.mem_cons_self)]
      simpa using later

/-- Every document of tables is read as these tables, in the order they have there. -/
theorem read?_of_document {text : String} {tables : List NamedTable}
    (document : Document text.toList (tables.flatMap tableLines)) (once : Once tables) :
    read? text = some (tables.map fun t => (t.1, .table t.2)) := by
  obtain ⟨opened, put⟩ := foldlM_tables once.keys (d := ⟨[], none⟩) once.titles
  have found := lines_of_document document (Nat.lt_succ_self text.toList.length)
  rw [read?, skipMark_of_document document]
  simp only [found, put, Option.bind_eq_bind, Option.bind_some]
  simp [drafted]

/-! ## Writing -/

theorem behind_digits {ds : List Nat} (small : ∀ d ∈ ds, d < 10) : Behind (ds.map digit) ds := by
  induction ds with
  | nil => exact .nil
  | cons d others ih =>
      exact .digit (small d List.mem_cons_self) (ih fun d member => small d (.tail _ member))

theorem whole_writeNat (n : Nat) : Whole (writeNat n) n := by
  rcases Nat.eq_zero_or_pos n with rfl | positive
  · exact .zero
  · obtain ⟨d, others, shape⟩ := List.exists_cons_of_ne_nil (Numeral.digitsWithin_ne_nil n n)
    have small : ∀ x ∈ d :: others, x < 10 := fun x member =>
      Numeral.lt_ten_of_mem_digits (n := n) (by rw [Numeral.digits, shape]; exact member)
    have leading := Numeral.head?_digitsWithin (Nat.le_refl n) positive
    have first : 0 < d := by
      refine Nat.pos_of_ne_zero ?_
      rintro rfl
      exact leading (by rw [shape]; rfl)
    have value : Numeral.value (d :: others) = n := by
      rw [← shape]
      exact Numeral.value_digits n
    have whole := Whole.digits first (small d List.mem_cons_self)
      (behind_digits fun x member => small x (.tail _ member))
    rw [value] at whole
    rw [writeNat, Numeral.digits, shape]
    exact whole

theorem spells_writeSetting {v : Setting} (fits : Fits v) : Spells (writeSetting v) v := by
  cases v with
  | bool b => cases b <;> constructor
  | int n =>
      rw [writeSetting]
      split
      · rename_i negative
        have back : n = -(n.natAbs : Int) := by omega
        have spells := Spells.minus (whole_writeNat n.natAbs) (by rw [← back]; exact fits)
        rwa [← back] at spells
      · rename_i positive
        have back : n = (n.natAbs : Int) := by omega
        have spells := Spells.unsigned (whole_writeNat n.natAbs) (by rw [← back]; exact fits)
        rwa [← back] at spells

theorem blank_nil : Blank [] := fun _ member => by cases member

theorem blank_space : Blank [' '] := by
  intro c member
  rw [List.mem_singleton.mp member]
  rfl

/-- A part of a line that is alone on it. -/
theorem Expression.alone {s : List Char} {l : Line} (spans : Spans s l) : Expression s [l] := by
  have line := Expression.line blank_nil spans (.blank blank_nil)
  rwa [List.nil_append, List.append_nil] at line

theorem document_writeLine {e : String × Setting} (bare : Bare e.1) (fits : Fits e.2)
    {rest : List Char} {ls : List Line} (document : Document rest ls) :
    Document (writeLine e ++ rest) (.assign [e.1] (.setting e.2) :: ls) := by
  have spans := Spans.assign bare blank_space blank_space (spells_writeSetting fits)
  have shape : writeLine e ++ rest =
      e.1.toList ++ ([' '] ++ '=' :: ([' '] ++ writeSetting e.2)) ++ (['\n'] ++ rest) := by
    simp [writeLine]
  rw [shape]
  exact .cons (.alone spans) .feed document

theorem document_writeLines {entries : List (String × Setting)} (bare : ∀ e ∈ entries, Bare e.1)
    (fits : ∀ e ∈ entries, Fits e.2) {rest : List Char} {ls : List Line}
    (document : Document rest ls) :
    Document (entries.flatMap writeLine ++ rest)
      ((entries.map fun e => .assign [e.1] (.setting e.2)) ++ ls) := by
  induction entries with
  | nil => exact document
  | cons e others ih =>
      have later := ih (fun e member => bare e (.tail _ member))
        (fun e member => fits e (.tail _ member))
      rw [List.flatMap_cons, List.append_assoc]
      exact document_writeLine (bare e List.mem_cons_self) (fits e List.mem_cons_self) later

theorem document_writeTable {t : NamedTable} (plain : Plain t) (fits : ∀ e ∈ t.2, Fits e.2)
    {rest : List Char} {ls : List Line} (document : Document rest ls) :
    Document (writeTable t.1 t.2 ++ rest) (tableLines t ++ ls) := by
  have spans := Spans.heading blank_nil plain.1 blank_nil
  have shape : writeTable t.1 t.2 ++ rest =
      '[' :: ([] ++ (t.1.toList ++ ([] ++ [']']))) ++
        (['\n'] ++ (t.2.flatMap writeLine ++ rest)) := by
    simp [writeTable]
  have headed := Document.cons (.alone spans) .feed (document_writeLines plain.2 fits document)
  rw [shape]
  exact headed

/-- What is written of tables is a document of them. -/
theorem document_writeTables {tables : List NamedTable} (plain : ∀ t ∈ tables, Plain t)
    (fits : ∀ t ∈ tables, ∀ e ∈ t.2, Fits e.2) :
    Document (writeTables tables) (tables.flatMap tableLines) := by
  have nothing : Expression [] [] := .empty (.blank blank_nil)
  induction tables with
  | nil => exact .last nothing
  | cons t others ih =>
      have first : ∀ {rest : List Char} {ls : List Line}, Document rest ls →
          Document (writeTable t.1 t.2 ++ rest) (tableLines t ++ ls) :=
        document_writeTable (plain t List.mem_cons_self) (fits t List.mem_cons_self)
      have later := ih (fun t member => plain t (.tail _ member))
        (fun t member => fits t (.tail _ member))
      cases others with
      | nil =>
          have last := first (.last nothing)
          rw [List.append_nil] at last
          exact last
      | cons u others =>
          rw [writeTables]
          · exact first (.cons nothing .feed later)
          · exact nofun

/-- The reader and the writer do with tables what the grammar asks of them. -/
theorem standard_library : library.Standard where
  reads document once := ⟨_, .refl _, read?_of_document document once⟩
  writes {tables} plain once fits := by
    refine ⟨_, _, if_pos fits, .refl _, ?_⟩
    rw [String.toList_ofList]
    exact document_writeTables plain fits
  refuses := by
    rintro tables ⟨t, inTables, e, inTable, outside⟩
    exact if_neg fun all => outside (all t inTables e inTable)

end PropertyGraph.Toml
