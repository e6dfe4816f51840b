/-
# Proofs.ValidQueries -- planning a valid query never fails

A query is valid (`VertexQuery.Valid`) if the names that it uses are resolved by the schema,
its values have the types of their keys, and it asks for nothing that planning refuses by
design.  `build_of_valid` says that such a query has a plan, so none of the checks that are
made on the way to its slices can fail.

Each of them is passed for a reason that stands several calls earlier, and the lemmas follow
these reasons:

* the conditions of a valid query are accepted, and every value in the intervals that they
  come to has bytes under its component (`Constraints.Fits`, kept by intersection);
* so every combination of points is planned as slices need it (`Taken.planned`), and
  its slice is made, with a limit that is not zero (`exists_subQuery`);
* the type itself is always a candidate, in each direction that it is read in
  (`stored_of_toward`), and narrowing the category by one name leaves room for the others.
-/
import PropertyGraph.Proofs.Filtering

namespace PropertyGraph

set_option autoImplicit false

open Bytes Column TypeSlice

variable {types : TypeCatalog Outcome}

/-! ## Valid queries -/

/-- A type can be read: it is found by its number, its relation indexes are found with itself
among them, and what these are sorted by are property keys, each once. -/
structure RelationType.Readable (types : TypeCatalog Outcome) (t : RelationType) : Prop where
  listed : types.byId t.id = .ok t
  /-- A restriction is to one direction (`RelationType.restriction`). -/
  oneWay : t.onlyDirection ≠ some .both
  indexes : ∃ own, types.withIndexes t = .ok own ∧ t ∈ own ∧ ∀ c ∈ own, c.sortKey.Nodup ∧
    ∀ key ∈ c.sortKey, ∃ d, types.componentType (.key key) = .ok (some d)

/-- The values that a condition tests against. -/
def Condition.values : Condition → List Value
  | .has _ _ value => value.toList
  | .anyOf _ values => values
  | .labels _ => []

/-- A condition looks for a word. -/
def Condition.isWords : Condition → Bool
  | .has _ predicate _ => predicate.isWords
  | _ => false

/-- A value that a key of some type can be tested against: it has the type, it has a place in
its order, and it is a text where a word is looked for. -/
structure Condition.Suits (condition : Condition) (d : DataType) (v : Value) : Prop where
  typed : v.dataType = some d
  number : ∀ x, v = .double x → x.isNaN = false
  word : condition.isWords = true → d = .text

/-- A condition on a name that the schema does not know, or on a property key that all its
values suit. -/
def Condition.Valid (types : TypeCatalog Outcome) (condition : Condition) : Prop :=
  ∃ name ∈ condition.key, types.byName name = .ok none ∨
    ∃ key d, types.byName name = .ok (some key) ∧ types.byId key.id = .ok key ∧
      key.dataType = some d ∧ ∀ v ∈ condition.values, condition.Suits d v

/-- A query that can be planned for a category. -/
structure VertexQuery.Valid (types : TypeCatalog Outcome) (q : VertexQuery)
    (category : RelationCategory) : Prop where
  /-- Only edges have a vertex at the other end. -/
  adjacent : q.adjacent.isSome = true → category = .edge
  /-- Orders are by property keys and point the same way. -/
  orders : ∃ order, ∀ o ∈ q.orders, o.2 = order ∧
    ∃ key, types.byName o.1 = .ok (some key) ∧ key.isKey = true
  conditions : ∀ condition ∈ q.conditions, condition.Valid types
  /-- Names are of no relation type, or of one that can be read and is of the category. -/
  named : ∀ name ∈ q.types, types.byName name = .ok none ∨
    ∃ t, types.byName name = .ok (some t) ∧ t.Readable types ∧ category.admits t = true
  /-- A query for relations names keys only or labels only. -/
  alike : category = .relation → ∃ isKey, ∀ name ∈ q.types, ∀ t,
    types.byName name = .ok (some t) → t.isKey = isKey

/-! ## Conditions -/

/-- Every value in an interval has bytes under a component. -/
def Interval.Fits (types : TypeCatalog Outcome) (component : SortComponent) : Interval → Prop
  | .points values => ∀ v ∈ values, TypeSlice.Fits types component v
  | .range first last => (∀ b ∈ first, TypeSlice.Fits types component b.value) ∧
      ∀ b ∈ last, TypeSlice.Fits types component b.value

namespace Interval

variable {component : SortComponent}

/-- The tighter of two ends stands at the value of one of them. -/
theorem fits_tighter {side : Ordering} {a b : Option Bound}
    (first : ∀ x ∈ a, TypeSlice.Fits types component x.value)
    (second : ∀ x ∈ b, TypeSlice.Fits types component x.value) :
    ∀ x ∈ Bound.tighter side a b, TypeSlice.Fits types component x.value := by
  cases a with
  | none => cases b <;> exact second
  | some a =>
      cases b with
      | none => exact first
      | some b =>
          simp only [Bound.tighter]
          split_ifs
          · rintro x ⟨rfl⟩
            exact first a rfl
          · exact first
          · exact second

theorem Fits.intersect {a b : Interval} (fits : a.Fits types component)
    (fits' : b.Fits types component) : (a.intersect b).Fits types component := by
  cases a with
  | points values => exact fun v member => fits v (List.mem_filter.mp member).1
  | range first last =>
      cases b with
      | points values => exact fun v member => fits' v (List.mem_filter.mp member).1
      | range first' last' => exact ⟨fits_tighter fits.1 fits'.1, fits_tighter fits.2 fits'.2⟩

theorem fits_ofList {values : List Value} (fits : ∀ v ∈ values, TypeSlice.Fits types component v) :
    (ofList values).Fits types component :=
  fun v member => fits v ((mem_ofList_iff values v).mp member)

theorem fits_ofComparison {c : Comparison} {bound : Value} {i : Interval}
    (fits : TypeSlice.Fits types component bound) (expressible : ofComparison c bound = some i) :
    i.Fits types component := by
  have here : ∀ inclusive, ∀ b ∈ some (Bound.mk bound inclusive),
      TypeSlice.Fits types component b.value := by
    rintro inclusive b ⟨rfl⟩
    exact fits
  have nowhere : ∀ b ∈ (none : Option Bound), TypeSlice.Fits types component b.value :=
    fun _ never => by cases never
  cases c <;> simp only [ofComparison, Option.some.injEq, reduceCtorEq] at expressible <;>
    subst expressible
  case equal => exact fun v member => List.mem_singleton.mp member ▸ fits
  case less => exact ⟨nowhere, here false⟩
  case lessEqual => exact ⟨nowhere, here true⟩
  case greater => exact ⟨here false, nowhere⟩
  case greaterEqual => exact ⟨here true, nowhere⟩

end Interval

namespace Constraints

/-- Every value in the intervals has bytes under its component. -/
def Fits (types : TypeCatalog Outcome) (c : Constraints) : Prop :=
  ∀ said ∈ c.intervals, said.2.Fits types said.1

variable {c : Constraints} {condition : Condition}

theorem Fits.keep {key : SchemaId} {i : Option Interval} (fits : c.Fits types)
    (more : ∀ interval ∈ i, interval.Fits types (.key key)) :
    (c.keep condition key i).Fits types := by
  cases i with
  | none => exact fits
  | some i =>
      intro said member
      obtain rfl | before := mem_replace member
      · show (c.merged (.key key) i).Fits types (.key key)
        unfold merged
        split
        · rename_i before said
          exact (fits _ (mem_of_lookup said)).intersect (more i rfl)
        · exact more i rfl
      · exact fits said before

theorem Fits.toVertex (fits : c.Fits types) (adjacent : Option UInt64) :
    (c.toVertex adjacent).Fits types := by
  cases adjacent with
  | none => exact fits
  | some v =>
      intro said member
      obtain rfl | before := mem_replace member
      · intro w isThis
        obtain rfl := List.mem_singleton.mp isThis
        exact ⟨rfl, fun _ never => by cases never⟩
      · exact fits said before

/-- Values that suit a key have bytes under it. -/
theorem fits_of_suits {key : RelationType} {d : DataType} {v : Value}
    (listed : types.byId key.id = .ok key) (typed : key.dataType = some d)
    (suits : condition.Suits d v) : TypeSlice.Fits types (.key key.id) v where
  typed := by
    rw [suits.typed, TypeCatalog.componentType]
    exact Outcome.bind_eq_ok_iff.mpr ⟨key, listed, by rw [typed]; rfl⟩
  number := suits.number

theorem checkValues_of_suits {t : RelationType} {d : DataType} {predicate : Predicate}
    {values : List Value} (typed : ∀ v ∈ values, v.dataType = some d)
    (words : ∀ v ∈ values, predicate.isWords = true → d = .text) :
    checkValues t d predicate values = .ok () := by
  induction values with
  | nil => rfl
  | cons v rest ih =>
      obtain ⟨here, later⟩ := List.forall_mem_cons.mp typed
      obtain ⟨wordHere, wordsLater⟩ := List.forall_mem_cons.mp words
      have isText : (!predicate.isWords || v.text?.isSome) = true := by
        cases looks : predicate.isWords with
        | false => rfl
        | true =>
            obtain rfl := wordHere looks
            cases v <;> first | rfl | cases here
      refine Outcome.bind_eq_ok_iff.mpr ⟨(), (Fault.unless_eq_ok_iff _ _).mpr ?_, ?_⟩
      · rw [here, beq_self_eq_true]
      · refine Outcome.bind_eq_ok_iff.mpr ⟨(), (Fault.unless_eq_ok_iff _ _).mpr isText, ?_⟩
        exact ih later wordsLater

/-- What a test says of a key stands at the value that it tests against. -/
theorem fits_intervalOf {component : SortComponent} {predicate : Predicate} {value : Option Value}
    (fits : ∀ v ∈ value.toList, TypeSlice.Fits types component v) :
    ∀ i ∈ intervalOf predicate value, i.Fits types component := by
  intro i said
  cases predicate with
  | words w => simp [intervalOf] at said
  | compare comparison =>
      cases value with
      | none => simp [intervalOf] at said
      | some bound => exact Interval.fits_ofComparison (fits bound List.mem_cons_self) said

/-- A valid condition is accepted, and its values have bytes. -/
theorem exists_added (fits : c.Fits types) (valid : condition.Valid types) :
    ∃ answer, addCondition types c condition = .ok answer ∧
      ∀ c', answer = some c' → c'.Fits types := by
  obtain ⟨name, named, valid⟩ := valid
  cases condition with
  | labels allowed => cases named
  | has name' predicate value =>
      obtain rfl := Option.some.inj named
      obtain unknown | ⟨key, d, known, listed, typed, suits⟩ := valid
      · cases holds : holdsOfAbsent predicate value with
        | true =>
            exact ⟨_, (Comes.passes unknown holds).adds c,
              fun c' same => Option.some.inj same ▸ fits⟩
        | false => exact ⟨_, (Comes.fails unknown holds).adds c, fun c' never => by cases never⟩
      · have checked : checkKey key predicate value.toList = .ok () := by
          rw [checkKey, typed]
          exact checkValues_of_suits (fun v member => (suits v member).typed) fun v member =>
            (suits v member).word
        refine ⟨_, (Comes.tests known checked).adds c, fun c' same => ?_⟩
        obtain rfl := Option.some.inj same
        exact fits.keep (fits_intervalOf fun v member =>
          fits_of_suits listed typed (suits v member))
  | anyOf name' values =>
      obtain rfl := Option.some.inj named
      obtain unknown | ⟨key, d, known, listed, typed, suits⟩ := valid
      · exact ⟨_, (Comes.unnamed unknown).adds c, fun c' never => by cases never⟩
      · have checked : checkKey key (.compare .equal) values = .ok () := by
          rw [checkKey, typed]
          exact checkValues_of_suits (fun v member => (suits v member).typed) fun _ _ never => by
            cases never
        cases filled : values.isEmpty with
        | true =>
            obtain rfl := List.isEmpty_iff.mp filled
            exact ⟨_, (Comes.valueless known).adds c, fun c' never => by cases never⟩
        | false =>
            refine ⟨_, (Comes.lists known filled checked).adds c, fun c' same => ?_⟩
            obtain rfl := Option.some.inj same
            refine fits.keep fun i said => ?_
            obtain rfl := Option.some.inj said
            exact Interval.fits_ofList fun v member => fits_of_suits listed typed (suits v member)

theorem exists_allAdded {conditions : List Condition} (fits : c.Fits types)
    (valid : ∀ condition ∈ conditions, condition.Valid types) :
    ∃ answer, addAll types conditions c = .ok answer ∧ ∀ c', answer = some c' → c'.Fits types := by
  induction conditions generalizing c with
  | nil => exact ⟨some c, rfl, fun c' same => Option.some.inj same ▸ fits⟩
  | cons condition rest ih =>
      obtain ⟨here, later⟩ := List.forall_mem_cons.mp valid
      obtain ⟨step, added, fitsStep⟩ := exists_added fits here
      cases step with
      | none =>
          exact ⟨none, Outcome.bind_eq_ok_iff.mpr ⟨none, added, rfl⟩, fun _ never => by cases never⟩
      | some next =>
          obtain ⟨answer, addedLater, fitsAnswer⟩ := ih (fitsStep next rfl) later
          exact ⟨answer, Outcome.bind_eq_ok_iff.mpr ⟨some next, added, addedLater⟩, fitsAnswer⟩

/-- Valid conditions come to an answer, whose values have bytes. -/
theorem exists_compiled {conditions : List Condition} (adjacent : Option UInt64)
    (valid : ∀ condition ∈ conditions, condition.Valid types) :
    ∃ answer, compile types conditions adjacent = .ok answer ∧
      ∀ c, answer = some c → c.Fits types := by
  obtain ⟨answer, added, fits⟩ :=
    exists_allAdded (c := start) (fun _ never => absurd never List.not_mem_nil) valid
  refine ⟨_, Outcome.bind_eq_ok_iff.mpr ⟨answer, added, rfl⟩, fun c same => ?_⟩
  obtain ⟨c', rfl, rfl⟩ := Option.map_eq_some_iff.mp same
  exact (fits c' rfl).toVertex adjacent

/-! ## Combinations -/

variable {adjacent : Option UInt64} {components : List SortComponent}
  {taken : List ComponentInterval}

/-- Ranges are said of property keys only. -/
theorem Reflects.range_key (reflects : c.Reflects types adjacent) {component : SortComponent}
    {first last : Option Bound} (said : c.interval? component = some (.range first last)) :
    ∃ key, component = .key key := by
  cases component with
  | key id => exact ⟨id, rfl⟩
  | adjacent =>
      obtain ⟨v, -, never⟩ := Option.map_eq_some_iff.mp (reflects.otherEnd.symm.trans said)
      cases never
  | relation => cases reflects.noRelation.symm.trans said

/-- Where values have bytes, every combination is planned as slices need it. -/
theorem Taken.planned (reflects : c.Reflects types adjacent) (fits : c.Fits types)
    (filled : ∀ said ∈ c.intervals, said.2.isEmpty = false) (stands : c.Taken components taken) :
    Planned types components taken := by
  induction stands with
  | done => exact .done
  | stop unsaid => exact .done
  | point said member next ih => exact .point (fits _ (mem_of_lookup said) _ member) ih
  | range said =>
      obtain ⟨key, rfl⟩ := reflects.range_key said
      obtain ⟨low, high⟩ := fits _ (mem_of_lookup said)
      exact .range low high (filled _ (mem_of_lookup said))

/-- A combination is about no more components than there are intervals. -/
theorem Taken.length_le (distinct : components.Nodup) (stands : c.Taken components taken) :
    taken.length ≤ c.intervals.length := by
  have most := (stands.subperm distinct).length_le
  rwa [List.length_map, List.length_map] at most

end Constraints

theorem Outcome.exists_mapM {α β : Type} {f : α → Outcome β} {l : List α}
    (each : ∀ a ∈ l, ∃ b, f a = .ok b) : ∃ answers, l.mapM f = .ok answers := by
  induction l with
  | nil => exact ⟨[], rfl⟩
  | cons a rest ih =>
      obtain ⟨⟨b, here⟩, later⟩ := List.forall_mem_cons.mp each
      obtain ⟨bs, answered⟩ := ih later
      refine ⟨b :: bs, ?_⟩
      rw [List.mapM_cons]
      exact Outcome.bind_eq_ok_iff.mpr ⟨b, here, Outcome.bind_eq_ok_iff.mpr ⟨bs, answered, rfl⟩⟩

namespace Plan

/-! ## The slices of a type -/

/-- What is planned for: conditions whose values have bytes and of which something is left,
and more than nothing. -/
structure Frame.Sound (types : TypeCatalog Outcome) (adjacent : Option UInt64) (f : Frame) :
    Prop where
  reflects : f.constraints.Reflects types adjacent
  fits : f.constraints.Fits types
  filled : ∀ said ∈ f.constraints.intervals, said.2.isEmpty = false
  limited : 0 < f.limit

variable {f : Frame} {adjacent : Option UInt64} {t : RelationType} {c : Candidate} {d : Direction}

theorem exists_withLimit (s : Slice) {limit : UInt64} (positive : 0 < limit) :
    ∃ s', s.withLimit limit = .ok s' :=
  ⟨_, dif_pos positive⟩

/-- The slice of a combination is made. -/
theorem exists_subQuery (sound : f.Sound types adjacent)
    (sorted : ∀ key ∈ c.type.sortKey, ∃ d, types.componentType (.key key) = .ok (some d))
    (proper : d.isProper = true) (stored : c.type.isStoredIn d = true)
    {taken : List ComponentInterval}
    (stands : f.constraints.Taken (c.type.extendedSortKey d) taken) :
    ∃ q, subQuery types f c d taken = .ok q := by
  have planned := stands.planned sound.reflects sound.fits sound.filled
  obtain ⟨s, -, -, -, made, -⟩ := slice_led sorted proper stored planned 0
  rw [List.replicate_zero, List.append_nil] at made
  have positive := UInt64.lt_of_lt_of_le sound.limited (f.setting.limits.le_forSlice
    f.setting.modified (f.constraints.intervals.length - taken.length) f.limit)
  obtain ⟨s', limited⟩ := exists_withLimit s positive
  exact ⟨_, Outcome.bind_eq_ok_iff.mpr ⟨s, made, Outcome.bind_eq_ok_iff.mpr ⟨s', limited, rfl⟩⟩⟩

theorem exists_alone {taken : List ComponentInterval}
    (one : ∃ q, subQuery types f c d taken = .ok q) :
    ∃ queries, (do return [← subQuery types f c d taken]) = Except.ok queries := by
  obtain ⟨q, made⟩ := one
  exact ⟨[q], Outcome.bind_eq_ok_iff.mpr ⟨q, made, rfl⟩⟩

/-- A candidate is expanded where the slice of each combination is made. -/
theorem exists_expand {components : List SortComponent} {taken : List ComponentInterval}
    (made : ∀ later, f.constraints.Taken components later →
      ∃ q, subQuery types f c d (taken ++ later) = .ok q) :
    ∃ queries, expand types f c d components taken = .ok queries := by
  induction components generalizing taken with
  | nil =>
      rw [expand, ← List.append_nil taken]
      exact exists_alone (made [] .done)
  | cons component rest ih =>
      rw [expand]
      cases said : f.constraints.interval? component with
      | none =>
          rw [← List.append_nil taken]
          exact exists_alone (made [] (.stop said))
      | some i =>
          cases i with
          | range first last => exact exists_alone (made _ (.range said))
          | points values =>
              have each : ∀ v ∈ values, ∃ queries,
                  expand types f c d rest (taken ++ [⟨component, .point v⟩]) = .ok queries := by
                refine fun v member => ih fun later next => ?_
                rw [List.append_assoc]
                exact made _ (.point said member next)
              obtain ⟨slices, answered⟩ := Outcome.exists_mapM each
              exact ⟨_, Outcome.bind_eq_ok_iff.mpr ⟨slices, answered, rfl⟩⟩

theorem exists_best {candidates : List (Score × Candidate)} (filled : candidates ≠ []) :
    ∃ top, best candidates = some top := by
  cases candidates with
  | nil => exact absurd rfl filled
  | cons first rest => exact ⟨_, rfl⟩

/-- A type is a candidate for itself in every direction that it is stored in. -/
theorem exists_bestCandidate (readable : t.Readable types) (stored : t.isStoredIn d = true) :
    ∃ c, bestCandidate types f t d = .ok c := by
  obtain ⟨own, indexes, inOwn, -⟩ := readable.indexes
  have usable : t ∈ own.filter fun c =>
      c.isStoredIn d && (c.id == t.id || c.status == .enabled) := by
    refine List.mem_filter.mpr ⟨inOwn, ?_⟩
    rw [stored, beq_self_eq_true, Bool.true_or]
    rfl
  have scored := List.ne_nil_of_mem (List.mem_map_of_mem (f := fun c => score f c d) usable)
  obtain ⟨⟨top, c⟩, chosen⟩ := exists_best scored
  refine ⟨c, Outcome.bind_eq_ok_iff.mpr ⟨own, indexes, ?_⟩⟩
  dsimp only
  rw [chosen]
  rfl

theorem exists_planDirections (sound : f.Sound types adjacent) (readable : t.Readable types)
    {directions : List Direction}
    (stored : ∀ d ∈ directions, d.isProper = true ∧ t.isStoredIn d = true) :
    ∃ queries, planDirections types f t directions = .ok queries := by
  induction directions with
  | nil => exact ⟨[], rfl⟩
  | cons d rest ih =>
      obtain ⟨⟨proper, here⟩, elsewhere⟩ := List.forall_mem_cons.mp stored
      obtain ⟨c, found⟩ := exists_bestCandidate (f := f) readable here
      obtain ⟨own, indexes, -, sorted⟩ := readable.indexes
      obtain ⟨usable, -⟩ := bestCandidate_cases found
      obtain ⟨own', indexes', inOwn⟩ := usable.own
      obtain rfl := Except.ok.inj (indexes.symm.trans indexes')
      have each : ∀ later, f.constraints.Taken (c.type.extendedSortKey d) later →
          ∃ q, subQuery types f c d ([] ++ later) = .ok q := fun later stands =>
        exists_subQuery sound (sorted c.type inOwn).2 proper usable.stored stands
      obtain ⟨slices, expanded⟩ := exists_expand each
      obtain ⟨later, planned⟩ := ih elsewhere
      exact ⟨_, Outcome.bind_eq_ok_iff.mpr ⟨c, found, Outcome.bind_eq_ok_iff.mpr ⟨slices, expanded,
        Outcome.bind_eq_ok_iff.mpr ⟨later, planned, rfl⟩⟩⟩⟩

/-- A type is stored in the directions that it is read in. -/
theorem stored_of_toward {d d' x : Direction} (oneWay : t.onlyDirection ≠ some .both)
    (toward : readingDirection t d = some d') (member : x ∈ directionsOf d') :
    x.isProper = true ∧ t.isStoredIn x = true := by
  refine ⟨proper_of_mem_directionsOf member, ?_⟩
  rw [RelationType.isStoredIn]
  rw [readingDirection] at toward
  cases only : t.unidirected with
  | none => rfl
  | some way =>
      have sided : way ≠ .both := by
        rintro rfl
        rw [RelationType.unidirected] at only
        split at only
        · cases only
        · exact oneWay only
      -- Whatever was asked for, the only way is what is read.
      have here : d' = way := by
        rw [only] at toward
        dsimp only at toward
        rw [RelationType.unidirected] at only
        split at toward
        · rename_i key
          rw [if_pos key] at only
          exact (Option.some.inj toward).symm.trans (Option.some.inj only)
        · split at toward
          · exact (Option.some.inj toward).symm
          · cases toward
      rw [here, directionsOf, if_neg sided] at member
      exact beq_iff_eq.mpr (List.mem_singleton.mp member).symm

theorem exists_planType (sound : f.Sound types adjacent) (readable : t.Readable types)
    {d d' : Direction} (toward : readingDirection t d = some d') :
    ∃ queries, planType types f t d' = .ok queries := by
  rw [planType]
  split
  · rename_i whole
    simp only [Bool.and_eq_true, beq_iff_eq] at whole
    obtain ⟨⟨⟨label, rfl⟩, -⟩, -⟩ := whole
    obtain ⟨s, made, -⟩ := slice_both_ways readable.listed label []
    obtain ⟨s', limited⟩ := exists_withLimit s sound.limited
    exact ⟨_, Outcome.bind_eq_ok_iff.mpr ⟨s, made, Outcome.bind_eq_ok_iff.mpr ⟨s', limited, rfl⟩⟩⟩
  · exact exists_planDirections sound readable fun x member =>
      stored_of_toward readable.oneWay toward member

/-! ## All types -/

/-- Narrowing the category by a type leaves room for all types like it. -/
theorem exists_narrowed {category : RelationCategory} (name : String)
    (admitted : category.admits t = true) :
    ∃ narrowed, narrow name t category = .ok narrowed ∧ narrowed ≠ .relation ∧
      ∀ u, category.admits u = true → (category = .relation → u.isKey = t.isKey) →
        narrowed.admits u = true := by
  cases category with
  | edge =>
      have label : t.isKey = false := by
        simpa [RelationCategory.admits, RelationType.isLabel] using admitted
      exact ⟨.edge, by rw [narrow, label]; rfl, by decide, fun u same _ => same⟩
  | property => exact ⟨.property, if_pos admitted, by decide, fun u same _ => same⟩
  | relation =>
      refine ⟨if t.isKey then .property else .edge, rfl, ?_, fun u _ alike => ?_⟩
      · split <;> decide
      · split
        · rename_i key
          exact (alike rfl).trans key
        · rename_i label
          simpa [RelationCategory.admits, RelationType.isLabel, alike rfl] using label

theorem exists_planTypes (sound : f.Sound types adjacent) (d : Direction) {names : List String}
    {p : Progress} (named : ∀ name ∈ names, types.byName name = .ok none ∨
      ∃ t, types.byName name = .ok (some t) ∧ t.Readable types ∧ p.category.admits t = true)
    (alike : p.category = .relation → ∃ isKey, ∀ name ∈ names, ∀ t,
      types.byName name = .ok (some t) → t.isKey = isKey) :
    ∃ p', planTypes types f d names p = .ok p' := by
  induction names generalizing p with
  | nil => exact ⟨p, rfl⟩
  | cons name rest ih =>
      obtain ⟨here, later⟩ := List.forall_mem_cons.mp named
      have alikeLater : p.category = .relation → ∃ isKey, ∀ name ∈ rest, ∀ t,
          types.byName name = .ok (some t) → t.isKey = isKey := fun isRelation =>
        (alike isRelation).imp fun _ same => (List.forall_mem_cons.mp same).2
      rw [planTypes]
      obtain unknown | ⟨t, known, readable, admitted⟩ := here
      · obtain ⟨p', planned⟩ := ih later alikeLater
        exact ⟨p', Outcome.bind_eq_ok_iff.mpr ⟨none, unknown, planned⟩⟩
      · obtain ⟨narrowed, narrows, proper, room⟩ := exists_narrowed name admitted
        have roomLater : ∀ name ∈ rest, types.byName name = .ok none ∨
            ∃ t, types.byName name = .ok (some t) ∧ t.Readable types ∧
              narrowed.admits t = true := by
          intro other member
          refine (later other member).imp_right ?_
          rintro ⟨u, knownU, readableU, admittedU⟩
          refine ⟨u, knownU, readableU, room u admittedU fun isRelation => ?_⟩
          obtain ⟨isKey, same⟩ := alike isRelation
          rw [same other (List.mem_cons_of_mem _ member) u knownU,
            same name List.mem_cons_self t known]
        have onward : ∀ queries, ∃ p', planTypes types f d rest
            ⟨p.types ++ [t.id], narrowed, queries⟩ = .ok p' := fun queries =>
          ih roomLater fun never => absurd never proper
        cases toward : readingDirection t d with
        | none =>
            obtain ⟨p', planned⟩ := onward p.queries
            refine ⟨p', Outcome.bind_eq_ok_iff.mpr ⟨some t, known,
              Outcome.bind_eq_ok_iff.mpr ⟨narrowed, narrows, ?_⟩⟩⟩
            dsimp only
            rw [toward]
            exact planned
        | some d' =>
            obtain ⟨queries, made⟩ := exists_planType sound readable toward
            obtain ⟨p', planned⟩ := onward (p.queries ++ queries)
            refine ⟨p', Outcome.bind_eq_ok_iff.mpr ⟨some t, known,
              Outcome.bind_eq_ok_iff.mpr ⟨narrowed, narrows, ?_⟩⟩⟩
            dsimp only
            rw [toward]
            exact Outcome.bind_eq_ok_iff.mpr ⟨queries, made, planned⟩

theorem exists_resolved {orders : List (String × SortOrder)} {order : SortOrder}
    (valid : ∀ o ∈ orders, o.2 = order ∧
      ∃ key, types.byName o.1 = .ok (some key) ∧ key.isKey = true) :
    ∃ resolved, resolveOrders types orders = .ok resolved ∧ ∀ o ∈ resolved, o.2 = order := by
  induction orders with
  | nil => exact ⟨[], rfl, fun _ never => absurd never List.not_mem_nil⟩
  | cons o rest ih =>
      obtain ⟨⟨way, key, known, isKey⟩, later⟩ := List.forall_mem_cons.mp valid
      obtain ⟨resolved, done, ways⟩ := ih later
      refine ⟨(key.id, o.2) :: resolved, ?_, List.forall_mem_cons.mpr ⟨way, ways⟩⟩
      rw [resolveOrders]
      refine Outcome.bind_eq_ok_iff.mpr ⟨some key, known, ?_⟩
      rw [Option.filter_some, if_pos isKey]
      exact Outcome.bind_eq_ok_iff.mpr ⟨resolved, done, rfl⟩

theorem sameWay_of_snd_eq {orders : List (SchemaId × SortOrder)} {order : SortOrder}
    (ways : ∀ o ∈ orders, o.2 = order) : sameWay orders = true := by
  cases orders with
  | nil => rfl
  | cons first rest =>
      obtain ⟨here, later⟩ := List.forall_mem_cons.mp ways
      refine List.all_eq_true.mpr fun o member => beq_iff_eq.mpr ?_
      rw [later o member, here]

/-- Doubling the limit of a scan leaves more than nothing. -/
theorem scanLimit_pos (category : RelationCategory) (d : Direction) {limit : UInt64}
    (positive : 0 < limit) : 0 < scanLimit category d limit := by
  unfold scanLimit
  split
  · rename_i small
    have bound := small.2.1
    rw [UInt64.lt_iff_toNat_lt] at positive ⊢
    rw [UInt64.toNat_mul]
    change 0 < limit.toNat at positive
    change 0 < limit.toNat * 2 % 2 ^ 64
    have most : limit.toNat < 0x7FFFFFFF / 3 := bound
    omega
  · exact positive

theorem exists_scan (limited : 0 < f.limit) (category : RelationCategory) (d : Direction)
    (adjacent : Option UInt64) : ∃ sub, scan f category d adjacent = .ok sub := by
  have positive := UInt64.lt_of_lt_of_le (scanLimit_pos category d limited)
    (f.setting.limits.le_forSlice f.setting.modified f.constraints.kept.length _)
  obtain ⟨s, limited⟩ := exists_withLimit (TypeSlice.ofCategory category) positive
  exact ⟨_, Outcome.bind_eq_ok_iff.mpr ⟨s, limited, rfl⟩⟩

theorem exists_assembled {q : VertexQuery} {category : RelationCategory}
    (valid : q.Valid types category) (reflects : f.constraints.Reflects types q.adjacent)
    (fits : f.constraints.Fits types) (limited : 0 < f.limit) (d : Direction) :
    ∃ p, assemble types q f category d = .ok p := by
  rw [assemble]
  dsimp only
  split
  · obtain ⟨sub, read⟩ := exists_scan limited category d q.adjacent
    exact ⟨_, Outcome.bind_eq_ok_iff.mpr ⟨sub, read, rfl⟩⟩
  · split
    · exact ⟨_, rfl⟩
    · rename_i none_empty
      have filled : ∀ said ∈ f.constraints.intervals, said.2.isEmpty = false := by
        simpa using none_empty
      obtain ⟨p, planned⟩ := exists_planTypes (p := ⟨[], category, []⟩)
        ⟨reflects, fits, filled, limited⟩ d valid.named valid.alike
      exact ⟨_, Outcome.bind_eq_ok_iff.mpr ⟨p, planned, rfl⟩⟩

/-- Every step of planning a valid query succeeds. -/
theorem exists_built {q : VertexQuery} {category : RelationCategory}
    (valid : q.Valid types category) (s : PlanSetting) : ∃ p, build types s q category = .ok p := by
  have edges : (q.adjacent.isNone || category == .edge) = true := by
    cases asked : q.adjacent with
    | none => rfl
    | some v => rw [valid.adjacent (by rw [asked]; rfl)]; rfl
  have checked := (Fault.unless_eq_ok_iff (.invalid .adjacentWithoutEdges) _).mpr edges
  by_cases limit : q.limit = 0
  · exact ⟨_, Outcome.bind_eq_ok_iff.mpr ⟨(), checked, if_pos limit⟩⟩
  · cases toward : categoryDirection category q.direction with
    | none =>
        refine ⟨nothing category, Outcome.bind_eq_ok_iff.mpr ⟨(), checked, ?_⟩⟩
        rw [if_neg limit, toward]
        rfl
    | some d =>
        obtain ⟨order, orders⟩ := valid.orders
        obtain ⟨resolved, done, ways⟩ := exists_resolved orders
        have alike :=
          (Fault.unless_eq_ok_iff (.invalid .mixedOrders) _).mpr (sameWay_of_snd_eq ways)
        obtain ⟨answer, compiled, fits⟩ := Constraints.exists_compiled q.adjacent valid.conditions
        cases answer with
        | none =>
            refine ⟨nothing category, Outcome.bind_eq_ok_iff.mpr ⟨(), checked, ?_⟩⟩
            rw [if_neg limit, toward]
            exact Outcome.bind_eq_ok_iff.mpr ⟨resolved, done, Outcome.bind_eq_ok_iff.mpr ⟨(), alike,
              Outcome.bind_eq_ok_iff.mpr ⟨none, compiled, rfl⟩⟩⟩
        | some c =>
            obtain ⟨p, assembled⟩ := exists_assembled (f := ⟨s, c, resolved, q.limit⟩) valid
              (Constraints.compiles_of_compile compiled).reflects (fits c rfl)
              (UInt64.pos_iff_ne_zero.mpr limit) d
            refine ⟨p, Outcome.bind_eq_ok_iff.mpr ⟨(), checked, ?_⟩⟩
            rw [if_neg limit, toward]
            exact Outcome.bind_eq_ok_iff.mpr ⟨resolved, done, Outcome.bind_eq_ok_iff.mpr ⟨(), alike,
              Outcome.bind_eq_ok_iff.mpr ⟨some c, compiled, assembled⟩⟩⟩

/-- Planning a valid query never fails, and what is left of the intervals behind a combination
can be counted: whatever conditions come to, no combination that a slice of a named type or of
an index over it is made for is about more components than there are intervals. -/
theorem build_of_valid {q : VertexQuery} {category : RelationCategory}
    (valid : q.Valid types category) (s : PlanSetting) :
    (∃ p, build types s q category = .ok p) ∧
      ∀ name ∈ q.types, ∀ t own, types.byName name = .ok (some t) →
        types.withIndexes t = .ok own → ∀ source ∈ own, ∀ (c : Constraints) d taken,
          c.Taken (source.extendedSortKey d) taken → taken.length ≤ c.intervals.length := by
  refine ⟨exists_built valid s, ?_⟩
  intro name asked t own known indexes source inOwn c d taken stands
  obtain unknown | ⟨t', known', readable, -⟩ := valid.named name asked
  · cases known.symm.trans unknown
  · obtain rfl := Option.some.inj (Except.ok.inj (known.symm.trans known'))
    obtain ⟨own', indexes', -, sorted⟩ := readable.indexes
    obtain rfl := Except.ok.inj (indexes.symm.trans indexes')
    exact stands.length_le (nodup_extendedSortKey (sorted source inOwn).1 d)

theorem readable_network (name : String) {t : RelationType}
    (known : network.byName name = .ok (some t)) (indexes : network.withIndexes t = .ok [t])
    (oneWay : t.onlyDirection ≠ some .both) : t.Readable network where
  listed := (wellFormed_network.named name t known).listed
  oneWay := oneWay
  indexes := by
    refine ⟨[t], indexes, List.mem_singleton_self t, fun c member => ?_⟩
    obtain rfl := List.mem_singleton.mp member
    have wellFormed := wellFormed_network.named name c known
    exact ⟨wellFormed.distinct, wellFormed.keys⟩

/-- Edges either way to the fifth vertex, since ten or later, the latest first. -/
def fifthSinceTenOrLater : VertexQuery :=
  ⟨.both, ["likes", "follows"],
    [.has "since" (.compare .greaterEqual) (some (.long 10)), .has "until" (.compare .equal) none],
    [("since", .desc)], 5, some 5⟩

/-- A query with all that a query can have comes to a slice for each direction. -/
theorem fifth_since_ten_or_later_is_planned :
    fifthSinceTenOrLater.Valid network .edge ∧
      ∃ p, build network unchanged fifthSinceTenOrLater .edge = .ok p ∧ p.queries.length = 2 := by
  have valid : fifthSinceTenOrLater.Valid network .edge := by
    refine ⟨fun _ => rfl, ⟨.desc, ?_⟩, ?_, ?_, fun never => by cases never⟩
    · intro o member
      obtain rfl := List.mem_singleton.mp member
      exact ⟨rfl, since, rfl, rfl⟩
    · refine List.forall_mem_cons.mpr ⟨⟨"since", rfl, .inr ⟨since, .long, rfl, rfl, rfl, ?_⟩⟩,
        List.forall_mem_singleton.mpr ⟨"until", rfl, .inl rfl⟩⟩
      intro v member
      obtain rfl := List.mem_singleton.mp member
      exact ⟨rfl, fun _ never => (by cases never), fun never => (by cases never)⟩
    · exact List.forall_mem_cons.mpr ⟨.inl rfl, List.forall_mem_singleton.mpr
        (.inr ⟨follows, rfl, readable_network "follows" rfl rfl (by decide), rfl⟩)⟩
  obtain ⟨p, planned⟩ := (build_of_valid valid unchanged).1
  refine ⟨valid, p, planned, ?_⟩
  have length :
      (build network unchanged fifthSinceTenOrLater .edge).map (·.queries.length) = .ok 2 := rfl
  rw [planned] at length
  exact Except.ok.inj length

/-- Relations of a key and a label. -/
def sinceAndFollows : VertexQuery := ⟨.both, ["since", "follows"], [], [], 5, none⟩

/-- Each of the names is of a type whose relations are asked for, but behind a key no label is
planned. -/
theorem since_and_follows_are_refused :
    (∀ name ∈ sinceAndFollows.types, ∃ t, network.byName name = .ok (some t) ∧
      t.Readable network ∧ RelationCategory.relation.admits t = true) ∧
    sinceAndFollows.limit ≠ 0 ∧
    build network unchanged sinceAndFollows .relation =
      .error (.invalid (.labelAmongProperties "follows")) := by
  refine ⟨List.forall_mem_cons.mpr ⟨⟨since, rfl, ?_, rfl⟩,
    List.forall_mem_singleton.mpr ⟨follows, rfl, ?_, rfl⟩⟩, by decide, rfl⟩
  · exact readable_network "since" rfl rfl (by decide)
  · exact readable_network "follows" rfl rfl (by decide)

end Plan

end PropertyGraph
