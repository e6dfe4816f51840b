/-
# Proofs.Expansion -- one slice for each combination of points

What a query says of the components of an extended sort key is asked for in several
slices: `Constraints.combinations` lists what each of them asks for, and `expand_eq` says
that the slices are made for just these.

* `Taken` tells a combination from its components.  Where a relation has a value in every
  interval it lies within one of them (`exists_taken`), and what lies within one of them
  has its values in the intervals (`Taken.sound`).
* Making the slice of a combination checks it, so every slice that was made was planned
  for (`Taken.planned`), and selects what it asks for.
* Two combinations part at a point (`pairwise_apart`), and from there on no bytes start
  both ways (`disjoint_of_apart`).
-/
import PropertyGraph.Proofs.Conditions
import PropertyGraph.Proofs.Lookups
import PropertyGraph.Query.Plan
import Mathlib.Data.List.Perm.Subperm

namespace PropertyGraph

set_option autoImplicit false

open Bytes Column TypeSlice

variable {types : TypeCatalog Outcome}

/-- A list of answers, one for each element. -/
theorem Outcome.forall₂_of_mapM {α β : Type} {f : α → Outcome β} {l : List α} {answers : List β}
    (done : l.mapM f = .ok answers) : List.Forall₂ (fun a b => f a = .ok b) l answers := by
  induction l generalizing answers with
  | nil =>
      obtain rfl := Except.ok.inj done
      exact .nil
  | cons a rest ih =>
      simp only [List.mapM_cons, Outcome.bind_eq_ok_iff] at done
      obtain ⟨b, first, bs, later, same⟩ := done
      obtain rfl := Except.ok.inj same
      exact .cons first (ih later)

namespace Constraints

/-- The constraints of the slices over some components, one list for each combination of
points. -/
def combinations (c : Constraints) : List SortComponent → List (List ComponentInterval)
  | [] => [[]]
  | component :: rest =>
      match c.interval? component with
      | none => [[]]
      | some (.points values) =>
          values.flatMap fun v =>
            (c.combinations rest).map fun later => ⟨component, .point v⟩ :: later
      | some i => [[⟨component, i⟩]]

/-- A combination of points of intervals, up to the first component without an interval
or to the first range. -/
inductive Taken (c : Constraints) : List SortComponent → List ComponentInterval → Prop
  | done : Taken c [] []
  | stop {component : SortComponent} {rest : List SortComponent}
      (unsaid : c.interval? component = none) : Taken c (component :: rest) []
  | point {component : SortComponent} {rest : List SortComponent} {values : List Value} {v : Value}
      {later : List ComponentInterval} (said : c.interval? component = some (.points values))
      (member : v ∈ values) (next : Taken c rest later) :
      Taken c (component :: rest) (⟨component, .point v⟩ :: later)
  | range {component : SortComponent} {rest : List SortComponent} {first last : Option Bound}
      (said : c.interval? component = some (.range first last)) :
      Taken c (component :: rest) [⟨component, .range first last⟩]

variable {c : Constraints} {components : List SortComponent} {taken : List ComponentInterval}

theorem Taken.mem_combinations (stands : c.Taken components taken) :
    taken ∈ c.combinations components := by
  induction stands with
  | done => exact List.mem_cons_self
  | stop unsaid =>
      rw [combinations, unsaid]
      exact List.mem_cons_self
  | point said member next ih =>
      rw [combinations, said]
      exact List.mem_flatMap.mpr ⟨_, member, List.mem_map_of_mem ih⟩
  | range said =>
      rw [combinations, said]
      exact List.mem_cons_self

theorem taken_of_mem_combinations (member : taken ∈ c.combinations components) :
    c.Taken components taken := by
  induction components generalizing taken with
  | nil =>
      obtain rfl := List.mem_singleton.mp member
      exact .done
  | cons component rest ih =>
      rw [combinations] at member
      split at member
      · rename_i unsaid
        obtain rfl := List.mem_singleton.mp member
        exact .stop unsaid
      · rename_i values said
        obtain ⟨v, inValues, inLater⟩ := List.mem_flatMap.mp member
        obtain ⟨later, next, rfl⟩ := List.mem_map.mp inLater
        exact .point said inValues (ih next)
      · rename_i i listed said
        obtain rfl := List.mem_singleton.mp member
        cases i with
        | points values => exact absurd rfl (listed values)
        | range first last => exact .range said

/-- Whatever has a value in the interval of each component lies within a combination. -/
theorem exists_taken (t : RelationType) (r : Relation)
    (inside : ∀ component ∈ components, ∀ i, c.interval? component = some i →
      ∃ v, r.component t component = some v ∧ i.contains v = true) :
    ∃ taken, c.Taken components taken ∧ ∀ x ∈ taken, Within t r x := by
  induction components with
  | nil => exact ⟨[], .done, fun x member => absurd member List.not_mem_nil⟩
  | cons component rest ih =>
      obtain ⟨later, next, within⟩ := ih fun other member =>
        inside other (List.mem_cons_of_mem _ member)
      cases said : c.interval? component with
      | none => exact ⟨[], .stop said, fun x member => absurd member List.not_mem_nil⟩
      | some i =>
          obtain ⟨v, has, contained⟩ := inside component List.mem_cons_self i said
          cases i with
          | points values =>
              have member : v ∈ values := List.contains_iff_mem.mp contained
              refine ⟨_, .point said member next, List.forall_mem_cons.mpr ⟨⟨v, has, ?_⟩, within⟩⟩
              exact List.contains_iff_mem.mpr List.mem_cons_self
          | range first last =>
              refine ⟨_, .range said, List.forall_mem_cons.mpr ⟨⟨v, has, contained⟩, ?_⟩⟩
              exact fun x member => absurd member List.not_mem_nil

/-- What a combination asks of a component, the interval of the component asks too. -/
theorem Taken.sound (stands : c.Taken components taken) {x : ComponentInterval}
    (member : x ∈ taken) :
    ∃ i, c.interval? x.component = some i ∧
      ∀ v, x.interval.contains v = true → i.contains v = true := by
  induction stands with
  | done => cases member
  | stop unsaid => cases member
  | @point component rest values v later said inValues next ih =>
      obtain rfl | inLater := List.mem_cons.mp member
      · refine ⟨_, said, fun w contained => ?_⟩
        obtain rfl := List.mem_singleton.mp (List.contains_iff_mem.mp contained)
        exact List.contains_iff_mem.mpr inValues
      · exact ih inLater
  | range said =>
      obtain rfl := List.mem_singleton.mp member
      exact ⟨_, said, fun w contained => contained⟩

/-- A combination is about the first of the components. -/
theorem Taken.prefix_components (stands : c.Taken components taken) :
    taken.map ComponentInterval.component <+: components := by
  induction stands with
  | done => exact List.nil_prefix
  | stop unsaid => exact List.nil_prefix
  | point said inValues next ih => exact (List.prefix_cons_inj _).mpr ih
  | range said => exact (List.prefix_cons_inj _).mpr List.nil_prefix

/-- A combination is about components with intervals, each once. -/
theorem Taken.subperm (stands : c.Taken components taken) (distinct : components.Nodup) :
    (taken.map ComponentInterval.component).Subperm (c.intervals.map Prod.fst) := by
  have once : (taken.map ComponentInterval.component).Nodup :=
    distinct.sublist stands.prefix_components.sublist
  refine once.subperm fun component member => ?_
  obtain ⟨x, inTaken, rfl⟩ := List.mem_map.mp member
  obtain ⟨i, found, -⟩ := stands.sound inTaken
  exact List.mem_map.mpr ⟨_, mem_of_lookup found, rfl⟩

/-- A combination that is as long as the list of intervals is about all of them. -/
theorem Taken.mem_of_length_eq (stands : c.Taken components taken) (distinct : components.Nodup)
    (whole : taken.length = c.intervals.length) {component : SortComponent} {i : Interval}
    (said : c.interval? component = some i) : ∃ x ∈ taken, x.component = component := by
  have same := (stands.subperm distinct).perm_of_length_le (by simp [whole])
  have member : component ∈ c.intervals.map Prod.fst :=
    List.mem_map.mpr ⟨_, mem_of_lookup said, rfl⟩
  exact List.mem_map.mp (same.mem_iff.mpr member)

/-- Two combinations with one part in common, and a different point behind it. -/
inductive Apart : List ComponentInterval → List ComponentInterval → Prop
  | here {component : SortComponent} {v w : Value} {first second : List ComponentInterval}
      (differ : v ≠ w) : Apart (⟨component, .point v⟩ :: first) (⟨component, .point w⟩ :: second)
  | later {component : SortComponent} {v : Value} {first second : List ComponentInterval}
      (next : Apart first second) :
      Apart (⟨component, .point v⟩ :: first) (⟨component, .point v⟩ :: second)

/-- The combinations of points that are listed once each are apart. -/
theorem pairwise_apart (distinct : ∀ p ∈ c.intervals, p.2.Distinct)
    (components : List SortComponent) : (c.combinations components).Pairwise Apart := by
  induction components with
  | nil => exact List.pairwise_singleton _ _
  | cons component rest ih =>
      rw [combinations]
      cases said : c.interval? component with
      | none => exact List.pairwise_singleton _ _
      | some i =>
          cases i with
          | range first last => exact List.pairwise_singleton _ _
          | points values =>
              have once : values.Nodup := distinct _ (mem_of_lookup said)
              rw [List.pairwise_flatMap]
              refine ⟨fun v _ => ?_, ?_⟩
              · exact List.pairwise_map.mpr (ih.imp .later)
              · refine once.imp ?_
                intro v w differ x inFirst y inSecond
                obtain ⟨first, -, rfl⟩ := List.mem_map.mp inFirst
                obtain ⟨second, -, rfl⟩ := List.mem_map.mp inSecond
                exact .here differ

end Constraints

namespace Plan

theorem forall₂_of_alone {f : Frame} {c : Candidate} {d : Direction}
    {taken last : List ComponentInterval} {queries : List SubQuery}
    (made : (do return [← subQuery types f c d (taken ++ last)]) = Except.ok queries) :
    List.Forall₂ (fun later q => subQuery types f c d (taken ++ later) = .ok q) [last] queries := by
  obtain ⟨q, one, same⟩ := Outcome.bind_eq_ok_iff.mp made
  obtain rfl := Except.ok.inj same
  exact .cons one .nil

/-- The slices of a candidate are made for the combinations of points, one for each. -/
theorem expand_eq {f : Frame} {c : Candidate} {d : Direction} {components : List SortComponent}
    {taken : List ComponentInterval} {queries : List SubQuery}
    (expanded : expand types f c d components taken = .ok queries) :
    List.Forall₂ (fun later q => subQuery types f c d (taken ++ later) = .ok q)
      (f.constraints.combinations components) queries := by
  induction components generalizing taken queries with
  | nil =>
      rw [expand, ← List.append_nil taken] at expanded
      exact forall₂_of_alone expanded
  | cons component rest ih =>
      rw [expand] at expanded
      rw [Constraints.combinations]
      cases said : f.constraints.interval? component with
      | none =>
          rw [said, ← List.append_nil taken] at expanded
          exact forall₂_of_alone expanded
      | some i =>
          rw [said] at expanded
          cases i with
          | range first last => exact forall₂_of_alone expanded
          | points values =>
              obtain ⟨slices, each, same⟩ := Outcome.bind_eq_ok_iff.mp expanded
              obtain rfl := Except.ok.inj same
              simp only [List.flatMap_def]
              refine List.rel_flatten (List.forall₂_map_left_iff.mpr ?_)
              refine (Outcome.forall₂_of_mapM each).imp fun v slices made => ?_
              rw [List.forall₂_map_left_iff]
              refine (ih made).imp fun later q one => ?_
              rwa [List.append_assoc] at one

end Plan

namespace TypeSlice

/-- A value that was written for a component fits it. -/
theorem fits_of_write {component : SortComponent} {expected : Option DataType} {v : Value}
    {b : Bytes} (typed : types.componentType component = .ok expected)
    (written : StoredValue.write v expected = .ok b) : Fits types component v where
  typed := by rw [StoredValue.dataType_of_write written, typed]
  number d isDouble := by
    subst isDouble
    obtain rfl := StoredValue.dataType_of_write written
    cases nan : d.isNaN with
    | false => rfl
    | true =>
        rw [Value.dataType, StoredValue.write, if_pos nan] at written
        cases written

/-- Reading a point goes one step on, over a component that its value fits. -/
theorem leading_point (order : SortOrder) {explicit : Nat} {component : SortComponent}
    {components : List SortComponent} (counted : Explicit explicit (component :: components))
    {l l' : Leading} (noIds : 0 < explicit → l.implicit = []) (pointsOnly : l.ends = none)
    {v : Value} {rest : List (Option ComponentInterval)}
    (read : leading types explicit l (some ⟨component, .point v⟩ :: rest) = .ok l') :
    Fits types component v ∧ ∃ b mid, StoredValue.write v v.dataType = .ok b ∧
      mid.base order = l.base order ++ oriented (component.orderIn order) b ∧ mid.ends = none ∧
      Explicit (explicit - 1) components ∧ (0 < explicit - 1 → mid.implicit = []) ∧
      leading types (explicit - 1) mid rest = .ok l' := by
  have filled : (Interval.point v).isEmpty = false := rfl
  rw [leading, filled, if_neg Bool.false_ne_true] at read
  obtain ⟨expected, typed, read⟩ := Outcome.bind_eq_ok_iff.mp read
  obtain ⟨mid, added, next⟩ := Outcome.bind_eq_ok_iff.mp read
  obtain ⟨b, written, -⟩ := Outcome.bind_eq_ok_iff.mp added
  obtain rfl := StoredValue.dataType_of_write written
  obtain ⟨mid', added', step, points, later, ids⟩ :=
    addConstraint_point order counted noIds pointsOnly written
  obtain rfl := Except.ok.inj (added.symm.trans added')
  exact ⟨fits_of_write typed written, b, mid, written, step, points, later, ids,
    (if_pos rfl).symm.trans next⟩

theorem fits_of_writeBound {component : SortComponent} {expected : Option DataType}
    {bound : Option Bound} {b : Bytes} (typed : types.componentType component = .ok expected)
    (written : writeBound bound expected = .ok b) : ∀ e ∈ bound, Fits types component e.value := by
  rintro e ⟨rfl⟩
  exact fits_of_write typed written

/-- A combination whose constraints can be read is planned as slices need it. -/
theorem planned_of_taken {c : Constraints} {components : List SortComponent}
    {taken : List ComponentInterval} (stands : c.Taken components taken)
    (filled : ∀ p ∈ c.intervals, p.2.isEmpty = false) {explicit : Nat} {l l' : Leading}
    (counted : Explicit explicit components) (noIds : 0 < explicit → l.implicit = [])
    (pointsOnly : l.ends = none) (read : leading types explicit l (taken.map some) = .ok l') :
    Planned types components taken := by
  induction stands generalizing explicit l with
  | done => exact .done
  | stop unsaid => exact .done
  | point said member next ih =>
      obtain ⟨fits, b, mid, -, -, points, later, ids, read⟩ :=
        leading_point .asc counted noIds pointsOnly read
      exact .point fits (ih later ids points read)
  | @range component rest first last said =>
      have inhabited : (Interval.range first last).isEmpty = false :=
        filled _ (mem_of_lookup said)
      rw [List.map_cons, leading, inhabited, if_neg Bool.false_ne_true] at read
      obtain ⟨expected, typed, read⟩ := Outcome.bind_eq_ok_iff.mp read
      obtain ⟨mid, added, -⟩ := Outcome.bind_eq_ok_iff.mp read
      obtain ⟨_, inKeys, added⟩ := Outcome.bind_eq_ok_iff.mp added
      obtain ⟨a, low, added⟩ := Outcome.bind_eq_ok_iff.mp added
      obtain ⟨b, high, -⟩ := Outcome.bind_eq_ok_iff.mp added
      rw [Fault.unless_eq_ok_iff, decide_eq_true_eq] at inKeys
      obtain ⟨n, rfl⟩ := Nat.exists_eq_succ_of_ne_zero (Nat.pos_iff_ne_zero.mp inKeys)
      cases component with
      | key id => exact .range (fits_of_writeBound typed low) (fits_of_writeBound typed high) inhabited
      | adjacent => exact counted.elim
      | relation => exact counted.elim

/-- What starts with the bytes of a value does not start with those of another one. -/
theorem eq_of_common {v w : Value} {expected : Option DataType} {a b p x : Bytes}
    (order : SortOrder) (writtenV : StoredValue.write v expected = .ok a)
    (writtenW : StoredValue.write w expected = .ok b) (first : p ++ oriented order a <+: x)
    (second : p ++ oriented order b <+: x) : v = w := by
  obtain ⟨s, rfl⟩ := first
  obtain ⟨t, same⟩ := second
  rw [List.append_assoc, List.append_assoc, List.append_right_inj] at same
  have stands := stands_oriented (StoredValue.stands_of_write writtenV writtenW) order
  have starts : oriented order a ++ s <+: oriented order b ++ t := same ▸ List.prefix_refl _
  rw [stands.prefix_append_iff, turned_eq_eq_iff, Value.compare_eq_iff] at starts
  exact starts.1

theorem led_of_read (order : SortOrder) {components : List SortComponent}
    {cs : List ComponentInterval} (planned : Planned types components cs)
    (keys : ∀ key, .key key ∈ components → ∃ d, types.componentType (.key key) = .ok (some d))
    {explicit : Nat} {l l' : Leading} (counted : Explicit explicit components)
    (noIds : 0 < explicit → l.implicit = []) (pointsOnly : l.ends = none)
    (read : leading types explicit l (cs.map some) = .ok l') :
    ∃ s, Led types order components cs l l' s := by
  obtain ⟨l'', s, read', led⟩ := leading_spec order 0 planned keys counted noIds pointsOnly
  rw [List.replicate_zero, List.append_nil] at read'
  obtain rfl := Except.ok.inj (read.symm.trans read')
  exact ⟨s, led⟩

/-- What is led to by a combination that begins with a point starts with its value. -/
theorem prefix_of_point (order : SortOrder) {component : SortComponent}
    {components : List SortComponent} {v : Value} {later : List ComponentInterval}
    (planned : Planned types (component :: components) (⟨component, .point v⟩ :: later))
    (keys : ∀ key, .key key ∈ component :: components →
      ∃ d, types.componentType (.key key) = .ok (some d))
    {explicit : Nat} {l l' : Leading} (counted : Explicit explicit (component :: components))
    (noIds : 0 < explicit → l.implicit = []) (pointsOnly : l.ends = none)
    (read : leading types explicit l (some ⟨component, .point v⟩ :: later.map some) = .ok l')
    {h x : Bytes} (holds : ((l'.span order).under h).Holds x) :
    Fits types component v ∧ ∃ b, StoredValue.write v v.dataType = .ok b ∧
      (h ++ l.base order) ++ oriented (component.orderIn order) b <+: x := by
  cases planned with
  | point _ next =>
      obtain ⟨fits, b, mid, written, step, points, counted', ids, read⟩ :=
        leading_point order counted noIds pointsOnly read
      obtain ⟨s, led⟩ := led_of_read order next
        (fun key member => keys key (List.mem_cons_of_mem _ member)) counted' ids points read
      rw [led.under, step, Span.under_under, ← List.append_assoc] at holds
      exact ⟨fits, b, written, Span.prefix_of_holds holds⟩

/-- What is led to by combinations that are apart has no bytes in common. -/
theorem not_holds_of_apart (order : SortOrder) {components : List SortComponent}
    {first second : List ComponentInterval} (apart : Constraints.Apart first second)
    (plannedFirst : Planned types components first)
    (plannedSecond : Planned types components second)
    (keys : ∀ key, .key key ∈ components → ∃ d, types.componentType (.key key) = .ok (some d))
    {explicit : Nat} {l m l' m' : Leading} (counted : Explicit explicit components)
    (noIdsL : 0 < explicit → l.implicit = []) (noIdsM : 0 < explicit → m.implicit = [])
    (pointsL : l.ends = none) (pointsM : m.ends = none) (same : l.base order = m.base order)
    (readL : leading types explicit l (first.map some) = .ok l')
    (readM : leading types explicit m (second.map some) = .ok m') (h x : Bytes)
    (holds : ((l'.span order).under h).Holds x) : ¬ ((m'.span order).under h).Holds x := by
  induction apart generalizing components explicit l m with
  | here differ =>
      intro holds'
      cases plannedFirst with
      | point fits next =>
      obtain ⟨fitsV, a, writtenV, startsV⟩ :=
        prefix_of_point order (.point fits next) keys counted noIdsL pointsL readL holds
      obtain ⟨fitsW, b, writtenW, startsW⟩ :=
        prefix_of_point order plannedSecond keys counted noIdsM pointsM readM holds'
      have typed := Except.ok.inj (fitsV.typed.symm.trans fitsW.typed)
      rw [← typed] at writtenW
      rw [← same] at startsW
      exact differ (eq_of_common _ writtenV writtenW startsV startsW)
  | @later component v first second next ih =>
      cases plannedFirst with
      | @point _ _ components _ _ nextFirst =>
      cases plannedSecond with
      | point _ nextSecond =>
      obtain ⟨-, a, midL, writtenL, stepL, endsL, later, idsL, readL⟩ :=
        leading_point order counted noIdsL pointsL readL
      obtain ⟨-, b, midM, writtenM, stepM, endsM, -, idsM, readM⟩ :=
        leading_point order counted noIdsM pointsM readM
      obtain rfl := Except.ok.inj (writtenL.symm.trans writtenM)
      exact ih nextFirst nextSecond (fun key member => keys key (List.mem_cons_of_mem _ member))
        later idsL idsM endsL endsM (by rw [stepL, stepM, same]) readL readM

/-- The steps that a slice in one direction was made by. -/
theorem slice_cases {t : RelationType} {d : Direction} {cs : List (Option ComponentInterval)}
    {s : Slice} (proper : d.isProper = true) (made : slice types t d cs = .ok s) :
    t.isStoredIn d = true ∧ ∃ h l, head t d = .ok h ∧
      leading types t.sortKey.length ⟨[], [], none⟩ cs = .ok l ∧
      limits t.sortOrder h l = .ok (s.start, s.stop) := by
  have oneWay : d ≠ .both := by
    rintro rfl
    exact absurd proper (by decide)
  rw [slice, if_neg oneWay] at made
  obtain ⟨_, stored, made⟩ := Outcome.bind_eq_ok_iff.mp made
  obtain ⟨h, begun, made⟩ := Outcome.bind_eq_ok_iff.mp made
  obtain ⟨l, read, made⟩ := Outcome.bind_eq_ok_iff.mp made
  obtain ⟨⟨start, stop⟩, ends, made⟩ := Outcome.bind_eq_ok_iff.mp made
  refine ⟨(Fault.unless_eq_ok_iff _ _).mp stored, h, l, begun, read, ?_⟩
  simp only [between] at made
  split at made
  · obtain rfl := Except.ok.inj made
    exact ends
  · cases made

/-- A slice between limits contains what lies between the cuts they come to. -/
theorem contains_iff_holds {order : SortOrder} {h : Bytes} (opened : Open h) {l : Leading}
    {s : Slice} (ends : limits order h l = .ok (s.start, s.stop)) (x : Bytes) :
    s.contains x = true ↔ ((l.span order).under h).Holds x := by
  obtain ⟨start, stop, ends', first, last⟩ := limits_spec order opened l
  obtain ⟨rfl, rfl⟩ := Prod.mk.inj (Except.ok.inj (ends'.symm.trans ends))
  rw [Slice.contains, Bool.and_eq_true, decide_eq_true_eq, decide_eq_true_eq, first,
    ← List.not_le, last]
  rfl

end TypeSlice

namespace Plan

variable {f : Frame} {c : Candidate} {d : Direction}

/-- A limit does not change which columns a slice is about. -/
theorem contains_of_withLimit {s s' : Slice} {limit : UInt64} (limited : s.withLimit limit = .ok s')
    (x : Bytes) : s'.contains x = s.contains x := by
  rw [Slice.withLimit] at limited
  split at limited
  · obtain rfl := Except.ok.inj limited
    rfl
  · cases limited

/-- What a slice with constraints on leading components is made of. -/
theorem subQuery_cases {taken : List ComponentInterval} {q : SubQuery}
    (made : subQuery types f c d taken = .ok q) :
    (∃ s, TypeSlice.slice types c.type d (taken.map some) = .ok s ∧
      ∀ x, q.slice.contains x = s.contains x) ∧
    q.fitted = (f.constraints.complete && taken.length == f.constraints.intervals.length &&
      !(taken.getLast?.any fun last => last.interval.isOpenAbove)) := by
  obtain ⟨s, plain, made⟩ := Outcome.bind_eq_ok_iff.mp made
  obtain ⟨limited, within, made⟩ := Outcome.bind_eq_ok_iff.mp made
  obtain rfl := Except.ok.inj made
  exact ⟨⟨s, plain, contains_of_withLimit within⟩, rfl⟩

section Taken

variable {taken : List ComponentInterval} {q : SubQuery}

/-- What a slice was made for is planned as slices need it. -/
theorem planned_of_subQuery (proper : d.isProper = true)
    (filled : ∀ p ∈ f.constraints.intervals, p.2.isEmpty = false)
    (stands : f.constraints.Taken (c.type.extendedSortKey d) taken)
    (made : subQuery types f c d taken = .ok q) :
    Planned types (c.type.extendedSortKey d) taken := by
  obtain ⟨⟨s, plain, -⟩, -⟩ := subQuery_cases made
  obtain ⟨-, h, l, -, read, -⟩ := slice_cases proper plain
  exact planned_of_taken stands filled (explicit_extendedSortKey c.type d) (fun _ => rfl) rfl read

/-- The slice of a combination selects the relations that lie within it. -/
theorem subQuery_selects (wellFormed : c.type.WellFormed types) (proper : d.isProper = true)
    (filled : ∀ p ∈ f.constraints.intervals, p.2.isEmpty = false)
    (stands : f.constraints.Taken (c.type.extendedSortKey d) taken)
    (made : subQuery types f c d taken = .ok q) {t : RelationType} {r : Relation} {e : Entry}
    (listed : types.byId t.id = .ok t) (written : write types t r = .ok e) :
    q.slice.contains e.column = true ↔
      t = c.type ∧ r.direction = d ∧ ∀ x ∈ taken, Within c.type r x := by
  obtain ⟨⟨s, plain, same⟩, -⟩ := subQuery_cases made
  obtain ⟨stored, -⟩ := slice_cases proper plain
  obtain ⟨s', plain', selects⟩ := slice_one_way wellFormed proper stored
    (planned_of_subQuery proper filled stands made) 0
  rw [List.replicate_zero, List.append_nil] at plain'
  obtain rfl := Except.ok.inj (plain.symm.trans plain')
  rw [same]
  exact selects t r e listed written

/-- The slices of combinations that are apart have no column in common. -/
theorem disjoint_of_apart {taken' : List ComponentInterval} {q' : SubQuery}
    (wellFormed : c.type.WellFormed types) (proper : d.isProper = true)
    (filled : ∀ p ∈ f.constraints.intervals, p.2.isEmpty = false)
    (stands : f.constraints.Taken (c.type.extendedSortKey d) taken)
    (stands' : f.constraints.Taken (c.type.extendedSortKey d) taken')
    (made : subQuery types f c d taken = .ok q) (made' : subQuery types f c d taken' = .ok q')
    (apart : Constraints.Apart taken taken') (x : Bytes) (inside : q.slice.contains x = true) :
    q'.slice.contains x = false := by
  have planned := planned_of_subQuery proper filled stands made
  have planned' := planned_of_subQuery proper filled stands' made'
  obtain ⟨⟨s, plain, same⟩, -⟩ := subQuery_cases made
  obtain ⟨⟨s', plain', same'⟩, -⟩ := subQuery_cases made'
  obtain ⟨stored, h, l, begun, read, ends⟩ := slice_cases proper plain
  obtain ⟨-, h', l', begun', read', ends'⟩ := slice_cases proper plain'
  obtain rfl := Except.ok.inj (begun.symm.trans begun')
  have opened := open_head proper stored begun
  have keys : ∀ key, .key key ∈ c.type.extendedSortKey d →
      ∃ d, types.componentType (.key key) = .ok (some d) :=
    fun key member => wellFormed.keys key (mem_sortKey_of_mem member)
  rw [same, contains_iff_holds opened ends] at inside
  rw [same', ← Bool.not_eq_true, contains_iff_holds opened ends']
  exact not_holds_of_apart _ apart planned planned' keys (explicit_extendedSortKey c.type d)
    (fun _ => rfl) (fun _ => rfl) rfl rfl rfl read read' h x inside

end Taken

/-- The slices that a candidate is expanded to: each is made for a combination, no two
have a column in common, and together they find what has its values in the intervals. -/
structure Expands (types : TypeCatalog Outcome) (f : Frame) (c : Candidate) (d : Direction)
    (queries : List SubQuery) : Prop where
  made : ∀ q ∈ queries, ∃ taken, f.constraints.Taken (c.type.extendedSortKey d) taken ∧
    subQuery types f c d taken = .ok q
  disjoint : queries.Pairwise fun q q' =>
    ∀ x, q.slice.contains x = true → q'.slice.contains x = false
  finds : ∀ r e, write types c.type r = .ok e → r.direction = d →
    (∀ component ∈ c.type.extendedSortKey d, ∀ i, f.constraints.interval? component = some i →
      ∃ v, r.component c.type component = some v ∧ i.contains v = true) →
    ∃ q ∈ queries, q.slice.contains e.column = true

theorem expands_of_expand {queries : List SubQuery} (wellFormed : c.type.WellFormed types)
    (proper : d.isProper = true) (filled : ∀ p ∈ f.constraints.intervals, p.2.isEmpty = false)
    (distinct : ∀ p ∈ f.constraints.intervals, p.2.Distinct)
    (expanded : expand types f c d (c.type.extendedSortKey d) [] = .ok queries) :
    Expands types f c d queries := by
  have each : List.Forall₂ (fun taken q =>
      f.constraints.Taken (c.type.extendedSortKey d) taken ∧ subQuery types f c d taken = .ok q)
      (f.constraints.combinations (c.type.extendedSortKey d)) queries :=
    (List.forall₂_and_left _ _).mpr
      ⟨fun taken => Constraints.taken_of_mem_combinations, expand_eq expanded⟩
  refine ⟨fun q member => ?_, ?_, fun r e written direction inside => ?_⟩
  · obtain ⟨taken, -, made⟩ := exists_left_of_forall₂ each member
    exact ⟨taken, made⟩
  · refine pairwise_of_forall₂ each (Constraints.pairwise_apart distinct _) ?_
    rintro taken taken' q q' ⟨stands, made⟩ ⟨stands', made'⟩ apart
    exact disjoint_of_apart wellFormed proper filled stands stands' made made' apart
  · obtain ⟨taken, stands, within⟩ := Constraints.exists_taken c.type r inside
    obtain ⟨q, member, -, made⟩ :=
      exists_right_of_forall₂ each stands.mem_combinations
    exact ⟨q, member, (subQuery_selects wellFormed proper filled stands made wellFormed.listed
      written).mpr ⟨rfl, direction, within⟩⟩

end Plan

end PropertyGraph
