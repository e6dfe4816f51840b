/-
# Proofs.TypeSlices -- a type slice selects exactly

A planner asks for single points on leading components of the extended sort key and
ends with at most one range on a sort key (`Planned`).  Each point is one step into
the columns that start with its bytes (`leading_spec`, by induction on the plan), so
the slice that comes out holds the columns of the type and direction whose components
lie in the intervals, and no other column of any type (`slice_selects`).
-/
import PropertyGraph.Proofs.SliceBounds

namespace PropertyGraph

set_option autoImplicit false

open Bytes Column

namespace TypeSlice

/-- A value of the type of a component, and not one without a place in its order. -/
structure Fits (types : TypeCatalog Outcome) (c : SortComponent) (v : Value) : Prop where
  typed : types.componentType c = .ok v.dataType
  number : ∀ d, v = .double d → d.isNaN = false

/-- Constraints as they are planned over components: single points from the first
component on, and at most one range, on a key, which is not empty and the last. -/
inductive Planned (types : TypeCatalog Outcome) : List SortComponent → List ComponentInterval → Prop
  | done {components : List SortComponent} : Planned types components []
  | point {c : SortComponent} {v : Value} {components : List SortComponent}
      {later : List ComponentInterval} (fits : Fits types c v)
      (next : Planned types components later) :
      Planned types (c :: components) (⟨c, .point v⟩ :: later)
  | range {key : SchemaId} {first last : Option Bound} {components : List SortComponent}
      (low : ∀ b ∈ first, Fits types (.key key) b.value)
      (high : ∀ b ∈ last, Fits types (.key key) b.value)
      (inhabited : (Interval.range first last).isEmpty = false) :
      Planned types (.key key :: components) [⟨.key key, .range first last⟩]

/-- The values of components lie in the intervals over them, place by place. -/
def Meets : List ComponentInterval → List (SortComponent × Value) → Prop
  | c :: later, p :: rest => c.interval.contains p.2 = true ∧ Meets later rest
  | [], _ => True
  | _ :: _, [] => False

/-- So many keys stand in front, and only ids behind them. -/
def Explicit : Nat → List SortComponent → Prop
  | n + 1, .key _ :: rest => Explicit n rest
  | 0, components => ∀ c ∈ components, c = .adjacent ∨ c = .relation
  | _, _ => False

variable {types : TypeCatalog Outcome}

theorem Fits.writes {c : SortComponent} {v : Value} (fits : Fits types c v) :
    ∃ b, StoredValue.write v v.dataType = .ok b :=
  StoredValue.write_of_dataType rfl fits.number

/-- A bound of the type of its key has bytes. -/
theorem writes_bound {key : SchemaId} {d : DataType} {bound : Option Bound}
    (typed : types.componentType (.key key) = .ok (some d))
    (fits : ∀ b ∈ bound, Fits types (.key key) b.value) :
    ∃ a, writeBound bound (some d) = .ok a := by
  cases bound with
  | none => exact ⟨[], rfl⟩
  | some b =>
      have same : some d = b.value.dataType := by
        have both := typed.symm.trans (fits b rfl).typed
        exact Except.ok.inj both
      rw [same]
      exact (fits b rfl).writes

/-- What is found out about the constraints from some component on. -/
structure Led (types : TypeCatalog Outcome) (order : SortOrder) (components : List SortComponent)
    (cs : List ComponentInterval) (before after : Leading) (s : Span) : Prop where
  under : after.span order = s.under (before.base order)
  ordered : s.Ordered
  meets : ∀ pairs body rest, pairs.map Prod.fst = components → Spells types order pairs body →
    (s.Holds (body ++ rest) ↔ Meets cs pairs)

/-- Without constraints everything is left. -/
theorem led_done {order : SortOrder} {components : List SortComponent} {l : Leading}
    (pointsOnly : l.ends = none) : Led types order components [] l l Span.everything where
  under := by rw [Leading.span, pointsOnly]
  ordered := Span.ordered_everything
  meets pairs body rest _ _ := ⟨fun _ => trivial, fun _ => Span.everything_holds _⟩

/-- A point is one step into the columns that start with its bytes. -/
theorem led_point {order : SortOrder} {c : SortComponent} {v : Value} {b : Bytes}
    {components : List SortComponent} {later : List ComponentInterval} {before mid after : Leading}
    {s : Span} (typed : types.componentType c = .ok v.dataType)
    (written : StoredValue.write v v.dataType = .ok b)
    (step : mid.base order = before.base order ++ oriented (c.orderIn order) b)
    (led : Led types order components later mid after s) :
    Led types order (c :: components) (⟨c, .point v⟩ :: later) before after
      (s.under (oriented (c.orderIn order) b)) where
  under := by rw [led.under, step, Span.under_under]
  ordered := led.ordered.under _
  meets pairs body rest names spelled := by
    cases spelled with
    | nil => cases names
    | @cons c' w expected b' pairs tail typed' written' spelled =>
        obtain ⟨rfl, restNames⟩ := List.cons.inj names
        obtain rfl : v.dataType = expected := Except.ok.inj (typed.symm.trans typed')
        have stands :=
          stands_oriented (StoredValue.stands_of_write written written') (c'.orderIn order)
        rw [List.append_assoc]
        constructor
        · intro holds
          have starts := Span.prefix_of_holds holds
          rw [← List.append_nil (oriented (c'.orderIn order) b), stands.prefix_append_iff,
            turned_eq_eq_iff, Value.compare_eq_iff] at starts
          obtain ⟨rfl, -⟩ := starts
          obtain rfl := Except.ok.inj (written.symm.trans written')
          rw [Span.under_holds_iff] at holds
          refine ⟨?_, (led.meets pairs tail rest restNames spelled).mp holds⟩
          show [v].contains v = true
          rw [List.contains_iff_mem]
          exact List.mem_singleton.mpr rfl
        · rintro ⟨contained, meets⟩
          have same : w = v := by
            rw [Interval.point, Interval.contains, List.contains_iff_mem] at contained
            exact List.mem_singleton.mp contained
          subst same
          obtain rfl := Except.ok.inj (written.symm.trans written')
          rw [Span.under_holds_iff]
          exact (led.meets pairs tail rest restNames spelled).mpr meets

/-- A range is the stretch between its ends. -/
theorem led_range {order : SortOrder} {key : SchemaId} {d : DataType} {first last : Option Bound}
    {a b : Bytes} {components : List SortComponent} {before : Leading}
    (typed : types.componentType (.key key) = .ok (some d))
    (low : writeBound first (some d) = .ok a) (high : writeBound last (some d) = .ok b)
    (inhabited : (Interval.range first last).isEmpty = false) (noIds : before.implicit = []) :
    Led types order (.key key :: components) [⟨.key key, .range first last⟩] before
      { before with ends := some (endsOf first last a b) }
      ((endsOf first last a b).span order) where
  under := by rw [Leading.base, noIds, List.append_nil]; rfl
  ordered := ordered_range order low high inhabited
  meets pairs body rest names spelled := by
    cases spelled with
    | nil => cases names
    | @cons c' w expected b' pairs tail typed' written' spelled =>
        obtain ⟨rfl, -⟩ := List.cons.inj names
        obtain rfl : some d = expected := Except.ok.inj (typed.symm.trans typed')
        have holds := range_holds_iff order low high written' (tail ++ rest)
        rw [List.append_assoc]
        constructor
        · intro inside
          exact ⟨holds.mp inside, trivial⟩
        · intro meets
          exact holds.mpr meets.1

/-- A point is added where its component stands. -/
theorem addConstraint_point (order : SortOrder) {explicit : Nat} {c : SortComponent}
    {components : List SortComponent} (counted : Explicit explicit (c :: components))
    {l : Leading} (noIds : 0 < explicit → l.implicit = []) (pointsOnly : l.ends = none) {v : Value}
    {b : Bytes} (written : StoredValue.write v v.dataType = .ok b) :
    ∃ l', addConstraint l (0 < explicit) ⟨c, .point v⟩ v.dataType = .ok l' ∧
      l'.base order = l.base order ++ oriented (c.orderIn order) b ∧ l'.ends = none ∧
      Explicit (explicit - 1) components ∧ (0 < explicit - 1 → l'.implicit = []) := by
  cases explicit with
  | zero =>
      refine ⟨{ l with implicit := l.implicit ++ b }, ?_, ?_, pointsOnly, ?_, ?_⟩
      · simp only [addConstraint, Interval.point, written]
        rfl
      · have plain : c.orderIn order = .asc := by
          obtain rfl | rfl := counted c List.mem_cons_self
          · rfl
          · rfl
        rw [plain, Leading.base, Leading.base, List.append_assoc]
        rfl
      · intro other member
        exact counted other (List.mem_cons_of_mem c member)
      · intro positive
        exact absurd positive (Nat.lt_irrefl 0)
  | succ n =>
      cases c with
      | key id =>
          have none : l.implicit = [] := noIds (Nat.succ_pos n)
          refine ⟨{ l with sorted := l.sorted ++ b }, ?_, ?_, pointsOnly, counted, fun _ => none⟩
          · simp only [addConstraint, Interval.point, written]
            rfl
          · rw [Leading.base, Leading.base, oriented_append, none, List.append_nil, List.append_nil]
            rfl
      | adjacent => exact absurd counted id
      | relation => exact absurd counted id

/-- Reading planned constraints ends well, and what they select is known. -/
theorem leading_spec (order : SortOrder) (missing : Nat) {components : List SortComponent}
    {cs : List ComponentInterval} (planned : Planned types components cs)
    (keys : ∀ key, .key key ∈ components → ∃ d, types.componentType (.key key) = .ok (some d))
    {explicit : Nat} {l : Leading} (counted : Explicit explicit components)
    (noIds : 0 < explicit → l.implicit = []) (pointsOnly : l.ends = none) :
    ∃ l' s, leading types explicit l (cs.map some ++ List.replicate missing none) = .ok l' ∧
      Led types order components cs l l' s := by
  induction planned generalizing explicit l with
  | done =>
      refine ⟨l, Span.everything, ?_, led_done pointsOnly⟩
      cases missing with
      | zero => rfl
      | succ missing => rfl
  | @point c v components later fits next ih =>
      obtain ⟨b, written⟩ := fits.writes
      obtain ⟨mid, added, step, midPoints, midCounted, midIds⟩ :=
        addConstraint_point order counted noIds pointsOnly written
      have later_keys : ∀ key, .key key ∈ components →
          ∃ d, types.componentType (.key key) = .ok (some d) :=
        fun key member => keys key (List.mem_cons_of_mem c member)
      obtain ⟨l', s, done, led⟩ := ih later_keys midCounted midIds midPoints
      refine ⟨l', _, ?_, led_point fits.typed written step led⟩
      have filled : (Interval.point v).isEmpty = false := rfl
      rw [List.map_cons, List.cons_append, leading, filled, if_neg Bool.false_ne_true]
      refine Outcome.bind_eq_ok_iff.mpr ⟨_, fits.typed, Outcome.bind_eq_ok_iff.mpr ⟨mid, added, ?_⟩⟩
      exact (if_pos rfl).trans done
  | @range key first last components low high inhabited =>
      obtain ⟨d, typed⟩ := keys key List.mem_cons_self
      obtain ⟨a, lowBytes⟩ := writes_bound typed low
      obtain ⟨b, highBytes⟩ := writes_bound typed high
      cases explicit with
      | zero =>
          obtain never | never := counted (.key key) List.mem_cons_self
          · cases never
          · cases never
      | succ n =>
          refine ⟨_, _, ?_, led_range typed lowBytes highBytes inhabited (noIds (Nat.succ_pos n))⟩
          rw [List.map_cons, List.cons_append, leading, inhabited, if_neg Bool.false_ne_true]
          have added : addConstraint l (0 < n + 1) ⟨.key key, .range first last⟩ (some d) =
              .ok { l with ends := some (endsOf first last a b) } := by
            simp only [addConstraint, lowBytes, highBytes]
            rfl
          exact Outcome.bind_eq_ok_iff.mpr ⟨_, typed, Outcome.bind_eq_ok_iff.mpr ⟨_, added, rfl⟩⟩

/-- The ids that the multiplicity leaves open in a direction. -/
def openIds (t : RelationType) (d : Direction) : List SortComponent :=
  if t.multiplicity.isUnique d then []
  else
    (if t.isLabel then [.adjacent] else []) ++
      if t.multiplicity.isConstrained then [] else [.relation]

theorem extendedSortKey_eq (t : RelationType) (d : Direction) :
    t.extendedSortKey d = t.sortKey.map .key ++ openIds t d := rfl

theorem implicit_of_mem_openIds {t : RelationType} {d : Direction} {c : SortComponent}
    (member : c ∈ openIds t d) : c = .adjacent ∨ c = .relation := by
  cases c with
  | key id =>
      unfold openIds at member
      split_ifs at member <;> simp at member
  | adjacent => exact .inl rfl
  | relation => exact .inr rfl

/-- The extended sort key starts with the keys of the type. -/
theorem explicit_extendedSortKey (t : RelationType) (d : Direction) :
    Explicit t.sortKey.length (t.extendedSortKey d) := by
  rw [extendedSortKey_eq]
  induction t.sortKey with
  | nil => exact fun c member => implicit_of_mem_openIds member
  | cons key rest ih => exact ih

theorem mem_sortKey_of_mem {t : RelationType} {d : Direction} {key : SchemaId}
    (member : .key key ∈ t.extendedSortKey d) : key ∈ t.sortKey := by
  rw [extendedSortKey_eq] at member
  obtain inKeys | inIds := List.mem_append.mp member
  · obtain ⟨key', inSortKey, same⟩ := List.mem_map.mp inKeys
    obtain rfl := SortComponent.key.inj same
    exact inSortKey
  · obtain never | never := implicit_of_mem_openIds inIds
    · cases never
    · cases never

/-- An interval over a component with a known value. -/
theorem component_iff {t : RelationType} {r : Relation} {c : ComponentInterval} {v : Value}
    (value : r.component t c.component = some v) :
    (∃ w, r.component t c.component = some w ∧ c.interval.contains w = true) ↔
      c.interval.contains v = true := by
  constructor
  · rintro ⟨w, found, contained⟩
    obtain rfl := Option.some.inj (value.symm.trans found)
    exact contained
  · intro contained
    exact ⟨v, value, contained⟩

/-- Where components have the values of a relation, meeting constraints place by
place is meeting them by name. -/
theorem meets_iff {t : RelationType} {r : Relation} {components : List SortComponent}
    {cs : List ComponentInterval} (planned : Planned types components cs)
    {pairs : List (SortComponent × Value)} (names : pairs.map Prod.fst = components)
    (values : ∀ p ∈ pairs, r.component t p.1 = some p.2) :
    Meets cs pairs ↔
      ∀ c ∈ cs, ∃ v, r.component t c.component = some v ∧ c.interval.contains v = true := by
  induction planned generalizing pairs with
  | done =>
      constructor
      · intro _ c member
        exact absurd member List.not_mem_nil
      · intro _
        trivial
  | @point c v components later fits next ih =>
      obtain _ | ⟨⟨c', w⟩, pairs⟩ := pairs
      · cases names
      · obtain ⟨rfl, restNames⟩ := List.cons.inj names
        have value : r.component t c' = some w := values _ List.mem_cons_self
        have inRest := ih restNames fun p member => values p (List.mem_cons_of_mem _ member)
        rw [List.forall_mem_cons, component_iff value, ← inRest]
        rfl
  | @range key first last components low high inhabited =>
      obtain _ | ⟨⟨c', w⟩, pairs⟩ := pairs
      · cases names
      · obtain ⟨rfl, restNames⟩ := List.cons.inj names
        have value : r.component t (.key key) = some w := values _ List.mem_cons_self
        rw [List.forall_mem_cons, component_iff value]
        constructor
        · rintro ⟨contained, -⟩
          exact ⟨contained, fun c member => absurd member List.not_mem_nil⟩
        · rintro ⟨contained, -⟩
          exact ⟨contained, trivial⟩

/-- The component of a relation of the type that a constraint is about lies in its
interval. -/
def Within (t : RelationType) (r : Relation) (c : ComponentInterval) : Prop :=
  ∃ v, r.component t c.component = some v ∧ c.interval.contains v = true

/-- The heads of columns can be counted up. -/
theorem open_category {c : UInt8} (category : c = propertyByte ∨ c = edgeByte) (b : Bytes) :
    Open (c :: b) := by
  refine ⟨c, List.mem_cons_self, ?_⟩
  obtain rfl | rfl := category
  · decide
  · decide

theorem open_head {t : RelationType} {d : Direction} {h : Bytes} (proper : d.isProper = true)
    (stored : t.isStoredIn d = true) (begun : head t d = .ok h) : Open h := by
  rw [head_eq proper stored] at begun
  obtain rfl := Except.ok.inj begun
  apply open_category
  unfold categoryByte
  split
  · exact .inl rfl
  · exact .inr rfl

/-- Types of one number are the same. -/
theorem eq_of_listed {t t' : RelationType} (listed : types.byId t.id = .ok t)
    (listed' : types.byId t'.id = .ok t') (id : t'.id = t.id) : t' = t := by
  rw [id, listed] at listed'
  exact (Except.ok.inj listed').symm

/-- Without constraints read so far, what is led to stands right behind the head. -/
theorem Led.span_eq {order : SortOrder} {components : List SortComponent}
    {cs : List ComponentInterval} {after : Leading} {s : Span}
    (led : Led types order components cs ⟨[], [], none⟩ after s) : after.span order = s := by
  have empty : Leading.base order ⟨[], [], none⟩ = [] := by
    cases order
    · rfl
    · rfl
  rw [led.under, empty]
  rfl

/-- The slice that the steps of its making come to. -/
theorem slice_eq_ok {t : RelationType} {d : Direction} {cs : List (Option ComponentInterval)}
    {h start stop : Bytes} {l : Leading} (proper : d.isProper = true)
    (stored : t.isStoredIn d = true) (begun : head t d = .ok h)
    (read : leading types t.sortKey.length ⟨[], [], none⟩ cs = .ok l)
    (ends : limits t.sortOrder h l = .ok (start, stop)) (inOrder : start ≤ stop) :
    slice types t d cs = .ok ⟨start, stop, noLimit, inOrder, noLimit_pos⟩ := by
  have oneWay : d ≠ .both := by
    rintro rfl
    exact absurd proper (by decide)
  rw [slice, if_neg oneWay]
  refine Outcome.bind_eq_ok_iff.mpr ⟨(), (Fault.unless_eq_ok_iff _ _).mpr stored, ?_⟩
  refine Outcome.bind_eq_ok_iff.mpr ⟨h, begun, ?_⟩
  refine Outcome.bind_eq_ok_iff.mpr ⟨l, read, ?_⟩
  exact Outcome.bind_eq_ok_iff.mpr ⟨(start, stop), ends, dif_pos inOrder⟩

/-- Behind the head of a type and direction lie the columns of them that meet what was
led to, and no column of another type or direction. -/
theorem Led.column_iff {t t' : RelationType} {d : Direction} {cs : List ComponentInterval}
    {before after : Leading} {s : Span} {h start sorted tail : Bytes} {r : Relation} {e : Entry}
    (led : Led types t.sortOrder (t.extendedSortKey d) cs before after s)
    (wellFormed : t.WellFormed types) (proper : d.isProper = true)
    (stored : t.isStoredIn d = true) (planned : Planned types (t.extendedSortKey d) cs)
    (begun : head t d = .ok h) (listed : types.byId t'.id = .ok t')
    (parts : Parts types t' r e start sorted tail) :
    (s.under h).Holds e.column ↔ t' = t ∧ r.direction = d ∧ ∀ c ∈ cs, Within t r c := by
  have inHead := head_prefix_iff proper parts.proper stored parts.stored
    (eq_of_listed wellFormed.listed listed) begun parts.begun
  have ofType : t' = t → r.direction = d →
      ((s.under h).Holds e.column ↔ ∀ c ∈ cs, Within t r c) := by
    rintro rfl rfl
    obtain ⟨pairs, body, rest, column, spelled, names, values⟩ := parts.spells wellFormed
    obtain rfl := Except.ok.inj (begun.symm.trans parts.begun)
    rw [column, Span.under_holds_iff, led.meets pairs body rest names spelled]
    exact meets_iff planned names values
  constructor
  · intro holds
    have starts := Span.prefix_of_holds holds
    rw [parts.column, inHead] at starts
    obtain ⟨same, direction⟩ := starts
    exact ⟨same, direction, (ofType same direction).mp holds⟩
  · rintro ⟨same, direction, within⟩
    exact (ofType same direction).mpr within

/-- A slice in one direction is made, and holds what lies between the cuts that its
constraints come to. -/
theorem slice_led {t : RelationType} {d : Direction} {cs : List ComponentInterval}
    (sorted : ∀ key ∈ t.sortKey, ∃ d, types.componentType (.key key) = .ok (some d))
    (proper : d.isProper = true) (stored : t.isStoredIn d = true)
    (planned : Planned types (t.extendedSortKey d) cs) (missing : Nat) :
    ∃ s h after span, slice types t d (cs.map some ++ List.replicate missing none) = .ok s ∧
      head t d = .ok h ∧
      Led types t.sortOrder (t.extendedSortKey d) cs ⟨[], [], none⟩ after span ∧
      ∀ b, s.contains b = true ↔ (span.under h).Holds b := by
  have begun := head_eq proper stored
  have opened := open_head proper stored begun
  have keys : ∀ key, .key key ∈ t.extendedSortKey d →
      ∃ d, types.componentType (.key key) = .ok (some d) :=
    fun key member => sorted key (mem_sortKey_of_mem member)
  obtain ⟨l, span, read, led⟩ := leading_spec t.sortOrder missing planned keys
    (explicit_extendedSortKey t d) (l := ⟨[], [], none⟩) (fun _ => rfl) rfl
  obtain ⟨start, stop, ends, first, last⟩ := limits_spec t.sortOrder opened l
  rw [led.span_eq] at first last
  obtain ⟨inOrder, contains⟩ := contains_spec (led.ordered.under _) first last
  exact ⟨_, _, l, span, slice_eq_ok proper stored begun read ends inOrder, begun, led, contains⟩

/-- A slice in one direction. -/
theorem slice_one_way {t : RelationType} {d : Direction} {cs : List ComponentInterval}
    (wellFormed : t.WellFormed types) (proper : d.isProper = true) (stored : t.isStoredIn d = true)
    (planned : Planned types (t.extendedSortKey d) cs) (missing : Nat) :
    ∃ s, slice types t d (cs.map some ++ List.replicate missing none) = .ok s ∧
      ∀ t' r e, types.byId t'.id = .ok t' → write types t' r = .ok e →
        (s.contains e.column = true ↔ t' = t ∧ r.direction = d ∧ ∀ c ∈ cs, Within t r c) := by
  obtain ⟨s, h, after, span, made, begun, led, contains⟩ :=
    slice_led wellFormed.keys proper stored planned missing
  refine ⟨s, made, ?_⟩
  intro t' r e listed written
  obtain ⟨start, sorted, tail, parts⟩ := parts_of_write written
  rw [contains]
  exact led.column_iff wellFormed proper stored planned begun listed parts

/-- A slice in both directions. -/
theorem slice_both_ways {t : RelationType} (listed : types.byId t.id = .ok t)
    (label : t.isLabel = true) (cs : List (Option ComponentInterval)) :
    ∃ s, slice types t .both cs = .ok s ∧
      ∀ t' r e, types.byId t'.id = .ok t' → write types t' r = .ok e →
        (s.contains e.column = true ↔ t' = t) := by
  have opened : Open (edgeByte :: Ordered.ofWord t.id) := open_category (.inr rfl) _
  obtain ⟨stop, ended, last⟩ :=
    edgeAt_spec (c := (Span.everything.under (edgeByte :: Ordered.ofWord t.id)).last)
      (opened.append [])
  obtain ⟨start, begun, first⟩ :=
    edgeAt_spec (c := (Span.everything.under (edgeByte :: Ordered.ofWord t.id)).first)
      (opened.append [])
  obtain ⟨inOrder, contains⟩ := contains_spec (Span.ordered_everything.under _) first last
  refine ⟨⟨start, stop, noLimit, inOrder, noLimit_pos⟩, ?_, ?_⟩
  · have whole : start = edgeByte :: Ordered.ofWord t.id :=
      (Except.ok.inj begun).symm.trans (List.append_nil _)
    subst whole
    have next : after (edgeByte :: Ordered.ofWord t.id) = .ok stop := by
      have ended' : after ((edgeByte :: Ordered.ofWord t.id) ++ []) = .ok stop := ended
      rwa [List.append_nil] at ended'
    rw [slice, if_pos rfl, bothWays]
    refine Outcome.bind_eq_ok_iff.mpr ⟨(), (Fault.unless_eq_ok_iff _ _).mpr label, ?_⟩
    exact Outcome.bind_eq_ok_iff.mpr ⟨stop, next, dif_pos inOrder⟩
  · intro t' r e listed' written
    obtain ⟨start', sorted, tail, parts⟩ := parts_of_write written
    rw [contains, Span.everything_under_holds_iff, parts.column]
    exact label_prefix_iff label parts.proper parts.stored (eq_of_listed listed listed')
      parts.begun _

/-- A type slice succeeds and selects exactly.  In a direction it holds the columns,
among those of all relations of all types, that are of the type and the direction and
whose constrained components lie in their intervals; in both directions it holds the
columns of the label, whichever way they point. -/
theorem slice_selects {t : RelationType} (wellFormed : t.WellFormed types) :
    (∀ d cs missing, d.isProper = true → t.isStoredIn d = true →
      Planned types (t.extendedSortKey d) cs →
      ∃ s, slice types t d (cs.map some ++ List.replicate missing none) = .ok s ∧
        ∀ t' r e, types.byId t'.id = .ok t' → write types t' r = .ok e →
          (s.contains e.column = true ↔ t' = t ∧ r.direction = d ∧ ∀ c ∈ cs, Within t r c)) ∧
    (t.isLabel = true → ∀ cs,
      ∃ s, slice types t .both cs = .ok s ∧
        ∀ t' r e, types.byId t'.id = .ok t' → write types t' r = .ok e →
          (s.contains e.column = true ↔ t' = t)) := by
  constructor
  · intro d cs missing proper stored planned
    exact slice_one_way wellFormed proper stored planned missing
  · intro label cs
    exact slice_both_ways wellFormed.listed label cs

/-- A key for the time at which something began. -/
def since : RelationType :=
  ⟨1, "since", .property .long .single, .manyToOne, [], .asc, none, .enabled, false, none⟩

/-- A label whose edges are sorted by when they began, the latest first. -/
def follows : RelationType :=
  ⟨2, "follows", .edge, .multi, [1], .desc, none, .enabled, false, none⟩

/-- The schema of the key and the label. -/
def followers : TypeCatalog Outcome where
  byId id :=
    if id = 1 then .ok since
    else if id = 2 then .ok follows
    else .error (.invalid (.unsupportedType "unknown"))
  byName _ := .ok none
  withIndexes t := .ok [t]

/-- An edge that began at some time. -/
def followed (time : Long) : Relation := ⟨7, 2, .out, .vertex 5, [.long time]⟩

/-- From ten on and before twenty, in the columns of a descending label. -/
def recent : List ComponentInterval :=
  [⟨.key 1, .range (some ⟨.long 10, true⟩) (some ⟨.long 20, false⟩)⟩]

theorem wellFormed_follows : follows.WellFormed followers where
  listed := rfl
  keys key member := by
    obtain rfl : key = 1 := List.mem_singleton.mp member
    exact ⟨.long, rfl⟩
  distinct := List.pairwise_singleton _ 1
  cardinality d c kind := by cases kind

theorem planned_recent : Planned followers (follows.extendedSortKey .out) recent := by
  refine .range ?_ ?_ rfl
  · rintro b ⟨rfl⟩
    exact ⟨rfl, fun d never => by cases never⟩
  · rintro b ⟨rfl⟩
    exact ⟨rfl, fun d never => by cases never⟩

/-- The slice takes the lower end along and leaves the upper end out. -/
theorem recent_selected :
    ∃ s a b, slice followers follows .out (recent.map some ++ List.replicate 2 none) = .ok s ∧
      write followers follows (followed 10) = .ok a ∧ s.contains a.column = true ∧
      write followers follows (followed 20) = .ok b ∧ s.contains b.column = false := by
  obtain ⟨s, made, selects⟩ :=
    (slice_selects wellFormed_follows).1 .out recent 2 rfl rfl planned_recent
  have inside := selects follows (followed 10) _ rfl rfl
  have outside := selects follows (followed 20) _ rfl rfl
  refine ⟨s, _, _, made, rfl, inside.mpr ⟨rfl, rfl, ?_⟩, rfl, Bool.eq_false_iff.mpr ?_⟩
  · intro c member
    obtain rfl := List.mem_singleton.mp member
    exact ⟨.long 10, rfl, by decide⟩
  · intro contained
    obtain ⟨v, found, within⟩ := (outside.mp contained).2.2 _ List.mem_cons_self
    obtain rfl := Option.some.inj found
    exact absurd within (by decide)

end TypeSlice

end PropertyGraph
