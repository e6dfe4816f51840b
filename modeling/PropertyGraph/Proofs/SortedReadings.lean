/-
# Proofs.SortedReadings -- what a sorted slice promises

A candidate counts as sorted where the keys of the orders were met one by one among the
components that its columns are sorted by (`Constraints.Sorts`).  Components may be passed
over only where the query lists their values, and the last key may stand at a range or at a
component that the query says nothing of, but nothing behind it counts.

Each slice of a candidate fixes the listed components to one value each, so within a slice the
columns go on alike up to the last key, and that key decides (`Sorts.in_order`, by induction on
how the keys were met).  `sorted_slices` says it of every sorted slice of a plan.
-/
import PropertyGraph.Proofs.Filtering

namespace PropertyGraph

set_option autoImplicit false

open Bytes Column TypeSlice

variable {types : TypeCatalog Outcome}

/-- The values of a relation for some keys, if it has all of them. -/
def Relation.keyValues (t : RelationType) (r : Relation) (keys : List SchemaId) :
    Option (List Value) :=
  keys.mapM fun key => r.component t (.key key)

theorem Relation.keyValues_cons {t : RelationType} {r : Relation} {key : SchemaId} {v : Value}
    {keys : List SchemaId} {vs : List Value} (has : r.component t (.key key) = some v)
    (later : r.keyValues t keys = some vs) : r.keyValues t (key :: keys) = some (v :: vs) := by
  rw [keyValues, List.mapM_cons, has]
  change r.keyValues t keys >>= _ = _
  rw [later]
  rfl

/-- Whoever has values for keys is sorted by them. -/
theorem Relation.mem_sortKey_of_keyValues {t : RelationType} {r : Relation}
    {keys : List SchemaId} {vs : List Value} (has : r.keyValues t keys = some vs) :
    ∀ key ∈ keys, key ∈ t.sortKey := by
  induction keys generalizing vs with
  | nil => exact fun _ never => absurd never List.not_mem_nil
  | cons first keys ih =>
      rw [keyValues, List.mapM_cons] at has
      obtain ⟨v, here, has⟩ := Option.bind_eq_some_iff.mp has
      obtain ⟨ws, later, -⟩ := Option.bind_eq_some_iff.mp has
      exact List.forall_mem_cons.mpr ⟨mem_sortKey_of_component here, ih later⟩

namespace Constraints

/-- Columns over some components stand in the order of some keys wherever the listed
components are fixed. -/
inductive Sorts (c : Constraints) : List SortComponent → List SchemaId → Prop
  | done {components : List SortComponent} : Sorts c components []
  | last {key : SchemaId} {components : List SortComponent} :
      Sorts c (.key key :: components) [key]
  | met {key : SchemaId} {values : List Value} {components : List SortComponent}
      {keys : List SchemaId} (said : c.interval? (.key key) = some (.points values))
      (next : Sorts c components keys) : Sorts c (.key key :: components) (key :: keys)
  | passed {component : SortComponent} {values : List Value} {components : List SortComponent}
      {keys : List SchemaId} (said : c.interval? component = some (.points values))
      (next : Sorts c components keys) : Sorts c (component :: components) keys

variable {c : Constraints} {components : List SortComponent} {keys : List SchemaId}

theorem sorts_of_scoreFrom {s s' : Score}
    (unmet : Plan.scoreFrom c components keys s = (s', [])) : c.Sorts components keys := by
  induction components generalizing keys s with
  | nil =>
      obtain ⟨-, rfl⟩ := Prod.mk.inj unmet
      exact .done
  | cons component components ih =>
      cases keys with
      | nil => exact .done
      | cons key keys =>
          rw [Plan.scoreFrom] at unmet
          by_cases here : component = .key key
          · subst here
            simp only [if_true] at unmet
            split at unmet
            · rename_i values said
              exact .met said (ih unmet)
            · obtain ⟨-, rfl⟩ := Prod.mk.inj unmet
              exact .last
            · obtain ⟨-, rfl⟩ := Prod.mk.inj unmet
              exact .last
          · simp only [if_neg here] at unmet
            split at unmet
            · rename_i values said
              exact .passed said (ih unmet)
            · cases (Prod.mk.inj unmet).2
            · cases (Prod.mk.inj unmet).2

/-- A combination fixes a listed component, so two relations within it agree on it. -/
theorem Taken.fixes {component : SortComponent} {values : List Value}
    {taken : List ComponentInterval} (said : c.interval? component = some (.points values))
    (stands : c.Taken (component :: components) taken) {t : RelationType} :
    ∃ v later, c.Taken components later ∧ ∀ r, (∀ x ∈ taken, Within t r x) →
      r.component t component = some v ∧ ∀ x ∈ later, Within t r x := by
  cases stands with
  | stop unsaid => cases said.symm.trans unsaid
  | range said' => cases said.symm.trans said'
  | @point _ _ _ v later said' member next =>
      refine ⟨v, later, next, fun r within => ?_⟩
      obtain ⟨⟨w, has, contained⟩, within'⟩ := List.forall_mem_cons.mp within
      obtain rfl := List.mem_singleton.mp (List.contains_iff_mem.mp contained)
      exact ⟨has, within'⟩

end Constraints

namespace Column

variable {order : SortOrder} {t : RelationType} {r r' : Relation} {component : SortComponent}
  {components : List SortComponent} {x y : Bytes}

/-- Bytes that begin with the values of a relation for some components, spelled out. -/
def Spelling (types : TypeCatalog Outcome) (order : SortOrder) (t : RelationType) (r : Relation)
    (components : List SortComponent) (x : Bytes) : Prop :=
  ∃ pairs body rest, x = body ++ rest ∧ Spells types order pairs body ∧
    pairs.map Prod.fst = components ∧ ∀ p ∈ pairs, r.component t p.1 = some p.2

theorem Spelling.head (spelling : Spelling types order t r (component :: components) x) :
    ∃ v expected b tail, r.component t component = some v ∧
      types.componentType component = .ok expected ∧ StoredValue.write v expected = .ok b ∧
      x = oriented (component.orderIn order) b ++ tail ∧
      Spelling types order t r components tail := by
  obtain ⟨pairs, body, rest, rfl, spelled, names, values⟩ := spelling
  obtain ⟨⟨_, v⟩, pairs, rfl, rfl, restNames⟩ := List.map_eq_cons_iff.mp names
  obtain ⟨has, values⟩ := List.forall_mem_cons.mp values
  cases spelled with
  | cons typed written later =>
      exact ⟨v, _, _, _, has, typed, written, List.append_assoc _ _ _,
        pairs, _, rest, rfl, later, restNames, values⟩

/-- Where two relations agree on the first component, the bytes behind it tell the order. -/
theorem Spelling.behind (first : Spelling types order t r (component :: components) x)
    (second : Spelling types order t r' (component :: components) y)
    (same : r.component t component = r'.component t component) :
    ∃ x' y', Spelling types order t r components x' ∧ Spelling types order t r' components y' ∧
      (Before y x ↔ Before y' x') := by
  obtain ⟨v, expected, b, tail, has, typed, written, rfl, later⟩ := first.head
  obtain ⟨v', expected', b', tail', has', typed', written', rfl, later'⟩ := second.head
  obtain rfl := Except.ok.inj (typed.symm.trans typed')
  obtain rfl := Option.some.inj (has.symm.trans (same.trans has'))
  obtain rfl := Except.ok.inj (written.symm.trans written')
  exact ⟨tail, tail', later, later', before_append_iff _ _ _⟩

/-- Bytes that begin with the values for a key stand in the order of these values. -/
theorem Spelling.compare {key : SchemaId}
    (first : Spelling types order t r (.key key :: components) x)
    (second : Spelling types order t r' (.key key :: components) y) (inOrder : ¬ Before y x) :
    ∃ v w, r.component t (.key key) = some v ∧ r'.component t (.key key) = some w ∧
      turned order (Value.compare v w) ≠ .gt := by
  obtain ⟨v, expected, b, tail, has, typed, written, rfl, -⟩ := first.head
  obtain ⟨w, expected', b', tail', has', typed', written', rfl, -⟩ := second.head
  obtain rfl := Except.ok.inj (typed.symm.trans typed')
  refine ⟨v, w, has, has', fun after => inOrder ?_⟩
  have stands := stands_oriented (StoredValue.stands_of_write written written') order
  rw [after] at stands
  exact Before.append stands tail' tail

/-- A written column spells out the extended sort key behind the head of its type. -/
theorem spelling_of_write {e : Entry} (wellFormed : t.WellFormed types)
    (written : write types t r = .ok e) :
    ∃ h x, head t r.direction = .ok h ∧ e.column = h ++ x ∧
      Spelling types t.sortOrder t r (t.extendedSortKey r.direction) x := by
  obtain ⟨start, sorted, tail, parts⟩ := parts_of_write written
  obtain ⟨pairs, body, rest, column, spelled, names, values⟩ := parts.spells wellFormed
  exact ⟨start, body ++ rest, parts.begun, column, pairs, body, rest, rfl, spelled, names, values⟩

end Column

/-- Within a combination the columns of a type stand in the order of the values for the keys
that were met. -/
theorem Constraints.Sorts.in_order {c : Constraints} {order : SortOrder}
    {components : List SortComponent} {keys : List SchemaId} (sorts : c.Sorts components keys)
    {t : RelationType} {r r' : Relation} {taken : List ComponentInterval}
    (stands : c.Taken components taken) (within : ∀ x ∈ taken, Within t r x)
    (within' : ∀ x ∈ taken, Within t r' x) {x y : Bytes}
    (first : Spelling types order t r components x)
    (second : Spelling types order t r' components y) (inOrder : ¬ Before y x) :
    ∃ vs ws, r.keyValues t keys = some vs ∧ r'.keyValues t keys = some ws ∧
      turned order (List.compareLex Value.compare vs ws) ≠ .gt := by
  induction sorts generalizing taken x y with
  | done => exact ⟨[], [], rfl, rfl, by cases order <;> decide⟩
  | last =>
      obtain ⟨v, w, has, has', inTurn⟩ := first.compare second inOrder
      refine ⟨[v], [w], Relation.keyValues_cons has rfl, Relation.keyValues_cons has' rfl, ?_⟩
      rwa [List.compareLex_cons_cons, List.compareLex_nil_nil, Ordering.then_eq]
  | met said next ih =>
      -- The combination fixes the key, so both values begin alike and the rest decides.
      obtain ⟨v, later, standsLater, fixed⟩ := stands.fixes said
      obtain ⟨has, withinLater⟩ := fixed r within
      obtain ⟨has', withinLater'⟩ := fixed r' within'
      obtain ⟨x', y', first', second', onward⟩ := first.behind second (has.trans has'.symm)
      obtain ⟨vs, ws, values, values', inTurn⟩ := ih standsLater withinLater withinLater' first'
        second' (mt onward.mpr inOrder)
      refine ⟨v :: vs, v :: ws, Relation.keyValues_cons has values,
        Relation.keyValues_cons has' values', ?_⟩
      rwa [List.compareLex_cons_cons, Value.compare_self]
  | passed said next ih =>
      obtain ⟨v, later, standsLater, fixed⟩ := stands.fixes said
      obtain ⟨has, withinLater⟩ := fixed r within
      obtain ⟨has', withinLater'⟩ := fixed r' within'
      obtain ⟨x', y', first', second', onward⟩ := first.behind second (has.trans has'.symm)
      exact ih standsLater withinLater withinLater' first' second' (mt onward.mpr inOrder)

namespace Plan

variable {f : Frame} {c : Candidate} {d : Direction}

/-- A candidate that counts as sorted is sorted the way round that the orders ask for, and
by their keys. -/
theorem sorts_of_score (rated : c = (score f c.type d).2) (sorted : c.sorted = true) :
    (∀ o ∈ f.orders.head?, o.2 = c.type.sortOrder) ∧
      f.constraints.Sorts (c.type.extendedSortKey d) (f.orders.map Prod.fst) := by
  have counted := congrArg Candidate.sorted rated
  rw [sorted, score] at counted
  obtain ⟨wayRound, met⟩ := Bool.and_eq_true_iff.mp counted.symm
  rw [List.isEmpty_iff] at met
  refine ⟨fun o member => ?_, Constraints.sorts_of_scoreFrom (Prod.ext rfl met)⟩
  rw [member, Option.all_some, beq_iff_eq] at wayRound
  exact wayRound

theorem snd_eq_of_sameWay {orders : List (SchemaId × SortOrder)} {order : SortOrder}
    (first : ∀ o ∈ orders.head?, o.2 = order) (alike : sameWay orders = true) :
    ∀ o ∈ orders, o.2 = order := by
  cases orders with
  | nil => exact fun _ never => absurd never List.not_mem_nil
  | cons o rest =>
      obtain rfl := first o rfl
      simp only [sameWay, List.all_eq_true, beq_iff_eq] at alike
      exact List.forall_mem_cons.mpr ⟨rfl, alike⟩

theorem sorted_of_subQuery {taken : List ComponentInterval} {sub : SubQuery}
    (made : subQuery types f c d taken = .ok sub) : sub.sorted = c.sorted := by
  obtain ⟨s, -, made⟩ := Outcome.bind_eq_ok_iff.mp made
  obtain ⟨limited, -, made⟩ := Outcome.bind_eq_ok_iff.mp made
  obtain rfl := Except.ok.inj made
  rfl

/-- Two relations have values for the keys of orders, and the first is not after the second
the way round that the orders ask for. -/
def InOrder (orders : List (SchemaId × SortOrder)) (t : RelationType) (r : Relation)
    (t' : RelationType) (r' : Relation) : Prop :=
  ∃ order vs ws, (∀ o ∈ orders, o.2 = order) ∧ r.keyValues t (orders.map Prod.fst) = some vs ∧
    r'.keyValues t' (orders.map Prod.fst) = some ws ∧
    turned order (List.compareLex Value.compare vs ws) ≠ .gt

theorem inOrder_nil (t : RelationType) (r : Relation) (t' : RelationType) (r' : Relation) :
    InOrder [] t r t' r' :=
  ⟨.asc, [], [], fun _ never => absurd never List.not_mem_nil, rfl, rfl, by decide⟩

section Columns

variable {t t' : RelationType} {r r' : Relation} {e e' : Entry}

/-- The columns of a type in a direction that lie within one combination. -/
theorem inOrder_of_taken (wellFormed : c.type.WellFormed types)
    (rated : c = (score f c.type d).2) (sorted : c.sorted = true)
    (alike : sameWay f.orders = true) {taken : List ComponentInterval}
    (stands : f.constraints.Taken (c.type.extendedSortKey d) taken)
    (written : write types c.type r = .ok e) (written' : write types c.type r' = .ok e')
    (direction : r.direction = d) (direction' : r'.direction = d)
    (within : ∀ x ∈ taken, Within c.type r x) (within' : ∀ x ∈ taken, Within c.type r' x)
    (ascending : e.column ≤ e'.column) : InOrder f.orders c.type r c.type r' := by
  obtain ⟨wayRound, sorts⟩ := sorts_of_score rated sorted
  obtain ⟨h, x, begun, column, first⟩ := spelling_of_write wellFormed written
  obtain ⟨h', y, begun', column', second⟩ := spelling_of_write wellFormed written'
  rw [direction] at begun first
  rw [direction'] at begun' second
  obtain rfl := Except.ok.inj (begun.symm.trans begun')
  have inOrder : ¬ Before y x := by
    rw [← before_append_iff h, ← column, ← column']
    obtain before | starts := (le_iff _ _).mp ascending
    · exact before.asymm
    · exact fun back => back.not_prefix_of starts
  obtain ⟨vs, ws, values, values', inTurn⟩ :=
    sorts.in_order stands within within' first second inOrder
  exact ⟨c.type.sortOrder, vs, ws, snd_eq_of_sameWay wayRound alike, values, values', inTurn⟩

theorem inOrder_of_made {reading : Reading} {named : RelationType} (wellFormed : types.WellFormed)
    (namedWellFormed : named.WellFormed types) (made : Made types f named reading)
    (filled : ∀ said ∈ f.constraints.intervals, said.2.isEmpty = false)
    (distinct : ∀ said ∈ f.constraints.intervals, said.2.Distinct)
    (alike : sameWay f.orders = true) {sub : SubQuery} (member : sub ∈ reading.queries)
    (sorted : sub.sorted = true) (listed : types.byId t.id = .ok t)
    (listed' : types.byId t'.id = .ok t') (written : write types t r = .ok e)
    (written' : write types t' r' = .ok e') (inside : sub.slice.contains e.column = true)
    (inside' : sub.slice.contains e'.column = true) (ascending : e.column ≤ e'.column) :
    InOrder f.orders t r t' r' := by
  cases made with
  | bothWays label unsaid made limited isFitted unordered =>
      rw [unordered]
      exact inOrder_nil t r t' r'
  | oneWay proper usable expanded rated =>
      have sourceWellFormed := (usable.source wellFormed namedWellFormed).1
      have expands := usable.expands wellFormed namedWellFormed proper filled distinct expanded
      obtain ⟨taken, stands, made⟩ := expands.made sub member
      obtain ⟨rfl, direction, within⟩ :=
        (subQuery_selects sourceWellFormed proper filled stands made listed written).mp inside
      obtain ⟨rfl, direction', within'⟩ :=
        (subQuery_selects sourceWellFormed proper filled stands made listed' written').mp inside'
      exact inOrder_of_taken sourceWellFormed rated ((sorted_of_subQuery made).symm.trans sorted)
        alike stands written written' direction direction' within within' ascending

/-- In a sorted slice of a plan the relations come in the order that was asked for: the type of
a relation whose column lies in the slice is sorted by the keys of all orders, and of two such
relations the one whose column comes first is not after the other. -/
theorem sorted_slices (wellFormed : types.WellFormed) {s : PlanSetting} {q : VertexQuery}
    {category : RelationCategory} {p : Plan} (built : build types s q category = .ok p)
    {sub : SubQuery} (member : sub ∈ p.queries) (sorted : sub.sorted = true)
    (listed : types.byId t.id = .ok t) (listed' : types.byId t'.id = .ok t')
    (written : write types t r = .ok e) (written' : write types t' r' = .ok e')
    (inside : sub.slice.contains e.column = true) (inside' : sub.slice.contains e'.column = true)
    (ascending : e.column ≤ e'.column) :
    (∀ o ∈ p.orders, o.1 ∈ t.sortKey) ∧ InOrder p.orders t r t' r' := by
  have inOrder : InOrder p.orders t r t' r' := by
    cases (build_cases built).2 with
    | unasked limit => cases member
    | away away => cases member
    | unmet compiled => cases member
    | empty compiled said empty => cases member
    | scanned untyped toward compiled read alike =>
        obtain rfl := List.mem_singleton.mp member
        obtain ⟨slice, -, same⟩ := Outcome.bind_eq_ok_iff.mp read
        obtain rfl := Except.ok.inj same
        rw [List.isEmpty_iff.mp sorted]
        exact inOrder_nil t r t' r'
    | typed typed toward compiled filled read queries rest ordered alike =>
        obtain ⟨name, -, named, d', reading, known, -, -, -, made, inReading⟩ :=
          exists_reading read (queries ▸ member)
        rw [ordered (List.ne_nil_of_mem member)]
        exact inOrder_of_made wellFormed (wellFormed.named name named known) made filled
          (Constraints.compiles_of_compile compiled).reflects.distinct alike inReading sorted
          listed listed' written written' inside inside' ascending
  refine ⟨fun o asked => ?_, inOrder⟩
  obtain ⟨order, vs, ws, -, values, -, -⟩ := inOrder
  exact Relation.mem_sortKey_of_keyValues values o.1 (List.mem_map_of_mem asked)

end Columns

/-- Who was followed, the latest first. -/
def latestFollowed : VertexQuery := ⟨.out, ["follows"], [], [("since", .desc)], 5, none⟩

/-- Who was followed at twenty stands in front of who was followed at ten. -/
theorem latest_followed_is_sorted :
    ∃ p sub e e', build network unchanged latestFollowed .edge = .ok p ∧ sub ∈ p.queries ∧
      sub.sorted = true ∧ write network follows (followed 20) = .ok e ∧
      write network follows (followed 10) = .ok e' ∧ e.column ≤ e'.column ∧
      sub.slice.contains e.column = true ∧ sub.slice.contains e'.column = true ∧
      p.orders = [(1, .desc)] ∧ InOrder p.orders follows (followed 20) follows (followed 10) := by
  obtain ⟨p, sub, e, e', built, queries, sorted, orders, written, written', ascending, inside,
      inside'⟩ :
      ∃ p sub e e', build network unchanged latestFollowed .edge = .ok p ∧ p.queries = [sub] ∧
        sub.sorted = true ∧ p.orders = [(1, .desc)] ∧
        write network follows (followed 20) = .ok e ∧
        write network follows (followed 10) = .ok e' ∧ e.column ≤ e'.column ∧
        sub.slice.contains e.column = true ∧ sub.slice.contains e'.column = true :=
    ⟨_, _, _, _, rfl, rfl, rfl, rfl, rfl, rfl, by decide, rfl, rfl⟩
  have member : sub ∈ p.queries := queries ▸ List.mem_cons_self
  exact ⟨p, sub, e, e', built, member, sorted, written, written', ascending, inside, inside',
    orders, (sorted_slices wellFormed_network built member sorted rfl rfl written written' inside
      inside' ascending).2⟩

end Plan

end PropertyGraph
