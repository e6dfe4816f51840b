/-
# Proofs.FreshAnswers -- registries of one schema that keep nothing stale

`Registry.Fresh` says of a registry that nothing that it keeps is stale: every relation type
is the one of its schema vertex, and every index is an object of its schema vertex whose slots
are fresh.  `agree_asked` says that two fresh registries of one schema give the same answer to
every question, whatever each of them keeps, and stay fresh.

The two may know an index by different places, so the steps of a question are related rather
than equal: `Agree` relates two questions that end alike (`Matched`) with results in a
relation, and has one lemma for each way in which questions are put together.  Questions give
up no index (`Stays`), so places of one index stay such while others are asked for; a relation
with that property is `Lasting`, and may be used of the items of a list.
-/
import Mathlib.Data.List.Forall2
import Mathlib.Data.Option.Basic
import PropertyGraph.Proofs.TrackedIndexes

namespace PropertyGraph

set_option autoImplicit false

open Schema

namespace Registry

/-- No slot of an index object is stale in a schema. -/
def FreshIn (vertices : List SchemaVertex) (i : GraphIndex) : Prop :=
  i.slots.Fresh i.vertex (vertexOf vertices)

/-- Nothing that is kept is stale. -/
structure Fresh (r : Registry) : Prop where
  types : Kept (fun _ => True) r.vertices r.types
  indexes : r.Tracks (FreshIn r.vertices)

theorem fresh_bare (r : Registry) : r.bare.Fresh := ⟨kept_nil, fun _ member => nomatch member⟩

section Fresh

variable {r : Registry} (fresh : r.Fresh)

include fresh

theorem fresh_typeObject (acyclic : Acyclic r.vertices) (id : SchemaId) :
    ((typeObject id).ask r).2.Fresh ∧ Stays r ((typeObject id).ask r).2 ∧
      ((typeObject id).ask r).1.map TypeObject.type = typeOf r.vertices id := by
  have answered := answered_typeObject acyclic (fun _ _ _ _ => trivial) id fresh.types
  have leaves : Leaves (fun s => Tracks (FreshIn r.vertices) s ∧ Stays r s) (typeObject id) :=
    leaves_typeObject (fun _ _ _ holds => ⟨holds.1, holds.2.schema, holds.2.indexes⟩) id
  obtain ⟨tracks, stays⟩ := leaves r ⟨fresh.indexes, .refl r⟩
  refine ⟨⟨?_, ?_⟩, stays, answered.fresh trivial⟩
  · rw [answered.schema]
    exact answered.kept
  · rwa [answered.schema]

/-- What leaves the types alone and the indexes fresh leaves nothing stale. -/
theorem Fresh.of_stays {after : Registry} (tracks : Tracks (FreshIn r.vertices) after)
    (stays : Stays r after) (types : after.types = r.types) : after.Fresh := by
  refine ⟨?_, ?_⟩
  · rw [types, stays.schema]
    exact fresh.types
  · rwa [stays.schema]

theorem fresh_indexObject (id : SchemaId) :
    ((indexObject id).ask r).2.Fresh ∧ Stays r ((indexObject id).ask r).2 ∧
      Indexed id ((indexObject id).ask r).2 (vertexOf r.vertices id)
        ((indexObject id).ask r).1 := by
  obtain ⟨indexed, tracks, stays, types⟩ :=
    indexed_indexObject fresh.indexes (fun v => IndexSlots.fresh_empty v _) id
  exact ⟨fresh.of_stays tracks stays types, stays, indexed⟩

theorem fresh_askIndex {α : Type} (place : Nat) (q : GraphIndex.Question α) :
    ((askIndex place q.asked).ask r).2.Fresh ∧ Stays r ((askIndex place q.asked).ask r).2 := by
  have lasting : ∀ i, FreshIn r.vertices i → FreshIn r.vertices (q.asked i r.vertex?).2 := by
    intro i good
    rw [FreshIn, GraphIndex.vertex_asked]
    exact (GraphIndex.answered q good).2
  obtain ⟨tracks, stays, types⟩ := tracks_askIndex q place fresh.indexes lasting
  exact ⟨fresh.of_stays tracks stays types, stays⟩

/-- The object at a place that is kept answers what the question means. -/
theorem answer_askIndex {α : Type} {id : SchemaId} {place : Nat}
    (member : (id, place) ∈ r.indexes) (q : GraphIndex.Question α) :
    ∃ v, vertexOf r.vertices id = some v ∧
      ((askIndex place q.asked).ask r).1 = q.meaning v (vertexOf r.vertices) := by
  obtain ⟨i, found, -, here, good⟩ := fresh.indexes _ member
  refine ⟨i.vertex, found, ?_⟩
  rw [ask_askIndex here]
  exact (GraphIndex.answered q good).1

end Fresh

/-! ## Two registries -/

/-- Two registries of one schema that keep nothing stale. -/
structure Alike (r r' : Registry) : Prop where
  acyclic : Acyclic r.vertices
  schema : r'.vertices = r.vertices
  left : r.Fresh
  right : r'.Fresh

/-- Two registries are still alike later, and gave up no index. -/
structure Further (r r' s s' : Registry) : Prop where
  alike : Alike s s'
  left : Stays r s
  right : Stays r' s'

theorem Alike.further {r r' s s' : Registry} (alike : Alike r r') (left : s.Fresh)
    (right : s'.Fresh) (stays : Stays r s) (stays' : Stays r' s') : Further r r' s s' := by
  refine ⟨⟨?_, ?_, left, right⟩, stays, stays'⟩
  · rw [stays.schema]
    exact alike.acyclic
  · rw [stays.schema, stays'.schema]
    exact alike.schema

theorem Further.trans {r r' s s' t t' : Registry} (first : Further r r' s s')
    (second : Further s s' t t') : Further r r' t t' :=
  ⟨second.alike, first.left.trans second.left, first.right.trans second.right⟩

theorem Alike.refl_further {r r' : Registry} (alike : Alike r r') : Further r r' r r' :=
  ⟨alike, .refl r, .refl r'⟩

/-- Two outcomes are results in a relation, or the same fault. -/
inductive Matched {α β : Type} (relation : α → β → Prop) : Outcome α → Outcome β → Prop
  | ok {a : α} {b : β} (related : relation a b) : Matched relation (.ok a) (.ok b)
  | error (fault : Fault) : Matched relation (.error fault) (.error fault)

theorem Matched.of_map_eq {α β γ : Type} {f : α → γ} {g : β → γ} {o : Outcome α} {o' : Outcome β}
    (same : o.map f = o'.map g) : Matched (fun a b => f a = g b) o o' := by
  cases o with
  | error fault =>
      cases o' with
      | error fault' =>
          obtain rfl := Except.error.inj same
          exact .error fault
      | ok b => cases same
  | ok a =>
      cases o' with
      | error fault' => cases same
      | ok b => exact .ok (Except.ok.inj same)

theorem Matched.imp {α β : Type} {relation relation' : α → β → Prop}
    (weaker : ∀ a b, relation a b → relation' a b) {o : Outcome α} {o' : Outcome β}
    (matched : Matched relation o o') : Matched relation' o o' := by
  cases matched with
  | ok related => exact .ok (weaker _ _ related)
  | error fault => exact .error fault

theorem Matched.eq {α : Type} {o o' : Outcome α} (matched : Matched (fun a b => a = b) o o') :
    o = o' := by
  cases matched with
  | ok related => exact congrArg Except.ok related
  | error fault => rfl

/-- Two questions end alike in two registries. -/
structure Agree {α β : Type} (relation : Registry → Registry → α → β → Prop) (q : Lookup α)
    (q' : Lookup β) (r r' : Registry) : Prop where
  further : Further r r' (q.ask r).2 (q'.ask r').2
  matched : Matched (relation (q.ask r).2 (q'.ask r').2) (q.ask r).1 (q'.ask r').1

/-- Both results are the same. -/
def Same {α : Type} (_ _ : Registry) (a b : α) : Prop := a = b

/-- A relation that outlives questions. -/
structure Lasting {α β : Type} (relation : Registry → Registry → α → β → Prop) : Prop where
  later : ∀ {r r' s s' a b}, Further r r' s s' → relation r r' a b → relation s s' a b

theorem Lasting.list {α β : Type} {relation : Registry → Registry → α → β → Prop}
    (lasting : Lasting relation) : Lasting fun r r' => List.Forall₂ (relation r r') :=
  ⟨fun further items => items.imp fun _ _ => lasting.later further⟩

theorem Lasting.option {α β : Type} {relation : Registry → Registry → α → β → Prop}
    (lasting : Lasting relation) : Lasting fun r r' => Option.Rel (relation r r') := by
  refine ⟨fun further item => ?_⟩
  cases item with
  | none => exact .none
  | some related => exact .some (lasting.later further related)

theorem lasting_same {α : Type} : Lasting (Same (α := α)) := ⟨fun _ same => same⟩

section Agree

variable {α β γ δ : Type} {r r' : Registry}
  {relation : Registry → Registry → α → β → Prop}
  {relation' : Registry → Registry → γ → δ → Prop}

theorem Agree.bind {q : Lookup α} {q' : Lookup β} {next : α → Lookup γ} {next' : β → Lookup δ}
    (first : Agree relation q q' r r')
    (then_ : ∀ s s' a b, Further r r' s s' → relation s s' a b →
      Agree relation' (next a) (next' b) s s') :
    Agree relation' (q >>= next) (q' >>= next') r r' := by
  obtain ⟨further, matched⟩ := first
  have step := Lookup.ask_bind q next r
  have step' := Lookup.ask_bind q' next' r'
  rcases asked : q.ask r with ⟨answer, s⟩
  rcases asked' : q'.ask r' with ⟨answer', s'⟩
  rw [asked, asked'] at further matched
  rw [asked] at step
  rw [asked'] at step'
  cases matched with
  | error fault =>
      refine ⟨?_, ?_⟩
      · rw [step, step']
        exact further
      · rw [step, step']
        exact .error fault
  | ok related =>
      obtain ⟨further', matched'⟩ := then_ s s' _ _ further related
      refine ⟨?_, ?_⟩
      · rw [step, step']
        exact further.trans further'
      · rw [step, step']
        exact matched'

theorem Agree.weaken {relation'' : Registry → Registry → α → β → Prop}
    (weaker : ∀ s s' a b, relation s s' a b → relation'' s s' a b) {q : Lookup α} {q' : Lookup β}
    (agree : Agree relation q q' r r') : Agree relation'' q q' r r' :=
  ⟨agree.further, agree.matched.imp (weaker _ _)⟩

theorem agree_pure (alike : Alike r r') {a : α} {b : β} (related : relation r r' a b) :
    Agree relation (pure a) (pure b) r r' :=
  ⟨alike.refl_further, .ok related⟩

theorem agree_throw (alike : Alike r r') (fault : Fault) :
    Agree relation (throw fault) (throw fault) r r' :=
  ⟨alike.refl_further, .error fault⟩

theorem agree_lift (alike : Alike r r') (o : Outcome α) :
    Agree Same (MonadLiftT.monadLift o : Lookup α) (MonadLiftT.monadLift o : Lookup α) r r' := by
  cases o with
  | error fault => exact agree_throw alike fault
  | ok a => exact agree_pure alike rfl

/-- Two questions that look at the registries first. -/
theorem agree_get {q : Registry → Lookup α} {q' : Registry → Lookup β}
    (then_ : Agree relation (q r) (q' r') r r') :
    Agree relation (get >>= q) (get >>= q') r r' := by
  have look : (get >>= q).ask r = (q r).ask r := Lookup.ask_bind ..
  have look' : (get >>= q').ask r' = (q' r').ask r' := Lookup.ask_bind ..
  exact ⟨look ▸ look' ▸ then_.further, look ▸ look' ▸ then_.matched⟩

/-- The same question about each item of two lists. -/
theorem Agree.mapM (lasting : Lasting relation) (lasting' : Lasting relation')
    {q : α → Lookup γ} {q' : β → Lookup δ}
    (each : ∀ {s s' a b}, Alike s s' → relation s s' a b → Agree relation' (q a) (q' b) s s')
    {l : List α} {l' : List β} (alike : Alike r r') (items : List.Forall₂ (relation r r') l l') :
    Agree (fun s s' => List.Forall₂ (relation' s s')) (l.mapM q) (l'.mapM q') r r' := by
  induction l generalizing l' r r' with
  | nil =>
      cases items
      rw [List.mapM_nil, List.mapM_nil]
      exact agree_pure alike .nil
  | cons a rest ih =>
      obtain ⟨b, rest', related, others, rfl⟩ := List.forall₂_cons_left_iff.mp items
      rw [List.mapM_cons, List.mapM_cons]
      refine (each alike related).bind fun s s' c d further here => ?_
      refine (ih further.alike (lasting.list.later further others)).bind
        fun t t' cs ds further' there => ?_
      exact agree_pure further'.alike (.cons (lasting'.later further' here) there)

end Agree

/-! ## The same questions -/

section Questions

variable {r r' : Registry}

/-- The types are the same, whatever the marks of the objects are. -/
def SameType (_ _ : Registry) (o o' : TypeObject) : Prop := o.type = o'.type

/-- Two places are those of one index. -/
def SameIndex (r r' : Registry) (place place' : Nat) : Prop :=
  ∃ id, (id, place) ∈ r.indexes ∧ (id, place') ∈ r'.indexes

theorem lasting_sameIndex : Lasting SameIndex := by
  refine ⟨?_⟩
  rintro r r' s s' place place' further ⟨id, member, member'⟩
  exact ⟨id, further.left.indexes member, further.right.indexes member'⟩

theorem agree_typeObject (alike : Alike r r') (id : SchemaId) :
    Agree SameType (typeObject id) (typeObject id) r r' := by
  have acyclic' : Acyclic r'.vertices := alike.schema ▸ alike.acyclic
  obtain ⟨fresh, stays, answer⟩ := fresh_typeObject alike.left alike.acyclic id
  obtain ⟨fresh', stays', answer'⟩ := fresh_typeObject alike.right acyclic' id
  refine ⟨alike.further fresh fresh' stays stays', .of_map_eq ?_⟩
  rw [answer, answer', alike.schema]

theorem agree_relationType (alike : Alike r r') (id : SchemaId) :
    Agree Same (relationType id) (relationType id) r r' :=
  (agree_typeObject alike id).bind fun _ _ _ _ further same => agree_pure further.alike same

theorem Alike.named? (alike : Alike r r') (name : String) : r'.named? name = r.named? name := by
  rw [Registry.named?, alike.schema, Registry.named?]

theorem Alike.vertex? (alike : Alike r r') (id : SchemaId) : r'.vertex? id = r.vertex? id := by
  rw [Registry.vertex?, alike.schema, Registry.vertex?]

theorem agree_typeNamed (alike : Alike r r') (name : String) :
    Agree Same (typeNamed name) (typeNamed name) r r' := by
  refine agree_get ?_
  rw [alike.named? name]
  cases r.named? name with
  | none => exact agree_pure alike rfl
  | some v =>
      simp only
      split
      · exact (agree_relationType alike v.id).bind fun _ _ _ _ further same =>
          agree_pure further.alike (congrArg some same)
      · exact agree_pure alike rfl

theorem lasting_sameType : Lasting SameType := ⟨fun _ same => same⟩

theorem types_eq {objects objects' : List TypeObject}
    (same : List.Forall₂ (SameType r r') objects objects') :
    objects.map TypeObject.type = objects'.map TypeObject.type := by
  induction same with
  | nil => rfl
  | cons here _ ih => exact congrArg₂ List.cons here ih

theorem agree_objectsWithIndexes (alike : Alike r r') (id : SchemaId) :
    Agree (fun s s' => List.Forall₂ (SameType s s')) (objectsWithIndexes id)
      (objectsWithIndexes id) r r' := by
  refine agree_get ?_
  rw [alike.vertex? id]
  cases r.vertex? id with
  | none => exact agree_throw alike _
  | some v =>
      refine (agree_typeObject alike id).bind fun s s' o o' further same => ?_
      have others : Agree (fun t t' => List.Forall₂ (SameType t t'))
          ((v.related .relationTypeIndex .out).mapM fun e => typeObject e.other)
          ((v.related .relationTypeIndex .out).mapM fun e => typeObject e.other) s s' := by
        refine .mapM lasting_same lasting_sameType ?_ further.alike
          (List.forall₂_same.mpr fun e _ => rfl)
        rintro t t' e _ alike rfl
        exact agree_typeObject alike e.other
      exact others.bind fun _ _ _ _ further' more => agree_pure further'.alike (.cons same more)

theorem agree_withIndexes (alike : Alike r r') (t : RelationType) :
    Agree Same (withIndexes t) (withIndexes t) r r' :=
  (agree_objectsWithIndexes alike t.id).bind fun _ _ _ _ further same =>
    agree_pure further.alike (types_eq same)

theorem agree_indexObject (alike : Alike r r') (id : SchemaId) :
    Agree SameIndex (indexObject id) (indexObject id) r r' := by
  obtain ⟨fresh, stays, indexed⟩ := fresh_indexObject alike.left id
  obtain ⟨fresh', stays', indexed'⟩ := fresh_indexObject alike.right id
  rw [alike.schema] at indexed'
  refine ⟨alike.further fresh fresh' stays stays', ?_⟩
  generalize vertexOf r.vertices id = found at indexed indexed'
  generalize ((indexObject id).ask r).1 = answer at indexed ⊢
  generalize ((indexObject id).ask r').1 = answer' at indexed' ⊢
  cases indexed with
  | missing =>
      cases indexed'
      exact .error _
  | other no =>
      cases indexed' with
      | other _ => exact .error _
      | kept yes _ => exact absurd (no.symm.trans yes) Bool.false_ne_true
  | kept yes member =>
      cases indexed' with
      | other no => exact absurd (no.symm.trans yes) Bool.false_ne_true
      | kept _ member' => exact .ok ⟨id, member, member'⟩

theorem agree_indexNamed (alike : Alike r r') (name : String) :
    Agree (fun s s' => Option.Rel (SameIndex s s')) (indexNamed name) (indexNamed name) r r' := by
  refine agree_get ?_
  rw [alike.named? name]
  cases r.named? name with
  | none => exact agree_pure alike .none
  | some v =>
      simp only
      split
      · exact (agree_indexObject alike v.id).bind fun _ _ _ _ further same =>
          agree_pure further.alike (.some same)
      · exact agree_pure alike .none

theorem agree_allIndexes (alike : Alike r r') :
    Agree (fun s s' => List.Forall₂ (SameIndex s s')) allIndexes allIndexes r r' := by
  refine agree_get ?_
  rw [alike.schema]
  refine .mapM lasting_same lasting_sameIndex ?_ alike (List.forall₂_same.mpr fun v _ => rfl)
  rintro s s' v _ alike rfl
  exact agree_indexObject alike v.id

/-- The objects of one index answer alike. -/
theorem agree_askIndex {α : Type} (alike : Alike r r') {place place' : Nat}
    (same : SameIndex r r' place place') (q : GraphIndex.Question α) :
    Agree Same (askIndex place q.asked) (askIndex place' q.asked) r r' := by
  obtain ⟨id, member, member'⟩ := same
  obtain ⟨fresh, stays⟩ := fresh_askIndex alike.left place q
  obtain ⟨fresh', stays'⟩ := fresh_askIndex alike.right place' q
  obtain ⟨v, found, answer⟩ := answer_askIndex alike.left member q
  obtain ⟨w, found', answer'⟩ := answer_askIndex alike.right member' q
  rw [alike.schema] at found' answer'
  obtain rfl : v = w := Option.some.inj (found.symm.trans found')
  refine ⟨alike.further fresh fresh' stays stays', ?_⟩
  rw [answer, answer']
  cases q.meaning v (vertexOf r.vertices) with
  | error fault => exact .error fault
  | ok a => exact .ok rfl

/-- The objects of one index, at their places. -/
theorem objects_of_sameIndex (alike : Alike r r') {place place' : Nat}
    (same : SameIndex r r' place place') :
    ∃ i i', r.objects[place]? = some i ∧ r'.objects[place']? = some i' ∧
      i'.vertex = i.vertex := by
  obtain ⟨id, member, member'⟩ := same
  obtain ⟨i, found, -, here, -⟩ := alike.left.indexes _ member
  obtain ⟨i', found', -, here', -⟩ := alike.right.indexes _ member'
  rw [alike.vertex?] at found'
  exact ⟨i, i', here, here', Option.some.inj (found'.symm.trans found)⟩

/-! ## The choice of an index -/

/-- Candidates that cover the same by one index. -/
structure SameCandidate (r r' : Registry) (c c' : IndexCandidate) : Prop where
  place : SameIndex r r' c.place c'.place
  covered : c.covered = c'.covered
  cover : c.cover = c'.cover

theorem lasting_sameCandidate : Lasting SameCandidate :=
  ⟨fun further same => ⟨lasting_sameIndex.later further same.place, same.covered, same.cover⟩⟩

theorem SameCandidate.of_found {place place' : Nat} (same : SameIndex r r' place place')
    (labelled : List Nat) (found : Option (List Nat × IndexCover)) :
    Option.Rel (SameCandidate r r')
      (found.map fun (covered, cover) =>
        ⟨place, Sorted.ofList id (labelled ++ covered), cover⟩)
      (found.map fun (covered, cover) =>
        ⟨place', Sorted.ofList id (labelled ++ covered), cover⟩) := by
  cases found with
  | none => exact .none
  | some found => exact .some ⟨same, rfl, rfl⟩

theorem agree_candidate (alike : Alike r r') {place place' : Nat}
    (same : SameIndex r r' place place') (element : Element) (conditions : List Condition) :
    Agree (fun s s' => Option.Rel (SameCandidate s s'))
      (IndexChoice.candidate place element conditions)
      (IndexChoice.candidate place' element conditions) r r' := by
  obtain ⟨i, i', here, here', vertex⟩ := objects_of_sameIndex alike same
  refine agree_get ?_
  simp only [here, here', GraphIndex.status, GraphIndex.element, GraphIndex.isComposite,
    GraphIndex.isMixed, vertex]
  refine (agree_lift alike _).bind fun s s' status _ further equal => ?_
  obtain rfl := equal
  split
  · exact agree_pure further.alike .none
  refine (agree_lift further.alike _).bind fun t t' about _ further' equal => ?_
  obtain rfl := equal
  split
  · exact agree_pure further'.alike .none
  -- What was asked so far may have made objects, but the two places are still those of the index.
  have before := further.trans further'
  have still := lasting_sameIndex.later before same
  refine (agree_askIndex before.alike still .constraint).bind fun u u' label _ after equal => ?_
  obtain rfl := equal
  split
  · exact agree_pure after.alike .none
  have still' := lasting_sameIndex.later after still
  refine (agree_askIndex after.alike still' .fields).bind fun w w' fields _ last equal => ?_
  obtain rfl := equal
  exact agree_pure last.alike (SameCandidate.of_found (lasting_sameIndex.later last still') _ _)

theorem agree_rankOf (alike : Alike r r') {c c' : IndexCandidate} (same : SameCandidate r r' c c') :
    Agree Same (IndexChoice.rankOf c) (IndexChoice.rankOf c') r r' := by
  obtain ⟨i, i', here, here', vertex⟩ := objects_of_sameIndex alike same.place
  refine agree_get ?_
  simp only [here, here', GraphIndex.isComposite, GraphIndex.isMixed, vertex, same.covered]
  split
  · refine (agree_askIndex alike same.place .cardinality).bind fun _ _ _ _ further equal => ?_
    exact agree_pure further.alike (equal ▸ rfl)
  · exact agree_pure alike rfl

/-- The best so far have the same rank. -/
def SameBest (r r' : Registry) (b b' : Nat × IndexCandidate) : Prop :=
  b.1 = b'.1 ∧ SameCandidate r r' b.2 b'.2

theorem lasting_sameBest : Lasting SameBest :=
  ⟨fun further same => ⟨same.1, lasting_sameCandidate.later further same.2⟩⟩

/-- A candidate beats the best of both sides or of none. -/
theorem SameBest.all_lt {best best' : Option (Nat × IndexCandidate)}
    (top : Option.Rel (SameBest r r') best best') (rank : Nat) :
    (best.all fun top => top.1 < rank) = best'.all fun top => top.1 < rank := by
  cases top with
  | none => rfl
  | some same =>
      simp only [Option.all_some]
      rw [same.1]

theorem agree_bestOf (element : Element) (conditions : List Condition) {places places' : List Nat}
    {best best' : Option (Nat × IndexCandidate)} (alike : Alike r r')
    (same : List.Forall₂ (SameIndex r r') places places')
    (top : Option.Rel (SameBest r r') best best') :
    Agree (fun s s' => Option.Rel (SameBest s s'))
      (IndexChoice.bestOf element conditions places best)
      (IndexChoice.bestOf element conditions places' best') r r' := by
  -- The registries change with every place, and with them what relates the rest and the best.
  induction places generalizing places' best best' r r' with
  | nil =>
      cases same
      exact agree_pure alike top
  | cons place rest ih =>
      obtain ⟨place', rest', here, others, rfl⟩ := List.forall₂_cons_left_iff.mp same
      refine (agree_candidate alike here element conditions).bind
        fun s s' found found' further candidates => ?_
      have others' := lasting_sameIndex.list.later further others
      have top' := lasting_sameBest.option.later further top
      cases candidates with
      | none => exact ih further.alike others' top'
      | some same =>
          refine (agree_rankOf further.alike same).bind fun t t' rank _ further' equal => ?_
          obtain rfl := equal
          have others'' := lasting_sameIndex.list.later further' others'
          have top'' := lasting_sameBest.option.later further' top'
          have same' := lasting_sameCandidate.later further' same
          refine ih further'.alike others'' ?_
          rw [SameBest.all_lt top'']
          split
          · exact .some ⟨rfl, same'⟩
          · exact top''

theorem agree_select (alike : Alike r r') (element : Element) (conditions : List Condition) :
    Agree (fun s s' => Option.Rel (SameCandidate s s')) (IndexChoice.select element conditions)
      (IndexChoice.select element conditions) r r' := by
  refine (agree_allIndexes alike).bind fun s s' places places' further same => ?_
  refine (agree_bestOf element conditions further.alike same .none).bind
    fun t t' best best' further' top => ?_
  refine agree_pure further'.alike ?_
  cases top with
  | none => exact .none
  | some same => exact .some same.2

/-- A question is answered alike. -/
theorem agree_asked {α : Type} (q : Question α) (alike : Alike r r') :
    Agree Same q.asked q.asked r r' := by
  cases q with
  | relationType id => exact agree_relationType alike id
  | typeNamed name => exact agree_typeNamed alike name
  | withIndexes t => exact agree_withIndexes alike t
  | index id q =>
      exact (agree_indexObject alike id).bind fun _ _ _ _ further same =>
        agree_askIndex further.alike same q
  | indexNamed name q =>
      refine (agree_indexNamed alike name).bind fun s s' found found' further same => ?_
      cases same with
      | none => exact agree_pure further.alike rfl
      | some same =>
          refine (agree_askIndex further.alike same q).bind fun _ _ _ _ further' equal => ?_
          exact agree_pure further'.alike (congrArg some equal)
  | allIndexes q =>
      refine (agree_allIndexes alike).bind fun s s' places places' further same => ?_
      refine Agree.weaken (fun _ _ l l' same => ?_) (.mapM lasting_sameIndex lasting_same
        (fun alike same => agree_askIndex alike same q) further.alike same)
      have items : List.Forall₂ Eq l l' := same
      rwa [List.forall₂_eq_eq_eq] at items
  | select element conditions =>
      refine (agree_select alike element conditions).bind fun s s' found found' further same => ?_
      cases same with
      | none => exact agree_pure further.alike rfl
      | some same =>
          refine (agree_askIndex further.alike same.place .vertex).bind
            fun _ _ v _ further' equal => ?_
          obtain rfl := equal
          rw [same.covered, same.cover]
          exact agree_pure further'.alike rfl

end Questions

end Registry

end PropertyGraph
