/-
# Proofs.SteadyIndexes -- an index answers the same until the schema changes

An index object keeps what it derived, so what it answers may be stale.  But asked again it
answers the same (`GraphIndex.asked_again`), and it makes no difference whether the registry
makes it for this question or kept it from an earlier one.  So what an index answers is settled
by the registry that is asked, whatever else is asked first (`Registry.steady_asked`): a
question that asks several indexes one after the other sees each of them as if it were asked
alone.

`Registry.ComesTo` says so of a question that is asked later: it leaves the answers as they are,
and its own answer is an outcome that is stated in terms of them.
-/
import PropertyGraph.Proofs.ResetCaches

namespace PropertyGraph

set_option autoImplicit false

open Schema

namespace LazySlot

variable {α : Type}

/-- Asked again, a slot answers the same. -/
theorem getOrInit_again (s : LazySlot α) (compute : Outcome α) :
    ((s.getOrInit compute).2.getOrInit compute).1 = (s.getOrInit compute).1 := by
  obtain ⟨value, ready, same⟩ | ⟨answer, holds⟩ := s.getOrInit_cases compute
  · rw [same, getOrInit_of_ready ready]
  · rw [answer, (getOrInit_of_holds holds).1]

end LazySlot

namespace GraphIndex

variable {i : GraphIndex} {w : SchemaId → Option SchemaVertex}

/-- The fields by their keys are those that are kept, or made of the fields that the object
answers. -/
theorem answer_fieldsByKey (i : GraphIndex) (w : SchemaId → Option SchemaVertex) :
    (i.fieldsByKey w).1 =
      match i.slots.byKey.get? with
      | some kept => .ok kept
      | none => (i.fieldKeys w).1.map keyed := by
  cases kept : i.slots.byKey.content with
  | ready byKey => simp [fieldsByKey, LazySlot.getOrInitWith, LazySlot.get?, kept]
  | _ =>
      simp only [fieldsByKey, LazySlot.getOrInitWith, LazySlot.get?, kept]
      exact (LazySlot.finish_of_computing (s := i.slots.byKey.begin) rfl _).1

/-- An object that was asked for a field answers the same fields, and keeps them by their keys
unless there are none. -/
theorem slots_fieldsByKey (i : GraphIndex) (w : SchemaId → Option SchemaVertex) :
    ((i.fieldsByKey w).2.fieldKeys w).1 = (i.fieldKeys w).1 ∧
      ((i.fieldsByKey w).2.slots.byKey = i.slots.byKey ∨
        i.slots.byKey.get? = none ∧
          (i.fieldsByKey w).2.slots.byKey.Holds (i.fieldsByKey w).1) := by
  have answer := answer_fieldsByKey i w
  cases kept : i.slots.byKey.content with
  | ready byKey =>
      have same : (i.fieldsByKey w).2 = i := by
        simp [fieldsByKey, LazySlot.getOrInitWith, kept]
      rw [same]
      exact ⟨rfl, .inl rfl⟩
  | _ =>
      simp only [LazySlot.get?, kept] at answer
      rw [answer]
      simp only [fieldsByKey, LazySlot.getOrInitWith, kept]
      exact ⟨LazySlot.getOrInit_again .., .inr
        ⟨by simp [LazySlot.get?, kept], (LazySlot.finish_of_computing rfl _).2⟩⟩

/-- Asked for a field after any question, an object answers the same. -/
theorem fieldsByKey_of_byKey {j : GraphIndex} (fields : (j.fieldKeys w).1 = (i.fieldKeys w).1)
    (byKey : j.slots.byKey = i.slots.byKey ∨
      i.slots.byKey.get? = none ∧ j.slots.byKey.Holds (i.fieldsByKey w).1) :
    (j.fieldsByKey w).1 = (i.fieldsByKey w).1 := by
  have mine := answer_fieldsByKey i w
  rw [answer_fieldsByKey, fields]
  obtain same | ⟨nothing, unset | ⟨kept, ready, answer⟩⟩ := byKey
  · rw [same, ← mine]
  · rw [nothing] at mine
    simp only [LazySlot.get?, unset, mine]
  · simp only [LazySlot.get?, ready, answer]

/-- What an object answers to one question does not depend on what it was asked before. -/
theorem asked_again {α β : Type} (q : Question α) (q' : Question β) (i : GraphIndex)
    (w : SchemaId → Option SchemaVertex) :
    (q'.asked (q.asked i w).2 w).1 = (q'.asked i w).1 := by
  -- A question changes the slots that it reads, so only questions that share a slot are at stake.
  have fields : ((i.fieldKeys w).2.fieldKeys w).1 = (i.fieldKeys w).1 :=
    LazySlot.getOrInit_again ..
  cases q with
  | vertex => rfl
  | status => rfl
  | element => rfl
  | fields =>
      cases q' with
      | fields => exact fields
      | field key =>
          exact congrArg (Except.map fun fields => fields.lookup key)
            (fieldsByKey_of_byKey fields (.inl rfl))
      | _ => rfl
  | field key =>
      obtain ⟨fields, byKey⟩ := slots_fieldsByKey i w
      cases q' with
      | fields => exact fields
      | field key' =>
          exact congrArg (Except.map fun fields => fields.lookup key')
            (fieldsByKey_of_byKey fields byKey)
      | _ => rfl
  | constraint =>
      cases q' with
      | constraint => exact LazySlot.getOrInit_again ..
      | _ => rfl
  | cardinality =>
      cases q' with
      | cardinality => exact LazySlot.getOrInit_again ..
      | _ => rfl
  | consistency =>
      cases q' with
      | consistency =>
          exact i.slots.consistency.getOrInit_again (.ok i.vertex.definition.consistency)
      | _ => rfl
  | backingIndex =>
      cases q' with
      | backingIndex => exact LazySlot.getOrInit_again ..
      | _ => rfl
  | storeName =>
      cases q' with
      | storeName => exact LazySlot.getOrInit_again ..
      | _ => rfl

/-- An index is of one of two kinds. -/
theorem isComposite_eq (index : i.vertex.kind.isIndex = true) :
    i.isComposite = (i.vertex.kind == .compositeIndex) := by
  unfold isComposite isMixed
  cases kind : i.vertex.kind <;> simp_all [VertexKind.isIndex]

end GraphIndex

namespace Registry

/-- What the index of a number answers to a question. -/
def indexAnswer {α : Type} (r : Registry) (id : SchemaId) (q : GraphIndex.Question α) :
    Outcome α := ((Question.index id q).asked.ask r).1

/-- The object of an index: the one that is kept, or else a new one. -/
def indexAt (r : Registry) (id : SchemaId) : Outcome GraphIndex :=
  match r.indexes.lookup id with
  | some place =>
      match r.objects[place]? with
      | some i => .ok i
      | none => .error (.notFound .index)
  | none =>
      match r.vertex? id with
      | some v => GraphIndex.ofVertex v
      | none => .error (.notFound .index)

section Steady

variable {r s t : Registry}

theorem ask_indexObject_of_kept {id : SchemaId} {place : Nat}
    (kept : r.indexes.lookup id = some place) : (indexObject id).ask r = (.ok place, r) := by
  rw [indexObject, Lookup.ask_bind, Lookup.ask_get]
  simp only [kept]
  rfl

theorem ask_askIndex_of_missing {α : Type} {place : Nat} (missing : r.objects[place]? = none)
    (question : GraphIndex → (SchemaId → Option SchemaVertex) → Outcome α × GraphIndex) :
    (askIndex place question).ask r = (.error (.notFound .index), r) := by
  rw [askIndex, Lookup.ask_bind, Lookup.ask_get]
  simp only [missing]
  rfl

/-- A new object of an index vertex. -/
def added (r : Registry) (v : SchemaVertex) (id : SchemaId) : Registry :=
  { r with
    indexes := (id, r.objects.length) :: r.indexes
    objects := r.objects ++ [⟨v, .empty⟩] }

/-- An index that is not kept is made, if there is one. -/
theorem ask_indexObject_of_absent {id : SchemaId} (absent : r.indexes.lookup id = none) :
    (indexObject id).ask r =
      match r.vertex? id with
      | none => (.error (.notFound .index), r)
      | some v =>
          if v.kind.isIndex then (.ok r.objects.length, r.added v id)
          else (.error (.schema (.notIndex v.name (Named.name v.kind))), r) := by
  rw [indexObject, Lookup.ask_bind, Lookup.ask_get]
  simp only [absent]
  cases r.vertex? id with
  | none => rfl
  | some v =>
      simp only [Lookup.ask_bind, Lookup.ask_lift, GraphIndex.ofVertex]
      cases v.kind.isIndex <;> rfl

/-- An index answers what its object does. -/
theorem indexAnswer_eq {α : Type} (r : Registry) (id : SchemaId) (q : GraphIndex.Question α) :
    r.indexAnswer id q = r.indexAt id >>= fun i => (q.asked i r.vertex?).1 := by
  rw [indexAnswer, Question.asked, Lookup.ask_bind, indexAt]
  cases kept : r.indexes.lookup id with
  | some place =>
      rw [ask_indexObject_of_kept kept]
      simp only
      cases here : r.objects[place]? with
      | none => rw [ask_askIndex_of_missing here]; rfl
      | some i => rw [ask_askIndex here]; rfl
  | none =>
      rw [ask_indexObject_of_absent kept]
      cases r.vertex? id with
      | none => rfl
      | some v =>
          simp only [GraphIndex.ofVertex]
          cases v.kind.isIndex with
          | false => rfl
          | true =>
              simp only [if_true]
              rw [ask_askIndex (i := ⟨v, .empty⟩) List.getElem?_concat_length]
              rfl

/-- The schema is the same, what was kept still is, and every index answers the same. -/
structure Steady (r s : Registry) : Prop where
  tracked : Tracked s
  vertices : s.vertices = r.vertices
  kept : ∀ id place, r.indexes.lookup id = some place → s.indexes.lookup id = some place
  answers : ∀ {α : Type} (id : SchemaId) (q : GraphIndex.Question α),
    s.indexAnswer id q = r.indexAnswer id q

theorem Steady.refl (tracked : Tracked r) : Steady r r :=
  ⟨tracked, rfl, fun _ _ kept => kept, fun _ _ => rfl⟩

theorem Steady.trans (first : Steady r s) (second : Steady s t) : Steady r t :=
  ⟨second.tracked, second.vertices.trans first.vertices,
    fun id place kept => second.kept id place (first.kept id place kept),
    fun id q => (second.answers id q).trans (first.answers id q)⟩

theorem vertex?_congr (same : s.vertices = r.vertices) : s.vertex? = r.vertex? := by
  funext id
  rw [vertex?, same, vertex?]

/-- An index answers the same if its object is the same, or one that answers the same. -/
theorem steady_of_objects (tracked : Tracked s) (vertices : s.vertices = r.vertices)
    (kept : ∀ id place, r.indexes.lookup id = some place → s.indexes.lookup id = some place)
    (objects : ∀ {α : Type} (id : SchemaId) (q : GraphIndex.Question α),
      (s.indexAt id >>= fun i => (q.asked i r.vertex?).1) =
        r.indexAt id >>= fun i => (q.asked i r.vertex?).1) : Steady r s := by
  refine ⟨tracked, vertices, kept, fun id q => ?_⟩
  rw [indexAnswer_eq, indexAnswer_eq, vertex?_congr vertices]
  exact objects id q

/-- A question to an object changes no answer, be it of this index or of another one. -/
theorem steady_askIndex {α : Type} (tracked : Tracked r) (place : Nat)
    (q : GraphIndex.Question α) : Steady r ((askIndex place q.asked).ask r).2 := by
  have after := (tracks_askIndex q place tracked fun _ _ => trivial).1
  cases here : r.objects[place]? with
  | none =>
      rw [ask_askIndex_of_missing here]
      exact .refl tracked
  | some i =>
      rw [ask_askIndex here] at after ⊢
      refine steady_of_objects after rfl (fun _ _ kept => kept) fun id q' => ?_
      unfold indexAt
      cases r.indexes.lookup id with
      | none => rfl
      | some other =>
          simp only
          by_cases same : place = other
          · subst same
            obtain ⟨inside, -⟩ := List.getElem?_eq_some_iff.mp here
            rw [List.getElem?_set_self inside, here]
            exact GraphIndex.asked_again q q' i r.vertex?
          · rw [List.getElem?_set_ne same]

theorem lookup_added (r : Registry) (v : SchemaVertex) (id other : SchemaId) :
    (r.added v id).indexes.lookup other =
      if other = id then some r.objects.length else r.indexes.lookup other :=
  lookup_cons_eq_ite id other _ _

/-- A new object is the one that would have been made for any question, and the others stay. -/
theorem indexAt_added {v : SchemaVertex} {id : SchemaId} (tracked : Tracked r)
    (absent : r.indexes.lookup id = none) (found : r.vertex? id = some v)
    (index : v.kind.isIndex = true) (other : SchemaId) :
    (r.added v id).indexAt other = r.indexAt other := by
  unfold indexAt
  rw [lookup_added]
  by_cases own : other = id
  · subst own
    rw [if_pos rfl, absent, found]
    simp only [added, List.getElem?_concat_length, GraphIndex.ofVertex, index, if_true]
  · rw [if_neg own]
    cases kept : r.indexes.lookup other with
    | none => rfl
    | some place =>
        obtain ⟨i, -, -, here, -⟩ := tracked _ (mem_of_lookup kept)
        obtain ⟨inside, -⟩ := List.getElem?_eq_some_iff.mp here
        simp only [added, List.getElem?_append_left inside]

/-- A new object answers what it would have answered if it had been made for the question. -/
theorem steady_indexObject (tracked : Tracked r) (id : SchemaId) :
    Steady r ((indexObject id).ask r).2 := by
  obtain ⟨-, after, -⟩ := indexed_indexObject tracked (fun _ => trivial) id
  cases absent : r.indexes.lookup id with
  | some place =>
      rw [ask_indexObject_of_kept absent]
      exact .refl tracked
  | none =>
      rw [ask_indexObject_of_absent absent] at after ⊢
      cases found : r.vertex? id with
      | none => exact .refl tracked
      | some v =>
          simp only [found] at after ⊢
          split
          · rename_i index
            rw [if_pos index] at after
            refine steady_of_objects after rfl (fun other place kept => ?_) fun other q => ?_
            · have apart : other ≠ id := by
                rintro rfl
                rw [absent] at kept
                cases kept
              rw [lookup_added, if_neg apart, kept]
            · rw [indexAt_added tracked absent found index]
          · exact .refl tracked

theorem steady_typeObject (tracked : Tracked r) (id : SchemaId) :
    Steady r ((typeObject id).ask r).2 := by
  have keeps : Leaves (Steady r) (typeObject id) := by
    refine leaves_typeObject (fun s _ _ steady => ?_) id
    refine ⟨steady.tracked, steady.vertices, steady.kept, fun id q => ?_⟩
    rw [indexAnswer_eq, ← steady.answers, indexAnswer_eq]
    rfl
  exact keeps r (.refl tracked)

/-- Whatever a registry is asked, each index answers the same as before. -/
theorem steady_asked {α : Type} (tracked : Tracked r) (q : Question α) :
    Steady r (q.asked.ask r).2 := by
  have keeps : Leaves (Steady r) q.asked :=
    leaves_asked (fun id _ steady => steady.trans (steady_typeObject steady.tracked id))
      (fun id _ steady => steady.trans (steady_indexObject steady.tracked id))
      (fun place q _ steady => steady.trans (steady_askIndex steady.tracked place q)) q
  exact keeps r (.refl tracked)

end Steady

theorem indexAnswer_of_kept {α : Type} {r : Registry} {id : SchemaId} {place : Nat}
    {i : GraphIndex} (kept : r.indexes.lookup id = some place)
    (here : r.objects[place]? = some i) (q : GraphIndex.Question α) :
    r.indexAnswer id q = (q.asked i r.vertex?).1 := by
  rw [indexAnswer_eq, indexAt, kept]
  simp only [here]
  rfl

section ComesTo

variable {α β γ δ : Type} {s : Registry} {relation : Registry → α → β → Prop}
  {relation' : Registry → γ → δ → Prop}

/-- A question changes no answer of an index, and its own is an outcome in a relation. -/
structure ComesTo (relation : Registry → α → β → Prop) (q : Lookup α) (s : Registry)
    (o : Outcome β) : Prop where
  steady : Steady s (q.ask s).2
  matched : Matched (relation (q.ask s).2) (q.ask s).1 o

theorem ComesTo.bind {q : Lookup α} {o : Outcome β} {next : α → Lookup γ}
    {next' : β → Outcome δ} (first : ComesTo relation q s o)
    (then_ : ∀ t a b, Steady s t → relation t a b → ComesTo relation' (next a) t (next' b)) :
    ComesTo relation' (q >>= next) s (o >>= next') := by
  obtain ⟨steady, matched⟩ := first
  have step := Lookup.ask_bind q next s
  rcases asked : q.ask s with ⟨answer, t⟩
  rw [asked] at steady matched step
  cases matched with
  | error fault =>
      refine ⟨?_, ?_⟩
      · rw [step]
        exact steady
      · rw [step]
        exact .error fault
  | ok related =>
      obtain ⟨steady', matched'⟩ := then_ t _ _ steady related
      refine ⟨?_, ?_⟩
      · rw [step]
        exact steady.trans steady'
      · rw [step]
        exact matched'

/-- A question whose answer is only needed for the next one. -/
theorem ComesTo.step {relation : Registry → α → Unit → Prop} {q : Lookup α}
    {next : α → Lookup γ} {o : Outcome δ} (first : ComesTo relation q s (.ok ()))
    (then_ : ∀ t a, Steady s t → relation t a () → ComesTo relation' (next a) t o) :
    ComesTo relation' (q >>= next) s o :=
  @ComesTo.bind _ _ _ _ _ _ _ q (.ok ()) next (fun _ => o) first fun t a _ => then_ t a

theorem comesTo_pure (tracked : Tracked s) {a : α} {b : β} (related : relation s a b) :
    ComesTo relation (pure a) s (.ok b) := ⟨.refl tracked, .ok related⟩

theorem comesTo_lift (tracked : Tracked s) (o : Outcome α) :
    ComesTo (fun _ => Eq) (MonadLiftT.monadLift o : Lookup α) s o := by
  cases o with
  | error fault => exact ⟨.refl tracked, .error fault⟩
  | ok a => exact comesTo_pure tracked rfl

theorem comesTo_get {q : Registry → Lookup α} {o : Outcome β} (then_ : ComesTo relation (q s) s o) :
    ComesTo relation (get >>= q) s o := by
  have look : (get >>= q).ask s = (q s).ask s := Lookup.ask_bind ..
  exact ⟨look ▸ then_.steady, look ▸ then_.matched⟩

end ComesTo

section

variable {r s : Registry} {v : SchemaVertex} {place : Nat}

/-- The place of the object of an index, in a registry that came of questions. -/
structure Stands (r s : Registry) (v : SchemaVertex) (place : Nat) : Prop where
  steady : Steady r s
  kept : s.indexes.lookup v.id = some place
  vertex : r.vertex? v.id = some v

theorem Stands.later {t : Registry} (stands : Stands r s v place) (steady : Steady s t) :
    Stands r t v place :=
  ⟨stands.steady.trans steady, steady.kept _ _ stands.kept, stands.vertex⟩

theorem Stands.object (stands : Stands r s v place) : ∃ i, s.objects[place]? = some i ∧
    i.vertex = v ∧ i.isComposite = (i.vertex.kind == .compositeIndex) ∧
    ∀ {α : Type} (q : GraphIndex.Question α),
      r.indexAnswer v.id q = (q.asked i s.vertex?).1 := by
  obtain ⟨i, vertex, index, here, -⟩ := stands.steady.tracked _ (mem_of_lookup stands.kept)
  have own := stands.vertex
  rw [← vertex?_congr stands.steady.vertices] at own
  refine ⟨i, here, Option.some.inj (vertex.symm.trans own), GraphIndex.isComposite_eq index,
    fun q => ?_⟩
  rw [← stands.steady.answers, indexAnswer_of_kept stands.kept here]

theorem Stands.asked {α : Type} (stands : Stands r s v place) (q : GraphIndex.Question α) :
    ComesTo (fun _ => Eq) (askIndex place q.asked) s (r.indexAnswer v.id q) := by
  obtain ⟨i, here, -, -, answers⟩ := stands.object
  refine ⟨steady_askIndex stands.steady.tracked place q, ?_⟩
  rw [answers, ask_askIndex here]
  cases (q.asked i s.vertex?).1 with
  | error fault => exact .error fault
  | ok a => exact .ok rfl

theorem Stands.indexAnswer_vertex (stands : Stands r s v place) :
    r.indexAnswer v.id .vertex = .ok v := by
  obtain ⟨i, -, rfl, -, answers⟩ := stands.object
  exact answers .vertex

theorem Stands.indexObject (steady : Steady r s) (vertex : r.vertex? v.id = some v)
    (index : v.kind.isIndex = true) :
    ComesTo (fun t place (_ : Unit) => Stands r t v place) (indexObject v.id) s (.ok ()) := by
  have later := steady_indexObject steady.tracked v.id
  refine ⟨later, ?_⟩
  cases kept : s.indexes.lookup v.id with
  | some place =>
      rw [ask_indexObject_of_kept kept]
      exact .ok ⟨steady, kept, vertex⟩
  | none =>
      have there := vertex
      rw [← vertex?_congr steady.vertices] at there
      rw [ask_indexObject_of_absent kept, there] at later ⊢
      simp only [index, if_true] at later ⊢
      refine .ok ⟨steady.trans later, ?_, vertex⟩
      exact (lookup_cons_eq_ite v.id v.id _ _).trans (if_pos rfl)

/-- Some indexes, one object after the other. -/
theorem comesTo_indexObjects {vertices : List SchemaVertex} (steady : Steady r s)
    (indexes : ∀ v ∈ vertices, r.vertex? v.id = some v ∧ v.kind.isIndex = true) :
    ComesTo (fun t places (_ : Unit) => List.Forall₂ (Stands r t) vertices places)
      (vertices.mapM fun v => Registry.indexObject v.id) s (.ok ()) := by
  induction vertices generalizing s with
  | nil =>
      rw [List.mapM_nil]
      exact comesTo_pure steady.tracked .nil
  | cons v rest ih =>
      obtain ⟨⟨vertex, index⟩, others⟩ := List.forall_mem_cons.mp indexes
      rw [List.mapM_cons]
      refine (Stands.indexObject steady vertex index).step fun t place later stands => ?_
      refine (ih stands.steady others).step fun u places last each => ?_
      exact comesTo_pure last.tracked (.cons (stands.later last) each)

end

end Registry

end PropertyGraph
