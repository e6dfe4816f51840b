/-
# Proofs.IndexOffers -- what is selected, by what each index answers alone

Selecting an index asks them all, one after the other, and each may make its object and keep
what it derives.  None of this changes what another one answers, so the candidate of an index is
the one that it yields if it is asked alone (`ask_yielded`), and selecting comes to a fold over
the indexes in which no object occurs (`ask_select`).

`coverOf`, `rankIn` and `bestFrom` are the candidate, its rank and the first best of several in
terms of these answers; `comesTo_candidate`, `comesTo_rankOf` and `comesTo_bestOf` are the three
questions.
-/
import Mathlib.Data.List.MinMax
import Mathlib.Data.Prod.Lex
import PropertyGraph.Proofs.IndexCovers
import PropertyGraph.Proofs.SchemaNames

namespace PropertyGraph

set_option autoImplicit false

open Schema

/-- An index with the conditions that it covers, and how. -/
abbrev Offer := SchemaVertex × List Nat × IndexCover

namespace IndexChoice

open Registry

/-- What an index of a registry covers, by what it answers. -/
def coverOf (r : Registry) (element : Element) (conditions : List Condition) (v : SchemaVertex) :
    Outcome (Option (List Nat × IndexCover)) := do
  if (← r.indexAnswer v.id .status) ≠ .enabled then return none
  else if (← r.indexAnswer v.id .element) ≠ element then return none
  else
    match coverLabel (← r.indexAnswer v.id .constraint) conditions with
    | none => return none
    | some labelled =>
        let fields ← r.indexAnswer v.id .fields
        let found := coverFields (v.kind == .compositeIndex) fields conditions
        return found.map fun (covered, cover) => (Sorted.ofList id (labelled ++ covered), cover)

/-- The rank of an index that covers some conditions, by what it answers. -/
def rankIn (r : Registry) (v : SchemaVertex) (covered : List Nat) : Outcome Nat :=
  if v.kind == .compositeIndex then do
    let cardinality ← r.indexAnswer v.id .cardinality
    return rank covered.length true (cardinality == .single)
  else return rank covered.length false false

/-- An index as a candidate of some rank. -/
def offerOf (r : Registry) (element : Element) (conditions : List Condition) (v : SchemaVertex) :
    Outcome (Option (Nat × Offer)) := do
  match ← coverOf r element conditions v with
  | none => return none
  | some (covered, cover) => return some (← rankIn r v covered, v, covered, cover)

/-- The first best of some indexes, given the best so far. -/
def bestFrom (offers : SchemaVertex → Outcome (Option (Nat × Offer))) :
    List SchemaVertex → Option (Nat × Offer) → Outcome (Option (Nat × Offer))
  | [], best => return best
  | v :: rest, best => do
      match ← offers v with
      | none => bestFrom offers rest best
      | some new =>
          bestFrom offers rest (if best.all fun top => top.1 < new.1 then some new else best)

section

variable {r s : Registry} {v : SchemaVertex} {place : Nat} {element : Element}
  {conditions : List Condition}

/-- A candidate is what its index covers by its answers. -/
theorem comesTo_candidate (stands : Stands r s v place) :
    ComesTo (fun _ c o => c = o.map fun found => ⟨place, found.1, found.2⟩)
      (candidate place element conditions) s (coverOf r element conditions v) := by
  obtain ⟨i, here, rfl, composite, answers⟩ := stands.object
  have tracked := stands.steady.tracked
  refine comesTo_get ?_
  simp only [here, coverOf, composite]
  have status : r.indexAnswer i.vertex.id .status = i.status := answers .status
  have about : r.indexAnswer i.vertex.id .element = i.element := answers .element
  rw [status, about]
  refine (comesTo_lift tracked i.status).bind fun t status _ steady same => ?_
  obtain rfl := same
  split
  · exact comesTo_pure steady.tracked rfl
  refine (comesTo_lift steady.tracked i.element).bind fun u about _ steady' same => ?_
  obtain rfl := same
  split
  · exact comesTo_pure steady'.tracked rfl
  have still := stands.later (steady.trans steady')
  refine (still.asked .constraint).bind fun w label _ later same => ?_
  obtain rfl := same
  cases coverLabel label conditions with
  | none => exact comesTo_pure later.tracked rfl
  | some labelled =>
      refine ((still.later later).asked .fields).bind fun x fields _ last same => ?_
      obtain rfl := same
      refine comesTo_pure last.tracked ?_
      rw [Option.map_map]
      rfl

/-- A candidate is an offer of the index at its place. -/
structure Offered (r t : Registry) (c : IndexCandidate) (o : Offer) : Prop where
  stands : Stands r t o.1 c.place
  covered : c.covered = o.2.1
  cover : c.cover = o.2.2

theorem comesTo_rankOf {c : IndexCandidate} {covered : List Nat} {cover : IndexCover}
    (offered : Offered r s c (v, covered, cover)) :
    ComesTo (fun _ => Eq) (rankOf c) s (rankIn r v covered) := by
  obtain ⟨i, here, vertex, composite, -⟩ := offered.stands.object
  have same := offered.covered
  simp only at vertex same
  subst vertex same
  refine comesTo_get ?_
  simp only [here, rankIn, composite]
  cases i.vertex.kind == .compositeIndex with
  | false => exact comesTo_pure offered.stands.steady.tracked rfl
  | true =>
      refine (offered.stands.asked .cardinality).bind fun t k _ steady same => ?_
      obtain rfl := same
      exact comesTo_pure steady.tracked rfl

theorem Offered.later {t : Registry} {c : IndexCandidate} {o : Offer} (offered : Offered r s c o)
    (steady : Steady s t) : Offered r t c o :=
  ⟨offered.stands.later steady, offered.covered, offered.cover⟩

/-- The best so far on both sides, or none. -/
def Tops (r t : Registry) : Option (Nat × IndexCandidate) → Option (Nat × Offer) → Prop :=
  Option.Rel fun top top' => top.1 = top'.1 ∧ Offered r t top.2 top'.2

theorem Tops.later {t : Registry} {best : Option (Nat × IndexCandidate)}
    {best' : Option (Nat × Offer)} (tops : Tops r s best best') (steady : Steady s t) :
    Tops r t best best' := by
  cases tops with
  | none => exact .none
  | some same => exact .some ⟨same.1, same.2.later steady⟩

theorem Tops.all_lt {best : Option (Nat × IndexCandidate)} {best' : Option (Nat × Offer)}
    (tops : Tops r s best best') (n : Nat) :
    (best.all fun top => top.1 < n) = best'.all fun top => top.1 < n := by
  cases tops with
  | none => rfl
  | some same =>
      simp only [Option.all_some]
      rw [same.1]

/-- Going through the index objects finds the first best of what the indexes cover. -/
theorem comesTo_bestOf {vertices : List SchemaVertex} {places : List Nat} (steady : Steady r s)
    (stand : List.Forall₂ (Stands r s) vertices places)
    {best : Option (Nat × IndexCandidate)} {best' : Option (Nat × Offer)}
    (tops : Tops r s best best') :
    ComesTo (Tops r) (bestOf element conditions places best) s
      (bestFrom (offerOf r element conditions) vertices best') := by
  induction vertices generalizing places best best' s with
  | nil =>
      cases stand
      exact comesTo_pure steady.tracked tops
  | cons v rest ih =>
      obtain ⟨place, rest', here, others, rfl⟩ := List.forall₂_cons_left_iff.mp stand
      simp only [bestOf, bestFrom, offerOf, bind_assoc]
      refine (comesTo_candidate here).bind fun t c found later same => ?_
      have others' := others.imp fun _ _ stands => stands.later later
      cases found with
      | none =>
          obtain rfl : c = none := same
          exact ih (steady.trans later) others' (tops.later later)
      | some found =>
          obtain rfl : c = some ⟨place, found.1, found.2⟩ := same
          have offered : Offered r t ⟨place, found.1, found.2⟩ (v, found.1, found.2) :=
            ⟨here.later later, rfl, rfl⟩
          simp only [bind_assoc]
          refine (comesTo_rankOf offered).bind fun u n _ later' same => ?_
          obtain rfl := same
          have tops' := (tops.later later).later later'
          refine ih ((steady.trans later).trans later')
            (others'.imp fun _ _ stands => stands.later later') ?_
          simp only
          rw [tops'.all_lt]
          split
          · exact .some ⟨rfl, offered.later later'⟩
          · exact tops'

/-- The indexes of a registry in the order of their numbers. -/
def indexesOf (r : Registry) : List SchemaVertex := r.vertices.filter fun v => v.kind.isIndex

theorem mem_indexesOf_iff (orderly : SchemaTable.Orderly r.vertices) :
    v ∈ indexesOf r ↔ r.vertex? v.id = some v ∧ v.kind.isIndex = true := by
  rw [indexesOf, List.mem_filter, vertex?_eq_some_iff orderly]
  exact and_congr_left' (and_iff_left rfl).symm

/-- The first best of what the indexes cover, by what they answer. -/
def bestOffer (r : Registry) (element : Element) (conditions : List Condition) :
    Outcome (Option Offer) := do
  return (← bestFrom (offerOf r element conditions) (indexesOf r) none).map Prod.snd

theorem comesTo_select (tracked : Tracked r) (orderly : SchemaTable.Orderly r.vertices) :
    ComesTo (fun t => Option.Rel (Offered r t)) (select element conditions) r
      (bestOffer r element conditions) := by
  have places : ComesTo (fun t places (_ : Unit) => List.Forall₂ (Stands r t) (indexesOf r) places)
      allIndexes r (.ok ()) :=
    comesTo_get (comesTo_indexObjects (.refl tracked) fun v => (mem_indexesOf_iff orderly).mp)
  refine places.step fun s found steady stand => ?_
  refine (comesTo_bestOf steady stand .none).bind fun t best best' later tops => ?_
  refine comesTo_pure later.tracked ?_
  cases tops with
  | none => exact .none
  | some same => exact .some same.2

/-- What is selected is the first best of what the indexes cover. -/
theorem ask_select (tracked : Tracked r) (orderly : SchemaTable.Orderly r.vertices) :
    ((Registry.Question.select element conditions).asked.ask r).1 =
      bestOffer r element conditions := by
  have selects : ComesTo (fun _ => Eq) (Registry.Question.select element conditions).asked r
      (bestOffer r element conditions >>= pure) := by
    refine (comesTo_select tracked orderly).bind fun t c o steady same => ?_
    cases same with
    | none => exact comesTo_pure steady.tracked rfl
    | @some c o offered =>
        have vertex := offered.stands.asked .vertex
        rw [offered.stands.indexAnswer_vertex] at vertex
        show ComesTo _ _ t ((.ok o.1 : Outcome SchemaVertex) >>= fun w => .ok (some (w, o.2)))
        refine vertex.bind fun u w _ later same => comesTo_pure later.tracked ?_
        rw [same, offered.covered, offered.cover]
  rw [bind_pure] at selects
  exact selects.matched.eq

/-- What the index of a number covers of a query, asked alone. -/
def yielded (element : Element) (conditions : List Condition) (id : SchemaId) :
    Lookup (Option (List Nat × IndexCover)) := do
  return (← candidate (← indexObject id) element conditions).map fun c => (c.covered, c.cover)

theorem ask_yielded (tracked : Tracked r) (vertex : r.vertex? v.id = some v)
    (index : v.kind.isIndex = true) :
    ((yielded element conditions v.id).ask r).1 = coverOf r element conditions v := by
  have yields : ComesTo (fun _ => Eq) (yielded element conditions v.id) r
      (coverOf r element conditions v >>= pure) := by
    refine (Stands.indexObject (.refl tracked) vertex index).step fun s place steady stands => ?_
    refine (comesTo_candidate stands).bind fun t c found later same => ?_
    subst same
    refine comesTo_pure later.tracked ?_
    cases found <;> rfl
  rw [bind_pure] at yields
  exact yields.matched.eq

end

end IndexChoice

end PropertyGraph
