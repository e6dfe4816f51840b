/-
# Proofs.BestIndexes -- the best usable index is selected

An index that yields a candidate stands higher than another if it covers more conditions, then
if it is composite, then if it is one that leads to a single element (`Standing`).  The rank of
a candidate is its standing in one number (`rank_lt_iff_standing_lt`), and the first candidate
of the highest rank is selected; the indexes are asked in the order of their numbers, so of
several that stand alike it is the one with the smallest number.

The numbers are in order however the indexes were defined: `Defined` says what a registry is
after some definitions, and it does not mention their order.
-/
import Mathlib.Data.List.MinMax
import Mathlib.Data.Prod.Lex
import PropertyGraph.Proofs.IndexOffers

namespace PropertyGraph

set_option autoImplicit false

open Schema
open SchemaTable (Orderly)

section Argmax

variable {α : Type} {f key : α → Nat} {l : List α}

theorem key_lt_of_idxOf_lt [DecidableEq α] (ascending : l.Pairwise fun a b => key a < key b)
    {a b : α} (inA : a ∈ l) (inB : b ∈ l) (less : l.idxOf a < l.idxOf b) : key a < key b := by
  have pair := List.pairwise_iff_getElem.mp ascending _ _ (List.idxOf_lt_length_iff.mpr inA)
    (List.idxOf_lt_length_iff.mpr inB) less
  rwa [List.getElem_idxOf, List.getElem_idxOf] at pair

/-- The places in a list are in the order of its keys. -/
theorem idxOf_le_iff_of_pairwise [DecidableEq α] (ascending : l.Pairwise fun a b => key a < key b)
    {a b : α} (inA : a ∈ l) (inB : b ∈ l) : l.idxOf a ≤ l.idxOf b ↔ key a ≤ key b := by
  obtain less | same | more := lt_trichotomy (l.idxOf a) (l.idxOf b)
  · exact ⟨fun _ => (key_lt_of_idxOf_lt ascending inA inB less).le, fun _ => less.le⟩
  · obtain rfl := (List.idxOf_inj inA).mp same
    simp
  · have greater := key_lt_of_idxOf_lt ascending inB inA more
    exact ⟨fun never => absurd never more.not_ge, fun never => absurd never greater.not_ge⟩

/-- In a list that is in order, the first of the greatest is the smallest of them. -/
theorem argmax_eq_some_iff_of_pairwise (ascending : l.Pairwise fun a b => key a < key b) {m : α} :
    l.argmax f = some m ↔ m ∈ l ∧ ∀ a ∈ l, f a < f m ∨ f a = f m ∧ key m ≤ key a := by
  classical
  have earlier {a b : α} (inA : a ∈ l) (inB : b ∈ l) :=
    idxOf_le_iff_of_pairwise ascending inA inB
  rw [List.argmax_eq_some_iff]
  constructor
  · rintro ⟨member, most, first⟩
    refine ⟨member, fun a inList => ?_⟩
    obtain less | same := (most a inList).lt_or_eq
    · exact .inl less
    · exact .inr ⟨same, (earlier member inList).mp (first a inList same.ge)⟩
  · rintro ⟨member, best⟩
    refine ⟨member, fun a inList => ?_, fun a inList more => ?_⟩
    · obtain less | ⟨same, -⟩ := best a inList
      · exact less.le
      · exact same.le
    · obtain less | ⟨-, first⟩ := best a inList
      · exact absurd more less.not_ge
      · exact (earlier member inList).mpr first

end Argmax

namespace IndexChoice

open Registry

/-! ## The first best -/

section

variable {offers : SchemaVertex → Outcome (Option (Nat × Offer))} {l : List SchemaVertex}
  {best : Option (Nat × Offer)}

/-- The offer of an index, if it makes one. -/
def offer? (offers : SchemaVertex → Outcome (Option (Nat × Offer))) (v : SchemaVertex) :
    Option (Nat × Offer) := (offers v).toOption.join

/-- A new offer takes the place of the best so far if its rank is higher. -/
def better : Option (Nat × Offer) → Nat × Offer → Option (Nat × Offer) :=
  List.argAux fun new top => top.1 < new.1

theorem better_eq (best : Option (Nat × Offer)) (new : Nat × Offer) :
    (if best.all fun top => top.1 < new.1 then some new else best) = better best new := by
  cases best with
  | none => rfl
  | some top => simp [better, List.argAux]

theorem bestFrom_of_answered (answered : ∀ v ∈ l, ∃ o, offers v = .ok o) :
    bestFrom offers l best = .ok ((l.filterMap (offer? offers)).foldl better best) := by
  induction l generalizing best with
  | nil => rfl
  | cons v rest ih =>
      obtain ⟨⟨o, answer⟩, others⟩ := List.forall_mem_cons.mp answered
      rw [bestFrom, answer, Outcome.ok_bind]
      cases o with
      | none =>
          rw [List.filterMap_cons_none (by rw [offer?, answer]; rfl)]
          exact ih others
      | some new =>
          rw [List.filterMap_cons_some (by rw [offer?, answer]; rfl), List.foldl_cons,
            ← better_eq]
          exact ih others

theorem answered_of_bestFrom {top : Option (Nat × Offer)}
    (done : bestFrom offers l best = .ok top) : ∀ v ∈ l, ∃ o, offers v = .ok o := by
  induction l generalizing best with
  | nil => exact fun _ never => by cases never
  | cons v rest ih =>
      rw [bestFrom, Outcome.bind_eq_ok_iff] at done
      obtain ⟨o, answer, later⟩ := done
      refine List.forall_mem_cons.mpr ⟨⟨o, answer⟩, ?_⟩
      cases o with
      | none => exact ih later
      | some new => exact ih later

end

section

variable {r : Registry} {element : Element} {conditions : List Condition}

/-- The offers of the indexes of a registry, with their ranks. -/
def offersOf (r : Registry) (element : Element) (conditions : List Condition) :
    List (Nat × Offer) := (indexesOf r).filterMap (offer? (offerOf r element conditions))

/-- Every index is answered for, and the first of the highest rank is chosen. -/
theorem bestOffer_eq_ok_iff {o : Option Offer} :
    bestOffer r element conditions = .ok o ↔
      (∀ v ∈ indexesOf r, ∃ e, offerOf r element conditions v = .ok e) ∧
        ((offersOf r element conditions).argmax Prod.fst).map Prod.snd = o := by
  rw [bestOffer, Outcome.bind_eq_ok_iff]
  constructor
  · rintro ⟨top, done, same⟩
    have answered := answered_of_bestFrom done
    refine ⟨answered, ?_⟩
    rw [bestFrom_of_answered answered] at done
    rw [← Except.ok.inj same, ← Except.ok.inj done]
    rfl
  · rintro ⟨answered, rfl⟩
    exact ⟨_, bestFrom_of_answered answered, rfl⟩

theorem offerOf_eq_some_iff {v : SchemaVertex} {n : Nat} {o : Offer} :
    offerOf r element conditions v = .ok (some (n, o)) ↔
      o.1 = v ∧ coverOf r element conditions v = .ok (some o.2) ∧ rankIn r v o.2.1 = .ok n := by
  rw [offerOf, Outcome.bind_eq_ok_iff]
  constructor
  · rintro ⟨found, covers, ranked⟩
    cases found with
    | none => cases Except.ok.inj ranked
    | some found =>
        obtain ⟨m, done, same⟩ := Outcome.bind_eq_ok_iff.mp ranked
        obtain ⟨rfl, rfl⟩ := Prod.mk.inj (Option.some.inj (Except.ok.inj same))
        exact ⟨rfl, covers, done⟩
  · rintro ⟨rfl, covers, ranked⟩
    exact ⟨some o.2, covers, Outcome.bind_eq_ok_iff.mpr ⟨n, ranked, rfl⟩⟩

theorem offer?_eq_some_iff {v : SchemaVertex} {e : Nat × Offer} :
    offer? (offerOf r element conditions) v = some e ↔
      offerOf r element conditions v = .ok (some e) := by
  rw [offer?]
  cases offerOf r element conditions v with
  | error fault => exact ⟨fun never => (by cases never), fun never => (by cases never)⟩
  | ok o => exact ⟨congrArg Except.ok, Except.ok.inj⟩

theorem mem_offersOf_iff {n : Nat} {o : Offer} :
    (n, o) ∈ offersOf r element conditions ↔ o.1 ∈ indexesOf r ∧
      coverOf r element conditions o.1 = .ok (some o.2) ∧ rankIn r o.1 o.2.1 = .ok n := by
  rw [offersOf, List.mem_filterMap]
  simp only [offer?_eq_some_iff, offerOf_eq_some_iff]
  constructor
  · rintro ⟨v, member, rfl, offer⟩
    exact ⟨member, offer⟩
  · rintro ⟨member, offer⟩
    exact ⟨o.1, member, rfl, offer⟩

/-- The offers are in the order of the numbers of their indexes. -/
theorem ascending_offersOf (orderly : Orderly r.vertices) :
    (offersOf r element conditions).Pairwise fun a b => a.2.1.id.toNat < b.2.1.id.toNat := by
  -- Leaving indexes out keeps the order.
  have vertices : (indexesOf r).Pairwise fun v w => v.id.toNat < w.id.toNat :=
    (List.Pairwise.sublist List.filter_sublist orderly.ascending).imp fun less =>
      UInt64.lt_iff_toNat_lt.mp (Std.compare_eq_lt.mp less)
  rw [offersOf, List.pairwise_filterMap]
  refine vertices.imp fun less a first b second => ?_
  rwa [(offerOf_eq_some_iff.mp (offer?_eq_some_iff.mp first)).1,
    (offerOf_eq_some_iff.mp (offer?_eq_some_iff.mp second)).1]

/-! ## Standings -/

/-- How many conditions are covered, whether by a composite index, and whether by one that leads
to a single element; the first of these that differs decides. -/
abbrev Standing := Nat ×ₗ Bool ×ₗ Bool

def standing (r : Registry) (o : Offer) : Standing :=
  toLex (o.2.1.length, toLex (o.1.kind == .compositeIndex, o.1.kind == .compositeIndex &&
    (r.indexAnswer o.1.id .cardinality).toOption == some .single))

/-- The part of a rank that does not count conditions decides between as many. -/
theorem rank_zero_lt_iff : ∀ c s c' s' : Bool, (s = true → c = true) → (s' = true → c' = true) →
    (rank 0 c s < rank 0 c' s' ↔ toLex (c, s) < toLex (c', s')) := by
  decide

theorem rank_lt_rank_iff {n m : Nat} {c s c' s' : Bool} (composite : s = true → c = true)
    (composite' : s' = true → c' = true) :
    rank n c s < rank m c' s' ↔ toLex (n, toLex (c, s)) < toLex (m, toLex (c', s')) := by
  have whole : ∀ n c s, rank n c s = 4 * n + rank 0 c s := by
    intro n c s
    simp only [rank, Nat.mul_zero, Nat.zero_add, Nat.add_assoc]
  have small : ∀ c s, rank 0 c s < 4 := by decide
  have := small c s
  have := small c' s'
  rw [Prod.Lex.toLex_lt_toLex, ← rank_zero_lt_iff c s c' s' composite composite', whole n,
    whole m]
  omega

/-- The rank of an index is its standing in one number. -/
theorem rank_of_rankIn {o : Offer} {n : Nat} (ranked : rankIn r o.1 o.2.1 = .ok n) :
    n = rank o.2.1.length (o.1.kind == .compositeIndex) (o.1.kind == .compositeIndex &&
      (r.indexAnswer o.1.id .cardinality).toOption == some .single) := by
  rw [rankIn] at ranked
  cases kind : o.1.kind == .compositeIndex with
  | false =>
      rw [kind] at ranked
      exact (Except.ok.inj ranked).symm
  | true =>
      rw [kind] at ranked
      obtain ⟨k, answer, same⟩ := Outcome.bind_eq_ok_iff.mp ranked
      rw [answer]
      exact (Except.ok.inj same).symm

/-- The standings of two indexes are in the order of their ranks. -/
theorem rank_lt_iff_standing_lt {o o' : Offer} {n m : Nat} (ranked : rankIn r o.1 o.2.1 = .ok n)
    (ranked' : rankIn r o'.1 o'.2.1 = .ok m) : n < m ↔ standing r o < standing r o' := by
  rw [rank_of_rankIn ranked, rank_of_rankIn ranked']
  exact rank_lt_rank_iff (fun single => (Bool.and_eq_true_iff.mp single).1)
    fun single => (Bool.and_eq_true_iff.mp single).1

theorem rank_eq_iff_standing_eq {o o' : Offer} {n m : Nat} (ranked : rankIn r o.1 o.2.1 = .ok n)
    (ranked' : rankIn r o'.1 o'.2.1 = .ok m) : n = m ↔ standing r o = standing r o' := by
  have less := rank_lt_iff_standing_lt ranked ranked'
  have more := rank_lt_iff_standing_lt ranked' ranked
  constructor
  · intro same
    exact le_antisymm (not_lt.mp fun below => (more.mpr below).ne same.symm)
      (not_lt.mp fun above => (less.mpr above).ne same)
  · intro same
    exact le_antisymm (not_lt.mp fun below => (more.mp below).ne same.symm)
      (not_lt.mp fun above => (less.mp above).ne same)

/-! ## What is selected -/

/-- What a registry answers when it is asked for the index that answers most of a query. -/
def selected (r : Registry) (element : Element) (conditions : List Condition) :
    Outcome (Option Offer) := ((Registry.Question.select element conditions).asked.ask r).1

/-- An index of the registry yields a candidate. -/
structure Yields (r : Registry) (element : Element) (conditions : List Condition) (o : Offer) :
    Prop where
  vertex : r.vertex? o.1.id = some o.1
  index : o.1.kind.isIndex = true
  yields : ((yielded element conditions o.1.id).ask r).1 = .ok (some o.2)

/-- Each index answers whether it yields a candidate, and a composite one that does answers
to how many elements it leads. -/
def Resolves (r : Registry) (element : Element) (conditions : List Condition) : Prop :=
  ∀ v, r.vertex? v.id = some v → v.kind.isIndex = true →
    ∃ found, ((yielded element conditions v.id).ask r).1 = .ok found ∧
      (found.isSome = true → v.kind = .compositeIndex →
        ∃ k, r.indexAnswer v.id .cardinality = .ok k)

theorem exists_rankIn_iff {v : SchemaVertex} {covered : List Nat} :
    (∃ n, rankIn r v covered = .ok n) ↔
      (v.kind = .compositeIndex → ∃ k, r.indexAnswer v.id .cardinality = .ok k) := by
  rw [rankIn]
  cases kind : v.kind == .compositeIndex with
  | false =>
      have other : v.kind ≠ .compositeIndex := by simpa using kind
      exact ⟨fun _ same => absurd same other, fun _ => ⟨_, rfl⟩⟩
  | true =>
      simp only [beq_iff_eq.mp kind, if_true, forall_const]
      constructor
      · rintro ⟨n, done⟩
        obtain ⟨k, answer, -⟩ := Outcome.bind_eq_ok_iff.mp done
        exact ⟨k, answer⟩
      · rintro ⟨k, answer⟩
        exact ⟨_, Outcome.bind_eq_ok_iff.mpr ⟨k, answer, rfl⟩⟩

theorem resolves_iff (tracked : Tracked r) (orderly : Orderly r.vertices) :
    Resolves r element conditions ↔
      ∀ v ∈ indexesOf r, ∃ e, offerOf r element conditions v = .ok e := by
  refine forall_congr' fun v => ?_
  rw [mem_indexesOf_iff orderly, and_imp]
  refine imp_congr_right fun vertex => imp_congr_right fun index => ?_
  simp only [ask_yielded tracked vertex index, offerOf]
  cases coverOf r element conditions v with
  | error fault =>
      constructor
      · rintro ⟨_, never, -⟩
        cases never
      · rintro ⟨_, never⟩
        cases never
  | ok found =>
      cases found with
      | none => exact ⟨fun _ => ⟨none, rfl⟩, fun _ => ⟨none, rfl, fun never => by cases never⟩⟩
      | some found =>
          simp only [Outcome.ok_bind]
          constructor
          · rintro ⟨_, same, answers⟩
            obtain rfl := Except.ok.inj same
            obtain ⟨n, ranked⟩ := exists_rankIn_iff.mpr (answers rfl)
            exact ⟨_, Outcome.bind_eq_ok_iff.mpr ⟨n, ranked, rfl⟩⟩
          · rintro ⟨e, done⟩
            obtain ⟨n, ranked, -⟩ := Outcome.bind_eq_ok_iff.mp done
            exact ⟨_, rfl, fun _ => exists_rankIn_iff.mp ⟨n, ranked⟩⟩

theorem yields_iff (tracked : Tracked r) (orderly : Orderly r.vertices) {o : Offer} :
    Yields r element conditions o ↔
      o.1 ∈ indexesOf r ∧ coverOf r element conditions o.1 = .ok (some o.2) := by
  rw [mem_indexesOf_iff orderly]
  constructor
  · rintro ⟨vertex, index, yields⟩
    exact ⟨⟨vertex, index⟩, ask_yielded tracked vertex index ▸ yields⟩
  · rintro ⟨⟨vertex, index⟩, covers⟩
    exact ⟨vertex, index, (ask_yielded tracked vertex index).trans covers⟩

/-- Where every index is answered for, the candidates are the offers. -/
theorem yields_iff_exists_offer (tracked : Tracked r) (orderly : Orderly r.vertices)
    (resolves : Resolves r element conditions) {o : Offer} :
    Yields r element conditions o ↔ ∃ n, (n, o) ∈ offersOf r element conditions := by
  simp only [yields_iff tracked orderly, mem_offersOf_iff]
  constructor
  · rintro ⟨member, covers⟩
    obtain ⟨e, offer⟩ := (resolves_iff tracked orderly).mp resolves o.1 member
    rw [offerOf, covers, Outcome.ok_bind] at offer
    obtain ⟨n, ranked, -⟩ := Outcome.bind_eq_ok_iff.mp offer
    exact ⟨n, member, covers, ranked⟩
  · rintro ⟨n, member, covers, -⟩
    exact ⟨member, covers⟩

theorem selected_eq_ok_iff (tracked : Tracked r) (orderly : Orderly r.vertices)
    {o : Option Offer} :
    selected r element conditions = .ok o ↔ Resolves r element conditions ∧
      ((offersOf r element conditions).argmax Prod.fst).map Prod.snd = o := by
  rw [selected, ask_select tracked orderly, bestOffer_eq_ok_iff, resolves_iff tracked orderly]

/-- Nothing is selected if no index yields a candidate. -/
theorem selected_eq_none_iff (tracked : Tracked r) (orderly : Orderly r.vertices) :
    selected r element conditions = .ok none ↔
      Resolves r element conditions ∧ ∀ o, ¬ Yields r element conditions o := by
  rw [selected_eq_ok_iff tracked orderly, Option.map_eq_none_iff, List.argmax_eq_none]
  refine and_congr_right fun resolves => ?_
  rw [List.eq_nil_iff_forall_not_mem, Prod.forall, forall_comm]
  refine forall_congr' fun o => ?_
  rw [yields_iff_exists_offer tracked orderly resolves, not_exists]

/-- The candidate of the highest standing is selected, and of several the one whose index has
the smallest number. -/
theorem selected_eq_some_iff (tracked : Tracked r) (orderly : Orderly r.vertices) {o : Offer} :
    selected r element conditions = .ok (some o) ↔
      Resolves r element conditions ∧ Yields r element conditions o ∧
        ∀ o', Yields r element conditions o' → standing r o' < standing r o ∨
          standing r o' = standing r o ∧ o.1.id ≤ o'.1.id := by
  rw [selected_eq_ok_iff tracked orderly]
  refine and_congr_right fun resolves => ?_
  have offered : ∀ {o}, Yields r element conditions o ↔ _ :=
    yields_iff_exists_offer tracked orderly resolves
  simp only [Option.map_eq_some_iff, Prod.exists, exists_eq_right,
    argmax_eq_some_iff_of_pairwise (ascending_offersOf orderly), offered, ← exists_and_right]
  refine exists_congr fun n => and_congr_right fun member => ?_
  obtain ⟨-, -, ranked⟩ := mem_offersOf_iff.mp member
  rw [Prod.forall, forall_comm]
  refine forall_congr' fun o' => ?_
  rw [forall_exists_index]
  refine forall_congr' fun m => imp_congr_right fun member' => ?_
  obtain ⟨-, -, ranked'⟩ := mem_offersOf_iff.mp member'
  rw [rank_lt_iff_standing_lt ranked' ranked, rank_eq_iff_standing_eq ranked' ranked,
    UInt64.le_iff_toNat_le]

end

/-! ## The order of definitions -/

section Order

variable {r r' : Registry} {element : Element} {conditions : List Condition}

/-- Only the vertices count, and what the indexes answer. -/
theorem selected_congr (reached : Reached r) (reached' : Reached r')
    (vertices : ∀ id, r'.vertex? id = r.vertex? id)
    (answers : ∀ {α : Type} (id : SchemaId) (q : GraphIndex.Question α),
      r'.indexAnswer id q = r.indexAnswer id q) :
    selected r' element conditions = selected r element conditions := by
  have schema : r'.vertices = r.vertices :=
    Sorted.eq_of_find? reached'.orderly.ascending reached.orderly.ascending vertices
  have covers : coverOf r' element conditions = coverOf r element conditions := by
    funext v
    simp only [coverOf, answers]
  have ranks : rankIn r' = rankIn r := by
    funext v covered
    simp only [rankIn, answers]
  have offers : offerOf r' element conditions = offerOf r element conditions := by
    funext v
    rw [offerOf, offerOf, covers, ranks]
  rw [selected, ask_select reached'.tracked reached'.orderly, selected,
    ask_select reached.tracked reached.orderly, bestOffer, bestOffer, offers, indexesOf, indexesOf,
    schema]

/-- Vertices that may be defined in any order: no two share a number or a name, and no name
belongs to another vertex of the registry. -/
structure Definable (r : Registry) (vertices : List SchemaVertex) : Prop where
  apart : vertices.Pairwise fun v w => v.id ≠ w.id ∧ v.name ≠ w.name
  free : ∀ v ∈ vertices, ∀ owner, r.idOf v.name = some owner → owner = v.id

theorem Definable.perm {vertices vertices' : List SchemaVertex} (definable : Definable r vertices)
    (perm : vertices'.Perm vertices) : Definable r vertices' where
  apart := (perm.pairwise_iff fun apart => ⟨apart.1.symm, apart.2.symm⟩).mpr definable.apart
  free v member := definable.free v (perm.mem_iff.mp member)

/-- Some vertices were defined in a registry. -/
structure Defined (r : Registry) (vertices : List SchemaVertex) (after : Registry) : Prop where
  own : ∀ v ∈ vertices, after.vertex? v.id = some v ∧ after.indexes.lookup v.id = none
  other : ∀ id, (∀ v ∈ vertices, v.id ≠ id) →
    after.vertex? id = r.vertex? id ∧ after.indexes.lookup id = r.indexes.lookup id
  objects : after.objects = r.objects

/-- A definition whose name is free is made. -/
theorem defined_step (orderly : Orderly r.vertices) {v : SchemaVertex}
    (free : ∀ owner, r.idOf v.name = some owner → owner = v.id) :
    Defined r [v] (r.step (.define v)) := by
  have defines := Registry.defines orderly v
  cases done : r.define v with
  | error fault =>
      obtain ⟨owner, owned, other⟩ := defines.refused.mp ⟨fault, done⟩
      exact absurd (free owner owned) other
  | ok after =>
      obtain ⟨step, -, vertices⟩ := defines.done after done
      have kept : after.indexes = r.indexes.filter fun kept => kept.1 != v.id := by
        rw [define_eq done]
        rfl
      have objects : after.objects = r.objects := by
        rw [define_eq done]
        rfl
      rw [step]
      refine ⟨?_, fun id others => ?_, objects⟩
      · rw [List.forall_mem_singleton]
        exact ⟨(vertices v.id).trans (if_pos rfl), by rw [kept, lookup_filter_ne, if_pos rfl]⟩
      · have apart : id ≠ v.id := (List.forall_mem_singleton.mp others).symm
        exact ⟨(vertices id).trans (if_neg apart), by rw [kept, lookup_filter_ne, if_neg apart]⟩

theorem Definable.defined {vertices : List SchemaVertex} (definable : Definable r vertices)
    (tracked : Tracked r) (orderly : Orderly r.vertices) :
    Defined r vertices (r.follow (vertices.map .define)) := by
  induction vertices generalizing r with
  | nil => exact ⟨fun _ never => (by cases never), fun _ _ => ⟨rfl, rfl⟩, rfl⟩
  | cons v rest ih =>
      obtain ⟨first, others⟩ := List.pairwise_cons.mp definable.apart
      obtain ⟨free, freeLater⟩ := List.forall_mem_cons.mp definable.free
      have here := defined_step orderly free
      have orderly' := orderly_step tracked orderly (.define v)
      have definable' : Definable (r.step (.define v)) rest := by
        refine ⟨others, fun w member owner owned => ?_⟩
        obtain ⟨u, found, same⟩ := (idOf_eq_some_iff orderly').mp owned
        by_cases new : v.id = owner
        · have own := (List.forall_mem_singleton.mp here.own).1
          rw [new, found] at own
          obtain rfl := Option.some.inj own
          exact absurd same (first w member).2
        · have old := (here.other owner (List.forall_mem_singleton.mpr new)).1
          rw [found] at old
          exact freeLater w member owner ((idOf_eq_some_iff orderly).mpr ⟨u, old.symm, same⟩)
      have later := ih definable' (tracked_step tracked _) orderly'
      refine ⟨List.forall_mem_cons.mpr ⟨?_, later.own⟩, fun id away => ?_,
        later.objects.trans here.objects⟩
      · obtain ⟨vertex, kept⟩ := later.other v.id fun w member => (first w member).1.symm
        obtain ⟨vertex', kept'⟩ := List.forall_mem_singleton.mp here.own
        exact ⟨vertex.trans vertex', kept.trans kept'⟩
      · obtain ⟨awayHere, awayLater⟩ := List.forall_mem_cons.mp away
        obtain ⟨vertex, kept⟩ := later.other id awayLater
        obtain ⟨vertex', kept'⟩ := here.other id (List.forall_mem_singleton.mpr awayHere)
        exact ⟨vertex.trans vertex', kept.trans kept'⟩

/-- The order of definitions does not matter to what is there then. -/
theorem Defined.congr {vertices vertices' : List SchemaVertex} {s s' : Registry}
    (perm : vertices'.Perm vertices) (defined : Defined r vertices s)
    (defined' : Defined r vertices' s') :
    (∀ id, s'.vertex? id = s.vertex? id) ∧
      ∀ {α : Type} (id : SchemaId) (q : GraphIndex.Question α),
        s'.indexAnswer id q = s.indexAnswer id q := by
  have same : ∀ id, s'.vertex? id = s.vertex? id ∧ s'.indexes.lookup id = s.indexes.lookup id := by
    intro id
    by_cases own : ∃ v ∈ vertices, v.id = id
    · obtain ⟨v, member, rfl⟩ := own
      obtain ⟨vertex, kept⟩ := defined.own v member
      obtain ⟨vertex', kept'⟩ := defined'.own v (perm.mem_iff.mpr member)
      exact ⟨vertex'.trans vertex.symm, kept'.trans kept.symm⟩
    · have other : ∀ v ∈ vertices, v.id ≠ id := fun v member same => own ⟨v, member, same⟩
      obtain ⟨vertex, kept⟩ := defined.other id other
      obtain ⟨vertex', kept'⟩ := defined'.other id fun v member => other v (perm.mem_iff.mp member)
      exact ⟨vertex'.trans vertex.symm, kept'.trans kept.symm⟩
  have schema : s'.vertex? = s.vertex? := funext fun id => (same id).1
  refine ⟨fun id => (same id).1, fun id q => ?_⟩
  rw [indexAnswer_eq, indexAnswer_eq, indexAt, indexAt, (same id).2, schema,
    defined'.objects.trans defined.objects.symm]

end Order

/-- The best usable index is selected, from any registry that a client may have: if each index
answers for itself, the one of the highest standing that yields a candidate, and of several the
one with the smallest number.  The order in which vertices were defined does not matter. -/
theorem best_is_selected {r : Registry} (reached : Reached r) (element : Element)
    (conditions : List Condition) :
    ((∃ found, selected r element conditions = .ok found) ↔ Resolves r element conditions) ∧
      (selected r element conditions = .ok none ↔
        Resolves r element conditions ∧ ∀ o, ¬ Yields r element conditions o) ∧
      (∀ o, selected r element conditions = .ok (some o) ↔
        Resolves r element conditions ∧ Yields r element conditions o ∧
          ∀ o', Yields r element conditions o' → standing r o' < standing r o ∨
            standing r o' = standing r o ∧ o.1.id ≤ o'.1.id) ∧
      (∀ r', Reached r' → (∀ id, r'.vertex? id = r.vertex? id) →
        (∀ {α : Type} (id : SchemaId) (q : GraphIndex.Question α),
          r'.indexAnswer id q = r.indexAnswer id q) →
        selected r' element conditions = selected r element conditions) ∧
      ∀ vertices vertices' : List SchemaVertex, vertices'.Perm vertices → Definable r vertices →
        selected (r.follow (vertices'.map .define)) element conditions =
          selected (r.follow (vertices.map .define)) element conditions := by
  have tracked := reached.tracked
  have orderly := reached.orderly
  refine ⟨?_, selected_eq_none_iff tracked orderly, fun _ => selected_eq_some_iff tracked orderly,
    fun _ reached' => selected_congr reached reached', ?_⟩
  · simp only [selected_eq_ok_iff tracked orderly, exists_and_left, exists_eq', and_true]
  · intro vertices vertices' perm definable
    obtain ⟨schema, answers⟩ := (definable.defined tracked orderly).congr perm
      ((definable.perm perm).defined tracked orderly)
    exact selected_congr (reached.follow _) (reached.follow _) schema answers

section Ages

/-- An index of vertices by their age. -/
def byAge (id : SchemaId) (name : String) (kind : VertexKind)
    (settings : List (Category × DefinitionValue)) : SchemaVertex :=
  ⟨id, name, kind, .ofList ((.elementCategory, .element .vertex) :: settings),
    [⟨1, .out, ⟨.indexField, [⟨"index-position", .int 0⟩]⟩⟩]⟩

/-- A mixed index has the smallest number, and three composite ones are alike but that two of
these lead to a single element. -/
def ages : Registry := Registry.empty.follow
  [.define (Registry.age .long), .define (byAge 2 "search" .mixedIndex []),
    .define (byAge 3 "lists" .compositeIndex []),
    .define (byAge 5 "later" .compositeIndex [(.indexCardinality, .cardinality .single)]),
    .define (byAge 4 "first" .compositeIndex [(.indexCardinality, .cardinality .single)])]

def thirty : List Condition := [.has "age" (.compare .equal) (some (.long 30))]

/-- Of the two that lead to a single element the one of the smaller number is selected, though
it was defined last. -/
theorem first_is_selected :
    Reached ages ∧ selected ages .vertex thirty = .ok (some
        (byAge 4 "first" .compositeIndex [(.indexCardinality, .cardinality .single)], [0],
          .composite [[.long 30]])) ∧
      ((∃ found, selected ages .vertex thirty = .ok found) ↔ Resolves ages .vertex thirty) ∧
      (selected ages .vertex thirty = .ok none ↔
        Resolves ages .vertex thirty ∧ ∀ o, ¬ Yields ages .vertex thirty o) ∧
      (∀ o, selected ages .vertex thirty = .ok (some o) ↔
        Resolves ages .vertex thirty ∧ Yields ages .vertex thirty o ∧
          ∀ o', Yields ages .vertex thirty o' → standing ages o' < standing ages o ∨
            standing ages o' = standing ages o ∧ o.1.id ≤ o'.1.id) ∧
      (∀ r', Reached r' → (∀ id, r'.vertex? id = ages.vertex? id) →
        (∀ {α : Type} (id : SchemaId) (q : GraphIndex.Question α),
          r'.indexAnswer id q = ages.indexAnswer id q) →
        selected r' .vertex thirty = selected ages .vertex thirty) ∧
      ∀ vertices vertices' : List SchemaVertex, vertices'.Perm vertices →
        Definable ages vertices →
        selected (ages.follow (vertices'.map .define)) .vertex thirty =
          selected (ages.follow (vertices.map .define)) .vertex thirty := by
  have reached : Reached ages := ⟨.empty, _, .empty, rfl⟩
  exact ⟨reached, by decide +kernel, best_is_selected reached .vertex thirty⟩

end Ages

end IndexChoice

end PropertyGraph
