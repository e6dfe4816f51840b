/-
# Proofs.SliceIndex -- what a container knows of the slices of its queries

A use is a slice together with a query that reads it.  The uses of a container are those
of its queries, in the order they were registered; its list of slices and its index are
to be read off them.

* `Container.Lists` says that they are; entering one use keeps it so (`Lists.enter`),
  and so does registering a query (`Exact.register`), hence a run (`exact_registerAll`).
* `index_lists_uses`: the slices are those of the queries without repeats, and a query is
  listed for a slice as often as the slice is among its own.
* A query whose types are named twice has slices twice, and is listed twice for each of
  them (`reader_listed_twice`).
-/
import PropertyGraph.Query.Container
import PropertyGraph.Proofs.Readings
import PropertyGraph.Proofs.KeptTypes

namespace PropertyGraph

set_option autoImplicit false

/-- The slices of a query, each with the query. -/
def NamedQuery.uses (q : NamedQuery) : List (Slice × NamedQuery) := q.slices.map fun s => (s, q)

/-- The slice has the bounds of a sub-query and, as its limit, `limit` if the sub-query needs
no filtering and the hard limit otherwise. -/
structure Slice.Limits (hardLimit limit : UInt64) (sub : SubQuery) (s : Slice) : Prop where
  start : s.start = sub.slice.start
  stop : s.stop = sub.slice.stop
  limit : s.limit = if sub.fitted then limit else hardLimit

theorem Slice.limits_of_withLimit {hardLimit limit : UInt64} {sub : SubQuery} {s : Slice}
    (done : sub.slice.withLimit (if sub.fitted then limit else hardLimit) = .ok s) :
    s.Limits hardLimit limit sub := by
  generalize final : (if sub.fitted then limit else hardLimit) = bound at done
  unfold Slice.withLimit at done
  split at done
  · obtain rfl := Except.ok.inj done
    exact ⟨rfl, rfl, final.symm⟩
  · cases done

namespace Container

theorem lookup_addReader (q : NamedQuery) (s t : Slice) (index : List (Slice × List NamedQuery)) :
    (addReader q s index).lookup t =
      if t = s then some ((index.lookup s).getD [] ++ [q]) else index.lookup t := by
  induction index with
  | nil => simp [addReader, lookup_cons_eq_ite]
  | cons entry rest ih =>
      obtain ⟨other, readers⟩ := entry
      simp only [addReader]
      by_cases here : other = s
      · subst here
        by_cases same : t = other <;> simp [lookup_cons_eq_ite, same]
      · have apart : s ≠ other := fun eq => here eq.symm
        simp only [if_neg here, lookup_cons_eq_ite, ih, if_neg apart]
        by_cases same : t = other
        · subst same
          simp [here]
        · simp [same]

theorem readers_enter (q : NamedQuery) (c : Container) (s t : Slice) :
    (c.enter q s).readers t = if t = s then c.readers s ++ [q] else c.readers t := by
  simp only [readers, enter, lookup_addReader]
  by_cases here : t = s <;> simp [here]

/-- A query that is entered for its slices is put behind the readers of each, as often as the
slice is among its own. -/
theorem readers_enterAll (q : NamedQuery) (slices : List Slice) (c : Container) (t : Slice) :
    (slices.foldl (enter q) c).readers t = c.readers t ++ List.replicate (slices.count t) q := by
  induction slices generalizing c with
  | nil => simp
  | cons s rest ih =>
      rw [List.foldl_cons, ih, readers_enter]
      by_cases here : t = s
      · subst here
        rw [if_pos rfl, List.count_cons_self, List.replicate_succ, List.append_assoc,
          List.singleton_append]
      · rw [if_neg here, List.count_cons_of_ne (Ne.symm here)]

/-- The slices that nobody read before are new, each once. -/
theorem slices_enterAll (q : NamedQuery) (slices : List Slice) (c : Container) :
    (slices.foldl (enter q) c).slices =
      c.slices ++ slices.eraseDups.filter fun s => (c.readers s).isEmpty := by
  induction slices generalizing c with
  | nil => simp
  | cons s rest ih =>
      have later : (fun t => ((c.enter q s).readers t).isEmpty) =
          fun t => (c.readers t).isEmpty && !t == s := by
        funext t
        rw [readers_enter]
        by_cases here : t = s <;> simp [here]
      rw [List.foldl_cons, ih, later, List.eraseDups_cons, List.filter_cons, eraseDups_filter,
        ← List.filter_filter]
      show (if (c.readers s).isEmpty then c.slices ++ [s] else c.slices) ++ _ = _
      split <;> simp

/-- The slices and the index of a container are those of some uses. -/
structure Lists (c : Container) (uses : List (Slice × NamedQuery)) : Prop where
  slices : c.slices = (uses.map Prod.fst).eraseDups
  readers : ∀ s, c.readers s = (uses.filter fun use => use.1 == s).map Prod.snd

namespace Lists

variable {c : Container} {uses : List (Slice × NamedQuery)}

/-- A slice without readers is a slice that was not used. -/
theorem isEmpty_readers (lists : c.Lists uses) (s : Slice) :
    (c.readers s).isEmpty = true ↔ s ∉ uses.map Prod.fst := by
  rw [lists.readers s, List.isEmpty_map, List.isEmpty_iff, List.filter_eq_nil_iff]
  constructor
  · intro apart used
    obtain ⟨use, member, here⟩ := List.mem_map.1 used
    exact apart use member (beq_iff_eq.2 here)
  · intro unused use member here
    exact unused (List.mem_map.2 ⟨use, member, beq_iff_eq.1 here⟩)

theorem enter (lists : c.Lists uses) (q : NamedQuery) (s : Slice) :
    (c.enter q s).Lists (uses ++ [(s, q)]) := by
  constructor
  · have unread := lists.isEmpty_readers s
    rw [List.map_append, List.map_singleton, eraseDups_concat, ← lists.slices]
    show (if (c.readers s).isEmpty then c.slices ++ [s] else c.slices) = _
    by_cases used : s ∈ uses.map Prod.fst
    · rw [if_pos used, if_neg fun empty => unread.1 empty used]
    · rw [if_neg used, if_pos (unread.2 used)]
  · intro t
    rw [readers_enter, List.filter_append, List.map_append, lists.readers, lists.readers]
    by_cases here : t = s
    · subst here
      simp
    · simp [here, Ne.symm here]

theorem enterAll (q : NamedQuery) (slices : List Slice) (lists : c.Lists uses) :
    (slices.foldl (Container.enter q) c).Lists (uses ++ slices.map fun s => (s, q)) := by
  induction slices generalizing c uses with
  | nil => simpa using lists
  | cons s rest ih =>
      have next := ih (lists.enter q s)
      rwa [List.append_assoc] at next

/-- Whether it is new makes no difference to the other fields. -/
theorem queries_enterAll (q : NamedQuery) (slices : List Slice) (c : Container) :
    (slices.foldl (Container.enter q) c).queries = c.queries ∧
      (slices.foldl (Container.enter q) c).hardLimit = c.hardLimit := by
  induction slices generalizing c with
  | nil => exact ⟨rfl, rfl⟩
  | cons s rest ih => exact ih (c.enter q s)

end Lists

/-- The slices and the index are those of the queries, and each query has the slices of its
plan with their final limits. -/
structure Exact (c : Container) : Prop where
  lists : c.Lists (c.queries.flatMap NamedQuery.uses)
  limited : ∀ q ∈ c.queries, List.Forall₂ (Slice.Limits c.hardLimit q.plan.limit) q.plan.queries
    q.slices

theorem limits_of_limited {hardLimit : UInt64} {p : Plan} {slices : List Slice}
    (done : limited hardLimit p = .ok slices) :
    List.Forall₂ (Slice.Limits hardLimit p.limit) p.queries slices :=
  (Outcome.forall₂_of_mapM done).imp fun _ _ => Slice.limits_of_withLimit

/-- All that registering a query does. -/
theorem register_spec {c c' : Container} {name : String} {category : RelationCategory} {p : Plan}
    {q : NamedQuery} (done : c.register name category p = .ok (q, c')) :
    limited c.hardLimit p = .ok q.slices ∧ q.plan = p ∧
      c' = { q.slices.foldl (enter q) c with queries := c.queries ++ [q] } := by
  simp only [register, Outcome.bind_eq_ok_iff] at done
  obtain ⟨slices, fits, -, -, -, -, same⟩ := done
  obtain ⟨rfl, rfl⟩ := Prod.mk.inj (Except.ok.inj same)
  exact ⟨fits, rfl, rfl⟩

theorem Exact.register {c c' : Container} (exact_ : c.Exact) {name : String}
    {category : RelationCategory} {p : Plan} {q : NamedQuery}
    (done : c.register name category p = .ok (q, c')) :
    c'.Exact ∧ c'.hardLimit = c.hardLimit := by
  obtain ⟨fits, rfl, rfl⟩ := register_spec done
  have entered := exact_.lists.enterAll q q.slices
  obtain ⟨-, hardLimit⟩ := Lists.queries_enterAll q q.slices c
  refine ⟨⟨?_, ?_⟩, hardLimit⟩
  · rw [List.flatMap_append, List.flatMap_singleton]
    exact ⟨entered.slices, entered.readers⟩
  · intro other member
    show List.Forall₂ (Slice.Limits (q.slices.foldl (enter q) c).hardLimit _) _ _
    rw [hardLimit]
    rcases List.mem_append.1 member with old | new
    · exact exact_.limited other old
    · obtain rfl := List.mem_singleton.1 new
      exact limits_of_limited fits

/-- A planned query that is to be registered. -/
structure Request where
  name : String
  category : RelationCategory
  plan : Plan

/-- The container after a request; one that is refused leaves it as it was. -/
def attempt (c : Container) (r : Request) : Container :=
  match c.register r.name r.category r.plan with
  | .ok (_, after) => after
  | .error _ => c

/-- The container after some requests in turn. -/
def registerAll (requests : List Request) (c : Container) : Container :=
  requests.foldl attempt c

theorem Exact.attempt {c : Container} (exact_ : c.Exact) (r : Request) :
    (c.attempt r).Exact ∧ (c.attempt r).hardLimit = c.hardLimit := by
  unfold Container.attempt
  split
  · rename_i done
    exact exact_.register done
  · exact ⟨exact_, rfl⟩

theorem exact_registerAll (requests : List Request) {c : Container} (exact_ : c.Exact) :
    (registerAll requests c).Exact ∧ (registerAll requests c).hardLimit = c.hardLimit := by
  induction requests generalizing c with
  | nil => exact ⟨exact_, rfl⟩
  | cons r rest ih =>
      obtain ⟨next, hardLimit⟩ := exact_.attempt r
      obtain ⟨after, same⟩ := ih next
      exact ⟨after, same.trans hardLimit⟩

/-! ## Readers -/

/-- The queries of which a slice is used, as often as each of them has it. -/
theorem readers_of_uses (queries : List NamedQuery) (s : Slice) :
    ((queries.flatMap NamedQuery.uses).filter fun use => use.1 == s).map Prod.snd =
      queries.flatMap fun q => List.replicate (q.slices.count s) q := by
  induction queries with
  | nil => rfl
  | cons q rest ih =>
      have own : (q.uses.filter fun use => use.1 == s).map Prod.snd =
          List.replicate (q.slices.count s) q := by
        rw [NamedQuery.uses, List.filter_map, List.map_map, List.eq_replicate_iff]
        constructor
        · rw [List.length_map, List.count_eq_length_filter]
          rfl
        · intro other member
          obtain ⟨t, -, rfl⟩ := List.mem_map.1 member
          rfl
      rw [List.flatMap_cons, List.filter_append, List.map_append, own, ih, List.flatMap_cons]

/-- Queries are listed once each exactly if none of them has the slice again. -/
theorem readers_once_iff (queries : List NamedQuery) (s : Slice) :
    (queries.flatMap fun q => List.replicate (q.slices.count s) q) =
        queries.filter (fun q => q.slices.contains s) ↔
      ∀ q ∈ queries, q.slices.count s ≤ 1 := by
  -- Every query that has the slice is listed, so only the number of entries can differ.
  have size : ∀ queries : List NamedQuery,
      (queries.filter fun q => q.slices.contains s).length ≤
        (queries.flatMap fun q => List.replicate (q.slices.count s) q).length ∧
      ((queries.flatMap fun q => List.replicate (q.slices.count s) q).length ≤
        (queries.filter fun q => q.slices.contains s).length →
          ∀ q ∈ queries, q.slices.count s ≤ 1) := by
    intro queries
    induction queries with
    | nil => simp
    | cons q rest ih =>
        obtain ⟨less, only⟩ := ih
        have positive : 0 < q.slices.count s ↔ s ∈ q.slices := List.count_pos_iff
        by_cases used : s ∈ q.slices
        · have listed := positive.2 used
          simp only [List.flatMap_cons, List.length_append, List.length_replicate,
            List.filter_cons, List.contains_eq_mem, used, decide_true, if_true,
            List.length_cons, List.forall_mem_cons] at less only ⊢
          exact ⟨by omega, fun small => ⟨by omega, only (by omega)⟩⟩
        · have unlisted : q.slices.count s = 0 := List.count_eq_zero.2 used
          simpa [List.filter_cons, used, unlisted] using And.intro less only
  constructor
  · intro same
    exact (size queries).2 (Nat.le_of_eq (congrArg List.length same))
  · intro once
    induction queries with
    | nil => rfl
    | cons q rest ih =>
        obtain ⟨here, later⟩ := List.forall_mem_cons.1 once
        rw [List.flatMap_cons, ih later, List.filter_cons]
        by_cases used : s ∈ q.slices
        · have one : q.slices.count s = 1 := by
            have listed := List.count_pos_iff.2 used
            omega
          simp [used, one]
        · simp [used, List.count_eq_zero.2 used]

/-- After any requests, a container lists the slices of its queries without repeats in the
order of their first use; for a slice it lists the queries that have it, in the order they
were registered and each as often as it has the slice, so each once exactly if none has it
again; and every slice of a query has its final limit. -/
theorem index_lists_uses (setting : PlanSetting) (hardLimit : UInt64) (requests : List Request) :
    let c := registerAll requests { Container.new setting with hardLimit }
    c.slices.Nodup ∧ c.slices = (c.queries.flatMap NamedQuery.slices).eraseDups ∧
      (∀ s, c.readers s = c.queries.flatMap fun q => List.replicate (q.slices.count s) q) ∧
      (∀ s, c.readers s = c.queries.filter (fun q => q.slices.contains s) ↔
        ∀ q ∈ c.queries, q.slices.count s ≤ 1) ∧
      ∀ q ∈ c.queries,
        List.Forall₂ (Slice.Limits hardLimit q.plan.limit) q.plan.queries q.slices := by
  intro c
  have fresh : Exact { Container.new setting with hardLimit } :=
    ⟨⟨rfl, fun _ => rfl⟩, fun _ never => by cases never⟩
  obtain ⟨exact_, same⟩ : c.Exact ∧ c.hardLimit = hardLimit := exact_registerAll requests fresh
  have readers (s : Slice) : c.readers s =
      c.queries.flatMap fun q => List.replicate (q.slices.count s) q :=
    (exact_.lists.readers s).trans (readers_of_uses c.queries s)
  have slices : c.slices = (c.queries.flatMap NamedQuery.slices).eraseDups := by
    rw [exact_.lists.slices, List.map_flatMap]
    refine congrArg List.eraseDups (congrArg (c.queries.flatMap ·) (funext fun q => ?_))
    rw [NamedQuery.uses, List.map_map]
    exact List.map_id _
  refine ⟨?_, slices, readers, fun s => ?_, fun q member => ?_⟩
  · rw [slices]
    exact nodup_eraseDups _
  · rw [readers]
    exact readers_once_iff c.queries s
  · rw [← same]
    exact exact_.limited q member

/-- A query of which a label is named twice is listed twice for the slice of the label. -/
theorem reader_listed_twice : ∃ q c s,
    (Container.new Plan.unchanged).add network (some "twice") Plan.followedTwice .edge =
      .ok (q, c) ∧
    c.queries = [q] ∧ c.slices = [s] ∧ s ∈ q.slices ∧ c.readers s = [q, q] := by
  refine ⟨_, _, _, rfl, rfl, rfl, ?_, rfl⟩
  exact List.mem_cons_self

end Container

end PropertyGraph
