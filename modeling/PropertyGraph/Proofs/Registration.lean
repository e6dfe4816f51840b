/-
# Proofs.Registration -- queries are registered as a whole or not at all

A container books a query in four places: among its queries, under its name, among the
slices and under each slice in the index.  `Booking` is the same work done in place, step
by step, so that a step that fails leaves behind what the steps before it did.  All checks
come before the first change (`ends_registering`), hence what is left behind is either
everything that `Container.add` says or nothing (`ends_finishing`).

* `Refused` lists the four reasons for which a query is not registered, and
  `add_fails_iff` says that there are no other ones while limits are positive.
* `Books.Sound` says that queries have names of their own, that no two of them read the
  same slices of one category, and that the names are those of the queries.  A step keeps
  it (`Sound.finishing`), so every state that can be reached has it.
-/
import PropertyGraph.Proofs.SliceIndex
import PropertyGraph.Proofs.ValidQueries

namespace PropertyGraph

set_option autoImplicit false

namespace Container

/-- What a container has registered, in the four places. -/
structure Books where
  queries : List NamedQuery
  names : List String
  /-- The different slices in the order of their first use. -/
  slices : List Slice
  /-- The queries that read a slice, in the order they were entered. -/
  index : List (Slice × List NamedQuery)

/-- The books of a container; the names are those of its queries. -/
def books (c : Container) : Books :=
  ⟨c.queries, c.queries.map NamedQuery.name, c.slices, c.index⟩

/-- The name of the next query: the one that is asked for, or its number. -/
def Books.nameOr (b : Books) (name : Option String) : String :=
  name.getD ("query$" ++ toString b.queries.length)

/-- Enters a query for one of its slices.  A slice that nobody reads yet is new. -/
def Books.enter (q : NamedQuery) (b : Books) (s : Slice) : Books :=
  { b with
    slices := if ((b.index.lookup s).getD []).isEmpty then b.slices ++ [s] else b.slices
    index := addReader q s b.index }

/-- Work on the books, in place: a step that fails leaves them as the steps before it
did. -/
abbrev Booking := ExceptT Fault (StateM Books)

/-- How work on some books ends, and the books that it leaves. -/
def Booking.ends {α : Type} (work : Booking α) (b : Books) : Outcome α × Books := work.run.run b

/-- Registers a planned query. -/
def registering (hardLimit : UInt64) (name : Option String) (category : RelationCategory)
    (p : Plan) : Booking NamedQuery := do
  let slices ← limited hardLimit p
  let name := (← get).nameOr name
  (Fault.invalid (.queryNameTaken name)).unless (!(← get).names.contains name)
  let added : NamedQuery := ⟨name, category, slices, p⟩
  (Fault.invalid (.duplicateQuery name)).unless
    (slices.isEmpty || !(← get).queries.any fun q => q.sameRequest added)
  slices.forM fun s => modify fun b => b.enter added s
  modify fun b => { b with names := b.names ++ [name] }
  modify fun b => { b with queries := b.queries ++ [added] }
  return added

/-- Names a query, plans it and registers it. -/
def finishing (types : TypeCatalog Outcome) (setting : PlanSetting) (hardLimit : UInt64)
    (given : Option String) (q : VertexQuery) (category : RelationCategory) :
    Booking NamedQuery := do
  (Fault.invalid .blankQueryName).unless (!given.any Text.isBlank)
  let p ← (Plan.build types setting q category : Outcome Plan)
  registering hardLimit (given.or q.singleType) category p

theorem ends_enterAll_bind {β : Type} (q : NamedQuery) (slices : List Slice)
    (later : Unit → Booking β) (b : Books) :
    Booking.ends ((slices.forM fun s => modify fun b => b.enter q s) >>= later) b =
      (later ()).ends (slices.foldl (Books.enter q) b) := by
  induction slices generalizing b with
  | nil => rfl
  | cons s rest ih => exact ih (b.enter q s)

theorem ends_lift_bind {α β : Type} (o : Outcome α) (later : α → Booking β) (b : Books) :
    Booking.ends ((MonadLiftT.monadLift o : Booking α) >>= later) b =
      match o with
      | .ok a => (later a).ends b
      | .error fault => (.error fault, b) := by
  cases o <;> rfl

theorem ends_get_bind {β : Type} (later : Books → Booking β) (b : Books) :
    Booking.ends (get >>= later) b = (later b).ends b := rfl

/-- After the slices a query is entered for come its name and the query itself. -/
def Books.add (b : Books) (q : NamedQuery) : Books :=
  let entered := q.slices.foldl (Books.enter q) b
  { entered with names := entered.names ++ [q.name], queries := entered.queries ++ [q] }

/-- The query that is to be registered, if nothing speaks against it. -/
def Books.vetted (b : Books) (hardLimit : UInt64) (name : Option String)
    (category : RelationCategory) (p : Plan) : Outcome NamedQuery := do
  let slices ← limited hardLimit p
  let name := b.nameOr name
  (Fault.invalid (.queryNameTaken name)).unless (!b.names.contains name)
  let added : NamedQuery := ⟨name, category, slices, p⟩
  (Fault.invalid (.duplicateQuery name)).unless
    (slices.isEmpty || !b.queries.any fun q => q.sameRequest added)
  return added

/-- All checks come before the first change. -/
theorem ends_registering (hardLimit : UInt64) (name : Option String)
    (category : RelationCategory) (p : Plan) (b : Books) :
    (registering hardLimit name category p).ends b =
      match b.vetted hardLimit name category p with
      | .ok added => (.ok added, b.add added)
      | .error fault => (.error fault, b) := by
  unfold registering Books.vetted
  rw [ends_lift_bind]
  cases limited hardLimit p with
  | error fault => rfl
  | ok slices =>
      dsimp only [Outcome.ok_bind]
      rw [ends_get_bind, ends_get_bind, ends_lift_bind]
      generalize (Fault.invalid (.queryNameTaken _)).unless _ = free
      cases free with
      | error fault => rfl
      | ok _ =>
          dsimp only [Outcome.ok_bind]
          rw [ends_get_bind, ends_lift_bind]
          generalize (Fault.invalid (.duplicateQuery _)).unless _ = new
          cases new with
          | error fault => rfl
          | ok _ => exact ends_enterAll_bind _ slices _ b

/-! ## The container and its books -/

theorem books_enterAll (q : NamedQuery) (slices : List Slice) (c : Container) :
    (slices.foldl (enter q) c).books = slices.foldl (Books.enter q) c.books := by
  induction slices generalizing c with
  | nil => rfl
  | cons s rest ih => exact ih (c.enter q s)

/-- The container with one query more. -/
def withQuery (c : Container) (q : NamedQuery) : Container :=
  { q.slices.foldl (enter q) c with queries := c.queries ++ [q] }

theorem books_withQuery (c : Container) (q : NamedQuery) :
    (c.withQuery q).books = c.books.add q := by
  have entered := books_enterAll q q.slices c
  obtain ⟨queries, -⟩ := Lists.queries_enterAll q q.slices c
  rw [Books.add, ← entered]
  simp only [books, withQuery, queries, List.map_append, List.map_singleton]

theorem register_eq_map (c : Container) (name : Option String) (category : RelationCategory)
    (p : Plan) :
    c.register (c.books.nameOr name) category p =
      (c.books.vetted c.hardLimit name category p).map fun q => (q, c.withQuery q) := by
  have names : ∀ name, c.books.names.contains name = c.queries.any fun q => q.name == name := by
    intro name
    rw [Bool.eq_iff_iff]
    simp [books]
  have queries : c.books.queries = c.queries := rfl
  unfold register Books.vetted
  simp only [names, queries]
  cases limited c.hardLimit p with
  | error fault => rfl
  | ok slices =>
      dsimp only [Outcome.ok_bind]
      generalize (Fault.invalid (.queryNameTaken _)).unless _ = free
      cases free with
      | error fault => rfl
      | ok _ =>
          dsimp only [Outcome.ok_bind]
          generalize (Fault.invalid (.duplicateQuery _)).unless _ = new
          cases new <;> rfl

theorem nameFor_eq (c : Container) (given : Option String) (q : VertexQuery) :
    c.nameFor given q = c.books.nameOr (given.or q.singleType) := rfl

/-- In place a query is booked just as it is added, or the books stay as they were. -/
theorem ends_finishing (types : TypeCatalog Outcome) (c : Container) (given : Option String)
    (q : VertexQuery) (category : RelationCategory) :
    (finishing types c.setting c.hardLimit given q category).ends c.books =
      match c.add types given q category with
      | .ok (added, after) => (.ok added, after.books)
      | .error fault => (.error fault, c.books) := by
  unfold finishing add
  rw [ends_lift_bind]
  generalize Fault.unless (.invalid .blankQueryName) _ = named
  cases named with
  | error fault => rfl
  | ok _ =>
      dsimp only [Outcome.ok_bind]
      rw [ends_lift_bind]
      cases Plan.build types c.setting q category with
      | error fault => rfl
      | ok p =>
          have registered := register_eq_map c (given.or q.singleType) category p
          show (registering c.hardLimit (given.or q.singleType) category p).ends c.books =
            match c.register (c.nameFor given q) category p with
            | .ok (added, after) => (.ok added, after.books)
            | .error fault => (.error fault, c.books)
          rw [ends_registering, nameFor_eq, registered]
          cases c.books.vetted c.hardLimit (given.or q.singleType) category p with
          | error fault => rfl
          | ok added => exact Prod.ext rfl (books_withQuery c added).symm

/-! ## When a query is registered -/

/-- Nothing that is registered speaks against a query. -/
structure Books.Admits (b : Books) (q : NamedQuery) : Prop where
  free : q.name ∉ b.names
  new : q.slices ≠ [] → ∀ r ∈ b.queries, r.sameRequest q = false

theorem vetted_eq_ok_iff {b : Books} {hardLimit : UInt64} {name : Option String}
    {category : RelationCategory} {p : Plan} {added : NamedQuery} :
    b.vetted hardLimit name category p = .ok added ↔
      limited hardLimit p = .ok added.slices ∧ b.Admits added ∧
        added = ⟨b.nameOr name, category, added.slices, p⟩ := by
  simp only [Books.vetted, Outcome.bind_eq_ok_iff]
  constructor
  · rintro ⟨slices, fits, _, free, _, new, done⟩
    rw [Fault.unless_eq_ok_iff] at free new
    obtain rfl := Except.ok.inj done
    refine ⟨fits, ⟨by simpa using free, fun read r member => ?_⟩, rfl⟩
    have unread : slices.isEmpty = false := List.isEmpty_eq_false_iff.mpr read
    rw [unread, Bool.false_or, Bool.not_eq_true', List.any_eq_false] at new
    exact Bool.eq_false_iff.mpr (new r member)
  · rintro ⟨fits, ⟨free, new⟩, same⟩
    rw [same] at free new ⊢
    refine ⟨_, fits, (), ?_, (), ?_, rfl⟩
    · rw [Fault.unless_eq_ok_iff]
      simpa using free
    · rw [Fault.unless_eq_ok_iff, Bool.or_eq_true, Bool.not_eq_true', List.any_eq_false]
      by_cases read : added.slices = []
      · exact .inl (List.isEmpty_iff.mpr read)
      · exact .inr fun r member => Bool.eq_false_iff.mp (new read r member)

theorem add_eq_ok_iff {types : TypeCatalog Outcome} {c : Container} {given : Option String}
    {q : VertexQuery} {category : RelationCategory} {added : NamedQuery} {after : Container} :
    c.add types given q category = .ok (added, after) ↔
      given.any Text.isBlank = false ∧ ∃ p, Plan.build types c.setting q category = .ok p ∧
        c.books.vetted c.hardLimit (given.or q.singleType) category p = .ok added ∧
        after = c.withQuery added := by
  simp only [add, nameFor_eq, register_eq_map, Outcome.bind_eq_ok_iff, monadLift_self]
  constructor
  · rintro ⟨_, named, p, built, done⟩
    rw [Fault.unless_eq_ok_iff, Bool.not_eq_true'] at named
    refine ⟨named, p, built, ?_⟩
    cases admitted : c.books.vetted c.hardLimit (given.or q.singleType) category p with
    | error fault =>
        rw [admitted] at done
        cases done
    | ok other =>
        rw [admitted] at done
        obtain ⟨rfl, rfl⟩ := Prod.mk.inj (Except.ok.inj done)
        exact ⟨rfl, rfl⟩
  · rintro ⟨named, p, built, admitted, rfl⟩
    refine ⟨(), ?_, p, built, ?_⟩
    · rw [Fault.unless_eq_ok_iff, named]
      rfl
    · rw [admitted]
      rfl

theorem exists_limited {hardLimit : UInt64} (positive : 0 < hardLimit) {p : Plan}
    (wanted : p.queries ≠ [] → 0 < p.limit) : ∃ slices, limited hardLimit p = .ok slices := by
  refine Outcome.exists_mapM fun sub member => Plan.exists_withLimit sub.slice ?_
  split
  · exact wanted (List.ne_nil_of_mem member)
  · exact positive

/-- Why a query is not registered. -/
inductive Refused (types : TypeCatalog Outcome) (c : Container) (given : Option String)
    (q : VertexQuery) (category : RelationCategory) : Prop
  /-- There is no plan for it. -/
  | unplanned {fault : Fault} (failed : Plan.build types c.setting q category = .error fault)
  /-- It is given a blank name. -/
  | blank {name : String} (named : given = some name) (blank : Text.isBlank name = true)
  /-- A registered query has its name. -/
  | taken {r : NamedQuery} (member : r ∈ c.queries) (name : r.name = c.nameFor given q)
  /-- A registered query reads the same slices of the same category. -/
  | repeated {p : Plan} {slices : List Slice} {r : NamedQuery}
      (built : Plan.build types c.setting q category = .ok p)
      (fits : limited c.hardLimit p = .ok slices) (read : slices ≠ []) (member : r ∈ c.queries)
      (category : r.category = category) (slices : r.slices = slices)

theorem sameRequest_eq_false_iff (r q : NamedQuery) :
    r.sameRequest q = false ↔ ¬ (r.category = q.category ∧ r.slices = q.slices) := by
  rw [← Bool.not_eq_true, NamedQuery.sameRequest, Bool.and_eq_true, beq_iff_eq, beq_iff_eq]

/-- While limits are positive, a query is registered unless there is one of these reasons. -/
theorem add_fails_iff {types : TypeCatalog Outcome} {c : Container} (positive : 0 < c.hardLimit)
    {given : Option String} {q : VertexQuery} {category : RelationCategory} :
    (∃ fault, c.add types given q category = .error fault) ↔ Refused types c given q category := by
  constructor
  · rintro ⟨fault, failed⟩
    by_contra accepted
    have named : given.any Text.isBlank = false := by
      rw [← Bool.not_eq_true, Option.any_eq_true]
      rintro ⟨name, isNamed, blank⟩
      exact accepted (.blank isNamed blank)
    cases built : Plan.build types c.setting q category with
    | error fault => exact accepted (.unplanned built)
    | ok p =>
        obtain ⟨slices, fits⟩ := exists_limited positive (Plan.limit_pos_of_build built)
        have admitted : c.books.vetted c.hardLimit (given.or q.singleType) category p =
            .ok ⟨c.nameFor given q, category, slices, p⟩ := by
          rw [vetted_eq_ok_iff]
          refine ⟨fits, ⟨fun taken => ?_, fun read r member => ?_⟩, rfl⟩
          · obtain ⟨r, member, name⟩ := List.mem_map.mp taken
            exact accepted (.taken member name)
          · rw [sameRequest_eq_false_iff]
            rintro ⟨same, slices⟩
            exact accepted (.repeated built fits read member same slices)
        cases failed.symm.trans (add_eq_ok_iff.mpr ⟨named, p, built, admitted, rfl⟩)
  · intro refused
    cases done : c.add types given q category with
    | error fault => exact ⟨fault, rfl⟩
    | ok result =>
        obtain ⟨added, after⟩ := result
        obtain ⟨named, p, built, admitted, -⟩ := add_eq_ok_iff.mp done
        obtain ⟨fits, admits, same⟩ := vetted_eq_ok_iff.mp admitted
        cases refused with
        | unplanned failed => cases failed.symm.trans built
        | blank isNamed blank =>
            rw [isNamed, Option.any_some, blank] at named
            cases named
        | taken member name =>
            refine absurd (List.mem_map.mpr ⟨_, member, ?_⟩) admits.free
            rw [name, same]
            rfl
        | repeated built' fits' read member ofCategory ofSlices =>
            obtain rfl := Except.ok.inj (built.symm.trans built')
            obtain rfl := Except.ok.inj (fits.symm.trans fits')
            have apart := (sameRequest_eq_false_iff _ _).mp (admits.new read _ member)
            have sameCategory : added.category = category := congrArg NamedQuery.category same
            exact absurd ⟨ofCategory.trans sameCategory.symm, ofSlices⟩ apart

/-! ## What is registered -/

/-- What all books have in common that were kept by registering queries: queries have names of
their own, which are the names that are taken, and no two of them read the same slices of one
category. -/
structure Books.Sound (b : Books) : Prop where
  names : b.names = b.queries.map NamedQuery.name
  once : b.names.Nodup
  apart : b.queries.Pairwise fun r q => q.slices ≠ [] → r.sameRequest q = false

theorem enterAll_only (q : NamedQuery) (slices : List Slice) (b : Books) :
    (slices.foldl (Books.enter q) b).queries = b.queries ∧
      (slices.foldl (Books.enter q) b).names = b.names := by
  induction slices generalizing b with
  | nil => exact ⟨rfl, rfl⟩
  | cons s rest ih => exact ih (b.enter q s)

theorem Books.Sound.add {b : Books} (sound : b.Sound) {q : NamedQuery} (admits : b.Admits q) :
    (b.add q).Sound := by
  obtain ⟨queries, names⟩ := enterAll_only q q.slices b
  have queriesAfter : (b.add q).queries = b.queries ++ [q] := congrArg (· ++ [q]) queries
  have namesAfter : (b.add q).names = b.names ++ [q.name] := congrArg (· ++ [q.name]) names
  constructor
  · rw [queriesAfter, namesAfter, sound.names, List.map_append]
    rfl
  · rw [namesAfter, List.nodup_append]
    refine ⟨sound.once, List.pairwise_singleton _ _, ?_⟩
    rintro name member _ last rfl
    obtain rfl := List.mem_singleton.mp last
    exact admits.free member
  · rw [queriesAfter, List.pairwise_append]
    refine ⟨sound.apart, List.pairwise_singleton _ q, ?_⟩
    rintro r member _ last read
    obtain rfl := List.mem_singleton.mp last
    exact admits.new read r member

/-- One query more keeps the books sound, whether it is registered or refused. -/
theorem Books.Sound.finishing {b : Books} (sound : b.Sound) (types : TypeCatalog Outcome)
    (setting : PlanSetting) (hardLimit : UInt64) (given : Option String) (q : VertexQuery)
    (category : RelationCategory) :
    ((finishing types setting hardLimit given q category).ends b).2.Sound := by
  unfold Container.finishing
  rw [ends_lift_bind]
  cases Fault.unless (.invalid .blankQueryName) (!given.any Text.isBlank) with
  | error fault => exact sound
  | ok _ =>
      dsimp only
      rw [ends_lift_bind]
      cases Plan.build types setting q category with
      | error fault => exact sound
      | ok p =>
          dsimp only
          rw [ends_registering]
          cases admitted : b.vetted hardLimit (given.or q.singleType) category p with
          | error fault => exact sound
          | ok added => exact sound.add (vetted_eq_ok_iff.mp admitted).2.1

/-- Books that come about by finishing queries, one after the other, under any schemas and
limits. -/
inductive Books.Reachable : Books → Prop
  | empty : Books.Reachable ⟨[], [], [], []⟩
  | finishing {b : Books} (reachable : b.Reachable) (types : TypeCatalog Outcome)
      (setting : PlanSetting) (hardLimit : UInt64) (given : Option String) (q : VertexQuery)
      (category : RelationCategory) :
      Books.Reachable ((finishing types setting hardLimit given q category).ends b).2

theorem Books.Reachable.sound {b : Books} (reachable : b.Reachable) : b.Sound := by
  induction reachable with
  | empty => exact ⟨rfl, .nil, .nil⟩
  | finishing _ types setting hardLimit given q category ih =>
      exact ih.finishing types setting hardLimit given q category

/-- Queries are registered as a whole or not at all, and just those are refused that there is
a reason for.  While limits are positive, finishing a query fails exactly for want of a plan, for
a blank name, for a name that is taken, or for slices that a query of the category reads
already.  Done in place, it then leaves queries, names, slices and index as they were; otherwise
it leaves those of the container with one query more, which is then read off as a reader of each
of its slices, behind the others; slices that nobody read are put behind the rest, once each.
So, after whatever was finished, names are unique and no two queries with slices are the same
request. -/
theorem registered_whole_or_not :
    (∀ c : Container, 0 < c.hardLimit → ∀ types given q category,
      ((∃ fault, c.add types given q category = .error fault) ↔
        Refused types c given q category) ∧
      (∀ fault, c.add types given q category = .error fault →
        (finishing types c.setting c.hardLimit given q category).ends c.books =
          (.error fault, c.books)) ∧
      ∀ added after, c.add types given q category = .ok (added, after) →
        (finishing types c.setting c.hardLimit given q category).ends c.books =
          (.ok added, after.books) ∧
        after.queries = c.queries ++ [added] ∧
        (∀ s, after.readers s = c.readers s ++ List.replicate (added.slices.count s) added) ∧
        after.slices = c.slices ++
          added.slices.eraseDups.filter fun s => (c.readers s).isEmpty) ∧
    ∀ b : Books, b.Reachable →
      b.names = b.queries.map NamedQuery.name ∧ b.names.Nodup ∧
        b.queries.Pairwise fun r q => q.slices ≠ [] → r.sameRequest q = false := by
  constructor
  · intro c positive types given q category
    have inPlace := ends_finishing types c given q category
    refine ⟨add_fails_iff positive, fun fault failed => ?_, fun added after done => ⟨?_, ?_⟩⟩
    · rw [inPlace, failed]
    · rw [inPlace, done]
    · obtain ⟨-, p, -, -, rfl⟩ := add_eq_ok_iff.mp done
      exact ⟨rfl, readers_enterAll added added.slices c, slices_enterAll added added.slices c⟩
  · intro b reachable
    have sound := reachable.sound
    exact ⟨sound.names, sound.once, sound.apart⟩

/-- Who is followed, five at most. -/
def followed : VertexQuery := ⟨.out, ["follows"], [], [], 5, none⟩

/-- The same request under another name is refused, and only the first one is booked. -/
theorem second_request_refused :
    ∃ added c, (Container.new Plan.unchanged).add network none followed .edge = .ok (added, c) ∧
      (∃ fault, (finishing network c.setting c.hardLimit (some "again") followed .edge).ends
        c.books = (.error fault, c.books)) ∧
      c.books.names.Nodup ∧ "follows" ∈ c.books.names := by
  obtain ⟨added, c, done, name, category, read, setting, hardLimit⟩ :
      ∃ added c, (Container.new Plan.unchanged).add network none followed .edge = .ok (added, c) ∧
        added.name = "follows" ∧ added.category = .edge ∧ added.slices ≠ [] ∧
        c.setting = Plan.unchanged ∧ c.hardLimit = (Container.new Plan.unchanged).hardLimit :=
    ⟨_, _, rfl, rfl, rfl, by decide, rfl, rfl⟩
  obtain ⟨ofContainers, ofBooks⟩ := registered_whole_or_not
  obtain ⟨-, -, booked⟩ :=
    ofContainers (Container.new Plan.unchanged) (by decide) network none followed .edge
  obtain ⟨inPlace, queries, -⟩ := booked added c done
  have member : added ∈ c.queries := by
    rw [queries]
    exact List.mem_append_right _ List.mem_cons_self
  have positive : 0 < c.hardLimit := by
    rw [hardLimit]
    decide
  obtain ⟨refuses, unchanged, -⟩ :=
    ofContainers c positive network (some "again") followed .edge
  have refused : Refused network c (some "again") followed .edge := by
    obtain ⟨-, p, built, admitted, -⟩ := add_eq_ok_iff.mp done
    obtain ⟨fits, -, -⟩ := vetted_eq_ok_iff.mp admitted
    exact .repeated (setting ▸ built) (hardLimit ▸ fits) read member category rfl
  have reachable : c.books.Reachable := by
    have fresh : (Container.new Plan.unchanged).books.Reachable := .empty
    have left : c.books = _ := (congrArg Prod.snd inPlace).symm
    rw [left]
    exact fresh.finishing network _ _ none followed .edge
  obtain ⟨fault, failed⟩ := refuses.mpr refused
  exact ⟨added, c, done, ⟨fault, unchanged fault failed⟩, (ofBooks c.books reachable).2.1,
    List.mem_map.mpr ⟨added, member, name⟩⟩

end Container

end PropertyGraph
