/-
# Proofs.CachedReads -- reading a table through a coherent cache

Kept answers are judged by a standard: that they are what the table answers
(`Table.Answers`), or some other one that the table itself meets (`Standard.Fair`).

* `Reads right c c'` collects what reads leave of a cache: it stays coherent, in its
  place, under its generation, and as willing to answer.
* A request answers with the row as its reader sees it, changes held back included
  (`requestSlice_spec`, `requestSlices_spec`), whatever reads the table refuses; the fills it
  leaves are answers of the table under the generation that was current.
* A read is a request whose fills come at once (`getSlice_spec`, `getSlices_spec`).
-/
import PropertyGraph.Proofs.Coherence
import PropertyGraph.Proofs.HeldWrites
import PropertyGraph.Proofs.ReadSteps

namespace PropertyGraph

set_option autoImplicit false

/-- A row as a reader sees it that holds back changes of it. -/
def Table.seen (t : Table) (pending : Option Mutation) (key : Bytes) : List Entry :=
  match pending with
  | some m => m.applyTo (t.row key)
  | none => t.row key

/-- By what the answers that are kept of a table are judged. -/
abbrev Standard := Table → KeySlice → List Entry → Prop

/-- The table itself meets the standard, which looks at nothing but the row asked for. -/
structure Standard.Fair (right : Standard) : Prop where
  met : ∀ t q, right t q (t.readSlice q)
  ofRow : ∀ {t t' : Table} {q : KeySlice} {entries : List Entry},
    t'.row q.key = t.row q.key → right t q entries → right t' q entries

/-- What the table answers to a query. -/
def Table.Answers : Standard := fun t q entries => entries = t.readSlice q

theorem Table.fair_answers : Standard.Fair Table.Answers := by
  refine ⟨fun _ _ => rfl, fun same right => right.trans ?_⟩
  rw [readSlice, readSlice, same]

/-- Anything will do. -/
def Standard.any : Standard := fun _ _ _ => True

theorem Standard.fair_any : any.Fair := ⟨fun _ _ => trivial, fun _ _ => trivial⟩

/-- An answer for a reader that holds back changes of the row; without any it is
judged by a standard. -/
def Table.Shows (t : Table) (right : KeySlice → List Entry → Prop) (pending : Option Mutation)
    (q : KeySlice) (entries : List Entry) : Prop :=
  match pending with
  | some m => entries = q.slice.apply (m.applyTo (t.row q.key))
  | none => right q entries

theorem Table.shows_answers_iff {t : Table} (sound : t.Sound) {pending : Option Mutation}
    {q : KeySlice} {entries : List Entry} :
    t.Shows t.Answers pending q entries ↔ entries = q.slice.apply (t.seen pending q.key) := by
  cases pending with
  | some m => exact Iff.rfl
  | none => rw [Shows, Answers, sound.readSlice_eq, seen]

namespace SliceCache

theorem generation_countDown (c : SliceCache) (now : Nat) :
    (c.countDown now).generation = c.generation := by
  unfold countDown
  split <;> rfl

theorem generation_isExpired (c : SliceCache) (now : Nat) (key : Bytes) :
    (c.isExpired now key).2.generation = c.generation := by
  unfold isExpired
  split
  · rfl
  · split
    · rfl
    · exact generation_countDown c now

theorem generation_get (c : SliceCache) (now : Nat) (q : KeySlice) :
    (c.get now q).2.generation = c.generation := by
  unfold get
  split
  · rfl
  · split <;> rfl

theorem generation_put (c : SliceCache) (now : Nat) (q : KeySlice) (entries : List Entry)
    (generation : Nat) : (c.put now q entries generation).generation = c.generation := by
  unfold put
  split
  · rfl
  · split <;> rfl

end SliceCache

namespace StoreCache

/-- Which table the cache stands in front of. -/
def place (c : StoreCache) : Nat × String := (c.table, c.name)

/-- The generation under which answers are kept; a disabled cache has none. -/
def generation (c : StoreCache) : Option Nat := c.slices.map SliceCache.generation

/-- The cache is going to keep a fill. -/
def Admits (c : StoreCache) (f : Fill) : Prop :=
  ∃ s, c.slices = some s ∧ s.Admits f.query f.entries f.generation

/-- Nothing is about to interrupt, and every slice that is kept is right or excused. -/
structure Coherent (c : StoreCache) (right : KeySlice → List Entry → Prop) : Prop where
  quiet : c.interruption = none
  slices : ∀ s, c.slices = some s → s.Coherent c.time right

theorem coherent_create (table : Nat) (name : String) (o : CacheOptions) (metrics : Bool)
    (route : Bytes → Nat) (right : KeySlice → List Entry → Prop) :
    (create table name o metrics route).Coherent right := by
  refine ⟨rfl, ?_⟩
  intro s kept
  simp only [create] at kept
  split at kept
  · obtain rfl := Option.some.inj kept
    exact SliceCache.coherent_create _ _ _ _ _ _ _
  · cases kept

/-- What reads make of a cache. -/
structure Reads (right : KeySlice → List Entry → Prop) (c c' : StoreCache) : Prop where
  coherent : c'.Coherent right
  place : c'.place = c.place
  generation : c'.generation = c.generation
  permits : c.monitor.failing = 0 → c'.monitor.failing = 0

namespace Reads

variable {t : Table} {right : KeySlice → List Entry → Prop} {c c' : StoreCache}

theorem refl (coherent : c.Coherent right) : Reads right c c := ⟨coherent, rfl, rfl, id⟩

theorem record (reads : Reads right c c') (event : CacheEvent) : Reads right c (c'.record event) :=
  ⟨⟨reads.coherent.quiet, reads.coherent.slices⟩, reads.place, reads.generation, reads.permits⟩

/-- The kept slices are replaced by others that are as good. -/
theorem keep (reads : Reads right c c') {s s' : SliceCache} (kept : c'.slices = some s)
    (coherent : s'.Coherent c'.time right)
    (generation : s'.generation = s.generation) : Reads right c { c' with slices := some s' } := by
  refine ⟨⟨reads.coherent.quiet, ?_⟩, reads.place, ?_, reads.permits⟩
  · intro s'' same
    obtain rfl := Option.some.inj same
    exact coherent
  · rw [← reads.generation]
    simp only [StoreCache.generation, kept, Option.map_some, generation]

theorem consult (reads : Reads right c c') {q : KeySlice} {consultation : Consultation}
    {after : StoreCache} (known : c'.consult q = (consultation, after)) :
    Reads right c after ∧
      (∀ entries, consultation = .hit entries → right q entries) ∧
      (∀ generation, consultation = .absent generation → c.generation = some generation) := by
  have goes := c'.consult_goes q
  rw [known] at goes
  cases goes with
  | off disabled => exact ⟨reads, nofun, nofun⟩
  | marked kept looked =>
      obtain ⟨coherent, -⟩ := looked ▸ (reads.coherent.slices _ kept).isExpired q.key
      have same := looked ▸ SliceCache.generation_isExpired _ c'.time q.key
      exact ⟨reads.keep kept coherent same, nofun, nofun⟩
  | @hit s s' s'' entries kept looked found =>
      obtain ⟨coherent, unexpired⟩ := looked ▸ (reads.coherent.slices s kept).isExpired q.key
      obtain ⟨got, served⟩ := found ▸ coherent.get q
      have first := looked ▸ s.generation_isExpired c'.time q.key
      have same : s''.generation = s.generation :=
        (found ▸ s'.generation_get c'.time q).trans first
      refine ⟨reads.keep kept got same, fun other is => ?_, nofun⟩
      obtain rfl := Consultation.hit.inj is
      exact served (unexpired rfl) entries rfl
  | @absent s s' s'' kept looked found =>
      obtain ⟨coherent, -⟩ := looked ▸ (reads.coherent.slices s kept).isExpired q.key
      obtain ⟨got, -⟩ := found ▸ coherent.get q
      have first := looked ▸ s.generation_isExpired c'.time q.key
      have same : s''.generation = s.generation :=
        (found ▸ s'.generation_get c'.time q).trans first
      refine ⟨reads.keep kept got same, nofun, fun generation is => ?_⟩
      obtain rfl := Consultation.absent.inj is
      rw [← reads.generation, StoreCache.generation, kept]
      exact congrArg some same.symm

/-- The monitor notes a read. -/
theorem note (reads : Reads right c c') (read : TableRead) :
    Reads right c { c' with monitor := (c'.monitor.record read).2 } :=
  ⟨⟨reads.coherent.quiet, reads.coherent.slices⟩, reads.place, reads.generation,
    fun willing => ReadMonitor.failing_record (reads.permits willing) read⟩

/-- Asking the table changes nothing that is kept, and the answer is the table's. -/
theorem ask (reads : Reads right c c') {α : Type} {refused : Option Fault} {read : TableRead}
    {answer : α} {outcome : Outcome α} {after : StoreCache}
    (asked : c'.ask refused read answer = (outcome, after)) :
    Reads right c after ∧
      (∀ a, outcome = .ok a → a = answer) ∧
      (c.monitor.failing = 0 → refused = none → outcome = .ok answer) := by
  rw [ask_of_quiet reads.coherent.quiet] at asked
  obtain ⟨rfl, rfl⟩ := Prod.mk.inj asked
  refine ⟨reads.note read, fun a same => (unlessRefused_eq_ok_iff.1 same).2.symm, ?_⟩
  rintro willing rfl
  exact unlessRefused_eq_ok_iff.2
    ⟨ReadMonitor.verdict_none_iff.2 (reads.permits willing), rfl⟩

/-- A fill may be wrong only if it is refused. -/
theorem fill (reads : Reads right c c') {f : Fill}
    (fine : c'.Admits f → right f.query f.entries) : Reads right c (c'.fill f) := by
  unfold StoreCache.fill
  cases kept : c'.slices with
  | none =>
      refine ⟨⟨reads.coherent.quiet, ?_⟩, reads.place, ?_, reads.permits⟩
      · intro s same
        cases same
      · rw [← reads.generation, StoreCache.generation, StoreCache.generation, kept]
        rfl
  | some s =>
      refine reads.keep kept ?_ (SliceCache.generation_put s _ _ _ _)
      exact (reads.coherent.slices s kept).put fun admits => fine ⟨s, kept, admits⟩

theorem fillAll (reads : Reads right c c') {fills : List Fill}
    (fine : ∀ f ∈ fills, right f.query f.entries) : Reads right c (c'.fillAll fills) := by
  unfold StoreCache.fillAll
  induction fills generalizing c' with
  | nil => exact reads
  | cons f rest ih =>
      rw [List.foldl_cons]
      apply ih (reads.fill fun _ => fine f List.mem_cons_self)
      intro f' member
      exact fine f' (List.mem_cons_of_mem _ member)

/-- A row with changes held back is read whole and changed. -/
theorem readPending (reads : Reads right c c') (sound : t.Sound) {refused : Option Fault}
    {m : Mutation} {q : KeySlice} {outcome : Outcome (List Entry)} {after : StoreCache}
    (asked : c'.readPending refused t m q = (outcome, after)) :
    Reads right c after ∧
      (∀ entries, outcome = .ok entries → entries = q.slice.apply (m.applyTo (t.row q.key))) ∧
      (c.monitor.failing = 0 → refused = none → ∃ entries, outcome = .ok entries) := by
  rw [readPending_of_quiet reads.coherent.quiet] at asked
  obtain ⟨rfl, rfl⟩ := Prod.mk.inj asked
  refine ⟨reads.note _, fun entries same => ?_, ?_⟩
  · obtain ⟨-, rfl⟩ := unlessRefused_eq_ok_iff.1 same
    rw [sound.readSlice_eq]
    exact Mutation.overlay_unlimited (sound.ascending q.key) m q.slice
  · rintro willing rfl
    exact ⟨_, unlessRefused_eq_ok_iff.2
      ⟨ReadMonitor.verdict_none_iff.2 (reads.permits willing), rfl⟩⟩

end Reads

/-- What waits to be kept is an answer of the table under a generation. -/
def Fill.Of (f : Fill) (t : Table) (generation : Option Nat) : Prop :=
  f.entries = t.readSlice f.query ∧ ∀ g, generation = some g → f.generation = g

variable {t : Table} {right : KeySlice → List Entry → Prop} {c : StoreCache}

/-- What a consultation leaves to be kept of an answer of the table. -/
theorem Consultation.mem_fills {q : KeySlice} {consultation : Consultation}
    {outcome : Outcome (List Entry)} {f : Fill} :
    f ∈ consultation.fills q outcome ↔
      consultation = .absent f.generation ∧ outcome = .ok f.entries ∧ f.query = q := by
  obtain ⟨query, entries, generation⟩ := f
  rcases consultation with _ | known | current <;> rcases outcome with fault | answer <;>
    simp [Consultation.fills, eq_comm, and_left_comm, and_comm]

/-- The answer to a request is the row as its reader sees it, and what waits to be kept
of it is an answer of the table. -/
theorem requestSlice_spec (coherent : c.Coherent right) (sound : t.Sound)
    (met : ∀ q, right q (t.readSlice q)) (refusals : Refusals) (pending : Option Mutation)
    (q : KeySlice) :
    let request := c.requestSlice refusals t pending q
    Reads right c request.2.2 ∧
      (∀ f ∈ request.2.1, f.Of t c.generation) ∧
      (∀ entries, request.1 = .ok entries → t.Shows right pending q entries) ∧
      (c.monitor.failing = 0 → refusals = granted → ∃ entries, request.1 = .ok entries) := by
  have goes := c.requestSlice_goes refusals t pending q
  have started := (Reads.refl coherent).record (.retrieval 1)
  dsimp only
  generalize c.requestSlice refusals t pending q = request at goes ⊢
  cases goes with
  | overlaid held asked =>
      obtain ⟨reads, changed, willing⟩ := (started.record (.miss 1)).readPending sound asked
      subst held
      exact ⟨reads, nofun, changed, fun permitted all => willing permitted (congrFun all 0)⟩
  | served unheld known =>
      obtain ⟨reads, hit, -⟩ := started.consult known
      refine ⟨reads, nofun, fun entries same => ?_, fun _ _ => ⟨_, rfl⟩⟩
      obtain rfl := Except.ok.inj same
      subst unheld
      exact hit _ rfl
  | missed unheld known unserved asked =>
      obtain ⟨consulted, -, absent⟩ := started.consult known
      obtain ⟨reads, answer, willing⟩ := (consulted.record (.miss 1)).ask asked
      refine ⟨reads, fun f member => ?_, fun entries same => ?_,
        fun permitted all => ⟨_, willing permitted (congrFun all 0)⟩⟩
      · obtain ⟨unkept, ended, rfl⟩ := Consultation.mem_fills.1 member
        refine ⟨answer _ ended, fun g current => ?_⟩
        exact Option.some.inj ((absent _ unkept).symm.trans current)
      · obtain rfl := answer entries same
        subst unheld
        exact met q

/-- A read answers with the row as its reader sees it. -/
theorem getSlice_spec (coherent : c.Coherent right) (sound : t.Sound)
    (met : ∀ q, right q (t.readSlice q)) (pending : Option Mutation) (q : KeySlice) :
    Reads right c (c.getSlice t pending q).2 ∧
      (∀ entries, (c.getSlice t pending q).1 = .ok entries → t.Shows right pending q entries) ∧
      (c.monitor.failing = 0 → ∃ entries, (c.getSlice t pending q).1 = .ok entries) := by
  obtain ⟨reads, fills, shows_, willing⟩ :=
    requestSlice_spec coherent sound met granted pending q
  refine ⟨reads.fillAll ?_, shows_, fun permitted => willing permitted rfl⟩
  intro f member
  rw [(fills f member).1]
  exact met f.query

/-! ## What else is done to a cache -/

namespace Coherent

variable {right' : KeySlice → List Entry → Prop}

theorem advance (coherent : c.Coherent right) (ticks : Nat) : (c.advance ticks).Coherent right :=
  ⟨coherent.quiet, fun s kept => (coherent.slices s kept).later (Nat.le_add_right _ _)⟩

/-- Once a key is invalidated, what is right for it may change. -/
theorem invalidate (coherent : c.Coherent right) {key : Bytes}
    (others : ∀ q entries, right q entries → right' q entries ∨ q.key = key) :
    (c.invalidate key).Coherent right' := by
  unfold StoreCache.invalidate
  cases kept : c.slices with
  | none =>
      refine ⟨coherent.quiet, ?_⟩
      intro s same
      rw [kept] at same
      cases same
  | some s =>
      refine ⟨coherent.quiet, ?_⟩
      intro s' same
      obtain rfl := Option.some.inj same
      exact (coherent.slices s kept).invalidate others

/-- Keys that are invalidated in turn: what is right may change for each of them. -/
theorem invalidateEach {keys : List Bytes} (coherent : c.Coherent right)
    (others : ∀ q entries, right q entries → right' q entries ∨ q.key ∈ keys) :
    (keys.foldl StoreCache.invalidate c).Coherent right' := by
  induction keys generalizing c right with
  | nil =>
      refine ⟨coherent.quiet, fun s kept => (coherent.slices s kept).weaken ?_⟩
      intro q entries fine
      exact (others q entries fine).resolve_right List.not_mem_nil
  | cons key rest ih =>
      rw [List.foldl_cons]
      have next : (c.invalidate key).Coherent fun q entries => right' q entries ∨ q.key ∈ rest := by
        apply coherent.invalidate
        intro q entries fine
        rcases others q entries fine with fine | member
        · exact .inl (.inl fine)
        · rcases List.mem_cons.1 member with here | inRest
          · exact .inr here
          · exact .inl (.inr inRest)
      exact ih next fun _ _ fine => fine

theorem clean (coherent : c.Coherent right) : c.clean.2.Coherent right := by
  unfold StoreCache.clean
  cases kept : c.slices with
  | none => exact coherent
  | some s =>
      refine ⟨coherent.quiet, ?_⟩
      intro s' same
      obtain rfl := Option.some.inj same
      exact (coherent.slices s kept).clearExpired false

theorem clear (coherent : c.Coherent right) : c.clear.Coherent right := by
  unfold StoreCache.clear
  cases kept : c.slices with
  | none => exact coherent
  | some s =>
      refine ⟨coherent.quiet, ?_⟩
      intro s' same
      obtain rfl := Option.some.inj same
      exact ((coherent.slices s kept).clearExpired false).invalidateAll _

theorem close (coherent : c.Coherent right) : c.close.Coherent right := by
  refine ⟨coherent.quiet, ?_⟩
  intro s' same
  obtain ⟨s, kept, rfl⟩ := Option.map_eq_some_iff.1 same
  exact (coherent.slices s kept).invalidateAll _

end Coherent

/-! ## Several rows at once -/

/-- What is known after some keys were gone through: each is answered, or missing. -/
structure Gathering.Covers (g : Gathering) (t : Table) (right : KeySlice → List Entry → Prop)
    (pending : Bytes → Option Mutation) (slice : Slice) (keys : List Bytes) : Prop where
  found : ∀ row ∈ g.found,
    row.1 ∈ keys ∧ t.Shows right (pending row.1) ⟨row.1, slice⟩ row.2
  missing : ∀ key ∈ g.missing, key ∈ keys ∧ pending key = none
  all : ∀ key ∈ keys, key ∈ g.found.map Prod.fst ∨ key ∈ g.missing

namespace Gathering

variable {g : Gathering} {pending : Bytes → Option Mutation} {slice : Slice} {keys : List Bytes}

theorem covers_start : start.Covers t right pending slice [] := by
  refine ⟨?_, ?_, ?_⟩
  · intro row member
    cases member
  · intro key member
    cases member
  · intro key member
    cases member

theorem Covers.addFound (covers : g.Covers t right pending slice keys) {key : Bytes}
    {entries : List Entry} (shown : t.Shows right (pending key) ⟨key, slice⟩ entries)
    (overlaid : Nat) :
    Covers { g with found := g.found ++ [(key, entries)], overlaid } t right pending slice
      (keys ++ [key]) := by
  refine ⟨?_, ?_, ?_⟩
  · intro row member
    rcases List.mem_append.1 member with old | new
    · obtain ⟨there, same⟩ := covers.found row old
      exact ⟨List.mem_append_left _ there, same⟩
    · obtain rfl := List.mem_singleton.1 new
      exact ⟨by simp, shown⟩
  · intro other member
    obtain ⟨there, none⟩ := covers.missing other member
    exact ⟨List.mem_append_left _ there, none⟩
  · intro other member
    rw [List.map_append, List.mem_append]
    rcases List.mem_append.1 member with old | new
    · exact (covers.all other old).imp_left .inl
    · exact .inl (.inr new)

theorem Covers.addMissing (covers : g.Covers t right pending slice keys) {key : Bytes}
    (unheld : pending key = none) (fillable : List Bytes) :
    Covers { g with missing := g.missing ++ [key], fillable } t right pending slice
      (keys ++ [key]) := by
  refine ⟨?_, ?_, ?_⟩
  · intro row member
    obtain ⟨there, same⟩ := covers.found row member
    exact ⟨List.mem_append_left _ there, same⟩
  · intro other member
    rcases List.mem_append.1 member with old | new
    · obtain ⟨there, none⟩ := covers.missing other old
      exact ⟨List.mem_append_left _ there, none⟩
    · obtain rfl := List.mem_singleton.1 new
      exact ⟨by simp, unheld⟩
  · intro other member
    rcases List.mem_append.1 member with old | new
    · exact (covers.all other old).imp_right fun there => List.mem_append_left _ there
    · exact .inr (List.mem_append_right _ new)

theorem Covers.note (covers : g.Covers t right pending slice keys) {key : Bytes}
    (unheld : pending key = none) {consultation : Consultation}
    (hit : ∀ entries, consultation = .hit entries → right ⟨key, slice⟩ entries) :
    (g.note key consultation).Covers t right pending slice (keys ++ [key]) := by
  cases consultation with
  | bypass => exact covers.addMissing unheld _
  | absent _ => exact covers.addMissing unheld _
  | hit entries =>
      refine covers.addFound ?_ _
      rw [unheld]
      exact hit entries rfl

/-- Repeated keys are gone through once. -/
theorem Covers.of_eraseDups (covers : g.Covers t right pending slice keys.eraseDups) :
    g.Covers t right pending slice keys := by
  refine ⟨?_, ?_, ?_⟩
  · intro row member
    exact (covers.found row member).imp_left List.mem_eraseDups.1
  · intro key member
    exact (covers.missing key member).imp_left List.mem_eraseDups.1
  · intro key member
    exact covers.all key (List.mem_eraseDups.2 member)

/-- Together with what the table answers to the keys that are missing, every key is
answered as its reader sees it. -/
theorem Covers.answered (covers : g.Covers t right pending slice keys)
    (met : ∀ q, right q (t.readSlice q)) :
    (∀ row ∈ g.found ++ t.readSlices g.missing slice,
      row.1 ∈ keys ∧ t.Shows right (pending row.1) ⟨row.1, slice⟩ row.2) ∧
    ∀ key ∈ keys, key ∈ (g.found ++ t.readSlices g.missing slice).map Prod.fst := by
  constructor
  · intro row member
    rcases List.mem_append.1 member with here | asked
    · exact covers.found row here
    · obtain ⟨key, missing, rfl⟩ := List.mem_map.1 asked
      obtain ⟨there, unheld⟩ := covers.missing key missing
      refine ⟨there, ?_⟩
      show t.Shows right (pending key) ⟨key, slice⟩ _
      rw [unheld]
      exact met ⟨key, slice⟩
  · intro key there
    rw [List.map_append, List.mem_append]
    apply (covers.all key there).imp_right
    intro missing
    exact List.mem_map.2 ⟨_, List.mem_map.2 ⟨key, missing, rfl⟩, rfl⟩

end Gathering

/-- Going through keys leaves each answered, as its reader sees it, or missing. -/
theorem gather_spec (sound : t.Sound) (refusals : Refusals) (pending : Bytes → Option Mutation)
    (slice : Slice) (keys : List Bytes) {g : Gathering} {before : StoreCache} {done : List Bytes}
    (reads : Reads right c before) (covers : g.Covers t right pending slice done) :
    let gathered := gather refusals t pending slice keys g before
    Reads right c gathered.2 ∧
      (∀ g', gathered.1 = .ok g' → g'.Covers t right pending slice (done ++ keys)) ∧
      (c.monitor.failing = 0 → refusals = granted → ∃ g', gathered.1 = .ok g') := by
  have goes := gather_goes refusals t pending slice keys g before
  dsimp only
  generalize gather refusals t pending slice keys g before = gathered at goes ⊢
  induction goes generalizing done with
  | done =>
      refine ⟨reads, ?_, fun _ _ => ⟨_, rfl⟩⟩
      intro g' same
      obtain rfl := Except.ok.inj same
      rw [List.append_nil]
      exact covers
  | refused held asked =>
      obtain ⟨reads, -, willing⟩ := reads.readPending sound asked
      refine ⟨reads, nofun, fun permitted all => ?_⟩
      cases willing permitted (congrFun all _) with
      | intro _ same => cases same
  | overlaid held asked later ih =>
      obtain ⟨reads, changed, -⟩ := reads.readPending sound asked
      rw [List.append_cons]
      refine ih reads (covers.addFound ?_ _)
      rw [held]
      exact changed _ rfl
  | consulted unheld known later ih =>
      obtain ⟨reads, hit, -⟩ := reads.consult known
      rw [List.append_cons]
      exact ih reads (covers.note unheld hit)

/-- A list that gives every one of some keys its value, and nothing else. -/
theorem lookup_eq_ite {α : Type} {rows : List (Bytes × α)} {keys : List Bytes} {f : Bytes → α}
    (right : ∀ row ∈ rows, row.1 ∈ keys ∧ row.2 = f row.1)
    (all : ∀ key ∈ keys, key ∈ rows.map Prod.fst) (key : Bytes) :
    rows.lookup key = if key ∈ keys then some (f key) else none := by
  cases found : rows.lookup key with
  | some a =>
      obtain ⟨there, same⟩ := right _ (mem_of_lookup found)
      rw [if_pos there]
      exact congrArg some same
  | none =>
      rw [if_neg]
      intro there
      obtain ⟨row, member, same⟩ := List.mem_map.1 (all key there)
      have apart := List.lookup_eq_none_iff.1 found row member
      simp [same] at apart

/-- What a request for several rows leaves to be filled in. -/
theorem fillsOf_readSlices {slice : Slice} {missing fillable : List Bytes} {generation : Nat}
    {f : Fill} (member : f ∈ fillsOf slice (t.readSlices missing slice) fillable generation) :
    f.entries = t.readSlice f.query ∧ f.generation = generation := by
  obtain ⟨key, -, here⟩ := List.mem_filterMap.1 member
  obtain ⟨entries, found, rfl⟩ := Option.map_eq_some_iff.1 here
  obtain ⟨key', -, same⟩ := List.mem_map.1 (mem_of_lookup found)
  obtain ⟨rfl, rfl⟩ := Prod.mk.inj same
  exact ⟨rfl, rfl⟩

/-- A request for several rows answers each key with its row as the reader sees it. -/
theorem requestSlices_spec (coherent : c.Coherent right) (sound : t.Sound)
    (met : ∀ q, right q (t.readSlice q)) (refusals : Refusals)
    (pending : Bytes → Option Mutation) (keys : List Bytes) (slice : Slice) :
    let request := c.requestSlices refusals t pending keys slice
    Reads right c request.2.2 ∧
      (∀ f ∈ request.2.1, f.Of t c.generation) ∧
      (∀ rows, request.1 = .ok rows →
        (∀ row ∈ rows, row.1 ∈ keys ∧ t.Shows right (pending row.1) ⟨row.1, slice⟩ row.2) ∧
        ∀ key ∈ keys, key ∈ rows.map Prod.fst) ∧
      (c.monitor.failing = 0 → refusals = granted → ∃ rows, request.1 = .ok rows) := by
  obtain ⟨gathers, covers, willing⟩ := gather_spec sound refusals pending slice keys.eraseDups
    ((Reads.refl coherent).record (.retrieval (UInt64.ofNat keys.length)))
    Gathering.covers_start
  have goes := c.requestSlices_goes refusals t pending keys slice
  dsimp only
  generalize c.requestSlices refusals t pending keys slice = request at goes ⊢
  -- what is found and what the table answers to the missing keys make up the rows
  have answered : ∀ {g : Gathering} {c' : StoreCache},
      gather refusals t pending slice keys.eraseDups Gathering.start
        (c.record (.retrieval (UInt64.ofNat keys.length))) = (.ok g, c') →
      (∀ row ∈ g.found ++ t.readSlices g.missing slice,
        row.1 ∈ keys ∧ t.Shows right (pending row.1) ⟨row.1, slice⟩ row.2) ∧
      ∀ key ∈ keys, key ∈ (g.found ++ t.readSlices g.missing slice).map Prod.fst :=
    fun gathered => (covers _ (congrArg Prod.fst gathered)).of_eraseDups.answered met
  cases goes with
  | stopped gathered =>
      rw [gathered] at gathers willing
      refine ⟨gathers, nofun, nofun, fun permitted all => ?_⟩
      cases willing permitted all with
      | intro _ same => cases same
  | complete gathered nothing =>
      have answered := answered gathered
      rw [nothing, Table.readSlices, List.map_nil, List.append_nil] at answered
      rw [gathered] at gathers
      refine ⟨gathers.record _, nofun, fun rows same => ?_, fun _ _ => ⟨_, rfl⟩⟩
      obtain rfl := Except.ok.inj same
      exact answered
  | refused gathered missing asked =>
      rw [gathered] at gathers
      obtain ⟨reads, -, willing⟩ := (gathers.record _).ask asked
      refine ⟨reads, nofun, nofun, fun permitted all => ?_⟩
      cases willing permitted (congrFun all _)
  | fetched gathered missing asked =>
      have answered := answered gathered
      rw [gathered] at gathers
      obtain ⟨reads, answer, -⟩ := (gathers.record _).ask asked
      obtain rfl := answer _ rfl
      refine ⟨reads, fun f member => ?_, fun rows same => ?_, fun _ _ => ⟨_, rfl⟩⟩
      · obtain ⟨entries, generation⟩ := fillsOf_readSlices member
        refine ⟨entries, fun g current => ?_⟩
        rw [generation]
        exact congrArg (Option.getD · 0) current
      · obtain rfl := Except.ok.inj same
        exact answered

/-- A read of several rows answers each key with its row as the reader sees it. -/
theorem getSlices_spec (coherent : c.Coherent right) (sound : t.Sound)
    (met : ∀ q, right q (t.readSlice q)) (pending : Bytes → Option Mutation)
    (keys : List Bytes) (slice : Slice) :
    Reads right c (c.getSlices t pending keys slice).2 ∧
      (∀ rows, (c.getSlices t pending keys slice).1 = .ok rows →
        (∀ row ∈ rows, row.1 ∈ keys ∧ t.Shows right (pending row.1) ⟨row.1, slice⟩ row.2) ∧
        ∀ key ∈ keys, key ∈ rows.map Prod.fst) ∧
      (c.monitor.failing = 0 → ∃ rows, (c.getSlices t pending keys slice).1 = .ok rows) := by
  obtain ⟨reads, fills, answers, willing⟩ :=
    requestSlices_spec coherent sound met granted pending keys slice
  refine ⟨reads.fillAll ?_, answers, fun permitted => willing permitted rfl⟩
  intro f member
  rw [(fills f member).1]
  exact met f.query

end StoreCache

end PropertyGraph
