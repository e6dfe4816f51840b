/-
# Proofs.LastingHits -- what is served stays served

Reads of other keys, their invalidations and the clean-ups they set off, changes that other
transactions hold back, and failures: none of it takes a slice away that is served.  Only an
invalidation of its own key, a clear, a fill that its shard has no room for, or its age can.

* One event that spares a key leaves what is served of it (`Clocked.serves_step`), and so do
  the fills of a read as long as there is room (`StoreCache.serves_fills`).
* Seen from a storage: an event that spares the key (`Storage.Spares`), then a run of such
  (`Storage.serves_run`).  Whatever names other keys only is one
  (`Storage.undisturbed_of_elsewhere`).
* `hits_last`: what a read has found in memory, or left there, answers that read from then on
  without the table.
-/
import PropertyGraph.Proofs.BoundedStaleness

namespace PropertyGraph

set_option autoImplicit false

namespace Shard

/-- With room for it, a slice is put in and no other goes. -/
theorem put_of_room {s : Shard} {x : CachedSlice}
    (room : (s.remove x.query).bytes + x.weight ≤ s.budget) :
    (s.put x).slices = x :: s.without x.query := by
  have stays : ∀ slices : List CachedSlice,
      (shed (s.remove x.query).budget slices ((s.remove x.query).bytes + x.weight)).1 = slices := by
    intro slices
    cases slices with
    | nil => rfl
    | cons oldest rest =>
        rw [shed, budget_remove, if_neg (Nat.not_lt.2 room)]
  rw [put, evict]
  dsimp only
  rw [stays, List.reverse_reverse, slices_remove]

theorem find?_put_of_room {s : Shard} {x : CachedSlice}
    (room : (s.remove x.query).bytes + x.weight ≤ s.budget) {q : KeySlice} (other : q ≠ x.query) :
    (s.put x).find? q = s.find? q := by
  have apart := s.find?_remove x.query q
  rw [if_neg other, find?, slices_remove] at apart
  rw [find?, put_of_room room, List.find?_cons_of_neg (by simpa using other.symm)]
  exact apart

end Shard

namespace SliceCache

variable {c : SliceCache} {now : Nat}

/-- A fill is kept, and the shard of a key has no room for it beside what else it keeps. -/
def Overflows (c : SliceCache) (q : KeySlice) (entries : List Entry) (generation : Nat)
    (key : Bytes) : Prop :=
  c.Admits q entries generation ∧ c.shardOf q.key = c.shardOf key ∧
    ∃ s, c.shards[c.shardOf key]? = some s ∧
      s.budget < (s.remove q).bytes + weightOf q entries

/-- Marks go, and none comes. -/
theorem unmarked_of_subset {c' : SliceCache} {key : Bytes} (unmarked : c.marked now key = false)
    (subset : ∀ e, c'.expiry? key = some e → c.expiry? key = some e) :
    c'.marked now key = false := by
  unfold marked at unmarked ⊢
  cases found : c'.expiry? key with
  | none => rfl
  | some e =>
      rw [subset e found] at unmarked
      exact unmarked

theorem unmarked_later {later : Nat} {key : Bytes} (unmarked : c.marked now key = false)
    (le : now ≤ later) : c.marked later key = false := by
  unfold marked at unmarked ⊢
  cases found : c.expiry? key with
  | none => rfl
  | some e =>
      simp only [found, Option.any_some, Bool.not_eq_false', ExpiredKey.lapsed] at unmarked ⊢
      split at unmarked
      · simp_all only [decide_eq_true_eq]
        omega
      · cases unmarked

theorem fresh?_clearExpired_of_unmarked (ordered : Sorted.Ascending Prod.fst c.expired)
    {resetPenalty : Bool} {q : KeySlice} (unmarked : c.marked now q.key = false) :
    (c.clearExpired now resetPenalty).2.fresh? now q = c.fresh? now q := by
  rw [fresh?_clearExpired ordered, if_neg]
  unfold marked at unmarked
  cases found : c.expiry? q.key with
  | none => simp
  | some e =>
      have lapsed : e.lapsed now = true := by simpa [found] using unmarked
      simp [ripe, lapsed]

theorem fresh?_countDown (ordered : Sorted.Ascending Prod.fst c.expired) {q : KeySlice}
    (unmarked : c.marked now q.key = false) :
    (c.countDown now).fresh? now q = c.fresh? now q := by
  unfold countDown
  split
  · rfl
  · exact fresh?_clearExpired_of_unmarked ordered unmarked

/-- What is fresh after an admitted fill, seen from the shard it is put into. -/
theorem fresh?_put_of_admits {q other : KeySlice} {entries : List Entry} {generation : Nat}
    (admits : c.Admits q entries generation) :
    (c.put now q entries generation).fresh? now other =
      (c.onShard q.key fun s => s.put ⟨q, entries, now, weightOf q entries⟩).fresh? now other := by
  obtain ⟨shards, same⟩ := c.put_shards now q entries generation
  have put := put_of_admits admits now
  rw [same] at put ⊢
  obtain rfl : shards = (c.onShard q.key fun s => s.put _).shards := put
  rfl

/-- A fill with room for it takes no other slice away. -/
theorem fresh?_put {q other : KeySlice} {entries : List Entry} {generation : Nat}
    (room : ¬ c.Overflows q entries generation other.key) (apart : other ≠ q) :
    (c.put now q entries generation).fresh? now other = c.fresh? now other := by
  by_cases admits : c.Admits q entries generation
  · rw [fresh?_put_of_admits admits]
    by_cases here : c.shardOf q.key = c.shardOf other.key
    · refine fresh?_onShard fun s there => ?_
      rw [Shard.find?_put_of_room ?_ apart]
      by_contra exceeds
      exact room ⟨admits, here, s, here ▸ there, Nat.not_le.1 exceeds⟩
    · rw [fresh?, shardOf_onShard, getElem?_onShard, if_neg here]
      rfl
  · rw [put_of_refused admits]

end SliceCache

/-- What may take a served slice of a key away. -/
def SliceEvent.Disturbs (key : Bytes) : SliceEvent → Prop
  | .fill .. => True
  | .invalidate other => other = key
  | .clear => True
  | _ => False

namespace Clocked

variable {z : Clocked} {q : KeySlice} {x : CachedSlice}

/-- An event that spares the key leaves what is served of it. -/
theorem serves_step (sound : z.Sound) (serves : z.Serves q x) {e : SliceEvent}
    (spares : ¬ e.Disturbs q.key) (fresh : z.slices.isStale (z.step e).time x = false) :
    (z.step e).Serves q x := by
  have unmarked := serves.unmarked
  have served := serves.fresh
  cases e with
  | look key =>
      -- A clean-up drops the keys with a standing mark only, and `q.key` has none.
      cases marked : z.slices.marked z.time key with
      | true =>
          have after : z.step (.look key) = ⟨z.time, z.slices.countDown z.time⟩ := by
            rw [step, SliceCache.isExpired_of_marked marked]
          rw [after]
          exact ⟨SliceCache.unmarked_of_subset unmarked fun e found =>
              SliceCache.expiry?_of_countDown sound.ordered found,
            (SliceCache.fresh?_countDown sound.ordered unmarked).trans served⟩
      | false =>
          obtain ⟨expired, looked, entries⟩ :=
            SliceCache.isExpired_of_unmarked sound.ordered marked
          have after : z.step (.look key) = ⟨z.time, { z.slices with expired }⟩ := by
            rw [step, looked]
          rw [after]
          refine ⟨SliceCache.unmarked_of_subset unmarked fun e found => ?_, served⟩
          rw [entries] at found
          split at found
          · cases found
          · exact found
  | find q' =>
      exact ⟨(z.slices.marked_get q' q.key).trans unmarked,
        (z.slices.fresh?_get q' q).trans served⟩
  | fill q' entries generation => exact absurd trivial spares
  | invalidate key =>
      have other : q.key ≠ key := fun same => spares same.symm
      have entered : (z.slices.expire z.time key).marked z.time q.key = false := by
        rw [SliceCache.marked, SliceCache.expiry?_expire, if_neg other]
        exact unmarked
      have ordered : Sorted.Ascending Prod.fst (z.slices.expire z.time key).expired :=
        sound.ordered.insert _
      have after : z.step (.invalidate key) = ⟨z.time, z.slices.expire z.time key⟩ ∨
          z.step (.invalidate key) =
            ⟨z.time, (z.slices.expire z.time key).countDown z.time⟩ := by
        rw [step, SliceCache.invalidate]
        split
        · exact .inr rfl
        · exact .inl rfl
      rcases after with after | after <;> rw [after]
      · exact ⟨entered, served⟩
      · exact ⟨SliceCache.unmarked_of_subset entered fun e found =>
            SliceCache.expiry?_of_countDown ordered found,
          (SliceCache.fresh?_countDown ordered entered).trans served⟩
  | clean =>
      refine ⟨SliceCache.unmarked_of_subset unmarked fun e found => ?_,
        (SliceCache.fresh?_clearExpired_of_unmarked sound.ordered unmarked).trans served⟩
      rw [step, SliceCache.expiry?_clearExpired sound.ordered] at found
      exact (Option.filter_eq_some_iff.1 found).1
  | clear => exact absurd trivial spares
  | pass ticks =>
      obtain ⟨found, -⟩ := Option.filter_eq_some_iff.1 served
      exact ⟨SliceCache.unmarked_later unmarked (Nat.le_add_right ..),
        Option.filter_eq_some_iff.2 ⟨found, by rw [Bool.not_eq_true']; exact fresh⟩⟩
  | toss coins => exact ⟨unmarked, served⟩

theorem serves_run (sound : z.Sound) (serves : z.Serves q x) {events : List SliceEvent}
    (spares : ∀ e ∈ events, ¬ e.Disturbs q.key)
    (fresh : z.slices.isStale (z.run events).time x = false) : (z.run events).Serves q x := by
  induction events generalizing z with
  | nil => exact serves
  | cons e rest ih =>
      obtain ⟨here, later⟩ := List.forall_mem_cons.1 spares
      have lasts : z.slices.cacheTime = (z.step e).slices.cacheTime :=
        congrArg Prod.fst (z.constants_step e).symm
      have young : z.slices.isStale (z.step e).time x = false := by
        by_contra stale
        have still := SliceCache.isStale_later (time_le_run rest (z.step e))
          (Bool.not_eq_false _ ▸ stale)
        cases fresh.symm.trans still
      refine ih (sound_step sound e) (serves_step sound serves here young) later ?_
      rw [SliceCache.isStale, ← lasts]
      exact fresh

/-- An admitted fill is served. -/
theorem serves_fill (sound : z.Sound) {entries : List Entry} {generation : Nat}
    (admits : z.slices.Admits q entries generation) :
    (z.step (.fill q entries generation)).Serves q
      ⟨q, entries, z.time, SliceCache.weightOf q entries⟩ := by
  let x : CachedSlice := ⟨q, entries, z.time, SliceCache.weightOf q entries⟩
  have unexpired := (sound.get_put admits).2
  have young : z.slices.isStale z.time x = false := by
    have lasting := sound.lasting
    unfold SliceCache.isStale
    cases time : z.slices.cacheTime with
    | none => rfl
    | some time' =>
        have lasts : time' ≠ 0 := fun zero => lasting (zero ▸ time)
        simpa [x] using lasts
  refine ⟨?_, ?_⟩
  · rw [step, SliceCache.marked]
    simp only [unexpired, Option.any_none]
  · show (z.slices.put z.time q entries generation).fresh? z.time q = some x
    obtain ⟨-, -, s, there, fits⟩ := id admits
    have found : (s.put x).find? q = some x :=
      Shard.find?_put (c := x) (sound.shards s (List.mem_of_getElem? there)) fits
    rw [SliceCache.fresh?_put_of_admits admits, SliceCache.fresh?, SliceCache.shardOf_onShard,
      SliceCache.getElem?_onShard, if_pos rfl, there, Option.map_some, Option.bind_some, found]
    exact Option.filter_eq_some_iff.2 ⟨rfl, by rw [Bool.not_eq_true']; exact young⟩

end Clocked

namespace StoreCache

variable {c : StoreCache} {on : Bool} {z : Clocked} {q : KeySlice} {x : CachedSlice}

/-- A fill is kept, and the shard of a key has no room for it beside what else it keeps. -/
def Overflows (c : StoreCache) (f : Fill) (key : Bytes) : Prop :=
  ∃ s, c.slices = some s ∧ s.Overflows f.query f.entries f.generation key

/-- There is room for some fills that arrive in turn. -/
def Roomy (key : Bytes) : List Fill → StoreCache → Prop
  | [], _ => True
  | f :: rest, c => ¬ c.Overflows f key ∧ Roomy key rest (c.fill f)

/-- A fill that is kept is served. -/
theorem serves_fill (stands : c.At on z) (sound : z.Sound) {f : Fill} (admits : c.Admits f) :
    on = true ∧ (z.step f.event).Serves f.query
      ⟨f.query, f.entries, z.time, SliceCache.weightOf f.query f.entries⟩ := by
  obtain ⟨slices, kept, admits⟩ := admits
  rw [stands.slices] at kept
  split at kept
  · rename_i on
    obtain rfl := Option.some.inj kept
    exact ⟨on, Clocked.serves_fill sound admits⟩
  · cases kept

/-- Fills that there is room for leave what is served.  Those of the same query are to be what
is served already. -/
theorem serves_fills (stands : c.At true z) (sound : z.Sound) (serves : z.Serves q x)
    {fills : List Fill} (roomy : c.Roomy q.key fills)
    (same : ∀ f ∈ fills, f.query = q → x = ⟨q, f.entries, z.time, SliceCache.weightOf q f.entries⟩) :
    (z.run (fills.map Fill.event)).Serves q x := by
  induction fills generalizing c z with
  | nil => exact serves
  | cons f rest ih =>
      obtain ⟨here, later⟩ := List.forall_mem_cons.1 same
      refine ih (stands.fill f) (Clocked.sound_step sound f.event) ?_ roomy.2 later
      by_cases admits : z.slices.Admits f.query f.entries f.generation
      · by_cases own : f.query = q
        · subst own
          rw [here rfl]
          exact Clocked.serves_fill sound admits
        · have room : ¬ z.slices.Overflows f.query f.entries f.generation q.key :=
            fun exceeds => roomy.1 ⟨z.slices, stands.slices, exceeds⟩
          obtain ⟨shards, kept⟩ := z.slices.put_shards z.time f.query f.entries f.generation
          have after : z.step f.event = ⟨z.time, { z.slices with shards }⟩ := by
            rw [← kept]
            rfl
          refine ⟨?_, (SliceCache.fresh?_put room (Ne.symm own)).trans serves.fresh⟩
          rw [after]
          exact serves.unmarked
      · have unchanged : z.step f.event = z := by
          rw [Fill.event, Clocked.step, SliceCache.put_of_refused admits]
        rw [unchanged]
        exact serves

end StoreCache

/-- Less than the full time has passed since a moment, if there is an end. -/
def Opening.Within (o : Opening) (since now : Nat) : Prop :=
  o.options.cacheTime = 0 ∨ now < since + o.options.cacheTime

namespace Storage

variable {s : Storage} {i : Nat} {o : Opening} {c : StoreCache} {z : Clocked} {q : KeySlice}
  {x : CachedSlice}

/-- An event that takes nothing of a key away from a cache. -/
structure Spares (s : Storage) (i : Nat) (key : Bytes) (e : StorageEvent) : Prop where
  /-- It does not invalidate the key, be it by a flush. -/
  valid : (i, key) ∉ s.invalidated e
  kept : e ≠ .tend i .clear ∧ e ≠ .closeCache i
  /-- There is room for what it fills in. -/
  roomy : ∀ c, (s.begin e).caches[i]? = some c → c.Roomy key (s.fills i e)

/-- A run of such events. -/
def Undisturbed (i : Nat) (key : Bytes) : List StorageEvent → Storage → Prop
  | [], _ => True
  | e :: rest, s => s.Spares i key e ∧ Undisturbed i key rest (s.step e)

theorem Open.isStale_eq_false_iff (opened : s.Open i o c z) {now : Nat} :
    z.slices.isStale now x = false ↔ o.Within x.inserted now := by
  unfold SliceCache.isStale Opening.Within
  rw [opened.cacheTime]
  by_cases endless : o.options.cacheTime = 0
  · simp [endless]
  · simp only [endless, if_false, decide_eq_false_iff_not, false_or]
    omega

/-- What is served of the kept slices is served by the cache. -/
theorem Open.served? (opened : s.Open i o c z) (on : o.options.enabled = true)
    (serves : z.Serves q x) : c.served? q = some x.entries := by
  rw [opened.stands.served?, on, if_pos rfl]
  exact Clocked.served?_eq_some_iff.2 ⟨x, serves, rfl⟩

/-- An event that spares a key leaves what is served of it, until its time has come. -/
theorem serves_step (opened : s.Open i o c z) (on : o.options.enabled = true)
    (serves : z.Serves q x) {e : StorageEvent} (spares : s.Spares i q.key e) :
    ∃ c' z', (s.step e).Open i o c' z' ∧ (o.Within x.inserted z'.time → z'.Serves q x) := by
  obtain ⟨c₁, c', events, begun, -, causes, -, after⟩ := open_step opened e
  have stands := begun.stands
  rw [on] at stands
  refine ⟨c', _, after, fun lasts => ?_⟩
  rw [Clocked.time_fills, ← opened.isStale_eq_false_iff] at lasts
  -- Before anything is filled in, only what the event causes can disturb the key.
  have quiet : ∀ ev ∈ events, ¬ ev.Disturbs q.key := by
    intro ev member
    have caused := causes ev member
    cases ev with
    | invalidate key =>
        rintro rfl
        exact spares.valid caused
    | clear => exact fun _ => caused.elim spares.kept.1 spares.kept.2
    | fill q entries generation => exact fun _ => caused
    | _ => exact id
  have served := Clocked.serves_run opened.sound serves quiet lasts
  refine StoreCache.serves_fills stands begun.sound served (spares.roomy c₁ begun.there) ?_
  -- A fill of the query itself would mean that it was not served.
  intro f member own
  have calm := opened.stands.calm opened.sound
  obtain ⟨-, -, unserved⟩ := mem_fills opened.there calm member
  rw [own, opened.served? on serves] at unserved
  cases unserved

/-- A run of events that spare a key leaves what is served of it, until its time has come. -/
theorem serves_run (opened : s.Open i o c z) (on : o.options.enabled = true)
    (serves : o.Within x.inserted z.time → z.Serves q x) {events : List StorageEvent}
    (undisturbed : Undisturbed i q.key events s) :
    ∃ c' z', (s.run events).Open i o c' z' ∧ (o.Within x.inserted z'.time → z'.Serves q x) := by
  induction events generalizing s c z with
  | nil => exact ⟨c, z, opened, serves⟩
  | cons e rest ih =>
      obtain ⟨here, later⟩ := undisturbed
      -- Nothing is to be shown of a slice whose time has come, and it never gets younger.
      by_cases young : o.Within x.inserted z.time
      · obtain ⟨c₁, z₁, opened₁, served⟩ := serves_step opened on (serves young) here
        exact ih opened₁ served later
      · obtain ⟨c', z', opened', -, le⟩ := open_run opened (e :: rest)
        refine ⟨c', z', opened', fun lasts => absurd ?_ young⟩
        exact lasts.imp_right (Nat.lt_of_le_of_lt le)

/-- The cache that stands in a place stands at one state. -/
theorem Open.unique (on : o.options.enabled = true) (opened : s.Open i o c z) {c' : StoreCache}
    {z' : Clocked} (opened' : s.Open i o c' z') : c' = c ∧ z' = z := by
  obtain rfl := Option.some.inj (opened.there.symm.trans opened'.there)
  have slices := opened.stands.slices.symm.trans opened'.stands.slices
  rw [on] at slices
  have time := opened.stands.time.symm.trans opened'.stands.time
  refine ⟨rfl, ?_⟩
  rcases z with ⟨time, slices⟩
  rcases z' with ⟨time', slices'⟩
  simp_all

/-- How a read has just found a query in memory, or left it there. -/
inductive Leaves (s : Storage) (i : Nat) (t : Transaction) (r : TableRead) (ticks : Nat)
    (q : KeySlice) (entries : List Entry) : Prop where
  /-- It was answered from memory, and there is room for what the same read fills in. -/
  | recalled (recalls : s.Recalls i t r q entries)
      (spares : s.Spares i q.key (.read t i r ticks))
  /-- Its answer was filled in and kept, and there is room for what the same read fills in
  after it. -/
  | filled (rows : List KeyedRow) (answered : (s.read i t r).1 = .ok rows)
      (found : rows.lookup q.key = some entries) (c : StoreCache)
      (there : (s.begin (.read t i r ticks)).caches[i]? = some c)
      (before : List StoreCache.Fill) (f : StoreCache.Fill) (after : List StoreCache.Fill)
      (fills : s.fills i (.read t i r ticks) = before ++ f :: after) (query : f.query = q)
      (admits : (c.fillAll before).Admits f)
      (roomy : ((c.fillAll before).fill f).Roomy q.key after)

/-- What a read has found in memory or left there is a slice that is served afterwards, until
its time has come. -/
theorem serves_of_leaves (opened : s.Open i o c z) {t : Transaction} {r : TableRead}
    (asked : q ∈ r.queries) {ticks : Nat} {entries : List Entry}
    (leaves : s.Leaves i t r ticks q entries) :
    o.options.enabled = true ∧ ∃ x c' z', x.query = q ∧ x.entries = entries ∧
      (s.step (.read t i r ticks)).Open i o c' z' ∧
      (z.slices.Keeps x ∨ z'.slices.Keeps x) ∧ (o.Within x.inserted z'.time → z'.Serves q x) := by
  cases leaves with
  | recalled recalls spares =>
      obtain ⟨on, x, serves, same⟩ := serves_of_recalls opened asked recalls
      obtain ⟨c', z', opened', served⟩ := serves_step opened on serves spares
      obtain ⟨kept, query, -⟩ := serves.kept
      exact ⟨on, x, c', z', query, same, opened', .inl kept, served⟩
  | filled rows answered found c₂ there before f after fills query admits roomy =>
      obtain ⟨c₁, c', events, begun, -, -, -, opened'⟩ := open_step opened (.read t i r ticks)
      obtain rfl := Option.some.inj (begun.there.symm.trans there)
      subst query
      have calm := opened.stands.calm opened.sound
      have answers : ∀ g ∈ before ++ f :: after, g.entries =
          (s.backend.table c.table).readSlice g.query := fun g member =>
        (mem_fills opened.there calm (fills ▸ member)).2.1
      have same : f.entries = entries := by
        have member : f ∈ s.fills i (.read t i r ticks) := fills ▸ by simp
        simp only [Storage.fills, if_true, opened.there] at member
        obtain ⟨outcome, -⟩ := read_spec opened.there t r
        obtain ⟨-, -, -, -, among⟩ := StoreCache.fills_request calm _ _ r member
        exact Option.some.inj ((among rows (outcome.symm.trans answered)).symm.trans found)
      have stands := begun.stands.fillAll before
      have sound := Clocked.sound_run begun.sound (before.map StoreCache.Fill.event)
      obtain ⟨on, served⟩ := StoreCache.serves_fill stands sound admits
      have stands' := stands.fill f
      rw [on] at stands'
      have lasts := StoreCache.serves_fills stands' (Clocked.sound_step sound f.event) served roomy
        fun g member own => by
          rw [answers f (by simp), answers g (by simp [member]), own]
          rfl
      rw [fills, List.map_append, Clocked.run_append] at opened'
      exact ⟨on, _, c', _, rfl, same, opened', .inr lasts.kept.1, fun _ => lasts⟩

end Storage

/-- The keys that an event names: those it invalidates are among them. -/
def StorageEvent.keys : StorageEvent → List Bytes
  | .tend _ (.invalidate key) => [key]
  | .mutate t _ key _ => key :: t.buffer.heldRows.map Prod.snd
  | .flush t => t.buffer.heldRows.map Prod.snd
  | .commit t => (t.buffer :: t.inner).flatMap fun b => b.heldRows.map Prod.snd
  | _ => []

namespace WriteBuffer

theorem mem_heldRows_hold {b : WriteBuffer} {cache : Nat} {name : String} {key : Bytes}
    {m : Mutation} {row : Nat × Bytes} (member : row ∈ (b.hold cache name key m).heldRows) :
    row.2 ∈ key :: b.heldRows.map Prod.snd := by
  have held : ∀ {name p k}, (name, p) ∈ b.stores → k ∈ p.rows.map Prod.fst →
      k ∈ b.heldRows.map Prod.snd := by
    intro name p k inStores inRows
    obtain ⟨⟨key, m⟩, there, rfl⟩ := List.mem_map.1 inRows
    refine List.mem_map.2 ⟨(p.cache, key), List.mem_flatMap.2 ⟨(name, p), inStores, ?_⟩, rfl⟩
    exact List.mem_map.2 ⟨(key, m), there, rfl⟩
  obtain ⟨⟨name', p⟩, inStores, inRows⟩ := List.mem_flatMap.1 member
  obtain ⟨⟨key', m'⟩, there, rfl⟩ := List.mem_map.1 inRows
  rcases Sorted.mem_insert inStores with same | old
  · obtain ⟨rfl, rfl⟩ := Prod.mk.inj same
    have named := List.mem_map_of_mem (f := Prod.fst) there
    rw [keys_mergeRow] at named
    have merged : key' = key ∨ key' ∈ ((b.store? name').getD ⟨cache, []⟩).rows.map Prod.fst := by
      split at named
      · exact .inr named
      · simpa [or_comm] using named
    refine List.mem_cons.2 (merged.imp_right fun inRows => ?_)
    cases found : Sorted.find? Prod.fst name' b.stores with
    | none => simp [store?, found] at inRows
    | some store =>
        rw [store?, found] at inRows
        exact held (Sorted.mem_of_find? found).1 inRows
  · exact List.mem_cons_of_mem _ (held old (List.mem_map_of_mem there))

theorem mem_flushedRows {b : WriteBuffer} {s : Storage} {row : Nat × Bytes}
    (member : row ∈ b.flushedRows s) : row ∈ b.heldRows := by
  unfold flushedRows at member
  split at member
  · cases member
  · obtain ⟨store, inStores, inRows⟩ := List.mem_flatMap.1 member
    obtain ⟨held, inHeld, -, cache, rows⟩ := mem_stores_arranged inStores
    rw [cache] at inRows
    exact List.mem_flatMap.2 ⟨held, inHeld, (rows.map _).mem_iff.1 inRows⟩

theorem mem_flushedRowsAll {buffers : List WriteBuffer} {s : Storage} {row : Nat × Bytes}
    (member : row ∈ flushedRowsAll buffers s) : ∃ b ∈ buffers, row ∈ b.heldRows := by
  induction buffers generalizing s with
  | nil => cases member
  | cons b rest ih =>
      rw [flushedRowsAll] at member
      rcases List.mem_append.1 member with here | later
      · exact ⟨b, List.mem_cons_self, mem_flushedRows here⟩
      · split at later
        · obtain ⟨b', inRest, held⟩ := ih later
          exact ⟨b', List.mem_cons_of_mem b inRest, held⟩
        · cases later

end WriteBuffer

namespace Storage

variable {s : Storage} {i : Nat} {o : Opening} {c : StoreCache} {z : Clocked} {q : KeySlice}
  {x : CachedSlice}

theorem key_of_invalidated {e : StorageEvent} {key : Bytes} (member : (i, key) ∈ s.invalidated e) :
    key ∈ e.keys := by
  cases e with
  | mutate t cache key' m =>
      simp only [invalidated] at member
      split at member
      · split at member
        · exact WriteBuffer.mem_heldRows_hold (WriteBuffer.mem_flushedRows member)
        · cases member
      · cases member
  | flush t => exact List.mem_map.2 ⟨_, WriteBuffer.mem_flushedRows member, rfl⟩
  | commit t =>
      obtain ⟨b, inAll, held⟩ := WriteBuffer.mem_flushedRowsAll member
      exact List.mem_flatMap.2 ⟨b, inAll, List.mem_map.2 ⟨_, held, rfl⟩⟩
  | tend cache action =>
      cases action with
      | invalidate key' => simp_all [invalidated, StorageEvent.keys]
      | _ => cases member
  | _ => cases member

/-- Whatever is done elsewhere and to other keys takes nothing of a key away: mutations of
others, their invalidation, clean-ups, and reads through other caches. -/
theorem undisturbed_of_elsewhere {key : Bytes} {events : List StorageEvent}
    (elsewhere : ∀ e ∈ events, key ∉ e.keys ∧ e ≠ .tend i .clear ∧ e ≠ .closeCache i ∧
      ∀ t r ticks, e ≠ .read t i r ticks) (s : Storage) : Undisturbed i key events s := by
  induction events generalizing s with
  | nil => trivial
  | cons e rest ih =>
      obtain ⟨⟨unnamed, uncleared, unclosed, unread⟩, later⟩ := List.forall_mem_cons.1 elsewhere
      refine ⟨⟨fun member => unnamed (key_of_invalidated member), ⟨uncleared, unclosed⟩,
        fun c _ => ?_⟩, ih later (s.step e)⟩
      have nothing : s.fills i e = [] := by
        cases e with
        | read t j r ticks => exact if_neg fun same => unread t r ticks (by rw [same])
        | _ => rfl
      rw [nothing]
      trivial

/-- A query is answered from memory. -/
structure Hits (s : Storage) (i : Nat) (t : Transaction) (q : KeySlice) (entries : List Entry) :
    Prop where
  alone : (s.getSlice i t q).1 = .ok entries
  /-- The table is not asked for anything. -/
  silent : ∃ c c', s.caches[i]? = some c ∧ (s.getSlice i t q).2.caches[i]? = some c' ∧
    c'.monitor.log = c.monitor.log
  /-- A read of several rows does not ask for this one. -/
  among : ∀ r : TableRead, q ∈ r.queries →
    (∃ c c' sent, s.caches[i]? = some c ∧ (s.read i t r).2.caches[i]? = some c' ∧
      c'.monitor.log = c.monitor.log ++ sent ∧ ∀ read ∈ sent, q.key ∉ read.keys) ∧
    ∀ rows, (s.read i t r).1 = .ok rows → rows.lookup q.key = some entries

/-- What is served is answered to all that hold no changes of its row back. -/
theorem hits_of_serves (opened : s.Open i o c z) (on : o.options.enabled = true)
    (serves : z.Serves q x) {t : Transaction} (unheld : t.pending o.name q.key = none) :
    s.Hits i t q x.entries := by
  have calm := opened.stands.calm opened.sound
  rw [← opened.name] at unheld
  have served := opened.served? on serves
  have among : ∀ r : TableRead, q ∈ r.queries → ∃ c' sent,
      (s.read i t r).2.caches[i]? = some c' ∧ c'.monitor.log = c.monitor.log ++ sent ∧
      StoreCache.Requested c (t.pending c.name) r (s.read i t r).1 sent := by
    intro r asked
    obtain ⟨outcome, c', there', monitor⟩ := read_spec opened.there t r
    obtain ⟨sent, log, requested⟩ :=
      StoreCache.requested calm (s.backend.table c.table) (t.pending c.name) r
    exact ⟨c', sent, there', monitor ▸ log, outcome ▸ requested⟩
  have spared : ∀ {r : TableRead} {outcome sent}, q ∈ r.queries →
      StoreCache.Requested c (t.pending c.name) r outcome sent →
      (∀ read ∈ sent, q.key ∉ read.keys) ∧
      ∀ rows, outcome = .ok rows → rows.lookup q.key = some x.entries :=
    fun asked requested => requested.spared q asked unheld x.entries served
  have self : q ∈ TableRead.queries (.slice q) := List.mem_singleton_self q
  obtain ⟨c', sent, there', log, requested⟩ := among (.slice q) self
  obtain ⟨rfl, rows, answered⟩ := requested.quiet fun q' member => by
    obtain rfl := List.mem_singleton.1 member
    exact ⟨unheld, by rw [served]; rfl⟩
  have found := (spared self requested).2 rows answered
  rw [read_slice opened.there] at answered there'
  refine ⟨?_, ⟨c, c', opened.there, there', by simpa using log⟩, fun r asked => ?_⟩
  · cases alone : (s.getSlice i t q).1 with
    | error fault =>
        rw [alone] at answered
        cases answered
    | ok entries =>
        rw [alone] at answered
        obtain rfl := Except.ok.inj answered
        simpa using found
  · obtain ⟨c', sent, there', log, requested⟩ := among r asked
    obtain ⟨unnamed, found⟩ := spared asked requested
    exact ⟨⟨c, c', sent, opened.there, there', log, unnamed⟩, found⟩

end Storage

open Storage in
/-- What a read has found in memory, or left there, is answered from there to everyone who
holds no changes of its row back, after whatever takes nothing of that row away, until its
time has come. -/
theorem hits_last (rows : List Cell) {openings : List Opening} {i : Nat} {o : Opening}
    (there : openings[i]? = some o) (earlier : List StorageEvent) (t : Transaction)
    (r : TableRead) (ticks : Nat) {q : KeySlice} (asked : q ∈ r.queries) {entries : List Entry}
    (leaves : ((prepared rows openings).run earlier).Leaves i t r ticks q entries) :
    ∃ x : CachedSlice, x.query = q ∧ x.entries = entries ∧
      (∃ before e after, earlier ++ [.read t i r ticks] = before ++ e :: after ∧
        ((prepared rows openings).run before).FilledBy e i x) ∧
      ∀ later : List StorageEvent,
        Undisturbed i q.key later ((prepared rows openings).run (earlier ++ [.read t i r ticks])) →
        let s := (prepared rows openings).run (earlier ++ [.read t i r ticks] ++ later)
        ∀ c, s.caches[i]? = some c → o.Within x.inserted c.time →
          ∀ t' : Transaction, t'.pending o.name q.key = none → s.Hits i t' q entries := by
  obtain ⟨c, z, opened, filled⟩ := filled_of_kept rows there earlier
  obtain ⟨on, x, c', z', rfl, rfl, opened', kept, served⟩ := serves_of_leaves opened asked leaves
  rw [← run_concat] at opened'
  refine ⟨x, rfl, rfl, ?_, ?_⟩
  · -- The slice dates from before if it was recalled, and from this read if it was filled in.
    rcases kept with old | now
    · obtain ⟨before, e, after, rfl, filledBy⟩ := filled x old
      exact ⟨before, e, after ++ [.read t i r ticks], by simp, filledBy⟩
    · obtain ⟨c₁, z₁, opened₁, filled₁⟩ :=
        filled_of_kept rows there (earlier ++ [.read t i r ticks])
      obtain ⟨rfl, rfl⟩ := Open.unique on opened' opened₁
      exact filled₁ x now
  · intro later undisturbed s c₂ there₂ within t' unheld
    obtain ⟨c₃, z₃, opened₃, served₃⟩ := serves_run opened' on served undisturbed
    rw [← run_append] at opened₃
    obtain rfl := Option.some.inj (there₂.symm.trans opened₃.there)
    rw [opened₃.stands.time] at within
    exact hits_of_serves opened₃ on (served₃ within) unheld

/-- A column of row 2 is held back. -/
def Transaction.holdsSecond : Transaction :=
  ((Transaction.start .default).mutate Storage.oneRow 0 "edges" [2] ⟨[⟨[5], [7], none⟩], []⟩).2.1

/-- Row 2 is written and invalidated, and a clean-up is forced.  Then the table is emptied behind
the cache, and nine ticks pass. -/
def Storage.elsewhere : List StorageEvent :=
  [.flush .holdsSecond, .tend 0 (.invalidate [2]), .tend 0 .clean,
    .become (Backend.empty.openTable "edges").2, .pass 9]

/-- Row 1 is read within two ticks, and row 2 after it.  Whatever becomes of row 2, row 1 is
answered from memory at the eleventh tick. -/
theorem first_row_lasts :
    let s := Storage.oneRow.run (.read (.start .default) 0 (.slice (Clocked.firstOf 1)) 2 ::
      .read (.start .default) 0 (.slice (Clocked.firstOf 2)) 0 :: Storage.elsewhere)
    (s.backend.table 0).readSlice (Clocked.firstOf 1) = [] ∧
      s.Hits 0 (.start .default) (Clocked.firstOf 1) [⟨[5], [6], none⟩] := by
  intro s
  have leaves : Storage.Leaves (Storage.oneRow.run []) 0 (.start .default)
      (.slice (Clocked.firstOf 1)) 2 (Clocked.firstOf 1) [⟨[5], [6], none⟩] := by
    refine .filled [([1], [⟨[5], [6], none⟩])] rfl rfl _ rfl []
      ⟨Clocked.firstOf 1, [⟨[5], [6], none⟩], 0⟩ [] rfl rfl ⟨_, rfl, rfl, rfl, _, rfl, ?_⟩ trivial
    decide
  obtain ⟨x, -, -, ⟨before, e, after, whole, -, c₁, there₁, now, -⟩, hits⟩ :=
    hits_last _ (i := 0) rfl [] _ _ _ (List.mem_singleton_self _) leaves
  have inserted : x.inserted = 2 := by
    obtain ⟨rfl, same⟩ : before = [] ∧ [StorageEvent.read (.start .default) 0
        (.slice (Clocked.firstOf 1)) 2] = e :: after := by
      cases before with
      | nil => exact ⟨rfl, whole⟩
      | cons b rest => simp at whole
    obtain ⟨rfl, -⟩ := List.cons.inj same
    obtain rfl := Option.some.inj there₁
    exact now.symm
  have undisturbed : Storage.Undisturbed 0 [1]
      (.read (.start .default) 0 (.slice (Clocked.firstOf 2)) 0 :: Storage.elsewhere)
      (Storage.oneRow.run [.read (.start .default) 0 (.slice (Clocked.firstOf 1)) 2]) := by
    refine ⟨⟨List.not_mem_nil, ⟨nofun, nofun⟩, fun c there => ⟨?_, trivial⟩⟩,
      Storage.undisturbed_of_elsewhere ?_ _⟩
    · -- There is room for both rows.
      rintro ⟨kept, slices, -, -, shard, place, exceeds⟩
      obtain rfl := Option.some.inj there
      obtain rfl := Option.some.inj slices
      obtain rfl := Option.some.inj place
      revert exceeds
      decide
    · intro e member
      simp only [Storage.elsewhere, List.mem_cons, List.not_mem_nil, or_false] at member
      rcases member with rfl | rfl | rfl | rfl | rfl <;>
        exact ⟨by decide, nofun, nofun, nofun⟩
  refine ⟨rfl, hits _ undisturbed _ rfl (.inr ?_) _ rfl⟩
  rw [inserted]
  decide

end PropertyGraph
