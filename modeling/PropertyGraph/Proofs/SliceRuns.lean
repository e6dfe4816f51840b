/-
# Proofs.SliceRuns -- kept slices in use, event after event

Whatever is done to a cache comes down to a few operations on the slices it keeps.  A run is
a list of such events, one after the other; time passes where an event says so.

* A run keeps the slices in order: shards weigh what they keep, the table of expired keys is
  one, and nothing is dated later than now (`Clocked.sound_run`).
* The settings stay what they are: times, routing, and the budgets of the shards
  (`Clocked.constants_run`).
* A slice that is kept was kept before, or has just been filled in (`Clocked.keeps_step`).
-/
import PropertyGraph.Proofs.ServedSlices

namespace PropertyGraph

set_option autoImplicit false

/-- What is done to kept slices. -/
inductive SliceEvent where
  /-- A reader asks whether a key bypasses the cache. -/
  | look (key : Bytes)
  | find (q : KeySlice)
  /-- An answer arrives that was asked for under a generation. -/
  | fill (q : KeySlice) (entries : List Entry) (generation : Nat)
  | invalidate (key : Bytes)
  /-- A clean-up is forced. -/
  | clean
  | clear
  | pass (ticks : Nat)
  /-- What chance decides of the coming invalidations. -/
  | toss (coins : List Bool)
  deriving DecidableEq

/-- Kept slices, and what time it is. -/
structure Clocked where
  time : Nat
  slices : SliceCache

namespace Shard

theorem slices_remove (s : Shard) (q : KeySlice) : (s.remove q).slices = s.without q := by
  unfold remove
  cases found : s.find? q with
  | some old => rfl
  | none =>
      refine (List.filter_eq_self.2 fun x member => ?_).symm
      simpa using List.find?_eq_none.1 found x member

/-- Dropping keys leaves the slices of the others as they stand. -/
theorem slices_drop (s : Shard) (doomed : Bytes → Bool) :
    (s.drop doomed).slices = s.slices.filter fun x => !doomed x.query.key := by
  have removed : ∀ (gone : List CachedSlice) (s : Shard),
      (gone.foldl (fun acc c => acc.remove c.query) s).slices =
        s.slices.filter fun x => gone.all fun c => decide (x.query ≠ c.query) := by
    intro gone
    induction gone with
    | nil => exact fun s => (List.filter_eq_self.2 fun _ _ => rfl).symm
    | cons c rest ih =>
        intro s
        rw [List.foldl_cons, ih, slices_remove, without, List.filter_filter]
        simp only [List.all_cons, Bool.and_comm]
  rw [drop, removed]
  refine List.filter_congr fun x member => ?_
  rw [Bool.eq_iff_iff, List.all_eq_true, Bool.not_eq_true']
  constructor
  · intro apart
    rw [Bool.eq_false_iff]
    intro picked
    simpa using apart x (List.mem_filter.2 ⟨member, picked⟩)
  · intro spared c inGone
    refine decide_eq_true fun same => ?_
    have picked := (List.mem_filter.1 inGone).2
    rw [← same, spared] at picked
    cases picked

theorem budget_remove (s : Shard) (q : KeySlice) : (s.remove q).budget = s.budget := by
  unfold remove
  split <;> rfl

theorem budget_drop (s : Shard) (doomed : Bytes → Bool) : (s.drop doomed).budget = s.budget := by
  unfold drop
  generalize s.slices.filter (fun c => doomed c.query.key) = gone
  induction gone generalizing s with
  | nil => rfl
  | cons c rest ih => exact (ih (s.remove c.query)).trans (s.budget_remove c.query)

theorem budget_put (s : Shard) (x : CachedSlice) : (s.put x).budget = s.budget :=
  s.budget_remove x.query

end Shard

namespace SliceCache

/-- What does not change while a cache is used. -/
def constants (c : SliceCache) : Option Nat × Nat × (Bytes → Nat) × List Nat :=
  (c.cacheTime, c.cleanWait, c.route, c.shards.map Shard.budget)

theorem constants_onShard {c : SliceCache} (key : Bytes) {f : Shard → Shard}
    (budget : ∀ s, (f s).budget = s.budget) : (c.onShard key f).constants = c.constants := by
  have budgets : (c.shards.modify (c.shardOf key) f).map Shard.budget =
      c.shards.map Shard.budget := by
    refine List.ext_getElem? fun i => ?_
    rw [List.getElem?_map, List.getElem?_map, List.getElem?_modify]
    cases c.shards[i]? with
    | none => rfl
    | some s =>
        by_cases here : c.shardOf key = i <;> simp [here, budget]
  simp only [constants, onShard, budgets]

theorem constants_clearExpired (c : SliceCache) (now : Nat) (resetPenalty : Bool) :
    (c.clearExpired now resetPenalty).2.constants = c.constants := by
  simp only [constants, clearExpired, List.map_map, Function.comp_def, Shard.budget_drop]

theorem constants_countDown (c : SliceCache) (now : Nat) :
    (c.countDown now).constants = c.constants := by
  unfold countDown
  split
  · rfl
  · exact c.constants_clearExpired now true

theorem constants_isExpired (c : SliceCache) (now : Nat) (key : Bytes) :
    (c.isExpired now key).2.constants = c.constants := by
  unfold isExpired
  split
  · rfl
  · split
    · rfl
    · exact c.constants_countDown now

theorem constants_get (c : SliceCache) (now : Nat) (q : KeySlice) :
    (c.get now q).2.constants = c.constants := by
  unfold get
  split
  · rfl
  · split
    · exact constants_onShard q.key fun s => s.budget_remove q
    · exact constants_onShard q.key fun _ => rfl

theorem constants_put (c : SliceCache) (now : Nat) (q : KeySlice) (entries : List Entry)
    (generation : Nat) : (c.put now q entries generation).constants = c.constants := by
  unfold put
  split
  · rfl
  · split
    · rfl
    · refine constants_onShard q.key fun s => ?_
      split
      · rfl
      · exact s.budget_put _

theorem constants_invalidate (c : SliceCache) (now : Nat) (key : Bytes) :
    (c.invalidate now key).constants = c.constants := by
  unfold invalidate
  split
  · exact (c.expire now key).constants_countDown now
  · rfl

theorem constants_invalidateAll (c : SliceCache) : c.invalidateAll.constants = c.constants := by
  simp only [constants, invalidateAll, List.map_map]
  rfl

/-! ## What operations do to entries and shards -/

variable {c : SliceCache} {now : Nat} {x : CachedSlice}

theorem isExpired_of_marked {key : Bytes} (marked : c.marked now key = true) :
    c.isExpired now key = (true, c.countDown now) := by
  unfold SliceCache.marked expiry? at marked
  unfold isExpired
  cases found : Sorted.find? Prod.fst key c.expired with
  | none => simp [found] at marked
  | some entry =>
      have standing : entry.2.lapsed now = false := by simpa [found] using marked
      simp only [standing, if_false, Bool.false_eq_true]

/-- A key found unmarked has no entry afterwards, and nothing else happens. -/
theorem isExpired_of_unmarked (ordered : Sorted.Ascending Prod.fst c.expired) {key : Bytes}
    (unmarked : c.marked now key = false) :
    ∃ expired, c.isExpired now key = (false, { c with expired }) ∧
      ∀ other, SliceCache.expiry? { c with expired } other =
        if other = key then none else c.expiry? other := by
  unfold SliceCache.marked expiry? at unmarked
  unfold isExpired
  cases found : Sorted.find? Prod.fst key c.expired with
  | none =>
      refine ⟨c.expired, rfl, fun other => ?_⟩
      split
      · rename_i same
        rw [same, expiry?, found]
        rfl
      · rfl
  | some entry =>
      obtain ⟨key', e⟩ := entry
      have lapsed : e.lapsed now = true := by simpa [found] using unmarked
      refine ⟨Sorted.erase Prod.fst key c.expired, by simp only [lapsed, if_true], fun other => ?_⟩
      have same : compare other key = .eq ↔ other = key :=
        ⟨Std.LawfulEqOrd.eq_of_compare, fun eq => eq ▸ Std.ReflOrd.compare_self⟩
      simp only [expiry?, Sorted.find?_erase ordered, same]
      split <;> rfl

theorem expiry?_of_countDown (ordered : Sorted.Ascending Prod.fst c.expired) {key : Bytes}
    {e : ExpiredKey} (found : (c.countDown now).expiry? key = some e) : c.expiry? key = some e := by
  unfold countDown at found
  split at found
  · exact found
  · rw [expiry?_clearExpired ordered] at found
    exact (Option.filter_eq_some_iff.1 found).1

/-- A look for an answer concerns the shards only. -/
theorem get_snd (c : SliceCache) (now : Nat) (q : KeySlice) :
    ∃ shards, (c.get now q).2 = { c with shards } := by
  unfold get
  split
  · exact ⟨c.shards, rfl⟩
  · split <;> exact ⟨_, rfl⟩

theorem put_shards (c : SliceCache) (now : Nat) (q : KeySlice) (entries : List Entry)
    (generation : Nat) : ∃ shards, c.put now q entries generation = { c with shards } := by
  unfold put
  split
  · exact ⟨c.shards, rfl⟩
  · split
    · exact ⟨c.shards, rfl⟩
    · exact ⟨_, rfl⟩

theorem getElem?_onShard (c : SliceCache) (key : Bytes) (f : Shard → Shard) (i : Nat) :
    (c.onShard key f).shards[i]? =
      if c.shardOf key = i then c.shards[i]?.map f else c.shards[i]? := by
  simp only [onShard, List.getElem?_modify, Option.map_eq_map]
  split
  · rfl
  · exact Option.map_id'

theorem shardOf_onShard (c : SliceCache) (key : Bytes) (f : Shard → Shard) :
    (c.onShard key f).shardOf = c.shardOf := by
  funext other
  rw [shardOf, shardOf, onShard, List.length_modify]

/-- A fill that is admitted is put into the shard of its key. -/
theorem put_of_admits {q : KeySlice} {entries : List Entry} {generation : Nat}
    (admits : c.Admits q entries generation) (now : Nat) :
    (c.put now q entries generation).shards =
      (c.onShard q.key fun s => s.put ⟨q, entries, now, weightOf q entries⟩).shards := by
  obtain ⟨current, unexpired, shard, there, fits⟩ := admits
  rw [expiry?, Option.map_eq_none_iff] at unexpired
  unfold put
  rw [if_neg fun apart => apart current, if_neg (by simp [unexpired])]
  refine List.ext_getElem? fun i => ?_
  rw [getElem?_onShard, getElem?_onShard]
  split
  · rename_i here
    rw [← here, there]
    simp [Nat.not_lt.2 fits]
  · rfl

/-! ## What is kept afterwards -/

theorem keeps_countDown (ordered : Sorted.Ascending Prod.fst c.expired)
    (kept : (c.countDown now).Keeps x) : c.Keeps x := by
  unfold countDown at kept
  split at kept
  · exact kept
  · exact (keeps_clearExpired ordered kept).1

theorem keeps_isExpired (ordered : Sorted.Ascending Prod.fst c.expired) {key : Bytes}
    (kept : (c.isExpired now key).2.Keeps x) : c.Keeps x := by
  unfold isExpired at kept
  split at kept
  · exact kept
  · split at kept
    · exact kept
    · exact keeps_countDown ordered kept

theorem keeps_get {q : KeySlice} (kept : (c.get now q).2.Keeps x) : c.Keeps x := by
  unfold get at kept
  cases found : (c.shards[c.shardOf q.key]?).bind fun s => s.find? q with
  | none =>
      rw [found] at kept
      exact kept
  | some y =>
      obtain ⟨shard, there, inShard⟩ := Option.bind_eq_some_iff.1 found
      simp only [found] at kept
      split at kept
      · rcases keeps_onShard kept with old | ⟨s, place, member⟩
        · exact old
        · exact ⟨s, List.mem_of_getElem? place, (Shard.mem_remove.1 member).1⟩
      · rcases keeps_onShard kept with old | ⟨s, place, member⟩
        · exact old
        · refine ⟨s, List.mem_of_getElem? place, ?_⟩
          rcases Shard.mem_of_mem_touch member with rfl | inRest
          · rw [there] at place
            obtain rfl := Option.some.inj place
            exact List.mem_of_find?_eq_some inShard
          · exact inRest

/-- A slice is new after a fill only if it is the fill, and that was admitted. -/
theorem keeps_put {q : KeySlice} {entries : List Entry} {generation : Nat}
    (kept : (c.put now q entries generation).Keeps x) :
    c.Keeps x ∨ c.Admits q entries generation ∧ x = ⟨q, entries, now, weightOf q entries⟩ := by
  by_cases admits : c.Admits q entries generation
  · obtain ⟨current, unexpired, shard, there, fits⟩ := admits
    have absent : ¬ (Sorted.find? Prod.fst q.key c.expired).isSome = true := by
      rw [expiry?, Option.map_eq_none_iff] at unexpired
      simp [unexpired]
    unfold put at kept
    rw [if_neg fun apart => apart current, if_neg absent] at kept
    rcases keeps_onShard kept with old | ⟨s, place, member⟩
    · exact .inl old
    · rw [there] at place
      obtain rfl := Option.some.inj place
      rw [if_neg (Nat.not_lt.2 fits)] at member
      rcases Shard.mem_of_mem_put member with rfl | old
      · exact .inr ⟨⟨current, unexpired, shard, there, fits⟩, rfl⟩
      · exact .inl ⟨shard, List.mem_of_getElem? there, old⟩
  · rw [put_of_refused admits] at kept
    exact .inl kept

theorem keeps_invalidate (ordered : Sorted.Ascending Prod.fst c.expired) {key : Bytes}
    (kept : (c.invalidate now key).Keeps x) : c.Keeps x := by
  unfold invalidate at kept
  split at kept
  · exact keeps_countDown (c := c.expire now key) (ordered.insert _) kept
  · exact kept

theorem not_keeps_invalidateAll : ¬ c.invalidateAll.Keeps x := by
  rintro ⟨s, inShards, member⟩
  obtain ⟨s, -, rfl⟩ := List.mem_map.1 inShards
  cases member

end SliceCache

/-! ## Runs -/

namespace SliceEvent

def ticks : SliceEvent → Nat
  | .pass ticks => ticks
  | _ => 0

end SliceEvent

namespace Clocked

/-- A new cache. -/
def start (shards maxBytes cacheTime cleanWait : Nat) (route : Bytes → Nat) : Clocked :=
  ⟨0, SliceCache.create shards maxBytes cacheTime cleanWait route⟩

section Start

variable (shards maxBytes cacheTime cleanWait : Nat) (route : Bytes → Nat)

theorem shards_start : (start shards maxBytes cacheTime cleanWait route).slices.shards =
    List.replicate (max shards 1) ⟨[], 0, max (maxBytes / max shards 1) 1⟩ := rfl

theorem not_keeps_start {x : CachedSlice} :
    ¬ (start shards maxBytes cacheTime cleanWait route).slices.Keeps x := by
  rintro ⟨s, inShards, member⟩
  rw [shards_start] at inShards
  obtain rfl := List.eq_of_mem_replicate inShards
  cases member

end Start

def step (z : Clocked) : SliceEvent → Clocked
  | .look key => { z with slices := (z.slices.isExpired z.time key).2 }
  | .find q => { z with slices := (z.slices.get z.time q).2 }
  | .fill q entries generation => { z with slices := z.slices.put z.time q entries generation }
  | .invalidate key => { z with slices := z.slices.invalidate z.time key }
  | .clean => { z with slices := (z.slices.clearExpired z.time false).2 }
  | .clear => { z with slices := z.slices.invalidateAll }
  | .pass ticks => { z with time := z.time + ticks }
  | .toss coins => { z with slices := { z.slices with coins } }

def run (events : List SliceEvent) (z : Clocked) : Clocked := events.foldl step z

theorem run_append (before after : List SliceEvent) (z : Clocked) :
    z.run (before ++ after) = (z.run before).run after :=
  List.foldl_append ..

theorem time_step (z : Clocked) (e : SliceEvent) : (z.step e).time = z.time + e.ticks := by
  cases e <;> rfl

theorem time_le_run (events : List SliceEvent) (z : Clocked) : z.time ≤ (z.run events).time := by
  induction events generalizing z with
  | nil => exact Nat.le_refl _
  | cons e rest ih =>
      have later := ih (z.step e)
      rw [time_step] at later
      exact Nat.le_trans (Nat.le_add_right ..) later

/-- The slices are in order, whatever is right to answer. -/
def Sound (z : Clocked) : Prop := z.slices.Coherent z.time fun _ _ => True

theorem sound_start (shards maxBytes cacheTime cleanWait : Nat) (route : Bytes → Nat) :
    (start shards maxBytes cacheTime cleanWait route).Sound :=
  SliceCache.coherent_create ..

theorem sound_step {z : Clocked} (sound : z.Sound) (e : SliceEvent) : (z.step e).Sound := by
  cases e with
  | look key => exact (sound.isExpired key).1
  | find q => exact (sound.get q).1
  | fill q entries generation => exact sound.put fun _ => trivial
  | invalidate key => exact sound.invalidate fun _ _ fine => .inl fine
  | clean => exact sound.clearExpired false
  | clear => exact sound.invalidateAll _
  | pass ticks => exact sound.later (Nat.le_add_right ..)
  | toss coins => exact ⟨sound.lasting, sound.shards, sound.ordered, sound.entered, sound.kept⟩

theorem sound_run {z : Clocked} (sound : z.Sound) (events : List SliceEvent) :
    (z.run events).Sound := by
  induction events generalizing z with
  | nil => exact sound
  | cons e rest ih => exact ih (sound_step sound e)

theorem constants_step (z : Clocked) (e : SliceEvent) :
    (z.step e).slices.constants = z.slices.constants := by
  cases e with
  | look key => exact z.slices.constants_isExpired z.time key
  | find q => exact z.slices.constants_get z.time q
  | fill q entries generation => exact z.slices.constants_put z.time q entries generation
  | invalidate key => exact z.slices.constants_invalidate z.time key
  | clean => exact z.slices.constants_clearExpired z.time false
  | clear => exact z.slices.constants_invalidateAll
  | pass ticks => rfl
  | toss coins => rfl

theorem constants_run (events : List SliceEvent) (z : Clocked) :
    (z.run events).slices.constants = z.slices.constants := by
  induction events generalizing z with
  | nil => rfl
  | cons e rest ih => exact (ih (z.step e)).trans (z.constants_step e)

/-- What is kept was kept before, or has just been filled in. -/
theorem keeps_step {z : Clocked} (sound : z.Sound) {e : SliceEvent} {x : CachedSlice}
    (kept : (z.step e).slices.Keeps x) :
    z.slices.Keeps x ∨ ∃ q entries generation, e = .fill q entries generation ∧
      z.slices.Admits q entries generation ∧
      x = ⟨q, entries, z.time, SliceCache.weightOf q entries⟩ := by
  cases e with
  | look key => exact .inl (SliceCache.keeps_isExpired sound.ordered kept)
  | find q => exact .inl (SliceCache.keeps_get kept)
  | fill q entries generation =>
      refine (SliceCache.keeps_put kept).imp_right fun fresh => ?_
      exact ⟨q, entries, generation, rfl, fresh⟩
  | invalidate key => exact .inl (SliceCache.keeps_invalidate sound.ordered kept)
  | clean => exact .inl (SliceCache.keeps_clearExpired sound.ordered kept).1
  | clear => exact absurd kept SliceCache.not_keeps_invalidateAll
  | pass ticks => exact .inl kept
  | toss coins => exact .inl kept

/-- Without fills nothing new is kept. -/
theorem keeps_run {z : Clocked} (sound : z.Sound) {events : List SliceEvent}
    (unfilled : ∀ q entries generation, .fill q entries generation ∉ events) {x : CachedSlice}
    (kept : (z.run events).slices.Keeps x) : z.slices.Keeps x := by
  induction events generalizing z with
  | nil => exact kept
  | cons e rest ih =>
      have later := ih (sound_step sound e)
        (fun q entries generation member =>
          unfilled q entries generation (List.mem_cons_of_mem e member)) kept
      rcases keeps_step sound later with old | ⟨q, entries, generation, rfl, -⟩
      · exact old
      · exact absurd List.mem_cons_self (unfilled q entries generation)

/-- A slice that is served: it was not kept for its full time, and no mark of its key stands. -/
structure Serves (z : Clocked) (q : KeySlice) (x : CachedSlice) : Prop where
  unmarked : z.slices.marked z.time q.key = false
  fresh : z.slices.fresh? z.time q = some x

theorem served?_eq_some_iff {z : Clocked} {q : KeySlice} {entries : List Entry} :
    z.slices.served? z.time q = some entries ↔ ∃ x, z.Serves q x ∧ x.entries = entries := by
  rw [SliceCache.served?]
  constructor
  · intro served
    split at served
    · cases served
    · rename_i unmarked
      obtain ⟨x, fresh, same⟩ := Option.map_eq_some_iff.1 served
      exact ⟨x, ⟨by simpa using unmarked, fresh⟩, same⟩
  · rintro ⟨x, serves, rfl⟩
    simp [serves.unmarked, serves.fresh]

theorem Serves.kept {z : Clocked} {q : KeySlice} {x : CachedSlice} (serves : z.Serves q x) :
    z.slices.Keeps x ∧ x.query = q ∧ z.slices.isStale z.time x = false := by
  obtain ⟨found, fresh⟩ := Option.filter_eq_some_iff.1 serves.fresh
  obtain ⟨shard, there, inShard⟩ := Option.bind_eq_some_iff.1 found
  exact ⟨⟨shard, List.mem_of_getElem? there, List.mem_of_find?_eq_some inShard⟩,
    of_decide_eq_true (List.find?_some inShard :), by simpa using fresh⟩

/-- The first columns of a row, two at most. -/
def firstOf (row : UInt8) : KeySlice := ⟨[row], StoreCache.Slice.firstTwo⟩

end Clocked

end PropertyGraph
