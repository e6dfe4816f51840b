/-
# Proofs.CleanupRounds -- bypassing a cache comes to an end

A read that finds its key expired bypasses the cache.  Every fifth such read cleans up; as
long as chance counts no invalidation as one more, nothing else does so by itself.

* In every run the counter of a cache says how many bypassing reads are left until the next
  round, whatever clean-ups were forced, and an entry of the table of expired keys dates from
  the last invalidation of its key (`Clocked.rounds_run`).
* `Clocked.bypassing_is_bounded`: when a round is due, the marks that have waited long enough
  go with all slices of their keys, and the others stay with theirs.
-/
import PropertyGraph.Proofs.SliceRuns

namespace PropertyGraph

set_option autoImplicit false

/-- The slices of a key. -/
def Shard.slicesOf (key : Bytes) (s : Shard) : List CachedSlice :=
  s.slices.filter fun x => x.query.key = key

namespace SliceCache

variable {c : SliceCache} {now : Nat}

/-- Without the help of chance an invalidation does no more than enter its key. -/
theorem invalidate_of_unlucky (unlucky : true ∉ c.coins) (key : Bytes) :
    c.invalidate now key = c.expire now key := by
  have lost : c.coins.headD false = false := by
    cases coins : c.coins with
    | nil => rfl
    | cons coin rest => simp_all
  unfold invalidate
  rw [lost]
  rfl

theorem coins_countDown (c : SliceCache) (now : Nat) : (c.countDown now).coins = c.coins := by
  unfold countDown
  split <;> rfl

theorem coins_isExpired (c : SliceCache) (now : Nat) (key : Bytes) :
    (c.isExpired now key).2.coins = c.coins := by
  unfold isExpired
  split
  · rfl
  · split
    · rfl
    · exact c.coins_countDown now

end SliceCache

namespace Clocked

/-- The event is a read that finds its key expired. -/
def bypassed (z : Clocked) : SliceEvent → Bool
  | .look key => (z.slices.isExpired z.time key).1
  | _ => false

/-- The number of reads that found their key expired. -/
def bypasses : List SliceEvent → Clocked → Nat
  | [], _ => 0
  | e :: rest, z => (z.bypassed e).toNat + bypasses rest (z.step e)

/-- When a run last invalidated a key. -/
def lastInvalidated (key : Bytes) : List SliceEvent → Clocked → Option Nat
  | [], _ => none
  | e :: rest, z => (lastInvalidated key rest (z.step e)).or
      (if e = .invalidate key then some z.time else none)

/-- Chance counts no invalidation to come. -/
def Unlucky (z : Clocked) : Prop := true ∉ z.slices.coins

variable {z : Clocked}

theorem unlucky_step (unlucky : z.Unlucky) {e : SliceEvent}
    (chance : ∀ coins, e = .toss coins → true ∉ coins) : (z.step e).Unlucky := by
  cases e with
  | look key =>
      rw [Unlucky, step, SliceCache.coins_isExpired]
      exact unlucky
  | find q =>
      obtain ⟨shards, after⟩ := z.slices.get_snd z.time q
      rw [Unlucky, step, after]
      exact unlucky
  | fill q entries generation =>
      obtain ⟨shards, after⟩ := z.slices.put_shards z.time q entries generation
      rw [Unlucky, step, after]
      exact unlucky
  | invalidate key =>
      rw [Unlucky, step, SliceCache.invalidate_of_unlucky unlucky]
      exact fun left => unlucky (List.mem_of_mem_tail left)
  | clean => exact unlucky
  | clear => exact unlucky
  | pass ticks => exact unlucky
  | toss coins => exact chance coins rfl

/-- The counter says how many bypassing reads are left until the next round. -/
theorem penalty_step (sound : z.Sound) (unlucky : z.Unlucky) {n : Nat} (e : SliceEvent)
    (counts : z.slices.penalty = 5 - n % 5) :
    (z.step e).slices.penalty = 5 - (n + (z.bypassed e).toNat) % 5 := by
  cases e with
  | look key =>
      cases marked : z.slices.marked z.time key with
      | true =>
          rw [step, bypassed, SliceCache.isExpired_of_marked marked]
          simp only [SliceCache.countDown, Bool.toNat_true]
          split
          · simp only
            omega
          · simp only [SliceCache.clearExpired, if_true, SliceCache.penaltyThreshold]
            omega
      | false =>
          obtain ⟨expired, looked, -⟩ := SliceCache.isExpired_of_unmarked sound.ordered marked
          rw [step, bypassed, looked]
          exact counts
  | find q =>
      obtain ⟨shards, after⟩ := z.slices.get_snd z.time q
      rw [step, after]
      exact counts
  | fill q entries generation =>
      obtain ⟨shards, after⟩ := z.slices.put_shards z.time q entries generation
      rw [step, after]
      exact counts
  | invalidate key =>
      rw [step, SliceCache.invalidate_of_unlucky unlucky]
      exact counts
  | clean => exact counts
  | clear => exact counts
  | pass ticks => exact counts
  | toss coins => exact counts

/-- Entries of the table of expired keys date from the last invalidations. -/
def Dated (z : Clocked) (last : Bytes → Option Nat) : Prop :=
  ∀ key e, z.slices.expiry? key = some e → last key = some e.since

theorem dated_step (sound : z.Sound) (unlucky : z.Unlucky) {last : Bytes → Option Nat}
    (dated : z.Dated last) (e : SliceEvent) : (z.step e).Dated fun key =>
      (if e = .invalidate key then some z.time else none).or (last key) := by
  intro key entry found
  cases e with
  | look key' =>
      refine dated key entry ?_
      cases marked : z.slices.marked z.time key' with
      | true =>
          rw [step, SliceCache.isExpired_of_marked marked] at found
          exact SliceCache.expiry?_of_countDown sound.ordered found
      | false =>
          obtain ⟨expired, looked, entries⟩ :=
            SliceCache.isExpired_of_unmarked sound.ordered marked
          rw [step, looked, entries] at found
          split at found
          · cases found
          · exact found
  | find q =>
      obtain ⟨shards, after⟩ := z.slices.get_snd z.time q
      rw [step, after] at found
      exact dated key entry found
  | fill q entries generation =>
      obtain ⟨shards, after⟩ := z.slices.put_shards z.time q entries generation
      rw [step, after] at found
      exact dated key entry found
  | invalidate key' =>
      rw [step, SliceCache.invalidate_of_unlucky unlucky, SliceCache.expiry?_expire] at found
      split at found
      · rename_i same
        obtain rfl := Option.some.inj found
        simp only [same, if_true]
        rfl
      · rename_i apart
        simp only [SliceEvent.invalidate.injEq, Ne.symm apart, if_false]
        exact dated key entry found
  | clean =>
      rw [step, SliceCache.expiry?_clearExpired sound.ordered] at found
      exact dated key entry (Option.filter_eq_some_iff.1 found).1
  | clear => exact dated key entry found
  | pass ticks => exact dated key entry found
  | toss coins => exact dated key entry found

/-- Counter and dates after a run. -/
theorem rounds_run (sound : z.Sound) (unlucky : z.Unlucky) {n : Nat} {last : Bytes → Option Nat}
    (counts : z.slices.penalty = 5 - n % 5) (dated : z.Dated last) {events : List SliceEvent}
    (chance : ∀ coins, .toss coins ∈ events → true ∉ coins) :
    (z.run events).Unlucky ∧
      (z.run events).slices.penalty = 5 - (n + bypasses events z) % 5 ∧
      (z.run events).Dated fun key => (lastInvalidated key events z).or (last key) := by
  induction events generalizing z n last with
  | nil => exact ⟨unlucky, counts, dated⟩
  | cons e rest ih =>
      obtain ⟨unlucky', counts', dated'⟩ := ih (sound_step sound e)
        (unlucky_step unlucky fun coins same => chance coins (same ▸ List.mem_cons_self))
        (penalty_step sound unlucky e counts) (dated_step sound unlucky dated e)
        fun coins later => chance coins (List.mem_cons_of_mem e later)
      refine ⟨unlucky', ?_, fun key entry found => ?_⟩
      · rw [bypasses, ← Nat.add_assoc]
        exact counts'
      · simp only [lastInvalidated, Option.or_assoc]
        exact dated' key entry found

/-- What a round does, given when keys were last invalidated: the marks of those that waited
long enough are gone, with all slices of the keys whose marks stood, and the keys whose marks
stand for less time keep theirs. -/
structure Cleaned (before : Clocked) (last : Bytes → Option Nat) (after : SliceCache) : Prop where
  gone : ∀ key s, last key = some s → before.slices.cleanWait ≤ before.time - s →
    after.expiry? key = none
  emptied : ∀ key s, last key = some s → before.slices.cleanWait ≤ before.time - s →
    before.slices.marked before.time key = true → ∀ x, after.Keeps x → x.query.key ≠ key
  spared : ∀ key s, last key = some s → before.time - s < before.slices.cleanWait →
    before.slices.marked before.time key = true →
      after.expiry? key = before.slices.expiry? key ∧
      after.shards.map (Shard.slicesOf key) = before.slices.shards.map (Shard.slicesOf key)

theorem cleaned_clearExpired (sound : z.Sound) {last : Bytes → Option Nat} (dated : z.Dated last)
    (resetPenalty : Bool) : z.Cleaned last (z.slices.clearExpired z.time resetPenalty).2 := by
  have ordered := sound.ordered
  have entry_of_marked : ∀ {key s}, last key = some s → z.slices.marked z.time key = true →
      ∃ e, z.slices.expiry? key = some e ∧ e.lapsed z.time = false ∧ e.since = s := by
    intro key s invalidated marked
    obtain ⟨e, found, standing⟩ := (Option.any_eq_true ..).mp marked
    have since := (dated key e found).symm.trans invalidated
    exact ⟨e, found, by simpa using standing, Option.some.inj since⟩
  refine ⟨?_, ?_, ?_⟩
  · intro key s invalidated waited
    rw [SliceCache.expiry?_clearExpired ordered, Option.filter_eq_none_iff]
    intro e found
    obtain rfl := Option.some.inj ((dated key e found).symm.trans invalidated)
    simp [SliceCache.ripe, waited]
  · intro key s invalidated waited marked x kept same
    obtain ⟨e, found, standing, rfl⟩ := entry_of_marked invalidated marked
    have spared := (SliceCache.keeps_clearExpired ordered kept).2
    rw [same, found] at spared
    simp [SliceCache.ripe, standing, waited] at spared
  · intro key s invalidated early marked
    obtain ⟨e, found, standing, rfl⟩ := entry_of_marked invalidated marked
    have unripe : z.slices.ripe z.time e = false := by
      simp [SliceCache.ripe, Nat.not_le.2 early]
    refine ⟨?_, ?_⟩
    · rw [SliceCache.expiry?_clearExpired ordered, found]
      simp [Option.filter, standing, unripe]
    · rw [SliceCache.shards_clearExpired ordered, List.map_map]
      refine List.map_congr_left fun s _ => ?_
      rw [Function.comp_apply, Shard.slicesOf, Shard.slices_drop, List.filter_filter]
      refine List.filter_congr fun x _ => ?_
      by_cases same : x.query.key = key
      · simp [same, found, unripe]
      · simp [same]

/-- Every fifth read that finds its key expired cleans up, and nothing else does unless it is
forced.  Other such reads are only counted, other reads take a lapsed mark of their key out,
and an invalidation enters its key. -/
theorem bypassing_is_bounded (shards maxBytes cacheTime cleanWait : Nat) (route : Bytes → Nat)
    (events : List SliceEvent) (chance : ∀ coins, .toss coins ∈ events → true ∉ coins)
    (key : Bytes) :
    let opened := start shards maxBytes cacheTime cleanWait route
    let z := opened.run events
    let after := (z.step (.look key)).slices
    (z.bypassed (.look key) = true →
      (∀ c : StoreCache, c.slices = some z.slices → c.time = z.time → ∀ slice,
        c.consult ⟨key, slice⟩ = (.bypass, { c with slices := some after })) ∧
      (¬ 5 ∣ bypasses events opened + 1 →
        after = { z.slices with penalty := z.slices.penalty - 1 }) ∧
      (5 ∣ bypasses events opened + 1 →
        after = (z.slices.clearExpired z.time true).2 ∧
        z.Cleaned (fun key => lastInvalidated key events opened) after)) ∧
    (z.bypassed (.look key) = false → ∃ expired, after = { z.slices with expired } ∧
      ∀ other, after.expiry? other = if other = key then none else z.slices.expiry? other) ∧
    z.slices.invalidate z.time key = z.slices.expire z.time key := by
  intro opened z after
  have sound₀ : opened.Sound := sound_start ..
  have sound : z.Sound := sound_run sound₀ events
  have dated₀ : opened.Dated fun _ => none := fun key e found => by cases found
  obtain ⟨unlucky, counts, dated⟩ :=
    rounds_run (n := 0) sound₀ List.not_mem_nil rfl dated₀ chance
  have left : z.slices.penalty = 5 - bypasses events opened % 5 := by
    rw [Nat.zero_add] at counts
    exact counts
  refine ⟨fun bypassed => ?_, fun unbypassed => ?_, ?_⟩
  · have marked : z.slices.marked z.time key = true :=
      (SliceCache.isExpired_fst key).symm.trans bypassed
    have looked := SliceCache.isExpired_of_marked marked
    have counted : after = z.slices.countDown z.time := congrArg Prod.snd looked
    refine ⟨fun c kept now slice => ?_, fun early => ?_, fun due => ?_⟩
    · simp only [StoreCache.consult, kept, now, looked, counted]
    · rw [counted, SliceCache.countDown, if_pos (by omega)]
    · have round : after = (z.slices.clearExpired z.time true).2 := by
        rw [counted, SliceCache.countDown, if_neg (by omega)]
      refine ⟨round, ?_⟩
      rw [round]
      simpa only [Option.or_none] using cleaned_clearExpired sound dated true
  · have unmarked : z.slices.marked z.time key = false :=
      (SliceCache.isExpired_fst key).symm.trans unbypassed
    obtain ⟨expired, looked, entries⟩ := SliceCache.isExpired_of_unmarked sound.ordered unmarked
    have same : after = { z.slices with expired } := congrArg Prod.snd looked
    exact ⟨expired, same, fun other => by rw [same, entries]⟩
  · exact SliceCache.invalidate_of_unlucky unlucky key

/-- Keys 1 and 2 are kept.  Key 1 is invalidated and read three times; a clean-up is forced
too early for it.  Key 2 is invalidated five ticks later and read once. -/
def fourBypassed : List SliceEvent :=
  [.fill (firstOf 1) [⟨[5], [1], none⟩] 0, .fill (firstOf 2) [⟨[5], [2], none⟩] 0,
    .invalidate [1], .look [1], .look [1], .look [1], .clean, .pass 5, .invalidate [2], .look [2]]

/-- The fifth bypassing read cleans key 1 up and leaves key 2. -/
theorem fifth_bypass_cleans :
    let z := (start 2 1000 0 5 fun _ => 0).run fourBypassed
    let after := (z.step (.look [2])).slices
    z.bypassed (.look [2]) = true ∧ z.slices.length = 2 ∧ after.expiry? [1] = none ∧
      (∀ x, after.Keeps x → x.query.key ≠ [1]) ∧
      after.expiry? [2] = some ⟨5, none⟩ ∧
      after.shards.map (Shard.slicesOf [2]) = z.slices.shards.map (Shard.slicesOf [2]) := by
  intro z after
  have chance : ∀ coins, SliceEvent.toss coins ∈ fourBypassed → true ∉ coins := by
    intro coins tossed
    simp [fourBypassed] at tossed
  obtain ⟨bypassed, -, -⟩ := bypassing_is_bounded 2 1000 0 5 (fun _ => 0) fourBypassed chance [2]
  obtain ⟨-, -, due⟩ := bypassed (by decide)
  obtain ⟨-, cleaned⟩ := due (by decide)
  have spared := cleaned.spared [2] 5 (by decide) (by decide) (by decide)
  exact ⟨by decide, by decide, cleaned.gone [1] 0 (by decide) (by decide),
    cleaned.emptied [1] 0 (by decide) (by decide) (by decide), spared.1, spared.2⟩

end Clocked

end PropertyGraph
