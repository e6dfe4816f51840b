/-
# Proofs.Coherence -- what a cache keeps is right, or will not be served

What is right to answer is a parameter, `right q entries`.  A cache is coherent when
every slice it keeps is right or excused: its key was invalidated no earlier than it
was kept, or it was kept for its full time.  An excused slice is never served.

* An entry of the table of expired keys may go only when it excuses nothing that is
  still kept.  A clean-up takes the slices of the key out with it; an entry that has
  lapsed is older than the full time of a slice (`Coherent.isStale_of_lapsed`).
* Every operation keeps coherence.  An invalidation lets the answers to one key go
  wrong (`Coherent.invalidate`); a fill has to be right unless it is refused
  (`Coherent.put`).
* What is served is right (`Coherent.get`).
-/
import PropertyGraph.Proofs.Shards

namespace PropertyGraph

set_option autoImplicit false

namespace SliceCache

/-- The slice stands in one of the shards. -/
def Keeps (c : SliceCache) (x : CachedSlice) : Prop := ∃ s ∈ c.shards, x ∈ s.slices

/-- The entry of a key in the table of expired keys. -/
def expiry? (c : SliceCache) (key : Bytes) : Option ExpiredKey :=
  (Sorted.find? Prod.fst key c.expired).map Prod.snd

/-- The slice may be wrong, but it is not going to be served. -/
def Excused (c : SliceCache) (now : Nat) (x : CachedSlice) : Prop :=
  (∃ e, c.expiry? x.query.key = some e ∧ x.inserted ≤ e.since) ∨ c.isStale now x = true

/-- A fill that was asked for under a generation is going to be kept: the cache was not
cleared since, the key has no entry, and the answer fits the budget. -/
def Admits (c : SliceCache) (q : KeySlice) (entries : List Entry) (generation : Nat) : Prop :=
  c.generation = generation ∧ c.expiry? q.key = none ∧
    ∃ s, c.shards[c.shardOf q.key]? = some s ∧ weightOf q entries ≤ s.budget

/-- Every slice that is kept is right, or excused. -/
structure Coherent (c : SliceCache) (now : Nat) (right : KeySlice → List Entry → Prop) :
    Prop where
  lasting : c.cacheTime ≠ some 0
  shards : ∀ s ∈ c.shards, s.Sound
  ordered : Sorted.Ascending Prod.fst c.expired
  entered : ∀ key e, c.expiry? key = some e →
    e.since ≤ now ∧ e.lapse = c.cacheTime.map fun time => e.since + time
  kept : ∀ x, c.Keeps x → x.inserted ≤ now ∧ (right x.query x.entries ∨ c.Excused now x)

theorem expiry?_eq_some_iff {c : SliceCache} (ordered : Sorted.Ascending Prod.fst c.expired)
    {key : Bytes} {e : ExpiredKey} : c.expiry? key = some e ↔ (key, e) ∈ c.expired := by
  constructor
  · intro found
    obtain ⟨⟨key', e'⟩, entry, rfl⟩ := Option.map_eq_some_iff.1 found
    obtain ⟨member, same⟩ := Sorted.mem_of_find? entry
    obtain rfl := Std.LawfulEqOrd.eq_of_compare same
    exact member
  · intro member
    rw [expiry?, Sorted.find?_of_mem ordered member Std.ReflOrd.compare_self]
    rfl

theorem expiry?_expire (c : SliceCache) (now : Nat) (key other : Bytes) :
    (c.expire now key).expiry? other =
      if other = key then some ⟨now, c.cacheTime.map fun time => now + time⟩
      else c.expiry? other := by
  have same : compare other key = .eq ↔ other = key :=
    ⟨Std.LawfulEqOrd.eq_of_compare, fun eq => eq ▸ Std.ReflOrd.compare_self⟩
  simp only [expiry?, expire, Sorted.find?_insert, same]
  split <;> rfl

theorem keeps_onShard {c : SliceCache} {key : Bytes} {f : Shard → Shard} {x : CachedSlice}
    (kept : (c.onShard key f).Keeps x) :
    c.Keeps x ∨ ∃ s, c.shards[c.shardOf key]? = some s ∧ x ∈ (f s).slices := by
  obtain ⟨s, inShards, member⟩ := kept
  obtain ⟨i, place⟩ := List.mem_iff_getElem?.1 inShards
  simp only [onShard, List.getElem?_modify, Option.map_eq_map] at place
  obtain ⟨s', there, same⟩ := Option.map_eq_some_iff.1 place
  subst same
  split at member
  · rename_i here
    exact .inr ⟨s', here ▸ there, member⟩
  · exact .inl ⟨s', List.mem_of_getElem? there, member⟩

theorem sound_onShard {c : SliceCache} {key : Bytes} {f : Shard → Shard}
    (shards : ∀ s ∈ c.shards, s.Sound)
    (sound : ∀ s, c.shards[c.shardOf key]? = some s → (f s).Sound) :
    ∀ s ∈ (c.onShard key f).shards, s.Sound := by
  intro s inShards
  obtain ⟨i, place⟩ := List.mem_iff_getElem?.1 inShards
  simp only [onShard, List.getElem?_modify, Option.map_eq_map] at place
  obtain ⟨s', there, rfl⟩ := Option.map_eq_some_iff.1 place
  split
  · rename_i here
    exact sound s' (here ▸ there)
  · exact shards s' (List.mem_of_getElem? there)

theorem isStale_later {c : SliceCache} {now later : Nat} {x : CachedSlice} (le : now ≤ later)
    (stale : c.isStale now x = true) : c.isStale later x = true := by
  unfold isStale at stale ⊢
  cases time : c.cacheTime with
  | none => rw [time] at stale; cases stale
  | some time =>
      simp_all only [decide_eq_true_eq]
      omega

/-- The empty cache is coherent. -/
theorem coherent_create (shards maxBytes cacheTime cleanWait : Nat) (route : Bytes → Nat)
    (now : Nat) (right : KeySlice → List Entry → Prop) :
    (create shards maxBytes cacheTime cleanWait route).Coherent now right := by
  refine ⟨?_, ?_, .nil, ?_, ?_⟩
  · simp only [create]
    split
    · intro zero
      cases zero
    · rename_i lasting
      exact fun zero => lasting (Option.some.inj zero)
  · intro s inShards
    rw [List.eq_of_mem_replicate inShards]
    exact Shard.sound_empty _
  · intro key e found
    cases found
  · intro x kept
    obtain ⟨s, inShards, member⟩ := kept
    rw [List.eq_of_mem_replicate inShards] at member
    cases member

namespace Coherent

variable {c : SliceCache} {now : Nat} {right : KeySlice → List Entry → Prop}

/-- Once an entry has lapsed, what it excused has been kept for its full time. -/
theorem isStale_of_lapsed (coherent : c.Coherent now right) {x : CachedSlice} {e : ExpiredKey}
    (found : c.expiry? x.query.key = some e) (older : x.inserted ≤ e.since)
    (lapsed : e.lapsed now = true) : c.isStale now x = true := by
  obtain ⟨-, lapse⟩ := coherent.entered _ e found
  unfold ExpiredKey.lapsed at lapsed
  unfold isStale
  cases time : c.cacheTime with
  | none => simp [lapse, time] at lapsed
  | some time =>
      simp_all only [Option.map_some, decide_eq_true_eq]
      omega

/-- Time passing keeps coherence. -/
theorem later (coherent : c.Coherent now right) {later : Nat} (le : now ≤ later) :
    c.Coherent later right := by
  refine ⟨coherent.lasting, coherent.shards, coherent.ordered, ?_, ?_⟩
  · intro key e found
    obtain ⟨since, lapse⟩ := coherent.entered key e found
    exact ⟨Nat.le_trans since le, lapse⟩
  · intro x kept
    obtain ⟨inserted, fine⟩ := coherent.kept x kept
    exact ⟨Nat.le_trans inserted le, fine.imp_right fun excused => excused.imp_right (isStale_later le)⟩

theorem weaken (coherent : c.Coherent now right) {right' : KeySlice → List Entry → Prop}
    (weaker : ∀ q entries, right q entries → right' q entries) : c.Coherent now right' :=
  ⟨coherent.lasting, coherent.shards, coherent.ordered, coherent.entered, fun x kept =>
    ⟨(coherent.kept x kept).1, (coherent.kept x kept).2.imp_left (weaker _ _)⟩⟩

/-- A cache that lost some slices, and no entry that excuses one it still keeps. -/
theorem shrink (coherent : c.Coherent now right) {c' : SliceCache}
    (time : c'.cacheTime = c.cacheTime) (shards : ∀ s ∈ c'.shards, s.Sound)
    (ordered : Sorted.Ascending Prod.fst c'.expired)
    (entries : ∀ key e, c'.expiry? key = some e → c.expiry? key = some e)
    (slices : ∀ x, c'.Keeps x → c.Keeps x)
    (excuses : ∀ x e, c'.Keeps x → c.expiry? x.query.key = some e → x.inserted ≤ e.since →
      c'.expiry? x.query.key = some e ∨ c.isStale now x = true) : c'.Coherent now right := by
  have stale : ∀ x, c'.isStale now x = c.isStale now x := by
    intro x
    simp only [isStale, time]
  refine ⟨by rw [time]; exact coherent.lasting, shards, ordered, ?_, ?_⟩
  · intro key e found
    rw [time]
    exact coherent.entered key e (entries key e found)
  · intro x kept
    obtain ⟨inserted, fine⟩ := coherent.kept x (slices x kept)
    refine ⟨inserted, ?_⟩
    rcases fine with fine | ⟨e, found, older⟩ | full
    · exact .inl fine
    · rcases excuses x e kept found older with still | full
      · exact .inr (.inl ⟨e, still, older⟩)
      · exact .inr (.inr ((stale x).trans full))
    · exact .inr (.inr ((stale x).trans full))

theorem clearExpired (coherent : c.Coherent now right) (resetPenalty : Bool) :
    (c.clearExpired now resetPenalty).2.Coherent now right := by
  let standing := c.expired.filter fun e => !e.2.lapsed now
  let ripe := standing.filter fun e => decide (c.cleanWait ≤ now - e.2.since)
  let doomed (key : Bytes) : Bool := ripe.any fun e => e.1 == key
  have ordered : Sorted.Ascending Prod.fst (c.clearExpired now resetPenalty).2.expired :=
    (coherent.ordered.filter _).filter _
  have mem_expired : ∀ entry, entry ∈ (c.clearExpired now resetPenalty).2.expired ↔
      entry ∈ c.expired ∧ entry.2.lapsed now = false ∧ doomed entry.1 = false := by
    intro entry
    show entry ∈ standing.filter (fun e => !doomed e.1) ↔ _
    simp only [standing, List.mem_filter, Bool.not_eq_true', and_assoc]
  have keeps : ∀ x, (c.clearExpired now resetPenalty).2.Keeps x →
      c.Keeps x ∧ doomed x.query.key = false := by
    rintro x ⟨s, inShards, member⟩
    obtain ⟨s, there, rfl⟩ := List.mem_map.1 inShards
    obtain ⟨member, spared⟩ := Shard.mem_drop.1 member
    exact ⟨⟨s, there, member⟩, spared⟩
  have shards : ∀ s ∈ (c.clearExpired now resetPenalty).2.shards, s.Sound := by
    intro s inShards
    obtain ⟨s, there, rfl⟩ := List.mem_map.1 inShards
    exact (coherent.shards s there).drop doomed
  refine coherent.shrink rfl shards ordered ?_
    (fun x kept => (keeps x kept).1) ?_
  · intro key e found
    rw [expiry?_eq_some_iff ordered, mem_expired] at found
    exact (expiry?_eq_some_iff coherent.ordered).2 found.1
  · intro x e kept found older
    by_cases lapsed : e.lapsed now = true
    · exact .inr (coherent.isStale_of_lapsed found older lapsed)
    · left
      rw [expiry?_eq_some_iff ordered, mem_expired]
      exact ⟨(expiry?_eq_some_iff coherent.ordered).1 found, by simpa using lapsed,
        (keeps x kept).2⟩

theorem countDown (coherent : c.Coherent now right) : (c.countDown now).Coherent now right := by
  unfold SliceCache.countDown
  split
  · exact ⟨coherent.lasting, coherent.shards, coherent.ordered, coherent.entered, coherent.kept⟩
  · exact coherent.clearExpired true

/-- Looking a key up keeps coherence, and leaves no entry of a key that may be read. -/
theorem isExpired (coherent : c.Coherent now right) (key : Bytes) :
    (c.isExpired now key).2.Coherent now right ∧
      ((c.isExpired now key).1 = false → (c.isExpired now key).2.expiry? key = none) := by
  unfold SliceCache.isExpired
  cases found : Sorted.find? Prod.fst key c.expired with
  | none => exact ⟨coherent, fun _ => by rw [expiry?, found]; rfl⟩
  | some entry =>
      obtain ⟨key', e⟩ := entry
      obtain rfl := Std.LawfulEqOrd.eq_of_compare (Sorted.mem_of_find? found).2
      by_cases lapsed : e.lapsed now = true
      · simp only [lapsed, if_true]
        have erased : ∀ other,
            SliceCache.expiry? { c with expired := Sorted.erase Prod.fst key c.expired } other =
              if other = key then none else c.expiry? other := by
          intro other
          have same : compare other key = .eq ↔ other = key :=
            ⟨Std.LawfulEqOrd.eq_of_compare, fun eq => eq ▸ Std.ReflOrd.compare_self⟩
          simp only [expiry?, Sorted.find?_erase coherent.ordered, same]
          split <;> rfl
        refine ⟨coherent.shrink rfl coherent.shards (coherent.ordered.erase key) ?_
          (fun _ kept => kept) ?_, ?_⟩
        · intro other e' found'
          rw [erased] at found'
          split at found'
          · cases found'
          · exact found'
        · intro x e' _ found' older
          by_cases here : x.query.key = key
          · have entry : c.expiry? x.query.key = some e := by rw [here, expiry?, found]; rfl
            obtain rfl := Option.some.inj (entry.symm.trans found')
            exact .inr (coherent.isStale_of_lapsed found' older lapsed)
          · rw [erased, if_neg here]
            exact .inl found'
        · intro _
          rw [erased, if_pos rfl]
      · simp only [lapsed, if_false, Bool.false_eq_true]
        exact ⟨coherent.countDown, fun served => by cases served⟩

theorem onShard (coherent : c.Coherent now right) (key : Bytes) {f : Shard → Shard}
    (sound : ∀ s, c.shards[c.shardOf key]? = some s → (f s).Sound)
    (keeps : ∀ s ∈ c.shards, ∀ x ∈ (f s).slices, c.Keeps x) :
    (c.onShard key f).Coherent now right := by
  refine coherent.shrink rfl (sound_onShard coherent.shards sound) coherent.ordered
    (fun _ _ found => found) ?_ fun _ _ _ found _ => .inl found
  intro x kept
  rcases keeps_onShard kept with kept | ⟨s, there, member⟩
  · exact kept
  · exact keeps s (List.mem_of_getElem? there) x member

/-- An answer that is served for a key that is not expired is right. -/
theorem get (coherent : c.Coherent now right) (q : KeySlice) :
    (c.get now q).2.Coherent now right ∧
      (c.expiry? q.key = none → ∀ entries, (c.get now q).1 = some entries → right q entries) := by
  unfold SliceCache.get
  cases found : (c.shards[c.shardOf q.key]?).bind fun s => s.find? q with
  | none => exact ⟨coherent, fun _ _ served => by cases served⟩
  | some slice =>
      obtain ⟨shard, there, inShard⟩ := Option.bind_eq_some_iff.1 found
      have kept : c.Keeps slice :=
        ⟨shard, List.mem_of_getElem? there, List.mem_of_find?_eq_some inShard⟩
      have query : slice.query = q := of_decide_eq_true (List.find?_some inShard :)
      by_cases stale : c.isStale now slice = true
      · simp only [stale, if_true]
        refine ⟨coherent.onShard q.key ?_ ?_, fun _ _ served => by cases served⟩
        · intro s place
          exact (coherent.shards s (List.mem_of_getElem? place)).remove q
        · intro s there x member
          exact ⟨s, there, (Shard.mem_remove.1 member).1⟩
      · simp only [stale, if_false, Bool.false_eq_true]
        refine ⟨coherent.onShard q.key ?_ ?_, ?_⟩
        · intro s place
          rw [there] at place
          obtain rfl := Option.some.inj place
          exact (coherent.shards shard (List.mem_of_getElem? there)).touch
            (List.mem_of_find?_eq_some inShard)
        · intro s there x member
          rcases Shard.mem_of_mem_touch member with rfl | inShard
          · exact kept
          · exact ⟨s, there, inShard⟩
        · intro unexpired entries served
          obtain rfl := Option.some.inj served
          rcases (coherent.kept slice kept).2 with fine | ⟨e, found, -⟩ | full
          · exact query ▸ fine
          · rw [query, unexpired] at found
            cases found
          · exact absurd full stale

/-- A fill may be wrong only if it is refused. -/
theorem put (coherent : c.Coherent now right) {q : KeySlice} {entries : List Entry}
    {generation : Nat} (fine : c.Admits q entries generation → right q entries) :
    (c.put now q entries generation).Coherent now right := by
  by_cases cleared : c.generation = generation
  · by_cases expired : (Sorted.find? Prod.fst q.key c.expired).isSome = true
    · rw [put_of_expired expired]
      exact coherent
    · have unexpired : c.expiry? q.key = none := by
        rw [expiry?, Option.map_eq_none_iff]
        simpa using expired
      unfold SliceCache.put
      rw [if_neg (fun apart => apart cleared), if_neg expired]
      refine ⟨coherent.lasting, sound_onShard coherent.shards fun s place => ?_,
        coherent.ordered, coherent.entered, fun x kept => ?_⟩
      · have sound := coherent.shards s (List.mem_of_getElem? place)
        split
        · exact sound
        · rename_i fits
          exact (Shard.put_spec sound (Nat.le_of_not_lt fits)).1
      rcases keeps_onShard kept with old | ⟨s, place, member⟩
      · exact coherent.kept x old
      · have old (member : x ∈ s.slices) := coherent.kept x ⟨s, List.mem_of_getElem? place, member⟩
        split at member
        · exact old member
        · rename_i fits
          rcases Shard.mem_of_mem_put member with rfl | member
          · exact ⟨Nat.le_refl now, .inl (fine ⟨cleared, unexpired, s, place, by omega⟩)⟩
          · exact old member
  · rw [put_of_generation cleared]
    exact coherent

/-- A key that is invalidated may be answered differently from then on. -/
theorem expire (coherent : c.Coherent now right) {key : Bytes}
    {right' : KeySlice → List Entry → Prop}
    (others : ∀ q entries, right q entries → right' q entries ∨ q.key = key) :
    (c.expire now key).Coherent now right' := by
  refine ⟨coherent.lasting, coherent.shards, coherent.ordered.insert _, ?_, ?_⟩
  · intro other e found
    rw [expiry?_expire] at found
    split at found
    · obtain rfl := Option.some.inj found
      exact ⟨Nat.le_refl now, rfl⟩
    · exact coherent.entered other e found
  · intro x kept
    obtain ⟨inserted, fine⟩ := coherent.kept x kept
    refine ⟨inserted, ?_⟩
    by_cases here : x.query.key = key
    · right
      left
      exact ⟨_, by rw [expiry?_expire, if_pos here], inserted⟩
    · rcases fine with fine | ⟨e, found, older⟩ | full
      · exact .inl ((others _ _ fine).resolve_right here)
      · refine .inr (.inl ⟨e, ?_, older⟩)
        rw [expiry?_expire, if_neg here]
        exact found
      · exact .inr (.inr full)

theorem invalidate (coherent : c.Coherent now right) {key : Bytes}
    {right' : KeySlice → List Entry → Prop}
    (others : ∀ q entries, right q entries → right' q entries ∨ q.key = key) :
    (c.invalidate now key).Coherent now right' := by
  unfold SliceCache.invalidate
  split
  · exact (coherent.expire others).countDown
  · exact coherent.expire others

/-- A cache without slices is coherent whatever is right. -/
theorem invalidateAll (coherent : c.Coherent now right) (right' : KeySlice → List Entry → Prop) :
    c.invalidateAll.Coherent now right' := by
  refine ⟨coherent.lasting, ?_, coherent.ordered, coherent.entered, ?_⟩
  · intro s inShards
    obtain ⟨s, -, rfl⟩ := List.mem_map.1 inShards
    exact Shard.sound_clear s
  · intro x kept
    obtain ⟨s, inShards, member⟩ := kept
    obtain ⟨s, -, rfl⟩ := List.mem_map.1 inShards
    cases member

/-- A fill that is not refused is what is served next. -/
theorem get_put (coherent : c.Coherent now right) {q : KeySlice} {entries : List Entry}
    {generation : Nat} (admits : c.Admits q entries generation) :
    ((c.put now q entries generation).get now q).1 = some entries ∧
      (c.put now q entries generation).expiry? q.key = none := by
  obtain ⟨current, unexpired, s, place, fits⟩ := admits
  let x : CachedSlice := ⟨q, entries, now, weightOf q entries⟩
  have absent : (Sorted.find? Prod.fst q.key c.expired).isSome = false := by
    rw [expiry?, Option.map_eq_none_iff] at unexpired
    rw [unexpired]
    rfl
  have same : c.put now q entries generation = c.onShard q.key fun s =>
      if s.budget < weightOf q entries then s else s.put x := by
    unfold SliceCache.put
    rw [if_neg fun apart => apart current, absent]
    rfl
  have shard : (c.put now q entries generation).shards[
      (c.put now q entries generation).shardOf q.key]? = some (s.put x) := by
    rw [same]
    simp only [SliceCache.onShard, shardOf, List.length_modify, List.getElem?_modify]
    have there : c.shards[c.route q.key % c.shards.length]? = some s := place
    rw [there]
    simp [Nat.not_lt.2 fits]
  have found : (s.put x).find? q = some x :=
    Shard.find?_put (c := x) (coherent.shards s (List.mem_of_getElem? place)) fits
  have fresh : (c.put now q entries generation).isStale now x = false := by
    rw [same]
    unfold SliceCache.isStale
    cases set : c.cacheTime with
    | none =>
        have limit : (c.onShard q.key fun s =>
            if s.budget < weightOf q entries then s else s.put x).cacheTime = none := set
        rw [limit]
    | some time =>
        have limit : (c.onShard q.key fun s =>
            if s.budget < weightOf q entries then s else s.put x).cacheTime = some time := set
        have positive : time ≠ 0 := by
          rintro rfl
          exact coherent.lasting set
        rw [limit]
        show decide (time ≤ now - now) = false
        exact decide_eq_false (by omega)
  constructor
  · unfold SliceCache.get
    rw [shard, Option.bind_some, found]
    simp only [fresh, Bool.false_eq_true, if_false]
    rfl
  · rw [same]
    exact unexpired

end Coherent

/-- A fill that is refused leaves no trace. -/
theorem put_of_refused {c : SliceCache} {now generation : Nat} {q : KeySlice}
    {entries : List Entry} (refused : ¬ c.Admits q entries generation) :
    c.put now q entries generation = c := by
  unfold put
  by_cases current : c.generation = generation
  · rw [if_neg fun apart => apart current]
    by_cases expired : (Sorted.find? Prod.fst q.key c.expired).isSome = true
    · rw [if_pos expired]
    · rw [if_neg expired]
      have unexpired : c.expiry? q.key = none := by
        rw [expiry?, Option.map_eq_none_iff]
        simpa using expired
      have shards : c.shards.modify (c.shardOf q.key) (fun s =>
          if s.budget < weightOf q entries then s
          else s.put ⟨q, entries, now, weightOf q entries⟩) = c.shards := by
        refine List.ext_getElem? ?_
        intro i
        rw [List.getElem?_modify]
        cases place : c.shards[i]? with
        | none => rfl
        | some s =>
            by_cases here : c.shardOf q.key = i
            · have heavy : s.budget < weightOf q entries := by
                apply Nat.lt_of_not_le
                intro fits
                exact refused ⟨current, unexpired, s, here ▸ place, fits⟩
              simp [here, heavy]
            · simp [here]
      show { c with shards := _ } = c
      rw [shards]
  · rw [if_pos current]

end SliceCache

end PropertyGraph
