/-
# Proofs.ByteAccounts -- what a cache weighs, and what has to go for a new answer

The counter of a shard is what its slices weigh, and the budgets of all shards together are
within what a cache may weigh, however keys are spread over them.

* Counting is never undone below zero: the operations of a shard agree with their twins that
  stop at a subtraction which would be (`Shard.Unerring`).
* A shard lists its slices in the order of their last use, fills and answered lookups
  counting as uses (`Clocked.recent_run`).
* A fill that is admitted stands first in its shard, and the shortest run of least recently
  used slices goes for it (`Shard.madeRoom_put`).
* `Clocked.accounts_are_exact` puts these together.
-/
import PropertyGraph.Proofs.SliceRuns

namespace PropertyGraph

set_option autoImplicit false

theorem sumOf_congr {α : Type} {f g : α → Nat} {l : List α} (same : ∀ x ∈ l, f x = g x) :
    sumOf f l = sumOf g l := by
  induction l with
  | nil => rfl
  | cons x rest ih =>
      obtain ⟨here, later⟩ := List.forall_mem_cons.1 same
      simp only [sumOf, here, ih later]

theorem sumOf_le_mul {α : Type} {f : α → Nat} {l : List α} {bound : Nat}
    (within : ∀ x ∈ l, f x ≤ bound) : sumOf f l ≤ l.length * bound := by
  induction l with
  | nil => exact Nat.zero_le _
  | cons x rest ih =>
      obtain ⟨here, later⟩ := List.forall_mem_cons.1 within
      simp only [sumOf, List.length_cons, Nat.succ_mul]
      have := ih later
      omega

namespace Shard

/-! ## Counters that stop at zero -/

/-- Takes a query's answer out, unless its weight is more than the counter says. -/
def remove? (s : Shard) (q : KeySlice) : Option Shard :=
  match s.find? q with
  | some old =>
      if old.weight ≤ s.bytes then
        some { s with slices := s.without q, bytes := s.bytes - old.weight }
      else none
  | none => some s

def drop? (s : Shard) (doomed : Bytes → Bool) : Option Shard :=
  (s.slices.filter fun c => doomed c.query.key).foldlM (fun acc c => acc.remove? c.query) s

def shed? (budget : Nat) : List CachedSlice → Nat → Option (List CachedSlice × Nat)
  | [], bytes => some ([], bytes)
  | oldest :: rest, bytes =>
      if budget < bytes then
        if oldest.weight ≤ bytes then shed? budget rest (bytes - oldest.weight) else none
      else some (oldest :: rest, bytes)

def put? (s : Shard) (x : CachedSlice) : Option Shard := do
  let removed ← s.remove? x.query
  let (kept, bytes) ←
    shed? removed.budget (x :: removed.slices).reverse (removed.bytes + x.weight)
  return { removed with slices := kept.reverse, bytes }

/-- Whatever is taken out, dropped or put in next, the counter does not go below zero. -/
structure Unerring (s : Shard) : Prop where
  remove : ∀ q, s.remove? q = some (s.remove q)
  drop : ∀ doomed, s.drop? doomed = some (s.drop doomed)
  put : ∀ x, s.put? x = some (s.put x)

theorem Sound.remove?_eq {s : Shard} (sound : s.Sound) (q : KeySlice) :
    s.remove? q = some (s.remove q) := by
  unfold Shard.remove? Shard.remove
  cases found : s.find? q with
  | none => rfl
  | some old =>
      have covered : old.weight ≤ s.bytes := by
        rw [sound.weighed]
        exact le_sumOf_of_mem _ (List.mem_of_find?_eq_some found)
      simp only [covered, if_true]

theorem Sound.drop?_eq {s : Shard} (sound : s.Sound) (doomed : Bytes → Bool) :
    s.drop? doomed = some (s.drop doomed) := by
  unfold Shard.drop? Shard.drop
  generalize s.slices.filter (fun c => doomed c.query.key) = gone
  induction gone generalizing s with
  | nil => rfl
  | cons c rest ih =>
      rw [List.foldlM_cons, sound.remove?_eq, Option.bind_eq_bind, Option.bind_some,
        List.foldl_cons]
      exact ih (sound.remove c.query)

theorem shed?_eq (budget : Nat) (slices : List CachedSlice) {bytes : Nat}
    (weighed : bytes = sumOf CachedSlice.weight slices) :
    shed? budget slices bytes = some (shed budget slices bytes) := by
  induction slices generalizing bytes with
  | nil => rfl
  | cons oldest rest ih =>
      simp only [sumOf] at weighed
      have covered : oldest.weight ≤ bytes := by omega
      have less : bytes - oldest.weight = sumOf CachedSlice.weight rest := by omega
      simp only [shed?, shed, covered, if_true, ih less]
      split <;> rfl

/-- With a new slice in front, the counter is what the slices weigh. -/
theorem Sound.weighed_cons {s : Shard} (sound : s.Sound) (x : CachedSlice) :
    (s.remove x.query).bytes + x.weight =
      sumOf CachedSlice.weight (x :: (s.remove x.query).slices).reverse := by
  rw [sumOf_reverse, (sound.remove x.query).weighed]
  exact Nat.add_comm ..

theorem Sound.put?_eq {s : Shard} (sound : s.Sound) (x : CachedSlice) :
    s.put? x = some (s.put x) := by
  rw [Shard.put?, sound.remove?_eq, Option.bind_eq_bind, Option.bind_some,
    shed?_eq _ _ (sound.weighed_cons x)]
  rfl

theorem Sound.unerring {s : Shard} (sound : s.Sound) : s.Unerring :=
  ⟨sound.remove?_eq, sound.drop?_eq, sound.put?_eq⟩

/-! ## Making room -/

/-- The new slice stands first.  Of the others the least recently used are gone, and they are
as few as the budget allows. -/
structure MadeRoom (s s' : Shard) (x : CachedSlice) (evicted : List CachedSlice) : Prop where
  slices : ∃ kept, s.without x.query = kept ++ evicted ∧ s'.slices = x :: kept
  least : ∀ kept more, s.without x.query = kept ++ more →
    (x.weight + sumOf CachedSlice.weight kept ≤ s.budget ↔ evicted.length ≤ more.length)

/-- Shedding drops the shortest front of the list that lets the rest fit. -/
theorem shed_least (budget : Nat) (slices : List CachedSlice) {bytes : Nat}
    (weighed : bytes = sumOf CachedSlice.weight slices) :
    ∃ gone, slices = gone ++ (shed budget slices bytes).1 ∧
      ∀ front rest, slices = front ++ rest →
        (sumOf CachedSlice.weight rest ≤ budget ↔ gone.length ≤ front.length) := by
  induction slices generalizing bytes with
  | nil =>
      refine ⟨[], rfl, fun front rest whole => ?_⟩
      obtain ⟨rfl, rfl⟩ := List.nil_eq_append_iff.1 whole
      simp [sumOf]
  | cons oldest others ih =>
      simp only [sumOf] at weighed
      simp only [shed]
      split
      · rename_i exceeds
        have lighter : bytes - oldest.weight = sumOf CachedSlice.weight others := by omega
        obtain ⟨gone, split, least⟩ := ih lighter
        refine ⟨oldest :: gone, congrArg (oldest :: ·) split, fun front rest whole => ?_⟩
        cases front with
        | nil =>
            obtain rfl := whole
            simp only [sumOf, List.length_cons, List.length_nil]
            omega
        | cons first front =>
            obtain ⟨rfl, shorter⟩ := List.cons.inj whole
            rw [least front rest shorter, List.length_cons, List.length_cons]
            omega
      · rename_i fits
        refine ⟨[], rfl, fun front rest whole => ?_⟩
        have total := congrArg (sumOf CachedSlice.weight) whole
        rw [sumOf_append] at total
        simp only [sumOf] at total
        simp only [List.length_nil, Nat.zero_le, iff_true]
        omega

/-- A fill that fits the budget makes room for itself, and no more than that. -/
theorem madeRoom_put {s : Shard} (sound : s.Sound) {x : CachedSlice} (fits : x.weight ≤ s.budget) :
    ∃ evicted, s.MadeRoom (s.put x) x evicted := by
  have others := s.slices_remove x.query
  have budget := s.budget_remove x.query
  have weighed := sound.weighed_cons x
  rw [others, List.reverse_cons] at weighed
  have last := getLast?_shed (s.without x.query).reverse fits weighed
  obtain ⟨gone, split, least⟩ := shed_least s.budget _ weighed
  have shape : (s.put x).slices = (shed s.budget ((s.without x.query).reverse ++ [x])
      ((s.remove x.query).bytes + x.weight)).1.reverse := by
    rw [← List.reverse_cons, ← others, ← budget]
    rfl
  obtain ⟨left, ends⟩ := List.getLast?_eq_some_iff.1 last
  rw [ends] at shape split
  rw [← List.append_assoc] at split
  have parts : (s.without x.query).reverse = gone ++ left := List.append_cancel_right split
  refine ⟨gone.reverse, ⟨left.reverse, ?_, ?_⟩, ?_⟩
  · rw [← List.reverse_append, ← parts, List.reverse_reverse]
  · rw [shape, List.reverse_append, List.reverse_singleton]
    rfl
  · intro kept more whole
    have turned : (s.without x.query).reverse ++ [x] = more.reverse ++ (x :: kept).reverse := by
      rw [whole, List.reverse_append, List.reverse_cons, List.append_assoc]
    have length : more.length = more.reverse.length := List.length_reverse.symm
    rw [List.length_reverse, length, ← least _ _ turned, sumOf_reverse]
    rfl

end Shard

namespace SliceCache

instance (c : SliceCache) (q : KeySlice) (entries : List Entry) (generation : Nat) :
    Decidable (c.Admits q entries generation) :=
  inferInstanceAs (Decidable (_ ∧ _ ∧ ∃ s ∈ c.shards[c.shardOf q.key]?,
    weightOf q entries ≤ s.budget))

variable {c : SliceCache}

/-! ## The order of last use -/

/-- The queries to a shard in the order of their last use, the most recent first. -/
def recency (c : SliceCache) (used : List KeySlice) (i : Nat) : List KeySlice :=
  (used.reverse.filter fun q => c.shardOf q.key = i).eraseDups

theorem recency_concat (c : SliceCache) (used : List KeySlice) (q : KeySlice) (i : Nat) :
    c.recency (used ++ [q]) i =
      if c.shardOf q.key = i then q :: (c.recency used i).filter (fun q' => !q' == q)
      else c.recency used i := by
  rw [recency, List.reverse_append, List.reverse_singleton, List.singleton_append]
  split
  · rename_i here
    rw [List.filter_cons_of_pos (by simpa using here), List.eraseDups_cons, eraseDups_filter]
    rfl
  · rename_i elsewhere
    rw [List.filter_cons_of_neg (by simpa using elsewhere)]
    rfl

theorem recency_of_constants {c' : SliceCache} (constants : c'.constants = c.constants) :
    c'.recency = c.recency := by
  have route : c'.route = c.route := congrArg (fun k => k.2.2.1) constants
  have count : c'.shards.length = c.shards.length := by
    simpa [SliceCache.constants] using congrArg (fun k => k.2.2.2.length) constants
  have place : c'.shardOf = c.shardOf := by
    funext key
    rw [shardOf, shardOf, route, count]
  funext used i
  rw [recency, recency, place]

/-- Each shard lists its slices in the order of their last use. -/
def Recent (c : SliceCache) (used : List KeySlice) : Prop :=
  ∀ (i : Nat) (s : Shard), c.shards[i]? = some s →
    (s.slices.map CachedSlice.query).Sublist (c.recency used i)

/-- Each shard is as it was, or has lost some slices. -/
def Within (c' c : SliceCache) : Prop :=
  ∀ (i : Nat) (s' : Shard), c'.shards[i]? = some s' →
    ∃ s, c.shards[i]? = some s ∧ s'.slices.Sublist s.slices

theorem within_of_shards {c' : SliceCache} (shards : c'.shards = c.shards) : c'.Within c :=
  fun _ s there => ⟨s, shards ▸ there, .refl _⟩

theorem within_map {c' : SliceCache} {f : Shard → Shard}
    (fewer : ∀ s, (f s).slices.Sublist s.slices) (shards : c'.shards = c.shards.map f) :
    c'.Within c := by
  intro i s' there
  rw [shards, List.getElem?_map] at there
  obtain ⟨s, place, rfl⟩ := Option.map_eq_some_iff.1 there
  exact ⟨s, place, fewer s⟩

theorem within_onShard (key : Bytes) {f : Shard → Shard}
    (fewer : ∀ s, (f s).slices.Sublist s.slices) : (c.onShard key f).Within c := by
  intro i s' there
  rw [getElem?_onShard] at there
  split at there
  · obtain ⟨s, place, rfl⟩ := Option.map_eq_some_iff.1 there
    exact ⟨s, place, fewer s⟩
  · exact ⟨s', there, .refl _⟩

theorem within_clearExpired (c : SliceCache) (now : Nat) (resetPenalty : Bool) :
    (c.clearExpired now resetPenalty).2.Within c := by
  refine within_map (fun s => ?_) rfl
  rw [s.slices_drop]
  exact List.filter_sublist

theorem within_countDown (c : SliceCache) (now : Nat) : (c.countDown now).Within c := by
  unfold countDown
  split
  · exact within_of_shards rfl
  · exact c.within_clearExpired now true

theorem within_isExpired (c : SliceCache) (now : Nat) (key : Bytes) :
    (c.isExpired now key).2.Within c := by
  unfold isExpired
  split
  · exact within_of_shards rfl
  · split
    · exact within_of_shards rfl
    · exact c.within_countDown now

theorem within_invalidate (c : SliceCache) (now : Nat) (key : Bytes) :
    (c.invalidate now key).Within c := by
  unfold invalidate
  split
  · exact (c.expire now key).within_countDown now
  · exact within_of_shards rfl

theorem within_invalidateAll (c : SliceCache) : c.invalidateAll.Within c :=
  within_map (f := Shard.clear) (fun s => List.nil_sublist s.slices) rfl

namespace Recent

variable {used : List KeySlice}

theorem within (recent : c.Recent used) {c' : SliceCache} (within : c'.Within c)
    (constants : c'.constants = c.constants) : c'.Recent used := by
  intro i s' there
  obtain ⟨s, place, fewer⟩ := within i s' there
  rw [recency_of_constants constants]
  exact (fewer.map _).trans (recent i s place)

/-- A slice that is put in front is the most recently used one of its shard. -/
theorem use (recent : c.Recent used) {q : KeySlice} {f : Shard → Shard}
    (first : ∀ s, c.shards[c.shardOf q.key]? = some s →
      ∃ x kept, x.query = q ∧ (f s).slices = x :: kept ∧ kept.Sublist (s.without q)) :
    (c.onShard q.key f).Recent (used ++ [q]) := by
  intro i s' there
  rw [recency, shardOf_onShard, ← recency, recency_concat]
  rw [getElem?_onShard] at there
  split at there
  · rename_i here
    obtain ⟨s, found, rfl⟩ := Option.map_eq_some_iff.1 there
    obtain ⟨x, kept, query, shape, fewer⟩ := first s (here ▸ found)
    have others : ((s.without q).map CachedSlice.query).Sublist
        ((c.recency used i).filter fun q' => !q' == q) := by
      have spared := (recent i s found).filter fun q' => !q' == q
      rw [List.filter_map] at spared
      have alike : s.without q =
          s.slices.filter ((fun q' => !q' == q) ∘ CachedSlice.query) :=
        List.filter_congr fun x _ => by simp [beq_eq_decide]
      rwa [alike]
    rw [if_pos here, shape, List.map_cons, query]
    exact ((fewer.map _).trans others).cons_cons q
  · rename_i elsewhere
    rw [if_neg elsewhere]
    exact recent i s' there

/-- Looking for an answer is a use of it if there is one. -/
theorem get (recent : c.Recent used) (now : Nat) (q : KeySlice) :
    (c.get now q).2.Recent (used ++ if (c.get now q).1.isSome then [q] else []) := by
  unfold SliceCache.get
  cases found : (c.shards[c.shardOf q.key]?).bind fun s => s.find? q with
  | none => simpa using recent
  | some x =>
      obtain ⟨shard, there, inShard⟩ := Option.bind_eq_some_iff.1 found
      have query : x.query = q := of_decide_eq_true (List.find?_some inShard :)
      by_cases stale : c.isStale now x = true
      · simp only [stale, if_true, Option.isSome_none, if_false, Bool.false_eq_true,
          List.append_nil]
        refine recent.within (within_onShard q.key fun s => ?_)
          (constants_onShard q.key fun s => s.budget_remove q)
        rw [s.slices_remove]
        exact List.filter_sublist
      · simp only [stale, if_false, Bool.false_eq_true, Option.isSome_some, if_true]
        refine recent.use fun s _ => ⟨x, s.without x.query, query, rfl, ?_⟩
        rw [query]

/-- A fill is a use of the query if it is admitted. -/
theorem put (recent : c.Recent used) (sound : ∀ s ∈ c.shards, s.Sound) (now : Nat)
    (q : KeySlice) (entries : List Entry) (generation : Nat) :
    (c.put now q entries generation).Recent
      (used ++ if c.Admits q entries generation then [q] else []) := by
  have constants := c.constants_put now q entries generation
  by_cases admits : c.Admits q entries generation
  · have shards := put_of_admits admits now
    obtain ⟨-, -, shard, there, fits⟩ := id admits
    rw [if_pos admits]
    refine within (c := c.onShard q.key fun s => s.put ⟨q, entries, now, weightOf q entries⟩)
      (recent.use fun s place => ?_) (within_of_shards shards) ?_
    · obtain rfl := Option.some.inj (there.symm.trans place)
      obtain ⟨evicted, room⟩ := Shard.madeRoom_put (sound shard (List.mem_of_getElem? there))
        (x := ⟨q, entries, now, weightOf q entries⟩) fits
      obtain ⟨kept, split, shape⟩ := room.slices
      exact ⟨_, kept, rfl, shape, split ▸ List.sublist_append_left kept evicted⟩
    · exact constants.trans (constants_onShard q.key fun s => s.budget_put _).symm
  · rw [if_neg admits, List.append_nil, put_of_refused admits]
    exact recent

end Recent

end SliceCache

namespace Clocked

/-- The query that an event uses: its answer is served, or kept. -/
def used (z : Clocked) : SliceEvent → List KeySlice
  | .find q => if (z.slices.get z.time q).1.isSome then [q] else []
  | .fill q entries generation => if z.slices.Admits q entries generation then [q] else []
  | _ => []

/-- The queries that a run uses, in order. -/
def uses : List SliceEvent → Clocked → List KeySlice
  | [], _ => []
  | e :: rest, z => z.used e ++ uses rest (z.step e)

theorem recent_step {z : Clocked} (sound : z.Sound) {used : List KeySlice}
    (recent : z.slices.Recent used) (e : SliceEvent) :
    (z.step e).slices.Recent (used ++ z.used e) := by
  have constants := z.constants_step e
  cases e with
  | find q => exact recent.get z.time q
  | fill q entries generation => exact recent.put sound.shards z.time q entries generation
  | look key =>
      simp only [Clocked.used, List.append_nil]
      exact recent.within (z.slices.within_isExpired z.time key) constants
  | invalidate key =>
      simp only [Clocked.used, List.append_nil]
      exact recent.within (z.slices.within_invalidate z.time key) constants
  | clean =>
      simp only [Clocked.used, List.append_nil]
      exact recent.within (z.slices.within_clearExpired z.time false) constants
  | clear =>
      simp only [Clocked.used, List.append_nil]
      exact recent.within z.slices.within_invalidateAll constants
  | pass ticks =>
      simp only [Clocked.used, List.append_nil]
      exact recent
  | toss coins =>
      simp only [Clocked.used, List.append_nil]
      exact recent

/-- Whatever is done, shards list their slices in the order of their last use. -/
theorem recent_run {z : Clocked} (sound : z.Sound) {used : List KeySlice}
    (recent : z.slices.Recent used) (events : List SliceEvent) :
    (z.run events).slices.Recent (used ++ z.uses events) := by
  induction events generalizing z used with
  | nil =>
      simp only [Clocked.uses, List.append_nil]
      exact recent
  | cons e rest ih =>
      rw [Clocked.uses, ← List.append_assoc]
      exact ih (sound_step sound e) (recent_step sound recent e)

/-- Every slice weighs what its query and its answer make up. -/
def Weighed (z : Clocked) : Prop :=
  ∀ x, z.slices.Keeps x → x.weight = SliceCache.weightOf x.query x.entries

theorem weighed_run {z : Clocked} (sound : z.Sound) (weighed : z.Weighed)
    (events : List SliceEvent) : (z.run events).Weighed := by
  induction events generalizing z with
  | nil => exact weighed
  | cons e rest ih =>
      refine ih (sound_step sound e) fun x kept => ?_
      rcases keeps_step sound kept with old | ⟨q, entries, generation, -, -, rfl⟩
      · exact weighed x old
      · rfl

section Start

variable (shards maxBytes cacheTime cleanWait : Nat) (route : Bytes → Nat)

theorem recent_start : (start shards maxBytes cacheTime cleanWait route).slices.Recent [] := by
  intro i s there
  rw [shards_start] at there
  obtain rfl := List.eq_of_mem_replicate (List.mem_of_getElem? there)
  exact List.nil_sublist _

theorem budgets_run (events : List SliceEvent) :
    let z := (start shards maxBytes cacheTime cleanWait route).run events
    z.slices.shards.length = max shards 1 ∧
      ∀ s ∈ z.slices.shards, s.budget = max (maxBytes / max shards 1) 1 := by
  intro z
  have budgets : z.slices.shards.map Shard.budget =
      List.replicate (max shards 1) (max (maxBytes / max shards 1) 1) := by
    have same := congrArg (fun k => k.2.2.2)
      (constants_run events (start shards maxBytes cacheTime cleanWait route))
    refine Eq.trans same ?_
    show List.map _ (List.replicate _ _) = _
    rw [List.map_replicate]
  constructor
  · simpa using congrArg List.length budgets
  · intro s inShards
    exact List.eq_of_mem_replicate (budgets ▸ List.mem_map_of_mem inShards)

end Start

/-- A shard that keeps nothing but slices of full weight is within its even share, also where
that share is nothing and the budget one byte. -/
theorem bytes_le_share {s : Shard} {share : Nat} (sound : s.Sound)
    (budget : s.budget = max share 1)
    (heavy : ∀ x ∈ s.slices, SliceCache.sliceOverhead ≤ x.weight) : s.bytes ≤ share := by
  have within := sound.within
  cases slices : s.slices with
  | nil =>
      rw [sound.weighed, slices]
      exact Nat.zero_le share
  | cons x rest =>
      have member : x ∈ s.slices := slices ▸ List.mem_cons_self
      have least : 64 ≤ x.weight := heavy x member
      have counted := le_sumOf_of_mem CachedSlice.weight member
      rw [← sound.weighed] at counted
      omega

/-- In every run: the counter of a shard is what its slices weigh, within its budget, and
never goes below zero; its slices stand in the order of their last use; and the cache is
within its bound.  A fill that is admitted is found at once, with the shortest run of least
recently used slices of its shard gone for it; any other fill changes nothing. -/
theorem accounts_are_exact (shards maxBytes cacheTime cleanWait : Nat) (route : Bytes → Nat)
    (events : List SliceEvent) :
    let opened := start shards maxBytes cacheTime cleanWait route
    let z := opened.run events
    (∀ (i : Nat) (s : Shard), z.slices.shards[i]? = some s →
      s.bytes = sumOf (fun x => 64 + x.query.byteSize + Entry.listSize x.entries) s.slices ∧
      s.bytes ≤ s.budget ∧ s.Unerring ∧
      (s.slices.map CachedSlice.query).Sublist (z.slices.recency (opened.uses events) i)) ∧
    z.slices.weight ≤ maxBytes ∧
    ∀ q entries generation,
      let after := z.slices.put z.time q entries generation
      (z.slices.Admits q entries generation → (after.get z.time q).1 = some entries ∧
        ∃ s s' evicted, z.slices.shards[z.slices.shardOf q.key]? = some s ∧
          after.shards = z.slices.shards.set (z.slices.shardOf q.key) s' ∧
          s.MadeRoom s' ⟨q, entries, z.time, SliceCache.weightOf q entries⟩ evicted) ∧
      (¬ z.slices.Admits q entries generation → after = z.slices) := by
  intro opened z
  have sound₀ : opened.Sound := sound_start ..
  have sound : z.Sound := sound_run sound₀ events
  have weighed : z.Weighed :=
    weighed_run sound₀ (fun x kept => absurd kept (not_keeps_start _ _ _ _ _)) events
  have recent := recent_run sound₀ (recent_start shards maxBytes cacheTime cleanWait route) events
  obtain ⟨count, budget⟩ := budgets_run shards maxBytes cacheTime cleanWait route events
  have heavy : ∀ s ∈ z.slices.shards, ∀ x ∈ s.slices, SliceCache.sliceOverhead ≤ x.weight := by
    intro s inShards x member
    rw [weighed x ⟨s, inShards, member⟩, SliceCache.weightOf, Nat.add_assoc]
    exact Nat.le_add_right ..
  refine ⟨?_, ?_, ?_⟩
  · intro i s there
    have inShards := List.mem_of_getElem? there
    have fine := sound.shards s inShards
    refine ⟨?_, fine.within, fine.unerring, recent i s there⟩
    rw [fine.weighed]
    exact sumOf_congr fun x member => weighed x ⟨s, inShards, member⟩
  · have shares : ∀ s ∈ z.slices.shards, s.bytes ≤ maxBytes / max shards 1 := fun s inShards =>
      bytes_le_share (sound.shards s inShards) (budget s inShards) (heavy s inShards)
    calc z.slices.weight ≤ z.slices.shards.length * (maxBytes / max shards 1) := sumOf_le_mul shares
      _ = max shards 1 * (maxBytes / max shards 1) := by rw [count]
      _ ≤ maxBytes := Nat.mul_div_le ..
  · intro q entries generation after
    refine ⟨fun admits => ⟨(sound.get_put admits).1, ?_⟩, SliceCache.put_of_refused⟩
    obtain ⟨-, -, s, there, fits⟩ := id admits
    obtain ⟨evicted, room⟩ := Shard.madeRoom_put (sound.shards s (List.mem_of_getElem? there))
      (x := ⟨q, entries, z.time, SliceCache.weightOf q entries⟩) fits
    refine ⟨s, _, evicted, there, ?_, room⟩
    refine (SliceCache.put_of_admits admits _).trans (List.ext_getElem? fun i => ?_)
    rw [SliceCache.getElem?_onShard, List.getElem?_set]
    split
    · rename_i here
      rw [← here, there, if_pos (List.getElem?_eq_some_iff.1 there).1]
      rfl
    · rfl

/-- Two answers fit.  The one to row 2 came later, but row 1 was read again. -/
def twoKept : List SliceEvent :=
  [.fill (firstOf 1) [⟨[5], [1], none⟩] 0, .fill (firstOf 2) [⟨[5], [2], none⟩] 0,
    .find (firstOf 1)]

/-- A third answer takes the place of the one to row 2. -/
theorem third_answer_evicts_second :
    let z := (start 1 600 0 0 fun _ => 0).run twoKept
    let after := z.slices.put z.time (firstOf 3) [⟨[5], [3], none⟩] 0
    z.slices.weight = 488 ∧ (after.get 0 (firstOf 3)).1 = some [⟨[5], [3], none⟩] ∧
      ∃ s s' evicted, z.slices.shards = [s] ∧ after.shards = [s'] ∧
        s.MadeRoom s' ⟨firstOf 3, [⟨[5], [3], none⟩], 0, 244⟩ evicted ∧
        evicted.map CachedSlice.query = [firstOf 2] := by
  intro z after
  obtain ⟨-, -, fills⟩ := accounts_are_exact 1 600 0 0 (fun _ => 0) twoKept
  obtain ⟨present, s, s', evicted, place, shards, room⟩ :=
    (fills (firstOf 3) [⟨[5], [3], none⟩] 0).1 (by decide)
  let first : CachedSlice := ⟨firstOf 1, [⟨[5], [1], none⟩], 0, 244⟩
  let second : CachedSlice := ⟨firstOf 2, [⟨[5], [2], none⟩], 0, 244⟩
  obtain rfl : ⟨[first, second], 488, 600⟩ = s := Option.some.inj place
  have least_gone := (room.least [first] [second] rfl).1 (by decide)
  have some_gone := mt (room.least [first, second] [] rfl).2 (by decide)
  have one_gone : evicted.length = 1 := by
    simp only [List.length_cons, List.length_nil] at least_gone some_gone
    omega
  obtain ⟨kept, split, -⟩ := room.slices
  obtain ⟨-, rfl⟩ :=
    List.append_inj' (show [first] ++ [second] = kept ++ evicted from split) one_gone.symm
  exact ⟨by decide, present, _, s', _, rfl, shards, room, rfl⟩

end Clocked

end PropertyGraph
