/-
# Proofs.ServedSlices -- what is served without asking the table, and that looking is harmless

A query is served from memory when an answer to it is kept, not for its full time yet, and
no mark of its key stands: `StoreCache.served?`.  Consulting a cache moves slices about, may
drop stale ones, takes lapsed marks out and may set off a clean-up; none of it changes what
is served (`StoreCache.consult_spec`).

* A clean-up takes a mark out only together with all slices of its key
  (`SliceCache.served?_clearExpired`).
* A read therefore answers what is served, or else what the table says
  (`StoreCache.requestSlice_exact`), and reads of several rows do not get into each other's way
  (`StoreCache.gathers_gather`, `StoreCache.requestSlices_exact`).
* `StoreCache.rows_read_together`: a read of several rows answers each key as a read of that
  row alone would, and asks the table for the rows held back one by one and for all that is
  not served at once.
-/
import PropertyGraph.Proofs.CachedReads

namespace PropertyGraph

set_option autoImplicit false

namespace Shard

theorem find?_remove (s : Shard) (q q' : KeySlice) :
    (s.remove q).find? q' = if q' = q then none else s.find? q' := by
  by_cases same : q' = q
  · rw [if_pos same, find?, List.find?_eq_none]
    intro x member
    have apart := (mem_remove.1 member).2
    rw [same]
    simpa using apart
  · rw [if_neg same]
    unfold remove
    split
    · simp only [find?, without, List.find?_filter]
      congr 1
      funext x
      by_cases here : x.query = q' <;> simp [here, same]
    · rfl

theorem find?_touch {s : Shard} {x : CachedSlice} (there : s.find? x.query = some x)
    (q : KeySlice) : (s.touch x).find? q = s.find? q := by
  by_cases same : x.query = q
  · subst same
    rw [there, touch, find?, List.find?_cons_of_pos (by simp)]
  · rw [touch, find?, List.find?_cons_of_neg (by simpa using same)]
    simp only [find?, without, List.find?_filter]
    congr 1
    funext y
    by_cases here : y.query = q
    · simp [here, Ne.symm same]
    · simp [here]

theorem find?_drop (s : Shard) (doomed : Bytes → Bool) (q : KeySlice) :
    (s.drop doomed).find? q = if doomed q.key = true then none else s.find? q := by
  by_cases picked : doomed q.key = true
  · rw [if_pos picked, find?, List.find?_eq_none]
    intro x member here
    have query : x.query = q := of_decide_eq_true here
    have spared := (mem_drop.1 member).2
    rw [query, picked] at spared
    cases spared
  · rw [if_neg picked, drop]
    have apart : ∀ x ∈ s.slices.filter fun x => doomed x.query.key, q ≠ x.query := by
      rintro x member rfl
      exact picked (List.mem_filter.1 member).2
    generalize s.slices.filter (fun x => doomed x.query.key) = gone at apart
    induction gone generalizing s with
    | nil => rfl
    | cons x rest ih =>
        obtain ⟨here, later⟩ := List.forall_mem_cons.1 apart
        rw [List.foldl_cons, ih _ later, find?_remove, if_neg here]

end Shard

namespace SliceCache

/-- The key was invalidated, and that has not lapsed. -/
def marked (c : SliceCache) (now : Nat) (key : Bytes) : Bool :=
  (c.expiry? key).any fun e => !e.lapsed now

/-- The kept answer, unless it was kept for its full time. -/
def fresh? (c : SliceCache) (now : Nat) (q : KeySlice) : Option CachedSlice :=
  ((c.shards[c.shardOf q.key]?).bind fun s => s.find? q).filter fun x => !c.isStale now x

/-- What is answered without the table. -/
def served? (c : SliceCache) (now : Nat) (q : KeySlice) : Option (List Entry) :=
  if c.marked now q.key then none else (c.fresh? now q).map CachedSlice.entries

theorem served?_eq {c c' : SliceCache} {now : Nat} {q : KeySlice}
    (marked : c'.marked now q.key = c.marked now q.key)
    (fresh : c'.fresh? now q = c.fresh? now q) : c'.served? now q = c.served? now q := by
  rw [served?, served?, marked, fresh]

theorem fresh?_onShard {c : SliceCache} {now : Nat} {key : Bytes} {f : Shard → Shard}
    {q : KeySlice}
    (same : ∀ s, c.shards[c.shardOf key]? = some s →
      ((f s).find? q).filter (fun x => !c.isStale now x) =
        (s.find? q).filter fun x => !c.isStale now x) :
    (c.onShard key f).fresh? now q = c.fresh? now q := by
  have place : (c.onShard key f).shardOf q.key = c.shardOf q.key := by
    simp [shardOf, onShard]
  rw [fresh?, fresh?, place]
  simp only [onShard, List.getElem?_modify]
  by_cases here : c.shardOf key = c.shardOf q.key
  · cases there : c.shards[c.shardOf q.key]? with
    | none => rfl
    | some s =>
        simp only [here, if_true, Option.map_eq_map, Option.map_some, Option.bind_some]
        exact same s (here ▸ there)
  · cases c.shards[c.shardOf q.key]? with
    | none => rfl
    | some s =>
        simp only [here, if_false, Option.map_eq_map, Option.map_some, Option.bind_some]
        rfl

variable {c : SliceCache} {now : Nat}

/-- A clean-up takes the mark out, and the slices of its key with it. -/
def ripe (c : SliceCache) (now : Nat) (e : ExpiredKey) : Bool :=
  !e.lapsed now && decide (c.cleanWait ≤ now - e.since)

/-- The keys that a clean-up picks are those whose marks are ripe. -/
theorem any_ripe (ordered : Sorted.Ascending Prod.fst c.expired) (key : Bytes) :
    (((c.expired.filter fun e => !e.2.lapsed now).filter fun e =>
        decide (c.cleanWait ≤ now - e.2.since)).any fun e => e.1 == key) =
      (c.expiry? key).any (c.ripe now) := by
  rw [Bool.eq_iff_iff, List.any_eq_true, Option.any_eq_true]
  constructor
  · rintro ⟨⟨key', e⟩, inRipe, here⟩
    obtain rfl : key' = key := beq_iff_eq.1 here
    obtain ⟨standing, waited⟩ := List.mem_filter.1 inRipe
    obtain ⟨member, stands⟩ := List.mem_filter.1 standing
    exact ⟨e, (expiry?_eq_some_iff ordered).2 member, Bool.and_eq_true_iff.2 ⟨stands, waited⟩⟩
  · rintro ⟨e, found, ripe⟩
    obtain ⟨stands, waited⟩ := Bool.and_eq_true_iff.1 ripe
    have member := (expiry?_eq_some_iff ordered).1 found
    exact ⟨(key, e), List.mem_filter.2 ⟨List.mem_filter.2 ⟨member, stands⟩, waited⟩,
      beq_self_eq_true key⟩

theorem shards_clearExpired (ordered : Sorted.Ascending Prod.fst c.expired)
    (resetPenalty : Bool) : (c.clearExpired now resetPenalty).2.shards =
      c.shards.map fun s => s.drop fun key => (c.expiry? key).any (c.ripe now) := by
  simp only [← any_ripe ordered]
  rfl

theorem keeps_clearExpired (ordered : Sorted.Ascending Prod.fst c.expired)
    {resetPenalty : Bool} {x : CachedSlice} (kept : (c.clearExpired now resetPenalty).2.Keeps x) :
    c.Keeps x ∧ (c.expiry? x.query.key).any (c.ripe now) = false := by
  obtain ⟨s, inShards, member⟩ := kept
  rw [shards_clearExpired ordered] at inShards
  obtain ⟨s, there, rfl⟩ := List.mem_map.1 inShards
  obtain ⟨member, spared⟩ := Shard.mem_drop.1 member
  exact ⟨⟨s, there, member⟩, spared⟩

theorem expiry?_clearExpired (ordered : Sorted.Ascending Prod.fst c.expired)
    (resetPenalty : Bool) (key : Bytes) : (c.clearExpired now resetPenalty).2.expiry? key =
      (c.expiry? key).filter fun e => !e.lapsed now && !c.ripe now e := by
  have expired : (c.clearExpired now resetPenalty).2.expired =
      (c.expired.filter fun e => !e.2.lapsed now).filter fun e =>
        !(c.expiry? e.1).any (c.ripe now) := by
    simp only [← any_ripe ordered]
    rfl
  rw [expiry?, expired, Sorted.find?_filter (ordered.filter _), Sorted.find?_filter ordered]
  cases found : Sorted.find? Prod.fst key c.expired with
  | none => simp [expiry?, found]
  | some entry =>
      have same : key = entry.1 := Std.LawfulEqOrd.eq_of_compare (Sorted.mem_of_find? found).2
      have entered : c.expiry? entry.1 = some entry.2 := by
        rw [← same, expiry?, found]
        rfl
      rw [same, entered]
      by_cases lapsed : entry.2.lapsed now = true
      · simp [Option.filter, lapsed]
      · by_cases ripe : c.ripe now entry.2 = true <;> simp [Option.filter, lapsed, ripe, entered]

theorem fresh?_clearExpired (ordered : Sorted.Ascending Prod.fst c.expired)
    (resetPenalty : Bool) (q : KeySlice) : (c.clearExpired now resetPenalty).2.fresh? now q =
      if (c.expiry? q.key).any (c.ripe now) = true then none else c.fresh? now q := by
  have place : (c.clearExpired now resetPenalty).2.shardOf q.key = c.shardOf q.key := by
    simp [shardOf, clearExpired]
  rw [fresh?, place, shards_clearExpired ordered, List.getElem?_map, fresh?]
  cases c.shards[c.shardOf q.key]? with
  | none => simp
  | some s =>
      simp only [Option.map_some, Option.bind_some, Shard.find?_drop]
      split <;> rfl

/-- A clean-up takes a mark out only with all slices of its key. -/
theorem served?_clearExpired (ordered : Sorted.Ascending Prod.fst c.expired)
    (resetPenalty : Bool) (q : KeySlice) :
    (c.clearExpired now resetPenalty).2.served? now q = c.served? now q := by
  rw [served?, served?, marked, marked, fresh?_clearExpired ordered,
    expiry?_clearExpired ordered]
  cases c.expiry? q.key with
  | none => simp
  | some e =>
      by_cases lapsed : e.lapsed now = true
      · simp [Option.filter, ripe, lapsed]
      · by_cases ripe : c.ripe now e = true <;> simp [Option.filter, lapsed, ripe]

theorem served?_countDown (ordered : Sorted.Ascending Prod.fst c.expired) (q : KeySlice) :
    (c.countDown now).served? now q = c.served? now q := by
  unfold countDown
  split
  · rfl
  · exact served?_clearExpired ordered true q

theorem isExpired_fst (key : Bytes) : (c.isExpired now key).1 = c.marked now key := by
  unfold isExpired marked expiry?
  cases Sorted.find? Prod.fst key c.expired with
  | none => rfl
  | some entry =>
      obtain ⟨key', e⟩ := entry
      by_cases lapsed : e.lapsed now = true <;> simp [lapsed]

theorem served?_isExpired (ordered : Sorted.Ascending Prod.fst c.expired) (key : Bytes)
    (q : KeySlice) : (c.isExpired now key).2.served? now q = c.served? now q := by
  unfold isExpired
  cases found : Sorted.find? Prod.fst key c.expired with
  | none => rfl
  | some entry =>
      obtain ⟨key', e⟩ := entry
      by_cases lapsed : e.lapsed now = true
      · simp only [lapsed, if_true]
        refine served?_eq ?_ rfl
        simp only [marked, expiry?, Sorted.find?_erase ordered]
        by_cases here : compare q.key key = .eq
        · obtain rfl := Std.LawfulEqOrd.eq_of_compare here
          simp [found, lapsed]
        · simp [here]
      · simp only [lapsed, if_false, Bool.false_eq_true]
        exact served?_countDown ordered q

/-- A key found unmarked has lost a lapsed mark at most. -/
theorem fresh?_isExpired {key : Bytes} (unmarked : c.marked now key = false) (q : KeySlice) :
    (c.isExpired now key).2.fresh? now q = c.fresh? now q := by
  rw [← isExpired_fst] at unmarked
  unfold isExpired at unmarked ⊢
  cases found : Sorted.find? Prod.fst key c.expired with
  | none => rfl
  | some entry =>
      rw [found] at unmarked
      obtain ⟨key', e⟩ := entry
      by_cases lapsed : e.lapsed now = true
      · simp only [lapsed, if_true]
        rfl
      · simp [lapsed] at unmarked

theorem get_fst (q : KeySlice) :
    (c.get now q).1 = (c.fresh? now q).map CachedSlice.entries := by
  unfold get fresh?
  cases (c.shards[c.shardOf q.key]?).bind fun s => s.find? q with
  | none => rfl
  | some x => by_cases stale : c.isStale now x = true <;> simp [Option.filter, stale]

/-- A query whose key is not marked is served what is found. -/
theorem get_of_unmarked {c' : SliceCache} {q : KeySlice}
    (looked : c.isExpired now q.key = (false, c')) : (c'.get now q).1 = c.served? now q := by
  have unmarked : c.marked now q.key = false := by rw [← isExpired_fst, looked]
  have fresh := fresh?_isExpired unmarked q
  rw [looked] at fresh
  rw [get_fst, fresh, served?, unmarked]
  rfl

theorem expired_get (q : KeySlice) : (c.get now q).2.expired = c.expired := by
  unfold get
  split
  · rfl
  · split <;> rfl

/-- Looking for an answer drops none that could be served. -/
theorem fresh?_get (q q' : KeySlice) : (c.get now q).2.fresh? now q' = c.fresh? now q' := by
  unfold get
  cases found : (c.shards[c.shardOf q.key]?).bind fun s => s.find? q with
  | none => rfl
  | some x =>
      have query : x.query = q := by
        obtain ⟨s, -, inShard⟩ := Option.bind_eq_some_iff.1 found
        exact of_decide_eq_true (List.find?_some inShard :)
      by_cases stale : c.isStale now x = true
      · simp only [stale, if_true]
        refine fresh?_onShard fun s there => ?_
        rw [there, Option.bind_some] at found
        rw [Shard.find?_remove]
        split
        · rename_i same
          simp [same, found, Option.filter, stale]
        · rfl
      · simp only [stale, if_false, Bool.false_eq_true]
        refine fresh?_onShard fun s there => ?_
        rw [there, Option.bind_some, ← query] at found
        rw [Shard.find?_touch found]

theorem marked_get (q : KeySlice) (key : Bytes) :
    (c.get now q).2.marked now key = c.marked now key := by
  rw [marked, expiry?, expired_get, marked, expiry?]

theorem served?_get (q q' : KeySlice) : (c.get now q).2.served? now q' = c.served? now q' :=
  served?_eq (c.marked_get q q'.key) (c.fresh?_get q q')

theorem ordered_countDown (ordered : Sorted.Ascending Prod.fst c.expired) :
    Sorted.Ascending Prod.fst (c.countDown now).expired := by
  unfold countDown
  split
  · exact ordered
  · exact (ordered.filter _).filter _

theorem ordered_isExpired (ordered : Sorted.Ascending Prod.fst c.expired) (key : Bytes) :
    Sorted.Ascending Prod.fst (c.isExpired now key).2.expired := by
  unfold isExpired
  split
  · exact ordered
  · split
    · exact ordered.erase key
    · exact ordered_countDown ordered

end SliceCache

namespace StoreCache

/-- What is answered without the table. -/
def served? (c : StoreCache) (q : KeySlice) : Option (List Entry) :=
  c.slices.bind fun s => s.served? c.time q

/-- Nothing is about to interrupt, and the table of expired keys is one. -/
structure Calm (c : StoreCache) : Prop where
  quiet : c.interruption = none
  ordered : ∀ s, c.slices = some s → Sorted.Ascending Prod.fst s.expired

/-- The cache serves what it did, and is as calm. -/
structure Alike (c c' : StoreCache) : Prop where
  calm : c'.Calm
  served : ∀ q, c'.served? q = c.served? q

variable {c c' : StoreCache} {t : Table}

theorem Alike.refl (calm : c.Calm) : Alike c c := ⟨calm, fun _ => rfl⟩

theorem Alike.trans {c'' : StoreCache} (first : Alike c c') (later : Alike c' c'') :
    Alike c c'' := ⟨later.calm, fun q => (later.served q).trans (first.served q)⟩

theorem alike_record (calm : c.Calm) (event : CacheEvent) : Alike c (c.record event) :=
  ⟨⟨calm.quiet, calm.ordered⟩, fun _ => rfl⟩

theorem alike_monitor (calm : c.Calm) (monitor : ReadMonitor) : Alike c { c with monitor } :=
  ⟨⟨calm.quiet, calm.ordered⟩, fun _ => rfl⟩

/-- The kept slices are replaced by others that serve the same. -/
theorem alike_keep (calm : c.Calm) {s s' : SliceCache} (kept : c.slices = some s)
    (ordered : Sorted.Ascending Prod.fst s'.expired)
    (serves : ∀ q, s'.served? c.time q = s.served? c.time q) :
    Alike c { c with slices := some s' } := by
  refine ⟨⟨calm.quiet, fun _ same => Option.some.inj same ▸ ordered⟩, fun q => ?_⟩
  simp only [served?, kept, Option.bind_some, serves]

/-- A query is answered from memory exactly if it is served, and stays so. -/
theorem consult_spec (calm : c.Calm) {q : KeySlice} {consultation : Consultation}
    {after : StoreCache} (known : c.consult q = (consultation, after)) :
    Alike c after ∧ after.monitor = c.monitor ∧
      ∀ entries, consultation = .hit entries ↔ c.served? q = some entries := by
  have goes := c.consult_goes q
  rw [known] at goes
  -- what looking for the mark and for an answer leaves of the kept slices
  have serves : ∀ {s s' : SliceCache} {marked : Bool}, c.slices = some s →
      s.isExpired c.time q.key = (marked, s') → Sorted.Ascending Prod.fst s'.expired ∧
        ∀ q', s'.served? c.time q' = s.served? c.time q' := by
    intro s s' marked kept looked
    have ordered := calm.ordered s kept
    obtain rfl : (s.isExpired c.time q.key).2 = s' := congrArg Prod.snd looked
    exact ⟨SliceCache.ordered_isExpired ordered q.key,
      SliceCache.served?_isExpired ordered q.key⟩
  have found : ∀ {s s' s'' : SliceCache} {got : Option (List Entry)}, c.slices = some s →
      s.isExpired c.time q.key = (false, s') → s'.get c.time q = (got, s'') →
      Alike c { c with slices := some s'' } ∧ c.served? q = got := by
    intro s s' s'' got kept looked found
    obtain ⟨ordered, same⟩ := serves kept looked
    obtain rfl : (s'.get c.time q).1 = got := congrArg Prod.fst found
    obtain rfl : (s'.get c.time q).2 = s'' := congrArg Prod.snd found
    rw [SliceCache.get_of_unmarked looked]
    refine ⟨alike_keep calm kept ?_ fun q' => ?_, by rw [served?, kept, Option.bind_some]⟩
    · rw [SliceCache.expired_get]
      exact ordered
    · rw [SliceCache.served?_get, same]
  cases goes with
  | off disabled => exact ⟨.refl calm, rfl, by simp [served?, disabled]⟩
  | @marked s s' kept looked =>
      obtain ⟨ordered, same⟩ := serves kept looked
      have marked : s.marked c.time q.key = true := by rw [← SliceCache.isExpired_fst, looked]
      exact ⟨alike_keep calm kept ordered same, rfl,
        by simp [served?, kept, SliceCache.served?, marked]⟩
  | hit kept looked got =>
      obtain ⟨alike, own⟩ := found kept looked got
      exact ⟨alike, rfl, by simp [own]⟩
  | absent kept looked got =>
      obtain ⟨alike, own⟩ := found kept looked got
      exact ⟨alike, rfl, by simp [own]⟩

/-! ## What a reader gets -/

/-- The answer to a reader that holds back the changes `pending`. -/
def reply (c : StoreCache) (t : Table) (pending : Option Mutation) (q : KeySlice) : List Entry :=
  match pending with
  | some m => m.overlay (t.readSlice q.unlimited) q.slice
  | none => (c.served? q).getD (t.readSlice q)

/-- The row has to be asked for, without changes held back. -/
def absent (c : StoreCache) (pending : Option Mutation) (q : KeySlice) : Bool :=
  pending.isNone && (c.served? q).isNone

theorem reply_of_absent {pending : Option Mutation} {q : KeySlice}
    (absent : c.absent pending q = true) : c.reply t pending q = t.readSlice q := by
  obtain ⟨unheld, unserved⟩ := Bool.and_eq_true_iff.1 absent
  simp [reply, Option.isNone_iff_eq_none.1 unheld, Option.isNone_iff_eq_none.1 unserved]

/-- What a read of one row asks of the table. -/
def wantedRead (c : StoreCache) (pending : Option Mutation) (q : KeySlice) : List TableRead :=
  match pending with
  | some _ => [.slice q.unlimited]
  | none => if (c.served? q).isNone then [.slice q] else []

/-- A request answers what there is to answer, unless the table has to be asked and refuses.
What may be kept is an answer of the table to a query that was not served. -/
theorem requestSlice_exact (calm : c.Calm) (t : Table) (pending : Option Mutation)
    (q : KeySlice) :
    let request := c.requestSlice granted t pending q
    request.1 = unlessRefused
      (if c.wantedRead pending q = [] then none else c.monitor.verdict none)
      (c.reply t pending q) ∧
    request.2.2.monitor.log = c.monitor.log ++ c.wantedRead pending q ∧
    ∀ f ∈ request.2.1, f.query = q ∧ f.entries = t.readSlice q ∧ c.absent pending q = true ∧
      request.1 = .ok f.entries := by
  have goes := c.requestSlice_goes granted t pending q
  have counted := alike_record calm (.retrieval 1)
  dsimp only
  generalize c.requestSlice granted t pending q = request at goes ⊢
  cases goes with
  | overlaid held asked =>
      subst held
      rw [readPending_of_quiet (alike_record counted.calm (.miss 1)).calm.quiet] at asked
      obtain ⟨rfl, rfl⟩ := Prod.mk.inj asked
      exact ⟨rfl, ReadMonitor.log_record _ _, nofun⟩
  | served unheld known =>
      subst unheld
      obtain ⟨-, monitor, hits⟩ := consult_spec counted.calm known
      have served : c.served? q = some _ := (hits _).1 rfl
      have asks : c.wantedRead none q = [] := by simp [wantedRead, served]
      rw [asks, if_pos rfl, reply, served]
      exact ⟨rfl, (congrArg ReadMonitor.log monitor).trans (List.append_nil _).symm, nofun⟩
  | missed unheld known unserved asked =>
      subst unheld
      obtain ⟨consulted, monitor, hits⟩ := consult_spec counted.calm known
      have none : c.served? q = none :=
        Option.eq_none_iff_forall_not_mem.2 fun _ served => unserved _ ((hits _).2 served)
      have asks : c.wantedRead .none q = [.slice q] := by simp [wantedRead, none]
      rw [ask_of_quiet (alike_record consulted.calm (.miss 1)).calm.quiet] at asked
      obtain ⟨rfl, rfl⟩ := Prod.mk.inj asked
      rw [asks, if_neg (List.cons_ne_nil _ _), reply, none, ← show _ = c.monitor from monitor]
      refine ⟨rfl, ReadMonitor.log_record _ _, fun f member => ?_⟩
      obtain ⟨-, ended, query⟩ := Consultation.mem_fills.1 member
      exact ⟨query, (unlessRefused_eq_ok_iff.1 ended).2.symm, by simp [absent, none], ended⟩

/-- What is noted of a row after a consultation: it is answered if it is served, and else
missing. -/
theorem note_of_consulted {pending : Bytes → Option Mutation} {slice : Slice} {key : Bytes}
    {consultation : Consultation} (g : Gathering) (unheld : pending key = none)
    (hits : ∀ entries, consultation = .hit entries ↔ c.served? ⟨key, slice⟩ = some entries) :
    (g.note key consultation).missing =
      g.missing ++ [key].filter (fun key => c.absent (pending key) ⟨key, slice⟩) ∧
    (g.note key consultation).found =
      g.found ++ ([key].filter fun key => !c.absent (pending key) ⟨key, slice⟩).map
        fun key => (key, c.reply t (pending key) ⟨key, slice⟩) := by
  cases served : c.served? ⟨key, slice⟩ with
  | some entries =>
      obtain rfl := (hits entries).2 served
      simp [Gathering.note, absent, unheld, served, reply]
  | none =>
      cases consultation with
      | hit entries =>
          have served' := (hits entries).1 rfl
          rw [served] at served'
          cases served'
      | bypass => simp [Gathering.note, absent, unheld, served]
      | absent generation => simp [Gathering.note, absent, unheld, served]

/-- Reads of rows with changes held back, one by one. -/
def heldReads (pending : Bytes → Option Mutation) (slice : Slice) (keys : List Bytes) :
    List TableRead :=
  (keys.filter fun key => (pending key).isSome).map fun key => .slice ⟨key, slice.unlimited⟩

/-- How going through keys may end: the rows held back were asked for one by one, up to the
first refusal.  With none, all that is at hand was answered and the rest is left to be asked
for. -/
def Gathers (c : StoreCache) (t : Table) (pending : Bytes → Option Mutation) (slice : Slice)
    (keys : List Bytes) (g : Gathering) (before : StoreCache)
    (result : Outcome Gathering × StoreCache) : Prop :=
  ∃ sent, sent <+: heldReads pending slice keys ∧
    result.2.monitor.log = before.monitor.log ++ sent ∧
    (before.monitor.failing = 0 ∨ heldReads pending slice keys = [] →
      ∃ g', result.1 = .ok g') ∧
    ∀ g', result.1 = .ok g' →
      sent = heldReads pending slice keys ∧
      Alike c result.2 ∧
      result.2.monitor.verdict none = before.monitor.verdict none ∧
      (∀ key ∈ keys, (pending key).isSome → before.monitor.failing = 0) ∧
      g'.missing = g.missing ++ keys.filter (fun key => c.absent (pending key) ⟨key, slice⟩) ∧
      g'.found = g.found ++ (keys.filter fun key => !c.absent (pending key) ⟨key, slice⟩).map
        fun key => (key, c.reply t (pending key) ⟨key, slice⟩)

theorem gathers_gather (t : Table) (pending : Bytes → Option Mutation) (slice : Slice)
    (keys : List Bytes) {g : Gathering} {before : StoreCache} (alike : Alike c before) :
    Gathers c t pending slice keys g before (gather granted t pending slice keys g before) := by
  have goes := gather_goes granted t pending slice keys g before
  generalize gather granted t pending slice keys g before = result at goes ⊢
  have willing_iff := @ReadMonitor.verdict_none_iff
  induction goes with
  | done =>
      refine ⟨[], List.prefix_rfl, by simp, fun _ => ⟨_, rfl⟩, ?_⟩
      intro g' same
      obtain rfl := Except.ok.inj same
      exact ⟨rfl, alike, rfl, by simp, by simp, by simp⟩
  | @refused key rest g before c' m fault held asked =>
      have wanted : heldReads pending slice (key :: rest) =
          .slice ⟨key, slice.unlimited⟩ :: heldReads pending slice rest := by
        simp [heldReads, held]
      rw [readPending_of_quiet alike.calm.quiet] at asked
      obtain ⟨ended, rfl⟩ := Prod.mk.inj asked
      have refused : before.monitor.verdict none = some fault :=
        unlessRefused_eq_error_iff.1 ended
      refine ⟨[.slice ⟨key, slice.unlimited⟩], wanted ▸ ⟨_, rfl⟩, ReadMonitor.log_record _ _, ?_,
        nofun⟩
      rw [wanted]
      rintro (willing | none)
      · rw [willing_iff.2 willing] at refused
        cases refused
      · cases none
  | @overlaid key rest g before c' m entries result held asked later ih =>
      have wanted : heldReads pending slice (key :: rest) =
          .slice ⟨key, slice.unlimited⟩ :: heldReads pending slice rest := by
        simp [heldReads, held]
      rw [readPending_of_quiet alike.calm.quiet] at asked
      obtain ⟨ended, rfl⟩ := Prod.mk.inj asked
      obtain ⟨passed, rfl⟩ := unlessRefused_eq_ok_iff.1 ended
      have willing : before.monitor.failing = 0 := willing_iff.1 passed
      have willing' := ReadMonitor.failing_record willing (.slice ⟨key, slice.unlimited⟩)
      obtain ⟨sent, start, log, done, all⟩ := ih (alike.trans (alike_monitor alike.calm _))
      refine ⟨_ :: sent, wanted ▸ (List.prefix_cons_inj _).2 start, ?_,
        fun _ => done (.inl willing'), ?_⟩
      · rw [log, ReadMonitor.log_record, List.append_assoc]
        rfl
      · intro g' same
        obtain ⟨complete, alike', verdict, -, missing, found⟩ := all g' same
        refine ⟨by rw [complete, wanted], alike', ?_, fun _ _ _ => willing, ?_, ?_⟩
        · exact verdict.trans ((willing_iff.2 willing').trans (willing_iff.2 willing).symm)
        · rw [missing]
          simp [Gathering.overlay, absent, held]
        · rw [found]
          simp [Gathering.overlay, absent, held, reply]
  | @consulted key rest g before c' consultation result unheld known later ih =>
      have wanted : heldReads pending slice (key :: rest) = heldReads pending slice rest := by
        simp [heldReads, unheld]
      obtain ⟨consulted, monitor, hits⟩ := consult_spec alike.calm known
      obtain ⟨sent, start, log, done, all⟩ := ih (alike.trans consulted)
      rw [monitor] at log done all
      rw [← wanted] at start done all
      refine ⟨sent, start, log, done, ?_⟩
      intro g' same
      obtain ⟨complete, alike', verdict, quiet, missing, found⟩ := all g' same
      have noted := note_of_consulted (t := t) (c := c) g unheld fun entries =>
        (hits entries).trans (by rw [alike.served])
      refine ⟨complete, alike', verdict, by simpa [unheld] using quiet, ?_, ?_⟩
      · rw [missing, noted.1, List.append_assoc, ← List.filter_append]
        rfl
      · rw [found, noted.2, List.append_assoc, ← List.map_append, ← List.filter_append]
        rfl

theorem monitor_fillAll (fills : List Fill) : (c.fillAll fills).monitor = c.monitor := by
  induction fills generalizing c with
  | nil => rfl
  | cons f rest ih => exact ih

/-- The keys, each once, whose rows are not at hand. -/
def missingKeys (c : StoreCache) (pending : Bytes → Option Mutation) (keys : List Bytes)
    (slice : Slice) : List Bytes :=
  keys.eraseDups.filter fun key => c.absent (pending key) ⟨key, slice⟩

theorem mem_missingKeys {pending : Bytes → Option Mutation} {keys : List Bytes} {slice : Slice}
    {key : Bytes} :
    key ∈ c.missingKeys pending keys slice ↔
      key ∈ keys ∧ pending key = none ∧ c.served? ⟨key, slice⟩ = none := by
  simp [missingKeys, absent]

/-- All that a read of several rows may ask of the table. -/
def wantedReads (c : StoreCache) (pending : Bytes → Option Mutation) (keys : List Bytes)
    (slice : Slice) : List TableRead :=
  heldReads pending slice keys.eraseDups ++
    if c.missingKeys pending keys slice = [] then []
    else [.slices (c.missingKeys pending keys slice) slice]

/-- A request for several rows ends with all replies, the ones at hand first, unless a read
is refused.  What may be kept are answers of the table for rows that were missing. -/
theorem requestSlices_exact (calm : c.Calm) (t : Table) (pending : Bytes → Option Mutation)
    (keys : List Bytes) (slice : Slice) :
    let request := c.requestSlices granted t pending keys slice
    let hand := keys.eraseDups.filter fun key => !c.absent (pending key) ⟨key, slice⟩
    (∃ sent, sent <+: c.wantedReads pending keys slice ∧
      request.2.2.monitor.log = c.monitor.log ++ sent) ∧
    (c.monitor.failing = 0 ∨ c.wantedReads pending keys slice = [] →
      ∃ rows, request.1 = .ok rows) ∧
    (∀ rows, request.1 = .ok rows →
      request.2.2.monitor.log = c.monitor.log ++ c.wantedReads pending keys slice ∧
      rows = (hand ++ c.missingKeys pending keys slice).map
        (fun key => (key, c.reply t (pending key) ⟨key, slice⟩)) ∧
      ∀ key ∈ keys, c.wantedRead (pending key) ⟨key, slice⟩ ≠ [] → c.monitor.failing = 0) ∧
    ∀ f ∈ request.2.1, f.entries = t.readSlice f.query ∧ f.query.slice = slice ∧
      f.query.key ∈ c.missingKeys pending keys slice := by
  obtain ⟨sent, start, log, done, all⟩ := gathers_gather t pending slice keys.eraseDups
    (g := Gathering.start) (alike_record calm (.retrieval (UInt64.ofNat keys.length)))
  have goes := c.requestSlices_goes granted t pending keys slice
  dsimp only
  generalize c.requestSlices granted t pending keys slice = request at goes ⊢
  -- what is known of the keys once they were all gone through
  have gathered_ok : ∀ {g : Gathering} {c' : StoreCache},
      gather granted t pending slice keys.eraseDups Gathering.start
        (c.record (.retrieval (UInt64.ofNat keys.length))) = (.ok g, c') →
      Alike c c' ∧ c'.monitor.verdict none = c.monitor.verdict none ∧
      c'.monitor.log = c.monitor.log ++ heldReads pending slice keys.eraseDups ∧
      g.missing = c.missingKeys pending keys slice ∧
      g.found = (keys.eraseDups.filter fun key => !c.absent (pending key) ⟨key, slice⟩).map
        (fun key => (key, c.reply t (pending key) ⟨key, slice⟩)) ∧
      ∀ key ∈ keys, c.wantedRead (pending key) ⟨key, slice⟩ ≠ [] →
        c.monitor.failing = 0 ∨ key ∈ g.missing := by
    intro g c' gathered
    rw [gathered] at log all
    obtain ⟨rfl, alike, verdict, quiet, missing, found⟩ := all g rfl
    refine ⟨alike, verdict, log, missing, found, fun key there asks => ?_⟩
    have inOrder : key ∈ keys.eraseDups := List.mem_eraseDups.2 there
    cases held : pending key with
    | some m => exact .inl (quiet key inOrder (by rw [held]; rfl))
    | none =>
        rw [held] at asks
        have unserved : (c.served? ⟨key, slice⟩).isNone = true := by
          by_contra served
          exact asks (by simp [wantedRead, served])
        rw [missing]
        exact .inr (List.mem_filter.2 ⟨inOrder, by simpa [absent, held] using unserved⟩)
  cases goes with
  | stopped gathered =>
      rw [gathered] at log done
      refine ⟨⟨sent, start.trans ⟨_, rfl⟩, log⟩, fun willing => ?_, nofun, nofun⟩
      obtain ⟨g', same⟩ := done (willing.imp_right fun nothing => (List.append_eq_nil_iff.1 nothing).1)
      cases same
  | @complete g c' gathered nothing =>
      obtain ⟨-, -, log, missing, found, asks⟩ := gathered_ok gathered
      have wanted : c.wantedReads pending keys slice = heldReads pending slice keys.eraseDups := by
        rw [wantedReads, if_pos (missing.symm.trans nothing), List.append_nil]
      rw [wanted, ← missing, nothing, List.append_nil]
      refine ⟨⟨_, List.prefix_rfl, log⟩, fun _ => ⟨_, rfl⟩, fun rows same => ?_, nofun⟩
      obtain rfl := Except.ok.inj same
      refine ⟨log, found, fun key there wanted => ?_⟩
      refine (asks key there wanted).resolve_right ?_
      rw [nothing]
      exact List.not_mem_nil
  | @refused g fault c' c'' gathered missing asked =>
      obtain ⟨alike, verdict, log, same, -, -⟩ := gathered_ok gathered
      rw [ask_of_quiet (alike_record alike.calm _).calm.quiet] at asked
      obtain ⟨ended, rfl⟩ := Prod.mk.inj asked
      have wanted : c.wantedReads pending keys slice =
          heldReads pending slice keys.eraseDups ++ [.slices g.missing slice] := by
        rw [wantedReads, ← same, if_neg missing]
      rw [wanted]
      refine ⟨⟨_, List.prefix_rfl, ?_⟩, ?_, nofun, nofun⟩
      · rw [← List.append_assoc, ← log]
        exact ReadMonitor.log_record _ _
      · have refused : c'.monitor.verdict none = some fault := unlessRefused_eq_error_iff.1 ended
        rintro (willing | nothing)
        · rw [verdict, ReadMonitor.verdict_none_iff.2 willing] at refused
          cases refused
        · simp at nothing
  | @fetched g rows c' c'' gathered missing asked =>
      obtain ⟨alike, verdict, log, same, found, asks⟩ := gathered_ok gathered
      rw [ask_of_quiet (alike_record alike.calm _).calm.quiet] at asked
      obtain ⟨ended, rfl⟩ := Prod.mk.inj asked
      have wanted : c.wantedReads pending keys slice =
          heldReads pending slice keys.eraseDups ++ [.slices g.missing slice] := by
        rw [wantedReads, ← same, if_neg missing]
      obtain ⟨passed, rfl⟩ := unlessRefused_eq_ok_iff.1 ended
      have passed : c'.monitor.verdict none = none := passed
      have log' : (c'.monitor.record (.slices g.missing slice)).2.log =
          c.monitor.log ++ c.wantedReads pending keys slice := by
        rw [ReadMonitor.log_record, log, wanted, List.append_assoc]
      refine ⟨⟨_, List.prefix_rfl, log'⟩, fun _ => ⟨_, rfl⟩, fun rows same' => ?_, fun f member => ?_⟩
      · obtain rfl := Except.ok.inj same'
        refine ⟨log', ?_, fun _ _ _ => ReadMonitor.verdict_none_iff.1 (verdict.symm.trans passed)⟩
        rw [List.map_append, found, ← same]
        congr 1
        refine List.map_congr_left fun key member => ?_
        have absent : c.absent (pending key) ⟨key, slice⟩ = true := by
          rw [same] at member
          exact (List.mem_filter.1 member).2
        rw [reply_of_absent absent]
        rfl
      · obtain ⟨key, -, here⟩ := List.mem_filterMap.1 member
        obtain ⟨entries, there, rfl⟩ := Option.map_eq_some_iff.1 here
        obtain ⟨key', inMissing, same'⟩ := List.mem_map.1 (mem_of_lookup there)
        obtain ⟨rfl, rfl⟩ := Prod.mk.inj same'
        exact ⟨rfl, rfl, same ▸ inMissing⟩

/-- A read of several rows answers every key once, and as a read of that row alone would
have.  The table gets one read for each row held back and, if rows are not at hand, one for
them all that names each once.  A refused read ends it. -/
theorem rows_read_together (calm : c.Calm) (t : Table) (pending : Bytes → Option Mutation)
    (keys : List Bytes) (slice : Slice) :
    let missing := c.missingKeys pending keys slice
    let read := c.getSlices t pending keys slice
    (missing.Nodup ∧ ∀ key, key ∈ missing ↔
      key ∈ keys ∧ pending key = none ∧ c.served? ⟨key, slice⟩ = none) ∧
    (∃ sent, sent <+: c.wantedReads pending keys slice ∧
      read.2.monitor.log = c.monitor.log ++ sent) ∧
    (c.monitor.failing = 0 → ∃ rows, read.1 = .ok rows) ∧
    ∀ rows, read.1 = .ok rows →
      read.2.monitor.log = c.monitor.log ++ c.wantedReads pending keys slice ∧
      (rows.map Prod.fst).Nodup ∧ (∀ key, key ∈ rows.map Prod.fst ↔ key ∈ keys) ∧
      ∀ key ∈ keys, ∃ entries,
        (c.getSlice t (pending key) ⟨key, slice⟩).1 = .ok entries ∧
        rows.lookup key = some entries := by
  dsimp only
  obtain ⟨sent, done, all, -⟩ := requestSlices_exact calm t pending keys slice
  have nodup := nodup_eraseDups keys
  refine ⟨⟨nodup.filter _, fun key => mem_missingKeys⟩, ?_, fun willing => done (.inl willing), ?_⟩
  · rw [getSlices]
    simpa only [monitor_fillAll] using sent
  · intro rows same
    obtain ⟨log, shape, quiet⟩ := all rows same
    have order := List.filter_append_perm
      (fun key => !c.absent (pending key) ⟨key, slice⟩) keys.eraseDups
    simp only [Bool.not_not] at order
    have named : (rows.map Prod.fst).Perm keys.eraseDups := by
      rw [shape, List.map_map]
      simpa [missingKeys, Function.comp_def] using order
    have listed : ∀ key, key ∈ rows.map Prod.fst ↔ key ∈ keys := fun key =>
      named.mem_iff.trans List.mem_eraseDups
    refine ⟨?_, named.nodup_iff.2 nodup, listed, ?_⟩
    · rw [getSlices]
      simpa only [monitor_fillAll] using log
    · intro key there
      refine ⟨c.reply t (pending key) ⟨key, slice⟩, ?_, ?_⟩
      · refine (requestSlice_exact calm t (pending key) ⟨key, slice⟩).1.trans ?_
        split
        · rfl
        · rename_i asks
          rw [ReadMonitor.verdict_none_iff.2 (quiet key there asks)]
          rfl
      · obtain ⟨row, member, rfl⟩ := List.mem_map.1 ((listed key).2 there)
        rw [shape] at member
        obtain ⟨key, -, rfl⟩ := List.mem_map.1 member
        exact lookup_of_mem (named.nodup_iff.2 nodup) (shape ▸ member)

/-- Rows 1, 2 and 4 have a column. -/
def Table.threeRows : Table :=
  ⟨"edges", [([1], [⟨[5], [1], none⟩]), ([2], [⟨[5], [2], none⟩]), ([4], [⟨[5], [4], none⟩])]⟩

/-- The first columns of a row, two at most. -/
def Slice.firstTwo : Slice := ⟨[], [8], 2, List.nil_le _, by decide⟩

/-- Rows 1 and 2 were read, and the second was invalidated. -/
def halfMarked : StoreCache :=
  let opened := create 0 "edges" .default false fun _ => 0
  let once := (opened.getSlice Table.threeRows none ⟨[1], Slice.firstTwo⟩).2
  ((once.getSlice Table.threeRows none ⟨[2], Slice.firstTwo⟩).2).invalidate [2]

/-- A column of row 3 is held back. -/
def holdsThree (key : Bytes) : Option Mutation :=
  if key = [3] then some ⟨[⟨[7], [8], none⟩], []⟩ else none

/-- Row 1 is served, row 3 is read for itself and rows 2 and 4 together, however often they
are named. -/
theorem half_marked_rows_read : ∃ rows,
    (halfMarked.getSlices Table.threeRows holdsThree [[4], [1], [2], [3], [2], [4]]
      Slice.firstTwo).1 = .ok rows ∧
    (halfMarked.getSlices Table.threeRows holdsThree [[4], [1], [2], [3], [2], [4]]
      Slice.firstTwo).2.monitor.log = halfMarked.monitor.log ++
        [.slice ⟨[3], Slice.firstTwo.unlimited⟩, .slices [[4], [2]] Slice.firstTwo] ∧
    rows.lookup [3] = some [⟨[7], [8], none⟩] := by
  have calm : halfMarked.Calm := by
    refine ⟨rfl, fun s kept => ?_⟩
    obtain rfl := Option.some.inj kept
    exact Sorted.Ascending.insert .nil _
  obtain ⟨-, -, succeeds, exact⟩ := rows_read_together calm Table.threeRows holdsThree
    [[4], [1], [2], [3], [2], [4]] Slice.firstTwo
  obtain ⟨rows, read⟩ := succeeds rfl
  obtain ⟨log, -, -, answers⟩ := exact rows read
  obtain ⟨entries, alone, here⟩ := answers [3] (by decide)
  obtain rfl := Except.ok.inj alone
  exact ⟨rows, read, log, here⟩

end StoreCache

end PropertyGraph
