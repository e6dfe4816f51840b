/-
# Proofs.BoundedStaleness -- how old an answer from memory can be

A table may change behind its caches, and then what they serve may be out of date.  But a slice
is kept with the moment at which it was filled in, and at that moment it was the answer of the
table; it is served for less than its full time.

* Every slice that a cache keeps was filled in by some event of the run
  (`Storage.filled_of_kept`).
* `staleness_is_bounded`: an answer that is given without its row being asked for is what the
  table would have answered less than the full time before.
-/
import PropertyGraph.Proofs.StorageRuns

namespace PropertyGraph

set_option autoImplicit false

namespace Storage

/-- A slice was filled in by an event, and was the answer of the table then. -/
structure FilledBy (s : Storage) (e : StorageEvent) (i : Nat) (x : CachedSlice) : Prop where
  fill : ∃ f ∈ s.fills i e, f.query = x.query ∧ f.entries = x.entries
  moment : ∃ c, (s.step e).caches[i]? = some c ∧ c.time = x.inserted ∧
    ((s.step e).backend.table c.table).readSlice x.query = x.entries

end Storage

theorem Clocked.time_fills (fills : List StoreCache.Fill) (z : Clocked) :
    (z.run (fills.map StoreCache.Fill.event)).time = z.time := by
  induction fills generalizing z with
  | nil => rfl
  | cons f rest ih => exact ih (z.step f.event)

/-- What is kept after some fills was kept before, or is one of them and dates from then. -/
theorem Clocked.keeps_fills {z : Clocked} (sound : z.Sound) {fills : List StoreCache.Fill}
    {x : CachedSlice} (kept : (z.run (fills.map StoreCache.Fill.event)).slices.Keeps x) :
    z.slices.Keeps x ∨
      x.inserted = z.time ∧ ∃ f ∈ fills, f.query = x.query ∧ f.entries = x.entries := by
  induction fills generalizing z with
  | nil => exact .inl kept
  | cons f rest ih =>
      rcases ih (sound_step sound f.event) kept with old | ⟨now, g, member, same⟩
      · rcases keeps_step sound old with old | ⟨q, entries, generation, filled, -, rfl⟩
        · exact .inl old
        · obtain ⟨query, entries, -⟩ := SliceEvent.fill.inj filled
          exact .inr ⟨rfl, f, List.mem_cons_self, query, entries⟩
      · exact .inr ⟨now, g, List.mem_cons_of_mem f member, same⟩

namespace Storage

variable {s : Storage} {i : Nat} {o : Opening} {c : StoreCache} {z : Clocked}

/-- What a cache keeps after an event was kept before, or was filled in by the event. -/
theorem filledBy_of_kept (opened : s.Open i o c z) (e : StorageEvent) :
    ∃ c' z', (s.step e).Open i o c' z' ∧
      ∀ x, z'.slices.Keeps x → z.slices.Keeps x ∨ s.FilledBy e i x := by
  obtain ⟨c₁, c', events, begun, table, causes, filled, after⟩ := open_step opened e
  refine ⟨c', _, after, fun x kept => ?_⟩
  rcases Clocked.keeps_fills begun.sound kept with old | ⟨now, f, member, query, entries⟩
  · exact .inl (Clocked.keeps_run opened.sound (fun _ _ _ fills => causes _ fills) old)
  · obtain ⟨backend, answer, -⟩ := mem_fills opened.there (opened.stands.calm opened.sound) member
    refine .inr ⟨⟨f, member, query, entries⟩, c', after.there, ?_, ?_⟩
    · rw [after.stands.time, Clocked.time_fills, now]
    · have same : c'.table = c.table := by
        rw [filled, ← table]
        exact (Prod.mk.inj (StoreCache.place_fillAll _ c₁)).1
      show ((s.begin e).backend.table c'.table).readSlice x.query = x.entries
      rw [backend, same, ← query, ← entries, answer]

/-- Whatever a cache keeps was filled in by some event of the run. -/
theorem filled_of_kept (rows : List Cell) {openings : List Opening}
    (there : openings[i]? = some o) (events : List StorageEvent) :
    ∃ c z, ((prepared rows openings).run events).Open i o c z ∧ ∀ x, z.slices.Keeps x →
      ∃ before e after, events = before ++ e :: after ∧
        ((prepared rows openings).run before).FilledBy e i x := by
  induction events using List.reverseRecOn with
  | nil =>
      obtain ⟨c, opened⟩ := open_prepared rows there
      exact ⟨c, _, opened, fun x kept => absurd kept (Clocked.not_keeps_start _ _ _ _ _)⟩
  | append_singleton events e ih =>
      obtain ⟨c₁, z₁, opened₁, earlier⟩ := ih
      obtain ⟨c', z', opened', now⟩ := filledBy_of_kept opened₁ e
      rw [run_concat]
      refine ⟨c', z', opened', fun x kept => ?_⟩
      rcases now x kept with old | filled
      · obtain ⟨before, e', after, rfl, filled⟩ := earlier x old
        exact ⟨before, e', after ++ [e], by simp, filled⟩
      · exact ⟨events, e, [], rfl, filled⟩

/-- A read answers a query, and its row is not asked for. -/
def Recalls (s : Storage) (i : Nat) (t : Transaction) (r : TableRead) (q : KeySlice)
    (entries : List Entry) : Prop :=
  ∃ rows c c' sent, (s.read i t r).1 = .ok rows ∧ rows.lookup q.key = some entries ∧
    s.caches[i]? = some c ∧ (s.read i t r).2.caches[i]? = some c' ∧
    c'.monitor.log = c.monitor.log ++ sent ∧ ∀ read ∈ sent, q.key ∉ read.keys

/-- What is recalled is a slice that is served. -/
theorem serves_of_recalls (opened : s.Open i o c z) {t : Transaction} {r : TableRead}
    {q : KeySlice} (asked : q ∈ r.queries) {entries : List Entry}
    (recalls : s.Recalls i t r q entries) :
    o.options.enabled = true ∧ ∃ x, z.Serves q x ∧ x.entries = entries := by
  obtain ⟨rows, c₁, c', sent, answered, found, there, there', log, unnamed⟩ := recalls
  obtain rfl := Option.some.inj (opened.there.symm.trans there)
  obtain ⟨outcome, c'', there'', monitor⟩ := read_spec opened.there t r
  obtain rfl := Option.some.inj (there'.symm.trans there'')
  obtain ⟨sent', log', requested⟩ := StoreCache.requested (opened.stands.calm opened.sound)
    (s.backend.table c.table) (t.pending c.name) r
  obtain rfl : sent = sent' := by
    rw [monitor, log'] at log
    exact (List.append_cancel_left log).symm
  obtain ⟨entries', served, found'⟩ :=
    requested.served rows (outcome.symm.trans answered) q asked unnamed
  obtain rfl := Option.some.inj (found.symm.trans found')
  rw [opened.stands.served?] at served
  split at served
  · rename_i on
    exact ⟨on, Clocked.served?_eq_some_iff.1 served⟩
  · cases served

end Storage

open Storage in
/-- With a full time set, an answer that is given without its row being asked for is what the
table would have answered less than that time before. -/
theorem staleness_is_bounded (rows : List Cell) {openings : List Opening} {i : Nat} {o : Opening}
    (there : openings[i]? = some o) (lasting : 0 < o.options.cacheTime)
    (events : List StorageEvent) (t : Transaction) (r : TableRead) {q : KeySlice}
    (asked : q ∈ r.queries) {entries : List Entry}
    (recalls : ((prepared rows openings).run events).Recalls i t r q entries) :
    ∃ before after, events = before ++ after ∧
      ∃ c c₁, ((prepared rows openings).run events).caches[i]? = some c ∧
        ((prepared rows openings).run before).caches[i]? = some c₁ ∧
        c₁.time ≤ c.time ∧ c.time < c₁.time + o.options.cacheTime ∧
        (((prepared rows openings).run before).backend.table c₁.table).readSlice q = entries := by
  obtain ⟨c, z, opened, filled⟩ := filled_of_kept rows there events
  obtain ⟨-, x, serves, rfl⟩ := serves_of_recalls opened asked recalls
  obtain ⟨kept, rfl, fresh⟩ := serves.kept
  obtain ⟨before, e, after, rfl, -, c₁, there₁, now, answer⟩ := filled x kept
  refine ⟨before ++ [e], after, by simp, c, c₁, opened.there, ?_, ?_, ?_, ?_⟩
  · rw [run_concat]
    exact there₁
  · rw [now, opened.stands.time]
    exact (opened.sound.kept x kept).1
  · have lasts : z.slices.cacheTime = some o.options.cacheTime :=
      opened.cacheTime.trans (if_neg (Nat.ne_of_gt lasting))
    have inserted := (opened.sound.kept x kept).1
    simp only [SliceCache.isStale, lasts, decide_eq_false_iff_not] at fresh
    rw [opened.stands.time, now]
    omega
  · rw [run_concat]
    exact answer

/-- Row 1 has a column; answers may be kept for ten ticks. -/
def Storage.oneRow : Storage :=
  prepared [("edges", [1], ⟨[⟨[5], [6], none⟩], []⟩)]
    [⟨"edges", ⟨true, 4096, 10, 0, 1⟩, false, fun _ => 0⟩]

/-- The row is read within two ticks.  Then the table is emptied behind the cache, and seven
ticks pass. -/
def Storage.emptying : List StorageEvent :=
  [.read (.start .default) 0 (.slice (Clocked.firstOf 1)) 2,
    .become (Backend.empty.openTable "edges").2, .pass 7]

/-- The column is recalled at the ninth tick, and was the answer of the table at some moment
less than ten ticks before. -/
theorem emptied_row_is_recalled :
    let s := Storage.oneRow.run Storage.emptying
    s.Recalls 0 (.start .default) (.slice (Clocked.firstOf 1)) (Clocked.firstOf 1)
      [⟨[5], [6], none⟩] ∧
    (s.backend.table 0).readSlice (Clocked.firstOf 1) = [] ∧
    ∃ before after, Storage.emptying = before ++ after ∧
      ∃ c₁, (Storage.oneRow.run before).caches[0]? = some c₁ ∧ 9 < c₁.time + 10 ∧
        ((Storage.oneRow.run before).backend.table c₁.table).readSlice (Clocked.firstOf 1) =
          [⟨[5], [6], none⟩] := by
  intro s
  have recalls : s.Recalls 0 (.start .default) (.slice (Clocked.firstOf 1)) (Clocked.firstOf 1)
      [⟨[5], [6], none⟩] :=
    ⟨_, _, _, [], rfl, rfl, rfl, rfl, rfl, fun _ none => by cases none⟩
  obtain ⟨before, after, whole, c, c₁, there, there₁, -, lately, answer⟩ :=
    staleness_is_bounded _ (i := 0) rfl (by decide) _ _ _ (List.mem_singleton_self _) recalls
  have now : c.time = 9 := by
    obtain rfl := Option.some.inj there
    rfl
  rw [now] at lately
  exact ⟨recalls, rfl, before, after, whole, c₁, there₁, lately, answer⟩

end PropertyGraph
