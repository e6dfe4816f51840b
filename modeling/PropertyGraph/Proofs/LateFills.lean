/-
# Proofs.LateFills -- fills that come late

A read that asks its table may be overtaken: other actions happen between the answer
of the table and the filling in.  Traffic is a system together with the fills that
wait, each with a note of what has happened since it was asked for: whether its cache
was cleared, and whether its key was invalidated.

* A fill is discarded if its cache was cleared, and is right if its key was not
  invalidated (`Traffic.Tracked`).
* A fill of a key that was invalidated is discarded only while the entry of the key
  stands.  `late_fills` says exactly when reads stay right; a clean-up between an
  invalidation and a fill is enough to make them wrong (`late_fill_is_served`).
-/
import PropertyGraph.Proofs.Generations

namespace PropertyGraph

set_option autoImplicit false

/-- A fill on its way to a cache. -/
structure LateFill where
  cache : Nat
  fill : StoreCache.Fill
  /-- The cache was cleared since the generation was observed. -/
  cleared : Bool
  /-- The key was invalidated since then. -/
  invalidated : Bool

/-- The note after an action. -/
def LateFill.after (w : LateFill) (y : System) (a : Action) : LateFill :=
  { w with
    cleared := w.cleared || a.clears w.cache
    invalidated := w.invalidated || y.invalidates a w.cache w.fill.query.key }

structure Traffic where
  system : System
  /-- Fills that wait, in the order in which they were asked for. -/
  waiting : List LateFill

/-- Actions, and reads of which the fills are still to come. -/
inductive Move where
  | act (a : Action)
  | request (session cache : Nat) (q : KeySlice)
  | requestMany (session cache : Nat) (keys : List Bytes) (slice : Slice)
  /-- One of the fills that wait arrives. -/
  | arrive (n : Nat)

namespace Traffic

def begin (s : Storage) : Traffic := ⟨System.begin s, []⟩

/-- Asks the table of a cache and lets the fills wait. -/
def ask (t : Traffic) (session cache : Nat)
    (f : Session → Table → StoreCache → List StoreCache.Fill × StoreCache) : Traffic :=
  match t.system.sessions[session]?, t.system.storage.caches[cache]? with
  | some x, some c =>
      let (fills, after) := f x (t.system.storage.backend.table c.table) c
      ⟨{ t.system with storage := t.system.storage.onCache cache fun _ => after },
        t.waiting ++ fills.map fun fill => ⟨cache, fill, false, false⟩⟩
  | _, _ => t

def step (t : Traffic) : Move → Traffic
  | .act a => ⟨t.system.step a, t.waiting.map fun w => w.after t.system a⟩
  | .request i cache q =>
      t.ask i cache fun x table c =>
        (c.requestSlice granted table (x.transaction.pending c.name q.key) q).2
  | .requestMany i cache keys slice =>
      t.ask i cache fun x table c =>
        (c.requestSlices granted table (fun key => x.transaction.pending c.name key) keys slice).2
  | .arrive n =>
      match t.waiting[n]? with
      | some w =>
          ⟨{ t.system with storage := t.system.storage.onCache w.cache fun c => c.fill w.fill },
            t.waiting.eraseIdx n⟩
      | none => t

def run (moves : List Move) (t : Traffic) : Traffic := moves.foldl step t

/-- What is known of a fill that waits. -/
structure Tracked (y : System) (w : LateFill) (c : StoreCache) : Prop where
  current : w.cleared = false → ∀ g, c.generation = some g → w.fill.generation = g
  outdated : w.cleared = true → ∀ g, c.generation = some g → w.fill.generation < g
  right : w.invalidated = false →
    w.fill.entries = (y.storage.backend.table c.table).readSlice w.fill.query

/-- The system is coherent, and its fills are tracked. -/
structure Sound (t : Traffic) (right : Standard) : Prop where
  system : t.system.Coherent right
  tracked : ∀ w ∈ t.waiting, ∃ c, t.system.storage.caches[w.cache]? = some c ∧
    Tracked t.system w c

/-- A move of which the fill, if one arrives and is kept, meets a standard. -/
def Fine (t : Traffic) (right : Standard) : Move → Prop
  | .arrive n => ∀ w, t.waiting[n]? = some w → ∀ c, t.system.storage.caches[w.cache]? = some c →
      c.Admits w.fill → right (t.system.storage.backend.table c.table) w.fill.query w.fill.entries
  | _ => True

/-- Nothing that is known of a fill is lost when its cache changes like this. -/
theorem Tracked.congr {y y' : System} {w : LateFill} {c c' : StoreCache}
    (tracked : Tracked y w c) (generation : c'.generation = c.generation)
    (row : (y'.storage.backend.table c'.table).row w.fill.query.key =
      (y.storage.backend.table c.table).row w.fill.query.key) : Tracked y' w c' := by
  refine ⟨?_, ?_, ?_⟩
  · intro uncleared
    rw [generation]
    exact tracked.current uncleared
  · intro cleared
    rw [generation]
    exact tracked.outdated cleared
  · intro untouched
    rw [tracked.right untouched, Table.readSlice, Table.readSlice, row]

/-- An action notes what it does to a fill. -/
theorem Tracked.after {y : System} {w : LateFill} {a : Action} {c c' : StoreCache}
    (tracked : Tracked y w c) (turned : y.Turned a w.cache c c') :
    Tracked (y.step a) (w.after y a) c' := by
  have table : c'.table = c.table := (Prod.mk.inj turned.place).1
  refine ⟨?_, ?_, ?_⟩
  · intro uncleared g now
    obtain ⟨before, quiet⟩ := Bool.or_eq_false_iff.1 uncleared
    rw [turned.generation, a.turn_of_quiet quiet] at now
    exact tracked.current before g now
  · intro cleared g now
    rw [turned.generation] at now
    by_cases clears : a.clears w.cache = true
    · rw [a.turn_of_clears clears] at now
      obtain ⟨g', was, rfl⟩ := Option.map_eq_some_iff.1 now
      cases before : w.cleared with
      | false =>
          have same := tracked.current before g' was
          show w.fill.generation < g' + 1
          omega
      | true =>
          have less := tracked.outdated before g' was
          show w.fill.generation < g' + 1
          omega
    · have quiet : a.clears w.cache = false := by simpa using clears
      rw [a.turn_of_quiet quiet] at now
      have before : w.cleared = true := by
        simpa [LateFill.after, quiet] using cleared
      exact tracked.outdated before g now
  · intro untouched
    obtain ⟨before, spared⟩ := Bool.or_eq_false_iff.1 untouched
    have row := turned.rows w.fill.query.key spared
    show w.fill.entries = _
    rw [tracked.right before, table, Table.readSlice, Table.readSlice]
    exact congrArg (Table.sliceOf w.fill.query.slice) row.symm

/-- A request leaves the traffic sound, with fills that are right so far. -/
theorem Sound.ask {t : Traffic} {right : Standard} (sound : t.Sound right) (i j : Nat)
    {f : Session → Table → StoreCache → List StoreCache.Fill × StoreCache}
    (reads : ∀ x c, t.system.storage.caches[j]? = some c →
      StoreCache.Reads (right (t.system.storage.backend.table c.table)) c
        (f x (t.system.storage.backend.table c.table) c).2 ∧
      ∀ fill ∈ (f x (t.system.storage.backend.table c.table) c).1,
        fill.Of (t.system.storage.backend.table c.table) c.generation) :
    (t.ask i j f).Sound right := by
  unfold Traffic.ask
  cases session : t.system.sessions[i]? with
  | none => exact sound
  | some x =>
      cases there : t.system.storage.caches[j]? with
      | none => exact sound
      | some c =>
          obtain ⟨read, fills⟩ := reads x c there
          have place : ∀ d, t.system.storage.caches[j]? = some d →
              (f x (t.system.storage.backend.table c.table) c).2.place = d.place := by
            intro d found
            rw [there] at found
            obtain rfl := Option.some.inj found
            exact read.place
          have table := (Prod.mk.inj read.place).1
          refine ⟨sound.system.withStorage (sound.system.storage.onCache place ?_)
            (Storage.places_onCache place), ?_⟩
          · intro d found _
            rw [there] at found
            obtain rfl := Option.some.inj found
            exact read.coherent
          · intro w member
            rw [Storage.getElem?_onCache]
            rcases List.mem_append.1 member with old | new
            · obtain ⟨d, found, tracked⟩ := sound.tracked w old
              by_cases here : j = w.cache
              · rw [← here, there] at found
                obtain rfl := Option.some.inj found
                rw [if_pos here, ← here, there]
                refine ⟨_, rfl, tracked.congr read.generation ?_⟩
                show ((t.system.storage.backend.table _).row _) = _
                rw [table]
              · rw [if_neg here]
                exact ⟨d, found, tracked.congr rfl rfl⟩
            · obtain ⟨fill, inFills, rfl⟩ := List.mem_map.1 new
              rw [if_pos rfl, there]
              obtain ⟨entries, generation⟩ := fills fill inFills
              refine ⟨_, rfl, ?_, fun cleared => (by cases cleared), ?_⟩
              · intro _ g now
                exact generation g (read.generation.symm.trans now)
              · intro _
                show fill.entries = (t.system.storage.backend.table _).readSlice fill.query
                rw [table]
                exact entries

/-- A move leaves the traffic sound, unless a fill that should not be kept arrives. -/
theorem sound_step {t : Traffic} {right : Standard} (fair : right.Fair) (sound : t.Sound right)
    (move : Move) (fine : t.Fine right move) : (t.step move).Sound right := by
  cases move with
  | act a =>
      refine ⟨System.coherent_step fair sound.system a, ?_⟩
      intro w member
      obtain ⟨w, old, rfl⟩ := List.mem_map.1 member
      obtain ⟨c, there, tracked⟩ := sound.tracked w old
      obtain ⟨c', there', turned⟩ := System.step_spec fair sound.system a there
      exact ⟨c', there', tracked.after turned⟩
  | request i j q =>
      refine sound.ask i j
        (f := fun x table c => (c.requestSlice granted table (x.transaction.pending c.name q.key) q).2)
        ?_
      intro x c there
      obtain ⟨reads, fills, -⟩ := StoreCache.requestSlice_spec
        (sound.system.storage.caches c (List.mem_of_getElem? there))
        (sound.system.storage.sound.backend.table c.table) (fair.met _)
        granted (x.transaction.pending c.name q.key) q
      exact ⟨reads, fills⟩
  | requestMany i j keys slice =>
      refine sound.ask i j
        (f := fun x table c =>
          (c.requestSlices granted table (fun key => x.transaction.pending c.name key) keys slice).2)
        ?_
      intro x c there
      obtain ⟨reads, fills, -⟩ := StoreCache.requestSlices_spec
        (sound.system.storage.caches c (List.mem_of_getElem? there))
        (sound.system.storage.sound.backend.table c.table) (fair.met _)
        granted (fun key => x.transaction.pending c.name key) keys slice
      exact ⟨reads, fills⟩
  | arrive n =>
      simp only [step]
      cases found : t.waiting[n]? with
      | none => exact sound
      | some w =>
          have place : ∀ c : StoreCache, (c.fill w.fill).place = c.place := fun _ => rfl
          refine ⟨sound.system.withStorage (sound.system.storage.onCache (fun c _ => place c)
            ?_) (Storage.places_onCache fun c _ => place c),
            ?_⟩
          · intro c there coherent
            exact ((StoreCache.Reads.refl coherent).fill fun admits =>
              fine w found c there admits).coherent
          · intro w' member
            obtain ⟨c, there, tracked⟩ := sound.tracked w' (List.mem_of_mem_eraseIdx member)
            rw [Storage.getElem?_onCache, there]
            by_cases here : w.cache = w'.cache
            · rw [if_pos here]
              exact ⟨_, rfl, tracked.congr (c.generation_fill w.fill) rfl⟩
            · rw [if_neg here]
              exact ⟨c, rfl, tracked.congr rfl rfl⟩

theorem sound_begin {s : Storage} {right : Standard} (storage : s.Coherent right) :
    (begin s).Sound right :=
  ⟨System.coherent_begin storage, fun _ member => by cases member⟩

/-- Whatever arrives, the fills stay tracked. -/
theorem sound_run (moves : List Move) {t : Traffic} (sound : t.Sound .any) :
    (t.run moves).Sound .any := by
  induction moves generalizing t with
  | nil => exact sound
  | cons move rest ih =>
      refine ih (sound_step Standard.fair_any sound move ?_)
      cases move with
      | arrive n => exact fun _ _ _ _ _ => trivial
      | act _ => trivial
      | request _ _ _ => trivial
      | requestMany _ _ _ _ => trivial

theorem run_concat (moves : List Move) (move : Move) (t : Traffic) :
    t.run (moves ++ [move]) = (t.run moves).step move := by
  simp [run]

end Traffic

namespace StoreCache

/-- A fill that is refused leaves no trace. -/
theorem fill_of_refused {c : StoreCache} {f : Fill} (refused : ¬ c.Admits f) : c.fill f = c := by
  unfold fill
  cases kept : c.slices with
  | none => rw [Option.map_none, ← kept]
  | some s =>
      have same : s.put c.time f.query f.entries f.generation = s :=
        SliceCache.put_of_refused fun admits => refused ⟨s, kept, admits⟩
      rw [Option.map_some, same, ← kept]

/-- A fill that is kept is served next. -/
theorem consult_fill {c : StoreCache} {right : KeySlice → List Entry → Prop}
    (coherent : c.Coherent right) {f : Fill} (admits : c.Admits f) :
    ((c.fill f).consult f.query).1 = .hit f.entries := by
  obtain ⟨s, kept, admits⟩ := admits
  obtain ⟨got, unexpired⟩ := (coherent.slices s kept).get_put admits
  have slices : (c.fill f).slices = some (s.put c.time f.query f.entries f.generation) := by
    rw [fill, kept]
    rfl
  have looked : (s.put c.time f.query f.entries f.generation).isExpired c.time f.query.key =
      (false, s.put c.time f.query f.entries f.generation) := by
    rw [SliceCache.expiry?, Option.map_eq_none_iff] at unexpired
    rw [SliceCache.isExpired, unexpired]
  have time : (c.fill f).time = c.time := rfl
  unfold consult
  rw [slices]
  dsimp only
  rw [time, looked]
  dsimp only
  rcases answer : (s.put c.time f.query f.entries f.generation).get c.time f.query with
    ⟨_ | entries, after⟩
  · rw [answer] at got
    cases got
  · rw [answer] at got
    obtain rfl := Option.some.inj got
    rfl

end StoreCache

/-- Whatever a cache serves is what its table answers. -/
def System.ServesRight (y : System) : Prop :=
  ∀ c ∈ y.storage.caches, ∀ q entries, (c.consult q).1 = .hit entries →
    entries = (y.storage.backend.table c.table).readSlice q

theorem System.Coherent.servesRight {y : System} (coherent : y.Coherent Table.Answers) :
    y.ServesRight := by
  intro c member q entries hit
  obtain ⟨-, right, -⟩ :=
    (StoreCache.Reads.refl (coherent.storage.caches c member)).consult (q := q) rfl
  exact right entries hit

namespace Traffic

/-- A fill that is kept is served at once, so it has to be right where what is served is. -/
theorem fine_of_servesRight {t : Traffic} (sound : t.Sound .any) {n : Nat}
    (serves : (t.step (.arrive n)).system.ServesRight) : t.Fine Table.Answers (.arrive n) := by
  intro w waits c there admits
  have coherent := sound.system.storage.caches c (List.mem_of_getElem? there)
  have arrived : (t.step (.arrive n)).system.storage =
      t.system.storage.onCache w.cache fun c => c.fill w.fill := by
    simp only [step, waits]
  have member : c.fill w.fill ∈ (t.step (.arrive n)).system.storage.caches := by
    apply List.mem_of_getElem? (i := w.cache)
    rw [arrived, Storage.getElem?_onCache, if_pos rfl, there]
    rfl
  have served := serves _ member w.fill.query w.fill.entries
    (StoreCache.consult_fill coherent admits)
  rw [arrived] at served
  exact served

/-- A run in which only fills that meet a standard are kept meets it at every moment. -/
theorem sound_of_fine {t : Traffic} {right : Standard} (fair : right.Fair) (sound : t.Sound right)
    {moves : List Move}
    (fine : ∀ before n, before ++ [.arrive n] <+: moves → (t.run before).Fine right (.arrive n)) :
    ∀ before, before <+: moves → (t.run before).Sound right := by
  intro before
  induction before using List.reverseRecOn with
  | nil =>
      intro _
      exact sound
  | append_singleton before move ih =>
      intro isPrefix
      have sound := ih ((List.prefix_append before [move]).trans isPrefix)
      rw [run_concat]
      apply sound_step fair sound move
      cases move with
      | arrive n => exact fine before n isPrefix
      | act _ => trivial
      | request _ _ _ => trivial
      | requestMany _ _ _ _ => trivial

/-- A fill is kept only by a cache that was not cleared. -/
theorem Tracked.uncleared_of_admits {y : System} {w : LateFill} {c : StoreCache}
    (tracked : Tracked y w c) (admits : c.Admits w.fill) : w.cleared = false := by
  rw [Bool.eq_false_iff]
  intro cleared
  obtain ⟨s, kept, current, -⟩ := admits
  have generation : c.generation = some s.generation := by
    rw [StoreCache.generation, kept]
    rfl
  have less := tracked.outdated cleared s.generation generation
  omega

end Traffic

/-- What caches serve stays right, at every moment of a run, exactly as long as every
fill that arrives and is kept is what the table answers by then.  A fill is kept, and
served next, unless its cache was cleared since it was asked for, an entry of its key
stands in the table of expired keys, or it is too large; and it is right at least as
long as its key was not invalidated since. -/
theorem late_fills (rows : List Cell) {openings : List Opening}
    (oneEach : (openings.map Opening.name).Nodup) (moves : List Move) :
    let after (moves : List Move) := (Traffic.begin (.prepared rows openings)).run moves
    ((∀ before, before <+: moves → (after before).system.ServesRight) ↔
      ∀ before n, before ++ [.arrive n] <+: moves →
        (after before).Fine Table.Answers (.arrive n)) ∧
    ∀ w ∈ (after moves).waiting, ∃ c,
      (after moves).system.storage.caches[w.cache]? = some c ∧
      (¬ c.Admits w.fill → c.fill w.fill = c) ∧
      (c.Admits w.fill → w.cleared = false ∧
        ((c.fill w.fill).consult w.fill.query).1 = .hit w.fill.entries) ∧
      (w.invalidated = false → w.fill.entries =
        ((after moves).system.storage.backend.table c.table).readSlice w.fill.query) := by
  intro after
  have opened := fun right => Traffic.sound_begin (Storage.coherent_prepared rows oneEach right)
  have loose : ∀ moves, (after moves).Sound .any := fun moves =>
    Traffic.sound_run moves (opened .any)
  refine ⟨⟨?_, ?_⟩, ?_⟩
  · intro serves before n isPrefix
    have servesAfter := serves _ isPrefix
    have step : after (before ++ [.arrive n]) = (after before).step (.arrive n) :=
      Traffic.run_concat before (.arrive n) _
    rw [step] at servesAfter
    exact Traffic.fine_of_servesRight (loose before) servesAfter
  · intro fine before isPrefix
    have sound := Traffic.sound_of_fine Table.fair_answers (opened Table.Answers) fine
    exact (sound before isPrefix).system.servesRight
  · intro w member
    obtain ⟨c, there, tracked⟩ := (loose moves).tracked w member
    have coherent := (loose moves).system.storage.caches c (List.mem_of_getElem? there)
    refine ⟨c, there, StoreCache.fill_of_refused, ?_, tracked.right⟩
    intro admits
    exact ⟨tracked.uncleared_of_admits admits, StoreCache.consult_fill coherent admits⟩

/-- A row is asked for while it is empty; before the fill arrives, another session
commits a column of it, so that the key is invalidated, and `more` happens. -/
def Traffic.overtaken (more : List Move) : Traffic :=
  (begin (.prepared [] [⟨"edges", ⟨true, 4096, 0, 0, 1⟩, false, fun _ => 0⟩])).run
    ([.act (.start .default), .act (.start .default), .request 0 0 (.firstSeven [1]),
      .act (.call 1 (.mutate 0 [1] ⟨[⟨[5], [6], none⟩], []⟩)), .act (.call 1 .commit)] ++ more)

/-- While the entry of the key stands, the fill that was overtaken is discarded. -/
theorem overtaken_is_discarded : ∃ w c,
    (Traffic.overtaken []).waiting = [w] ∧ w.invalidated = true ∧
      (Traffic.overtaken []).system.storage.caches[w.cache]? = some c ∧
      c.fill w.fill = c := by
  have facts := (late_fills [] (by decide) _).2 _
    (List.mem_of_getElem? (rfl : (Traffic.overtaken []).waiting[0]? = _))
  obtain ⟨c, there, discarded, -, -⟩ := facts
  refine ⟨_, c, rfl, rfl, there, discarded ?_⟩
  intro admits
  obtain rfl := Option.some.inj there
  obtain ⟨s, kept, -, unexpired, -⟩ := admits
  obtain rfl := Option.some.inj kept
  cases unexpired

/-- Once a clean-up has taken the entry out, it is kept, and from then on the empty row
is served, though the table holds a column. -/
theorem late_fill_is_served : ∃ c,
    (Traffic.overtaken []).waiting.map (fun w => (w.cleared, w.invalidated)) = [(false, true)] ∧
    (Traffic.overtaken [.act (.tend 0 .clean), .arrive 0]).system.storage.caches[0]? = some c ∧
      (c.consult (.firstSeven [1])).1 = .hit [] ∧
      ((Traffic.overtaken [.act (.tend 0 .clean), .arrive 0]).system.storage.backend.table
        c.table).readSlice (.firstSeven [1]) = [⟨[5], [6], none⟩] :=
  ⟨_, rfl, rfl, rfl, rfl⟩

end PropertyGraph
