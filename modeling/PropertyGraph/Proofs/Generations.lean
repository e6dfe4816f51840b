/-
# Proofs.Generations -- what an action makes of a cache and of its table

The generation of a cache counts how often it was cleared, and an entry in the table of
expired keys tells that a row may have changed.  Seen from one cache, an action
(`System.step_spec`)

* leaves it in its place;
* changes its generation only by clearing it;
* changes a row of its table only if it invalidates the key.
-/
import PropertyGraph.Proofs.FreshReads

namespace PropertyGraph

set_option autoImplicit false

/-- The action drops everything that a cache keeps. -/
def Action.clears : Action → Nat → Bool
  | .tend j .clear, i => j == i
  | .closeCache j, i => j == i
  | _, _ => false

/-- The generation of a cache after an action. -/
def Action.turn (a : Action) (i : Nat) (generation : Option Nat) : Option Nat :=
  generation.map fun g => if a.clears i then g + 1 else g

theorem Action.turn_of_quiet {a : Action} {i : Nat} (quiet : a.clears i = false)
    (generation : Option Nat) : a.turn i generation = generation := by
  unfold turn
  rw [quiet]
  exact Option.map_id'

theorem Action.turn_of_clears {a : Action} {i : Nat} (clears : a.clears i = true)
    (generation : Option Nat) : a.turn i generation = generation.map fun g => g + 1 := by
  unfold turn
  rw [clears]
  rfl

namespace WriteBuffer

/-- What is held of a row was issued as a write to it. -/
theorem exists_write_of_row? {o : TransactionOptions} {writes : List Write} {name : String}
    {key : Bytes} (held : ((holding o writes).row? name key).isSome = true) :
    ∃ w ∈ writes, w.mutation.total ≠ 0 ∧ w.reaches name key = true := by
  induction writes using List.reverseRecOn with
  | nil => cases held
  | append_singleton writes w ih =>
      have earlier : ((holding o writes).row? name key).isSome = true →
          ∃ w' ∈ writes ++ [w], w'.mutation.total ≠ 0 ∧ w'.reaches name key = true := by
        intro held
        obtain ⟨w', member, something, reaches⟩ := ih held
        exact ⟨w', List.mem_append_left _ member, something, reaches⟩
      rw [holding_concat, accept] at held
      split at held
      · exact earlier held
      · rename_i something
        rw [row?_hold] at held
        split at held
        · rename_i here
          obtain ⟨rfl, rfl⟩ := here
          exact ⟨w, by simp, something, by simp [Write.reaches]⟩
        · exact earlier held

end WriteBuffer

namespace SliceCache

theorem generation_invalidate (c : SliceCache) (now : Nat) (key : Bytes) :
    (c.invalidate now key).generation = c.generation := by
  unfold invalidate
  split
  · exact generation_countDown (c.expire now key) now
  · rfl

end SliceCache

namespace StoreCache

theorem generation_invalidate (c : StoreCache) (key : Bytes) :
    (c.invalidate key).generation = c.generation := by
  unfold invalidate
  cases kept : c.slices with
  | none => rfl
  | some s =>
      show some (s.invalidate c.time key).generation = _
      rw [SliceCache.generation_invalidate, generation, kept]
      rfl

theorem generation_invalidateEach (keys : List Bytes) (c : StoreCache) :
    (keys.foldl StoreCache.invalidate c).generation = c.generation := by
  induction keys generalizing c with
  | nil => rfl
  | cons key rest ih =>
      rw [List.foldl_cons, ih]
      exact generation_invalidate c key

theorem generation_clear (c : StoreCache) :
    c.clear.generation = c.generation.map fun g => g + 1 := by
  unfold clear
  cases kept : c.slices with
  | none => simp [generation, kept]
  | some s => simp [generation, kept, StoreCache.record, SliceCache.clearExpired,
      SliceCache.invalidateAll]

theorem generation_clean (c : StoreCache) : c.clean.2.generation = c.generation := by
  unfold clean
  cases kept : c.slices with
  | none => rfl
  | some s => simp [generation, kept, SliceCache.clearExpired]

theorem generation_close (c : StoreCache) :
    c.close.generation = c.generation.map fun g => g + 1 := by
  simp [close, generation, SliceCache.invalidateAll, Function.comp_def]

theorem generation_fill (c : StoreCache) (f : Fill) :
    (c.fill f).generation = c.generation := by
  simp only [fill, generation, Option.map_map]
  congr 1
  funext s
  exact SliceCache.generation_put s _ _ _ _

end StoreCache

namespace System

/-- The action invalidates a key of a cache, be it by flushing a write to the row. -/
def invalidates (y : System) (a : Action) (i : Nat) (key : Bytes) : Bool :=
  match a with
  | .tend j (.invalidate other) => j == i && other == key
  | .call j call =>
      match y.sessions[j]?, y.storage.caches[i]? with
      | some x, some c =>
          (x.attempts y.storage call).any fun w => w.mutation.total != 0 && w.reaches c.name key
      | _, _ => false
  | _ => false

/-- What an action makes of a cache and of its table. -/
structure Turned (y : System) (a : Action) (i : Nat) (c c' : StoreCache) : Prop where
  place : c'.place = c.place
  generation : c'.generation = a.turn i c.generation
  rows : ∀ key, y.invalidates a i key = false →
    ((y.step a).storage.backend.table c.table).row key = (y.storage.backend.table c.table).row key

/-- An action that finds nothing to act on. -/
theorem turned_stays {y : System} {a : Action} {i : Nat} {c : StoreCache}
    (there : y.storage.caches[i]? = some c) (quiet : a.clears i = false) (same : y.step a = y) :
    ∃ c', (y.step a).storage.caches[i]? = some c' ∧ Turned y a i c c' := by
  rw [same]
  refine ⟨c, there, rfl, (a.turn_of_quiet quiet _).symm, ?_⟩
  intro key _
  rw [same]

/-- What is done to one cache, and to no table. -/
theorem turned_onCache {y : System} {a : Action} {i j : Nat} {c : StoreCache}
    {f : StoreCache → StoreCache} (there : y.storage.caches[i]? = some c)
    (step : (y.step a).storage = y.storage.onCache j f) (place : (f c).place = c.place)
    (generation : j = i →
      (f c).generation = a.turn i c.generation)
    (others : j ≠ i → a.clears i = false) :
    ∃ c', (y.step a).storage.caches[i]? = some c' ∧ Turned y a i c c' := by
  rw [step, Storage.getElem?_onCache, there]
  have rows : ∀ key, ((y.step a).storage.backend.table c.table).row key =
      (y.storage.backend.table c.table).row key := by
    intro key
    rw [step]
    rfl
  by_cases here : j = i
  · rw [if_pos here]
    exact ⟨f c, rfl, place, generation here, fun key _ => rows key⟩
  · rw [if_neg here]
    exact ⟨c, rfl, rfl, (a.turn_of_quiet (others here) _).symm, fun key _ => rows key⟩

/-- A read through some cache changes no generation and no table. -/
theorem turned_readThrough {y : System} {a : Action} {i j : Nat} {c : StoreCache} {α : Type}
    {right : Standard} {absent : α} {f : Table → StoreCache → α × StoreCache}
    (there : y.storage.caches[i]? = some c) (quiet : a.clears i = false)
    (step : (y.step a).storage = (y.storage.readThrough j absent f).2)
    (reads : ∀ d, y.storage.caches[j]? = some d →
      StoreCache.Reads (right (y.storage.backend.table d.table)) d
        (f (y.storage.backend.table d.table) d).2) :
    ∃ c', (y.step a).storage.caches[i]? = some c' ∧ Turned y a i c c' := by
  cases found : y.storage.caches[j]? with
  | none =>
      have same : (y.step a).storage = y.storage := by
        rw [step, Storage.readThrough, found]
      exact ⟨c, by rw [same, there], rfl, (a.turn_of_quiet quiet _).symm,
        fun key _ => by rw [same]⟩
  | some d =>
      have read := reads d found
      have same : (y.step a).storage =
          y.storage.onCache j fun _ => (f (y.storage.backend.table d.table) d).2 := by
        rw [step, Storage.readThrough, found]
      have rows : ∀ key, ((y.step a).storage.backend.table c.table).row key =
          (y.storage.backend.table c.table).row key := by
        intro key
        rw [same]
        rfl
      rw [same, Storage.getElem?_onCache, there]
      by_cases here : j = i
      · subst here
        rw [there] at found
        obtain rfl := Option.some.inj found
        rw [if_pos rfl]
        refine ⟨_, rfl, read.place, ?_, fun key _ => rows key⟩
        rw [read.generation, a.turn_of_quiet quiet]
      · rw [if_neg here]
        exact ⟨c, rfl, rfl, (a.turn_of_quiet quiet _).symm, fun key _ => rows key⟩

/-- A call changes only rows that it invalidates. -/
theorem turned_call {y : System} {right : Standard} (coherent : y.Coherent right)
    {j i : Nat} (call : Call) {c : StoreCache} (there : y.storage.caches[i]? = some c) :
    ∃ c', (y.step (.call j call)).storage.caches[i]? = some c' ∧
      Turned y (.call j call) i c c' := by
  have quiet : (Action.call j call).clears i = false := rfl
  cases found : y.sessions[j]? with
  | none =>
      exact turned_stays there quiet (by simp only [step, System.withSession, found])
  | some x =>
      obtain ⟨o, sound⟩ := coherent.sessions x (List.mem_of_getElem? found)
      obtain ⟨after, performed⟩ := Session.perform_spec coherent.storage.sound sound call
      have storage : (y.step (.call j call)).storage = (x.perform y.storage call).2.2 := by
        simp only [step, System.withSession, found]
      have linked := coherent.storage.sound.linked c (List.mem_of_getElem? there)
      refine ⟨_, by rw [storage, performed.caches, there]; rfl, ?_, ?_, ?_⟩
      · exact StoreCache.place_invalidateEach _ c
      · rw [StoreCache.generation_invalidateEach, Action.turn_of_quiet quiet]
      · intro key untouched
        rw [storage, performed.backend]
        have known : after.names.lookup c.name = some c.table := by
          rw [performed.flushed.names]
          exact linked
        rw [← Backend.rowOf_of_lookup known, ← Backend.rowOf_of_lookup linked]
        apply (performed.flushed.rows c.name key).resolve_right
        intro changed
        obtain ⟨w, member, something, reaches⟩ := WriteBuffer.exists_write_of_row? changed.1
        have touched : y.invalidates (.call j call) i key = true := by
          simp only [invalidates, found, there]
          exact List.any_eq_true.2 ⟨w, member, by simp [something, reaches]⟩
        rw [untouched] at touched
        cases touched

theorem turned_read {y : System} {right : Standard} (fair : right.Fair)
    (coherent : y.Coherent right) (j cache : Nat) (q : KeySlice) {i : Nat} {c : StoreCache}
    (there : y.storage.caches[i]? = some c) :
    ∃ c', (y.step (.read j cache q)).storage.caches[i]? = some c' ∧
      Turned y (.read j cache q) i c c' := by
  cases found : y.sessions[j]? with
  | none => exact turned_stays there rfl (by simp only [step, System.withSession, found])
  | some x =>
      have read : (y.step (.read j cache q)).storage =
          (y.storage.readThrough cache (.ok []) fun table c =>
            c.getSlice table (x.transaction.pending c.name q.key) q).2 := by
        simp only [step, System.withSession, found]
        rfl
      apply turned_readThrough there rfl read
      intro d place
      have kept := coherent.storage.caches d (List.mem_of_getElem? place)
      have sound := coherent.storage.sound.backend.table d.table
      exact (StoreCache.getSlice_spec kept sound (fair.met _) _ q).1

theorem turned_readMany {y : System} {right : Standard} (fair : right.Fair)
    (coherent : y.Coherent right) (j cache : Nat) (keys : List Bytes) (slice : Slice) {i : Nat}
    {c : StoreCache} (there : y.storage.caches[i]? = some c) :
    ∃ c', (y.step (.readMany j cache keys slice)).storage.caches[i]? = some c' ∧
      Turned y (.readMany j cache keys slice) i c c' := by
  cases found : y.sessions[j]? with
  | none => exact turned_stays there rfl (by simp only [step, System.withSession, found])
  | some x =>
      have read : (y.step (.readMany j cache keys slice)).storage =
          (y.storage.readThrough cache (.ok []) fun table c =>
            c.getSlices table (fun key => x.transaction.pending c.name key) keys slice).2 := by
        simp only [step, System.withSession, found]
        rfl
      apply turned_readThrough there rfl read
      intro d place
      have kept := coherent.storage.caches d (List.mem_of_getElem? place)
      have sound := coherent.storage.sound.backend.table d.table
      exact (StoreCache.getSlices_spec kept sound (fair.met _) _ keys slice).1

/-- Of what is done to a cache by hand only clearing it moves its generation. -/
theorem turned_tend {y : System} (j : Nat) (action : CacheAction) {i : Nat} {c : StoreCache}
    (there : y.storage.caches[i]? = some c) :
    ∃ c', (y.step (.tend j action)).storage.caches[i]? = some c' ∧
      Turned y (.tend j action) i c c' := by
  refine turned_onCache there rfl (c.place_perform action) ?_ ?_
  · intro here
    subst here
    cases action with
    | clear =>
        rw [Action.turn_of_clears (by simp [Action.clears])]
        exact c.generation_clear
    | clean => exact c.generation_clean.trans (Action.turn_of_quiet rfl _).symm
    | invalidate key => exact (c.generation_invalidate key).trans (Action.turn_of_quiet rfl _).symm
  · intro apart
    cases action with
    | clear => simpa [Action.clears] using apart
    | clean => rfl
    | invalidate key => rfl

/-- An action changes the generation of a cache only by clearing it, and a row only if
it invalidates the key in the cache. -/
theorem step_spec {y : System} {right : Standard} (fair : right.Fair)
    (coherent : y.Coherent right) (a : Action) {i : Nat} {c : StoreCache}
    (there : y.storage.caches[i]? = some c) :
    ∃ c', (y.step a).storage.caches[i]? = some c' ∧ Turned y a i c c' := by
  cases a with
  | start _ => exact ⟨c, there, rfl, (Action.turn_of_quiet rfl _).symm, fun _ _ => rfl⟩
  | call j call => exact turned_call coherent call there
  | read j cache q => exact turned_read fair coherent j cache q there
  | readMany j cache keys slice => exact turned_readMany fair coherent j cache keys slice there
  | tend j action => exact turned_tend j action there
  | closeCache j =>
      refine turned_onCache there rfl rfl ?_ ?_
      · intro here
        subst here
        rw [Action.turn_of_clears (by simp [Action.clears])]
        exact c.generation_close
      · intro apart
        simpa [Action.clears] using apart
  | pass ticks =>
      refine ⟨c.advance ticks, ?_, rfl, (Action.turn_of_quiet rfl _).symm, fun _ _ => rfl⟩
      show (y.storage.caches.map _)[i]? = _
      rw [List.getElem?_map, there]
      rfl
  | failReads j failure times =>
      exact turned_onCache there rfl rfl (fun _ => (Action.turn_of_quiet rfl _).symm) fun _ => rfl
  | decideWrites outcomes | shuffle orders =>
      exact ⟨c, there, rfl, (Action.turn_of_quiet rfl _).symm, fun _ _ => rfl⟩
  | toss j coins =>
      refine turned_onCache there rfl rfl ?_ fun _ => rfl
      intro _
      rw [Action.turn_of_quiet rfl]
      simp [StoreCache.generation, Function.comp_def]

end System

end PropertyGraph
