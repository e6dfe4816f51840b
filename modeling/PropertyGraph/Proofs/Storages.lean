/-
# Proofs.Storages -- storages whose caches are coherent with their tables

A storage is coherent when its tables are in order, no two caches stand in front of
one store, and every cache is coherent with the table it stands in front of.

* `Storage.prepared` opens caches in front of tables that may hold rows already; it is
  coherent when the caches are of different stores (`coherent_prepared`).
* Reads keep a storage coherent (`Coherent.readThrough`), and so does whatever keeps
  the cache it is done to coherent (`Coherent.onCache`).
* A call changes rows, but only such as it invalidates in the cache of their store
  (`Coherent.performed`).
-/
import PropertyGraph.Proofs.Sessions

namespace PropertyGraph

set_option autoImplicit false

namespace Storage

/-- The tables in front of which the caches stand, in the order of the caches. -/
def places (s : Storage) : List (Nat × String) := s.caches.map StoreCache.place

theorem cache_of_places {s s' : Storage} (places : s'.places = s.places) {i : Nat}
    {c' : StoreCache} (there : s'.caches[i]? = some c') :
    ∃ c, s.caches[i]? = some c ∧ c'.place = c.place := by
  have placed : s.places[i]? = some c'.place := by
    rw [← places, Storage.places, List.getElem?_map, there]
    rfl
  rw [Storage.places, List.getElem?_map] at placed
  obtain ⟨c, found, same⟩ := Option.map_eq_some_iff.1 placed
  exact ⟨c, found, same.symm⟩

theorem Sound.congr {s s' : Storage} (sound : s.Sound) (places : s'.places = s.places)
    (names : s'.backend.names = s.backend.names) (backend : s'.backend.Sound) : s'.Sound := by
  refine ⟨backend, ?_⟩
  intro c' member
  obtain ⟨i, there⟩ := List.mem_iff_getElem?.1 member
  obtain ⟨c, found, same⟩ := cache_of_places places there
  obtain ⟨table, name⟩ := Prod.mk.inj same
  rw [names, table, name]
  exact sound.linked c (List.mem_of_getElem? found)

theorem OneEach.congr {s s' : Storage} (oneEach : s.OneEach) (places : s'.places = s.places) :
    s'.OneEach := by
  intro i j c' d' first second name
  obtain ⟨c, found, same⟩ := cache_of_places places first
  obtain ⟨d, found', same'⟩ := cache_of_places places second
  have names : c.name = d.name := by
    rw [← (Prod.mk.inj same).2, ← (Prod.mk.inj same').2, name]
  exact oneEach i j c d found found' names

theorem places_onCache {s : Storage} {i : Nat} {f : StoreCache → StoreCache}
    (keeps : ∀ c, s.caches[i]? = some c → (f c).place = c.place) :
    (s.onCache i f).places = s.places := by
  refine List.ext_getElem? ?_
  intro j
  rw [places, places, List.getElem?_map, List.getElem?_map, getElem?_onCache]
  by_cases here : i = j
  · subst here
    rw [if_pos rfl]
    cases there : s.caches[i]? with
    | none => rfl
    | some c => exact congrArg some (keeps c there)
  · rw [if_neg here]

end Storage

theorem Write.Through.congr {w : Write} {s s' : Storage} (through : w.Through s)
    (places : s'.places = s.places) : w.Through s' := by
  obtain ⟨c, found, name⟩ := through
  obtain ⟨c', found', same⟩ := Storage.cache_of_places places.symm found
  exact ⟨c', found', by rw [← (Prod.mk.inj same).2, name]⟩

theorem Session.Sound.congr {x : Session} {o : TransactionOptions} {s s' : Storage}
    (sound : x.Sound o s) (places : s'.places = s.places) : x.Sound o s' :=
  ⟨sound.buffer, fun w member => (sound.through w member).congr places⟩

namespace StoreCache

theorem place_invalidate (c : StoreCache) (key : Bytes) : (c.invalidate key).place = c.place := by
  unfold invalidate
  split <;> rfl

theorem place_invalidateEach (keys : List Bytes) (c : StoreCache) :
    (keys.foldl StoreCache.invalidate c).place = c.place := by
  induction keys generalizing c with
  | nil => rfl
  | cons key rest ih =>
      rw [List.foldl_cons, ih]
      exact place_invalidate c key

theorem place_perform (c : StoreCache) (action : CacheAction) :
    (c.perform action).place = c.place := by
  cases action with
  | clear =>
      show c.clear.place = c.place
      unfold clear
      split <;> rfl
  | clean =>
      show c.clean.2.place = c.place
      unfold clean
      split <;> rfl
  | invalidate key => exact place_invalidate c key

theorem Coherent.perform {c : StoreCache} {right : KeySlice → List Entry → Prop}
    (coherent : c.Coherent right) (action : CacheAction) : (c.perform action).Coherent right := by
  cases action with
  | clear => exact coherent.clear
  | clean => exact coherent.clean
  | invalidate key => exact coherent.invalidate fun _ _ fine => .inl fine

end StoreCache

theorem WriteBuffer.places_invalidateHeld (b : WriteBuffer) (s : Storage) :
    (b.invalidateHeld s).places = s.places := by
  refine List.ext_getElem? ?_
  intro i
  rw [Storage.places, Storage.places, List.getElem?_map, List.getElem?_map,
    b.caches_invalidateHeld, Option.map_map]
  cases s.caches[i]? with
  | none => rfl
  | some c => exact congrArg some (StoreCache.place_invalidateEach _ c)

theorem Performed.places {x : Session} {o : TransactionOptions} {s : Storage} {call : Call}
    {after : Backend} {result : Outcome Unit × Session × Storage}
    (performed : Performed x o s call after result) : result.2.2.places = s.places := by
  obtain ⟨orders, storage⟩ := performed.storage
  rw [storage]
  exact WriteBuffer.places_invalidateHeld _ _

namespace Storage

/-- Every cache is coherent with its table, and is the only one of its store. -/
structure Coherent (s : Storage) (right : Standard) : Prop where
  sound : s.Sound
  oneEach : s.OneEach
  caches : ∀ c ∈ s.caches, c.Coherent (right (s.backend.table c.table))

namespace Coherent

variable {s : Storage} {right : Standard}

/-- The row that a cache's table holds is the row of the cache's store. -/
theorem row_table (sound : s.Sound) {c : StoreCache} (member : c ∈ s.caches) (key : Bytes) :
    (s.backend.table c.table).row key = s.backend.rowOf c.name key :=
  (Backend.rowOf_of_lookup (sound.linked c member) key).symm

theorem onCache (coherent : s.Coherent right) {i : Nat} {f : StoreCache → StoreCache}
    (place : ∀ c, s.caches[i]? = some c → (f c).place = c.place)
    (keeps : ∀ c, s.caches[i]? = some c → c.Coherent (right (s.backend.table c.table)) →
      (f c).Coherent (right (s.backend.table c.table))) : (s.onCache i f).Coherent right := by
  have places := places_onCache place
  refine ⟨coherent.sound.congr places rfl coherent.sound.backend, coherent.oneEach.congr places, ?_⟩
  intro c' member
  obtain ⟨j, there⟩ := List.mem_iff_getElem?.1 member
  rw [getElem?_onCache] at there
  split at there
  · rename_i here
    subst here
    obtain ⟨c, found, rfl⟩ := Option.map_eq_some_iff.1 there
    have table : (f c).table = c.table := (Prod.mk.inj (place c found)).1
    show (f c).Coherent (right (s.backend.table (f c).table))
    rw [table]
    exact keeps c found (coherent.caches c (List.mem_of_getElem? found))
  · exact coherent.caches c' (List.mem_of_getElem? there)

/-- Whatever reads a table through its cache. -/
theorem readThrough (coherent : s.Coherent right) {α : Type} (i : Nat) (absent : α)
    {f : Table → StoreCache → α × StoreCache}
    (reads : ∀ c, s.caches[i]? = some c →
      StoreCache.Reads (right (s.backend.table c.table)) c (f (s.backend.table c.table) c).2) :
    (s.readThrough i absent f).2.Coherent right ∧ (s.readThrough i absent f).2.places = s.places := by
  unfold Storage.readThrough
  cases found : s.caches[i]? with
  | none => exact ⟨coherent, rfl⟩
  | some c =>
      have read := reads c found
      have place : ∀ d, s.caches[i]? = some d →
          (f (s.backend.table c.table) c).2.place = d.place := by
        intro d there
        rw [found] at there
        obtain rfl := Option.some.inj there
        exact read.place
      refine ⟨coherent.onCache place ?_, places_onCache place⟩
      intro d there _
      rw [found] at there
      obtain rfl := Option.some.inj there
      exact read.coherent

theorem getSlice (coherent : s.Coherent right) (fair : right.Fair) (i : Nat) (t : Transaction)
    (q : KeySlice) :
    (s.getSlice i t q).2.Coherent right ∧ (s.getSlice i t q).2.places = s.places :=
  coherent.readThrough i _ fun c found =>
    (StoreCache.getSlice_spec (coherent.caches c (List.mem_of_getElem? found))
      (coherent.sound.backend.table c.table) (fair.met _) _ q).1

theorem getSlices (coherent : s.Coherent right) (fair : right.Fair) (i : Nat)
    (t : Transaction) (keys : List Bytes) (slice : Slice) :
    (s.getSlices i t keys slice).2.Coherent right ∧
      (s.getSlices i t keys slice).2.places = s.places :=
  coherent.readThrough i _ fun c found =>
    (StoreCache.getSlices_spec (coherent.caches c (List.mem_of_getElem? found))
      (coherent.sound.backend.table c.table) (fair.met _) _ keys slice).1

theorem advance (coherent : s.Coherent right) (ticks : Nat) :
    (s.advance ticks).Coherent right ∧ (s.advance ticks).places = s.places := by
  have places : (s.advance ticks).places = s.places := by
    rw [Storage.places, Storage.places, Storage.advance, List.map_map]
    rfl
  refine ⟨⟨coherent.sound.congr places rfl coherent.sound.backend, coherent.oneEach.congr places,
    ?_⟩, places⟩
  intro c' member
  obtain ⟨c, there, rfl⟩ := List.mem_map.1 member
  exact (coherent.caches c there).advance ticks

/-- The rows that a call changes bypass the cache of their store. -/
theorem performed (coherent : s.Coherent right) (fair : right.Fair) {x : Session}
    {o : TransactionOptions} {call : Call} {after : Backend}
    {result : Outcome Unit × Session × Storage}
    (performed : Performed x o s call after result) : result.2.2.Coherent right := by
  let b := WriteBuffer.holding o (x.attempts s call)
  have fits : (b.arranged s.nextOrder).Fits s :=
    (WriteBuffer.fits_holding performed.through o).arranged s.nextOrder
  have flushed := performed.flushed
  have places := performed.places
  refine ⟨coherent.sound.congr places ?_ ?_, coherent.oneEach.congr places, ?_⟩
  · rw [performed.backend]
    exact flushed.names
  · rw [performed.backend]
    exact flushed.sound
  · intro c' member
    obtain ⟨i, there⟩ := List.mem_iff_getElem?.1 member
    rw [performed.caches] at there
    obtain ⟨c, found, rfl⟩ := Option.map_eq_some_iff.1 there
    have inCaches := List.mem_of_getElem? found
    have table : (((b.arranged s.nextOrder).heldKeys i).foldl StoreCache.invalidate c).table =
        c.table := (Prod.mk.inj (StoreCache.place_invalidateEach _ c)).1
    have known : after.names.lookup c.name = some c.table := by
      rw [flushed.names]
      exact coherent.sound.linked c inCaches
    rw [performed.backend, table]
    apply (coherent.caches c inCaches).invalidateEach
    intro q entries fine
    rcases flushed.rows c.name q.key with same | ⟨held, -⟩
    · left
      rw [Backend.rowOf_of_lookup known, ← row_table coherent.sound inCaches] at same
      exact fair.ofRow same fine
    · rw [← WriteBuffer.row?_arranged (WriteBuffer.sound_holding ..) s.nextOrder] at held
      exact .inr (WriteBuffer.mem_heldKeys fits coherent.oneEach found held)

end Coherent

end Storage

/-! ## Storages to begin with -/

/-- A cache that is to be opened. -/
structure Opening where
  name : String
  options : CacheOptions
  metrics : Bool
  route : Bytes → Nat

namespace Storage

/-- Tables with some rows, and caches that were opened in front of them since. -/
def prepared (rows : List Cell) (openings : List Opening) : Storage :=
  openings.foldl (fun s o => (s.openCache o.name o.options o.metrics o.route).2)
    ⟨rows.foldl (fun b row => b.mutateRow row.1 row.2.1 row.2.2) Backend.empty, [], []⟩

theorem sound_openCache {s : Storage} (sound : s.Sound) (o : Opening) :
    (s.openCache o.name o.options o.metrics o.route).2.Sound := by
  obtain ⟨backend, known, others⟩ := Backend.sound_openTable sound.backend o.name
  refine ⟨backend, ?_⟩
  intro c member
  rcases List.mem_append.1 member with old | new
  · exact others c.name c.table (sound.linked c old)
  · obtain rfl := List.mem_singleton.1 new
    exact known

theorem oneEach_of_nodup {s : Storage} (nodup : (s.caches.map StoreCache.name).Nodup) :
    s.OneEach := by
  intro i j c d first second name
  have place : ∀ (k : Nat) (e : StoreCache), s.caches[k]? = some e →
      (s.caches.map StoreCache.name)[k]? = some e.name := by
    intro k e there
    rw [List.getElem?_map, there]
    rfl
  have bound : i < (s.caches.map StoreCache.name).length := by
    rw [List.length_map]
    exact (List.getElem?_eq_some_iff.1 first).1
  refine (List.getElem?_inj bound nodup).1 ?_
  rw [place i c first, place j d second, name]

/-- Freshly opened caches keep nothing, and each stands in front of its own table. -/
theorem prepared_spec (rows : List Cell) (openings : List Opening) :
    (prepared rows openings).Sound ∧
      (∀ c ∈ (prepared rows openings).caches, ∀ right, c.Coherent right) ∧
      (prepared rows openings).caches.map StoreCache.name = openings.map Opening.name := by
  have filled : ∀ (rows : List Cell) (b : Backend), b.Sound →
      (rows.foldl (fun b row => b.mutateRow row.1 row.2.1 row.2.2) b).Sound := by
    intro rows
    induction rows with
    | nil => exact fun b sound => sound
    | cons row rest ih => exact fun b sound => ih _ (Backend.sound_mutateRow sound _ _ _)
  have opened : ∀ (openings : List Opening) (s : Storage), s.Sound →
      (∀ c ∈ s.caches, ∀ right, c.Coherent right) →
      let opened := openings.foldl
        (fun s o => (s.openCache o.name o.options o.metrics o.route).2) s
      opened.Sound ∧ (∀ c ∈ opened.caches, ∀ right, c.Coherent right) ∧
        opened.caches.map StoreCache.name =
          s.caches.map StoreCache.name ++ openings.map Opening.name := by
    intro openings
    induction openings with
    | nil => exact fun s sound fresh => ⟨sound, fresh, (List.append_nil _).symm⟩
    | cons o rest ih =>
        intro s sound fresh
        obtain ⟨sound', fresh', names⟩ := ih _ (sound_openCache sound o) (by
          intro c member right
          rcases List.mem_append.1 member with old | new
          · exact fresh c old right
          · obtain rfl := List.mem_singleton.1 new
            exact StoreCache.coherent_create _ _ _ _ _ right)
        refine ⟨sound', fresh', names.trans ?_⟩
        simp [openCache, StoreCache.create]
  exact opened openings ⟨_, [], []⟩
    ⟨filled rows Backend.empty Backend.sound_empty, fun _ member => by cases member⟩
    fun _ member => by cases member

/-- Freshly opened caches of different stores are coherent with their tables. -/
theorem coherent_prepared (rows : List Cell) {openings : List Opening}
    (nodup : (openings.map Opening.name).Nodup) (right : Standard) :
    (prepared rows openings).Coherent right := by
  obtain ⟨sound, fresh, names⟩ := prepared_spec rows openings
  refine ⟨sound, oneEach_of_nodup ?_, fun c member => fresh c member _⟩
  rw [names]
  exact nodup

/-- Decides in which orders the coming flushes go through rows. -/
def shuffled (s : Storage) (orders : List RowOrder) : Storage := { s with orders }

theorem Sound.shuffled {s : Storage} (sound : s.Sound) (orders : List RowOrder) :
    (s.shuffled orders).Sound := ⟨sound.backend, sound.linked⟩

/-- Decides what becomes of the coming batches. -/
def expecting (s : Storage) (outcomes : List WriteOutcome) : Storage :=
  { s with backend := { s.backend with outcomes } }

theorem Sound.expecting {s : Storage} (sound : s.Sound) (outcomes : List WriteOutcome) :
    (s.expecting outcomes).Sound :=
  sound.congr rfl rfl ⟨sound.backend.named, sound.backend.apart, sound.backend.tables⟩

end Storage

end PropertyGraph
