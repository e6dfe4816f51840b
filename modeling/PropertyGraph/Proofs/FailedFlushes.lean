/-
# Proofs.FailedFlushes -- a flush that fails loses nothing and can be repeated

Writing may fail for good after any number of batches, and the batch at which it fails may
have reached any of its rows.  Applying what was held back to a row once more changes
nothing, so the row that the session sees is the same as before, whatever reached the table.

* The error of a flush is that of the first batch that fails for good
  (`WriteBuffer.writeAll_eq_error_iff`).
* Every held row is marked then.  A clean-up that chance sets off in between may take the
  mark out again, but only together with everything kept of the row
  (`SliceCache.marks_stand`).
* A session sees the rows as if every call had succeeded (`Session.sees_perform`), also while
  others are at work elsewhere (`System.sees_run`).
* `failed_flush_keeps_all` puts these together.
-/
import PropertyGraph.Proofs.ServedSlices
import PropertyGraph.Proofs.SteadySessions

namespace PropertyGraph

set_option autoImplicit false

namespace SliceCache

/-- The key was invalidated at this time, and its mark stands. -/
def MarkedAt (c : SliceCache) (now : Nat) (key : Bytes) : Prop :=
  c.expiry? key = some ⟨now, c.cacheTime.map fun time => now + time⟩

/-- Nothing is kept of the key. -/
def Lacks (c : SliceCache) (key : Bytes) : Prop := ∀ x, c.Keeps x → x.query.key ≠ key

variable {c : SliceCache} {now : Nat} {key : Bytes}

theorem lapsed_of_lasting (lasting : c.cacheTime ≠ some 0) (now : Nat) :
    (⟨now, c.cacheTime.map fun time => now + time⟩ : ExpiredKey).lapsed now = false := by
  unfold ExpiredKey.lapsed
  cases time : c.cacheTime with
  | none => rfl
  | some time' =>
      have positive : time' ≠ 0 := fun zero => lasting (by rw [time, zero])
      simp only [Option.map_some, decide_eq_false_iff_not]
      omega

/-- A clean-up takes a new mark out only if no time has to pass, and then with all slices of
its key. -/
theorem MarkedAt.countDown (mark : c.MarkedAt now key) (lasting : c.cacheTime ≠ some 0)
    (ordered : Sorted.Ascending Prod.fst c.expired) :
    (c.countDown now).MarkedAt now key ∨ c.cleanWait = 0 ∧ (c.countDown now).Lacks key := by
  unfold SliceCache.countDown
  split
  · exact .inl mark
  · have lapsed := lapsed_of_lasting lasting now
    by_cases waits : c.cleanWait = 0
    · refine .inr ⟨waits, fun x kept same => ?_⟩
      have spared := (keeps_clearExpired ordered kept).2
      rw [same, mark] at spared
      simp [ripe, lapsed, waits] at spared
    · left
      rw [MarkedAt, expiry?_clearExpired ordered, mark]
      have positive : ¬ c.cleanWait ≤ 0 := by omega
      simp [Option.filter, ripe, lapsed, positive, clearExpired]

theorem Lacks.countDown (lacks : c.Lacks key) (ordered : Sorted.Ascending Prod.fst c.expired) :
    (c.countDown now).Lacks key := by
  unfold SliceCache.countDown
  split
  · exact lacks
  · exact fun x kept => lacks x (keeps_clearExpired ordered kept).1

/-- Invalidating a key marks it and leaves the marks of others, unless chance sets off a
clean-up. -/
theorem mark_invalidate (lasting : c.cacheTime ≠ some 0)
    (ordered : Sorted.Ascending Prod.fst c.expired) {other : Bytes}
    (here : key = other ∨ c.MarkedAt now key) :
    (c.invalidate now other).MarkedAt now key ∨
      c.coins.headD false = true ∧ c.cleanWait = 0 ∧ (c.invalidate now other).Lacks key := by
  have marked : (c.expire now other).MarkedAt now key := by
    rw [MarkedAt, expiry?_expire]
    split
    · rfl
    · rename_i apart
      exact here.resolve_left apart
  unfold SliceCache.invalidate
  split
  · rename_i cleans
    exact (marked.countDown lasting (ordered.insert _)).imp_right fun gone => ⟨cleans, gone⟩
  · exact .inl marked

theorem Lacks.invalidate (lacks : c.Lacks key) (ordered : Sorted.Ascending Prod.fst c.expired)
    (other : Bytes) : (c.invalidate now other).Lacks key := by
  unfold SliceCache.invalidate
  split
  · exact Lacks.countDown lacks (ordered.insert _)
  · exact lacks

theorem settings_invalidate (c : SliceCache) (now : Nat) (other : Bytes) :
    (c.invalidate now other).cacheTime = c.cacheTime ∧
      (c.invalidate now other).cleanWait = c.cleanWait ∧
      (c.invalidate now other).coins = c.coins.tail := by
  have counted : ∀ c : SliceCache, (c.countDown now).cacheTime = c.cacheTime ∧
      (c.countDown now).cleanWait = c.cleanWait ∧ (c.countDown now).coins = c.coins := by
    intro c
    unfold SliceCache.countDown
    split <;> exact ⟨rfl, rfl, rfl⟩
  unfold SliceCache.invalidate
  split
  · exact counted (c.expire now other)
  · exact ⟨rfl, rfl, rfl⟩

theorem ordered_invalidate (ordered : Sorted.Ascending Prod.fst c.expired) (other : Bytes) :
    Sorted.Ascending Prod.fst (c.invalidate now other).expired := by
  unfold SliceCache.invalidate
  split
  · exact ordered_countDown (ordered.insert _)
  · exact ordered.insert _

theorem Lacks.invalidateEach (lacks : c.Lacks key)
    (ordered : Sorted.Ascending Prod.fst c.expired) (keys : List Bytes) :
    (keys.foldl (fun c other => c.invalidate now other) c).Lacks key := by
  induction keys generalizing c with
  | nil => exact lacks
  | cons other rest ih => exact ih (lacks.invalidate ordered other) (ordered_invalidate ordered other)

theorem mem_of_headD {coins : List Bool} (up : coins.headD false = true) : true ∈ coins := by
  cases coins with
  | nil => cases up
  | cons coin rest =>
      obtain rfl : coin = true := up
      exact List.mem_cons_self

/-- Keys that are invalidated one after the other are all marked in the end, except for such
of which a clean-up set off by chance has left nothing. -/
theorem marks_stand (lasting : c.cacheTime ≠ some 0)
    (ordered : Sorted.Ascending Prod.fst c.expired) (keys : List Bytes)
    (here : key ∈ keys ∨ c.MarkedAt now key) :
    let after := keys.foldl (fun c other => c.invalidate now other) c
    after.MarkedAt now key ∨ c.cleanWait = 0 ∧ true ∈ c.coins ∧ after.Lacks key := by
  induction keys generalizing c with
  | nil => exact .inl (here.resolve_left List.not_mem_nil)
  | cons other rest ih =>
      obtain ⟨time, wait, coins⟩ := settings_invalidate c now other
      have ordered' : Sorted.Ascending Prod.fst (c.invalidate now other).expired :=
        ordered_invalidate ordered other
      have later := ih (c := c.invalidate now other) (time ▸ lasting) ordered'
      rw [wait, coins] at later
      have kept (stands : key ∈ rest ∨ (c.invalidate now other).MarkedAt now key) :=
        (later stands).imp_right fun gone =>
          (⟨gone.1, List.mem_of_mem_tail gone.2.1, gone.2.2⟩ :
            c.cleanWait = 0 ∧ true ∈ c.coins ∧ _)
      by_cases inRest : key ∈ rest
      · exact kept (.inl inRest)
      · have here' : key = other ∨ c.MarkedAt now key := here.imp_left fun member =>
          (List.mem_cons.1 member).resolve_right inRest
        rcases mark_invalidate lasting ordered here' with marked | ⟨up, waits, lacks⟩
        · exact kept (.inr marked)
        · exact .inr ⟨waits, mem_of_headD up, lacks.invalidateEach ordered' rest⟩

end SliceCache

namespace StoreCache

theorem invalidate_eq (c : StoreCache) (key : Bytes) :
    (c.invalidate key).slices = c.slices.map (fun s => s.invalidate c.time key) ∧
      (c.invalidate key).time = c.time ∧ (c.invalidate key).monitor = c.monitor := by
  unfold invalidate
  cases kept : c.slices with
  | none => exact ⟨kept, rfl, rfl⟩
  | some s => exact ⟨rfl, rfl, rfl⟩

theorem invalidateEach_eq (keys : List Bytes) (c : StoreCache) :
    (keys.foldl invalidate c).slices =
        c.slices.map (fun s => keys.foldl (fun s key => s.invalidate c.time key) s) ∧
      (keys.foldl invalidate c).time = c.time ∧
      (keys.foldl invalidate c).monitor = c.monitor := by
  induction keys generalizing c with
  | nil => exact ⟨Option.map_id'.symm, rfl, rfl⟩
  | cons key rest ih =>
      obtain ⟨slices, time, monitor⟩ := c.invalidate_eq key
      obtain ⟨slices', time', monitor'⟩ := ih (c.invalidate key)
      refine ⟨?_, time'.trans time, monitor'.trans monitor⟩
      rw [List.foldl_cons, slices', slices, time, Option.map_map]
      rfl

end StoreCache

/-! ## The error of a flush -/

namespace WriteBuffer

/-- Writing what is held back fails for good at one of the batches. -/
def FailsWith (b : WriteBuffer) (backend : Backend) (f : Fault) : Prop :=
  ∃ done batch rest before, b.batches = done ++ batch :: rest ∧
    writeAll b.options.writeAttempts done backend = (.ok (), before) ∧
    (retry b.options.writeAttempts (Backend.mutateMany batch) before).1 = .error f

/-- Writing batches in turn ends with the error of the first that fails for good. -/
theorem writeAll_eq_error_iff {attempts : Nat} {batches : List Batch} {backend : Backend}
    {f : Fault} : (writeAll attempts batches backend).1 = .error f ↔
      ∃ done batch rest before, batches = done ++ batch :: rest ∧
        writeAll attempts done backend = (.ok (), before) ∧
        (retry attempts (Backend.mutateMany batch) before).1 = .error f := by
  induction batches generalizing backend with
  | nil =>
      constructor
      · intro never
        cases never
      · rintro ⟨done, batch, rest, before, shape, -⟩
        simp at shape
  | cons batch rest ih =>
      rcases tried : retry attempts (Backend.mutateMany batch) backend with ⟨fault | u, after⟩
      · simp only [writeAll, tried]
        constructor
        · intro same
          exact ⟨[], batch, rest, backend, rfl, rfl, by rw [tried]; exact same⟩
        · rintro ⟨done, batch', rest', before, shape, written, fails⟩
          cases done with
          | nil =>
              obtain ⟨rfl, rfl⟩ := List.cons.inj shape
              obtain rfl : backend = before := congrArg Prod.snd written
              rwa [tried] at fails
          | cons first done =>
              obtain ⟨rfl, -⟩ := List.cons.inj shape
              simp [writeAll, tried] at written
      · simp only [writeAll, tried]
        rw [ih]
        constructor
        · rintro ⟨done, batch', rest', before, rfl, written, fails⟩
          refine ⟨batch :: done, batch', rest', before, rfl, ?_, fails⟩
          simpa only [writeAll, tried] using written
        · rintro ⟨done, batch', rest', before, shape, written, fails⟩
          cases done with
          | nil =>
              obtain ⟨rfl, -⟩ := List.cons.inj shape
              obtain rfl : backend = before := congrArg Prod.snd written
              rw [tried] at fails
              cases fails
          | cons first done =>
              obtain ⟨rfl, rfl⟩ := List.cons.inj shape
              simp only [writeAll, tried] at written
              exact ⟨done, batch', rest', before, rfl, written, fails⟩

/-- A flush answers the error of the batch at which writing fails for good, and no other. -/
theorem flush_eq_error_iff (o : TransactionOptions) (writes : List Write) (s : Storage)
    (f : Fault) : ((holding o writes).flush s).1 = .error f ↔
      ((holding o writes).arranged s.nextOrder).FailsWith s.backend f := by
  rw [FailsWith, ← writeAll_eq_error_iff]
  by_cases nothing : (holding o writes).count = 0
  · rw [flush_of_nothing nothing, holding_of_count nothing]
    rfl
  · rw [flush_of_something nothing]
    rfl

end WriteBuffer

/-! ## What a session sees -/

theorem Write.ascending_replay (writes : List Write) (name : String) (key : Bytes)
    {row : List Entry} (ascending : Sorted.Ascending Entry.column row) :
    Sorted.Ascending Entry.column (replay writes name key row) := by
  induction writes generalizing row with
  | nil => exact ascending
  | cons w rest ih =>
      by_cases reaches : w.reaches name key = true
      · simpa [replay, reaches] using ih (Mutation.ascending_applyTo ascending w.mutation)
      · simpa [replay, reaches] using ih ascending

/-- Writes may be replayed once more. -/
theorem Write.replay_replay (writes : List Write) (name : String) (key : Bytes)
    {row : List Entry} (ascending : Sorted.Ascending Entry.column row) :
    replay writes name key (replay writes name key row) = replay writes name key row := by
  have again := WriteBuffer.applied_holding .default writes name key
    (ascending_replay writes name key ascending)
  have once := WriteBuffer.applied_holding .default writes name key ascending
  rw [← again, ← once]
  cases (WriteBuffer.holding .default writes).row? name key with
  | none => rfl
  | some m => exact Mutation.applyTo_applyTo ascending m

namespace Session

variable {x : Session} {o : TransactionOptions} {s : Storage}

theorem held_flushed (l : Ledger) (outcome : Outcome Unit) :
    (l.flushed outcome).held = WriteBuffer.leftover l.held outcome := by
  cases outcome <;> rfl

/-- A call adds to what is held back, and then tries to write all of it or nothing. -/
theorem held_perform_cases (x : Session) (s : Storage) {call : Call} (goesOn : call ≠ .rollback) :
    let all := x.ledger.held ++ (call.write? s).toList
    x.attempts s call = all ∧
        (x.perform s call).2.1.ledger.held = WriteBuffer.leftover all (x.perform s call).1 ∨
      x.attempts s call = [] ∧ (x.perform s call).2.1.ledger.held = all := by
  cases call with
  | rollback => exact absurd rfl goesOn
  | flush =>
      left
      simp only [Call.write?, Option.toList_none, List.append_nil]
      exact ⟨rfl, held_flushed x.ledger _⟩
  | commit =>
      left
      simp only [Call.write?, Option.toList_none, List.append_nil]
      exact ⟨rfl, held_flushed x.ledger _⟩
  | mutate cache key m =>
      have ledger : (x.perform s (.mutate cache key m)).2.1.ledger =
          x.noted s cache key m (x.perform s (.mutate cache key m)).1 := rfl
      rw [ledger]
      unfold noted attempts
      cases place : s.caches[cache]? with
      | none =>
          right
          simp [Call.write?, place]
      | some c =>
          simp only [Call.write?, place, Option.map_some, Option.toList_some]
          by_cases full : m.total ≠ 0 ∧ (x.ledger.note ⟨cache, c.name, key, m⟩).isFull
              x.transaction.buffer.options = true
          · rw [if_pos full, if_pos full]
            exact .inl ⟨rfl, held_flushed _ _⟩
          · rw [if_neg full, if_neg full]
            exact .inr ⟨rfl, rfl⟩

/-- Nothing is held back but what was before or the call issues. -/
theorem mem_of_mem_held_perform {call : Call} (goesOn : call ≠ .rollback) {w : Write}
    (member : w ∈ (x.perform s call).2.1.ledger.held) :
    w ∈ x.ledger.held ∨ call.write? s = some w := by
  have all : w ∈ x.ledger.held ++ (call.write? s).toList := by
    rcases held_perform_cases x s goesOn with ⟨-, left_⟩ | ⟨-, left_⟩
    · rw [left_] at member
      cases outcome : (x.perform s call).1 with
      | ok u =>
          rw [outcome] at member
          cases member
      | error fault =>
          rw [outcome] at member
          exact member
    · exact left_ ▸ member
  simpa using all

/-- Whatever becomes of a call, the session sees the rows with what the call issues. -/
theorem sees_perform (ordered : s.Sound) (sound : x.Sound o s) {call : Call}
    (goesOn : call ≠ .rollback) (name : String) (key : Bytes) :
    (x.perform s call).2.1.sees (x.perform s call).2.2 name key =
      Write.replay (call.write? s).toList name key (x.sees s name key) := by
  obtain ⟨after, performed⟩ := perform_spec ordered sound call
  have flushed := performed.flushed
  have all : Write.replay (x.ledger.held ++ (call.write? s).toList) name key
      (s.backend.rowOf name key) = Write.replay (call.write? s).toList name key
        (x.sees s name key) := List.foldl_append ..
  have ascending := ordered.backend.ascending name key
  rw [← all, sees, performed.backend]
  rcases held_perform_cases x s goesOn with ⟨taken, left_⟩ | ⟨taken, left_⟩
  · rw [left_]
    rw [taken] at flushed
    cases outcome : (x.perform s call).1 with
    | ok u => exact flushed.done outcome name key
    | error fault =>
        rcases flushed.rows name key with same | ⟨-, replayed⟩
        · rw [same]
          rfl
        · rw [replayed]
          exact Write.replay_replay _ name key ascending
  · rw [left_]
    rw [taken] at flushed
    rcases flushed.rows name key with same | ⟨never, -⟩
    · rw [same]
    · cases never

theorem perform_sound (ordered : s.Sound) (sound : x.Sound o s) (call : Call) :
    (x.perform s call).2.2.Sound ∧ (x.perform s call).2.1.Sound o (x.perform s call).2.2 ∧
      (x.perform s call).2.2.places = s.places := by
  obtain ⟨after, performed⟩ := perform_spec ordered sound call
  have places := performed.places
  refine ⟨ordered.congr places ?_ ?_, performed.session.congr places, places⟩
  · rw [performed.backend]
    exact performed.flushed.names
  · rw [performed.backend]
    exact performed.flushed.sound

theorem coherent_perform {right : Standard} (coherent : s.Coherent right) (fair : right.Fair)
    (sound : x.Sound o s) (call : Call) : (x.perform s call).2.2.Coherent right := by
  obtain ⟨after, performed⟩ := perform_spec coherent.sound sound call
  exact coherent.performed fair performed

theorem ascending_sees (ordered : s.Sound) (x : Session) (name : String) (key : Bytes) :
    Sorted.Ascending Entry.column (x.sees s name key) :=
  Write.ascending_replay _ name key (ordered.backend.ascending name key)

/-- Once nothing is held back the backend has the rows as the session saw them. -/
theorem rowOf_of_settled (ordered : s.Sound) (sound : x.Sound o s) {call : Call}
    (settles : call.Settles) (goesOn : call ≠ .rollback) (ok : (x.perform s call).1 = .ok ())
    (name : String) (key : Bytes) :
    (x.perform s call).2.2.backend.rowOf name key = x.sees s name key := by
  have seen := sees_perform ordered sound goesOn name key
  have nothing : call.write? s = none := by
    cases call with
    | mutate _ _ _ => exact settles.elim
    | flush | commit | rollback => rfl
  rw [nothing, sees, held_perform settles ok] at seen
  exact seen

/-- Whatever becomes of calls in turn, the session sees the rows with all that they issue. -/
theorem sees_runCalls (calls : List Call) (ordered : s.Sound) (sound : x.Sound o s)
    (goesOn : ∀ call ∈ calls, call ≠ .rollback) (name : String) (key : Bytes) :
    (runCalls calls x s).2.1.sees (runCalls calls x s).2.2 name key =
      Write.replay (calls.filterMap (Call.write? s)) name key (x.sees s name key) := by
  induction calls generalizing x s with
  | nil => rfl
  | cons call rest ih =>
      obtain ⟨ordered', sound', places⟩ := perform_sound ordered sound call
      have same : rest.filterMap (Call.write? (x.perform s call).2.2) =
          rest.filterMap (Call.write? s) :=
        congrArg (rest.filterMap ·) (funext fun call => call.write?_congr places)
      have later := ih ordered' sound' fun call member => goesOn call (List.mem_cons_of_mem _ member)
      rw [same, sees_perform ordered sound (goesOn call List.mem_cons_self)] at later
      rw [List.filterMap_cons]
      refine later.trans ?_
      cases call.write? s <;> rfl

end Session

/-! ## Where nothing fails -/

namespace Backend

theorem outcomes_applyBatch (b : Backend) (batch : Batch) (reached : String → Bytes → Bool) :
    (b.applyBatch batch reached).outcomes = b.outcomes := by
  rw [applyBatch_eq_foldl]
  generalize batch.cells = cells
  induction cells generalizing b with
  | nil => rfl
  | cons cell rest ih =>
      rw [List.foldl_cons, ih]
      split
      · simp only [mutateRow, openTable]
        split <;> rfl
      · rfl

theorem mutateMany_of_willing {b : Backend} (willing : b.outcomes = []) (batch : Batch) :
    (b.mutateMany batch).1 = .ok () ∧ (b.mutateMany batch).2.outcomes = [] := by
  unfold mutateMany
  rw [willing]
  exact ⟨rfl, outcomes_applyBatch _ batch _⟩

end Backend

namespace WriteBuffer

theorem writeAll_of_willing (attempts : Nat) (batches : List Batch) {backend : Backend}
    (willing : backend.outcomes = []) :
    (writeAll attempts batches backend).1 = .ok () ∧
      (writeAll attempts batches backend).2.outcomes = [] := by
  induction batches generalizing backend with
  | nil => exact ⟨rfl, willing⟩
  | cons batch rest ih =>
      obtain ⟨ok, willing'⟩ := Backend.mutateMany_of_willing willing batch
      have tried := retry_decisive attempts (Backend.mutateMany batch) backend (by rw [ok]; rfl)
      simp only [writeAll, tried]
      rcases wrote : Backend.mutateMany batch backend with ⟨outcome, after⟩
      rw [wrote] at ok willing'
      obtain rfl := ok
      exact ih willing'

theorem flush_of_willing (b : WriteBuffer) {s : Storage} (willing : s.backend.outcomes = []) :
    (b.flush s).1 = .ok () ∧ (b.flush s).2.2.backend.outcomes = [] := by
  by_cases nothing : b.count = 0
  · rw [flush_of_nothing nothing]
    exact ⟨rfl, willing⟩
  · rw [flush_of_something nothing, backend_invalidateHeld]
    exact writeAll_of_willing b.options.writeAttempts (b.arranged s.nextOrder).batches willing

end WriteBuffer

namespace Session

variable {x : Session} {o : TransactionOptions} {s : Storage}

/-- Where nothing is bound to fail no call does. -/
theorem perform_of_willing (sound : x.Sound o s) (willing : s.backend.outcomes = [])
    (call : Call) : (x.perform s call).1 = .ok () ∧
      (x.perform s call).2.2.backend.outcomes = [] := by
  have flushed := x.transaction.buffer.flush_of_willing willing
  cases call with
  | rollback => exact ⟨rfl, willing⟩
  | flush => exact flushed
  | commit =>
      have alone : x.transaction.inner = [] := by rw [sound.buffer]
      simp only [perform, Transaction.commit_of_alone alone]
      exact flushed
  | mutate cache key m =>
      simp only [perform, Storage.mutateEntries]
      cases s.caches[cache]? with
      | none => exact ⟨rfl, willing⟩
      | some c =>
          simp only [Transaction.mutate, WriteBuffer.mutate]
          split
          · exact ⟨rfl, willing⟩
          · split
            · exact WriteBuffer.flush_of_willing _ willing
            · exact ⟨rfl, willing⟩

theorem runCalls_of_willing (calls : List Call) (ordered : s.Sound) (sound : x.Sound o s)
    (willing : s.backend.outcomes = []) :
    ∀ outcome ∈ (runCalls calls x s).1, outcome = .ok () := by
  induction calls generalizing x s with
  | nil => exact fun _ member => by cases member
  | cons call rest ih =>
      obtain ⟨ok, willing'⟩ := perform_of_willing sound willing call
      obtain ⟨ordered', sound', -⟩ := perform_sound ordered sound call
      intro outcome member
      rcases List.mem_cons.1 member with rfl | later
      · exact ok
      · exact ih ordered' sound' willing' outcome later

/-- After a flush that succeeds the row is what the session sees. -/
theorem rowOf_runCalls_flush (calls : List Call) (x : Session) (s : Storage)
    (ok : ∀ outcome ∈ (runCalls (calls ++ [.flush]) x s).1, outcome = .ok ()) (name : String)
    (key : Bytes) :
    (runCalls (calls ++ [.flush]) x s).2.1.sees (runCalls (calls ++ [.flush]) x s).2.2 name key =
      (runCalls (calls ++ [.flush]) x s).2.2.backend.rowOf name key := by
  induction calls generalizing x s with
  | nil =>
      have none : (x.perform s .flush).2.1.ledger.held = [] :=
        held_perform (show Call.Settles .flush from trivial) (ok _ List.mem_cons_self)
      exact congrArg (Write.replay · name key _) none
  | cons call rest ih =>
      exact ih _ _ fun outcome member => ok outcome (List.mem_cons_of_mem _ member)

end Session

/-! ## Beside others -/

/-- Writes that go elsewhere hold nothing of the row. -/
theorem WriteBuffer.row?_holding_of_misses {o : TransactionOptions} {writes : List Write}
    {name : String} {key : Bytes} (misses : ∀ w ∈ writes, w.reaches name key = false) :
    (holding o writes).row? name key = none := by
  induction writes using List.reverseRecOn with
  | nil => rfl
  | append_singleton writes w ih =>
      have before := ih fun w member => misses w (List.mem_append_left _ member)
      have apart : ¬ (name = w.name ∧ key = w.key) := by
        rintro ⟨rfl, rfl⟩
        simpa [Write.reaches] using misses w (by simp)
      rw [holding_concat, accept]
      split
      · exact before
      · rw [row?_hold, if_neg apart]
        exact before

/-- A call that tries to write other rows only leaves the row as it is. -/
theorem Session.rowOf_perform_of_misses {z : Session} {o : TransactionOptions} {s : Storage}
    (ordered : s.Sound) (sound : z.Sound o s) {call : Call} {name : String} {key : Bytes}
    (misses : ∀ w ∈ z.attempts s call, w.reaches name key = false) :
    (z.perform s call).2.2.backend.rowOf name key = s.backend.rowOf name key := by
  obtain ⟨after, performed⟩ := perform_spec ordered sound call
  rw [performed.backend]
  rcases performed.flushed.rows name key with same | ⟨held, -⟩
  · exact same
  · rw [WriteBuffer.row?_holding_of_misses misses] at held
    cases held

/-- What a session is called to do by an action. -/
def Action.callOf (i : Nat) : Action → Option Call
  | .call j asked => if j = i then some asked else none
  | _ => none

namespace System

/-- Session `i` does not give up in this action, and no other session tries to write the
row. -/
def Spares (y : System) (i : Nat) (name : String) (key : Bytes) : Action → Prop
  | .call j call =>
      if j = i then call ≠ .rollback
      else ∀ z, y.sessions[j]? = some z →
        ∀ w ∈ z.attempts y.storage call, w.reaches name key = false
  | _ => True

/-- Throughout the actions session `i` does not give up, and no other session tries to write
the row. -/
def Undisturbed (i : Nat) (name : String) (key : Bytes) : List Action → System → Prop
  | [], _ => True
  | action :: rest, y => y.Spares i name key action ∧ Undisturbed i name key rest (y.step action)

variable {y : System} {right : Standard}

theorem places_step (coherent : y.Coherent right) (fair : right.Fair) (action : Action) :
    (y.step action).storage.places = y.storage.places := by
  have withSession : ∀ (i : Nat) (f : Session → Session × Storage),
      (∀ x ∈ y.sessions, (f x).2.places = y.storage.places) →
        (y.withSession i f).storage.places = y.storage.places := by
    intro i f same
    unfold System.withSession
    cases found : y.sessions[i]? with
    | none => rfl
    | some x => exact same x (List.mem_of_getElem? found)
  cases action with
  | start options => rfl
  | call i call =>
      refine withSession i _ fun x member => ?_
      obtain ⟨o, sound⟩ := coherent.sessions x member
      exact (Session.perform_sound coherent.storage.sound sound call).2.2
  | read i cache q => exact withSession i _ fun x _ => (coherent.storage.getSlice fair ..).2
  | readMany i cache keys slice =>
      exact withSession i _ fun x _ => (coherent.storage.getSlices fair ..).2
  | tend cache action =>
      exact Storage.places_onCache fun c _ => c.place_perform action
  | closeCache cache => exact Storage.places_onCache fun _ _ => rfl
  | pass ticks => exact (coherent.storage.advance ticks).2
  | failReads cache failure times => exact Storage.places_onCache fun _ _ => rfl
  | decideWrites outcomes | shuffle orders => rfl
  | toss cache coins => exact Storage.places_onCache fun _ _ => rfl

/-- What a session does that reads is not seen. -/
theorem sees_withSession {i : Nat} {x : Session} (session : y.sessions[i]? = some x) (j : Nat)
    (f : Session → Session × Storage) (unchanged : ∀ z, (f z).1 = z)
    (backend : ∀ z, (f z).2.backend = y.storage.backend) (name : String) (key : Bytes) :
    ∃ x', (y.withSession j f).sessions[i]? = some x' ∧
      x'.sees (y.withSession j f).storage name key = x.sees y.storage name key := by
  unfold System.withSession
  cases found : y.sessions[j]? with
  | none => exact ⟨x, session, rfl⟩
  | some z =>
      refine ⟨x, ?_, by simp only [Session.sees, backend]⟩
      obtain ⟨bound, rfl⟩ := List.getElem?_eq_some_iff.1 found
      simp only [unchanged, List.set_getElem_self]
      exact session

/-- One action shows a session what it issues itself in it, and nothing else. -/
theorem sees_step (coherent : y.Coherent right) {i : Nat} {x : Session}
    (session : y.sessions[i]? = some x) {name : String} {key : Bytes} {action : Action}
    (spares : y.Spares i name key action) :
    ∃ x', (y.step action).sessions[i]? = some x' ∧
      x'.sees (y.step action).storage name key =
        Write.replay ((action.callOf i).bind (Call.write? y.storage)).toList name key
          (x.sees y.storage name key) := by
  have ordered := coherent.storage.sound
  have bound : i < y.sessions.length := (List.getElem?_eq_some_iff.1 session).1
  cases action with
  | start options =>
      exact ⟨x, (List.getElem?_append_left bound).trans session, rfl⟩
  | call j call =>
      simp only [Spares] at spares
      simp only [step, System.withSession, Action.callOf]
      by_cases here : j = i
      · subst here
        rw [if_pos rfl] at spares
        obtain ⟨o, sound⟩ := coherent.sessions x (List.mem_of_getElem? session)
        simp only [session, List.getElem?_set_self bound, if_true, Option.bind_some]
        exact ⟨_, rfl, Session.sees_perform ordered sound spares name key⟩
      · rw [if_neg here] at spares
        simp only [if_neg here, Option.bind_none, Option.toList_none]
        cases found : y.sessions[j]? with
        | none => exact ⟨x, session, rfl⟩
        | some z =>
            obtain ⟨o, sound⟩ := coherent.sessions z (List.mem_of_getElem? found)
            refine ⟨x, (List.getElem?_set_ne here).trans session, ?_⟩
            simp only [Session.sees]
            rw [Session.rowOf_perform_of_misses ordered sound (spares z found)]
            rfl
  | read j cache q =>
      refine sees_withSession session j _ (fun _ => ?_) (fun _ => ?_) name key
      · rfl
      · exact Storage.backend_readThrough ..
  | readMany j cache keys slice =>
      refine sees_withSession session j _ (fun _ => ?_) (fun _ => ?_) name key
      · rfl
      · exact Storage.backend_readThrough ..
  | tend cache action => exact ⟨x, session, rfl⟩
  | closeCache cache => exact ⟨x, session, rfl⟩
  | pass ticks => exact ⟨x, session, rfl⟩
  | failReads cache failure times => exact ⟨x, session, rfl⟩
  | decideWrites outcomes | shuffle orders => exact ⟨x, session, rfl⟩
  | toss cache coins => exact ⟨x, session, rfl⟩

/-- A run shows a session what it issues itself, and nothing else. -/
theorem sees_run (fair : right.Fair) (actions : List Action) (coherent : y.Coherent right)
    {i : Nat} {x : Session} (session : y.sessions[i]? = some x) {name : String} {key : Bytes}
    (undisturbed : Undisturbed i name key actions y) :
    ∃ x', (y.run actions).sessions[i]? = some x' ∧
      x'.sees (y.run actions).storage name key =
        Write.replay ((actions.filterMap (Action.callOf i)).filterMap (Call.write? y.storage))
          name key (x.sees y.storage name key) := by
  induction actions generalizing y x with
  | nil => exact ⟨x, session, rfl⟩
  | cons action rest ih =>
      obtain ⟨spares, later⟩ := undisturbed
      obtain ⟨x', session', seen⟩ := sees_step coherent session spares
      obtain ⟨x'', session'', seen'⟩ := ih (coherent_step fair coherent action) session' later
      refine ⟨x'', session'', ?_⟩
      have same : Call.write? (y.step action).storage = Call.write? y.storage :=
        funext fun call => call.write?_congr (places_step coherent fair action)
      rw [seen, same] at seen'
      refine seen'.trans ?_
      rw [List.filterMap_cons]
      cases action.callOf i with
      | none => rfl
      | some call =>
          rw [Option.bind_some, List.filterMap_cons]
          cases call.write? y.storage <;> rfl

theorem goesOn_of_undisturbed {i : Nat} {name : String} {key : Bytes} {actions : List Action}
    (undisturbed : Undisturbed i name key actions y) :
    ∀ call ∈ actions.filterMap (Action.callOf i), call ≠ .rollback := by
  induction actions generalizing y with
  | nil => exact fun _ member => by cases member
  | cons action rest ih =>
      obtain ⟨spares, later⟩ := undisturbed
      intro call member
      obtain ⟨action', inActions, here⟩ := List.mem_filterMap.1 member
      rcases List.mem_cons.1 inActions with rfl | inRest
      · cases action' with
        | call j asked =>
            simp only [Action.callOf] at here
            split at here
            · rename_i own
              obtain rfl := Option.some.inj here
              simpa only [Spares, own, if_true] using spares
            · cases here
        | _ => cases here
      · exact ih later call (List.mem_filterMap.2 ⟨action', inRest, here⟩)

/-- Every reader of a cache is answered the rows of the backend, with what it holds back
itself. -/
def ReadsRows (y : System) (cache : Nat) (name : String) : Prop :=
  ∀ z ∈ y.sessions,
    (∀ q entries, (y.storage.getSlice cache z.transaction q).1 = .ok entries →
      entries = q.slice.apply (z.sees y.storage name q.key)) ∧
    ∀ keys slice answers, (y.storage.getSlices cache z.transaction keys slice).1 = .ok answers →
      ∀ key, answers.lookup key =
        if key ∈ keys then some (slice.apply (z.sees y.storage name key)) else none

theorem readsRows_of_coherent (coherent : y.Coherent Table.Answers) {cache : Nat}
    {c : StoreCache} (there : y.storage.caches[cache]? = some c) : y.ReadsRows cache c.name := by
  intro z member
  obtain ⟨o, sound⟩ := coherent.sessions z member
  exact ⟨fun q entries read => (coherent.getSlice_spec sound there q).1 entries read,
    fun keys slice answers read => (coherent.getSlices_spec sound there keys slice).1 answers read⟩

/-- A session that sees the same rows is answered the same. -/
theorem reads_agree {y y' : System} (coherent : y.Coherent Table.Answers)
    (coherent' : y'.Coherent Table.Answers) {x : Session} {o : TransactionOptions}
    (sound : x.Sound o y.storage) (sound' : x.Sound o y'.storage) {k : Nat} {c c' : StoreCache}
    (there : y.storage.caches[k]? = some c) (there' : y'.storage.caches[k]? = some c')
    (name : c'.name = c.name)
    (same : ∀ key, x.sees y'.storage c.name key = x.sees y.storage c.name key)
    (willing : c.monitor.failing = 0) (willing' : c'.monitor.failing = 0) :
    (∀ q, ∃ entries, (y.storage.getSlice k x.transaction q).1 = .ok entries ∧
      (y'.storage.getSlice k x.transaction q).1 = .ok entries) ∧
    ∀ keys slice, ∃ answers answers',
      (y.storage.getSlices k x.transaction keys slice).1 = .ok answers ∧
      (y'.storage.getSlices k x.transaction keys slice).1 = .ok answers' ∧
      ∀ key, answers'.lookup key = answers.lookup key := by
  constructor
  · intro q
    obtain ⟨right, succeeds⟩ := coherent.getSlice_spec sound there q
    obtain ⟨right', succeeds'⟩ := coherent'.getSlice_spec sound' there' q
    obtain ⟨entries, read⟩ := succeeds willing
    obtain ⟨entries', read'⟩ := succeeds' willing'
    refine ⟨entries, read, read'.trans (congrArg Except.ok ?_)⟩
    rw [right entries read, right' entries' read', name, same]
  · intro keys slice
    obtain ⟨right, succeeds⟩ := coherent.getSlices_spec sound there keys slice
    obtain ⟨right', succeeds'⟩ := coherent'.getSlices_spec sound' there' keys slice
    obtain ⟨answers, read⟩ := succeeds willing
    obtain ⟨answers', read'⟩ := succeeds' willing'
    refine ⟨answers, answers', read, read', fun key => ?_⟩
    rw [right answers read, right' answers' read', name, same]

end System

namespace Session

variable {x : Session} {o : TransactionOptions} {s : Storage}

theorem flush_of_error (ordered : s.Sound) (sound : x.Sound o s) {f : Fault}
    (failed : (x.perform s .flush).1 = .error f) : (x.perform s .flush).2.1 = x := by
  obtain ⟨-, -, -, session, ledger⟩ := flush_spec ordered sound
  have failed : (x.flush s).1 = .error f := failed
  rw [failed] at ledger
  have transaction := session.buffer
  rw [ledger] at transaction
  show x.flush s |>.2.1 = x
  rcases flushed : (x.flush s).2.1 with ⟨t, l⟩
  rw [flushed] at transaction ledger
  obtain rfl := ledger
  obtain rfl := transaction.trans sound.buffer.symm
  rfl

/-- Whatever becomes of a flush, every held row is marked in the cache of its store, except
for such of which a clean-up set off by chance has left nothing there. -/
theorem flush_marks {right : Standard} (coherent : s.Coherent right) (sound : x.Sound o s)
    {k : Nat} {c : StoreCache} (there : s.caches[k]? = some c) :
    ∃ c', (x.perform s .flush).2.2.caches[k]? = some c' ∧ c'.name = c.name ∧
      c'.monitor = c.monitor ∧
      ∀ before, c.slices = some before → ∃ after, c'.slices = some after ∧
        ∀ key, (x.transaction.buffer.row? c.name key).isSome →
          after.MarkedAt c.time key ∨
            before.cleanWait = 0 ∧ true ∈ before.coins ∧ after.Lacks key := by
  obtain ⟨after, performed⟩ := perform_spec coherent.sound sound .flush
  have fits := (WriteBuffer.fits_holding sound.through o).arranged s.nextOrder
  let keys := ((WriteBuffer.holding o x.ledger.held).arranged s.nextOrder).heldKeys k
  have caches : (x.perform s .flush).2.2.caches[k]? =
      some (keys.foldl StoreCache.invalidate c) := by
    rw [performed.caches, there]
    rfl
  obtain ⟨slices, -, monitor⟩ := c.invalidateEach_eq keys
  refine ⟨_, caches, (Prod.mk.inj (StoreCache.place_invalidateEach keys c)).2, monitor, ?_⟩
  intro before kept
  rw [kept] at slices
  refine ⟨_, slices, fun key held => ?_⟩
  rw [sound.buffer, ← WriteBuffer.row?_arranged (WriteBuffer.sound_holding ..) s.nextOrder] at held
  have within := (coherent.caches c (List.mem_of_getElem? there)).slices before kept
  exact SliceCache.marks_stand within.lasting within.ordered keys
    (.inl (WriteBuffer.mem_heldKeys fits coherent.oneEach there held))

/-- Calls and a flush of which nothing fails leave the rows as the session saw them, with all
that the calls issue. -/
theorem rowOf_runCalls_of_willing (ordered : s.Sound) (sound : x.Sound o s) {calls : List Call}
    (goesOn : ∀ call ∈ calls, call ≠ .rollback) (orders : List RowOrder) (name : String)
    (key : Bytes) :
    let ideal := runCalls (calls ++ [.flush]) x ((s.expecting []).shuffled orders)
    (∀ outcome ∈ ideal.1, outcome = .ok ()) ∧ ideal.2.2.backend.rowOf name key =
      Write.replay (calls.filterMap (Call.write? s)) name key (x.sees s name key) := by
  intro ideal
  have ordered₀ := (ordered.expecting []).shuffled orders
  have sound₀ : x.Sound o ((s.expecting []).shuffled orders) := sound.congr rfl
  have succeeds : ∀ outcome ∈ ideal.1, outcome = .ok () :=
    runCalls_of_willing _ ordered₀ sound₀ rfl
  have goesOn' : ∀ call ∈ calls ++ [.flush], call ≠ .rollback := by
    intro call member
    rcases List.mem_append.1 member with before | last
    · exact goesOn call before
    · obtain rfl := List.mem_singleton.1 last
      exact Call.noConfusion
  refine ⟨succeeds, ?_⟩
  calc ideal.2.2.backend.rowOf name key
      = ideal.2.1.sees ideal.2.2 name key := (rowOf_runCalls_flush _ x _ succeeds name key).symm
    _ = Write.replay ((calls ++ [Call.flush]).filterMap (Call.write? s)) name key
          (x.sees s name key) := sees_runCalls _ ordered₀ sound₀ goesOn' name key
    _ = Write.replay (calls.filterMap (Call.write? s)) name key (x.sees s name key) := by
      rw [List.filterMap_append]
      exact congrArg (Write.replay · name key _) (List.append_nil _)

end Session

/-- A flush that fails leaves the session as it was, and the rows as it sees them. -/
theorem System.step_of_failed_flush {y : System} {i : Nat} {x : Session} {o : TransactionOptions}
    (ordered : y.storage.Sound) (session : y.sessions[i]? = some x) (sound : x.Sound o y.storage)
    {f : Fault} (fails : (x.perform y.storage .flush).1 = .error f) :
    let failed := y.step (.call i .flush)
    failed.sessions[i]? = some x ∧ failed.storage = (x.perform y.storage .flush).2.2 ∧
      x.Sound o failed.storage ∧
      ∀ name key, x.sees failed.storage name key = x.sees y.storage name key := by
  intro failed
  have unchanged := Session.flush_of_error ordered sound fails
  have goesOn : Call.flush ≠ Call.rollback := Call.noConfusion
  have kept := (Session.perform_sound ordered sound .flush).2.1
  have seen := Session.sees_perform ordered sound goesOn
  have step : failed = ⟨(x.perform y.storage .flush).2.2, y.sessions.set i x⟩ := by
    simp only [failed, System.step, withSession, session]
    exact congrArg (fun z => (⟨_, y.sessions.set i z⟩ : System)) unchanged
  rw [unchanged] at kept seen
  rw [step]
  exact ⟨List.getElem?_set_self (List.getElem?_eq_some_iff.1 session).1, rfl, kept, seen⟩

/-- A flush that fails answers the error of the batch that failed for good and leaves the
session as it was.  Every held row is marked then, except for such of which a clean-up set
off by chance has left nothing; all readers are answered the rows of the backend, and the
session what it was answered before.  Whatever the session goes on to do short of a rollback,
whatever fails of it and whatever others do elsewhere: after a flush that succeeds the rows
are those of the same calls where nothing fails, in whatever orders either goes through them. -/
theorem failed_flush_keeps_all (rows : List Cell) {openings : List Opening}
    (oneEach : (openings.map Opening.name).Nodup) (actions : List Action) {i : Nat} {x : Session}
    (session : ((System.begin (.prepared rows openings)).run actions).sessions[i]? = some x) :
    let y := (System.begin (.prepared rows openings)).run actions
    let s := y.storage
    let failed := y.step (.call i .flush)
    (∀ f, (x.perform s .flush).1 = .error f ↔
      (x.transaction.buffer.arranged s.nextOrder).FailsWith s.backend f) ∧
    (∀ f, (x.perform s .flush).1 = .error f → failed.sessions[i]? = some x ∧
      ∀ k c, s.caches[k]? = some c → ∃ c', failed.storage.caches[k]? = some c' ∧
        (∀ before, c.slices = some before → ∃ after, c'.slices = some after ∧
          ∀ key, (x.transaction.buffer.row? c.name key).isSome →
            after.MarkedAt c.time key ∨
              before.cleanWait = 0 ∧ true ∈ before.coins ∧ after.Lacks key) ∧
        failed.ReadsRows k c.name ∧
        (c.monitor.failing = 0 →
          (∀ q, ∃ entries, (s.getSlice k x.transaction q).1 = .ok entries ∧
            (failed.storage.getSlice k x.transaction q).1 = .ok entries) ∧
          ∀ keys slice, ∃ answers answers',
            (s.getSlices k x.transaction keys slice).1 = .ok answers ∧
            (failed.storage.getSlices k x.transaction keys slice).1 = .ok answers' ∧
            ∀ key, answers'.lookup key = answers.lookup key)) ∧
    ∀ more name key, System.Undisturbed i name key more y →
      ∃ x', (y.run more).sessions[i]? = some x' ∧
        ((x'.perform (y.run more).storage .flush).1 = .ok () → ∀ orders,
          let ideal := Session.runCalls (more.filterMap (Action.callOf i) ++ [.flush]) x
            ((s.expecting []).shuffled orders)
          (∀ outcome ∈ ideal.1, outcome = .ok ()) ∧
          (x'.perform (y.run more).storage .flush).2.2.backend.rowOf name key =
            ideal.2.2.backend.rowOf name key) := by
  intro y s failed
  have coherent : y.Coherent Table.Answers := System.coherent_run Table.fair_answers actions
    (System.coherent_begin (Storage.coherent_prepared rows oneEach Table.Answers))
  obtain ⟨o, sound⟩ := coherent.sessions x (List.mem_of_getElem? session)
  have ordered := coherent.storage.sound
  have after : failed.Coherent Table.Answers :=
    System.coherent_step Table.fair_answers coherent (.call i .flush)
  refine ⟨?_, ?_, ?_⟩
  · intro f
    have buffer : x.transaction.buffer = .holding o x.ledger.held := by rw [sound.buffer]
    have same : (x.perform s .flush).1 = (x.transaction.buffer.flush s).1 := rfl
    rw [same, buffer]
    exact WriteBuffer.flush_eq_error_iff o x.ledger.held s f
  · intro f fails
    obtain ⟨session', storage, sound', seen⟩ :=
      System.step_of_failed_flush ordered session sound fails
    refine ⟨session', fun k c there => ?_⟩
    obtain ⟨c', there', name, monitor, marks⟩ := Session.flush_marks coherent.storage sound there
    have there' : failed.storage.caches[k]? = some c' := storage ▸ there'
    refine ⟨c', there', marks, name ▸ System.readsRows_of_coherent after there', fun willing => ?_⟩
    exact System.reads_agree coherent after sound sound' there there' name (seen c.name) willing
      (monitor ▸ willing)
  · intro more name key undisturbed
    obtain ⟨x', session', seen⟩ := System.sees_run Table.fair_answers more coherent session
      undisturbed
    refine ⟨x', session', fun ok orders => ?_⟩
    have later := System.coherent_run Table.fair_answers more coherent
    obtain ⟨o', sound'⟩ := later.sessions x' (List.mem_of_getElem? session')
    obtain ⟨succeeds, rows⟩ := Session.rowOf_runCalls_of_willing ordered sound
      (System.goesOn_of_undisturbed undisturbed) orders name key
    refine ⟨succeeds, ?_⟩
    calc (x'.perform (y.run more).storage .flush).2.2.backend.rowOf name key
        = x'.sees (y.run more).storage name key :=
          Session.rowOf_of_settled later.storage.sound sound'
            (show Call.Settles .flush from trivial) Call.noConfusion ok name key
      _ = Write.replay ((more.filterMap (Action.callOf i)).filterMap (Call.write? s)) name key
            (x.sees s name key) := seen
      _ = _ := rows.symm

/-- Rows 1 of the stores a and b are held back, each a batch of its own; the first will be
written, the second reached and refused. -/
def System.halfWritten (openings : List Opening) (b : Nat) : System :=
  (begin (.prepared [] openings)).run
    [.start ⟨1, 1, 0, false⟩, .start .default, .read 1 1 (.firstSeven [1]),
      .call 0 (.mutate 0 [1] ⟨[⟨[5], [6], none⟩], []⟩),
      .call 0 (.mutate b [1] ⟨[⟨[5], [8], none⟩], []⟩),
      .decideWrites [.applied, .failed .permanent "rejected" fun _ _ => true]]

/-- What comes of it when the flush is asked for twice, with a further change issued in
between, and what would have come of it had nothing failed. -/
theorem System.flushes_of_halfWritten :
    let y := halfWritten
      [⟨"a", .default, false, fun _ => 0⟩, ⟨"b", .default, false, fun _ => 0⟩] 1
    let more : List Action := [.call 0 .flush, .call 0 (.mutate 1 [1] ⟨[⟨[7], [9], none⟩], [[5]]⟩)]
    ∃ x x', y.sessions[0]? = some x ∧
      (x.perform y.storage .flush).1 = .error (.backend .permanent "rejected") ∧
      (y.run more).sessions[0]? = some x' ∧ (x'.perform (y.run more).storage .flush).1 = .ok () ∧
      (Session.runCalls (more.filterMap (Action.callOf 0) ++ [.flush]) x
        ((y.storage.expecting []).shuffled [])).2.2.backend.rowOf "b" [1] =
          [⟨[7], [9], none⟩] :=
  ⟨_, _, rfl, rfl, rfl, rfl, rfl⟩

/-- The flush fails after the first batch.  A further change is issued, and the next flush
leaves what would be there had nothing failed. -/
theorem half_written_is_completed :
    let y := System.halfWritten
      [⟨"a", .default, false, fun _ => 0⟩, ⟨"b", .default, false, fun _ => 0⟩] 1
    let more : List Action := [.call 0 .flush, .call 0 (.mutate 1 [1] ⟨[⟨[7], [9], none⟩], [[5]]⟩)]
    ∃ x x', y.sessions[0]? = some x ∧ (y.step (.call 0 .flush)).sessions[0]? = some x ∧
      (x.perform y.storage .flush).1 = .error (.backend .permanent "rejected") ∧
      (y.run more).sessions[0]? = some x' ∧
      (x'.perform (y.run more).storage .flush).2.2.backend.rowOf "b" [1] = [⟨[7], [9], none⟩] := by
  intro y more
  obtain ⟨x, x', session, refused, session', succeeds, ideal⟩ := System.flushes_of_halfWritten
  obtain ⟨-, keeps, completes⟩ := failed_flush_keeps_all []
    (show ((_ : List Opening).map Opening.name).Nodup by decide) _ session
  obtain ⟨later, same, rows⟩ :=
    completes more "b" [1] ⟨Call.noConfusion, Call.noConfusion, trivial⟩
  obtain rfl := Option.some.inj (session'.symm.trans same)
  exact ⟨x, x', session, (keeps _ refused).1, refused, session', (rows succeeds []).2.trans ideal⟩

/-- Five rows are held back, and each of their invalidations counts towards a clean-up for
which nothing has to wait. -/
def System.cleanedByChance : System :=
  (begin (.prepared [] [⟨"a", { CacheOptions.default with cleanWait := 0 }, false, fun _ => 0⟩])).run
    ([.start .default, .toss 0 (List.replicate 5 true),
        .decideWrites [.failed .permanent "rejected" fun _ _ => true]] ++
      [[1], [2], [3], [4], [5]].map fun key => .call 0 (.mutate 0 key ⟨[⟨[5], [6], none⟩], []⟩))

/-- A held row is not marked in another cache of its store, which goes on serving what it kept;
not in a disabled cache; and no longer after a clean-up by chance. -/
theorem held_row_is_unmarked :
    let refused : Outcome Unit := .error (.backend .permanent "rejected")
    (let y := System.halfWritten
        [⟨"a", .default, false, fun _ => 0⟩, ⟨"a", .default, false, fun _ => 0⟩,
          ⟨"b", .default, false, fun _ => 0⟩] 2
      ∃ x z, y.sessions[0]? = some x ∧ (x.perform y.storage .flush).1 = refused ∧
        (y.step (.call 0 .flush)).sessions[1]? = some z ∧
        (y.step (.call 0 .flush)).storage.backend.rowOf "a" [1] = [⟨[5], [6], none⟩] ∧
        ((y.step (.call 0 .flush)).storage.getSlice 1 z.transaction (.firstSeven [1])).1 =
          .ok []) ∧
    (let y := System.halfWritten
        [⟨"a", { CacheOptions.default with enabled := false }, false, fun _ => 0⟩,
          ⟨"b", .default, false, fun _ => 0⟩] 1
      ∃ x c, y.sessions[0]? = some x ∧ (x.perform y.storage .flush).1 = refused ∧
        (y.step (.call 0 .flush)).storage.caches[0]? = some c ∧ c.slices = none) ∧
    let y := System.cleanedByChance
    ∃ x c s, y.sessions[0]? = some x ∧ (x.perform y.storage .flush).1 = refused ∧
      (x.transaction.buffer.row? "a" [1]).isSome ∧
      (y.step (.call 0 .flush)).storage.caches[0]? = some c ∧ c.slices = some s ∧
      s.expiry? [1] = none := by
  intro refused
  exact ⟨⟨_, _, rfl, rfl, rfl, rfl, rfl⟩, ⟨_, _, rfl, rfl, rfl, rfl⟩,
    ⟨_, _, _, rfl, rfl, rfl, rfl, rfl, rfl⟩⟩

end PropertyGraph
