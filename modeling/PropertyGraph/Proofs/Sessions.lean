/-
# Proofs.Sessions -- a transaction in use, beside an account of its writes

A session is a transaction together with a ledger, which is kept by looking at the
calls and their outcomes only: every issued write is held back until a flush takes it
along or a rollback gives it up.

* `Session.Sound` ties the two: the transaction's buffer is the one that the held back
  writes of the ledger fill, and nothing else.
* `Session.perform_spec` is all that a call can do: it flushes the writes it attempts
  (perhaps none), keeps the session sound, and enters into the ledger what became of
  them.
-/
import PropertyGraph.Proofs.Flushing
import PropertyGraph.Proofs.CachedReads

namespace PropertyGraph

set_option autoImplicit false

/-- What a transaction has issued. -/
structure Ledger where
  /-- Writes whose fate is decided, in the order they were issued; whether they were
  written. -/
  settled : List (Write × Bool)
  /-- Later writes, which are held back. -/
  held : List Write

namespace Ledger

def empty : Ledger := ⟨[], []⟩

/-- All writes in the order they were issued. -/
def issued (l : Ledger) : List Write := l.settled.map Prod.fst ++ l.held

/-- The writes that were written, in the order they were issued. -/
def written (l : Ledger) : List Write := (l.settled.filter Prod.snd).map Prod.fst

def note (l : Ledger) (w : Write) : Ledger := { l with held := l.held ++ [w] }

/-- Decides about everything that is held back. -/
def settle (l : Ledger) (written : Bool) : Ledger :=
  ⟨l.settled ++ l.held.map fun w => (w, written), []⟩

/-- A flush that failed leaves everything held back. -/
def flushed (l : Ledger) : Outcome Unit → Ledger
  | .ok _ => l.settle true
  | .error _ => l

/-- The held back writes are to be written at once. -/
def isFull (o : TransactionOptions) (l : Ledger) : Bool :=
  o.continuous && decide (o.bufferSize ≤ sumOf (fun w => w.mutation.total) l.held)

theorem written_settle (l : Ledger) (written : Bool) :
    (l.settle written).written = l.written ++ if written then l.held else [] := by
  cases written with
  | false => simp [Ledger.written, settle, List.filter_map]
  | true => simp [Ledger.written, settle, List.filter_map, Function.comp_def]

theorem issued_settle (l : Ledger) (written : Bool) : (l.settle written).issued = l.issued := by
  simp [issued, settle, Function.comp_def]

theorem issued_flushed (l : Ledger) (outcome : Outcome Unit) :
    (l.flushed outcome).issued = l.issued := by
  cases outcome with
  | ok _ => exact issued_settle l true
  | error _ => rfl

end Ledger

/-- What can be done with a transaction. -/
inductive Call where
  | mutate (cache : Nat) (key : Bytes) (m : Mutation)
  | flush
  | commit
  | rollback
  deriving DecidableEq

structure Session where
  transaction : Transaction
  ledger : Ledger

namespace Session

def start (o : TransactionOptions) : Session := ⟨Transaction.start o, Ledger.empty⟩

def flush (x : Session) (s : Storage) : Outcome Unit × Session × Storage :=
  let (outcome, transaction, s) := x.transaction.flush s
  (outcome, ⟨transaction, x.ledger.flushed outcome⟩, s)

/-- The ledger after a mutation was issued, to whatever end. -/
def noted (x : Session) (s : Storage) (cache : Nat) (key : Bytes) (m : Mutation)
    (outcome : Outcome Unit) : Ledger :=
  match s.caches[cache]? with
  | some c =>
      let noted := x.ledger.note ⟨cache, c.name, key, m⟩
      if m.total ≠ 0 ∧ noted.isFull x.transaction.buffer.options = true then noted.flushed outcome
      else noted
  | none => x.ledger

def perform (x : Session) (s : Storage) : Call → Outcome Unit × Session × Storage
  | .mutate cache key m =>
      let (outcome, transaction, after) := s.mutateEntries cache x.transaction key m
      (outcome, ⟨transaction, x.noted s cache key m outcome⟩, after)
  | .flush => x.flush s
  | .commit =>
      let (outcome, transaction, s) := x.transaction.commit s
      (outcome, ⟨transaction, x.ledger.flushed outcome⟩, s)
  | .rollback => (.ok (), ⟨x.transaction.rollback, x.ledger.settle false⟩, s)

/-- The writes that a call tries to write. -/
def attempts (x : Session) (s : Storage) : Call → List Write
  | .mutate cache key m =>
      match s.caches[cache]? with
      | some c =>
          let noted := x.ledger.note ⟨cache, c.name, key, m⟩
          if m.total ≠ 0 ∧ noted.isFull x.transaction.buffer.options = true then noted.held else []
      | none => []
  | .flush => x.ledger.held
  | .commit => x.ledger.held
  | .rollback => []

/-- The transaction holds back what the ledger says, and each write went through a
cache of the storage. -/
structure Sound (x : Session) (o : TransactionOptions) (s : Storage) : Prop where
  buffer : x.transaction = ⟨WriteBuffer.holding o x.ledger.held, []⟩
  through : ∀ w ∈ x.ledger.held, w.Through s

theorem sound_start (o : TransactionOptions) (s : Storage) : (start o).Sound o s :=
  ⟨rfl, fun _ member => by cases member⟩

end Session

/-- The write that a call issues. -/
def Call.write? (s : Storage) : Call → Option Write
  | .mutate cache key m => s.caches[cache]?.map fun c => ⟨cache, c.name, key, m⟩
  | _ => none

/-- All that a call does; `after` is the backend then. -/
structure Performed (x : Session) (o : TransactionOptions) (s : Storage) (call : Call)
    (after : Backend) (result : Outcome Unit × Session × Storage) : Prop where
  through : ∀ w ∈ x.attempts s call, w.Through s
  flushed : WriteBuffer.Flushed (.holding o (x.attempts s call)) (x.attempts s call) s.backend
    after result.1
  storage : ∃ orders, result.2.2 =
    ((WriteBuffer.holding o (x.attempts s call)).arranged s.nextOrder).invalidateHeld
      { s with backend := after, orders }
  session : result.2.1.Sound o s
  issued : result.2.1.ledger.issued = x.ledger.issued ++ (call.write? s).toList
  written : result.1 = .ok () →
    result.2.1.ledger.written = x.ledger.written ++ x.attempts s call

namespace Performed

variable {x : Session} {o : TransactionOptions} {s : Storage} {call : Call} {after : Backend}
  {result : Outcome Unit × Session × Storage}

theorem backend (performed : Performed x o s call after result) : result.2.2.backend = after := by
  obtain ⟨orders, storage⟩ := performed.storage
  rw [storage, WriteBuffer.backend_invalidateHeld]

theorem caches (performed : Performed x o s call after result) (i : Nat) :
    result.2.2.caches[i]? = s.caches[i]?.map fun c =>
      (((WriteBuffer.holding o (x.attempts s call)).arranged s.nextOrder).heldKeys i).foldl
        StoreCache.invalidate c := by
  obtain ⟨orders, storage⟩ := performed.storage
  rw [storage, WriteBuffer.caches_invalidateHeld]

end Performed

namespace Transaction

/-- A transaction that is wrapped around no other commits by flushing. -/
theorem commit_of_alone {t : Transaction} (alone : t.inner = []) (s : Storage) :
    t.commit s = t.flush s := by
  have kept : (t.flush s).2.1.inner = t.inner := rfl
  unfold commit
  rcases flushed : t.flush s with ⟨fault | _, t', s'⟩
  · rfl
  · rw [flushed] at kept
    have alone' : t'.inner = [] := kept.trans alone
    simp only [alone', flushAll]
    rw [← alone']

end Transaction

namespace WriteBuffer

/-- A further write is held back, and flushed with the others if the buffer is full. -/
theorem mutate_holding (o : TransactionOptions) (held : List Write) (s : Storage) (w : Write) :
    (holding o held).mutate s w.cache w.name w.key w.mutation =
      if w.mutation.total ≠ 0 ∧ Ledger.isFull o ⟨[], held ++ [w]⟩ = true then
        (holding o (held ++ [w])).flush s
      else (.ok (), holding o (held ++ [w]), s) := by
  rw [holding_concat, accept, mutate]
  by_cases nothing : w.mutation.total = 0
  · rw [if_pos nothing, if_pos nothing, if_neg fun full => full.1 nothing]
  · rw [if_neg nothing, if_neg nothing]
    have count := count_holding o (held ++ [w])
    have options := options_holding o (held ++ [w])
    rw [holding_concat, accept, if_neg nothing] at count options
    simp only [count, options]
    by_cases full : Ledger.isFull o ⟨[], held ++ [w]⟩ = true
    · have condition : w.mutation.total ≠ 0 ∧ Ledger.isFull o ⟨[], held ++ [w]⟩ = true :=
        ⟨nothing, full⟩
      rw [if_pos condition]
      exact if_pos full
    · rw [if_neg fun condition : _ ∧ _ => full condition.2]
      exact if_neg full

end WriteBuffer

namespace Session

variable {x : Session} {o : TransactionOptions} {s : Storage}

/-- What flushing a session does, whatever call asks for it. -/
theorem flush_spec (ordered : s.Sound) (sound : x.Sound o s) :
    ∃ after, WriteBuffer.Flushed (.holding o x.ledger.held) x.ledger.held s.backend after
        (x.flush s).1 ∧
      (∃ orders, (x.flush s).2.2 =
        ((WriteBuffer.holding o x.ledger.held).arranged s.nextOrder).invalidateHeld
          { s with backend := after, orders }) ∧
      (x.flush s).2.1.Sound o s ∧
      (x.flush s).2.1.ledger = x.ledger.flushed (x.flush s).1 := by
  obtain ⟨outcome, after, orders, flushed, same⟩ :=
    WriteBuffer.flush_spec ordered sound.through (o := o)
  have result : x.flush s =
      (outcome, ⟨⟨.holding o (WriteBuffer.leftover x.ledger.held outcome), []⟩,
          x.ledger.flushed outcome⟩,
        ((WriteBuffer.holding o x.ledger.held).arranged s.nextOrder).invalidateHeld
          { s with backend := after, orders }) := by
    simp only [flush, Transaction.flush, sound.buffer, same]
  rw [result]
  refine ⟨after, flushed, ⟨orders, rfl⟩, ?_, rfl⟩
  cases outcome with
  | ok _ =>
      refine ⟨rfl, ?_⟩
      intro w member
      cases member
  | error _ => exact ⟨rfl, sound.through⟩

theorem performed_flush (ordered : s.Sound) (sound : x.Sound o s) :
    ∃ after, Performed x o s .flush after (x.flush s) := by
  obtain ⟨after, flushed, storage, session, ledger⟩ := flush_spec ordered sound
  refine ⟨after, sound.through, flushed, storage, session, ?_, ?_⟩
  · rw [ledger, Ledger.issued_flushed]
    exact (List.append_nil _).symm
  · intro ok
    rw [ledger, ok]
    exact Ledger.written_settle x.ledger true

/-- A call that tries to write nothing. -/
theorem performed_quietly (ordered : s.Sound) {x' : Session} {call : Call}
    (nothing : x.attempts s call = []) (sound : x'.Sound o s)
    (issued : x'.ledger.issued = x.ledger.issued ++ (call.write? s).toList)
    (written : x'.ledger.written = x.ledger.written) :
    ∃ after, Performed x o s call after (.ok (), x', s) := by
  refine ⟨s.backend, ?_, ?_, ?_, sound, issued, ?_⟩
  · rw [nothing]
    exact fun _ member => by cases member
  · rw [nothing]
    exact .refl ordered.backend o rfl
  · rw [nothing]
    exact ⟨s.orders, rfl⟩
  · intro _
    rw [nothing, written, List.append_nil]

theorem performed_commit (ordered : s.Sound) (sound : x.Sound o s) :
    ∃ after, Performed x o s .commit after (x.perform s .commit) := by
  obtain ⟨after, performed⟩ := performed_flush ordered sound
  have alone : x.transaction.inner = [] := by rw [sound.buffer]
  have same : x.perform s .commit = x.flush s := by
    simp only [perform, flush, Transaction.commit_of_alone alone]
  rw [same]
  exact ⟨after, performed.through, performed.flushed, performed.storage, performed.session,
    performed.issued, performed.written⟩

theorem performed_rollback (ordered : s.Sound) (sound : x.Sound o s) :
    ∃ after, Performed x o s .rollback after (x.perform s .rollback) := by
  refine performed_quietly ordered rfl ⟨?_, fun w member => (by cases member)⟩ ?_ ?_
  · rw [sound.buffer]
    show Transaction.mk (WriteBuffer.clear _) [] = ⟨.new o, []⟩
    rw [WriteBuffer.clear, WriteBuffer.options_holding]
    rfl
  · rw [Ledger.issued_settle]
    exact (List.append_nil _).symm
  · rw [Ledger.written_settle]
    exact List.append_nil _

/-- The session that holds back one write more. -/
def holding (x : Session) (o : TransactionOptions) (w : Write) : Session :=
  ⟨⟨.holding o (x.ledger.held ++ [w]), []⟩, x.ledger.note w⟩

section Mutate

variable {cache : Nat} {c : StoreCache} (place : s.caches[cache]? = some c) (key : Bytes)
  (m : Mutation)

include place

theorem sound_holding (sound : x.Sound o s) : (x.holding o ⟨cache, c.name, key, m⟩).Sound o s := by
  refine ⟨rfl, ?_⟩
  intro w member
  obtain old | new := List.mem_append.1 member
  · exact sound.through w old
  · obtain rfl := List.mem_singleton.1 new
    exact ⟨c, place, rfl⟩

theorem issued_holding : (x.holding o ⟨cache, c.name, key, m⟩).ledger.issued =
    x.ledger.issued ++ ((Call.mutate cache key m).write? s).toList := by
  simp [holding, Ledger.issued, Ledger.note, Call.write?, place]

/-- A mutation that fills the buffer is held back and flushed. -/
theorem performed_full (ordered : s.Sound) (sound : x.Sound o s)
    (full : m.total ≠ 0 ∧ (x.ledger.note ⟨cache, c.name, key, m⟩).isFull o = true) :
    ∃ after, Performed x o s (.mutate cache key m) after (x.perform s (.mutate cache key m)) := by
  have options : x.transaction.buffer.options = o := by
    rw [sound.buffer]
    exact WriteBuffer.options_holding o x.ledger.held
  have flushes : (WriteBuffer.holding o x.ledger.held).mutate s cache c.name key m =
      (WriteBuffer.holding o (x.ledger.held ++ [⟨cache, c.name, key, m⟩])).flush s :=
    (WriteBuffer.mutate_holding o x.ledger.held s ⟨cache, c.name, key, m⟩).trans (if_pos full)
  have same : x.perform s (.mutate cache key m) =
      (x.holding o ⟨cache, c.name, key, m⟩).flush s := by
    simp only [perform, Storage.mutateEntries, noted, place, Transaction.mutate, sound.buffer,
      WriteBuffer.options_holding, flushes, if_pos full, flush, Transaction.flush, holding]
  have taken : x.attempts s (.mutate cache key m) =
      (x.holding o ⟨cache, c.name, key, m⟩).ledger.held := by
    simp only [attempts, place, options]
    exact if_pos full
  have sound' := sound_holding place key m sound
  obtain ⟨after, flushed, storage, session, ledger⟩ := flush_spec ordered sound'
  rw [same]
  refine ⟨after, ?_, ?_, ?_, session, ?_, ?_⟩
  · rw [taken]
    exact sound'.through
  · rw [taken]
    exact flushed
  · rw [taken]
    exact storage
  · rw [ledger, Ledger.issued_flushed]
    exact issued_holding place key m
  · intro ok
    rw [ledger, ok, taken]
    exact Ledger.written_settle _ true

/-- Any other mutation is only held back. -/
theorem performed_held (ordered : s.Sound) (sound : x.Sound o s)
    (room : ¬ (m.total ≠ 0 ∧ (x.ledger.note ⟨cache, c.name, key, m⟩).isFull o = true)) :
    ∃ after, Performed x o s (.mutate cache key m) after (x.perform s (.mutate cache key m)) := by
  have options : x.transaction.buffer.options = o := by
    rw [sound.buffer]
    exact WriteBuffer.options_holding o x.ledger.held
  have holds : (WriteBuffer.holding o x.ledger.held).mutate s cache c.name key m =
      (.ok (), .holding o (x.ledger.held ++ [⟨cache, c.name, key, m⟩]), s) :=
    (WriteBuffer.mutate_holding o x.ledger.held s ⟨cache, c.name, key, m⟩).trans (if_neg room)
  have same : x.perform s (.mutate cache key m) =
      (.ok (), x.holding o ⟨cache, c.name, key, m⟩, s) := by
    simp only [perform, Storage.mutateEntries, noted, place, Transaction.mutate, sound.buffer,
      WriteBuffer.options_holding, holds, if_neg room, holding]
  have nothing : x.attempts s (.mutate cache key m) = [] := by
    simp only [attempts, place, options]
    exact if_neg room
  rw [same]
  exact performed_quietly ordered nothing (sound_holding place key m sound)
    (issued_holding place key m) rfl

end Mutate

/-- A mutation through a cache that is not there does nothing. -/
theorem performed_nowhere {cache : Nat} (absent : s.caches[cache]? = none) (key : Bytes)
    (m : Mutation) (ordered : s.Sound) (sound : x.Sound o s) :
    ∃ after, Performed x o s (.mutate cache key m) after (x.perform s (.mutate cache key m)) := by
  have same : x.perform s (.mutate cache key m) = (.ok (), x, s) := by
    simp only [perform, Storage.mutateEntries, noted, absent]
  rw [same]
  refine performed_quietly ordered ?_ sound ?_ rfl
  · simp only [attempts, absent]
  · simp [Call.write?, absent]

/-- Everything that a call can do. -/
theorem perform_spec (ordered : s.Sound) (sound : x.Sound o s) (call : Call) :
    ∃ after, Performed x o s call after (x.perform s call) := by
  cases call with
  | flush => exact performed_flush ordered sound
  | commit => exact performed_commit ordered sound
  | rollback => exact performed_rollback ordered sound
  | mutate cache key m =>
      cases place : s.caches[cache]? with
      | none => exact performed_nowhere place key m ordered sound
      | some c =>
          by_cases full : m.total ≠ 0 ∧
              (x.ledger.note ⟨cache, c.name, key, m⟩).isFull o = true
          · exact performed_full place key m ordered sound full
          · exact performed_held place key m ordered sound full

end Session

end PropertyGraph
