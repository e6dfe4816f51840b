/-
# Proofs.SteadySessions -- sessions that give nothing up

Without a rollback, whatever a session issued is either written or held back, so the
session sees the rows there were at first with all of it applied, however much of it a
flush has taken along (`Session.Steady.sees_eq`).  A call that succeeds shows what it
issues (`Steady.perform`), and what changes no row shows nothing (`Steady.quietly`).
-/
import PropertyGraph.Proofs.BufferedWriting
import PropertyGraph.Proofs.FreshReads

namespace PropertyGraph

set_option autoImplicit false

/-- Whatever was decided about was written. -/
def Ledger.Unbroken (l : Ledger) : Prop := ∀ w ∈ l.settled, w.2 = true

namespace Ledger.Unbroken

theorem issued {l : Ledger} (unbroken : l.Unbroken) : l.issued = l.written ++ l.held := by
  rw [Ledger.issued, Ledger.written, List.filter_eq_self.2 unbroken]

theorem flushed {l : Ledger} (unbroken : l.Unbroken) (outcome : Outcome Unit) :
    (l.flushed outcome).Unbroken := by
  cases outcome with
  | error fault => exact unbroken
  | ok u =>
      intro w member
      rcases List.mem_append.1 member with old | new
      · exact unbroken w old
      · obtain ⟨w', -, rfl⟩ := List.mem_map.1 new
        rfl

theorem perform {x : Session} (unbroken : x.ledger.Unbroken) (s : Storage) {call : Call}
    (goesOn : call ≠ .rollback) : (x.perform s call).2.1.ledger.Unbroken := by
  cases call with
  | flush => exact unbroken.flushed _
  | commit => exact unbroken.flushed _
  | rollback => exact absurd rfl goesOn
  | mutate cache key m =>
      show (x.noted s cache key m _).Unbroken
      unfold Session.noted
      cases s.caches[cache]? with
      | none => exact unbroken
      | some c =>
          have noted : (x.ledger.note ⟨cache, c.name, key, m⟩).Unbroken := unbroken
          simp only
          split
          · exact noted.flushed _
          · exact noted

end Ledger.Unbroken

namespace Session

/-- A session that gave up nothing, at a storage whose caches are coherent. -/
structure Steady (base : Backend) (x : Session) (o : TransactionOptions) (s : Storage) : Prop where
  coherent : s.Coherent Table.Answers
  writes : Writes base x o s
  unbroken : x.ledger.Unbroken

namespace Steady

variable {base : Backend} {x : Session} {o : TransactionOptions} {s : Storage}

/-- The session sees the rows there were at first with all that it issued. -/
theorem sees_eq (steady : Steady base x o s) (name : String) (key : Bytes) :
    x.sees s name key = Write.replay x.ledger.issued name key (base.rowOf name key) := by
  rw [sees, steady.writes.replayed.rows, steady.unbroken.issued]
  exact (List.foldl_append ..).symm

/-- A call that succeeds shows what it issues. -/
theorem perform (steady : Steady base x o s) {call : Call} (goesOn : call ≠ .rollback)
    (ok : (x.perform s call).1 = .ok ()) :
    Steady base (x.perform s call).2.1 o (x.perform s call).2.2 ∧
      (x.perform s call).2.2.places = s.places ∧
      ∀ name key, (x.perform s call).2.1.sees (x.perform s call).2.2 name key =
        Write.replay (call.write? s).toList name key (x.sees s name key) := by
  obtain ⟨writes, places, issued⟩ := steady.writes.perform call ok
  obtain ⟨after, performed⟩ := perform_spec steady.writes.storage steady.writes.session call
  have next : Steady base (x.perform s call).2.1 o (x.perform s call).2.2 :=
    ⟨steady.coherent.performed Table.fair_answers performed, writes,
      steady.unbroken.perform s goesOn⟩
  refine ⟨next, places, fun name key => ?_⟩
  rw [next.sees_eq, steady.sees_eq, issued]
  exact List.foldl_append ..

/-- What leaves the backend alone is not seen. -/
theorem quietly (steady : Steady base x o s) {s' : Storage} (coherent : s'.Coherent Table.Answers)
    (places : s'.places = s.places) (backend : s'.backend = s.backend) : Steady base x o s' := by
  refine ⟨coherent, ⟨coherent.sound, steady.writes.session.congr places, ?_, ?_⟩, steady.unbroken⟩
  · rw [backend]
    exact steady.writes.replayed
  · exact steady.writes.known

end Steady

end Session

theorem Storage.backend_readThrough {α : Type} (s : Storage) (i : Nat) (absent : α)
    (f : Table → StoreCache → α × StoreCache) : (s.readThrough i absent f).2.backend = s.backend := by
  unfold readThrough
  cases s.caches[i]? <;> rfl

end PropertyGraph
