/-
# Proofs.BoundedRetries -- how often a call is made again

A call that comes to a temporary failure is made again, as long as attempts are left.

* `Tries` says of a list of outcomes that they are those of one call and its repetitions.
  Every retry goes through such a list and answers the last outcome of it (`retry_tries`),
  so it stops at the first decisive outcome or at the limit (`retry_isLeast`).
* `Handed` says the same of batches: they are handed over in their order, each as often as its
  tries, and behind one that was not taken there is no other.  Writing them in turn does so
  (`handed_writeAll`), and every call stands in the journal (`journal_inTurn`).
* `retries_are_bounded` is about any sequence of outcomes, and about any flush.
-/
import Mathlib.Order.Bounds.Defs
import PropertyGraph.Proofs.Flushing

namespace PropertyGraph

set_option autoImplicit false

variable {σ α : Type}

/-! ## One call -/

/-- Calls in turn, and what each comes to. -/
def inTurn : List (σ → Outcome α × σ) → σ → List (Outcome α) × σ
  | [], s => ([], s)
  | call :: rest, s =>
      let (outcome, s) := call s
      let (outcomes, s) := inTurn rest s
      (outcome :: outcomes, s)

theorem inTurn_append (calls more : List (σ → Outcome α × σ)) (s : σ) :
    inTurn (calls ++ more) s =
      ((inTurn calls s).1 ++ (inTurn more (inTurn calls s).2).1,
        (inTurn more (inTurn calls s).2).2) := by
  induction calls generalizing s with
  | nil => rfl
  | cons call rest ih => simp only [List.cons_append, inTurn, ih]

/-- The outcomes of a call and its repetitions: at least one and at most `limit`, all but the
last indecisive, and the last decisive unless they are as many as there may be. -/
structure Tries (limit : Nat) (outcomes : List (Outcome α)) : Prop where
  made : outcomes ≠ []
  within : outcomes.length ≤ limit
  again : ∀ outcome ∈ outcomes.dropLast, isIndecisive outcome = true
  stops : outcomes.length < limit →
    ∃ outcome, outcomes.getLast? = some outcome ∧ isIndecisive outcome = false

theorem tries_once {limit : Nat} (outcome : Outcome α)
    (stops : isIndecisive outcome = true → limit = 0) : Tries (limit + 1) [outcome] := by
  refine ⟨List.cons_ne_nil _ _, Nat.le_add_left 1 limit, nofun, fun less => ?_⟩
  refine ⟨outcome, rfl, Bool.eq_false_iff.2 fun again => ?_⟩
  have none : limit = 0 := stops again
  simp [none] at less

theorem Tries.cons {limit : Nat} {outcomes : List (Outcome α)} (tries : Tries limit outcomes)
    {outcome : Outcome α} (again : isIndecisive outcome = true) :
    Tries (limit + 1) (outcome :: outcomes) := by
  have last : (outcome :: outcomes).getLast? = outcomes.getLast? :=
    List.getLast?_cons_of_ne_nil tries.made
  refine ⟨List.cons_ne_nil _ _, Nat.succ_le_succ tries.within, ?_, fun less => ?_⟩
  · rw [List.dropLast_cons_of_ne_nil tries.made]
    exact List.forall_mem_cons.2 ⟨again, tries.again⟩
  · rw [last]
    exact tries.stops (Nat.lt_of_succ_lt_succ less)

theorem retryMore_tries (call : σ → Outcome α × σ) (more : Nat) (s : σ) :
    ∃ outcomes, Tries (more + 1) outcomes ∧
      inTurn (List.replicate outcomes.length call) s = (outcomes, (retryMore call more s).2) ∧
      outcomes.getLast? = some (retryMore call more s).1 := by
  induction more generalizing s with
  | zero => exact ⟨[(call s).1], tries_once _ fun _ => rfl, rfl, rfl⟩
  | succ more ih =>
      by_cases again : isIndecisive (call s).1 = true
      · obtain ⟨outcomes, tries, calls, last⟩ := ih (call s).2
        have goesOn : retryMore call (more + 1) s = retryMore call more (call s).2 := by
          simp only [retryMore, again, if_true]
        refine ⟨(call s).1 :: outcomes, tries.cons again, ?_, ?_⟩
        · simp only [List.length_cons, List.replicate_succ, inTurn, calls, goesOn]
        · rw [goesOn, List.getLast?_cons_of_ne_nil tries.made, last]
      · have ends : retryMore call (more + 1) s = call s := by
          simp only [retryMore, again, if_false, Bool.false_eq_true]
        rw [ends]
        exact ⟨[(call s).1], tries_once _ fun indecisive => absurd indecisive again, rfl, rfl⟩

/-- A retry makes the call as often as there are tries, and answers the last outcome. -/
theorem retry_tries (attempts : Nat) (call : σ → Outcome α × σ) (s : σ) :
    ∃ outcomes, Tries (max attempts 1) outcomes ∧
      inTurn (List.replicate outcomes.length call) s = (outcomes, (retry attempts call s).2) ∧
      outcomes.getLast? = some (retry attempts call s).1 := by
  have limit : max attempts 1 = attempts - 1 + 1 := by omega
  rw [limit]
  exact retryMore_tries call (attempts - 1) s

/-- An operation whose outcomes are known beforehand; the state counts its calls. -/
def scripted (outcomes : Nat → Outcome α) (made : Nat) : Outcome α × Nat :=
  (outcomes (made + 1), made + 1)

theorem inTurn_scripted (outcomes : Nat → Outcome α) (calls made : Nat) :
    inTurn (List.replicate calls (scripted outcomes)) made =
      ((List.range' (made + 1) calls).map outcomes, made + calls) := by
  induction calls generalizing made with
  | zero => rfl
  | succ calls ih =>
      simp only [List.replicate_succ, inTurn, scripted, ih, List.range'_succ, List.map_cons,
        Prod.mk.injEq, true_and]
      omega

/-- An operation is called up to the first decisive outcome, or as often as it may be. -/
theorem retry_isLeast (attempts : Nat) (outcomes : Nat → Outcome α) :
    ∃ k, IsLeast {p | 1 ≤ p ∧ (p = max attempts 1 ∨ isIndecisive (outcomes p) = false)} k ∧
      retry attempts (scripted outcomes) 0 = (outcomes k, k) := by
  obtain ⟨all, tries, calls, last⟩ := retry_tries attempts (scripted outcomes) 0
  rw [inTurn_scripted, Nat.zero_add, Nat.zero_add] at calls
  obtain ⟨same, count⟩ := Prod.mk.inj calls
  obtain ⟨k, length⟩ : ∃ k, all.length = k + 1 :=
    Nat.exists_eq_succ_of_ne_zero fun none => tries.made (List.length_eq_zero_iff.1 none)
  have split : all = (List.range' 1 k).map outcomes ++ [outcomes (k + 1)] := by
    rw [← same, length, List.range'_1_concat, List.map_append, List.map_singleton, Nat.add_comm 1 k]
  rw [split, List.getLast?_concat] at last
  rw [length] at count
  refine ⟨k + 1, ⟨⟨Nat.le_add_left 1 k, ?_⟩, fun p member => ?_⟩, Prod.ext ?_ count.symm⟩
  · rcases Nat.lt_or_ge all.length (max attempts 1) with less | enough
    · obtain ⟨outcome, final, decisive⟩ := tries.stops less
      rw [split, List.getLast?_concat] at final
      exact .inr (Option.some.inj final ▸ decisive)
    · exact .inl (length ▸ Nat.le_antisymm tries.within enough)
  · obtain ⟨first, atLimit | decisive⟩ := member
    · exact atLimit ▸ length ▸ tries.within
    · by_contra before
      have earlier : outcomes p ∈ all.dropLast := by
        rw [split, List.dropLast_concat]
        exact List.mem_map_of_mem (List.mem_range'_1.2 (by omega))
      rw [tries.again _ earlier] at decisive
      cases decisive
  · exact (Option.some.inj last).symm

example : retry 5 (scripted fun p => if p < 3 then .error (.backend .temporary "busy") else .ok p) 0 =
    (.ok 3, 3) := rfl

/-! ## Batches -/

/-- How batches are handed over, each with the outcomes of its tries: what the backend becomes,
and what is answered. -/
structure Handed (limit : Nat) (batches : List Batch) (before after : Backend)
    (answer : Outcome Unit) (rounds : List (Batch × List (Outcome Unit))) : Prop where
  inOrder : rounds.map Prod.fst <+: batches
  tries : ∀ round ∈ rounds, Tries limit round.2
  /-- Behind a batch that was not taken there is no other. -/
  taken : ∀ round ∈ rounds.dropLast, round.2.getLast? = some (.ok ())
  calls : inTurn ((rounds.flatMap fun round => List.replicate round.2.length round.1).map
    Backend.mutateMany) before = (rounds.flatMap Prod.snd, after)
  answered : answer = ((rounds.flatMap Prod.snd).getLast?).getD (.ok ())
  whole : answer = .ok () → rounds.map Prod.fst = batches

theorem handed_nothing (limit : Nat) (b : Backend) : Handed limit [] b b (.ok ()) [] :=
  ⟨List.nil_prefix, nofun, nofun, rfl, rfl, fun _ => rfl⟩

theorem handed_writeAll (attempts : Nat) (batches : List Batch) (b : Backend) :
    ∃ rounds, Handed (max attempts 1) batches b (WriteBuffer.writeAll attempts batches b).2
      (WriteBuffer.writeAll attempts batches b).1 rounds := by
  induction batches generalizing b with
  | nil => exact ⟨[], handed_nothing _ b⟩
  | cons batch rest ih =>
      obtain ⟨outcomes, tries, calls, last⟩ := retry_tries attempts (Backend.mutateMany batch) b
      rcases tried : retry attempts (Backend.mutateMany batch) b with ⟨fault | u, next⟩
      · rw [tried] at calls last
        simp only [WriteBuffer.writeAll, tried]
        refine ⟨[(batch, outcomes)], ⟨List.prefix_append [batch] rest, ?_, ?_, ?_, ?_, ?_⟩⟩
        · exact List.forall_mem_singleton.2 tries
        · intro round never
          cases never
        · simpa using calls
        · simp [last]
        · intro never
          cases never
      · rw [tried] at calls last
        obtain ⟨rounds, handed⟩ := ih next
        simp only [WriteBuffer.writeAll, tried]
        refine ⟨(batch, outcomes) :: rounds, ⟨?_, ?_, ?_, ?_, ?_, fun ok => ?_⟩⟩
        · exact List.prefix_cons_inj batch |>.2 handed.inOrder
        · exact List.forall_mem_cons.2 ⟨tries, handed.tries⟩
        · intro round member
          by_cases alone : rounds = []
          · subst alone
            cases member
          · rw [List.dropLast_cons_of_ne_nil alone] at member
            rcases List.mem_cons.1 member with rfl | later
            · exact last
            · exact handed.taken round later
        · rw [List.flatMap_cons, List.map_append, List.map_replicate, inTurn_append, calls,
            handed.calls]
          rfl
        · rw [List.flatMap_cons, List.getLast?_append, last, handed.answered]
          cases (rounds.flatMap Prod.snd).getLast? <;> rfl
        · rw [List.map_cons, handed.whole ok]

/-- Every call stands in the journal. -/
theorem journal_inTurn (batches : List Batch) (b : Backend) :
    ∃ records, (inTurn (batches.map Backend.mutateMany) b).2.journal = b.journal ++ records ∧
      records.map BatchRecord.shape = batches.map Backend.shapeOf := by
  induction batches generalizing b with
  | nil => exact ⟨[], (List.append_nil _).symm, rfl⟩
  | cons batch rest ih =>
      obtain ⟨records, later, shapes⟩ := ih (b.mutateMany batch).2
      obtain ⟨failure, entered, -⟩ := Backend.journal_mutateMany batch b
      refine ⟨⟨Backend.shapeOf batch, failure⟩ :: records, ?_, ?_⟩
      · simp only [List.map_cons, inTurn]
        rw [later, entered, List.append_assoc, List.singleton_append]
      · rw [List.map_cons, List.map_cons, shapes]

/-- What a flush writes. -/
theorem handed_flush (b : WriteBuffer) (s : Storage) :
    ∃ rounds, Handed (max b.options.writeAttempts 1)
      (if b.count = 0 then [] else (b.arranged s.nextOrder).batches)
      s.backend (b.flush s).2.2.backend (b.flush s).1 rounds := by
  by_cases nothing : b.count = 0
  · rw [WriteBuffer.flush_of_nothing nothing, if_pos nothing]
    exact ⟨[], handed_nothing _ s.backend⟩
  · rw [WriteBuffer.flush_of_something nothing, if_neg nothing]
    simp only [WriteBuffer.backend_invalidateHeld]
    exact handed_writeAll b.options.writeAttempts (b.arranged s.nextOrder).batches s.backend

/-- An operation is called up to the first outcome that is no temporary failure, or as often as
it may be, zero counting as one, and what it comes to then is answered.  So a flush calls the
backend with its batches in their order, with each at least once and at most as often as it may
be, and with none behind a batch that came to an error; it makes no other calls, and answers
what the last of them came to. -/
theorem retries_are_bounded :
    (∀ (α : Type) (attempts : Nat) (outcomes : Nat → Outcome α), ∃ k,
      IsLeast {p | 1 ≤ p ∧ (p = max attempts 1 ∨ isIndecisive (outcomes p) = false)} k ∧
        retry attempts (scripted outcomes) 0 = (outcomes k, k)) ∧
    ∀ (b : WriteBuffer) (s : Storage), ∃ rounds records,
      Handed (max b.options.writeAttempts 1)
        (if b.count = 0 then [] else (b.arranged s.nextOrder).batches) s.backend
        (b.flush s).2.2.backend (b.flush s).1 rounds ∧
      (b.flush s).2.2.backend.journal = s.backend.journal ++ records ∧
      records.map BatchRecord.shape = rounds.flatMap fun round =>
        List.replicate round.2.length (Backend.shapeOf round.1) := by
  refine ⟨fun α attempts outcomes => retry_isLeast attempts outcomes, fun b s => ?_⟩
  obtain ⟨rounds, handed⟩ := handed_flush b s
  obtain ⟨records, journal, shapes⟩ := journal_inTurn
    (rounds.flatMap fun round => List.replicate round.2.length round.1) s.backend
  rw [handed.calls] at journal
  refine ⟨rounds, records, handed, journal, ?_⟩
  rw [shapes, List.map_flatMap]
  simp only [List.map_replicate]

end PropertyGraph
