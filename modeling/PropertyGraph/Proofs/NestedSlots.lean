/-
# Proofs.NestedSlots -- a lazily filled slot at every moment

Computations of a slot's value run inside one another, and each may reset the slot or fill
it while the others wait.  `LazySlot.record` goes through a script as `LazySlot.run` does and
writes down what happens in the order of time, so that the moments inside a computation can
be spoken of.  It changes nothing in the answers (`record_run`).

At every moment there is the slot and, innermost first, the generations that the running
computations noted (`Nest`).  An event either fits a moment or cannot happen in it, and
leads to the next (`Nest.Fits`, `Nest.next`); what a script records fits event by event
(`LazySlot.leads_record`).  Three facts about one event carry what is said of all of them:

* a slot that is computing does so for the innermost computation, in the generation that
  this one noted (`Nest.Sound`), so it is not left computing when the last one has ended;
* a kept value stays through every event but a reset (`Nest.get?_next_of_kept`);
* a kept value was kept before, or is the outcome of the computation that ends
  (`Nest.kept_before_next`).

`never_stuck` says of every script what follows.
-/
import PropertyGraph.Proofs.LazySlots

namespace PropertyGraph

set_option autoImplicit false

/-- Something that happens around a slot. -/
inductive SlotEvent (α : Type) where
  | state (word : String)
  | read (kept : Option α)
  | reset
  /-- The value is asked for, and the kept one is answered. -/
  | served (value : α)
  /-- The value is asked for and none is kept: a computation begins. -/
  | began
  /-- The innermost computation ends with an outcome, and who asked for it is answered. -/
  | ended (outcome answer : Outcome α)

namespace SlotEvent

variable {α : Type}

def isBegan : SlotEvent α → Bool
  | .began => true
  | _ => false

/-- Number of computations begun. -/
def computations (log : List (SlotEvent α)) : Nat := log.countP isBegan

theorem computations_concat (log : List (SlotEvent α)) (e : SlotEvent α) :
    computations (log ++ [e]) = computations log + if e.isBegan then 1 else 0 := by
  rw [computations, List.countP_append, List.countP_singleton]
  rfl

end SlotEvent

namespace LazySlot

variable {α : Type}

mutual

/-- Goes through a script and writes down what happens. -/
def record : List (SlotUse α) → LazySlot α → List (SlotEvent α) →
    List (SlotAnswer α) × LazySlot α × List (SlotEvent α)
  | [], s, log => ([], s, log)
  | use :: rest, s, log =>
      let (answer, s, log) := recordOne use s log
      let (answers, s, log) := record rest s log
      (answer :: answers, s, log)

/-- One use of a slot, written down. -/
def recordOne : SlotUse α → LazySlot α → List (SlotEvent α) →
    SlotAnswer α × LazySlot α × List (SlotEvent α)
  | .state, s, log => (.state s.content.state, s, log ++ [SlotEvent.state s.content.state])
  | .get, s, log => (.value s.get?, s, log ++ [SlotEvent.read s.get?])
  | .reset, s, log => (.nothing, s.reset, log ++ [SlotEvent.reset])
  | .init outcome inner, s, log =>
      match s.get? with
      | some value =>
          (.init (.ok value) [] (SlotEvent.computations log), s, log ++ [SlotEvent.served value])
      | none =>
          let (answers, after, log) := record inner s.begin (log ++ [SlotEvent.began])
          let (got, after) := after.finish s.generation outcome
          (.init got answers (SlotEvent.computations log), after,
            log ++ [SlotEvent.ended outcome got])

end

mutual

/-- What is written down changes nothing in the answers and the slot. -/
theorem record_run (script : List (SlotUse α)) (s : LazySlot α) (log : List (SlotEvent α)) :
    run script s (SlotEvent.computations log) = ((record script s log).1, (record script s log).2.1,
      SlotEvent.computations (record script s log).2.2) := by
  match script with
  | [] => rfl
  | use :: rest => simp only [run, record, recordOne_apply use s log, record_run rest]

theorem recordOne_apply (use : SlotUse α) (s : LazySlot α) (log : List (SlotEvent α)) :
    apply use s (SlotEvent.computations log) = ((recordOne use s log).1, (recordOne use s log).2.1,
      SlotEvent.computations (recordOne use s log).2.2) := by
  match use with
  | .state | .get | .reset =>
      simp [apply, recordOne, SlotEvent.computations_concat, SlotEvent.isBegan]
  | .init outcome inner =>
      cases kept : s.get? with
      | some value =>
          obtain ⟨content, generation⟩ := s
          cases content with
          | ready v =>
              obtain rfl : v = value := Option.some.inj kept
              simp [apply, recordOne, getOrInitWith, get?, SlotEvent.computations_concat,
                SlotEvent.isBegan]
          | _ => cases kept
      | none =>
          have counted : SlotEvent.computations log + 1 =
              SlotEvent.computations (log ++ [SlotEvent.began]) := by
            rw [SlotEvent.computations_concat]
            rfl
          rw [apply_init_of_absent _ _ _ kept, counted, record_run inner]
          simp only [recordOne, kept]
          simp [SlotEvent.computations_concat, SlotEvent.isBegan]

end

end LazySlot

/-! ## Moments -/

/-- A slot and the computations that run at a moment, each by the generation that it noted;
the innermost stands first. -/
structure Nest (α : Type) where
  slot : LazySlot α
  running : List Nat

namespace Nest

variable {α : Type}

/-- A new slot, with no computation running. -/
def start : Nest α := ⟨.empty, []⟩

/-- The event can happen at a moment, with the answer that it gives. -/
def Fits (n : Nest α) : SlotEvent α → Prop
  | .state word => word = n.slot.content.state
  | .read kept => kept = n.slot.get?
  | .reset => True
  | .served value => n.slot.get? = some value
  | .began => n.slot.get? = none
  | .ended outcome answer =>
      ∃ generation others, n.running = generation :: others ∧
        answer = (n.slot.finish generation outcome).1

/-- The moment behind an event. -/
def next (n : Nest α) : SlotEvent α → Nest α
  | .state _ | .read _ | .served _ => n
  | .reset => { n with slot := n.slot.reset }
  | .began => ⟨n.slot.begin, n.slot.generation :: n.running⟩
  | .ended outcome _ =>
      match n.running with
      | [] => n
      | generation :: others => ⟨(n.slot.finish generation outcome).2, others⟩

/-- The moment behind some events. -/
def after (n : Nest α) (events : List (SlotEvent α)) : Nest α := events.foldl next n

/-- One event after the other fits its moment. -/
def Course : Nest α → List (SlotEvent α) → Prop
  | _, [] => True
  | n, e :: rest => n.Fits e ∧ Course (n.next e) rest

theorem after_append (n : Nest α) (before rest : List (SlotEvent α)) :
    n.after (before ++ rest) = (n.after before).after rest := List.foldl_append

theorem course_append_iff {n : Nest α} {before rest : List (SlotEvent α)} :
    Course n (before ++ rest) ↔ Course n before ∧ Course (n.after before) rest := by
  induction before generalizing n with
  | nil => simp [Course, after]
  | cons e others ih =>
      rw [List.cons_append, Course, ih, Course, and_assoc]
      rfl

/-- A computation works for the innermost of those that run, in its generation. -/
def Sound (n : Nest α) : Prop :=
  n.slot.content = .computing → n.running.head? = some n.slot.generation

theorem sound_start : Sound (start : Nest α) := nofun

/-- When a computation ends, the slot is not left computing. -/
theorem not_computing_of_finish {s : LazySlot α} {generation : Nat} (outcome : Outcome α)
    (own : s.content = .computing → generation = s.generation) :
    (s.finish generation outcome).2.content ≠ .computing := by
  obtain ⟨content, current⟩ := s
  cases outcome with
  | error fault => cases content <;> simp_all [LazySlot.finish]
  | ok value =>
      by_cases same : current = generation
      · cases content <;> simp [LazySlot.finish, same]
      · have still : content ≠ .computing := fun computing => same (own computing).symm
        simpa [LazySlot.finish, same] using still

theorem Sound.next {n : Nest α} (sound : n.Sound) {e : SlotEvent α} (fits : n.Fits e) :
    (n.next e).Sound := by
  cases e with
  | state word | read kept | served value => exact sound
  | reset =>
      intro computing
      exact absurd computing (by obtain ⟨⟨content, _⟩, _⟩ := n; cases content <;> nofun)
  | began => exact fun _ => rfl
  | ended outcome answer =>
      obtain ⟨generation, others, running, -⟩ := fits
      have own : n.slot.content = .computing → generation = n.slot.generation := by
        intro computing
        have first := sound computing
        rw [running] at first
        exact Option.some.inj first
      intro computing
      simp only [Nest.next, running] at computing
      exact absurd computing (not_computing_of_finish outcome own)

theorem Sound.after {n : Nest α} (sound : n.Sound) {events : List (SlotEvent α)}
    (course : Course n events) : (n.after events).Sound := by
  induction events generalizing n with
  | nil => exact sound
  | cons e rest ih => exact ih (sound.next course.1) course.2

/-- No computation that ends takes a kept value away. -/
theorem get?_finish_of_kept {s : LazySlot α} {value : α} (kept : s.get? = some value)
    (generation : Nat) (outcome : Outcome α) :
    (s.finish generation outcome).2.get? = some value := by
  have content := LazySlot.content_of_get? kept
  cases outcome with
  | error fault => simpa only [LazySlot.finish, content] using kept
  | ok other =>
      by_cases same : s.generation = generation
      · simpa only [LazySlot.finish, same, if_true, content] using kept
      · simpa only [LazySlot.finish, same, if_false] using kept

/-- A kept value stays until the slot is reset. -/
theorem get?_next_of_kept {n : Nest α} {value : α} (kept : n.slot.get? = some value)
    {e : SlotEvent α} (fits : n.Fits e) (stays : e ≠ .reset) :
    (n.next e).slot.get? = some value := by
  cases e with
  | state word | read _ | served _ => exact kept
  | reset => exact absurd rfl stays
  | began =>
      rw [fits] at kept
      cases kept
  | ended outcome answer =>
      obtain ⟨generation, others, running, -⟩ := fits
      simp only [Nest.next, running]
      exact get?_finish_of_kept kept generation outcome

theorem get?_after_of_kept {n : Nest α} {value : α} (kept : n.slot.get? = some value)
    {events : List (SlotEvent α)} (course : Course n events) (stays : SlotEvent.reset ∉ events) :
    (n.after events).slot.get? = some value := by
  induction events generalizing n with
  | nil => exact kept
  | cons e rest ih =>
      have here : e ≠ .reset := fun same => stays (same ▸ List.mem_cons_self)
      exact ih (get?_next_of_kept kept course.1 here) course.2
        fun member => stays (List.mem_cons_of_mem _ member)

/-- A value that is kept was kept before, or is the outcome of the computation that just
ended. -/
theorem kept_before_next {n : Nest α} {e : SlotEvent α} (fits : n.Fits e) {value : α}
    (kept : (n.next e).slot.get? = some value) :
    n.slot.get? = some value ∨ ∃ answer, e = .ended (.ok value) answer := by
  cases e with
  | state word | read _ | served _ => exact .inl kept
  | reset =>
      obtain ⟨⟨content, _⟩, _⟩ := n
      cases content <;> cases kept
  | began => cases kept
  | ended outcome answer =>
      obtain ⟨generation, others, running, -⟩ := fits
      simp only [Nest.next, running] at kept
      obtain ⟨-, keeps, -⟩ :=
        LazySlot.finish_spec (rfl : n.slot.finish generation outcome = (_, _))
      rcases keeps value kept with old | ⟨rfl, -⟩
      · exact .inl old
      · exact .inr ⟨answer, rfl⟩

theorem kept_before_after {n : Nest α} {events : List (SlotEvent α)} (course : Course n events)
    {value : α} (kept : (n.after events).slot.get? = some value) :
    n.slot.get? = some value ∨ ∃ answer, SlotEvent.ended (.ok value) answer ∈ events := by
  induction events generalizing n with
  | nil => exact .inl kept
  | cons e rest ih =>
      rcases ih course.2 kept with early | ⟨answer, member⟩
      · refine (kept_before_next course.1 early).imp_right ?_
        rintro ⟨answer, rfl⟩
        exact ⟨answer, List.mem_cons_self⟩
      · exact .inr ⟨answer, List.mem_cons_of_mem _ member⟩

end Nest

namespace LazySlot

variable {α : Type}

open Nest

/-- What is written down between two slots is a course of events that leads from the one to
the other, whatever computations wait meanwhile. -/
def Leads (s : LazySlot α) (log : List (SlotEvent α)) (s' : LazySlot α)
    (log' : List (SlotEvent α)) : Prop :=
  ∀ running, ∃ events, log' = log ++ events ∧ Course ⟨s, running⟩ events ∧
    Nest.after ⟨s, running⟩ events = ⟨s', running⟩

theorem Leads.refl (s : LazySlot α) (log : List (SlotEvent α)) : Leads s log s log :=
  fun _ => ⟨[], (List.append_nil log).symm, trivial, rfl⟩

theorem Leads.trans {s s' s'' : LazySlot α} {log log' log'' : List (SlotEvent α)}
    (first : Leads s log s' log') (second : Leads s' log' s'' log'') :
    Leads s log s'' log'' := by
  intro running
  obtain ⟨events, rfl, course, ended⟩ := first running
  obtain ⟨later, rfl, course', ended'⟩ := second running
  refine ⟨events ++ later, List.append_assoc .., course_append_iff.mpr ⟨course, ?_⟩, ?_⟩
  · rwa [ended]
  · rw [after_append, ended, ended']

/-- An event that no running computation has to do with. -/
theorem Leads.one {s s' : LazySlot α} (log : List (SlotEvent α)) {e : SlotEvent α}
    (fits : ∀ running, Nest.Fits ⟨s, running⟩ e)
    (next : ∀ running, Nest.next ⟨s, running⟩ e = ⟨s', running⟩) :
    Leads s log s' (log ++ [e]) :=
  fun running => ⟨[e], rfl, ⟨fits running, trivial⟩, next running⟩

/-- What leads on inside a computation leads on around it. -/
theorem Leads.nested {s s' : LazySlot α} {log log' : List (SlotEvent α)} (absent : s.get? = none)
    (inside : Leads s.begin (log ++ [SlotEvent.began]) s' log') (outcome : Outcome α) :
    Leads s log (s'.finish s.generation outcome).2
      (log' ++ [SlotEvent.ended outcome (s'.finish s.generation outcome).1]) := by
  intro running
  obtain ⟨events, rfl, course, ended⟩ := inside (s.generation :: running)
  let last : SlotEvent α := .ended outcome (s'.finish s.generation outcome).1
  refine ⟨.began :: (events ++ [last]), by simp [last],
    ⟨absent, course_append_iff.mpr ⟨course, ?_, trivial⟩⟩, ?_⟩
  · show Nest.Fits (Nest.after ⟨s.begin, s.generation :: running⟩ events) _
    rw [ended]
    exact ⟨s.generation, running, rfl, rfl⟩
  · show Nest.after ⟨s.begin, s.generation :: running⟩ (events ++ _) = _
    rw [after_append, ended]
    rfl

mutual

theorem leads_record (script : List (SlotUse α)) (s : LazySlot α) (log : List (SlotEvent α)) :
    Leads s log (record script s log).2.1 (record script s log).2.2 := by
  match script with
  | [] => exact .refl s log
  | use :: rest => exact (leads_recordOne use s log).trans (leads_record rest _ _)

theorem leads_recordOne (use : SlotUse α) (s : LazySlot α) (log : List (SlotEvent α)) :
    Leads s log (recordOne use s log).2.1 (recordOne use s log).2.2 := by
  match use with
  | .state => exact .one log (fun _ => rfl) fun _ => rfl
  | .get => exact .one log (fun _ => rfl) fun _ => rfl
  | .reset => exact .one log (fun _ => trivial) fun _ => rfl
  | .init outcome inner =>
      cases kept : s.get? with
      | some value =>
          simp only [recordOne, kept]
          exact .one log (fun _ => kept) fun _ => rfl
      | none =>
          simp only [recordOne, kept]
          exact (leads_record inner s.begin (log ++ [SlotEvent.began])).nested kept outcome

end

/-- Of every script on a new slot, with the answers that it gives: what is written down fits
event by event and leads to the last slot; whenever no computation runs, the slot is not
computing; after a read has found a value, and until the next reset, no computation begins
and whoever asks is served that value; and a computation had this outcome before. -/
theorem never_stuck (script : List (SlotUse α)) :
    ∃ answers s log, record script empty [] = (answers, s, log) ∧
      run script empty 0 = (answers, s, SlotEvent.computations log) ∧
      Course start log ∧ start.after log = ⟨s, []⟩ ∧
      (∀ before rest, log = before ++ rest → (start.after before).running = [] →
        (start.after before).slot.content ≠ .computing) ∧
      (∀ before value between e rest,
        log = before ++ SlotEvent.read (some value) :: (between ++ e :: rest) →
          SlotEvent.reset ∉ between → e ≠ .began ∧ ∀ other, e = .served other → other = value) ∧
      ∀ before value rest, log = before ++ SlotEvent.read (some value) :: rest →
        ∃ answer, SlotEvent.ended (.ok value) answer ∈ before := by
  obtain ⟨log, logged, course, ended⟩ := leads_record script (empty : LazySlot α) [] []
  rw [List.nil_append] at logged
  have same : run script (empty : LazySlot α) 0 = _ := record_run script empty []
  rw [logged] at same
  refine ⟨_, _, log, by rw [← logged], same, course, ended, ?_, ?_, ?_⟩
  · rintro before rest rfl idle computing
    have sound := Nest.sound_start.after (course_append_iff.mp course).1
    have running := sound computing
    rw [idle] at running
    cases running
  · rintro before value between e rest rfl quiet
    obtain ⟨-, here, later⟩ := course_append_iff.mp course
    obtain ⟨between', fits, -⟩ := course_append_iff.mp later
    have kept := get?_after_of_kept (Eq.symm here) between' quiet
    refine ⟨?_, ?_⟩
    · rintro rfl
      cases Eq.trans (Eq.symm kept) fits
    · rintro other rfl
      exact Option.some.inj (Eq.trans (Eq.symm fits) kept)
  · rintro before value rest rfl
    obtain ⟨early, here, -⟩ := course_append_iff.mp course
    rcases kept_before_after early (Eq.symm here) with old | returned
    · cases old
    · exact returned

/-- An inner computation keeps its value under the outer one, which ends with another: the
value that the read found is served, until the reset. -/
theorem never_stuck_under_inner_value :
    ∃ log, (record [.init (.ok 2) [.init (.ok 1) [], .get], .init (.ok 3) [], .reset] empty []).2.2
        = log ∧
      log = [.began, .began, .ended (.ok 1) (.ok 1), .read (some 1), .ended (.ok 2) (.ok 1),
        .served 1, .reset] ∧
      (start.after (log.take 5)).running = [] ∧
      (start.after (log.take 5)).slot.content ≠ .computing ∧
      (SlotEvent.ended (.ok 2) (.ok 1) ≠ .began ∧ SlotEvent.served 1 ≠ .began) ∧
      ∃ answer, SlotEvent.ended (.ok 1) answer ∈ log.take 3 := by
  obtain ⟨answers, s, log, recorded, -, -, -, idle, served, returned⟩ :=
    never_stuck [.init (.ok 2) [.init (.ok 1) [], .get], .init (.ok 3) [], .reset]
  obtain rfl : [.began, .began, .ended (.ok 1) (.ok 1), .read (some 1), .ended (.ok 2) (.ok 1),
      .served 1, .reset] = log := congrArg (fun r => r.2.2) recorded
  have first := served [.began, .began, .ended (.ok 1) (.ok 1)] 1 [] _ _ rfl nofun
  have second := served [.began, .began, .ended (.ok 1) (.ok 1)] 1
    [.ended (.ok 2) (.ok 1)] _ _ rfl (by simp)
  exact ⟨_, rfl, rfl, rfl, idle _ _ rfl rfl, ⟨first.1, second.1⟩,
    returned [.began, .began, .ended (.ok 1) (.ok 1)] 1 _ rfl⟩

end LazySlot

end PropertyGraph
