/-
# Proofs.LazySlots -- which values a lazily filled slot serves

`LazySlot.follow` goes through a script as `LazySlot.run` does and keeps a history
beside it: moments are counted by the resets and the computations begun, every value
carries the moment at which its computation began, and each time a kept value is handed
out the history notes that moment and the moments of the last resets.  Without the dates
and the history it is `run` (`follow_undated`).

A reset of an unset slot leaves no trace in the slot, so the history tells it from one
that gave a value or a computation up.

* `Sound` is the invariant: a value that is kept began after everything was last given
  up.  It is carried across a computation by the generation, which every such reset
  moves (`Later`).
* `Recent` says the same of the resets that found nothing.  It needs that no computation
  fails inside another: a failure empties the slot while the outer one still runs, and a
  reset then goes unnoticed (`value_outlives_reset`).
* `served_values` is what follows for a whole script.
-/
import PropertyGraph.Schema.LazyScript

namespace PropertyGraph

set_option autoImplicit false

/-- A value with the moment at which its computation began. -/
structure Dated (α : Type) where
  began : Nat
  value : α

/-- A kept value was handed out. -/
structure Serving where
  /-- When its computation began. -/
  began : Nat
  /-- The last reset by then that gave something up. -/
  cleared : Nat
  /-- The last reset by then that found the slot unset. -/
  idle : Nat

/-- The last reset of any kind; zero before the first. -/
def Serving.lastReset (x : Serving) : Nat := max x.cleared x.idle

/-- What went on around a slot. -/
structure History where
  computations : Nat
  /-- Number of resets and computations begun. -/
  now : Nat
  cleared : Nat
  idle : Nat
  servings : List Serving

namespace History

def start : History := ⟨0, 0, 0, 0, []⟩

/-- A computation begins. -/
def begin (h : History) : History := { h with computations := h.computations + 1, now := h.now + 1 }

/-- The slot is reset, which is unset already or not. -/
def reset (h : History) (unset : Bool) : History :=
  if unset then { h with now := h.now + 1, idle := h.now + 1 }
  else { h with now := h.now + 1, cleared := h.now + 1 }

/-- A kept value is handed out. -/
def serve {α : Type} (h : History) (d : Dated α) : History :=
  { h with servings := h.servings ++ [⟨d.began, h.cleared, h.idle⟩] }

/-- A computation that began at a moment is answered; its own value was not kept
before. -/
def answer {α : Type} (h : History) (own : Nat) : Outcome (Dated α) → History
  | .ok d => if d.began = own then h else h.serve d
  | .error _ => h

end History

namespace LazySlot

variable {α β : Type}

def isUnset (s : LazySlot α) : Bool :=
  match s.content with
  | .unset => true
  | _ => false

/-- What stands beside a slot whose history is kept. -/
structure Log (α : Type) where
  history : History
  inner : List (SlotAnswer α)

mutual

/-- Goes through a script and keeps its history. -/
def follow : List (SlotUse α) → LazySlot (Dated α) → History →
    List (SlotAnswer α) × LazySlot (Dated α) × History
  | [], s, h => ([], s, h)
  | use :: rest, s, h =>
      let (answer, s, h) := followOne use s h
      let (answers, s, h) := follow rest s h
      (answer :: answers, s, h)

/-- One use of a slot whose history is kept. -/
def followOne : SlotUse α → LazySlot (Dated α) → History →
    SlotAnswer α × LazySlot (Dated α) × History
  | .state, s, h => (.state s.content.state, s, h)
  | .get, s, h => (.value (s.get?.map Dated.value), s, (s.get?.map h.serve).getD h)
  | .reset, s, h => (.nothing, s.reset, h.reset s.isUnset)
  | .init outcome inner, s, h =>
      let (got, (s, log)) := getOrInitWith
        (fun (s, log) =>
          let (answers, s, after) := follow inner s log.history.begin
          (outcome.map (Dated.mk (log.history.now + 1)), (s, ⟨after, answers⟩)))
        s (⟨h, []⟩ : Log α)
      (.init (got.map Dated.value) log.inner log.history.computations, s,
        log.history.answer (h.now + 1) got)

end

/-- A slot with another form of values. -/
def map (f : α → β) (s : LazySlot α) : LazySlot β :=
  ⟨match s.content with
    | .unset => .unset
    | .computing => .computing
    | .ready value => .ready (f value), s.generation⟩

theorem map_get? (f : α → β) (s : LazySlot α) : (s.map f).get? = s.get?.map f := by
  obtain ⟨content, generation⟩ := s
  cases content <;> rfl

theorem map_reset (f : α → β) (s : LazySlot α) : (s.map f).reset = s.reset.map f := by
  obtain ⟨content, generation⟩ := s
  cases content <;> rfl

theorem map_finish (f : α → β) (s : LazySlot α) (generation : Nat) (outcome : Outcome α) :
    (s.map f).finish generation (outcome.map f) =
      ((s.finish generation outcome).1.map f, (s.finish generation outcome).2.map f) := by
  obtain ⟨content, current⟩ := s
  cases outcome with
  | error fault =>
      cases content with
      | computing =>
          by_cases same : current = generation <;> simp [finish, map, Except.map, same]
      | _ => rfl
  | ok value =>
      by_cases same : current = generation
      · cases content <;> simp [finish, map, Except.map, same]
      · simp [finish, map, Except.map, same]

section Init

variable {s : LazySlot (Dated α)} (h : History) (outcome : Outcome α) (inner : List (SlotUse α))

/-- A kept value is handed out without another computation. -/
theorem followOne_init_of_ready {d : Dated α} (ready : s.content = .ready d) :
    followOne (.init outcome inner) s h =
      (.init (.ok d.value) [] h.computations, s, h.answer (h.now + 1) (.ok d)) := by
  simp only [followOne, getOrInitWith, ready]
  rfl

/-- Otherwise the script of the computation runs in between. -/
theorem followOne_init_of_absent (absent : s.get? = none) :
    followOne (.init outcome inner) s h =
      let (answers, after, h') := follow inner s.begin h.begin
      let (got, after) := after.finish s.generation (outcome.map (Dated.mk (h.now + 1)))
      (.init (got.map Dated.value) answers h'.computations, after, h'.answer (h.now + 1) got) := by
  obtain ⟨content, generation⟩ := s
  cases content with
  | ready d => cases absent
  | _ => rfl

end Init

theorem apply_init_of_absent {s : LazySlot α} (count : Nat) (outcome : Outcome α)
    (inner : List (SlotUse α)) (absent : s.get? = none) :
    apply (.init outcome inner) s count =
      let (answers, after, count) := run inner s.begin (count + 1)
      let (got, after) := after.finish s.generation outcome
      (.init got answers count, after, count) := by
  obtain ⟨content, generation⟩ := s
  cases content with
  | ready value => cases absent
  | _ => rfl

/-! ## The same answers without dates and history -/

theorem computations_answer (h : History) (own : Nat) (got : Outcome (Dated α)) :
    (h.answer own got).computations = h.computations := by
  unfold History.answer
  split
  · split <;> rfl
  · rfl

theorem undate_map (moment : Nat) (outcome : Outcome α) :
    (outcome.map (Dated.mk moment)).map Dated.value = outcome := by
  cases outcome <;> rfl

mutual

/-- Neither the dates nor the history change what a script sees. -/
theorem follow_undated (script : List (SlotUse α)) (s : LazySlot (Dated α)) (h : History) :
    run script (s.map Dated.value) h.computations =
      ((follow script s h).1, (follow script s h).2.1.map Dated.value,
        (follow script s h).2.2.computations) := by
  match script with
  | [] => rfl
  | use :: rest => simp only [run, follow, followOne_undated use s h, follow_undated rest]

theorem followOne_undated (use : SlotUse α) (s : LazySlot (Dated α)) (h : History) :
    apply use (s.map Dated.value) h.computations =
      ((followOne use s h).1, (followOne use s h).2.1.map Dated.value,
        (followOne use s h).2.2.computations) := by
  match use with
  | .state =>
      obtain ⟨content, generation⟩ := s
      cases content <;> rfl
  | .get =>
      obtain ⟨content, generation⟩ := s
      cases content <;> rfl
  | .reset =>
      simp only [apply, followOne, map_reset, History.reset]
      split <;> rfl
  | .init outcome inner =>
      cases kept : s.get? with
      | some d =>
          obtain ⟨content, generation⟩ := s
          cases content with
          | ready d =>
              rw [followOne_init_of_ready h outcome inner rfl, computations_answer]
              rfl
          | _ => cases kept
      | none =>
          have absent : (s.map Dated.value).get? = none := by rw [map_get?, kept]; rfl
          have begun : (s.map Dated.value).begin = s.begin.map Dated.value := rfl
          have counted : h.computations + 1 = h.begin.computations := rfl
          have finished := map_finish Dated.value (follow inner s.begin h.begin).2.1 s.generation
            (outcome.map (Dated.mk (h.now + 1)))
          rw [undate_map] at finished
          rw [apply_init_of_absent _ _ _ absent, followOne_init_of_absent h outcome inner kept,
            begun, counted, follow_undated inner]
          have same : (s.map Dated.value).generation = s.generation := rfl
          simp only [computations_answer, same, finished]

end

/-! ## What a kept value outlived -/

/-- Every value that is kept, or was handed out, began after everything was last given
up. -/
structure Sound (s : LazySlot (Dated α)) (h : History) : Prop where
  cleared : h.cleared ≤ h.now
  idle : h.idle ≤ h.now
  kept : ∀ d, s.get? = some d → h.cleared < d.began ∧ d.began ≤ h.now
  served : ∀ x ∈ h.servings, x.cleared < x.began

/-- A later moment of a slot.  Under the same generation nothing was given up. -/
structure Later (s : LazySlot (Dated α)) (h : History) (s' : LazySlot (Dated α))
    (h' : History) : Prop where
  now : h.now ≤ h'.now
  generation : s.generation ≤ s'.generation
  cleared : s'.generation = s.generation → h'.cleared = h.cleared

theorem Later.refl (s : LazySlot (Dated α)) (h : History) : Later s h s h :=
  ⟨Nat.le_refl _, Nat.le_refl _, fun _ => rfl⟩

theorem Later.trans {s s' s'' : LazySlot (Dated α)} {h h' h'' : History}
    (first : Later s h s' h') (second : Later s' h' s'' h'') : Later s h s'' h'' := by
  refine ⟨Nat.le_trans first.now second.now,
    Nat.le_trans first.generation second.generation, ?_⟩
  intro same
  have up := first.generation
  have further := second.generation
  rw [second.cleared (by omega), first.cleared (by omega)]

theorem sound_start : Sound (empty : LazySlot (Dated α)) .start :=
  ⟨Nat.le_refl _, Nat.le_refl _, fun _ kept => (by cases kept), fun _ member => (by cases member)⟩

/-- A value that is kept is handed out. -/
theorem Sound.serve {s : LazySlot (Dated α)} {h : History} (sound : Sound s h) {d : Dated α}
    (outlived : h.cleared < d.began) : Sound s (h.serve d) := by
  refine ⟨sound.cleared, sound.idle, sound.kept, ?_⟩
  intro x member
  rcases List.mem_append.1 member with old | new
  · exact sound.served x old
  · obtain rfl := List.mem_singleton.1 new
    exact outlived

theorem Sound.answer {s : LazySlot (Dated α)} {h : History} (sound : Sound s h) (own : Nat)
    {got : Outcome (Dated α)}
    (outlived : ∀ d, got = .ok d → d.began ≠ own → h.cleared < d.began) :
    Sound s (h.answer own got) := by
  unfold History.answer
  split
  · rename_i d
    split
    · exact sound
    · rename_i other
      exact sound.serve (outlived d rfl other)
  · exact sound

theorem Later.answer {s s' : LazySlot (Dated α)} {h h' : History} (later : Later s h s' h')
    (own : Nat) (got : Outcome (Dated α)) : Later s h s' (h'.answer own got) := by
  unfold History.answer
  repeat' split
  all_goals exact ⟨later.now, later.generation, later.cleared⟩

theorem Sound.reset {s : LazySlot (Dated α)} {h : History} (sound : Sound s h) :
    Sound s.reset (h.reset s.isUnset) ∧ Later s h s.reset (h.reset s.isUnset) := by
  have cleared := sound.cleared
  have idle := sound.idle
  obtain ⟨content, generation⟩ := s
  cases content with
  | unset =>
      refine ⟨⟨Nat.le_succ_of_le cleared, Nat.le_refl _, ?_, sound.served⟩,
        Nat.le_succ _, Nat.le_refl _, fun _ => rfl⟩
      intro d kept
      cases kept
  | computing | ready _ =>
      refine ⟨⟨Nat.le_refl _, Nat.le_succ_of_le idle, ?_, sound.served⟩,
        Nat.le_succ _, Nat.le_succ _, fun same => absurd same (Nat.succ_ne_self _)⟩
      intro d kept
      cases kept

/-- What a computation leaves in the slot, and what it is answered, is its own value or
what the slot keeps by then. -/
theorem finish_spec {s after : LazySlot α} {generation : Nat} {outcome got : Outcome α}
    (finished : s.finish generation outcome = (got, after)) :
    after.generation = s.generation ∧
      (∀ d, after.get? = some d →
        s.get? = some d ∨ outcome = .ok d ∧ s.generation = generation) ∧
      ∀ d, got = .ok d → outcome = .ok d ∨ s.get? = some d := by
  obtain ⟨content, current⟩ := s
  cases outcome with
  | error fault =>
      cases content <;> by_cases same : current = generation <;>
        (simp only [finish, same, if_true, if_false, Prod.mk.injEq] at finished
         obtain ⟨rfl, rfl⟩ := finished
         simp [get?, same])
  | ok value =>
      by_cases same : current = generation
      · cases content <;>
          (simp only [finish, same, if_true, Prod.mk.injEq] at finished
           obtain ⟨rfl, rfl⟩ := finished
           simp [get?, same])
      · simp only [finish, same, if_false, Prod.mk.injEq] at finished
        obtain ⟨rfl, rfl⟩ := finished
        exact ⟨rfl, fun _ kept => .inl kept, fun _ own => .inl own⟩

theorem began_of_map {moment : Nat} {outcome : Outcome α} {d : Dated α}
    (dated : outcome.map (Dated.mk moment) = .ok d) : d.began = moment := by
  cases outcome with
  | error fault => cases dated
  | ok value =>
      obtain rfl := Except.ok.inj dated
      rfl

section Finish

variable {s s' after : LazySlot (Dated α)} {h h' : History} {outcome : Outcome α}
  {got : Outcome (Dated α)}
  (finished : s'.finish s.generation (outcome.map (Dated.mk (h.now + 1))) = (got, after))

include finished

theorem Later.finish (later : Later s.begin h.begin s' h') : Later s h after h' := by
  obtain ⟨generation, -, -⟩ := finish_spec finished
  have now : h.now + 1 ≤ h'.now := later.now
  refine ⟨Nat.le_of_succ_le now, ?_, ?_⟩
  · rw [generation]
    exact later.generation
  · intro same
    exact later.cleared (generation.symm.trans same)

/-- A computation that began in a sound slot ends in one. -/
theorem Sound.finish (sound : Sound s h) (ended : Sound s' h')
    (later : Later s.begin h.begin s' h') : Sound after (h'.answer (h.now + 1) got) := by
  obtain ⟨-, keeps, answers⟩ := finish_spec finished
  have begun := sound.cleared
  have now : h.now + 1 ≤ h'.now := later.now
  refine Sound.answer ⟨ended.cleared, ended.idle, ?_, ended.served⟩ _ ?_
  · intro d kept
    rcases keeps d kept with old | ⟨new, same⟩
    · exact ended.kept d old
    · have cleared : h'.cleared = h.cleared := later.cleared same
      have moment := began_of_map new
      omega
  · intro d answered other
    rcases answers d answered with new | old
    · exact absurd (began_of_map new) other
    · exact (ended.kept d old).1

end Finish

theorem Sound.begin {s : LazySlot (Dated α)} {h : History} (sound : Sound s h) :
    Sound s.begin h.begin :=
  ⟨Nat.le_succ_of_le sound.cleared, Nat.le_succ_of_le sound.idle,
    fun _ kept => (by cases kept), sound.served⟩

theorem content_of_get? {s : LazySlot α} {value : α} (kept : s.get? = some value) :
    s.content = .ready value := by
  obtain ⟨content, generation⟩ := s
  cases content with
  | ready first =>
      obtain rfl := Option.some.inj kept
      rfl
  | _ => cases kept

mutual

/-- No script makes the slot keep, or hand out, what began before something was last
given up. -/
theorem sound_follow (script : List (SlotUse α)) {s : LazySlot (Dated α)} {h : History}
    (sound : Sound s h) :
    Sound (follow script s h).2.1 (follow script s h).2.2 ∧
      Later s h (follow script s h).2.1 (follow script s h).2.2 := by
  match script with
  | [] => exact ⟨sound, .refl s h⟩
  | use :: rest =>
      obtain ⟨next, later⟩ := sound_followOne use sound
      obtain ⟨after, further⟩ := sound_follow rest next
      exact ⟨after, later.trans further⟩

theorem sound_followOne (use : SlotUse α) {s : LazySlot (Dated α)} {h : History}
    (sound : Sound s h) :
    Sound (followOne use s h).2.1 (followOne use s h).2.2 ∧
      Later s h (followOne use s h).2.1 (followOne use s h).2.2 := by
  match use with
  | .state => exact ⟨sound, .refl s h⟩
  | .get =>
      simp only [followOne]
      cases kept : s.get? with
      | none => exact ⟨sound, .refl s h⟩
      | some d => exact ⟨sound.serve (sound.kept d kept).1, Nat.le_refl _, Nat.le_refl _, fun _ => rfl⟩
  | .reset => exact sound.reset
  | .init outcome inner =>
      cases kept : s.get? with
      | some d =>
          rw [followOne_init_of_ready h outcome inner (content_of_get? kept)]
          have handed : Sound s (h.answer (h.now + 1) (.ok d)) := by
            refine sound.answer (h.now + 1) ?_
            intro d' same _
            obtain rfl := Except.ok.inj same
            exact (sound.kept d kept).1
          exact ⟨handed, (Later.refl s h).answer (h.now + 1) (.ok d)⟩
      | none =>
          obtain ⟨ended, later⟩ := sound_follow inner sound.begin
          rw [followOne_init_of_absent h outcome inner kept]
          rcases ran : follow inner s.begin h.begin with ⟨answers, s', h'⟩
          rw [ran] at ended later
          rcases finished : s'.finish s.generation (outcome.map (Dated.mk (h.now + 1)))
            with ⟨got, after⟩
          simp only [finished]
          exact ⟨sound.finish finished ended later, (later.finish finished).answer _ _⟩

end

/-! ## Resets that find the slot unset -/

mutual

/-- Every computation of a script succeeds, those inside others too. -/
def succeed : List (SlotUse α) → Bool
  | [] => true
  | use :: rest => succeeds use && succeed rest

def succeeds : SlotUse α → Bool
  | .init outcome inner => outcome.toBool && succeed inner
  | _ => true

end

/-- Every value that is kept, or was handed out, began after the last reset that found
nothing to give up. -/
structure Recent (s : LazySlot (Dated α)) (h : History) : Prop where
  kept : ∀ d, s.get? = some d → h.idle < d.began
  served : ∀ x ∈ h.servings, x.idle < x.began

/-- A later moment of a slot that is not unset.  Under the same generation it is not
unset by then, and no reset found it so. -/
def Undisturbed (s : LazySlot (Dated α)) (h : History) (s' : LazySlot (Dated α))
    (h' : History) : Prop :=
  s.isUnset = false → s'.generation = s.generation → s'.isUnset = false ∧ h'.idle = h.idle

theorem Undisturbed.trans {s s' s'' : LazySlot (Dated α)} {h h' h'' : History}
    (later : Later s h s' h') (further : Later s' h' s'' h'')
    (first : Undisturbed s h s' h') (second : Undisturbed s' h' s'' h'') :
    Undisturbed s h s'' h'' := by
  intro filled same
  have up := later.generation
  have onward := further.generation
  obtain ⟨still, idle⟩ := first filled (by omega)
  obtain ⟨end_, idle'⟩ := second still (by omega)
  exact ⟨end_, idle'.trans idle⟩

theorem recent_start : Recent (empty : LazySlot (Dated α)) .start :=
  ⟨fun _ kept => (by cases kept), fun _ member => (by cases member)⟩

theorem idle_answer (h : History) (own : Nat) (got : Outcome (Dated α)) :
    (h.answer own got).idle = h.idle := by
  unfold History.answer
  split
  · split <;> rfl
  · rfl

theorem Recent.serve {s : LazySlot (Dated α)} {h : History} (recent : Recent s h) {d : Dated α}
    (outlived : h.idle < d.began) : Recent s (h.serve d) := by
  refine ⟨recent.kept, ?_⟩
  intro x member
  rcases List.mem_append.1 member with old | new
  · exact recent.served x old
  · obtain rfl := List.mem_singleton.1 new
    exact outlived

theorem Recent.answer {s : LazySlot (Dated α)} {h : History} (recent : Recent s h) (own : Nat)
    {got : Outcome (Dated α)} (outlived : ∀ d, got = .ok d → d.began ≠ own → h.idle < d.began) :
    Recent s (h.answer own got) := by
  unfold History.answer
  split
  · rename_i d
    split
    · exact recent
    · rename_i other
      exact recent.serve (outlived d rfl other)
  · exact recent

theorem Recent.reset {s : LazySlot (Dated α)} {h : History} (recent : Recent s h) :
    Recent s.reset (h.reset s.isUnset) ∧ Undisturbed s h s.reset (h.reset s.isUnset) := by
  obtain ⟨content, generation⟩ := s
  cases content with
  | unset =>
      refine ⟨⟨fun _ kept => (by cases kept), recent.served⟩, ?_⟩
      intro filled
      cases filled
  | computing | ready _ =>
      refine ⟨⟨fun _ kept => (by cases kept), recent.served⟩, ?_⟩
      intro _ same
      exact absurd same (Nat.succ_ne_self _)

/-- A computation whose own script leaves the slot undisturbed hands out, and leaves,
nothing older than a reset. -/
theorem Recent.finish {s s' after : LazySlot (Dated α)} {h h' : History} {outcome : Outcome α}
    {got : Outcome (Dated α)}
    (finished : s'.finish s.generation (outcome.map (Dated.mk (h.now + 1))) = (got, after))
    (sound : Sound s h) (ended : Recent s' h') (undisturbed : Undisturbed s.begin h.begin s' h') :
    Recent after (h'.answer (h.now + 1) got) := by
  obtain ⟨-, keeps, answers⟩ := finish_spec finished
  refine Recent.answer ⟨?_, ended.served⟩ _ ?_
  · intro d kept
    rcases keeps d kept with old | ⟨new, same⟩
    · exact ended.kept d old
    · have quiet : h'.idle = h.idle := (undisturbed rfl same).2
      have idle := sound.idle
      have moment := began_of_map new
      omega
  · intro d answered other
    rcases answers d answered with new | old
    · exact absurd (began_of_map new) other
    · exact ended.kept d old

/-- A success never leaves the slot unset under its generation. -/
theorem finish_ok_spec {s after : LazySlot α} {generation : Nat} {value : α} {got : Outcome α}
    (finished : s.finish generation (.ok value) = (got, after)) (filled : s.isUnset = false) :
    after.isUnset = false := by
  obtain ⟨content, current⟩ := s
  by_cases same : current = generation
  · cases content <;>
      (simp only [finish, same, if_true, Prod.mk.injEq] at finished
       obtain ⟨-, rfl⟩ := finished
       rfl)
  · simp only [finish, same, if_false, Prod.mk.injEq] at finished
    obtain ⟨-, rfl⟩ := finished
    exact filled

/-- A computation of any outcome, given what its own script does. -/
theorem recent_init (outcome : Outcome α) (inner : List (SlotUse α)) {s : LazySlot (Dated α)}
    {h : History} (sound : Sound s h) (recent : Recent s h)
    (inside : Recent (follow inner s.begin h.begin).2.1 (follow inner s.begin h.begin).2.2 ∧
      Undisturbed s.begin h.begin (follow inner s.begin h.begin).2.1
        (follow inner s.begin h.begin).2.2) :
    Recent (followOne (.init outcome inner) s h).2.1 (followOne (.init outcome inner) s h).2.2 ∧
      (outcome.toBool = true → Undisturbed s h (followOne (.init outcome inner) s h).2.1
        (followOne (.init outcome inner) s h).2.2) := by
  cases kept : s.get? with
  | some d =>
      rw [followOne_init_of_ready h outcome inner (content_of_get? kept)]
      have handed : Recent s (h.answer (h.now + 1) (.ok d)) := by
        refine recent.answer (h.now + 1) ?_
        intro d' same _
        obtain rfl := Except.ok.inj same
        exact recent.kept d kept
      exact ⟨handed, fun _ filled _ => ⟨filled, idle_answer ..⟩⟩
  | none =>
      obtain ⟨ended, undisturbed⟩ := inside
      rw [followOne_init_of_absent h outcome inner kept]
      rcases ran : follow inner s.begin h.begin with ⟨answers, s', h'⟩
      rw [ran] at ended undisturbed
      rcases finished : s'.finish s.generation (outcome.map (Dated.mk (h.now + 1)))
        with ⟨got, after⟩
      simp only [finished]
      refine ⟨ended.finish finished sound undisturbed, ?_⟩
      intro succeeded _ same
      obtain ⟨unmoved, -, -⟩ := finish_spec finished
      obtain ⟨filled, idle⟩ := undisturbed rfl (unmoved.symm.trans same)
      cases outcome with
      | error fault => cases succeeded
      | ok value => exact ⟨finish_ok_spec finished filled, (idle_answer ..).trans idle⟩

mutual

/-- A script of which every computation succeeds leaves a running computation
undisturbed, unless it resets it. -/
theorem recent_follow (script : List (SlotUse α)) {s : LazySlot (Dated α)} {h : History}
    (sound : Sound s h) (recent : Recent s h) (all : succeed script = true) :
    Recent (follow script s h).2.1 (follow script s h).2.2 ∧
      Undisturbed s h (follow script s h).2.1 (follow script s h).2.2 := by
  match script with
  | [] => exact ⟨recent, fun filled _ => ⟨filled, rfl⟩⟩
  | use :: rest =>
      obtain ⟨here, others⟩ := (Bool.and_eq_true _ _).mp all
      obtain ⟨next, later⟩ := sound_followOne use sound
      obtain ⟨middle, first⟩ := recent_followOne use sound recent here
      obtain ⟨last, second⟩ := recent_follow rest next middle others
      exact ⟨last, first.trans later (sound_follow rest next).2 second⟩

theorem recent_followOne (use : SlotUse α) {s : LazySlot (Dated α)} {h : History}
    (sound : Sound s h) (recent : Recent s h) (all : succeeds use = true) :
    Recent (followOne use s h).2.1 (followOne use s h).2.2 ∧
      Undisturbed s h (followOne use s h).2.1 (followOne use s h).2.2 := by
  match use with
  | .state => exact ⟨recent, fun filled _ => ⟨filled, rfl⟩⟩
  | .get =>
      simp only [followOne]
      cases kept : s.get? with
      | none => exact ⟨recent, fun filled _ => ⟨filled, rfl⟩⟩
      | some d => exact ⟨recent.serve (recent.kept d kept), fun filled _ => ⟨filled, rfl⟩⟩
  | .reset => exact recent.reset
  | .init outcome inner =>
      obtain ⟨succeeded, inside⟩ := (Bool.and_eq_true _ _).mp all
      have begun : Recent s.begin h.begin := ⟨fun _ kept => (by cases kept), recent.served⟩
      obtain ⟨after, undisturbed⟩ :=
        recent_init outcome inner sound recent (recent_follow inner sound.begin begun inside)
      exact ⟨after, undisturbed succeeded⟩

end

/-- The computations of a script may fail, but none inside another does. -/
def NoneFailsInside (script : List (SlotUse α)) : Prop :=
  ∀ outcome inner, SlotUse.init outcome inner ∈ script → succeed inner = true

theorem recent_script (script : List (SlotUse α)) {s : LazySlot (Dated α)} {h : History}
    (sound : Sound s h) (recent : Recent s h) (inside : NoneFailsInside script) :
    Recent (follow script s h).2.1 (follow script s h).2.2 := by
  induction script generalizing s h with
  | nil => exact recent
  | cons use rest ih =>
      have next : Recent (followOne use s h).2.1 (followOne use s h).2.2 := by
        cases use with
        | init outcome inner =>
            have begun : Recent s.begin h.begin := ⟨fun _ kept => (by cases kept), recent.served⟩
            have all := inside outcome inner List.mem_cons_self
            exact (recent_init outcome inner sound recent
              (recent_follow inner sound.begin begun all)).1
        | state | get | reset => exact (recent_followOne _ sound recent rfl).1
      exact ih (sound_followOne use sound).1 next
        fun outcome inner member => inside outcome inner (List.mem_cons_of_mem _ member)

/-! ## The values a script is served -/

/-- Of every script on a new slot, with the same answers as without a history: a value
that is handed out began after everything was last given up, so it is older than the
last reset exactly if that reset found the slot unset; and no value is older than the
last reset if no computation fails inside another. -/
theorem served_values (script : List (SlotUse α)) :
    ∃ answers s h, follow script empty .start = (answers, s, h) ∧
      run script empty 0 = (answers, s.map Dated.value, h.computations) ∧
      (∀ x ∈ h.servings, x.cleared < x.began ∧ (x.lastReset < x.began ↔ x.idle < x.began)) ∧
      (NoneFailsInside script → ∀ x ∈ h.servings, x.lastReset < x.began) := by
  have sound := (sound_follow script (sound_start (α := α))).1
  refine ⟨_, _, _, rfl, follow_undated script empty .start, ?_, ?_⟩
  · intro x member
    have cleared := sound.served x member
    exact ⟨cleared, by simp only [Serving.lastReset]; omega⟩
  · intro inside x member
    have cleared := sound.served x member
    have idle := (recent_script script sound_start recent_start inside).served x member
    simp only [Serving.lastReset]
    omega

/-- A value computed across a reset is not kept; the next computation is. -/
theorem served_values_across_reset :
    NoneFailsInside [.init (.ok 1) [.reset], .init (.error (.notFound .value)) [],
        .init (.ok 2) [], .get] ∧
      ∀ x ∈ (follow [.init (.ok 1) [.reset], .init (.error (.notFound .value)) [],
        .init (.ok 2) [], .get] empty .start).2.2.servings, x.lastReset < x.began := by
  have inside : NoneFailsInside [.init (.ok 1) [.reset],
      .init (.error (.notFound .value)) [], .init (.ok 2) [], .get] := by
    intro outcome inner member
    simp only [List.mem_cons, SlotUse.init.injEq, List.not_mem_nil, or_false, reduceCtorEq] at member
    rcases member with ⟨-, rfl⟩ | ⟨-, rfl⟩ | ⟨-, rfl⟩ <;> rfl
  obtain ⟨answers, s, h, ran, -, -, served⟩ := served_values [.init (.ok 1) [.reset],
    .init (.error (.notFound .value)) [], .init (.ok 2) [], .get]
  refine ⟨inside, ?_⟩
  rw [ran]
  exact served inside

/-- A failure inside a computation empties the slot, so that a reset goes unnoticed: the
value, whose computation began before that reset, is kept and handed out. -/
theorem value_outlives_reset :
    (run [.init (.ok 1) [.init (.error (.notFound .value)) [], .reset], .get] empty 0).1 =
        [.init (.ok 1) [.init (.error (.notFound .value)) [] 2, .nothing] 2, .value (some 1)] ∧
      ∃ x ∈ (follow [.init (.ok 1) [.init (.error (.notFound .value)) [], .reset], .get]
        empty .start).2.2.servings, x.began < x.lastReset :=
  ⟨rfl, ⟨1, 0, 3⟩, List.mem_cons_self, by decide⟩

end LazySlot

end PropertyGraph
