/-
# Proofs.Shards -- what a shard keeps, and what it weighs

A shard keeps each query once, its counter is what the kept slices weigh together, and
that is within the budget (`Shard.Sound`).  Every operation keeps it so.

* What is in a shard after an operation was in it before, or was just put in
  (`mem_remove`, `mem_of_mem_touch`, `mem_of_mem_put`, `mem_drop`).
* An eviction drops slices from the end of the list, so a slice that fits the budget is
  found right after it was put in (`find?_put`).
-/
import PropertyGraph.Cache.StoreCache

namespace PropertyGraph

set_option autoImplicit false

namespace Shard

theorem mem_without {s : Shard} {q : KeySlice} {x : CachedSlice} :
    x ∈ s.without q ↔ x ∈ s.slices ∧ x.query ≠ q := by
  simp [without]

theorem mem_remove {s : Shard} {q : KeySlice} {x : CachedSlice} :
    x ∈ (s.remove q).slices ↔ x ∈ s.slices ∧ x.query ≠ q := by
  unfold remove
  cases found : s.find? q with
  | some old => exact mem_without
  | none =>
      constructor
      · intro member
        have absent := List.find?_eq_none.1 found x member
        exact ⟨member, by simpa using absent⟩
      · exact And.left

theorem mem_of_mem_touch {s : Shard} {c x : CachedSlice} (member : x ∈ (s.touch c).slices) :
    x = c ∨ x ∈ s.slices := by
  rcases List.mem_cons.1 member with same | inRest
  · exact .inl same
  · exact .inr (mem_without.1 inRest).1

theorem mem_of_mem_shed {budget bytes : Nat} {slices : List CachedSlice} {x : CachedSlice}
    (member : x ∈ (shed budget slices bytes).1) : x ∈ slices := by
  induction slices generalizing bytes with
  | nil => exact member
  | cons oldest rest ih =>
      simp only [shed] at member
      split at member
      · exact List.mem_cons_of_mem _ (ih member)
      · exact member

theorem mem_of_mem_evict {s : Shard} {x : CachedSlice} (member : x ∈ s.evict.slices) :
    x ∈ s.slices := by
  have shed := List.mem_reverse.1 member
  exact List.mem_reverse.1 (mem_of_mem_shed shed)

theorem mem_of_mem_put {s : Shard} {c x : CachedSlice} (member : x ∈ (s.put c).slices) :
    x = c ∨ x ∈ s.slices := by
  rcases List.mem_cons.1 (mem_of_mem_evict member) with same | inRest
  · exact .inl same
  · exact .inr (mem_remove.1 inRest).1

theorem mem_drop {s : Shard} {doomed : Bytes → Bool} {x : CachedSlice} :
    x ∈ (s.drop doomed).slices ↔ x ∈ s.slices ∧ doomed x.query.key = false := by
  have removed : ∀ (gone : List CachedSlice) (s : Shard),
      x ∈ (gone.foldl (fun acc c => acc.remove c.query) s).slices ↔
        x ∈ s.slices ∧ ∀ c ∈ gone, x.query ≠ c.query := by
    intro gone
    induction gone with
    | nil => simp
    | cons c rest ih =>
        intro s
        rw [List.foldl_cons, ih, mem_remove, List.forall_mem_cons, and_assoc]
  rw [drop, removed]
  refine and_congr_right fun member => ⟨?_, ?_⟩
  · intro apart
    rw [Bool.eq_false_iff]
    intro picked
    exact apart x (List.mem_filter.2 ⟨member, picked⟩) rfl
  · intro spared c inGone same
    obtain ⟨-, picked⟩ := List.mem_filter.1 inGone
    rw [← same, spared] at picked
    cases picked

/-- Each query is kept once, and the counter is what the slices weigh. -/
structure Sound (s : Shard) : Prop where
  apart : (s.slices.map CachedSlice.query).Nodup
  weighed : s.bytes = sumOf CachedSlice.weight s.slices
  within : s.bytes ≤ s.budget

theorem sound_empty (budget : Nat) : Sound ⟨[], 0, budget⟩ :=
  ⟨List.nodup_nil, rfl, Nat.zero_le budget⟩

/-- Taking a query's slice out takes its weight off. -/
theorem sumOf_without {slices : List CachedSlice} {old : CachedSlice}
    (apart : (slices.map CachedSlice.query).Nodup) (member : old ∈ slices) :
    sumOf CachedSlice.weight slices =
      old.weight + sumOf CachedSlice.weight (slices.filter fun c => c.query ≠ old.query) := by
  induction slices with
  | nil => cases member
  | cons c rest ih =>
      obtain ⟨absent, apart⟩ := List.nodup_cons.1 apart
      rcases List.mem_cons.1 member with rfl | inRest
      · have others : rest.filter (fun c => c.query ≠ old.query) = rest := by
          refine List.filter_eq_self.2 fun c member => decide_eq_true ?_
          intro same
          exact absent (List.mem_map.2 ⟨c, member, same⟩)
        rw [List.filter_cons_of_neg (by simp), others]
        rfl
      · have here : c.query ≠ old.query := fun same =>
          absent (List.mem_map.2 ⟨old, inRest, same.symm⟩)
        rw [List.filter_cons_of_pos (by simpa using here)]
        simp only [sumOf, ih apart inRest]
        omega

theorem Sound.remove {s : Shard} (sound : s.Sound) (q : KeySlice) : (s.remove q).Sound := by
  unfold Shard.remove
  cases found : s.find? q with
  | none => exact sound
  | some old =>
      have member : old ∈ s.slices := List.mem_of_find?_eq_some found
      have query : old.query = q := of_decide_eq_true (List.find?_some found :)
      have weights := sumOf_without sound.apart member
      rw [query] at weights
      have less : s.bytes - old.weight = sumOf CachedSlice.weight (s.without q) := by
        rw [sound.weighed, weights]
        exact Nat.add_sub_cancel_left ..
      exact ⟨sound.apart.sublist (List.filter_sublist.map _), less,
        Nat.le_trans (Nat.sub_le ..) sound.within⟩

theorem Sound.touch {s : Shard} (sound : s.Sound) {c : CachedSlice} (member : c ∈ s.slices) :
    (s.touch c).Sound := by
  have weights := sumOf_without sound.apart member
  refine ⟨?_, sound.weighed.trans weights, sound.within⟩
  refine List.nodup_cons.2 ⟨?_, sound.apart.sublist (List.filter_sublist.map _)⟩
  intro again
  obtain ⟨other, inRest, same⟩ := List.mem_map.1 again
  exact (mem_without.1 inRest).2 same

theorem Sound.drop {s : Shard} (sound : s.Sound) (doomed : Bytes → Bool) :
    (s.drop doomed).Sound := by
  unfold Shard.drop
  generalize s.slices.filter (fun c => doomed c.query.key) = gone
  induction gone generalizing s with
  | nil => exact sound
  | cons c rest ih => exact ih (sound.remove c.query)

theorem sound_clear (s : Shard) : s.clear.Sound :=
  ⟨List.nodup_nil, rfl, Nat.zero_le s.budget⟩

/-- Shedding leaves the end of the list, and no more than the budget. -/
theorem shed_spec (budget : Nat) (slices : List CachedSlice) {bytes : Nat}
    (weighed : bytes = sumOf CachedSlice.weight slices) :
    (shed budget slices bytes).1 <:+ slices ∧
      (shed budget slices bytes).2 = sumOf CachedSlice.weight (shed budget slices bytes).1 ∧
      (shed budget slices bytes).2 ≤ budget := by
  induction slices generalizing bytes with
  | nil =>
      have nothing : bytes = 0 := weighed
      exact ⟨List.suffix_refl [], weighed, by rw [nothing]; exact Nat.zero_le budget⟩
  | cons oldest rest ih =>
      simp only [shed]
      split
      · have less : bytes - oldest.weight = sumOf CachedSlice.weight rest := by
          rw [weighed]
          exact Nat.add_sub_cancel_left ..
        obtain ⟨suffix, weighed', within⟩ := ih less
        exact ⟨suffix.trans (List.suffix_cons oldest rest), weighed', within⟩
      · rename_i fits
        exact ⟨List.suffix_refl _, weighed, Nat.le_of_not_lt fits⟩

/-- The last slice of the list stays if it fits the budget on its own. -/
theorem getLast?_shed {budget : Nat} (slices : List CachedSlice) {newest : CachedSlice}
    {bytes : Nat} (fits : newest.weight ≤ budget)
    (weighed : bytes = sumOf CachedSlice.weight (slices ++ [newest])) :
    (shed budget (slices ++ [newest]) bytes).1.getLast? = some newest := by
  induction slices generalizing bytes with
  | nil =>
      have alone : bytes = newest.weight := weighed
      have stays : ¬ budget < bytes := by omega
      simp [shed, stays]
  | cons oldest rest ih =>
      simp only [List.cons_append, shed]
      split
      · apply ih
        rw [weighed]
        exact Nat.add_sub_cancel_left ..
      · rw [← List.cons_append, List.getLast?_concat]

theorem sumOf_reverse (slices : List CachedSlice) :
    sumOf CachedSlice.weight slices.reverse = sumOf CachedSlice.weight slices := by
  induction slices with
  | nil => rfl
  | cons c rest ih =>
      rw [List.reverse_cons, sumOf_append, ih]
      simp only [sumOf]
      omega

/-- A slice that fits the budget is put in front, whatever has to go for it. -/
theorem put_spec {s : Shard} (sound : s.Sound) {c : CachedSlice} (fits : c.weight ≤ s.budget) :
    (s.put c).Sound ∧ (s.put c).slices.head? = some c := by
  have removed := sound.remove c.query
  have budget : (s.remove c.query).budget = s.budget := by
    unfold remove
    split <;> rfl
  let slices := c :: (s.remove c.query).slices
  have weighed : (s.remove c.query).bytes + c.weight =
      sumOf CachedSlice.weight slices.reverse := by
    rw [sumOf_reverse, removed.weighed]
    exact Nat.add_comm ..
  have apart : (slices.map CachedSlice.query).Nodup := by
    refine List.nodup_cons.2 ⟨?_, removed.apart⟩
    intro again
    obtain ⟨other, member, same⟩ := List.mem_map.1 again
    exact (mem_remove.1 member).2 same
  obtain ⟨suffix, left, within⟩ := shed_spec s.budget slices.reverse weighed
  have last : (shed s.budget slices.reverse ((s.remove c.query).bytes + c.weight)).1.getLast? =
      some c := by
    have order : slices.reverse = (s.remove c.query).slices.reverse ++ [c] := List.reverse_cons
    rw [order] at weighed ⊢
    exact getLast?_shed _ fits weighed
  unfold put evict
  simp only [budget]
  refine ⟨⟨?_, ?_, within⟩, ?_⟩
  · have sublist := suffix.sublist.reverse
    rw [List.reverse_reverse] at sublist
    exact apart.sublist (sublist.map _)
  · rw [sumOf_reverse]
    exact left
  · rw [List.head?_reverse]
    exact last

theorem find?_put {s : Shard} (sound : s.Sound) {c : CachedSlice} (fits : c.weight ≤ s.budget) :
    (s.put c).find? c.query = some c := by
  obtain ⟨rest, first⟩ := List.head?_eq_some_iff.1 (put_spec sound fits).2
  rw [find?, first, List.find?_cons_of_pos (by simp)]

end Shard

end PropertyGraph
