/-
# Proofs.Lookups -- lists of bindings

Rows of a buffer, intervals of components and sort values of keys are lists of bindings,
of which `List.lookup` finds the first.  Where no name is bound twice, finding a binding
is having it (`mem_of_lookup`, `lookup_of_mem`), in whatever order they come
(`lookup_eq_of_perm`).  A list without its repeats names each
element once (`nodup_eraseDups`), and may be filtered first (`eraseDups_filter`).

Two lists that correspond element by element have for each element of one an element of the
other (`exists_left_of_forall₂`).
-/
import Mathlib.Data.List.Basic
import Mathlib.Data.List.Forall2

namespace PropertyGraph

set_option autoImplicit false

section Forall₂

variable {α β : Type} {R : α → β → Prop} {l : List α} {k : List β}

theorem exists_left_of_forall₂ (each : List.Forall₂ R l k) {b : β} (member : b ∈ k) :
    ∃ a ∈ l, R a b := by
  induction each with
  | nil => cases member
  | cons related _ ih =>
      obtain rfl | inRest := List.mem_cons.mp member
      · exact ⟨_, List.mem_cons_self, related⟩
      · obtain ⟨a, inLeft, relatedLater⟩ := ih inRest
        exact ⟨a, List.mem_cons_of_mem _ inLeft, relatedLater⟩

theorem exists_right_of_forall₂ (each : List.Forall₂ R l k) {a : α} (member : a ∈ l) :
    ∃ b ∈ k, R a b :=
  exists_left_of_forall₂ (R := flip R) each.flip member

/-- What holds of two elements and what is related to them holds pairwise. -/
theorem pairwise_of_forall₂ {S : α → α → Prop} {T : β → β → Prop} (each : List.Forall₂ R l k)
    (pairs : l.Pairwise S) (step : ∀ a a' b b', R a b → R a' b' → S a a' → T b b') :
    k.Pairwise T := by
  induction each with
  | nil => exact .nil
  | cons related later ih =>
      obtain ⟨first, rest⟩ := List.pairwise_cons.mp pairs
      refine List.pairwise_cons.mpr ⟨fun b member => ?_, ih rest⟩
      obtain ⟨a, inRest, relatedLater⟩ := exists_left_of_forall₂ later member
      exact step _ _ _ _ related relatedLater (first a inRest)

end Forall₂

section Bindings

variable {κ α : Type} [DecidableEq κ] [BEq κ] [LawfulBEq κ]

theorem lookup_cons_eq_ite (key k : κ) (a : α) (bindings : List (κ × α)) :
    ((key, a) :: bindings).lookup k = if k = key then some a else bindings.lookup k := by
  rw [List.lookup_cons]
  by_cases same : k = key
  · simp [same]
  · have apart : (k == key) = false := by simpa using same
    simp [same, apart]

theorem mem_of_lookup {key : κ} {a : α} {bindings : List (κ × α)}
    (found : bindings.lookup key = some a) : (key, a) ∈ bindings := by
  induction bindings with
  | nil => simp at found
  | cons binding rest ih =>
      obtain ⟨other, b⟩ := binding
      rw [lookup_cons_eq_ite] at found
      split at found
      · rename_i same
        obtain rfl := Option.some.inj found
        exact same ▸ List.mem_cons_self
      · exact List.mem_cons_of_mem _ (ih found)

theorem lookup_of_mem {key : κ} {a : α} {bindings : List (κ × α)}
    (nodup : (bindings.map Prod.fst).Nodup) (member : (key, a) ∈ bindings) :
    bindings.lookup key = some a := by
  induction bindings with
  | nil => cases member
  | cons binding rest ih =>
      obtain ⟨other, b⟩ := binding
      obtain ⟨absent, nodupRest⟩ := List.nodup_cons.1 nodup
      rw [lookup_cons_eq_ite]
      rcases List.mem_cons.1 member with same | inRest
      · obtain ⟨rfl, rfl⟩ := Prod.mk.inj same
        simp
      · have apart : key ≠ other := fun same =>
          absent (same ▸ List.mem_map.2 ⟨(key, a), inRest, rfl⟩)
        rw [if_neg apart]
        exact ih nodupRest inRest

/-- Where no name is bound twice, the order of the bindings does not matter. -/
theorem lookup_eq_of_perm {bindings bindings' : List (κ × α)} (perm : bindings.Perm bindings')
    (nodup : (bindings'.map Prod.fst).Nodup) (key : κ) :
    bindings.lookup key = bindings'.lookup key := by
  have nodup' : (bindings.map Prod.fst).Nodup := (perm.map Prod.fst).nodup_iff.2 nodup
  refine Option.ext fun a => ?_
  constructor
  · intro found
    exact lookup_of_mem nodup (perm.mem_iff.1 (mem_of_lookup found))
  · intro found
    exact lookup_of_mem nodup' (perm.mem_iff.2 (mem_of_lookup found))

theorem lookup_filter_ne (key k : κ) (bindings : List (κ × α)) :
    (bindings.filter fun b => b.1 != key).lookup k =
      if k = key then none else bindings.lookup k := by
  induction bindings with
  | nil => simp
  | cons binding rest ih =>
      obtain ⟨other, a⟩ := binding
      by_cases gone : other = key
      · rw [List.filter_cons_of_neg (by simp [gone]), ih, lookup_cons_eq_ite, gone]
        split <;> rfl
      · rw [List.filter_cons_of_pos (by simp [gone]), lookup_cons_eq_ite, ih, lookup_cons_eq_ite]
        by_cases here : k = other
        · rw [if_pos here, if_pos here, if_neg (here ▸ gone)]
        · rw [if_neg here, if_neg here]

omit [DecidableEq κ] in
theorem nodup_eraseDups : (l : List κ) → l.eraseDups.Nodup
  | [] => List.nodup_nil
  | a :: rest => by
      rw [List.eraseDups_cons]
      exact List.nodup_cons.2 ⟨by simp, nodup_eraseDups (rest.filter fun b => !b == a)⟩
termination_by l => l.length
decreasing_by exact Nat.lt_succ_of_le (List.length_filter_le ..)

omit [DecidableEq κ] in
/-- One element more is new, or there already. -/
theorem eraseDups_concat (l : List κ) (a : κ) :
    (l ++ [a]).eraseDups = if a ∈ l then l.eraseDups else l.eraseDups ++ [a] := by
  rw [List.eraseDups_append]
  by_cases old : a ∈ l <;> simp [List.removeAll, old, List.eraseDups_cons]

omit [DecidableEq κ] in
/-- The first of each may be picked before or after a filter. -/
theorem eraseDups_filter (p : κ → Bool) : (l : List κ) →
    (l.filter p).eraseDups = l.eraseDups.filter p
  | [] => rfl
  | a :: rest => by
      have ih := eraseDups_filter p (rest.filter fun b => !b == a)
      by_cases picked : p a = true
      · rw [List.filter_cons_of_pos picked, List.eraseDups_cons, List.eraseDups_cons,
          List.filter_cons_of_pos picked, ← ih, List.filter_filter, List.filter_filter]
        simp only [Bool.and_comm]
      · have others : (rest.filter fun b => !b == a).filter p = rest.filter p := by
          rw [List.filter_filter]
          refine List.filter_congr fun b _ => ?_
          by_cases here : b = a
          · subst here
            simp [picked]
          · simp [here]
        rw [List.filter_cons_of_neg picked, List.eraseDups_cons,
          List.filter_cons_of_neg picked, ← ih, others]
termination_by l => l.length
decreasing_by exact Nat.lt_succ_of_le (List.length_filter_le ..)

end Bindings

end PropertyGraph
