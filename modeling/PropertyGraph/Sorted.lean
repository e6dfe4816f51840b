/-
# Sorted -- lists in ascending order of a key

Rows, tables and definitions are lists whose elements stand in ascending order
of a key, at most one element a key (`Sorted.Ascending`).  `insert` and `erase`
keep that form (`Ascending.insert`, `Ascending.erase`), and `find?` sees exactly
the last change of each key (`find?_insert`, `find?_erase`).  Such a list is known
by its look-ups (`eq_of_find?`), and going along it finds the elements between two keys
(`range_eq_filter`).
-/
import PropertyGraph.Fault

namespace PropertyGraph.Sorted

set_option autoImplicit false

variable {α κ : Type} [Ord κ]

/-- Puts an element in its place.  An element of the same key is replaced. -/
def insert (key : α → κ) (x : α) : List α → List α
  | [] => [x]
  | y :: rest =>
      match compare (key x) (key y) with
      | .lt => x :: y :: rest
      | .eq => x :: rest
      | .gt => y :: insert key x rest

/-- Takes the element of a key out. -/
def erase (key : α → κ) (k : κ) : List α → List α
  | [] => []
  | y :: rest =>
      match compare k (key y) with
      | .lt => y :: rest
      | .eq => rest
      | .gt => y :: erase key k rest

/-- The element of a key. -/
def find? (key : α → κ) (k : κ) : List α → Option α
  | [] => none
  | y :: rest => if compare k (key y) = .eq then some y else find? key k rest

/-- The elements whose keys lie in `[first, last)`, found by going along the list. -/
def range (key : α → κ) (first last : κ) (l : List α) : List α :=
  (l.dropWhile fun x => compare (key x) first == .lt).takeWhile fun x => compare (key x) last == .lt

/-- All elements in order; of several with one key the last. -/
def ofList (key : α → κ) (l : List α) : List α := l.foldl (fun acc x => insert key x acc) []

/-- Ascending, at most one element a key. -/
def Ascending (key : α → κ) (l : List α) : Prop :=
  l.Pairwise fun x y => compare (key x) (key y) = .lt

theorem mem_insert {key : α → κ} {x y : α} {l : List α} (member : y ∈ insert key x l) :
    y = x ∨ y ∈ l := by
  induction l with
  | nil => simpa [insert] using member
  | cons z rest ih =>
      simp only [insert] at member
      split at member
      · simpa using member
      · rcases List.mem_cons.1 member with same | inRest
        · exact .inl same
        · exact .inr (List.mem_cons_of_mem _ inRest)
      · rcases List.mem_cons.1 member with same | inRest
        · exact .inr (same ▸ List.mem_cons_self)
        · exact (ih inRest).imp_right (List.mem_cons_of_mem _)

theorem mem_of_mem_erase {key : α → κ} {k : κ} {y : α} {l : List α}
    (member : y ∈ erase key k l) : y ∈ l := by
  induction l with
  | nil => simp [erase] at member
  | cons z rest ih =>
      simp only [erase] at member
      split at member
      · exact member
      · exact List.mem_cons_of_mem _ member
      · rcases List.mem_cons.1 member with same | inRest
        · exact same ▸ List.mem_cons_self
        · exact List.mem_cons_of_mem _ (ih inRest)

variable [Std.TransOrd κ]

theorem Ascending.insert {key : α → κ} {l : List α} (ascending : Ascending key l) (x : α) :
    Ascending key (insert key x l) := by
  induction l with
  | nil => simp [Sorted.insert, Ascending]
  | cons y rest ih =>
      obtain ⟨below, tail⟩ := List.pairwise_cons.1 ascending
      simp only [Sorted.insert]
      split
      · rename_i less
        refine List.pairwise_cons.2 ⟨fun z member => ?_, ascending⟩
        rcases List.mem_cons.1 member with rfl | inRest
        · exact less
        · exact Std.TransCmp.lt_trans less (below z inRest)
      · rename_i same
        refine List.pairwise_cons.2 ⟨fun z member => ?_, tail⟩
        exact Std.TransCmp.lt_of_eq_of_lt same (below z member)
      · rename_i greater
        refine List.pairwise_cons.2 ⟨fun z member => ?_, ih tail⟩
        rcases mem_insert member with rfl | inRest
        · exact Std.OrientedCmp.lt_of_gt greater
        · exact below z inRest

omit [Std.TransOrd κ] in
theorem Ascending.erase {key : α → κ} {l : List α} (ascending : Ascending key l) (k : κ) :
    Ascending key (erase key k l) := by
  induction l with
  | nil => simp [Sorted.erase, Ascending]
  | cons y rest ih =>
      obtain ⟨below, tail⟩ := List.pairwise_cons.1 ascending
      simp only [Sorted.erase]
      split
      · exact ascending
      · exact tail
      · exact List.pairwise_cons.2
          ⟨fun z member => below z (mem_of_mem_erase member), ih tail⟩

theorem ascending_ofList (key : α → κ) (l : List α) : Ascending key (ofList key l) := by
  suffices ∀ acc, Ascending key acc →
      Ascending key (l.foldl (fun acc x => Sorted.insert key x acc) acc) from this [] .nil
  induction l with
  | nil => exact fun acc ascending => ascending
  | cons x rest ih => exact fun acc ascending => ih _ (ascending.insert x)

theorem find?_insert {key : α → κ} (k : κ) (x : α) (l : List α) :
    find? key k (insert key x l) =
      if compare k (key x) = .eq then some x else find? key k l := by
  induction l with
  | nil => simp [insert, find?]
  | cons y rest ih =>
      simp only [insert]
      split
      · simp [find?]
      · rename_i same
        have : compare k (key x) = .eq ↔ compare k (key y) = .eq :=
          ⟨fun h => Std.TransCmp.eq_trans h same,
            fun h => Std.TransCmp.eq_trans h (Std.OrientedCmp.eq_symm same)⟩
        by_cases h : compare k (key x) = .eq
        · simp [find?, h]
        · simp [find?, h, mt this.2 h]
      · rename_i greater
        by_cases h : compare k (key y) = .eq
        · have : compare k (key x) ≠ .eq := fun e => by
            have := Std.TransCmp.eq_trans (Std.OrientedCmp.eq_symm e) h
            rw [this] at greater
            cases greater
          simp [find?, h, this]
        · simp [find?, h, ih]

omit [Std.TransOrd κ] in
theorem find?_eq_none_of_lt {key : α → κ} {k : κ} {l : List α}
    (above : ∀ y ∈ l, compare k (key y) = .lt) : find? key k l = none := by
  induction l with
  | nil => rfl
  | cons y rest ih =>
      have := above y List.mem_cons_self
      simp [find?, this, ih fun z member => above z (List.mem_cons_of_mem _ member)]

theorem find?_erase {key : α → κ} {l : List α} (ascending : Ascending key l) (k j : κ) :
    find? key j (erase key k l) = if compare j k = .eq then none else find? key j l := by
  induction l with
  | nil => simp [erase, find?]
  | cons y rest ih =>
      obtain ⟨below, tail⟩ := List.pairwise_cons.1 ascending
      simp only [erase]
      split
      · rename_i less
        split
        · rename_i same
          refine find?_eq_none_of_lt fun z member => ?_
          refine Std.TransCmp.lt_of_eq_of_lt same ?_
          rcases List.mem_cons.1 member with rfl | inRest
          · exact less
          · exact Std.TransCmp.lt_trans less (below z inRest)
        · rfl
      · rename_i hit
        split
        · rename_i same
          refine find?_eq_none_of_lt fun z member => ?_
          exact Std.TransCmp.lt_of_eq_of_lt (Std.TransCmp.eq_trans same hit) (below z member)
        · rename_i other
          have : compare j (key y) ≠ .eq := fun e =>
            other (Std.TransCmp.eq_trans e (Std.OrientedCmp.eq_symm hit))
          simp [find?, this]
      · rename_i greater
        simp only [find?, ih tail]
        by_cases same : compare j k = .eq
        · have : compare j (key y) ≠ .eq := fun e => by
            have := Std.TransCmp.eq_trans (Std.OrientedCmp.eq_symm same) e
            rw [this] at greater
            cases greater
          simp [same, this]
        · simp [same]

omit [Std.TransOrd κ] in
theorem mem_of_find? {key : α → κ} {k : κ} {x : α} {l : List α} (found : find? key k l = some x) :
    x ∈ l ∧ compare k (key x) = .eq := by
  induction l with
  | nil => simp [find?] at found
  | cons y rest ih =>
      simp only [find?] at found
      split at found
      · rename_i same
        obtain rfl := Option.some.inj found
        exact ⟨List.mem_cons_self, same⟩
      · obtain ⟨member, same⟩ := ih found
        exact ⟨List.mem_cons_of_mem _ member, same⟩

/-- The element of a key is the only one of that key. -/
theorem find?_of_mem {key : α → κ} {k : κ} {x : α} {l : List α} (ascending : Ascending key l)
    (member : x ∈ l) (same : compare k (key x) = .eq) : find? key k l = some x := by
  induction l with
  | nil => simp at member
  | cons y rest ih =>
      obtain ⟨below, tail⟩ := List.pairwise_cons.1 ascending
      rcases List.mem_cons.1 member with rfl | inRest
      · simp [find?, same]
      · have apart : compare k (key y) ≠ .eq := by
          intro hit
          have less := below x inRest
          rw [Std.TransCmp.eq_trans (Std.OrientedCmp.eq_symm hit) same] at less
          cases less
        simp only [find?, apart, if_false]
        exact ih tail inRest

omit [Std.TransOrd κ] in
theorem Ascending.filter {key : α → κ} {l : List α} (ascending : Ascending key l)
    (p : α → Bool) : Ascending key (l.filter p) :=
  List.Pairwise.filter p ascending

theorem find?_filter {key : α → κ} {l : List α} (ascending : Ascending key l) (p : α → Bool)
    (k : κ) : find? key k (l.filter p) = (find? key k l).filter p := by
  cases found : find? key k l with
  | none =>
      cases kept : find? key k (l.filter p) with
      | none => rfl
      | some x =>
          obtain ⟨member, same⟩ := mem_of_find? kept
          rw [find?_of_mem ascending (List.mem_filter.1 member).1 same] at found
          cases found
  | some x =>
      obtain ⟨member, same⟩ := mem_of_find? found
      by_cases picked : p x = true
      · rw [find?_of_mem (ascending.filter p) (List.mem_filter.2 ⟨member, picked⟩) same]
        simp [Option.filter, picked]
      · cases kept : find? key k (l.filter p) with
        | none => simp [Option.filter, picked]
        | some y =>
            obtain ⟨there, also⟩ := mem_of_find? kept
            have one := find?_of_mem ascending (List.mem_filter.1 there).1 also
            rw [found] at one
            obtain rfl := Option.some.inj one
            exact absurd (List.mem_filter.1 there).2 picked

/-- Behind the first element that has come to a key there is none below it. -/
theorem takeWhile_eq_filter {key : α → κ} {l : List α} (ascending : Ascending key l) (last : κ) :
    (l.takeWhile fun x => compare (key x) last == .lt) =
      l.filter fun x => compare (key x) last == .lt := by
  induction l with
  | nil => rfl
  | cons y rest ih =>
      obtain ⟨below, tail⟩ := List.pairwise_cons.1 ascending
      by_cases less : compare (key y) last = .lt
      · simp [less, ih tail]
      · have none_ : ∀ x ∈ y :: rest, ¬ (compare (key x) last == .lt) = true := by
          intro x member lower
          rcases List.mem_cons.1 member with rfl | inRest
          · exact less (eq_of_beq lower)
          · exact less (Std.TransCmp.lt_trans (below x inRest) (eq_of_beq lower))
        rw [List.filter_eq_nil_iff.2 none_]
        exact List.takeWhile_cons_of_neg (none_ y List.mem_cons_self)

/-- Going along an ascending list finds all elements between two keys, and no others. -/
theorem range_eq_filter {key : α → κ} {l : List α} (ascending : Ascending key l) (first last : κ) :
    range key first last l =
      l.filter fun x => compare (key x) first != .lt && compare (key x) last == .lt := by
  induction l with
  | nil => rfl
  | cons y rest ih =>
      obtain ⟨below, tail⟩ := List.pairwise_cons.1 ascending
      by_cases less : compare (key y) first = .lt
      · have dropped : range key first last (y :: rest) = range key first last rest := by
          simp [range, less]
        rw [dropped, ih tail, List.filter_cons_of_neg (by simp [less])]
      · have kept : range key first last (y :: rest) =
            (y :: rest).takeWhile fun x => compare (key x) last == .lt := by
          simp [range, less]
        rw [kept, takeWhile_eq_filter ascending]
        refine List.filter_congr fun x member => ?_
        have reached : compare (key x) first ≠ .lt := by
          rcases List.mem_cons.1 member with rfl | inRest
          · exact less
          · exact fun lower => less (Std.TransCmp.lt_trans (below x inRest) lower)
        simp [reached]

/-- Ascending lists with the same look-ups are the same list. -/
theorem eq_of_find? {key : α → κ} {l l' : List α} (ascending : Ascending key l)
    (ascending' : Ascending key l') (same : ∀ k, find? key k l = find? key k l') : l = l' := by
  induction l generalizing l' with
  | nil =>
      cases l' with
      | nil => rfl
      | cons y rest => simpa [find?] using same (key y)
  | cons x rest ih =>
      obtain ⟨below, tail⟩ := List.pairwise_cons.1 ascending
      cases l' with
      | nil => simpa [find?] using same (key x)
      | cons y rest' =>
          obtain ⟨below', tail'⟩ := List.pairwise_cons.1 ascending'
          -- Each head is found in the other list, so neither comes before the other.
          have first : find? key (key x) (y :: rest') = some x := by
            rw [← same]
            simp [find?]
          have first' : find? key (key y) (x :: rest) = some y := by
            rw [same]
            simp [find?]
          have heads : x = y := by
            rcases List.mem_cons.1 (mem_of_find? first).1 with eq | inRest'
            · exact eq
            · rcases List.mem_cons.1 (mem_of_find? first').1 with eq | inRest
              · exact eq.symm
              · have less := below y inRest
                rw [Std.OrientedCmp.gt_of_lt (below' x inRest')] at less
                cases less
          subst heads
          refine congrArg (x :: ·) (ih tail tail' fun k => ?_)
          by_cases hit : compare k (key x) = .eq
          · rw [find?_eq_none_of_lt fun z member => Std.TransCmp.lt_of_eq_of_lt hit (below z member),
              find?_eq_none_of_lt fun z member => Std.TransCmp.lt_of_eq_of_lt hit (below' z member)]
          · simpa [find?, hit] using same k

end PropertyGraph.Sorted
