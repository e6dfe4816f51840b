/-
# Proofs.SortedLists -- lists that are put in order

`Sorted.ofList` puts the elements of a list in order and keeps of those with one key the
last.  It goes through parts that are in order already (`ofList_append`) and through
other forms of the elements (`ofList_map`), and no key is lost (`exists_key_ofList`): an
element stays exactly when no later one has its key (`mem_ofList_iff`).  The result is known
from its elements where these have keys of their own (`ofList_eq_of_mem`), and nothing is lost
exactly then (`ofList_perm_iff`).
-/
import Mathlib.Data.List.Induction
import PropertyGraph.Sorted

namespace PropertyGraph.Sorted

set_option autoImplicit false

variable {α β κ : Type} [Ord κ] {key : α → κ}

theorem mem_insert_self (x : α) (l : List α) : x ∈ insert key x l := by
  induction l with
  | nil => exact List.mem_cons_self
  | cons y rest ih =>
      simp only [insert]
      split
      · exact List.mem_cons_self
      · exact List.mem_cons_self
      · exact List.mem_cons_of_mem _ ih

theorem mem_of_mem_foldl_insert {l acc : List α} {x : α}
    (member : x ∈ l.foldl (fun acc y => insert key y acc) acc) : x ∈ acc ∨ x ∈ l := by
  induction l generalizing acc with
  | nil => exact .inl member
  | cons y rest ih =>
      rcases ih member with inserted | later
      · rcases mem_insert inserted with rfl | old
        · exact .inr List.mem_cons_self
        · exact .inl old
      · exact .inr (List.mem_cons_of_mem _ later)

theorem mem_of_mem_ofList {l : List α} {x : α} (member : x ∈ ofList key l) : x ∈ l :=
  (mem_of_mem_foldl_insert member).resolve_left List.not_mem_nil

/-- The order of elements is the order of what they are made of. -/
theorem insert_map (f : β → α) (x : β) (l : List β) :
    insert key (f x) (l.map f) = (insert (fun y => key (f y)) x l).map f := by
  induction l with
  | nil => rfl
  | cons y rest ih =>
      simp only [insert, List.map_cons]
      split <;> simp [ih]

theorem ofList_map (f : β → α) (l : List β) :
    ofList key (l.map f) = (ofList (fun y => key (f y)) l).map f := by
  suffices ∀ acc : List β, (l.map f).foldl (fun acc x => insert key x acc) (acc.map f) =
      (l.foldl (fun acc x => insert (fun y => key (f y)) x acc) acc).map f from this []
  induction l with
  | nil => exact fun acc => rfl
  | cons x rest ih =>
      intro acc
      rw [List.map_cons, List.foldl_cons, insert_map]
      exact ih _

/-- An element that comes behind some others goes behind them. -/
theorem insert_append {x : α} {front : List α}
    (behind : ∀ y ∈ front, compare (key x) (key y) = .gt) (l : List α) :
    insert key x (front ++ l) = front ++ insert key x l := by
  induction front with
  | nil => rfl
  | cons y rest ih =>
      have here := behind y List.mem_cons_self
      rw [List.cons_append, insert]
      simp only [here]
      rw [ih fun z member => behind z (List.mem_cons_of_mem _ member)]
      rfl

theorem ofList_append {front l : List α}
    (behind : ∀ x ∈ l, ∀ y ∈ front, compare (key x) (key y) = .gt) :
    ofList key (front ++ l) = ofList key front ++ ofList key l := by
  suffices ∀ acc, l.foldl (fun acc x => insert key x acc) (ofList key front ++ acc) =
      ofList key front ++ l.foldl (fun acc x => insert key x acc) acc by
    have whole := this []
    rw [List.append_nil] at whole
    rw [ofList, List.foldl_append]
    exact whole
  induction l with
  | nil => exact fun acc => rfl
  | cons x rest ih =>
      intro acc
      have first : ∀ y ∈ ofList key front, compare (key x) (key y) = .gt :=
        fun y member => behind x List.mem_cons_self y (mem_of_mem_ofList member)
      rw [List.foldl_cons, insert_append first]
      exact ih (fun z member => behind z (List.mem_cons_of_mem _ member)) _

variable [Std.TransOrd κ] [Std.LawfulEqOrd κ]

omit [Std.TransOrd κ] in
theorem exists_key_insert {y : α} {l : List α} (x : α) (member : y ∈ l) :
    ∃ z ∈ insert key x l, key z = key y := by
  induction l with
  | nil => cases member
  | cons w rest ih =>
      simp only [insert]
      split
      · exact ⟨y, List.mem_cons_of_mem _ member, rfl⟩
      · rename_i same
        rcases List.mem_cons.1 member with rfl | inRest
        · have keys : key x = key y := Std.LawfulEqOrd.eq_of_compare same
          exact ⟨x, List.mem_cons_self, keys⟩
        · exact ⟨y, List.mem_cons_of_mem _ inRest, rfl⟩
      · rcases List.mem_cons.1 member with rfl | inRest
        · exact ⟨y, List.mem_cons_self, rfl⟩
        · obtain ⟨z, there, same⟩ := ih inRest
          exact ⟨z, List.mem_cons_of_mem _ there, same⟩

omit [Std.TransOrd κ] in
/-- No key is lost. -/
theorem exists_key_ofList {l : List α} {x : α} (member : x ∈ l) :
    ∃ y ∈ ofList key l, key y = key x := by
  suffices ∀ acc, ((∃ y ∈ acc, key y = key x) ∨ x ∈ l) →
      ∃ y ∈ l.foldl (fun acc y => insert key y acc) acc, key y = key x from this [] (.inr member)
  clear member
  induction l with
  | nil =>
      rintro acc (there | never)
      · exact there
      · cases never
  | cons w rest ih =>
      rintro acc (⟨y, there, same⟩ | listed)
      · obtain ⟨z, kept, same'⟩ : ∃ z ∈ insert key w acc, key z = key y := exists_key_insert w there
        exact ih _ (.inl ⟨z, kept, same'.trans same⟩)
      · rcases List.mem_cons.1 listed with rfl | inRest
        · exact ih _ (.inl ⟨x, mem_insert_self x acc, rfl⟩)
        · exact ih _ (.inr inRest)

omit [Std.TransOrd κ] in
/-- An element is not replaced by another of its key if there is none. -/
theorem mem_ofList_of_alone {l : List α} {x : α} (member : x ∈ l)
    (alone : ∀ y ∈ l, key y = key x → y = x) : x ∈ ofList key l := by
  obtain ⟨y, kept, same⟩ : ∃ y ∈ ofList key l, key y = key x := exists_key_ofList member
  exact alone y (mem_of_mem_ofList kept) same ▸ kept

omit [Std.TransOrd κ] in
theorem Ascending.eq_of_key {l : List α} (ascending : Ascending key l) {x y : α} (first : x ∈ l)
    (second : y ∈ l) (same : key x = key y) : x = y := by
  induction l with
  | nil => cases first
  | cons z rest ih =>
      obtain ⟨below, tail⟩ := List.pairwise_cons.1 ascending
      have apart : ∀ w ∈ rest, key z ≠ key w := by
        intro w member hit
        have less := below w member
        rw [hit, Std.ReflOrd.compare_self] at less
        cases less
      rcases List.mem_cons.1 first with rfl | inRest
      · rcases List.mem_cons.1 second with rfl | inRest'
        · rfl
        · exact absurd same (apart y inRest')
      · rcases List.mem_cons.1 second with rfl | inRest'
        · exact absurd same.symm (apart x inRest)
        · exact ih tail inRest inRest'

theorem Ascending.find?_eq_some_iff {l : List α} (ascending : Ascending key l) {k : κ} {x : α} :
    find? key k l = some x ↔ x ∈ l ∧ key x = k := by
  constructor
  · intro found
    obtain ⟨member, same⟩ := mem_of_find? found
    exact ⟨member, (Std.LawfulEqOrd.eq_of_compare same).symm⟩
  · rintro ⟨member, rfl⟩
    exact find?_of_mem ascending member Std.ReflOrd.compare_self

theorem Ascending.mem_iff {l : List α} (ascending : Ascending key l) {x : α} :
    x ∈ l ↔ find? key (key x) l = some x := by
  rw [ascending.find?_eq_some_iff]
  exact (and_iff_left rfl).symm

/-- Ascending lists of the same elements are the same list. -/
theorem Ascending.eq_of_mem_iff {l l' : List α} (ascending : Ascending key l)
    (ascending' : Ascending key l') (same : ∀ x, x ∈ l ↔ x ∈ l') : l = l' := by
  refine eq_of_find? ascending ascending' fun k => Option.ext fun x => ?_
  rw [ascending.find?_eq_some_iff, ascending'.find?_eq_some_iff, same]

theorem mem_insert_iff {l : List α} (ascending : Ascending key l) {x y : α} :
    x ∈ insert key y l ↔ x = y ∨ x ∈ l ∧ key x ≠ key y := by
  rw [(ascending.insert y).mem_iff, find?_insert, ascending.mem_iff]
  by_cases same : key x = key y
  · simp [same, Std.ReflOrd.compare_self, eq_comm]
  · have apart : compare (key x) (key y) ≠ .eq := fun equal =>
      same (Std.LawfulEqOrd.eq_of_compare equal)
    have other : x ≠ y := fun equal => same (congrArg key equal)
    simp [apart, same, other]

/-- Of the elements of one key the last is kept. -/
theorem mem_ofList_iff {l : List α} {x : α} :
    x ∈ ofList key l ↔ ∃ front back, l = front ++ x :: back ∧ ∀ y ∈ back, key y ≠ key x := by
  induction l using List.reverseRecOn with
  | nil => simp [ofList]
  | append_singleton l z ih =>
      have last : ofList key (l ++ [z]) = insert key z (ofList key l) := by
        rw [ofList, List.foldl_append]
        rfl
      rw [last, mem_insert_iff (ascending_ofList key l), ih]
      constructor
      · rintro (rfl | ⟨⟨front, back, rfl, later⟩, apart⟩)
        · exact ⟨l, [], rfl, fun _ never => by cases never⟩
        · refine ⟨front, back ++ [z], by rw [List.append_assoc, List.cons_append], ?_⟩
          intro y member
          rcases List.mem_append.1 member with old | new
          · exact later y old
          · exact List.mem_singleton.1 new ▸ apart.symm
      · rintro ⟨front, back, split, later⟩
        induction back using List.reverseRecOn with
        | nil =>
            obtain ⟨-, same⟩ := List.append_inj' split rfl
            exact .inl (List.cons.inj same).1.symm
        | append_singleton back y =>
            rw [← List.cons_append, ← List.append_assoc] at split
            obtain ⟨rfl, same⟩ := List.append_inj' split rfl
            obtain rfl := (List.cons.inj same).1
            refine .inr ⟨⟨front, back, rfl, fun y member => ?_⟩, ?_⟩
            · exact later y (List.mem_append_left _ member)
            · exact (later z (List.mem_append_right _ List.mem_cons_self)).symm

/-- A list of the elements of an ascending one becomes that one. -/
theorem ofList_eq_of_mem {l l' : List α} (ascending : Ascending key l')
    (same : ∀ x, x ∈ l ↔ x ∈ l') : ofList key l = l' := by
  refine (ascending_ofList key l).eq_of_mem_iff ascending fun x => ?_
  constructor
  · intro kept
    exact (same x).1 (mem_of_mem_ofList kept)
  · intro member
    refine mem_ofList_of_alone ((same x).2 member) fun y there equal => ?_
    exact ascending.eq_of_key ((same y).1 there) member equal

omit [Std.TransOrd κ] in
theorem insert_perm {x : α} {l : List α} (absent : ∀ y ∈ l, key y ≠ key x) :
    (insert key x l).Perm (x :: l) := by
  induction l with
  | nil => exact .refl _
  | cons y rest ih =>
      simp only [insert]
      split
      · exact .refl _
      · rename_i same
        exact absurd (Std.LawfulEqOrd.eq_of_compare same).symm (absent y List.mem_cons_self)
      · exact ((ih fun z member => absent z (List.mem_cons_of_mem _ member)).cons y).trans
          (.swap x y rest)

/-- Putting a list in order loses nothing exactly when its elements have keys of their
own. -/
theorem ofList_perm_iff (l : List α) : (ofList key l).Perm l ↔ (l.map key).Nodup := by
  constructor
  · intro perm
    refine (perm.map key).nodup_iff.1 ?_
    refine List.pairwise_map.2 ((ascending_ofList key l).imp ?_)
    intro x y less same
    rw [same, Std.ReflOrd.compare_self] at less
    cases less
  · intro nodup
    suffices ∀ acc, (∀ x ∈ l, ∀ y ∈ acc, key y ≠ key x) →
        (l.foldl (fun acc x => insert key x acc) acc).Perm (l ++ acc) by
      have whole := this [] fun _ _ _ never => (by cases never)
      rwa [List.append_nil] at whole
    induction l with
    | nil => exact fun acc _ => .refl _
    | cons x rest ih =>
        obtain ⟨fresh, nodup⟩ := List.nodup_cons.1 nodup
        intro acc apart
        have first : (insert key x acc).Perm (x :: acc) := insert_perm (apart x List.mem_cons_self)
        refine (ih nodup _ fun y later z member => ?_).trans
          ((first.append_left rest).trans List.perm_middle)
        rcases mem_insert member with rfl | old
        · exact fun same => fresh (same ▸ List.mem_map_of_mem later)
        · exact apart y (List.mem_cons_of_mem _ later) z old

end PropertyGraph.Sorted
