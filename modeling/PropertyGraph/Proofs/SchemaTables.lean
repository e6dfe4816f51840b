/-
# Proofs.SchemaTables -- the vertices of a registry

A registry is built by defining vertices and connecting them (`Registry.Built`).  Its
vertices then stand in the order of their numbers, each under a name of its own
(`SchemaTable.Orderly`), and each can be held by a row (`SchemaTable.Tidy`): one change of any
kind keeps them so.

Vertices that stand in the order of their numbers are put one after the other into an empty
registry and make up the same list there, unless two have one name
(`Registry.foldlM_insert_eq_ok_iff`); tidy vertices are not refused (`Registry.foldlM_insert`).
-/
import PropertyGraph.Proofs.SchemaRows
import PropertyGraph.Proofs.StaleTypes

namespace PropertyGraph

set_option autoImplicit false

/-- Schema vertices in the order of their numbers, each under a name of its own. -/
structure SchemaTable.Orderly (vertices : List SchemaVertex) : Prop where
  ascending : Sorted.Ascending SchemaVertex.id vertices
  named : ∀ v ∈ vertices, ∀ w ∈ vertices, v.name = w.name → v = w

/-- Schema vertices as a registry has them. -/
structure SchemaTable.Tidy (vertices : List SchemaVertex) : Prop where
  ascending : Sorted.Ascending SchemaVertex.id vertices
  named : ∀ v ∈ vertices, ∀ w ∈ vertices, v.name = w.name → v = w
  sound : ∀ v ∈ vertices, v.Sound

theorem SchemaTable.Tidy.orderly {vertices : List SchemaVertex}
    (tidy : SchemaTable.Tidy vertices) : SchemaTable.Orderly vertices :=
  ⟨tidy.ascending, tidy.named⟩

namespace Registry

open SchemaTable (Orderly Tidy)

/-- Registries that some changes lead to, none of them refused: vertices are defined
without edges and with recorded values, and connected. -/
inductive Built : Registry → Prop
  | empty : Built .empty
  | define {r r' : Registry} {v : SchemaVertex} (before : Built r) (bare : v.edges = [])
      (recorded : v.definition.Recorded) (done : r.define v = .ok r') : Built r'
  | connect {r r' : Registry} {first last : SchemaId} {d : EdgeDescription} (before : Built r)
      (done : r.connect first last d = .ok r') : Built r'

theorem named?_spec {r : Registry} {name : String} {v : SchemaVertex}
    (found : r.named? name = some v) : v ∈ r.vertices ∧ v.name = name :=
  ⟨List.mem_of_find?_eq_some found, by simpa using List.find?_some found⟩

/-- A name that is taken is taken by the vertex that is replaced. -/
theorem id_of_insert {r r' : Registry} {v w : SchemaVertex} (orderly : Orderly r.vertices)
    (done : r.insert v = .ok r') (there : w ∈ r.vertices) (same : w.name = v.name) :
    w.id = v.id := by
  cases found : r.named? v.name with
  | none =>
      have apart := List.find?_eq_none.1 found w there
      simp [same] at apart
  | some owner =>
      obtain ⟨inside, name⟩ := named?_spec found
      obtain rfl := orderly.named w there owner inside (same.trans name.symm)
      simp only [insert, idOf, found, Option.map_some] at done
      split at done
      · assumption
      · cases done

/-- A vertex whose name is free is put in its place. -/
theorem insert_of_free {r : Registry} {v : SchemaVertex}
    (free : ∀ w ∈ r.vertices, w.name ≠ v.name) :
    r.insert v = .ok { r with vertices := Sorted.insert SchemaVertex.id v r.vertices } := by
  have unknown : r.named? v.name = none := by
    refine List.find?_eq_none.2 fun w there => ?_
    simpa using free w there
  simp only [insert, idOf, unknown, Option.map_none]

theorem orderly_insert {r r' : Registry} {v : SchemaVertex} (orderly : Orderly r.vertices)
    (done : r.insert v = .ok r') : Orderly r'.vertices := by
  have own : ∀ w ∈ r.vertices, w.name = v.name → w.id = v.id :=
    fun w there same => id_of_insert orderly done there same
  obtain rfl := insert_eq done
  have ascending := orderly.ascending.insert v
  have itself : v ∈ Sorted.insert SchemaVertex.id v r.vertices := Sorted.mem_insert_self v _
  refine ⟨ascending, fun u member w member' same => ?_⟩
  rcases Sorted.mem_insert member with rfl | old <;>
    rcases Sorted.mem_insert member' with rfl | old'
  · rfl
  · exact (ascending.eq_of_key member' itself (own w old' same.symm)).symm
  · exact ascending.eq_of_key member itself (own u old same)
  · exact orderly.named u old w old' same

theorem orderly_define {r r' : Registry} {v : SchemaVertex} (orderly : Orderly r.vertices)
    (done : r.define v = .ok r') : Orderly r'.vertices := by
  rw [define, Outcome.bind_eq_ok_iff] at done
  obtain ⟨inserted, placed, same⟩ := done
  obtain rfl := Except.ok.inj same
  have before : Orderly inserted.vertices := orderly_insert orderly placed
  exact before

theorem tidy_define {r r' : Registry} {v : SchemaVertex} (tidy : Tidy r.vertices)
    (sound : v.Sound) (done : r.define v = .ok r') : Tidy r'.vertices := by
  obtain ⟨ascending, named⟩ := orderly_define tidy.orderly done
  refine ⟨ascending, named, fun w member => ?_⟩
  rw [(define_spec done).1] at member
  rcases Sorted.mem_insert member with rfl | old
  · exact sound
  · exact tidy.sound w old

theorem orderly_addEdge {r : Registry} (orderly : Orderly r.vertices) (id : SchemaId)
    (e : SchemaEdge) : Orderly (r.addEdge id e).vertices := by
  let f (v : SchemaVertex) : SchemaVertex := if v.id = id then v.addEdge e else v
  have number (v : SchemaVertex) : (f v).id = v.id := by
    simp only [f]
    split <;> rfl
  have name (v : SchemaVertex) : (f v).name = v.name := by
    simp only [f]
    split <;> rfl
  refine ⟨List.pairwise_map.2 (orderly.ascending.imp fun less => ?_), ?_⟩
  · rwa [number, number]
  · rintro _ member _ member' same
    obtain ⟨v, there, rfl⟩ := List.mem_map.1 member
    obtain ⟨w, there', rfl⟩ := List.mem_map.1 member'
    have names : v.name = w.name := (name v).symm.trans (same.trans (name w))
    rw [orderly.named v there w there' names]

theorem tidy_addEdge {r : Registry} (tidy : Tidy r.vertices) (id : SchemaId) {e : SchemaEdge}
    (proper : e.direction.isProper = true) : Tidy (r.addEdge id e).vertices := by
  obtain ⟨ascending, named⟩ := orderly_addEdge tidy.orderly id e
  refine ⟨ascending, named, ?_⟩
  rintro _ member
  obtain ⟨v, there, rfl⟩ := List.mem_map.1 member
  have before := tidy.sound v there
  split
  · refine ⟨before.definition, fun e' member => ?_⟩
    rcases List.mem_append.1 member with old | new
    · exact before.proper e' old
    · obtain rfl := List.mem_singleton.1 new
      exact proper
  · exact before

theorem orderly_connect {r r' : Registry} {first last : SchemaId} {d : EdgeDescription}
    (orderly : Orderly r.vertices) (done : r.connect first last d = .ok r') :
    Orderly r'.vertices := by
  unfold connect at done
  split at done
  · cases done
  · obtain rfl := Except.ok.inj done
    exact orderly_addEdge (orderly_addEdge orderly first _) last _

theorem tidy_connect {r r' : Registry} {first last : SchemaId} {d : EdgeDescription}
    (tidy : Tidy r.vertices) (done : r.connect first last d = .ok r') : Tidy r'.vertices := by
  unfold connect at done
  split at done
  · cases done
  · obtain rfl := Except.ok.inj done
    exact tidy_addEdge (tidy_addEdge tidy first rfl) last rfl

/-- Whatever is defined and connected, the vertices are tidy. -/
theorem Built.tidy {r : Registry} (built : r.Built) : Tidy r.vertices := by
  induction built with
  | empty => exact ⟨.nil, fun _ never => (by cases never), fun _ never => (by cases never)⟩
  | @define r r' v _ bare recorded done ih =>
      refine tidy_define ih ⟨recorded.sound, ?_⟩ done
      rw [bare]
      exact fun _ never => (by cases never)
  | connect _ done ih => exact tidy_connect ih done

/-- A vertex whose name is taken by another one is refused. -/
theorem insert_of_taken {r : Registry} {v : SchemaVertex}
    (apart : ∀ w ∈ r.vertices, w.name = v.name → w.id ≠ v.id)
    (taken : ∃ w ∈ r.vertices, w.name = v.name) : ∃ fault, r.insert v = .error fault := by
  cases found : r.named? v.name with
  | none =>
      obtain ⟨w, there, same⟩ := taken
      have other := List.find?_eq_none.1 found w there
      simp [same] at other
  | some owner =>
      obtain ⟨inside, name⟩ := named?_spec found
      simp only [insert, idOf, found, Option.map_some, if_neg (apart owner inside name)]
      exact ⟨_, rfl⟩

/-- Vertices that stand in the order of their numbers are put into an empty registry in
that order, if no two have one name. -/
theorem foldlM_insert_eq_ok_iff {vertices : List SchemaVertex}
    (ascending : Sorted.Ascending SchemaVertex.id vertices) {r : Registry} :
    vertices.foldlM insert empty = .ok r ↔
      (vertices.map SchemaVertex.name).Nodup ∧ r = { empty with vertices } := by
  suffices ∀ front rest, front ++ rest = vertices → (front.map SchemaVertex.name).Nodup →
      (rest.foldlM insert { empty with vertices := front } = .ok r ↔
        (vertices.map SchemaVertex.name).Nodup ∧ r = { empty with vertices }) from
    this [] vertices rfl .nil
  intro front rest
  induction rest generalizing front with
  | nil =>
      rintro rfl nodup
      rw [List.append_nil] at *
      exact ⟨fun same => ⟨nodup, (Except.ok.inj same).symm⟩, fun same => congrArg Except.ok same.2.symm⟩
  | cons v rest ih =>
      intro whole nodup
      have next : front ++ [v] ++ rest = vertices := by rw [← whole, List.append_assoc]; rfl
      have before : ∀ w ∈ front, compare w.id v.id = .lt := by
        have pairs := ascending
        rw [← whole] at pairs
        exact fun w member => (List.pairwise_append.1 pairs).2.2 w member v List.mem_cons_self
      by_cases free : ∀ w ∈ front, w.name ≠ v.name
      · have placed : Sorted.insert SchemaVertex.id v front = front ++ [v] := by
          have behind := Sorted.insert_append (x := v)
            (fun w member => Std.OrientedCmp.gt_of_lt (before w member)) []
          rwa [List.append_nil] at behind
        rw [List.foldlM_cons, insert_of_free free, Outcome.ok_bind]
        simp only [placed]
        refine ih (front ++ [v]) next ?_
        rw [List.map_append]
        refine List.nodup_append.2 ⟨nodup, by simp, ?_⟩
        rintro _ member _ last same
        obtain ⟨w, there, rfl⟩ := List.mem_map.1 member
        exact free w there (same.trans (List.mem_singleton.1 last))
      · simp only [not_forall, not_not] at free
        obtain ⟨w, there, same⟩ := free
        have apart : ∀ w ∈ front, w.name = v.name → w.id ≠ v.id := by
          rintro w there - here
          have less := before w there
          rw [here, Std.ReflOrd.compare_self] at less
          cases less
        obtain ⟨fault, refused⟩ := insert_of_taken (r := { empty with vertices := front }) apart
          ⟨w, there, same⟩
        rw [List.foldlM_cons, refused]
        constructor
        · intro never
          cases never
        · rintro ⟨distinct, -⟩
          rw [← whole, List.map_append] at distinct
          exact absurd same ((List.nodup_append.1 distinct).2.2 _ (List.mem_map_of_mem there) _
            List.mem_cons_self)

/-- Tidy vertices are put into an empty registry in their order. -/
theorem foldlM_insert {vertices : List SchemaVertex} (tidy : Tidy vertices) :
    vertices.foldlM insert empty = .ok { empty with vertices := vertices } := by
  refine (foldlM_insert_eq_ok_iff tidy.ascending).2 ⟨List.pairwise_map.2 ?_, rfl⟩
  refine tidy.ascending.imp_of_mem fun {v w} there there' less same => ?_
  rw [tidy.named v there w there' same, Std.ReflOrd.compare_self] at less
  cases less

end Registry

end PropertyGraph
