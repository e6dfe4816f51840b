/-
# Proofs.SchemaForms -- schema values survive their JSON form

Each form that a schema row holds is one that is written from scratch (`Json.Plain`), and
is read as the value that it was made of.  So the values in rows are read as they were
written (`Json.faithful_codec`), which is what rows rely on (`RowCodec.Faithful`).
-/
import PropertyGraph.Proofs.JsonForms
import PropertyGraph.Schema.RowJson

namespace PropertyGraph

set_option autoImplicit false

namespace Json

theorem plain_ofText (s : String) : Plain (ofText s) := .text s

theorem plain_ofNamed {α : Type} [Named α] (a : α) : Plain (ofNamed a) := .text _

theorem plain_ofWord (v : UInt64) : Plain (ofWord v) := by
  have bound := v.toNat_lt
  exact .int (by omega) (by omega)

theorem plain_record {fields : List (String × Json)} (all : ∀ f ∈ fields, Plain f.2) :
    Plain (record fields) := by
  refine .object ?_ ?_
  · intro f member
    obtain ⟨g, -, rfl⟩ := List.mem_map.mp member
    exact ⟨g.1, rfl⟩
  · intro f member
    obtain ⟨g, there, rfl⟩ := List.mem_map.mp member
    exact all g there

theorem plain_pair {a b : String} {j k : Json} (first : Plain j) (second : Plain k) :
    Plain (record [(a, j), (b, k)]) := by
  refine plain_record ?_
  simp only [List.forall_mem_cons]
  exact ⟨first, second, nofun⟩

theorem plain_listOf {α : Type} {form : α → Json} (each : ∀ a, Plain (form a)) (l : List α) :
    Plain (.list (l.map form)) := by
  refine .list ?_
  intro j member
  obtain ⟨a, -, rfl⟩ := List.mem_map.mp member
  exact each a

theorem named?_ofNamed {α : Type} [Named α] (a : α) : (ofNamed a).named? = some a := by
  show ((ofText (Named.name a)).text?).bind Named.ofName? = _
  rw [text?_ofText, Option.bind_some, Named.ofName?_name]

/-- A record of two fields is read by their names. -/
theorem record?_pair {a b : String} (apart : a ≠ b) (j k : Json) :
    (record [(a, j), (b, k)]).record? [a, b] = some [j, k] := by
  simp [record, record?, fields?, read?_escape, only?, apart, apart.symm]

theorem mapM_map_of_read {α : Type} {form : α → Json} {read : Json → Option α}
    (each : ∀ a, read (form a) = some a) (l : List α) : (l.map form).mapM read = some l := by
  induction l with
  | nil => rfl
  | cons a rest ih => simp [each, ih]

/-- A tagged value is read by its tag; the tag stands first. -/
theorem untag?_tag (kind : String) (j : Json) : (tag kind j).untag? = some (kind, j) := by
  rw [untag?, tagged?, tag, record?_pair (by decide)]
  have behind : leads "value" "kind" (record [("kind", ofText kind), ("value", j)]) = false := by
    simp [leads, record, fields?, read?_escape]
  simp only [Option.bind_eq_bind, Option.bind_some, behind]
  show ((ofText kind).text?).bind _ = _
  rw [text?_ofText]
  rfl

end Json

open Json

theorem DefinitionValue.plain_content (v : DefinitionValue) : Plain v.content := by
  cases v with
  | bool v => exact .bool v
  | ids v => exact plain_listOf plain_ofWord v
  | name v => exact plain_ofText v
  | seconds v => exact plain_ofWord v
  | _ => exact plain_ofNamed _

theorem DefinitionValue.plain_toJson (v : DefinitionValue) : Plain v.toJson :=
  plain_pair (plain_ofText _) v.plain_content

theorem DefinitionValue.ofContent?_content (v : DefinitionValue) :
    ofContent? v.kind v.content = some v := by
  cases v with
  | ids v =>
      simp [kind, content, ofContent?, list?, mapM_map_of_read word?_ofWord]
  | _ =>
      simp [kind, content, ofContent?, bool?, named?_ofNamed, text?_ofText, word?_ofWord]

theorem DefinitionValue.ofJson?_toJson (v : DefinitionValue) : ofJson? v.toJson = some v := by
  rw [ofJson?, toJson, untag?_tag]
  exact v.ofContent?_content

theorem ParameterValue.plain_content (v : ParameterValue) : Plain v.content := by
  cases v with
  | int v =>
      have low := v.le_toInt
      have high := v.toInt_lt
      exact .int (by omega) (by omega)
  | text v => exact plain_ofText v
  | _ => exact plain_ofNamed _

theorem ParameterValue.plain_toJson (v : ParameterValue) : Plain v.toJson :=
  plain_pair (plain_ofText _) v.plain_content

theorem ParameterValue.ofContent?_content (v : ParameterValue) :
    ofContent? v.kind v.content = some v := by
  cases v <;>
    simp [kind, content, ofContent?, named?_ofNamed, text?_ofText, long?_toInt]

theorem ParameterValue.ofJson?_toJson (v : ParameterValue) : ofJson? v.toJson = some v := by
  rw [ofJson?, toJson, untag?_tag]
  exact v.ofContent?_content

theorem Parameter.plain_listToJson (l : List Parameter) : Plain (listToJson l) :=
  plain_listOf (fun p => plain_pair (plain_ofText _) p.value.plain_toJson) l

theorem Parameter.ofJson?_toJson (p : Parameter) : ofJson? p.toJson = some p := by
  rw [ofJson?, toJson, record?_pair (by decide)]
  simp [text?_ofText, ParameterValue.ofJson?_toJson]

theorem Parameter.listOfJson?_listToJson (l : List Parameter) :
    listOfJson? (listToJson l) = some l :=
  mapM_map_of_read ofJson?_toJson l

theorem SchemaRow.plain_headerToJson (h : String × VertexKind) : Plain (headerToJson h) :=
  plain_pair (plain_ofText _) (plain_ofNamed _)

theorem SchemaRow.headerOfJson?_headerToJson (h : String × VertexKind) :
    headerOfJson? (headerToJson h) = some h := by
  rw [headerOfJson?, headerToJson, record?_pair (by decide)]
  simp [text?_ofText, named?_ofNamed]

/-- Values with plain forms are read as they were written, if they are read from their forms. -/
theorem Json.faithful_codec {α : Type} {form : α → Json} {read : Json → Option α}
    (plain : ∀ a, Plain (form a)) (reads : ∀ a, read (form a) = some a) :
    (codec form read).Faithful := by
  intro a
  show (parse (form a).write).bind read = some a
  rw [parse_write (plain a), Option.bind_some, reads a]

instance : RowCodec.Faithful where
  header := faithful_codec SchemaRow.plain_headerToJson SchemaRow.headerOfJson?_headerToJson
  category := faithful_codec plain_ofNamed named?_ofNamed
  definition := faithful_codec DefinitionValue.plain_toJson DefinitionValue.ofJson?_toJson
  modifier := faithful_codec Parameter.plain_listToJson Parameter.listOfJson?_listToJson

end PropertyGraph
