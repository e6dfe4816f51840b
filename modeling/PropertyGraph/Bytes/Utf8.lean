/-
# Bytes.Utf8 -- text as bytes

`Bytes.ofText` is the UTF-8 form of a text and `Bytes.text?` reads it back; the
two are inverse (`Bytes.text?_eq_some_iff`), so what is no text is refused and
no text has two forms.
-/
import PropertyGraph.Bytes.Basic

namespace PropertyGraph.Bytes

set_option autoImplicit false

/-- The UTF-8 bytes of a text. -/
def ofText (s : String) : Bytes := s.toUTF8.data.toList

/-- The text that the bytes are the UTF-8 form of, if there is one. -/
def text? (b : Bytes) : Option String := String.fromUTF8? ⟨b.toArray⟩

theorem text?_ofText (s : String) : text? (ofText s) = some s := by
  have same : (⟨(ofText s).toArray⟩ : ByteArray) = s.toByteArray := by simp [ofText]
  simp only [text?, String.fromUTF8?, same, s.isValidUTF8, dif_pos]
  rfl

theorem eq_ofText_of_text? {b : Bytes} {s : String} (read : text? b = some s) :
    b = ofText s := by
  simp only [text?, String.fromUTF8?] at read
  split at read
  · obtain rfl := Option.some.inj read
    simp [ofText, String.fromUTF8]
  · simp at read

theorem text?_eq_some_iff {b : Bytes} {s : String} : text? b = some s ↔ b = ofText s :=
  ⟨eq_ofText_of_text?, fun same => same ▸ text?_ofText s⟩

end PropertyGraph.Bytes
