/-
# Proofs.WrittenTexts -- a text is found exactly where one was written

Text is read from the front of a buffer that may go on behind it, so a reader has to find the
end mark between escaped zero bytes, and to refuse what nobody wrote.

* `Ordered.round` is one round of a reader that goes by position, and `Ordered.read` goes on
  from round to round.  Every byte it asks for is asked for through `Ordered.look`, which notes
  the position, whether the buffer has it or not.
* The content found up to a position is told by the bytes before the position
  (`Progress.Sound`).  A round keeps this (`Progress.Sound.round`), so that a whole reading
  says what the buffer is (`Reading.Tells`), whatever it comes to (`tells_read`).
* What a buffer is told to be decides what `Ordered.text?` answers (`text?_of_tells`).

`texts_are_read_exactly` has both directions: a text and a length are answered exactly if the
text was written there, and the three ways in which a buffer is refused are all.
-/
import PropertyGraph.Bytes.Ordered

namespace PropertyGraph

set_option autoImplicit false

namespace Ordered

/-! ## What is written and what is not -/

theorem escaped_concat_of_ne (content : Bytes) {b : UInt8} (other : b ≠ 0) :
    escaped (content ++ [b]) = escaped content ++ [b] := by
  simp [escaped, other]

theorem escaped_concat_zero (content : Bytes) :
    escaped (content ++ [0]) = escaped content ++ [0, 0xFF] := by
  simp [escaped]

/-- The bytes end before the end mark does. -/
def CutShort (src : Bytes) : Prop := ∃ content, src <+: escape content ∧ src ≠ escape content

/-- Behind written bytes there is a zero byte in front of another byte than `00` and `FF`. -/
def StrayZero (src : Bytes) : Prop :=
  ∃ content b rest, b ≠ 0 ∧ b ≠ 0xFF ∧ src = escaped content ++ 0 :: b :: rest

/-- The content in front of the end mark is not the UTF-8 form of a text. -/
def NoText (src : Bytes) : Prop :=
  ∃ content rest, Bytes.text? content = none ∧ src = escape content ++ rest

/-! ## Reading by position -/

/-- How far a reading has come: the next position, and the content before it. -/
structure Progress where
  place : Nat
  content : Bytes

/-- What a reading comes to. -/
inductive Reading where
  /-- There is an end mark, and the position is the one behind it. -/
  | ended (content : Bytes) (place : Nat)
  /-- There is no byte where one is needed. -/
  | cutShort
  /-- There is a zero byte in front of another byte than `00` and `FF`. -/
  | strayZero

/-- What a round leads to: further progress or the end of the reading. -/
inductive Turn where
  | further (p : Progress)
  | over (r : Reading)

/-- Asks for the byte at a position, and notes the position. -/
def look {α : Type} (src : Bytes) (place : Nat) (next : Option UInt8 → α × List Nat) :
    α × List Nat :=
  ((next src[place]?).1, place :: (next src[place]?).2)

/-- One round: a byte of the content, an escaped zero byte, or an end. -/
def round (src : Bytes) (p : Progress) : Turn × List Nat :=
  look src p.place fun
    | none => (.over .cutShort, [])
    | some b =>
        if b ≠ 0 then (.further ⟨p.place + 1, p.content ++ [b]⟩, [])
        else look src (p.place + 1) fun
          | none => (.over .cutShort, [])
          | some next =>
              if next = 0 then (.over (.ended p.content (p.place + 2)), [])
              else if next = 0xFF then (.further ⟨p.place + 2, p.content ++ [0]⟩, [])
              else (.over .strayZero, [])

/-- What one round can do, and the positions that it asks for. -/
inductive Happens (src : Bytes) (p : Progress) : Turn → List Nat → Prop where
  | noByte (absent : src[p.place]? = none) : Happens src p (.over .cutShort) [p.place]
  | byte {b : UInt8} (found : src[p.place]? = some b) (other : b ≠ 0) :
      Happens src p (.further ⟨p.place + 1, p.content ++ [b]⟩) [p.place]
  | noMark (found : src[p.place]? = some 0) (absent : src[p.place + 1]? = none) :
      Happens src p (.over .cutShort) [p.place, p.place + 1]
  | endMark (found : src[p.place]? = some 0) (next : src[p.place + 1]? = some 0) :
      Happens src p (.over (.ended p.content (p.place + 2))) [p.place, p.place + 1]
  | zero (found : src[p.place]? = some 0) (next : src[p.place + 1]? = some 0xFF) :
      Happens src p (.further ⟨p.place + 2, p.content ++ [0]⟩) [p.place, p.place + 1]
  | stray {b : UInt8} (found : src[p.place]? = some 0) (next : src[p.place + 1]? = some b)
      (noEnd : b ≠ 0) (noEscape : b ≠ 0xFF) :
      Happens src p (.over .strayZero) [p.place, p.place + 1]

theorem happens_round (src : Bytes) (p : Progress) :
    Happens src p (round src p).1 (round src p).2 := by
  cases found : src[p.place]? with
  | none =>
      simp only [round, look, found]
      exact .noByte found
  | some b =>
      by_cases zero : b = 0
      · subst zero
        cases next : src[p.place + 1]? with
        | none =>
            simp only [round, look, found, next, ne_eq, not_true_eq_false, if_false]
            exact .noMark found next
        | some c =>
            simp only [round, look, found, next, ne_eq, not_true_eq_false, if_false]
            by_cases noEnd : c = 0
            · subst noEnd
              exact .endMark found next
            · by_cases noEscape : c = 0xFF
              · subst noEscape
                exact .zero found next
              · simp only [noEnd, noEscape, if_false]
                exact .stray found next noEnd noEscape
      · simp only [round, look, found, ne_eq, zero, not_false_eq_true, if_true]
        exact .byte found zero

theorem Happens.place_lt {src : Bytes} {p next : Progress} {looks : List Nat}
    (happens : Happens src p (.further next) looks) :
    p.place < next.place ∧ next.place ≤ src.length := by
  cases happens with
  | byte found =>
      obtain ⟨inside, -⟩ := List.getElem?_eq_some_iff.mp found
      exact ⟨Nat.lt_succ_self _, inside⟩
  | zero _ mark =>
      obtain ⟨inside, -⟩ := List.getElem?_eq_some_iff.mp mark
      exact ⟨Nat.lt_add_of_pos_right Nat.two_pos, inside⟩

/-- Goes on from round to round, and collects the positions asked for. -/
def read (src : Bytes) (p : Progress) : Reading × List Nat :=
  match _ : round src p with
  | (.further next, looks) => ((read src next).1, looks ++ (read src next).2)
  | (.over r, looks) => (r, looks)
termination_by src.length - p.place
decreasing_by
  all_goals
    have happens := happens_round src p
    rw [‹round src p = _›] at happens
    have beyond := happens.place_lt
    omega

/-! ## What a reading tells -/

/-- The content found by a reading is told by the bytes before its position. -/
structure Progress.Sound (src : Bytes) (p : Progress) : Prop where
  within : p.place ≤ src.length
  before : src.take p.place = escaped p.content

/-- What a buffer is whose reading comes to this with so many looks. -/
def Reading.Tells (src : Bytes) (looks : Nat) : Reading → Prop
  | .ended content place =>
      looks = place ∧ place ≤ src.length ∧ src.take place = escape content
  | .cutShort =>
      looks ≤ src.length + 1 ∧ ∃ content, src = escaped content ∨ src = escaped content ++ [0]
  | .strayZero => looks ≤ src.length ∧ StrayZero src

/-- A round leads to sound progress right behind its looks, or it tells what the buffer is. -/
def Turn.Follows (src : Bytes) (looks : Nat) : Turn → Prop
  | .further next => next.Sound src ∧ looks = next.place
  | .over r => r.Tells src looks

theorem take_succ_of_getElem? {src : Bytes} {i : Nat} {b : UInt8} (found : src[i]? = some b) :
    src.take (i + 1) = src.take i ++ [b] := by
  rw [List.take_add_one, found]
  rfl

/-- A round asks for the positions in their order and keeps what the progress says. -/
theorem Progress.Sound.round {src : Bytes} {p : Progress} (sound : p.Sound src) :
    ∃ count, (round src p).2 = List.range' p.place count ∧
      (round src p).1.Follows src (p.place + count) := by
  have happens := happens_round src p
  generalize (Ordered.round src p).1 = turn at happens ⊢
  generalize (Ordered.round src p).2 = looks at happens ⊢
  have before := sound.before
  cases happens with
  | noByte absent =>
      have outside := List.getElem?_eq_none_iff.mp absent
      refine ⟨1, rfl, Nat.succ_le_succ sound.within, p.content, .inl ?_⟩
      rw [← before, List.take_of_length_le outside]
  | byte found other =>
      obtain ⟨inside, -⟩ := List.getElem?_eq_some_iff.mp found
      refine ⟨1, rfl, ⟨inside, ?_⟩, rfl⟩
      rw [take_succ_of_getElem? found, before, escaped_concat_of_ne p.content other]
  | noMark found absent =>
      obtain ⟨inside, -⟩ := List.getElem?_eq_some_iff.mp found
      have outside := List.getElem?_eq_none_iff.mp absent
      refine ⟨2, rfl, Nat.succ_le_succ inside, p.content, .inr ?_⟩
      rw [← before, ← take_succ_of_getElem? found, List.take_of_length_le outside]
  | endMark found next =>
      obtain ⟨inside, -⟩ := List.getElem?_eq_some_iff.mp next
      refine ⟨2, rfl, rfl, inside, ?_⟩
      rw [take_succ_of_getElem? next, take_succ_of_getElem? found, before, escape_eq_append,
        List.append_assoc]
      rfl
  | zero found next =>
      obtain ⟨inside, -⟩ := List.getElem?_eq_some_iff.mp next
      refine ⟨2, rfl, ⟨inside, ?_⟩, rfl⟩
      rw [take_succ_of_getElem? next, take_succ_of_getElem? found, before, escaped_concat_zero,
        List.append_assoc]
      rfl
  | @stray b found next noEnd noEscape =>
      obtain ⟨inside, -⟩ := List.getElem?_eq_some_iff.mp next
      refine ⟨2, rfl, inside, p.content, b, src.drop (p.place + 2), noEnd, noEscape, ?_⟩
      have whole := (List.take_append_drop (p.place + 2) src).symm
      rw [take_succ_of_getElem? next, take_succ_of_getElem? found, before] at whole
      simpa using whole

/-- A whole reading asks for the positions in their order and tells what the buffer is. -/
theorem tells_read {src : Bytes} {p : Progress} (sound : p.Sound src) :
    ∃ count, (read src p).2 = List.range' p.place count ∧
      (read src p).1.Tells src (p.place + count) := by
  fun_induction read src p with
  | case1 p next looks turn ih =>
      obtain ⟨count, inOrder, follows⟩ := sound.round
      rw [turn] at inOrder follows
      obtain ⟨sound, behind⟩ := follows
      obtain ⟨more, later, tells⟩ := ih sound
      -- The looks of a round end where the progress goes on, so the later ones join them.
      refine ⟨count + more, ?_, ?_⟩
      · show looks ++ (read src next).2 = _
        rw [later, ← behind, show looks = List.range' p.place count from inOrder,
          List.range'_append_1]
      · rw [← Nat.add_assoc, behind]
        exact tells
  | case2 p r looks turn =>
      obtain ⟨count, inOrder, follows⟩ := sound.round
      rw [turn] at inOrder follows
      exact ⟨count, inOrder, follows⟩

theorem sound_start (src : Bytes) : Progress.Sound src ⟨0, []⟩ := ⟨Nat.zero_le _, rfl⟩

theorem read_start (src : Bytes) :
    ∃ count, (read src ⟨0, []⟩).2 = List.range count ∧ (read src ⟨0, []⟩).1.Tells src count := by
  have start : Progress.Sound src ⟨0, []⟩ := ⟨Nat.zero_le _, rfl⟩
  obtain ⟨count, inOrder, tells⟩ := tells_read start
  rw [Nat.zero_add] at tells
  exact ⟨count, by rw [inOrder, List.range_eq_range'], tells⟩

/-! ## What is answered -/

/-- The content that a reading found, and what stands behind the end mark. -/
def Reading.parts? (src : Bytes) : Reading → Option (Bytes × Bytes)
  | .ended content place => some (content, src.drop place)
  | .cutShort | .strayZero => none

/-- What a buffer is decides what is found in it. -/
theorem unescape_of_tells {src : Bytes} {looks : Nat} {r : Reading} (tells : r.Tells src looks) :
    unescape src = r.parts? src := by
  cases r with
  | ended content place =>
      obtain ⟨-, -, written⟩ := tells
      have split := unescape_append content (src.drop place)
      rwa [← written, List.take_append_drop] at split
  | cutShort =>
      obtain ⟨-, content, rfl | rfl⟩ := tells
      · rw [← List.append_nil (escaped content), unescape_escaped_append]
        rfl
      · rw [unescape_escaped_append]
        rfl
  | strayZero =>
      obtain ⟨-, content, b, rest, noEnd, noEscape, rfl⟩ := tells
      rw [unescape_escaped_append]
      simp [unescape, noEnd, noEscape, Reading.parts?]

/-- A content is found exactly in front of what was left behind it. -/
theorem unescape_eq_some_iff (src content rest : Bytes) :
    unescape src = some (content, rest) ↔ src = escape content ++ rest := by
  constructor
  · intro found
    obtain ⟨count, -, tells⟩ := read_start src
    rw [unescape_of_tells tells] at found
    generalize (read src ⟨0, []⟩).1 = r at tells found
    cases r with
    | ended content' place =>
        obtain ⟨-, -, written⟩ := tells
        obtain ⟨rfl, rfl⟩ := Prod.mk.inj (Option.some.inj found)
        rw [← written, List.take_append_drop]
    | cutShort => cases found
    | strayZero => cases found
  · rintro rfl
    exact unescape_append content rest

theorem text?_eq_some_iff (src : Bytes) (s : String) (n : Nat) :
    text? src = some (s, n) ↔ n ≤ src.length ∧ src.take n = ofText s := by
  constructor
  · intro read
    obtain ⟨⟨content, rest⟩, found, read⟩ := Option.bind_eq_some_iff.mp read
    obtain ⟨s', isText, read⟩ := Option.bind_eq_some_iff.mp read
    obtain ⟨rfl, rfl⟩ := Prod.mk.inj (Option.some.inj read)
    obtain rfl := (unescape_eq_some_iff src content rest).mp found
    obtain rfl := Bytes.eq_ofText_of_text? isText
    simp [ofText]
  · rintro ⟨inside, written⟩
    have size : (ofText s).length = n := by
      rw [← written, List.length_take, Nat.min_eq_left inside]
    have read := text?_append s (src.drop n)
    rwa [← written, List.take_append_drop, written, size] at read

/-- The text of a reading, and the length of its written form. -/
def Reading.text? : Reading → Option (String × Nat)
  | .ended content place => (Bytes.text? content).map fun s => (s, place)
  | .cutShort | .strayZero => none

theorem text?_of_tells {src : Bytes} {looks : Nat} {r : Reading} (tells : r.Tells src looks) :
    text? src = r.text? := by
  rw [text?, unescape_of_tells tells]
  cases r with
  | ended content place =>
      obtain ⟨-, inside, -⟩ := tells
      have length : src.length - (src.drop place).length = place := by
        rw [List.length_drop]
        omega
      simp only [Reading.parts?, Reading.text?, Option.bind_eq_bind, Option.bind_some, length]
      cases Bytes.text? content <;> rfl
  | cutShort => rfl
  | strayZero => rfl

theorem Reading.Tells.looks_le {src : Bytes} {looks : Nat} {r : Reading}
    (tells : r.Tells src looks) : looks ≤ src.length + 1 := by
  cases r with
  | ended content place =>
      obtain ⟨same, inside, -⟩ := tells
      omega
  | cutShort => exact tells.1
  | strayZero => exact Nat.le_succ_of_le tells.1

/-- Where a text is answered, the looks end with it. -/
theorem Reading.Tells.looks_eq {src : Bytes} {looks : Nat} {r : Reading}
    (tells : r.Tells src looks) {s : String} {n : Nat} (answer : r.text? = some (s, n)) :
    looks = n := by
  cases r with
  | ended content place =>
      obtain ⟨s', -, same⟩ := Option.map_eq_some_iff.mp answer
      obtain ⟨-, rfl⟩ := Prod.mk.inj same
      exact tells.1
  | cutShort => cases answer
  | strayZero => cases answer

theorem unescape_of_cutShort {src : Bytes} (short : CutShort src) : unescape src = none := by
  obtain ⟨content, ⟨tail, whole⟩, differs⟩ := short
  cases found : unescape src with
  | none => rfl
  | some parts =>
      -- What was found in the front would be found in the whole, and nothing is left there.
      obtain rfl := (unescape_eq_some_iff src parts.1 parts.2).mp found
      have again := (unescape_eq_some_iff _ content []).mpr (List.append_nil _).symm
      rw [← whole, List.append_assoc, unescape_append, Option.some.injEq, Prod.mk.injEq] at again
      obtain ⟨same, nothing⟩ := again
      obtain ⟨empty, -⟩ := List.append_eq_nil_iff.mp nothing
      rw [same, empty, List.append_nil] at differs
      exact absurd rfl differs

theorem text?_eq_none_iff (src : Bytes) :
    text? src = none ↔ CutShort src ∨ StrayZero src ∨ NoText src := by
  constructor
  · intro refused
    obtain ⟨count, -, tells⟩ := read_start src
    rw [text?_of_tells tells] at refused
    generalize (read src ⟨0, []⟩).1 = r at tells refused
    cases r with
    | ended content place =>
        obtain ⟨-, -, written⟩ := tells
        refine .inr (.inr ⟨content, src.drop place, Option.map_eq_none_iff.mp refused, ?_⟩)
        rw [← written, List.take_append_drop]
    | cutShort =>
        obtain ⟨-, content, rfl | rfl⟩ := tells
        · exact .inl ⟨content, by simp [escape_eq_append]⟩
        · exact .inl ⟨content, ⟨[0], by simp [escape_eq_append]⟩, by simp [escape_eq_append]⟩
    | strayZero => exact .inr (.inl tells.2)
  · rintro (short | stray | ⟨content, rest, refused, rfl⟩)
    · simp [text?, unescape_of_cutShort short]
    · have tells : Reading.strayZero.Tells src 0 := ⟨Nat.zero_le _, stray⟩
      exact text?_of_tells tells
    · simp [text?, unescape_append, refused]

/-- Texts are read exactly where they were written.  A reader that goes by position comes to the
same answer; it asks for the positions in their order, each once, and for none behind the end of
the buffer but the first, where it finds nothing.  It answers a text and a length exactly if the
buffer has this length and these bytes are the written form of the text; then no position behind
them was asked for, and whatever follows them changes nothing.  It refuses exactly what ends too
early, has a stray zero byte, or holds no text. -/
theorem texts_are_read_exactly (src : Bytes) :
    (∃ r count, read src ⟨0, []⟩ = (r, List.range count) ∧ count ≤ src.length + 1 ∧
      text? src = r.text?) ∧
    (∀ s n, text? src = some (s, n) ↔ n ≤ src.length ∧ src.take n = ofText s) ∧
    (∀ s n, text? src = some (s, n) →
      (read src ⟨0, []⟩).2 = List.range n ∧ ∀ rest, text? (src.take n ++ rest) = some (s, n)) ∧
    (text? src = none ↔ CutShort src ∨ StrayZero src ∨ NoText src) := by
  obtain ⟨count, inOrder, tells⟩ := read_start src
  refine ⟨⟨_, count, Prod.ext rfl inOrder, ?_, text?_of_tells tells⟩, text?_eq_some_iff src,
    fun s n found => ⟨?_, ?_⟩, text?_eq_none_iff src⟩
  · exact tells.looks_le
  · have answer : (read src ⟨0, []⟩).1.text? = some (s, n) :=
      (text?_of_tells tells).symm.trans found
    rw [inOrder, tells.looks_eq answer]
  · intro rest
    obtain ⟨inside, written⟩ := (text?_eq_some_iff src s n).mp found
    have size : (ofText s).length = n := by
      rw [← written, List.length_take, Nat.min_eq_left inside]
    rw [written, text?_append, size]

/-- An escaped zero byte belongs to the text, and the bytes behind the end mark do not. -/
theorem escaped_text_is_read :
    text? [0x61, 0, 0xFF, 0, 0, 0xFF, 7] = some ("a\x00", 5) ∧
      (read [0x61, 0, 0xFF, 0, 0, 0xFF, 7] ⟨0, []⟩).2 = List.range 5 ∧
      text? ([0x61, 0, 0xFF, 0, 0] ++ [0]) = some ("a\x00", 5) := by
  obtain ⟨-, answers, alone, -⟩ := texts_are_read_exactly [0x61, 0, 0xFF, 0, 0, 0xFF, 7]
  have found := (answers "a\x00" 5).mpr (by decide)
  obtain ⟨looks, alone⟩ := alone "a\x00" 5 found
  exact ⟨found, looks, alone [0]⟩

end Ordered

end PropertyGraph
