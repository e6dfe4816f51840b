/-
# Text.Blank -- white space

The characters with the property White_Space, 25 of them; a text of nothing else
is blank.
-/
import PropertyGraph.Text.CharRange

namespace PropertyGraph.Text

set_option autoImplicit false

/-- Code points of white space. -/
def blankRanges : List CharRange := [
  (0x9, 0xD), (0x20, 0x20), (0x85, 0x85), (0xA0, 0xA0), (0x1680, 0x1680), (0x2000, 0x200A),
  (0x2028, 0x2029), (0x202F, 0x202F), (0x205F, 0x205F), (0x3000, 0x3000)]

/-- Nothing but white space. -/
def isBlank (s : String) : Bool := s.toList.all fun c => CharRange.covers blankRanges c

end PropertyGraph.Text
