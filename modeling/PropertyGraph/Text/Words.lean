/-
# Text.Words -- the words of a text

A word is a longest run of letters and numerals.  A text contains a term when
one of its words is the term, and starts a word with it when the term is the
beginning of one of them; neither looks at case.  No word is empty
(`ne_nil_of_mem_wordsFrom`), so an empty term is contained nowhere.
-/
import PropertyGraph.Text.Alphanumeric
import PropertyGraph.Text.Lowercase

namespace PropertyGraph.Text

set_option autoImplicit false

/-- The words of a text, where the first goes on from a run that was read, last
character first. -/
def wordsFrom : List Char → List Char → List (List Char)
  | run, [] => if run.isEmpty then [] else [run.reverse]
  | run, c :: rest =>
      if isAlphanumeric c then wordsFrom (c :: run) rest
      else if run.isEmpty then wordsFrom [] rest
      else run.reverse :: wordsFrom [] rest

/-- The words of a text in lower case. -/
def words (s : String) : List (List Char) := (wordsFrom [] s.toList).map lowercase

/-- Some word is the term. -/
def containsWord (s term : String) : Bool := (words s).any fun w => w == lowercase term.toList

/-- Some word starts with the term. -/
def startsWord (s term : String) : Bool :=
  (words s).any fun w => (lowercase term.toList).isPrefixOf w

theorem ne_nil_of_mem_wordsFrom {run s w : List Char} (member : w ∈ wordsFrom run s) :
    w ≠ [] := by
  induction s generalizing run with
  | nil =>
      simp only [wordsFrom] at member
      split at member
      · simp at member
      · simp_all
  | cons c rest ih =>
      simp only [wordsFrom] at member
      split at member
      · exact ih member
      · split at member
        · exact ih member
        · rcases List.mem_cons.1 member with rfl | later
          · simp_all
          · exact ih later

end PropertyGraph.Text
