/-
# Query.Predicate -- tests of one value

A comparison tests a value against another one by the order of values; a text
test looks for a word.  A predicate without a value to test against asks whether
there is a value at all: equality with nothing holds of nothing, inequality with
nothing holds of every value.
-/
import PropertyGraph.Query.Value
import PropertyGraph.Text.Words

namespace PropertyGraph

set_option autoImplicit false

inductive Comparison where
  | equal
  | notEqual
  | less
  | lessEqual
  | greater
  | greaterEqual
  deriving DecidableEq

namespace Comparison

instance : Named Comparison where
  members := [.equal, .notEqual, .less, .lessEqual, .greater, .greaterEqual]
  name
    | .equal => "eq"
    | .notEqual => "ne"
    | .less => "lt"
    | .lessEqual => "le"
    | .greater => "gt"
    | .greaterEqual => "ge"
  found a := by cases a <;> decide

/-- The order of two values makes the comparison true. -/
def admits : Comparison → Ordering → Bool
  | .equal, o => o == .eq
  | .notEqual, o => o != .eq
  | .less, o => o == .lt
  | .lessEqual, o => o != .gt
  | .greater, o => o == .gt
  | .greaterEqual, o => o != .lt

def test (c : Comparison) (value bound : Value) : Bool := c.admits (Value.compare value bound)

end Comparison

/-- Tests of the words of a text, regardless of case. -/
inductive WordTest where
  /-- Some word is the term. -/
  | contains
  /-- Some word starts with the term. -/
  | starts
  deriving DecidableEq

def WordTest.test : WordTest → String → String → Bool
  | .contains, s, term => Text.containsWord s term
  | .starts, s, term => Text.startsWord s term

inductive Predicate where
  | compare (comparison : Comparison)
  | words (wordTest : WordTest)
  deriving DecidableEq

namespace Predicate

instance : Named Predicate where
  members := (Named.members : List Comparison).map .compare ++ [.words .contains, .words .starts]
  name
    | .compare c => Named.name c
    | .words .contains => "contains"
    | .words .starts => "prefix"
  found
    | .compare c => by cases c <;> decide
    | .words w => by cases w <;> decide

def isWords : Predicate → Bool
  | .words _ => true
  | .compare _ => false

/-- The predicate holds of a value that an element may lack, tested against a
value that the condition may lack. -/
def test : Predicate → Option Value → Option Value → Bool
  | .compare .equal, none, none => true
  | .compare .notEqual, some _, none => true
  | .compare c, some value, some bound => c.test value bound
  | .words w, some (.text s), some (.text term) => w.test s term
  | _, _, _ => false

end Predicate

end PropertyGraph
