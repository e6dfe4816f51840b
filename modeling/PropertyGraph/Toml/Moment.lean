/-
# Toml.Moment -- dates and times of day in TOML

A moment is a date, a time of day, or both; only both together may have an offset.
Months have as many days as in the calendar, and a minute may have a leap second.
-/
import PropertyGraph.Toml.Lexical

namespace PropertyGraph.Toml

set_option autoImplicit false

/-- A number of exactly so many digits. -/
def fixedNumber : Nat → List Char → Option (Nat × List Char)
  | 0, s => some (0, s)
  | _ + 1, [] => none
  | places + 1, c :: rest => do
      let d ← digitValue 10 c
      let (n, tail) ← fixedNumber places rest
      return (d * Nat.pow 10 places + n, tail)

/-- A number of two digits within bounds. -/
def twoDigits (lowest highest : Nat) (s : List Char) : Option (Nat × List Char) := do
  let (n, rest) ← fixedNumber 2 s
  if lowest ≤ n ∧ n ≤ highest then return (n, rest) else none

def isLeapYear (year : Nat) : Bool := year % 4 == 0 && (year % 100 != 0 || year % 400 == 0)

/-- The number of days of a month. -/
def daysIn (year month : Nat) : Nat :=
  if month = 2 then if isLeapYear year then 29 else 28
  else if month = 4 ∨ month = 6 ∨ month = 9 ∨ month = 11 then 30
  else 31

/-- What is left behind a date. -/
def skipDate (s : List Char) : Option (List Char) := do
  let (year, rest) ← fixedNumber 4 s
  let (month, rest) ← twoDigits 1 12 (← skipChar '-' rest)
  let (_, rest) ← twoDigits 1 (daysIn year month) (← skipChar '-' rest)
  return rest

/-- What is left behind an hour and a minute. -/
def skipClock (s : List Char) : Option (List Char) := do
  let (_, rest) ← twoDigits 0 23 s
  let (_, rest) ← twoDigits 0 59 (← skipChar ':' rest)
  return rest

/-- What is left behind a time of day. -/
def skipTime (s : List Char) : Option (List Char) := do
  let (_, rest) ← twoDigits 0 60 (← skipChar ':' (← skipClock s))
  match rest with
  | '.' :: c :: tail =>
      if c.isDigit then return tail.dropWhile Char.isDigit else return rest
  | rest => return rest

/-- What is left behind an offset, if one stands at the front. -/
def skipOffset (s : List Char) : List Char :=
  match s with
  | [] => []
  | c :: rest =>
      if c = 'Z' ∨ c = 'z' then rest
      else if c = '+' ∨ c = '-' then (skipClock rest).getD s
      else s

/-- What is left behind a time with or without an offset, if one follows a date. -/
def skipTimeOfDate (s : List Char) : List Char :=
  match s with
  | [] => []
  | c :: rest =>
      if c = 'T' ∨ c = 't' ∨ c = ' ' then ((skipTime rest).map skipOffset).getD s
      else s

/-- What is left behind a moment. -/
def skipMoment (s : List Char) : Option (List Char) :=
  match skipDate s with
  | some rest => some (skipTimeOfDate rest)
  | none => skipTime s

end PropertyGraph.Toml
