import Intake.Text.Decimal

/-! # Dates and times in a configuration text

A date, a time of day with seconds, or a date and a time, then perhaps with an offset.
They are checked against the calendar. -/

namespace Intake.Toml

/-- A number of exactly `n` digits from `lo` to `hi`. -/
def field? (n lo hi : Nat) (cs : List Char) : Option (Nat × List Char) := do
  if (cs.take n).length < n then none
  let v ← Text.digits? (cs.take n)
  if lo ≤ v ∧ v ≤ hi then return (v, cs.drop n) else none

/-- What follows a character, if the text begins with it. -/
def after? (c : Char) : List Char → Option (List Char)
  | d :: rest => if c = d then some rest else none
  | [] => none

/-- Whether a year has a 29th of February. -/
def isLeap (year : Nat) : Bool := year % 4 = 0 && (year % 100 ≠ 0 || year % 400 = 0)

/-- The number of days in a month. -/
def daysIn (year month : Nat) : Nat :=
  if month = 2 then if isLeap year then 29 else 28
  else if month = 4 ∨ month = 6 ∨ month = 9 ∨ month = 11 then 30
  else 31

/-- What follows a date. -/
def date? (cs : List Char) : Option (List Char) := do
  let (year, cs) ← field? 4 0 9999 cs
  let cs ← after? '-' cs
  let (month, cs) ← field? 2 1 12 cs
  let cs ← after? '-' cs
  let (_, cs) ← field? 2 1 (daysIn year month) cs
  return cs

/-- What follows the fraction of a second, if there is one. -/
def skipFraction : List Char → List Char
  | '.' :: d :: rest => if d.isDigit then rest.dropWhile Char.isDigit else '.' :: d :: rest
  | cs => cs

/-- What follows a time of day. -/
def time? (cs : List Char) : Option (List Char) := do
  let (_, cs) ← field? 2 0 23 cs
  let cs ← after? ':' cs
  let (_, cs) ← field? 2 0 59 cs
  let cs ← after? ':' cs
  let (_, cs) ← field? 2 0 60 cs
  return skipFraction cs

/-- What follows an offset. -/
def offset? : List Char → Option (List Char)
  | c :: cs =>
    if c = 'Z' ∨ c = 'z' then some cs
    else if c = '+' ∨ c = '-' then do
      let (_, cs) ← field? 2 0 23 cs
      let cs ← after? ':' cs
      let (_, cs) ← field? 2 0 59 cs
      return cs
    else none
  | [] => none

/-- What follows the time of a date, if there is one. -/
def skipTimeOfDate : List Char → List Char
  | c :: cs =>
    if c = 'T' ∨ c = 't' ∨ c = ' ' then
      match time? cs with
      | some rest => (offset? rest).getD rest
      | none => c :: cs
    else c :: cs
  | [] => []

/-- What follows a date or a time. -/
def moment? (cs : List Char) : Option (List Char) :=
  match date? cs with
  | some rest => some (skipTimeOfDate rest)
  | none => time? cs

end Intake.Toml
