import Intake.Binary64
import Intake.Text.Decimal
import Intake.Text.Hex
import Intake.Toml.Node
import Intake.Word

/-! # Numbers in a configuration text

Integers have 64 bits with a sign.  They are written in decimal without a zero in front,
or without a sign in the bases 16, 8 and 2.  An underscore may stand between two digits.
A floating point number must not be too large for 64 bits; below zero there is no such
limit. -/

namespace Intake.Toml

/-- A digit followed by digits, with single underscores between them: the digits, and what
    follows them. -/
def digitRun? (isDigit : Char → Bool) : List Char → Option (List Char × List Char)
  | [] => none
  | c :: rest =>
    if !isDigit c then none
    else
      match rest with
      | '_' :: more => (digitRun? isDigit more).map fun (ds, r) => (c :: ds, r)
      | d :: more =>
        if isDigit d then (digitRun? isDigit (d :: more)).map fun (ds, r) => (c :: ds, r)
        else some ([c], d :: more)
      | [] => some ([c], [])

/-- Whether a number has a minus sign, and what follows its sign. -/
def sign : List Char → Bool × List Char
  | '-' :: rest => (true, rest)
  | '+' :: rest => (false, rest)
  | cs => (false, cs)

/-- The digits of a decimal integer: a zero stands alone. -/
def decimal? : List Char → Option (List Char × List Char)
  | '0' :: rest => some (['0'], rest)
  | cs => digitRun? Char.isDigit cs

/-- The part of a number after the point. -/
def fraction? : List Char → Option (List Char × List Char)
  | '.' :: rest => digitRun? Char.isDigit rest
  | cs => some ([], cs)

/-- The exponent of a number, zero if there is none. -/
def exponent? : List Char → Option (Int × List Char)
  | [] => some (0, [])
  | c :: rest =>
    if c = 'e' ∨ c = 'E' then
      let (negative, rest) := sign rest
      (digitRun? Char.isDigit rest).bind fun (ds, rest) =>
        (Text.digits? ds).map fun n => (if negative then -(n : Int) else n, rest)
    else some (0, c :: rest)

/-- A floating point number, if it is not too large. -/
def float? (negative : Bool) (digits : List Char) (exponent : Int) : Option Node :=
  if negative then some .float
  else
    (Text.digits? digits).bind fun n =>
      (Binary64.ofDecimal? false n exponent).map fun _ => .float

/-- An integer, if it fits. -/
def integer? (n : Int) : Option Node :=
  if -(size64 / 2 : Nat) ≤ n ∧ n < (size64 / 2 : Nat) then some (.integer n) else none

/-- A number in decimal. -/
def decimalNumber? (cs : List Char) : Option (Node × List Char) := do
  let (negative, cs) := sign cs
  match cs with
  | 'i' :: 'n' :: 'f' :: rest | 'n' :: 'a' :: 'n' :: rest => return (.float, rest)
  | _ =>
    let (ds, rest) ← decimal? cs
    match rest with
    | c :: _ =>
      if c = '.' ∨ c = 'e' ∨ c = 'E' then
        let (fs, rest) ← fraction? rest
        let (e, rest) ← exponent? rest
        let v ← float? negative (ds ++ fs) (e - fs.length)
        return (v, rest)
    | [] => pure ()
    let n ← Text.digits? ds
    let v ← integer? (if negative then -(n : Int) else n)
    return (v, rest)

/-- The value of a digit in a base up to 16. -/
def digitOf? (base : Nat) (c : Char) : Option Nat := (Text.hexValue? c).filter (· < base)

/-- An integer in another base, read after the letter for the base. -/
def basedNumber? (base : Nat) (cs : List Char) : Option (Node × List Char) := do
  let (ds, rest) ← digitRun? (fun c => (digitOf? base c).isSome) cs
  let n := (ds.filterMap (digitOf? base)).foldl (fun n d => base * n + d) 0
  let v ← integer? (n : Int)
  return (v, rest)

/-- A number. -/
def number? : List Char → Option (Node × List Char)
  | '0' :: 'x' :: rest => basedNumber? 16 rest
  | '0' :: 'o' :: rest => basedNumber? 8 rest
  | '0' :: 'b' :: rest => basedNumber? 2 rest
  | cs => decimalNumber? cs

end Intake.Toml
