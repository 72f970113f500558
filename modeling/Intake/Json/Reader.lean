import Intake.Json
import Intake.Text.Decimal
import Intake.Text.Hex
import Intake.Word

/-! # Reading JSON

`Json.read?` reads one value with blanks around it.  An integer that does not fit in
64 bits becomes a floating point number, as does `-0`; the value of a floating point
number is the nearest one there is.  Of two fields of one name the later counts. -/

namespace Intake.Json

/-- A list of characters without the blanks at its beginning. -/
def skipBlanks (cs : List Char) : List Char :=
  cs.dropWhile fun c => c = ' ' || c = '\n' || c = '\r' || c = '\t'

/-- Four hexadecimal digits. -/
def hex4? : List Char → Option (Nat × List Char)
  | a :: b :: c :: d :: rest => do
    let a ← Text.hexValue? a
    let b ← Text.hexValue? b
    let c ← Text.hexValue? c
    let d ← Text.hexValue? d
    return (((a * 16 + b) * 16 + c) * 16 + d, rest)
  | _ => none

/-- The character of an escape that is one letter. -/
def unescape? : Char → Option Char
  | '"' => some '"'
  | '\\' => some '\\'
  | '/' => some '/'
  | 'b' => some '\x08'
  | 'f' => some '\x0c'
  | 'n' => some '\n'
  | 'r' => some '\r'
  | 't' => some '\t'
  | _ => none

/-- A character written by its number, a pair of surrogates being one character. -/
def numbered? (cs : List Char) : Option (Char × List Char) := do
  let (n, rest) ← hex4? cs
  if 0xD800 ≤ n ∧ n < 0xDC00 then
    match rest with
    | '\\' :: 'u' :: rest =>
      let (m, rest) ← hex4? rest
      if 0xDC00 ≤ m ∧ m < 0xE000 then
        return (Char.ofNat (0x10000 + (n - 0xD800) * 0x400 + (m - 0xDC00)), rest)
      else none
    | _ => none
  else if 0xDC00 ≤ n ∧ n < 0xE000 then none
  else return (Char.ofNat n, rest)

/-- The rest of a string after its quotation mark; `acc` holds what came before, last
    character first. -/
def readString : Nat → List Char → List Char → Option (String × List Char)
  | 0, _, _ => none
  | _ + 1, _, [] => none
  | fuel + 1, acc, c :: cs =>
    if c = '"' then some (String.ofList acc.reverse, cs)
    else if c = '\\' then
      match cs with
      | 'u' :: rest => (numbered? rest).bind fun (d, rest) => readString fuel (d :: acc) rest
      | e :: rest => (unescape? e).bind fun d => readString fuel (d :: acc) rest
      | [] => none
    else if c.toNat < 0x20 then none
    else readString fuel (c :: acc) cs

/-- The digits at the beginning of a list. -/
def digitsOf (cs : List Char) : List Char × List Char :=
  (cs.takeWhile Char.isDigit, cs.dropWhile Char.isDigit)

/-- The part of a number after the point, if there is one. -/
def fraction? (cs : List Char) : Option (Option (List Char) × List Char) :=
  match cs with
  | '.' :: rest =>
    let (ds, rest) := digitsOf rest
    if ds.isEmpty then none else some (some ds, rest)
  | _ => some (none, cs)

/-- The exponent of a number, if there is one. -/
def exponent? (cs : List Char) : Option (Option Int × List Char) :=
  match cs with
  | e :: rest =>
    if e = 'e' ∨ e = 'E' then
      let (neg, rest) := match rest with
        | '-' :: rest => (true, rest)
        | '+' :: rest => (false, rest)
        | _ => (false, rest)
      let (ds, rest) := digitsOf rest
      (Text.digits? ds).map fun n => (some (if neg then -(n : Int) else n), rest)
    else some (none, cs)
  | [] => some (none, [])

/-- The value of an integer: exact if it fits in 64 bits. -/
def integer? (negative : Bool) (n : Nat) : Option Json :=
  if negative then
    if 0 < n ∧ n ≤ size64 / 2 then some (.int (-(n : Int)))
    else (Binary64.ofDecimal? true n 0).map .float
  else if n < size64 then some (.int n)
  else (Binary64.ofDecimal? false n 0).map .float

/-- A number. -/
def readNumber (cs : List Char) : Option (Json × List Char) := do
  let (negative, cs) := match cs with
    | '-' :: rest => (true, rest)
    | _ => (false, cs)
  let (ds, rest) := digitsOf cs
  let n ← Text.digits? ds
  if ds.head? = some '0' ∧ 1 < ds.length then none
  let (frac, rest) ← fraction? rest
  let (ex, rest) ← exponent? rest
  match frac, ex with
  | none, none => (integer? negative n).map fun v => (v, rest)
  | _, _ =>
    let fs := frac.getD []
    let m ← Text.digits? (ds ++ fs)
    let e : Int := ex.getD 0 - fs.length
    (Binary64.ofDecimal? negative m e).map fun x => (.float x, rest)

/-- What follows a word, if the list begins with it. -/
def word? (w : String) (v : Json) (cs : List Char) : Option (Json × List Char) :=
  if w.toList.isPrefixOf cs then some (v, cs.drop w.length) else none

mutual

/-- A value at the beginning of a list; `fuel` bounds the depth and the length. -/
def readValue : Nat → List Char → Option (Json × List Char)
  | 0, _ => none
  | fuel + 1, cs =>
    match skipBlanks cs with
    | '"' :: rest => (readString (rest.length + 1) [] rest).map fun (s, rest) => (.str s, rest)
    | '[' :: rest =>
      match skipBlanks rest with
      | ']' :: rest => some (.arr [], rest)
      | rest => (readItems fuel rest).map fun (vs, rest) => (.arr vs, rest)
    | '\x7b' :: rest =>
      match skipBlanks rest with
      | '\x7d' :: rest => some (.obj [], rest)
      | rest => (readFields fuel rest).map fun (fs, rest) => (mkObj fs, rest)
    | 'n' :: rest => word? "null" .null ('n' :: rest)
    | 't' :: rest => word? "true" (.bool true) ('t' :: rest)
    | 'f' :: rest => word? "false" (.bool false) ('f' :: rest)
    | rest => readNumber rest

/-- The items of an array up to its bracket. -/
def readItems : Nat → List Char → Option (List Json × List Char)
  | 0, _ => none
  | fuel + 1, cs =>
    (readValue fuel cs).bind fun (v, rest) =>
      match skipBlanks rest with
      | ',' :: rest => (readItems fuel rest).map fun (vs, rest) => (v :: vs, rest)
      | ']' :: rest => some ([v], rest)
      | _ => none

/-- The fields of an object up to its brace. -/
def readFields : Nat → List Char → Option (List (String × Json) × List Char)
  | 0, _ => none
  | fuel + 1, cs =>
    match skipBlanks cs with
    | '"' :: rest =>
      (readString (rest.length + 1) [] rest).bind fun (k, rest) =>
        match skipBlanks rest with
        | ':' :: rest =>
          (readValue fuel rest).bind fun (v, rest) =>
            match skipBlanks rest with
            | ',' :: rest => (readFields fuel rest).map fun (fs, rest) => ((k, v) :: fs, rest)
            | '\x7d' :: rest => some ([(k, v)], rest)
            | _ => none
        | _ => none
    | _ => none

end

/-- The value that a text denotes. -/
def read? (s : String) : Option Json :=
  let cs := s.toList
  match readValue (cs.length + 1) cs with
  | some (v, rest) => if (skipBlanks rest).isEmpty then some v else none
  | none => none

end Intake.Json
