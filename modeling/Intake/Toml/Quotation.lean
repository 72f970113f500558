import Intake.Text.Hex
import Intake.Toml.Blank

/-! # Quoted texts in a configuration text

There are four forms: between quotation marks with escapes or between apostrophes
without, each in one line or, between three of them, over several lines.  In the long
forms a line end right after the opening marks does not count, every other one counts as
a line feed, and one or two marks may stand before the closing ones. -/

namespace Intake.Toml

/-- The character whose number is written in `n` hexadecimal digits. -/
def numbered? (n : Nat) (cs : List Char) : Option (Char × List Char) := do
  let ds ← (cs.take n).mapM Text.hexValue?
  if ds.length < n then none
  let v := ds.foldl (fun v d => 16 * v + d) 0
  if v < 0xD800 ∨ (0xE000 ≤ v ∧ v < 0x110000) then return (Char.ofNat v, cs.drop n) else none

/-- The character of an escape, read after the backslash. -/
def escaped? : List Char → Option (Char × List Char)
  | 'b' :: rest => some ('\x08', rest)
  | 'f' :: rest => some ('\x0c', rest)
  | 'n' :: rest => some ('\n', rest)
  | 'r' :: rest => some ('\r', rest)
  | 't' :: rest => some ('\t', rest)
  | '"' :: rest => some ('"', rest)
  | '\\' :: rest => some ('\\', rest)
  | 'u' :: rest => numbered? 4 rest
  | 'U' :: rest => numbered? 8 rest
  | _ => none

/-- The rest of a text in one line with escapes, read after its quotation mark; `acc` holds
    what came before, last character first, and the first argument bounds the length. -/
def readShort : Nat → List Char → List Char → Option (String × List Char)
  | 0, _, _ => none
  | _ + 1, _, [] => none
  | fuel + 1, acc, c :: cs =>
    if c = '"' then some (String.ofList acc.reverse, cs)
    else if c = '\\' then (escaped? cs).bind fun (d, rest) => readShort fuel (d :: acc) rest
    else if isPrintable c then readShort fuel (c :: acc) cs
    else none

/-- The rest of a text in one line without escapes. -/
def readShortPlain (cs : List Char) : Option (String × List Char) :=
  let body := cs.takeWhile fun c => isPrintable c && c ≠ '\''
  match cs.drop body.length with
  | '\'' :: rest => some (String.ofList body, rest)
  | _ => none

/-- The end of a long text at a run of marks: the marks that belong to the text, and what
    follows the closing ones.  A run that is too short to close has no end. -/
def closing? (mark : Char) (cs : List Char) : Option (List Char × List Char) :=
  let run := (cs.takeWhile (· = mark)).length
  if run < 3 then none
  else
    let kept := min (run - 3) 2
    some (List.replicate kept mark, cs.drop (kept + 3))

/-- What follows a backslash at the end of a line, blanks and further line ends, read after
    the backslash. -/
def folded? (cs : List Char) : Option (List Char) :=
  (newline? (skipBlanks cs)).map fun rest => skipLines (rest.length + 1) rest

/-- The rest of a text over several lines, with escapes if `mark` is the quotation mark. -/
def readLong (mark : Char) : Nat → List Char → List Char → Option (String × List Char)
  | 0, _, _ => none
  | _ + 1, _, [] => none
  | fuel + 1, acc, c :: cs =>
    if c = mark then
      match closing? mark (c :: cs) with
      | some (kept, rest) => some (String.ofList (acc.reverse ++ kept), rest)
      | none => readLong mark fuel (c :: acc) cs
    else if c = '\\' && mark = '"' then
      match folded? cs with
      | some rest => readLong mark fuel acc rest
      | none => (escaped? cs).bind fun (d, rest) => readLong mark fuel (d :: acc) rest
    else
      match newline? (c :: cs) with
      | some rest => readLong mark fuel ('\n' :: acc) rest
      | none => if isPrintable c then readLong mark fuel (c :: acc) cs else none

/-- A text over several lines, read after its three opening marks. -/
def readLongBody (mark : Char) (cs : List Char) : Option (String × List Char) :=
  let cs := (newline? cs).getD cs
  readLong mark (cs.length + 1) [] cs

/-- A quoted text in one line. -/
def quotedKey? : List Char → Option (String × List Char)
  | '"' :: rest => readShort (rest.length + 1) [] rest
  | '\'' :: rest => readShortPlain rest
  | _ => none

/-- A quoted text in any form. -/
def quotation? : List Char → Option (String × List Char)
  | '"' :: '"' :: '"' :: rest => readLongBody '"' rest
  | '\'' :: '\'' :: '\'' :: rest => readLongBody '\'' rest
  | cs => quotedKey? cs

end Intake.Toml
