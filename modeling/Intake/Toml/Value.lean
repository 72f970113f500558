import Intake.Toml.Entry
import Intake.Toml.Moment
import Intake.Toml.Number
import Intake.Toml.Quotation

/-! # Reading a value in a configuration text

Arrays may go over several lines and end with a comma; tables between braces may not.
Arrays and tables nest less than `depthLimit` deep, and a dotted key has less than
`depthLimit` parts. -/

namespace Intake.Toml

/-- No value nests as deep as this. -/
def depthLimit : Nat := 80

/-- Whether a character may stand in a key without quotes. -/
def isKeyChar (c : Char) : Bool := c.isAlphanum || c = '-' || c = '_'

/-- One part of a key. -/
def keyPart? (cs : List Char) : Option (String × List Char) :=
  match quotedKey? cs with
  | some r => some r
  | none =>
    let word := cs.takeWhile isKeyChar
    if word.isEmpty then none else some (String.ofList word, cs.drop word.length)

/-- A dotted key of at most `n` parts with the blanks around it. -/
def dottedKey? : Nat → List Char → Option (List String × List Char)
  | 0, _ => none
  | n + 1, cs =>
    (keyPart? (skipBlanks cs)).bind fun (k, rest) =>
      match skipBlanks rest with
      | '.' :: rest => (dottedKey? n rest).map fun (ks, rest) => (k :: ks, rest)
      | rest => some ([k], rest)

/-- A key. -/
def key? (cs : List Char) : Option (List String × List Char) := dottedKey? (depthLimit - 1) cs

/-- A value that does not nest. -/
def scalar? (cs : List Char) : Option (Node × List Char) :=
  match cs with
  | '"' :: _ | '\'' :: _ => (quotation? cs).map fun (s, rest) => (.text s, rest)
  | 't' :: 'r' :: 'u' :: 'e' :: rest => some (.flag true, rest)
  | 'f' :: 'a' :: 'l' :: 's' :: 'e' :: rest => some (.flag false, rest)
  | _ =>
    match moment? cs with
    | some rest => some (.moment, rest)
    | none => number? cs

mutual

/-- A value.  The first argument bounds the length, the second the depth. -/
def value? : Nat → Nat → List Char → Option (Node × List Char)
  | 0, _, _ => none
  | fuel + 1, depth, cs =>
    match cs with
    | '[' :: rest =>
      match depth with
      | 0 => none
      | depth + 1 => (items? fuel depth rest).map fun (vs, rest) => (.array vs, rest)
    | '\x7b' :: rest =>
      match depth with
      | 0 => none
      | depth + 1 =>
        match skipBlanks rest with
        | '\x7d' :: rest => some (.table .inline [], rest)
        | rest => (entries? fuel depth [] rest).map fun (fs, rest) => (.table .inline fs, rest)
    | _ => scalar? cs

/-- The items of an array with its closing bracket. -/
def items? : Nat → Nat → List Char → Option (List Node × List Char)
  | 0, _, _ => none
  | fuel + 1, depth, cs =>
    (skipGap? (cs.length + 1) cs).bind fun cs =>
      match cs with
      | ']' :: rest => some ([], rest)
      | _ =>
        (value? fuel depth cs).bind fun (v, rest) =>
          (skipGap? (rest.length + 1) rest).bind fun rest =>
            match rest with
            | ',' :: rest => (items? fuel depth rest).map fun (vs, rest) => (v :: vs, rest)
            | ']' :: rest => some ([v], rest)
            | _ => none

/-- The entries of a table between braces with its closing brace, added to fields. -/
def entries? : Nat → Nat → Fields → List Char → Option (Fields × List Char)
  | 0, _, _, _ => none
  | fuel + 1, depth, fs, cs =>
    (key? cs).bind fun (ks, rest) =>
      match rest with
      | '=' :: rest =>
        (value? fuel depth (skipBlanks rest)).bind fun (v, rest) =>
          (assign v ks fs).bind fun fs =>
            match skipBlanks rest with
            | ',' :: rest => entries? fuel depth fs rest
            | '\x7d' :: rest => some (fs, rest)
            | _ => none
      | _ => none

end

end Intake.Toml
