/-! # Blanks, line ends and comments in a configuration text -/

namespace Intake.Toml

/-- Whether a character is a blank within a line. -/
def isBlank (c : Char) : Bool := c = ' ' || c = '\t'

/-- What follows the blanks at the beginning of a text. -/
def skipBlanks (cs : List Char) : List Char := cs.dropWhile isBlank

/-- Whether a character may stand anywhere within a line: a tab or no control character. -/
def isPrintable (c : Char) : Bool := c = '\t' || (' ' ≤ c && c ≠ '\x7f')

/-- What follows the end of a line, if the text begins with one. -/
def newline? : List Char → Option (List Char)
  | '\n' :: rest => some rest
  | '\r' :: '\n' :: rest => some rest
  | _ => none

/-- What follows the comment at the beginning of a text, if there is one. -/
def skipComment (cs : List Char) : List Char :=
  match cs with
  | '#' :: rest => rest.dropWhile isPrintable
  | _ => cs

/-- What follows the rest of a line in which only blanks and a comment are left. -/
def lineEnd? (cs : List Char) : Option (List Char) :=
  match skipComment (skipBlanks cs) with
  | [] => some []
  | rest => newline? rest

/-- What follows blanks and line ends; the first argument bounds their number. -/
def skipLines : Nat → List Char → List Char
  | 0, cs => cs
  | n + 1, cs =>
    let cs := skipBlanks cs
    match newline? cs with
    | some rest => skipLines n rest
    | none => cs

/-- What follows blanks, comments and line ends; there is nothing if a comment is not
    followed by the end of a line.  The first argument bounds their number. -/
def skipGap? : Nat → List Char → Option (List Char)
  | 0, cs => some cs
  | n + 1, cs =>
    match skipBlanks cs with
    | '#' :: rest => (newline? (rest.dropWhile isPrintable)).bind (skipGap? n)
    | rest =>
      match newline? rest with
      | some rest => skipGap? n rest
      | none => some rest

end Intake.Toml
