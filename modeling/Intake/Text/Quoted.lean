import Intake.Text.Visible

/-! # Quoted texts

A text between quotation marks, in which everything that would not be seen, or would
be mistaken, is written out: quotation marks and backslashes behind a backslash, the
common control characters by a letter, any other hidden character by its number. -/

namespace Intake.Text

/-- The hexadecimal digits of a number, in lower case. -/
def hex (n : Nat) : List Char := Nat.toDigits 16 n

/-- A character as it stands in a quoted text. -/
def quotedChar (c : Char) : List Char :=
  if c = '"' then ['\\', '"']
  else if c = '\\' then ['\\', '\\']
  else if c = '\n' then ['\\', 'n']
  else if c = '\r' then ['\\', 'r']
  else if c = '\t' then ['\\', 't']
  else if c = '\x00' then ['\\', '0']
  else if isVisible c then [c]
  else ['\\', 'u', '\x7b'] ++ hex c.toNat ++ ['\x7d']

/-- A text between quotation marks. -/
def quoted (s : String) : String :=
  String.ofList ('"' :: s.toList.flatMap quotedChar ++ ['"'])

/-- A text that may be absent. -/
def quotedOption : Option String → String
  | some s => "Some(" ++ quoted s ++ ")"
  | none => "None"

end Intake.Text
