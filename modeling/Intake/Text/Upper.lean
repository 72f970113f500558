/-! # Upper case as far as it is ASCII

The full upper case mapping of characters, restricted to the characters whose upper
case consists of ASCII letters.  Besides the 26 small letters these are the dotless
i, the long s, the sharp s and the Latin ligatures.  Every other character is left
as it is: its upper case holds a character outside ASCII, so no ASCII text is missed
or gained by leaving it. -/

namespace Intake.Text

/-- The upper case of a character, where it is made of ASCII letters. -/
def upper (c : Char) : List Char :=
  match c.toNat with
  | 0x00DF => ['S', 'S']
  | 0x0131 => ['I']
  | 0x017F => ['S']
  | 0xFB00 => ['F', 'F']
  | 0xFB01 => ['F', 'I']
  | 0xFB02 => ['F', 'L']
  | 0xFB03 => ['F', 'F', 'I']
  | 0xFB04 => ['F', 'F', 'L']
  | 0xFB05 => ['S', 'T']
  | 0xFB06 => ['S', 'T']
  | _ => [c.toUpper]

/-- The upper case of a list of characters. -/
def upperAll (cs : List Char) : List Char := cs.flatMap upper

end Intake.Text
