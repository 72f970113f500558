/-! # Searching and cutting texts

* `stripStart?`  what follows a given beginning
* `hasInfix`     whether a text occurs in another
* `splitAt`      the parts between the occurrences of a character -/

namespace Intake.Text

/-- What follows the beginning `p`, if the list begins so. -/
def stripStart? : List Char → List Char → Option (List Char)
  | [], cs => some cs
  | _ :: _, [] => none
  | p :: ps, c :: cs => if p = c then stripStart? ps cs else none

/-- Whether the list `p` occurs in a list as it stands. -/
def hasInfix (p : List Char) : List Char → Bool
  | [] => (stripStart? p []).isSome
  | c :: cs => (stripStart? p (c :: cs)).isSome || hasInfix p cs

/-- The parts of a list between the occurrences of a character. -/
def splitAt (sep : Char) : List Char → List (List Char)
  | [] => [[]]
  | c :: cs =>
    if c = sep then [] :: splitAt sep cs
    else match splitAt sep cs with
      | [] => [[c]]
      | part :: parts => (c :: part) :: parts

/-- A text begins with what was put before it. -/
theorem stripStart?_append (p cs : List Char) : stripStart? p (p ++ cs) = some cs := by
  induction p with
  | nil => cases cs <;> rfl
  | cons c p ih => simp [stripStart?, ih]

/-- Splitting gives one part at least. -/
theorem splitAt_ne_nil (sep : Char) (cs : List Char) : splitAt sep cs ≠ [] := by
  cases cs with
  | nil => simp [splitAt]
  | cons c cs =>
    simp only [splitAt]
    split
    · simp
    · split <;> simp

end Intake.Text
