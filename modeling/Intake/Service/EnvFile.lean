import Intake.Config.Override
import Intake.Table
import Intake.Text.Blank

/-! # Files with environment variables

A file may hold variables, one a line, `NAME=value`, with `export` in front or not.  A
value may be quoted and go over several lines; outside of apostrophes `$NAME` stands for
the value of a variable.  Reading stops at the first line that is not well formed; what
came before it counts.  A variable that is set already is not changed. -/

namespace Intake.EnvFile

/-! ## Lines -/

/-- Where in a line we are. -/
inductive LineState
  | plain
  | escape
  | blank
  | quoted (mark : Char)
  | quotedEscape (mark : Char)
deriving DecidableEq, Repr

/-- The state after a character outside of quotation marks. -/
def LineState.open (c : Char) : LineState :=
  if c = '\\' then .escape
  else if c = '"' ∨ c = '\'' then .quoted c
  else .plain

/-- The state after a character. -/
def LineState.next (s : LineState) (c : Char) : LineState :=
  match s with
  | .plain => if Text.isBlank c && c ≠ '\n' && c ≠ '\r' then .blank else .open c
  | .blank => .open c
  | .escape => .plain
  | .quoted m => if c = '\\' then .quotedEscape m else if c = m then .plain else .quoted m
  | .quotedEscape m => .quoted m

/-- Go through a line: the state at its end, or what stands before a comment. -/
def scanLine (s : LineState) (before : List Char) : List Char → LineState ⊕ List Char
  | [] => .inl s
  | c :: cs =>
    if s = .blank ∧ c = '#' then .inr before.reverse else scanLine (s.next c) (c :: before) cs

/-- A line without its end. -/
def dropLineEnd (cs : List Char) : List Char :=
  match cs.reverse with
  | '\n' :: '\r' :: rest => rest.reverse
  | '\n' :: rest => rest.reverse
  | _ => cs

/-- The first line of a text with its end, and the rest. -/
def splitLine : List Char → List Char × List Char
  | [] => ([], [])
  | '\n' :: cs => (['\n'], cs)
  | c :: cs =>
    let (line, rest) := splitLine cs
    (c :: line, rest)

/-- The next line, which quotation marks may extend over several, and the rest.  There is
    none at the end, and none if it does not end well.  A comment is an empty line. -/
def nextLine : Nat → LineState → List Char → List Char → Option (List Char × List Char)
  | 0, _, _, _ => none
  | _ + 1, _, _, [] => none
  | fuel + 1, s, sofar, cs =>
    let (line, rest) := splitLine cs
    let all := sofar ++ line
    if (all.dropWhile Text.isBlank).head? = some '#' then some ([], rest)
    else
      match scanLine s [] line with
      | .inr part => some (sofar ++ part, rest)
      | .inl .plain => some (dropLineEnd all, rest)
      | .inl s => nextLine fuel s all rest

/-! ## Values -/

/-- The name of a variable that is being read. -/
inductive Reference
  | none
  /-- After a dollar sign. -/
  | plain (name : List Char)
  /-- After a dollar sign and an opening brace. -/
  | braced (name : List Char)

/-- How far a value has been read; `value` and names have their last character first. -/
structure ValueState where
  value : List Char
  strong : Bool
  weak : Bool
  escaped : Bool
  /-- Whether only blanks and a comment may follow. -/
  ending : Bool
  reference : Reference

/-- Nothing has been read. -/
def ValueState.empty : ValueState := ⟨[], false, false, false, false, .none⟩

/-- Add a character. -/
def ValueState.push (s : ValueState) (c : Char) : ValueState := { s with value := c :: s.value }

/-- Put the value of a variable in the place of its name; an unset one is empty. -/
def ValueState.substitute (env : Environment) (s : ValueState) (name : List Char) : ValueState :=
  let v := (env (String.ofList name.reverse)).getD ""
  { s with value := v.toList.reverse ++ s.value, reference := .none }

/-- The character of an escape. -/
def escaped? (c : Char) : Option Char :=
  if c = '\\' ∨ c = '\'' ∨ c = '"' ∨ c = '$' ∨ c = ' ' then some c
  else if c = 'n' then some '\n'
  else none

/-- Read one character of a value that is not part of a name, an escape or a strong
    quotation. -/
def readPlain (s : ValueState) (c : Char) : ValueState :=
  if c = '$' then { s with reference := .plain [] }
  else if s.weak then
    if c = '"' then { s with weak := false }
    else if c = '\\' then { s with escaped := true }
    else s.push c
  else if c = '\'' then { s with strong := true }
  else if c = '"' then { s with weak := true }
  else if c = '\\' then { s with escaped := true }
  else if c = ' ' ∨ c = '\t' then { s with ending := true }
  else s.push c

/-- Read one character of a value; nothing comes of one that cannot stand there. -/
def readChar? (env : Environment) (s : ValueState) (c : Char) : Option ValueState :=
  if s.escaped then (escaped? c).map fun d => { s.push d with escaped := false }
  else if s.strong then
    some (if c = '\'' then { s with strong := false } else s.push c)
  else
    some <| match s.reference with
      | .none => readPlain s c
      | .plain name =>
        if c.isAlphanum then { s with reference := .plain (c :: name) }
        else if c = '\x7b' ∧ name.isEmpty then { s with reference := .braced [] }
        else
          let s := s.substitute env name
          if c = '$' then { s with reference := .plain [] } else s.push c
      | .braced name =>
        if c.isAlphanum then { s with reference := .braced (c :: name) }
        else if c = '\x7d' then s.substitute env name
        else { s with reference := .braced (c :: name) }

/-- Read a value to its end. -/
def readValue? (env : Environment) (s : ValueState) : List Char → Option String
  | [] =>
    match s.reference with
    | .braced _ => none
    | .none => if s.strong || s.weak then none else some (String.ofList s.value.reverse)
    | .plain name =>
      if s.strong || s.weak then none
      else some (String.ofList (s.substitute env name).value.reverse)
  | c :: cs =>
    if s.ending then
      if c = ' ' ∨ c = '\t' then readValue? env s cs
      else if c = '#' then readValue? env s []
      else none
    else (readChar? env s c).bind fun s => readValue? env s cs

/-! ## Assignments -/

/-- The name of a variable at the beginning of a line. -/
def name? (cs : List Char) : Option (String × List Char) :=
  match cs with
  | c :: _ =>
    if c.isAlpha ∨ c = '_' then
      let name := cs.takeWhile fun c => c.isAlphanum || c = '_' || c = '.'
      some (String.ofList name, cs.drop name.length)
    else none
  | [] => none

/-- What follows an equals sign after blanks. -/
def afterEquals? (cs : List Char) : Option (List Char) :=
  match cs.dropWhile Text.isBlank with
  | '=' :: rest => some (rest.dropWhile Text.isBlank)
  | _ => none

/-- A name and what follows its equals sign; `export` may come before the name. -/
def assignment? (cs : List Char) : Option (String × List Char) := do
  let (name, rest) ← name? cs
  match afterEquals? rest with
  | some value => return (name, value)
  | none =>
    if name = "export" then
      let (name, rest) ← name? (rest.dropWhile Text.isBlank)
      let value ← afterEquals? rest
      return (name, value)
    else none

/-- What a line says: nothing, or the value of a variable.  A line that is not well formed
    has no meaning. -/
def line? (env : Environment) (cs : List Char) : Option (Option (String × String)) :=
  match (Text.dropBlankEnd cs).dropWhile Text.isBlank with
  | [] => some none
  | '#' :: _ => some none
  | cs => do
    let (name, value) ← assignment? cs
    match value with
    | [] => return some (name, "")
    | '#' :: _ => return some (name, "")
    | _ => return some (name, ← readValue? env .empty value)

/-- An environment with more variables, which do not replace those that are set. -/
def extend (env : Environment) (vars : Table String) : Environment :=
  fun k => (env k).or (vars.get? k)

/-- Read lines, each under the variables before it. -/
def readLines (env : Environment) : Nat → Table String → List Char → Table String
  | 0, vars, _ => vars
  | fuel + 1, vars, cs =>
    match nextLine (cs.length + 1) .plain [] cs with
    | none => vars
    | some (line, rest) =>
      match line? (extend env vars) line with
      | none => vars
      | some none => readLines env fuel vars rest
      | some (some (k, v)) =>
        readLines env fuel (if vars.contains k then vars else vars.set k v) rest

/-- The environment with the variables of a file. -/
def load (env : Environment) (s : String) : Environment :=
  let cs := match s.toList with
    | '\uFEFF' :: cs => cs
    | cs => cs
  extend env (readLines env (cs.length + 1) .empty cs)

end Intake.EnvFile
