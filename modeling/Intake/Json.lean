import Intake.Binary64
import Intake.Table

/-! # JSON values and their text

A value prints in one line without blanks, the fields of an object in ascending order
of their names.  Only what has to be escaped is escaped. -/

namespace Intake

/-- A JSON value.  A number is an integer or a floating point number. -/
inductive Json
  | null
  | bool (b : Bool)
  | int (n : Int)
  | float (x : Binary64)
  | str (s : String)
  | arr (items : List Json)
  | obj (fields : List (String × Json))
deriving Inhabited

namespace Json

/-- A natural number as a value. -/
def nat (n : Nat) : Json := .int n

/-- A value that may be absent. -/
def option {α : Type} (f : α → Json) : Option α → Json
  | some a => f a
  | none => .null

/-- Put a field in its place by name; it replaces one of the same name. -/
def insertField (k : String) (v : Json) : List (String × Json) → List (String × Json)
  | [] => [(k, v)]
  | (j, w) :: rest =>
    if k < j then (k, v) :: (j, w) :: rest
    else if k = j then (k, v) :: rest
    else (j, w) :: insertField k v rest

/-- The fields in ascending order of their names; of two of one name the later is kept. -/
def sortFields (fs : List (String × Json)) : List (String × Json) :=
  fs.foldl (fun acc f => insertField f.1 f.2 acc) []

/-- An object with its fields in order. -/
def mkObj (fs : List (String × Json)) : Json := .obj (sortFields fs)

/-- A table of texts as an object. -/
def ofTable (t : Table String) : Json := mkObj (t.entries.map fun e => (e.1, .str e.2))

/-- A digit of a number below 16. -/
def hexDigit (n : Nat) : Char := Nat.digitChar n

/-- A character as it stands in a JSON string. -/
def escape (c : Char) : List Char :=
  if c = '"' then ['\\', '"']
  else if c = '\\' then ['\\', '\\']
  else if c = '\n' then ['\\', 'n']
  else if c = '\r' then ['\\', 'r']
  else if c = '\t' then ['\\', 't']
  else if c = '\x08' then ['\\', 'b']
  else if c = '\x0c' then ['\\', 'f']
  else if c.toNat < 0x20 then
    ['\\', 'u', '0', '0', hexDigit (c.toNat / 16), hexDigit (c.toNat % 16)]
  else [c]

/-- Whether a character stands for itself in a JSON string. -/
def isPlain (c : Char) : Bool := c ≠ '"' && c ≠ '\\' && 0x20 ≤ c.toNat

/-- A text as a JSON string. -/
def quote (s : String) : String :=
  if s.toList.all isPlain then "\"" ++ s ++ "\""
  else "\"" ++ String.ofList (s.toList.flatMap escape) ++ "\""

mutual

/-- The text of a value. -/
def render : Json → String
  | null => "null"
  | bool b => if b then "true" else "false"
  | int n => toString n
  | float x => x.toText
  | str s => quote s
  | arr items => "[" ++ String.intercalate "," (renderItems items) ++ "]"
  | obj fields => "\x7b" ++ String.intercalate "," (renderFields fields) ++ "\x7d"

/-- The texts of the items of an array. -/
def renderItems : List Json → List String
  | [] => []
  | v :: rest => render v :: renderItems rest

/-- The texts of the fields of an object. -/
def renderFields : List (String × Json) → List String
  | [] => []
  | (k, v) :: rest => (quote k ++ ":" ++ render v) :: renderFields rest

end

/-! ## Looking into a value -/

/-- The field of an object under a name. -/
def field? (v : Json) (k : String) : Option Json :=
  match v with
  | obj fields => Table.lookup k fields
  | _ => none

/-- The text of a string. -/
def text? : Json → Option String
  | str s => some s
  | _ => none

/-- The value of a natural number. -/
def nat? : Json → Option Nat
  | int (.ofNat n) => some n
  | _ => none

/-- The truth value. -/
def bool? : Json → Option Bool
  | bool b => some b
  | _ => none

/-- The items of an array. -/
def items? : Json → Option (List Json)
  | arr items => some items
  | _ => none

/-- The fields of an object. -/
def fields? : Json → Option (List (String × Json))
  | obj fields => some fields
  | _ => none

end Json

end Intake
