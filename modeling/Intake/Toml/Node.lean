/-! # Values in a configuration text

A `Node` is a value of a TOML document.  Floating point numbers and dates are told
apart from everything else, but what they denote is not kept: no setting has one.

A table remembers its `Origin`, because that decides what a later line may add to it. -/

namespace Intake.Toml

/-- How a table came to be. -/
inductive Origin
  /-- A header names it. -/
  | header
  /-- It lies on the way to a table that a header names. -/
  | path
  /-- It lies on the way to a value that a dotted key names. -/
  | dotted
  /-- It is written between braces. -/
  | inline
deriving DecidableEq, Repr

/-- A value of a document. -/
inductive Node
  | text (s : String)
  | integer (n : Int)
  | float
  | flag (b : Bool)
  /-- A date, a time of day, or both. -/
  | moment
  | array (items : List Node)
  | table (origin : Origin) (fields : List (String × Node))
  /-- The tables that double headers of one name add up to. -/
  | tables (items : List (List (String × Node)))
deriving Inhabited, Repr

/-- The entries of a table. -/
abbrev Fields := List (String × Node)

end Intake.Toml
