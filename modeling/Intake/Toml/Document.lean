import Intake.Toml.Value

/-! # Reading a configuration text

A text in TOML 1.0 is a sequence of statements, one a line: headers of tables, and
entries that belong to the table of the header before them.  `Toml.read?` gives the
fields of the outermost table. -/

namespace Intake.Toml

/-- One statement. -/
inductive Statement
  /-- The header of a table. -/
  | table (path : List String)
  /-- The header of one more table of a name. -/
  | another (path : List String)
  | entry (key : List String) (value : Node)

/-- A header, read after its opening brackets: the path between them. -/
def header? (closing : List Char) (cs : List Char) : Option (List String × List Char) :=
  (key? cs).bind fun (path, rest) =>
    if closing.isPrefixOf rest then
      (lineEnd? (rest.drop closing.length)).map fun rest => (path, rest)
    else none

/-- An entry with its line end. -/
def entry? (cs : List Char) : Option (Statement × List Char) :=
  (key? cs).bind fun (ks, rest) =>
    match rest with
    | '=' :: rest =>
      let rest := skipBlanks rest
      (value? (2 * rest.length + 2) (depthLimit - 1) rest).bind fun (v, rest) =>
        (lineEnd? rest).map fun rest => (.entry ks v, rest)
    | _ => none

/-- A statement with its line end. -/
def statement? : List Char → Option (Statement × List Char)
  | '[' :: '[' :: rest => (header? [']', ']'] rest).map fun (p, rest) => (.another p, rest)
  | '[' :: rest => (header? [']'] rest).map fun (p, rest) => (.table p, rest)
  | cs => entry? cs

/-- The statements of a text; the first argument bounds their number. -/
def statements? : Nat → List Char → Option (List Statement)
  | 0, _ => none
  | fuel + 1, cs =>
    match skipBlanks cs with
    | [] => some []
    | '#' :: rest => (lineEnd? ('#' :: rest)).bind (statements? fuel)
    | rest =>
      match newline? rest with
      | some rest => statements? fuel rest
      | none => (statement? rest).bind fun (s, rest) => (statements? fuel rest).map (s :: ·)

/-- Split a path into the way and its last part. -/
def splitPath (path : List String) : List String × String :=
  (path.dropLast, path.getLast?.getD "")

/-- The fields that statements add up to, the entries going into the table at a path. -/
def build? : List String → Fields → List Statement → Option Fields
  | _, fs, [] => some fs
  | here, fs, .entry ks v :: rest => (within (assign v ks) here fs).bind fun fs => build? here fs rest
  | _, fs, .table p :: rest =>
    let (way, k) := splitPath p
    (within (openTable k) way fs).bind fun fs => build? p fs rest
  | _, fs, .another p :: rest =>
    let (way, k) := splitPath p
    (within (addTable k) way fs).bind fun fs => build? p fs rest

/-- The characters of a text without a byte order mark at its beginning. -/
def content (s : String) : List Char :=
  match s.toList with
  | '\uFEFF' :: cs => cs
  | cs => cs

/-- The outermost table of a text. -/
def read? (s : String) : Option Fields :=
  let cs := content s
  (statements? (cs.length + 1) cs).bind (build? [] [])

end Intake.Toml
