import Intake.Config.Load
import Intake.Table

/-! # Files in a directory

A `FileTree` is a directory with what is below it.  A path is followed part by part from
a directory: an empty part and `.` stay where they are, `..` goes back, and every part
but the last has to be a directory (`FileTree.files`). -/

namespace Intake

/-- A file or a directory. -/
inductive FileTree
  | file (bytes : ByteArray)
  | directory (entries : List (String × FileTree))

namespace FileTree

/-- A directory without entries. -/
def empty : FileTree := .directory []

/-- The entries of a directory; a file has none. -/
def entries : FileTree → List (String × FileTree)
  | .directory es => es
  | .file _ => []

/-- Put something at a path, making directories on the way. -/
def insert (x : FileTree) : List String → FileTree → FileTree
  | [], _ => x
  | p :: ps, t =>
    let below := (Table.lookup p t.entries).getD empty
    .directory (Table.put p (insert x ps below) t.entries)

/-- The parts of a path. -/
def parts (path : String) : List String := (Text.splitAt '/' path.toList).map String.ofList

/-- Follow the parts of a path from something that lies in some directories, the innermost
    first.  Outside of the outermost there are only directories with nothing else in them. -/
def follow : FileTree → List FileTree → List String → Option FileTree
  | t, _, [] => some t
  | .file _, _, _ :: _ => none
  | .directory es, above, p :: ps =>
    if p = "" ∨ p = "." then follow (.directory es) above ps
    else if p = ".." then
      match above with
      | t :: above => follow t above ps
      | [] => follow empty [] ps
    else
      match Table.lookup p es with
      | some t => follow t (.directory es :: above) ps
      | none => none

/-- What there is at a path in a directory.  A path that begins with a slash is looked for
    in a root with nothing in it. -/
def at? (t : FileTree) (path : String) : Option FileTree :=
  match path.toList with
  | [] => none
  | '/' :: rest => follow empty [] (parts (String.ofList rest))
  | _ => follow t [] (parts path)

/-- How something is read as a text. -/
def content : FileTree → Except ReadFailure String
  | .file bytes => textOfBytes bytes
  | .directory _ => .error .isDirectory

/-- The files in a directory. -/
def files (t : FileTree) : Files := fun path => (t.at? path).map content

end FileTree

end Intake
