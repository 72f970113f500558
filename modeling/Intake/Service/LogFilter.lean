import Intake.Service.Report
import Intake.Text.Blank
import Intake.Text.Search

/-! # Which lines are logged

A `LogFilter` has a rule for each part of the program that it names, and perhaps one for
all others.  A rule is for every part whose name begins with its own, the longest such
rule counts, and it lets through what is serious enough.  A part without a rule is
silent. -/

namespace Intake

/-- Which levels pass, from zero, which is none, to five, which is more than there are. -/
abbrev Verbosity := Nat

/-- The least verbosity at which a level passes. -/
def Level.verbosity : Level → Verbosity
  | .error => 1
  | .warn => 2
  | .info => 3

/-- A rule of a filter. -/
structure LogRule where
  scope : String
  verbosity : Verbosity
deriving DecidableEq, Repr

/-- The rules of a filter. -/
abbrev LogFilter := List LogRule

namespace LogFilter

/-- What passes when nothing is said: all but what is only of interest to who works on the
    program. -/
def standard : LogFilter := [⟨"", 3⟩]

/-- The verbosity that a text names, in any case or as a digit. -/
def verbosity? (s : String) : Option Verbosity :=
  match s.toLower with
  | "off" | "0" => some 0
  | "error" | "1" => some 1
  | "warn" | "2" => some 2
  | "info" | "3" => some 3
  | "debug" | "4" => some 4
  | "trace" | "5" => some 5
  | _ => none

/-- The verbosity of a rule that names only a part of the program. -/
def full : Verbosity := 5

/-- Whether a rule can begin with a character. -/
def startsRule (c : Char) : Bool := c.isAlphanum || c = '-' || c = ':' || c = '_'

/-- A rule: a verbosity, a part of the program, or both with an equals sign between them. -/
def rule? (s : String) : Option LogRule :=
  let cs := (Text.trim s).toList
  if !(cs.head?.any startsRule) then none
  else
    match Text.splitAt '=' cs with
    | [word] =>
      let word := String.ofList word
      match verbosity? word with
      | some v => some ⟨"", v⟩
      | none => some ⟨word, full⟩
    | [scope, word] =>
      if word.isEmpty then some ⟨String.ofList scope, full⟩
      else (verbosity? (String.ofList word)).map fun v => ⟨String.ofList scope, v⟩
    | _ => none

/-- The filter that a text describes: rules with commas between them.  An empty text lets
    only errors through; a text with an error in it is not used at all. -/
def ofText (s : Option String) : LogFilter :=
  match s with
  | none => standard
  | some "" => [⟨"", 1⟩]
  | some s =>
    ((Text.splitAt ',' s.toList).mapM fun cs => rule? (String.ofList cs)).getD standard

/-- The rule for a part of the program: the longest that fits, and of equals the last. -/
def ruleFor? (f : LogFilter) (scope : String) : Option LogRule :=
  f.foldl (fun best r =>
    if !r.scope.toList.isPrefixOf scope.toList then best
    else match best with
      | some b => if b.scope.length ≤ r.scope.length then some r else some b
      | none => some r) none

/-- Whether a line is logged. -/
def passes (f : LogFilter) (e : LogEntry) : Bool :=
  (f.ruleFor? e.scope).any fun r => e.level.verbosity ≤ r.verbosity

end LogFilter

/-- What is logged of some reports under an environment. -/
def Report.logged (env : String → Option String) (rs : List Report) : List LogEntry :=
  (rs.map Report.entry).filter (LogFilter.ofText (env "RUST_LOG")).passes

end Intake
