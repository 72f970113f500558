import Intake.Rehearsal.FileTree
import Intake.Service
import Intake.Service.EnvFile
import Intake.Service.LogFilter

/-! # Rehearsing the program

The program runs in a directory with an environment and arguments.  It is told to stop
once its log holds a text so many times; what it leaves is an exit code, a text for the
user and a log (`Performance.run`). -/

namespace Intake

/-- Under what circumstances the program runs. -/
structure Performance where
  directory : FileTree
  arguments : List String
  environment : Environment
  /-- The text after which the program is told to stop. -/
  cue : String
  /-- How often it has to be logged. -/
  times : Nat

/-- What the program leaves. -/
structure Aftermath where
  exit : Nat
  /-- What the user is told. -/
  message : String
  /-- The lines of the log in order. -/
  log : List LogEntry

namespace Performance

/-- The environment with the variables of the directory's own file. -/
def fullEnvironment (p : Performance) : Environment :=
  match p.directory.files ".env" with
  | some (.ok s) => EnvFile.load p.environment s
  | _ => p.environment

/-- Whether it is time to tell the program to stop. -/
def isCued (p : Performance) (env : Environment) (rs : List Report) : Bool :=
  p.times ≤ (Report.logged env rs).countP fun e => Text.hasInfix p.cue.toList e.text.toList

/-- A performance is broken off after ten minutes. -/
def patience : Nat := 600000

/-- Let the program run. -/
def run (p : Performance) : Aftermath :=
  let env := p.fullEnvironment
  match Service.load p.directory.files env p.arguments.head? with
  | (reports, .error e) => ⟨1, e.complaint, Report.logged env reports⟩
  | (reports, .ok c) =>
    let (now, s) := Service.timeline.runUntil (fun s => p.isCued env (reports ++ s.reports))
      patience 0 (.launch c 0)
    let (_, s) := s.close now
    ⟨0, "", Report.logged env (reports ++ s.reports.reverse)⟩

end Performance

end Intake
