import Intake.Service
import Intake.Service.EnvFile
import Intake.Service.LogFilter
import Std.Time.DateTime.Timestamp

/-! # The command line

The program takes the path of a configuration as its only argument.  It runs until its
standard input ends. -/

namespace Intake.CommandLine

/-- What there is at a path. -/
def readFile (path : String) : IO (Option (Except ReadFailure String)) := do
  try
    return some (textOfBytes (← IO.FS.readBinFile path))
  catch
    | .inappropriateType .. => return some (.error .isDirectory)
    | _ => return none

/-- The files at some paths. -/
def readFiles (paths : List String) : IO Files := do
  let found ← paths.mapM fun p => return (p, ← readFile p)
  return fun p => (Table.lookup p found).join

/-- The variables with some names. -/
def readEnvironment (names : List String) : IO Environment := do
  let found ← names.mapM fun n => return (n, ← IO.getEnv n)
  return fun n => (Table.lookup n found).join

/-- The variables that matter. -/
def variableNames : List String :=
  [Config.pathVariable, "QL_SQS_REGION", "QL_SQS_ENDPOINT_URL", "QL_SQS_AUTO_CREATE_QUEUES",
   "QL_BACKOFF_TIME_MS", "QL_QUEUE_STOP_TIMEOUT_MS", "QL_EMPTY_POLL_DELAY_MS", "QL_AUTO_STARTUP",
   "QL_QUEUES", "QL_DEV_MODE", "LOG_FORMAT", "RUST_LOG"]

/-- The names that occur in a text. -/
def namesIn (s : String) : List String :=
  (s.toList.splitBy fun a b => isNameChar a == isNameChar b).map String.ofList
where
  /-- Whether a character may stand in a name. -/
  isNameChar (c : Char) : Bool := c.isAlphanum || c = '_' || c = '.'

/-- The environment with the variables of the file in the current directory. -/
def environment : IO Environment := do
  match ← readFile ".env" with
  | some (.ok s) => return EnvFile.load (← readEnvironment (variableNames ++ namesIn s)) s
  | _ => readEnvironment variableNames

/-- Write reports to the log. -/
def log (env : Environment) (rs : List Report) : IO Unit := do
  let out ← IO.getStdout
  for e in Report.logged env rs do
    out.putStrLn (if LogEntry.isStructured env then e.toJson.render else e.toLine)
  out.flush

/-- Let the program go on until a condition holds; what it reports is logged. -/
partial def goOn (env : Environment) (began : Nat) (done : Service → IO Bool) (s : Service) :
    IO Service := do
  let now := (← IO.monoMsNow) - began
  let s := Service.timeline.settle now s
  log env s.reports.reverse
  let s := { s with reports := [] }
  if ← done s then return s
  let rest := ((Service.timeline.next? s).getD (now + 100)) - now
  IO.sleep (min (max rest 1) 100).toUInt32
  goOn env began done s

/-- Read the standard input to its end. -/
partial def drainInput (input : IO.FS.Stream) : IO Unit := do
  unless (← input.getLine).isEmpty do drainInput input

/-- Milliseconds on the wall clock. -/
def wallClock : IO Nat :=
  return (← Std.Time.Timestamp.now).toMillisecondsSinceUnixEpoch.toInt.toNat

/-- Run the program. -/
def run (args : List String) : IO UInt32 := do
  let env ← environment
  let files ← readFiles (Config.candidates env args.head?)
  let (reports, loaded) := Service.load files env args.head?
  log env reports
  match loaded with
  | .error e =>
    (← IO.getStderr).putStr e.complaint
    return 1
  | .ok c =>
    let began ← IO.monoMsNow
    let ended ← IO.asTask (drainInput (← IO.getStdin))
    let s ← goOn env began (fun _ => IO.hasFinished ended) (Service.launch c (← wallClock))
    let s ← goOn env began (fun s => return s.isClosed) (s.beginClose ((← IO.monoMsNow) - began))
    log env s.finishClose.reports
    return 0

end Intake.CommandLine

def main (args : List String) : IO UInt32 := Intake.CommandLine.run args
