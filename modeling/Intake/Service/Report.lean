import Intake.Json
import Intake.Notice
import Intake.Source

/-! # What the program reports

The program reports what the listener reports and what it does itself.  A `Report` is
written down as a `LogEntry`: a level, the part of the program that speaks, a text and
values under their names. -/

namespace Intake

/-- What the program reports. -/
inductive Report
  /-- The file that was asked for does not exist. -/
  | pathMissing (path : String)
  | loading (path : String)
  | starting (queues : Nat) (inMemory : Bool)
  | usingMemory
  | customEndpoint (endpoint : String)
  /-- Not one queue could be resolved. -/
  | nothingToServe
  | autoStartOff
  | received (letter : Letter)
  | heartbeatFailed (queue : String) (cause : BrokerError)
  /-- The program has been told to stop. -/
  | signalled
  | stopped
  | listener (n : Notice)

/-- A line of the log. -/
structure LogEntry where
  level : Level
  /-- The part of the program that speaks. -/
  scope : String
  text : String
  fields : List (String × FieldValue)
deriving DecidableEq, Repr

namespace Report

/-- The part of the program that reports something. -/
def scope : Report → String
  | pathMissing _ | loading _ => "ql_config"
  | customEndpoint _ | listener (.queueCreated _ _) | listener (.noReceipt _ _) => "ql_queue"
  | listener _ => "ql_container"
  | _ => "ql_listener"

/-- How serious a report is. -/
def level : Report → Level
  | pathMissing _ | nothingToServe | heartbeatFailed _ _ => .warn
  | listener n => n.level
  | _ => .info

/-- The wording of a report. -/
def text : Report → String
  | pathMissing _ => "Configured path does not exist, searching defaults"
  | loading _ => "Loading configuration from file"
  | starting _ _ => "Starting queue listener"
  | usingMemory => "Using in-memory broker"
  | customEndpoint _ => "Configuring SQS client with custom endpoint"
  | nothingToServe => "No queues could be resolved, nothing to listen to"
  | autoStartOff => "Auto startup disabled, queues stay stopped"
  | received _ => "Received message"
  | heartbeatFailed _ _ => "Failed to publish heartbeat"
  | signalled => "Shutdown signal received"
  | stopped => "Queue listener stopped"
  | listener n => n.text

/-- The values in a report under their names. -/
def fields : Report → List (String × FieldValue)
  | pathMissing p | loading p => [("path", .text (Text.quoted p))]
  | starting n m => [("queues", .number n), ("dev_mode", .flag m)]
  | customEndpoint e => [("endpoint", .text e)]
  | received l =>
    [("queue", .text (l.queueName.getD "")),
     ("message_id", .text ((l.headers.get? idHeader).getD "")),
     ("payload_bytes", .number l.payload.utf8ByteSize)]
  | heartbeatFailed q e => [("queue", .text q), ("error", .text e.message)]
  | listener n => n.fields
  | usingMemory | nothingToServe | autoStartOff | signalled | stopped => []

/-- A report as a line of the log. -/
def entry (r : Report) : LogEntry := ⟨r.level, r.scope, r.text, r.fields⟩

end Report

/-- A value in a report as JSON. -/
def FieldValue.toJson : FieldValue → Json
  | .text s => .str s
  | .number n => .nat n
  | .flag b => .bool b

namespace LogEntry

/-- A line of the log for machines. -/
def toJson (e : LogEntry) : Json :=
  Json.mkObj ([("level", .str e.level.name), ("message", .str e.text), ("target", .str e.scope)]
    ++ e.fields.map fun f => (f.1, f.2.toJson))

/-- A line of the log for people. -/
def toLine (e : LogEntry) : String :=
  String.join ([e.level.name, " ", e.scope, ": ", e.text]
    ++ e.fields.map fun f => " " ++ f.1 ++ "=" ++ f.2.toText)

/-- Whether an environment wants the log for machines. -/
def isStructured (env : String → Option String) : Bool :=
  (env "LOG_FORMAT").any fun s => s.toLower = "json"

end LogEntry

end Intake
