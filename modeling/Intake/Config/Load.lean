import Intake.Config.Check
import Intake.Config.Decode
import Intake.Config.Override

/-! # Loading a configuration

The configuration is in the first file there is: the one that is asked for, the one that
`QL_CONFIG` names, or one of some usual places; without a file it has its standard
values.  The environment overrides it, and then it is checked (`Config.load`). -/

namespace Intake

/-- Why a file cannot be read as a text. -/
inductive ReadFailure
  | isDirectory
  | notText
deriving DecidableEq, Repr

/-- The wording of a failure to read. -/
def ReadFailure.message : ReadFailure → String
  | .isDirectory => "Is a directory (os error 21)"
  | .notText => "stream did not contain valid UTF-8"

/-- What there is at each path: nothing, a text, or something that cannot be read as one. -/
abbrev Files := String → Option (Except ReadFailure String)

/-- What a file with some bytes is when it is read as a text. -/
def textOfBytes (bytes : ByteArray) : Except ReadFailure String :=
  match String.fromUTF8? bytes with
  | some s => .ok s
  | none => .error .notText

/-- Why there is no configuration. -/
inductive ConfigError
  | unreadable (cause : ReadFailure)
  /-- The text is not well formed, or a value is of the wrong kind. -/
  | malformed
  | invalid (fault : ConfigFault)
deriving DecidableEq, Repr

/-- The wording of a failure; what exactly is wrong with a text is not told. -/
def ConfigError.message : ConfigError → String
  | .unreadable e => "Failed to read config file: " ++ e.message
  | .malformed => "Failed to parse TOML"
  | .invalid f => "Invalid configuration: " ++ f.message

namespace ConfigError

/-- The cause of a failure that has one of its own. -/
def cause? : ConfigError → Option String
  | .unreadable e => some e.message
  | _ => none

/-- What the user is told when there is no configuration. -/
def complaint (e : ConfigError) : String :=
  "Error: " ++ e.message ++ "\n" ++ match e.cause? with
    | some c => "\nCaused by:\n    " ++ c ++ "\n"
    | none => ""

end ConfigError

namespace Config

/-- Where a configuration is looked for. -/
def usualPaths : List String :=
  ["config.toml", "listener.toml", "./config/listener.toml", "/etc/ql-listener/config.toml"]

/-- The variable that names a file. -/
def pathVariable : String := "QL_CONFIG"

/-- The paths at which a configuration is looked for, in order. -/
def candidates (env : Environment) (path : Option String) : List String :=
  path.toList ++ (env pathVariable).toList ++ usualPaths

/-- The path of the first file there is. -/
def find? (files : Files) (env : Environment) (path : Option String) : Option String :=
  (candidates env path).find? fun p => (files p).isSome

/-- The configuration in a file. -/
def ofFile (content : Except ReadFailure String) : Except ConfigError Config :=
  match content with
  | .error e => .error (.unreadable e)
  | .ok s =>
    match ofText? s with
    | some c => .ok c
    | none => .error .malformed

/-- A configuration as it stands before the environment overrides it. -/
def unmodified (files : Files) (env : Environment) (path : Option String) :
    Except ConfigError Config :=
  match (find? files env path).bind files with
  | some content => ofFile content
  | none => .ok .standard

/-- A configuration that has been checked. -/
def checked (c : Config) : Except ConfigError Config :=
  match c.fault? with
  | some f => .error (.invalid f)
  | none => .ok c

/-- Load a configuration. -/
def load (files : Files) (env : Environment) (path : Option String) :
    Except ConfigError Config :=
  match unmodified files env path with
  | .error e => .error e
  | .ok c => checked (c.override env)

end Config

end Intake
