import Intake.Config
import Intake.Text.Decimal
import Intake.Text.Search
import Intake.Word

/-! # Overriding a configuration

Some settings can be overridden from the environment, each by a variable of its own
(`Config.override`).  A number that cannot be read is ignored; a truth value that cannot
be read has its standard value.  The names in `QL_QUEUES` are added to the queues. -/

namespace Intake

/-- The variables of an environment. -/
abbrev Environment := String → Option String

namespace Config

/-- A number of 64 bits from a variable, or else its old value. -/
def overrideNumber (env : Environment) (key : String) (old : Nat) : Nat :=
  ((env key).bind (Text.unsigned? size64)).getD old

/-- A truth value from a variable: the old one if the variable is not set, a fixed one if
    it holds something else. -/
def overrideFlag (env : Environment) (key : String) (otherwise old : Bool) : Bool :=
  match env key with
  | some s => (Text.bool? s).getD otherwise
  | none => old

/-- Override how the service is reached; an empty endpoint is none. -/
def overrideSqs (env : Environment) (o : SqsOptions) : SqsOptions :=
  { region := (env "QL_SQS_REGION").getD o.region
    endpoint := match env "QL_SQS_ENDPOINT_URL" with
      | some s => if s = "" then none else some s
      | none => o.endpoint
    autoCreate := overrideFlag env "QL_SQS_AUTO_CREATE_QUEUES" false o.autoCreate }

/-- Override the settings of the listener. -/
def overrideListener (env : Environment) (s : ListenerSettings) : ListenerSettings :=
  { s with
    backoff := overrideNumber env "QL_BACKOFF_TIME_MS" s.backoff
    stopTimeout := overrideNumber env "QL_QUEUE_STOP_TIMEOUT_MS" s.stopTimeout
    emptyDelay := overrideNumber env "QL_EMPTY_POLL_DELAY_MS" s.emptyDelay }

/-- The names in a list that is separated by commas, without blanks around them; empty ones
    are left out. -/
def listedNames (s : String) : List String :=
  ((Text.splitAt ',' s.toList).map fun cs => Text.trim (String.ofList cs)).filter (· ≠ "")

/-- Add queues by name; a name that is there already is passed over. -/
def addQueues (qs : List QueueEntry) : List String → List QueueEntry
  | [] => qs
  | n :: ns => addQueues (if qs.any (·.name = n) then qs else qs ++ [.named n]) ns

/-- Override a configuration from an environment. -/
def override (env : Environment) (c : Config) : Config :=
  { c with
    sqs := overrideSqs env c.sqs
    listener := overrideListener env c.listener
    autoStart := overrideFlag env "QL_AUTO_STARTUP" true c.autoStart
    queues := match env "QL_QUEUES" with
      | some s => addQueues c.queues (listedNames s)
      | none => c.queues
    inMemory := overrideFlag env "QL_DEV_MODE" false c.inMemory }

end Config

end Intake
