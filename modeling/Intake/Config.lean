import Intake.Listener.Basic
import Intake.Text.Blank

/-! # The configuration

A `Config` holds what can be set from outside.  Durations of the listener are in
milliseconds; those of the queues are in whole seconds.  What a queue leaves open is
taken from the defaults for all queues (`Config.options`). -/

namespace Intake

/-- How the Simple Queue Service is reached. -/
structure SqsOptions where
  region : String
  /-- Where it is, if not at its usual place. -/
  endpoint : Option String
  /-- Whether a queue that does not exist is made. -/
  autoCreate : Bool
deriving DecidableEq, Repr

/-- The service in its first region, as it is. -/
def SqsOptions.standard : SqsOptions := ⟨"us-east-1", none, false⟩

/-- What holds for every queue that does not say otherwise. -/
structure QueueDefaults where
  batch : Nat
  /-- Length of a lease, in seconds. -/
  visibility : Option Nat
  /-- Length of a long poll, in seconds. -/
  wait : Option Nat
  policy : DeletePolicy
deriving DecidableEq, Repr

/-- The defaults when nothing is said. -/
def QueueDefaults.standard : QueueDefaults :=
  ⟨QueueOptions.standard.batch, none, none, QueueOptions.standard.policy⟩

/-- A configured queue; what is absent is taken from the defaults. -/
structure QueueEntry where
  name : String
  batch : Option Nat
  /-- Length of a lease, in seconds. -/
  visibility : Option Nat
  /-- Length of a long poll, in seconds. -/
  wait : Option Nat
  policy : Option DeletePolicy
  /-- How many slots have to be free to wake a waiting poller. -/
  wake : Option Nat
deriving DecidableEq, Repr

namespace QueueEntry

/-- A queue that says nothing, not even its name. -/
def blank : QueueEntry := ⟨"", none, none, none, none, none⟩

/-- A queue with a name, which loses the blanks around it, and nothing else. -/
def named (name : String) : QueueEntry := { blank with name := Text.trim name }

end QueueEntry

/-- What can be set from outside. -/
structure Config where
  sqs : SqsOptions
  listener : ListenerSettings
  /-- Whether every queue is started at once. -/
  autoStart : Bool
  defaults : QueueDefaults
  queues : List QueueEntry
  /-- Whether the queues are kept in memory instead of the service. -/
  inMemory : Bool
deriving DecidableEq, Repr

namespace Config

/-- The configuration when nothing is said. -/
def standard : Config :=
  { sqs := .standard, listener := .standard, autoStart := true, defaults := .standard,
    queues := [], inMemory := false }

/-- The milliseconds in some seconds. -/
def milliseconds (seconds : Nat) : Nat := 1000 * seconds

/-- The batch size of a queue. -/
def batch (c : Config) (q : QueueEntry) : Nat := q.batch.getD c.defaults.batch

/-- The options under which a queue is served. -/
def options (c : Config) (q : QueueEntry) : QueueOptions :=
  { batch := c.batch q
    visibility := (q.visibility.or c.defaults.visibility).map milliseconds
    wait := (q.wait.or c.defaults.wait).map milliseconds
    policy := q.policy.getD c.defaults.policy
    wake := q.wake }

/-- A text that sets most of what can be set. -/
def exampleText : String :=
"# Queue Listener Configuration
# Environment variables (QL_*) override these settings

dev_mode = false

[sqs]
region = \"us-east-1\"
# endpoint_url = \"http://localhost:4566\"
auto_create_queues = false

[container]
backoff_time_ms = 10000
queue_stop_timeout_ms = 10000
min_slot_wait_ms = 1000
empty_poll_delay_ms = 100
auto_startup = true
pool_shutdown_timeout_ms = 30000
base_workers_per_queue = 2
# max_workers = 40

[defaults]
max_batch_size = 10
# visibility_timeout_secs = 30
wait_time_secs = 20
deletion_policy = \"ON_SUCCESS\"  # ON_SUCCESS, ALWAYS, NO_REDRIVE, NEVER

[[queues]]
name = \"orders\"

[[queues]]
name = \"notifications\"
max_batch_size = 5
deletion_policy = \"NO_REDRIVE\"
"

end Config

end Intake
