import Intake.DeletePolicy
import Intake.Failure
import Intake.Text.Quoted

/-! # Notices

What the listener reports about itself.  A `Notice` says what happened; `level`,
`text` and `fields` say how it is written down. -/

namespace Intake

/-- How serious a notice is. -/
inductive Level
  | info
  | warn
  | error
deriving DecidableEq, Repr

/-- The name of a level. -/
def Level.name : Level → String
  | .info => "INFO"
  | .warn => "WARN"
  | .error => "ERROR"

/-- A value in a notice. -/
inductive FieldValue
  | text (s : String)
  | number (n : Nat)
  | flag (b : Bool)
deriving DecidableEq, Repr

/-- A value in a notice as text. -/
def FieldValue.toText : FieldValue → String
  | .text s => s
  | .number n => toString n
  | .flag b => if b then "true" else "false"

/-- What the listener reports. -/
inductive Notice
  /-- A queue was registered a second time. -/
  | repeated (queue : String)
  /-- A queue was registered with batches of nothing. -/
  | emptyBatch (queue : String)
  | unresolved (queue : String) (cause : ListenerError)
  /-- The listener is built. -/
  | ready (queues core limit : Nat)
  | queueStarted (queue : String)
  | queueStopped (queue : String)
  | pollerStarted (queue : String) (batch : Nat) (policy : DeletePolicy)
  | pollerStopped (queue : String)
  | receiveFailed (queue : String) (cause : BrokerError) (backoff : Nat)
  /-- The broker delivered more than there were free slots. -/
  | surplus (queue : String) (id : Option String)
  /-- The workers turned a message away. -/
  | turnedAway (queue : String)
  /-- A handler failed and the message stays. -/
  | keptAfterFailure (queue id : String) (cause : HandlerError)
  /-- A handler failed under a policy that says more about what follows. -/
  | handlerFailed (queue id : String) (policy : DeletePolicy) (cause : HandlerError)
  | deleteFailed (queue id : String) (cause : BrokerError)
  | stopTimedOut (queue : String) (after : Nat)
  /-- A poller broke off. -/
  | pollerBroken (queue text : String)
  | shuttingDown
  /-- All workers were free; so many tasks were at work when the wait began. -/
  | workersDone (active : Nat)
  | workersCutOff (active after : Nat)
  | shutDown
  /-- The service made a queue. -/
  | queueCreated (queue url : String)
  /-- The service delivered a message that cannot be deleted. -/
  | noReceipt (destination : String) (id : Option String)
deriving DecidableEq, Repr

namespace Notice

/-- How serious a notice is. -/
def level : Notice → Level
  | emptyBatch _ | pollerBroken _ _ | keptAfterFailure _ _ _ => .error
  | repeated _ | unresolved _ _ | receiveFailed _ _ _ | surplus _ _ | turnedAway _
  | handlerFailed _ _ _ _ | deleteFailed _ _ _ | stopTimedOut _ _ | workersCutOff _ _
  | noReceipt _ _ => .warn
  | ready _ _ _ | queueStarted _ | queueStopped _ | pollerStarted _ _ _ | pollerStopped _
  | shuttingDown | workersDone _ | shutDown | queueCreated _ _ => .info

/-- The wording of a notice. -/
def text : Notice → String
  | repeated _ => "Queue registered twice, keeping the first registration"
  | emptyBatch _ => "Queue max_batch_size must be at least 1, skipping queue"
  | unresolved _ _ => "Queue could not be resolved, skipping"
  | ready _ _ _ => "Message listener container initialized"
  | queueStarted _ => "Queue started"
  | queueStopped _ => "Queue stopped"
  | pollerStarted _ _ _ => "Queue poller started"
  | pollerStopped _ => "Queue poller stopped"
  | receiveFailed _ _ _ => "Failed to receive messages, backing off"
  | surplus _ _ => "Broker returned more messages than free slots, leaving message leased"
  | turnedAway _ => "Worker pool rejected message"
  | keptAfterFailure _ _ _ => "Handler failed, message left on queue for redelivery"
  | handlerFailed _ _ _ _ => "Handler failed"
  | deleteFailed _ _ _ => "Failed to delete message"
  | stopTimedOut _ _ => "Timed out waiting for queue poller to stop"
  | pollerBroken _ _ => "Queue poller task failed"
  | shuttingDown => "Shutting down message listener container"
  | workersDone _ => "Worker pool shut down"
  | workersCutOff _ _ => "Worker pool shutdown timed out with tasks still running"
  | shutDown => "Message listener container shut down"
  | queueCreated _ _ => "Created SQS queue"
  | noReceipt _ _ => "Skipping SQS message without receipt handle"

/-- The name of the task in which a poller runs; the number is not told. -/
def brokenTask (text : String) : String :=
  "task N panicked with message " ++ Text.quoted text

/-- The values in a notice under their names. -/
def fields : Notice → List (String × FieldValue)
  | repeated q | emptyBatch q | queueStarted q | queueStopped q | pollerStopped q =>
    [("queue", .text q)]
  | unresolved q e => [("queue", .text q), ("error", .text e.message)]
  | ready n core limit =>
    [("queues", .number n), ("pool_core_size", .number core), ("pool_max_size", .number limit)]
  | pollerStarted q b p =>
    [("queue", .text q), ("max_batch_size", .number b), ("deletion_policy", .text p.name)]
  | receiveFailed q e b =>
    [("queue", .text q), ("error", .text e.message), ("backoff_ms", .number b)]
  | surplus q id => [("queue", .text q), ("message_id", .text (Text.quotedOption id))]
  | turnedAway q => [("queue", .text q), ("error", .text ListenerError.poolClosed.message)]
  | keptAfterFailure q id e =>
    [("queue", .text q), ("message_id", .text id), ("error", .text e.message)]
  | handlerFailed q id p e =>
    [("queue", .text q), ("message_id", .text id), ("deletion_policy", .text p.name),
     ("error", .text e.message)]
  | deleteFailed q id e =>
    [("queue", .text q), ("message_id", .text id), ("error", .text e.message)]
  | stopTimedOut q t => [("queue", .text q), ("timeout_ms", .number t)]
  | pollerBroken q t => [("queue", .text q), ("error", .text (brokenTask t))]
  | workersDone n => [("completed", .number n)]
  | workersCutOff n t => [("still_active", .number n), ("timeout_ms", .number t)]
  | queueCreated q url => [("queue", .text q), ("url", .text url)]
  | noReceipt dest id => [("destination", .text dest), ("message_id", .text (Text.quotedOption id))]
  | shuttingDown | shutDown => []

end Notice

end Intake
