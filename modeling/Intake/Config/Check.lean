import Intake.Config

/-! # Checking a configuration

`Config.fault?` finds the first rule that a configuration breaks: first the rules about
the workers, then for one queue after another the rules about its name, its batch and
its wake threshold.  The service sets one more limit (`Config.sqsFault?`). -/

namespace Intake

/-- A rule that a configuration breaks. -/
inductive ConfigFault
  | noWorkersPerQueue
  | noWorkers
  | emptyName
  /-- A queue before has the same name. -/
  | duplicateName (name : String)
  | emptyBatch (name : String)
  /-- The wake threshold is not between one and the batch size. -/
  | wakeOutOfRange (name : String) (batch : Nat)
  /-- The batch is larger than the service allows. -/
  | batchTooLarge (name : String) (batch : Nat)
deriving DecidableEq, Repr

/-- The largest batch that the service hands out. -/
def sqsBatchLimit : Nat := 10

/-- The wording of a broken rule. -/
def ConfigFault.message : ConfigFault → String
  | .noWorkersPerQueue => "container.base_workers_per_queue must be at least 1"
  | .noWorkers => "container.max_workers must be at least 1"
  | .emptyName => "queue name must not be empty"
  | .duplicateName n => "duplicate queue name: " ++ n
  | .emptyBatch n => "queue " ++ n ++ ": max_batch_size must be at least 1"
  | .wakeOutOfRange n b =>
    "queue " ++ n ++ ": wake_threshold must be between 1 and " ++ toString b
  | .batchTooLarge n b =>
    "queue " ++ n ++ ": max_batch_size " ++ toString b ++ " exceeds the SQS limit of "
      ++ toString sqsBatchLimit

namespace Config

/-- The first rule that a queue breaks after queues with some names. -/
def queueFault? (c : Config) (before : List String) (q : QueueEntry) : Option ConfigFault :=
  let name := Text.trim q.name
  if name = "" then some .emptyName
  else if name ∈ before then some (.duplicateName name)
  else if c.batch q = 0 then some (.emptyBatch name)
  else
    match q.wake with
    | some w =>
      if w = 0 ∨ c.batch q < w then some (.wakeOutOfRange name (c.batch q)) else none
    | none => none

/-- The first rule that one of some queues breaks after queues with some names. -/
def queuesFault? (c : Config) (before : List String) : List QueueEntry → Option ConfigFault
  | [] => none
  | q :: qs =>
    match c.queueFault? before q with
    | some f => some f
    | none => c.queuesFault? (Text.trim q.name :: before) qs

/-- The first rule that a configuration breaks. -/
def fault? (c : Config) : Option ConfigFault :=
  if c.listener.workersPerQueue = 0 then some .noWorkersPerQueue
  else if c.listener.maxWorkers = some 0 then some .noWorkers
  else c.queuesFault? [] c.queues

/-- The first rule that a configuration breaks when its queues are in the service. -/
def sqsFault? (c : Config) : Option ConfigFault :=
  match c.fault? with
  | some f => some f
  | none =>
    (c.queues.find? fun q => sqsBatchLimit < c.batch q).map fun q =>
      .batchTooLarge q.name (c.batch q)

end Config

end Intake
