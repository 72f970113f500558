import Intake.Config
import Intake.Toml.Document

/-! # A configuration from its text

`Config.ofText?` reads a configuration from a text in TOML.  What the text does not say
keeps its standard value, and names that mean nothing are passed over.  A section may be
written as a table or as the list of its values in their order.  A value of the wrong
kind spoils the whole text. -/

namespace Intake.Config

open Toml

/-- The entries of a section: of a list those that go with the names.  A date is taken for
    a table without any entry that means something. -/
def section? (names : List String) : Node → Option Fields
  | .table _ fs => some fs
  | .array vs => some (names.zip vs)
  | .tables gs => some (names.zip (gs.map (.table .header)))
  | .moment => some []
  | _ => none

/-- The value of an entry, which may be absent. -/
def entry? {α : Type} (decode : Node → Option α) (absent : α) (fs : Fields) (k : String) :
    Option α :=
  match Table.lookup k fs with
  | some v => decode v
  | none => some absent

/-- A text. -/
def text? : Node → Option String
  | .text s => some s
  | _ => none

/-- A truth value. -/
def flag? : Node → Option Bool
  | .flag b => some b
  | _ => none

/-- A number that is not negative. -/
def number? : Node → Option Nat
  | .integer (.ofNat n) => some n
  | _ => none

/-- Whether a value holds nothing. -/
def isEmpty : Node → Bool
  | .table _ [] | .array [] | .tables [] => true
  | _ => false

/-- A policy by its exact name, which may also be the only entry of a table, with nothing
    in it. -/
def policy? : Node → Option DeletePolicy
  | .text s => DeletePolicy.ofName? s
  | .table _ [(k, v)] => if isEmpty v then DeletePolicy.ofName? k else none
  | _ => none

/-- A value that, where it is there, is not absent. -/
def present? {α : Type} (decode : Node → Option α) (v : Node) : Option (Option α) :=
  (decode v).map some

/-- The service. -/
def sqs? (v : Node) : Option SqsOptions := do
  let fs ← section? ["region", "endpoint_url", "auto_create_queues"] v
  let o := SqsOptions.standard
  return { region := ← entry? text? o.region fs "region"
           endpoint := ← entry? (present? text?) o.endpoint fs "endpoint_url"
           autoCreate := ← entry? flag? o.autoCreate fs "auto_create_queues" }

/-- The settings of the listener, and whether every queue is started at once. -/
def listener? (v : Node) : Option (ListenerSettings × Bool) := do
  let fs ← section? ["backoff_time_ms", "queue_stop_timeout_ms", "min_slot_wait_ms",
    "empty_poll_delay_ms", "auto_startup", "pool_shutdown_timeout_ms", "base_workers_per_queue",
    "max_workers"] v
  let o := ListenerSettings.standard
  let settings : ListenerSettings :=
    { backoff := ← entry? number? o.backoff fs "backoff_time_ms"
      stopTimeout := ← entry? number? o.stopTimeout fs "queue_stop_timeout_ms"
      minSlotWait := ← entry? number? o.minSlotWait fs "min_slot_wait_ms"
      emptyDelay := ← entry? number? o.emptyDelay fs "empty_poll_delay_ms"
      workersPerQueue := ← entry? number? o.workersPerQueue fs "base_workers_per_queue"
      maxWorkers := ← entry? (present? number?) o.maxWorkers fs "max_workers"
      drainTimeout := ← entry? number? o.drainTimeout fs "pool_shutdown_timeout_ms" }
  return (settings, ← entry? flag? Config.standard.autoStart fs "auto_startup")

/-- What holds for all queues. -/
def defaults? (v : Node) : Option QueueDefaults := do
  let fs ← section? ["max_batch_size", "visibility_timeout_secs", "wait_time_secs",
    "deletion_policy"] v
  let o := QueueDefaults.standard
  return { batch := ← entry? number? o.batch fs "max_batch_size"
           visibility := ← entry? (present? number?) o.visibility fs "visibility_timeout_secs"
           wait := ← entry? (present? number?) o.wait fs "wait_time_secs"
           policy := ← entry? policy? o.policy fs "deletion_policy" }

/-- A name without the blanks around it. -/
def name? (v : Node) : Option String := (text? v).map Text.trim

/-- A queue. -/
def queue? (v : Node) : Option QueueEntry := do
  let fs ← section? ["name", "max_batch_size", "visibility_timeout_secs", "wait_time_secs",
    "deletion_policy", "wake_threshold"] v
  let o := QueueEntry.blank
  return { name := ← entry? name? o.name fs "name"
           batch := ← entry? (present? number?) o.batch fs "max_batch_size"
           visibility := ← entry? (present? number?) o.visibility fs "visibility_timeout_secs"
           wait := ← entry? (present? number?) o.wait fs "wait_time_secs"
           policy := ← entry? (present? policy?) o.policy fs "deletion_policy"
           wake := ← entry? (present? number?) o.wake fs "wake_threshold" }

/-- The queues. -/
def queues? : Node → Option (List QueueEntry)
  | .array vs => vs.mapM queue?
  | .tables gs => gs.mapM fun g => queue? (.table .header g)
  | _ => none

/-- A configuration from the outermost table of a text. -/
def decode? (fs : Fields) : Option Config := do
  let o := Config.standard
  let sqs ← entry? sqs? o.sqs fs "sqs"
  let (listener, autoStart) ← entry? listener? (o.listener, o.autoStart) fs "container"
  let defaults ← entry? defaults? o.defaults fs "defaults"
  let queues ← entry? queues? o.queues fs "queues"
  let inMemory ← entry? flag? o.inMemory fs "dev_mode"
  return { sqs, listener, autoStart, defaults, queues, inMemory }

/-- The configuration that a text holds. -/
def ofText? (s : String) : Option Config := (Toml.read? s).bind decode?

end Intake.Config
