import Intake.Listener.Build
import Intake.Listener.Poller
import Intake.Text.Search

/-! # A broker that follows a script

For each queue a script says what the receive calls return, one step for each call, and
how long each takes.  A call beyond the script returns nothing after the time that it
was asked to wait.  Which look-ups and deletions fail is fixed beforehand. -/

namespace Intake

/-- One step of a script. -/
structure ScriptStep where
  /-- How long the call takes, if not as long as usual. -/
  latency : Option Nat
  answer : Answer
deriving DecidableEq, Repr

/-- A broker that follows a script. -/
structure ScriptedBroker where
  scripts : Table (List ScriptStep)
  /-- How long a receive call takes. -/
  latency : Nat
  /-- Names of queues that cannot be found. -/
  missing : List String
  /-- How many look-ups of attributes are still to fail. -/
  attributeFailures : Nat
  /-- Names of queues with a dead-letter queue. -/
  redrive : List String
  /-- Receipts whose deletion is refused. -/
  refusedDeletes : List String
  /-- Receipts for whose deletion the queue is not found. -/
  lostDeletes : List String
deriving DecidableEq, Repr

namespace ScriptedBroker

/-- What begins every destination of a scripted broker. -/
def scheme : String := "scripted://"

/-- The destination of a queue. -/
def destination (name : String) : String := scheme ++ name

/-- The queue that a destination names. -/
def queueName (dest : String) : String :=
  match Text.stripStart? scheme.toList dest.toList with
  | some cs => String.ofList cs
  | none => dest

/-- The destination of a name. -/
def resolve (b : ScriptedBroker) (name : String) : Except BrokerError String :=
  if name ∈ b.missing then .error (.unknownQueue name) else .ok (destination name)

/-- Whether the queue at a destination has a dead-letter queue. -/
def hasRedrive (b : ScriptedBroker) (dest : String) : Except BrokerError Bool × ScriptedBroker :=
  if 0 < b.attributeFailures then
    (.error (.refused "attributes unavailable"),
      { b with attributeFailures := b.attributeFailures - 1 })
  else (.ok (decide (queueName dest ∈ b.redrive)), b)

/-- Add a step to the script of a queue. -/
def push (b : ScriptedBroker) (name : String) (s : ScriptStep) : ScriptedBroker :=
  { b with scripts := b.scripts.set name ((b.scripts.get? name).getD [] ++ [s]) }

/-- A receive call takes the next step of the script: how long it takes, and what it
    returns then. -/
def receive (b : ScriptedBroker) (r : ReceiveRequest) : (Nat × Answer) × ScriptedBroker :=
  let name := queueName r.destination
  match b.scripts.get? name with
  | some (s :: rest) =>
    ((s.latency.getD b.latency, s.answer), { b with scripts := b.scripts.set name rest })
  | _ => ((b.latency + r.wait.getD 0, .batch []), b)

/-- Delete what was delivered under a receipt. -/
def delete (b : ScriptedBroker) (dest receipt : String) : Except BrokerError Unit :=
  if receipt ∈ b.refusedDeletes then .error (.refused ("cannot delete " ++ receipt))
  else if receipt ∈ b.lostDeletes then .error (.unknownQueue dest)
  else .ok ()

end ScriptedBroker

end Intake
