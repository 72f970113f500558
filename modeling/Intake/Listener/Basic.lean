import Intake.Lifecycle
import Intake.Notice
import Intake.Slots
import Intake.Source
import Intake.Workers

/-! # The listener

A `Listener` serves a set of queues.  Each running queue has a poller, which receives
messages as long as there are free slots and hands each message, together with a slot,
to a worker.  What is at work on one message is a `Job`.

The listener is a machine that reacts to what happens around it (`Listener.react` in
`Intake.Listener.React`).  This module holds its state: the pollers with what each of
them waits for, the jobs, and the calls (stop, shutdown) that have not returned.  What
the machine wants done is collected in `outbox`, newest first. -/

namespace Intake

/-- Durations, in milliseconds, and sizes that hold for the whole listener. -/
structure ListenerSettings where
  /-- Rest after a failed receive call. -/
  backoff : Nat
  /-- Longest wait for a poller to stop. -/
  stopTimeout : Nat
  /-- Shortest wait for free slots. -/
  minSlotWait : Nat
  /-- Shortest time from one empty receive call to the next. -/
  emptyDelay : Nat
  /-- Workers that each queue is meant to keep busy. -/
  workersPerQueue : Nat
  /-- Number of workers, if it is fixed. -/
  maxWorkers : Option Nat
  /-- Longest wait for the workers at shutdown. -/
  drainTimeout : Nat
deriving DecidableEq, Repr

/-- The settings of a listener about which nothing is said. -/
def ListenerSettings.standard : ListenerSettings :=
  { backoff := 10000, stopTimeout := 10000, minSlotWait := 1000, emptyDelay := 100,
    workersPerQueue := 2, maxWorkers := none, drainTimeout := 30000 }

/-- A poller is known by its queue and the epoch for which it was started. -/
structure PollerId where
  queue : String
  epoch : Nat
deriving DecidableEq, Repr

/-- What a poller is about to do or waits for. -/
inductive Phase
  /-- It has been started and has not run yet. -/
  | fresh
  /-- It goes on with the next round as soon as it runs. -/
  | ready
  /-- It waits for free slots, at most until an instant. -/
  | awaitingSlot (deadline : Nat)
  /-- Its receive call, made at an instant, has not returned. -/
  | receiving (since : Nat)
  /-- It rests until an instant. -/
  | resting (deadline : Nat)
  /-- It waits for a worker for one message and has others left. -/
  | submitting (current : Delivery) (rest : List Delivery)
  /-- It has broken off. -/
  | broken (text : String)
deriving DecidableEq, Repr

namespace Phase

/-- Whether a poller in this phase listens for a stop. -/
def listens : Phase → Bool
  | awaitingSlot _ | resting _ => true
  | _ => false

/-- The instant for which a poller in this phase waits. -/
def deadline? : Phase → Option Nat
  | awaitingSlot t | resting t => some t
  | _ => none

end Phase

/-- A poller. -/
structure Poller where
  id : PollerId
  phase : Phase
  /-- Whether it has been told to stop while it did not listen. -/
  signalled : Bool
deriving DecidableEq, Repr

/-- A poller when slots of a queue are there for those who wait. -/
def Poller.awake (q : String) (x : Poller) : Poller :=
  match x.phase with
  | .awaitingSlot _ => if x.id.queue = q then { x with phase := .ready } else x
  | _ => x

/-- How far the work on a message is. -/
inductive JobPhase
  /-- A worker has it; the handler has not been called. -/
  | accepted
  /-- The handler is at work. -/
  | handling
  /-- The message is being deleted. -/
  | deleting
deriving DecidableEq, Repr

/-- The work on one message, which holds a slot of its queue and a worker. -/
structure Job where
  number : Nat
  queue : String
  delivery : Delivery
  phase : JobPhase
deriving DecidableEq, Repr

/-- What a pending call does once all its queues have stopped. -/
inductive CallGoal
  | stop
  | shutdown
deriving DecidableEq, Repr

/-- What a pending call waits for. -/
inductive CallWait
  /-- A poller has to end, at the latest at an instant. -/
  | poller (id : PollerId) (deadline : Nat)
  /-- All workers have to be free, at the latest at an instant; so many tasks were at
      work when the wait began. -/
  | workers (deadline active : Nat)
deriving DecidableEq, Repr

/-- The instant for which a pending call waits. -/
def CallWait.deadline : CallWait → Nat
  | .poller _ t | .workers t _ => t

/-- A call that has not returned. -/
structure Call where
  number : Nat
  goal : CallGoal
  /-- Queues still to be stopped after the one that it waits for. -/
  rest : List String
  wait : CallWait
deriving DecidableEq, Repr

/-- What the listener wants done. -/
inductive Effect
  | report (n : Notice)
  /-- Make a receive call for a poller with so many free slots. -/
  | receive (poller : PollerId) (free : Nat) (request : ReceiveRequest)
  /-- Call a handler with a message. -/
  | invoke (job : Nat) (handler : String) (letter : Letter)
  /-- Delete the message of a job. -/
  | delete (job : Nat) (destination receipt : String)
  /-- A call returns. -/
  | returned (call : Nat) (result : Except ListenerError Unit)

/-- A registered queue with its handler and its slots. -/
structure Station where
  source : Source
  handler : String
  slots : Slots
deriving DecidableEq, Repr

/-- The state of a listener. -/
structure Listener where
  settings : ListenerSettings
  polling : Polling
  stations : List Station
  lifecycle : Lifecycle
  workers : Workers PollerId
  pollers : List Poller
  jobs : List Job
  calls : List Call
  /-- Number of jobs so far. -/
  accepted : Nat
  /-- Built and not shut down. -/
  active : Bool
  outbox : List Effect

namespace Listener

/-! ## Queues and slots -/

/-- The station of a queue. -/
def station? (l : Listener) (q : String) : Option Station :=
  l.stations.find? (·.source.name = q)

/-- Free slots of a queue. -/
def freeSlots? (l : Listener) (q : String) : Option Nat := (l.station? q).map (·.slots.free)

/-- The registered queues in ascending order. -/
def registered (l : Listener) : List String := sortedTexts (l.stations.map (·.source.name))

/-- Change the slots of a queue. -/
def updateSlots (l : Listener) (q : String) (f : Slots → Slots) : Listener :=
  { l with stations := l.stations.map fun s =>
      if s.source.name = q then { s with slots := f s.slots } else s }

/-- Whether a poller's epoch is the one in which its queue is running. -/
def isCurrent (l : Listener) (p : PollerId) : Bool := l.lifecycle.isCurrent p.queue p.epoch

/-! ## Effects -/

/-- Want something done. -/
def emit (l : Listener) (e : Effect) : Listener := { l with outbox := e :: l.outbox }

/-- Report something. -/
def report (l : Listener) (n : Notice) : Listener := l.emit (.report n)

/-! ## Pollers -/

/-- The poller with an identity. -/
def poller? (l : Listener) (p : PollerId) : Option Poller := l.pollers.find? (·.id = p)

/-- Change one poller. -/
def updatePoller (l : Listener) (p : PollerId) (f : Poller → Poller) : Listener :=
  { l with pollers := l.pollers.map fun x => if x.id = p then f x else x }

/-- Give a poller a phase. -/
def setPhase (l : Listener) (p : PollerId) (ph : Phase) : Listener :=
  l.updatePoller p fun x => { x with phase := ph }

/-- A poller begins to wait in a way that a stop cuts short: if it has been told to stop
    already, it goes on at once. -/
def park (l : Listener) (p : PollerId) (ph : Phase) : Listener :=
  l.updatePoller p fun x =>
    if x.signalled then { x with phase := .ready, signalled := false } else { x with phase := ph }

/-- Tell a poller to stop. -/
def signal (l : Listener) (p : PollerId) : Listener :=
  l.updatePoller p fun x =>
    if x.phase.listens then { x with phase := .ready } else { x with signalled := true }

/-- A poller ends. -/
def retire (l : Listener) (p : PollerId) : Listener :=
  ({ l with pollers := l.pollers.filter (·.id ≠ p) } : Listener).report (.pollerStopped p.queue)

/-- Whether a poller is at work: it has neither ended nor broken off. -/
def isAlive (l : Listener) (p : PollerId) : Bool :=
  match l.poller? p with
  | some x => match x.phase with
    | .broken _ => false
    | _ => true
  | none => false

/-! ## Slots of a queue and who waits for them -/

/-- Take a slot of a queue, if one is free. -/
def takeSlot? (l : Listener) (q : String) : Option Listener :=
  match l.station? q with
  | some s => if 0 < s.slots.free then some (l.updateSlots q (·.acquire 1)) else none
  | none => none

/-- The pollers that wait for slots of a queue go on. -/
def wakeSlotWaiters (l : Listener) (q : String) : Listener :=
  { l with pollers := l.pollers.map (·.awake q) }

/-- A slot of a queue comes back; whoever waits goes on if enough are free. -/
def releaseSlot (l : Listener) (q : String) : Listener :=
  let l := l.updateSlots q (·.release 1)
  match l.station? q with
  | some s => if s.slots.wakes then l.wakeSlotWaiters q else l
  | none => l

end Listener

end Intake
