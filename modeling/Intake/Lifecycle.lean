import Intake.Table

/-! # Lifecycle of queues

Whether a queue is stopped, running or stopping, and in which epoch.  Each start opens
a new epoch, and a poller works for the epoch in which it was started; so a poller
that outlived a stop can never go on beside the one that replaced it. -/

namespace Intake

/-- Where a queue stands. -/
inductive Stage
  | stopped
  | running
  | stopping
deriving DecidableEq, Repr

/-- The name of a stage. -/
def Stage.name : Stage → String
  | .stopped => "STOPPED"
  | .running => "RUNNING"
  | .stopping => "STOPPING"

/-- The stage and the epoch of a queue. -/
structure Standing where
  stage : Stage
  epoch : Nat
deriving DecidableEq, Repr

/-- The standing of each known queue. -/
structure Lifecycle where
  queues : Table Standing
deriving DecidableEq, Repr

namespace Lifecycle

/-- No queue is known. -/
def empty : Lifecycle := ⟨.empty⟩

instance : Inhabited Lifecycle := ⟨empty⟩

/-- The standing of a queue. -/
def standing? (l : Lifecycle) (q : String) : Option Standing := l.queues.get? q

/-- The stage of a queue. -/
def stage? (l : Lifecycle) (q : String) : Option Stage := (l.standing? q).map (·.stage)

/-- Make a queue known as stopped; one that is known stays as it is. -/
def register (l : Lifecycle) (q : String) : Lifecycle :=
  if l.queues.contains q then l else ⟨l.queues.set q ⟨.stopped, 0⟩⟩

/-- The epoch that a start of the queue opens: none if it is unknown or running. -/
def nextEpoch? (l : Lifecycle) (q : String) : Option Nat :=
  match l.standing? q with
  | some s => if s.stage = .running then none else some (s.epoch + 1)
  | none => none

/-- Start a queue in the epoch that `nextEpoch?` names. -/
def beginStart (l : Lifecycle) (q : String) : Lifecycle :=
  match l.nextEpoch? q with
  | some e => ⟨l.queues.set q ⟨.running, e⟩⟩
  | none => l

/-- The epoch that a stop of the queue ends: none unless it is running. -/
def runningEpoch? (l : Lifecycle) (q : String) : Option Nat :=
  match l.standing? q with
  | some s => if s.stage = .running then some s.epoch else none
  | none => none

/-- Take a running queue to stopping. -/
def beginStop (l : Lifecycle) (q : String) : Lifecycle :=
  match l.runningEpoch? q with
  | some e => ⟨l.queues.set q ⟨.stopping, e⟩⟩
  | none => l

/-- Take a queue that is stopping in this epoch to stopped. -/
def finishStop (l : Lifecycle) (q : String) (epoch : Nat) : Lifecycle :=
  if l.standing? q = some ⟨.stopping, epoch⟩ then ⟨l.queues.set q ⟨.stopped, epoch⟩⟩ else l

/-- Forget every queue. -/
def clear (_ : Lifecycle) : Lifecycle := empty

/-- Whether a queue is running. -/
def isRunning (l : Lifecycle) (q : String) : Bool := l.stage? q = some .running

/-- Whether a poller of this epoch should go on. -/
def isCurrent (l : Lifecycle) (q : String) (epoch : Nat) : Bool :=
  l.standing? q = some ⟨.running, epoch⟩

/-- The running queues in ascending order. -/
def running (l : Lifecycle) : List String :=
  sortedTexts ((l.queues.entries.filter (·.2.stage = .running)).map (·.1))

/-- Whether any queue is running. -/
def anyRunning (l : Lifecycle) : Bool := l.queues.entries.any (·.2.stage = .running)

end Lifecycle

end Intake
