import Intake.Notice
import Intake.Timeline
import Intake.Workers

/-! # Workers in time

A `Shift` is a pool of workers with the tasks that it works on.  A task takes a fixed
time and then ends or breaks off; for the pool there is no difference. -/

namespace Intake

/-- A task for a worker. -/
structure Task where
  name : String
  duration : Nat
  /-- Whether it breaks off instead of ending. -/
  breaks : Bool
deriving DecidableEq, Repr

/-- What happens during a shift. -/
inductive ShiftEvent
  | began (task : String)
  | ended (task : String)
  /-- A submission has returned. -/
  | submitted (task : String) (r : Except ListenerError Unit)
  /-- A shutdown has returned. -/
  | shutDown (call : String) (drained : Bool)
  | notice (n : Notice)

/-- A task at work. -/
structure Stint where
  /-- The number of its submission. -/
  number : Nat
  task : Task
  /-- When it ends. -/
  due : Nat
deriving DecidableEq, Repr

/-- A shutdown that has not returned. -/
structure Closing where
  call : String
  timeout : Nat
  /-- When its time is over. -/
  deadline : Nat
  /-- Tasks at work when it began. -/
  active : Nat
deriving DecidableEq, Repr

/-- A pool of workers with its tasks. -/
structure Shift where
  /-- A ticket is the number of a submission. -/
  workers : Workers Nat
  /-- Submissions so far. -/
  submissions : Nat
  /-- Submissions that wait, with their tasks. -/
  waiting : List (Nat × Task)
  /-- Tasks at work. -/
  busy : List Stint
  /-- A shutdown in progress. -/
  closing : Option Closing
  /-- What happened, newest first. -/
  events : List (Nat × ShiftEvent)

namespace Shift

/-- An idle pool. -/
def ofSize (core limit : Nat) : Shift := ⟨.ofSize core limit, 0, [], [], none, []⟩

/-- Note what happens. -/
def note (now : Nat) (e : ShiftEvent) (s : Shift) : Shift :=
  { s with events := (now, e) :: s.events }

/-- A submission is accepted and its task begins. -/
def begin (now n : Nat) (t : Task) (s : Shift) : Shift :=
  let b : Stint := ⟨n, t, now + t.duration⟩
  ({ s with busy := s.busy ++ [b] }.note now (.submitted t.name (.ok ()))).note now (.began t.name)

/-- A submission is turned away. -/
def turnAway (now : Nat) (t : Task) (s : Shift) : Shift :=
  s.note now (.submitted t.name (.error .poolClosed))

/-- Submit a task. -/
def submit (now : Nat) (t : Task) (s : Shift) : Shift :=
  let n := s.submissions
  let sent := { s with workers := s.workers.submit n, submissions := n + 1 }
  match s.workers.admission with
  | .accepted => sent.begin now n t
  | .refused => sent.turnAway now t
  | .queued => { sent with waiting := sent.waiting ++ [(n, t)] }

/-- Begin a shutdown; one that is not the first returns at once. -/
def shutdown (now : Nat) (call : String) (timeout : Nat) (s : Shift) : Shift :=
  if s.workers.running then
    { s with workers := s.workers.beginShutdown
             closing := some ⟨call, timeout, now + timeout, s.workers.active⟩ }
  else s.note now (.shutDown call true)

/-- A task at work ends. -/
def finish (now : Nat) (b : Stint) (s : Shift) : Shift :=
  let s := { s with busy := s.busy.filter (·.number ≠ b.number), workers := s.workers.finish }
  if b.task.breaks then s else s.note now (.ended b.task.name)

/-- A task at work that is over at this instant ends. -/
def finishFirst? (now : Nat) (s : Shift) : Option Shift :=
  (s.busy.find? (·.due ≤ now)).map (s.finish now ·)

/-- A waiting submission that was called goes on. -/
def resume (now : Nat) (e : Nat × Task) (s : Shift) : Shift :=
  let back := { s with workers := s.workers.resume e.1, waiting := s.waiting.filter (·.1 ≠ e.1) }
  match s.workers.verdict with
  | .accepted => back.begin now e.1 e.2
  | _ => back.turnAway now e.2

/-- The first waiting submission that was called goes on. -/
def resumeFirst? (now : Nat) (s : Shift) : Option Shift :=
  (s.waiting.find? fun e => s.workers.isCalled e.1).map (s.resume now ·)

/-- A shutdown returns: whether all workers are free, and whoever waits is turned away. -/
def close (now : Nat) (c : Closing) (s : Shift) : Shift :=
  let drained := s.workers.isDrained
  let s := { s with workers := s.workers.close, closing := none }
  (s.note now (.notice (if drained then .workersDone c.active
    else .workersCutOff s.workers.active c.timeout))).note now (.shutDown c.call drained)

/-- The shutdown ends if all workers are free or its time is over. -/
def closeDone? (now : Nat) (s : Shift) : Option Shift :=
  match s.closing with
  | some c => if s.workers.isDrained || c.deadline ≤ now then some (s.close now c) else none
  | none => none

/-- A shift in time. -/
def timeline : Timeline Shift where
  act? now s :=
    match s.finishFirst? now with
    | some s => some s
    | none =>
      match s.resumeFirst? now with
      | some s => some s
      | none => s.closeDone? now
  next? s := earliest (s.busy.map (·.due) ++ (s.closing.map (·.deadline)).toList)

end Shift

end Intake
