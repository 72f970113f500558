import Intake.Word

/-! # Workers

A pool of workers, each of which does one task at a time.  Tasks come with a ticket
of type `ι`.  There is no backlog: who submits a task waits for a free worker, in the
order of the submissions.

* `submit`, `resume`  a task is refused, accepted, or its ticket queues up
* `finish`            a task has ended, normally or not
* `beginShutdown`     no more tasks; wait at the end of the queue for all workers
* `close`             whoever still waits is turned away -/

namespace Intake

/-- What becomes of a submitted task. -/
inductive Admission
  | accepted
  | queued
  | refused
deriving DecidableEq, Repr

/-- A pool of workers. -/
structure Workers (ι : Type) where
  /-- Workers that are meant to be busy in steady state; only reported. -/
  core : Nat
  /-- Number of workers. -/
  limit : Nat
  /-- Workers that nobody holds. -/
  free : Nat
  /-- Tasks accepted and not ended. -/
  active : Nat
  /-- Tickets in the order of their submissions. -/
  waiting : List ι
  /-- Tickets that were handed a worker, or turned away, and have not yet gone on. -/
  called : List ι
  /-- Whether submissions are taken. -/
  running : Bool
  /-- Whether waiting tickets are turned away. -/
  closed : Bool
  /-- How many workers the shutdown has and how many it wants. -/
  drain : Option (Nat × Nat)
deriving DecidableEq, Repr

namespace Workers

variable {ι : Type}

/-- Most workers that a pool can have. -/
def maxLimit : Nat := size64 / 8 - 1

/-- An idle pool with at least one worker. -/
def ofSize (core limit : Nat) : Workers ι :=
  let limit := max limit 1
  { core := min core limit, limit, free := limit, active := 0, waiting := [], called := [],
    running := true, closed := false, drain := none }

/-- A worker is handed on: to the first in the queue, else to the shutdown, else it is
    free. -/
def giveBack (w : Workers ι) : Workers ι :=
  match w.waiting with
  | i :: rest => { w with waiting := rest, called := w.called ++ [i] }
  | [] =>
    match w.drain with
    | some (held, wanted) =>
      if held < wanted then { w with drain := some (held + 1, wanted) }
      else { w with free := w.free + 1 }
    | none => { w with free := w.free + 1 }

/-- What a submission gets right away. -/
def admission (w : Workers ι) : Admission :=
  if !w.running then .refused
  else if 0 < w.free then .accepted
  else .queued

/-- Submit a task under a ticket. -/
def submit (w : Workers ι) (i : ι) : Workers ι :=
  match w.admission with
  | .refused => w
  | .accepted => { w with free := w.free - 1, active := w.active + 1 }
  | .queued => { w with waiting := w.waiting ++ [i] }

/-- Whether a ticket that queued up can go on. -/
def isCalled [DecidableEq ι] (w : Workers ι) (i : ι) : Bool := i ∈ w.called

/-- What a called ticket gets when it goes on. -/
def verdict (w : Workers ι) : Admission := if w.closed then .refused else .accepted

/-- A called ticket goes on. -/
def resume [DecidableEq ι] (w : Workers ι) (i : ι) : Workers ι :=
  let w := { w with called := w.called.erase i }
  match w.verdict with
  | .accepted => { w with active := w.active + 1 }
  | _ => w

/-- A task has ended. -/
def finish (w : Workers ι) : Workers ι := giveBack { w with active := w.active - 1 }

/-- Take no more tasks, and queue up for all workers.  The number wanted is counted in
    32 bits. -/
def beginShutdown (w : Workers ι) : Workers ι :=
  let wanted := w.limit % size32
  let held := min w.free wanted
  { w with running := false, free := w.free - held, drain := some (held, wanted) }

/-- Whether the shutdown has all the workers it wants. -/
def isDrained (w : Workers ι) : Bool :=
  match w.drain with
  | some (held, wanted) => wanted ≤ held
  | none => false

/-- End the shutdown: its workers are free again and whoever waits is turned away. -/
def close (w : Workers ι) : Workers ι :=
  let held := match w.drain with
    | some (held, _) => held
    | none => 0
  { w with free := w.free + held, drain := none, closed := true, waiting := [],
           called := w.called ++ w.waiting }

end Workers

end Intake
