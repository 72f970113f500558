import Intake.Listener.Basic

/-! # Starting, stopping, shutting down

Starting takes effect at once.  Stopping tells the poller of a queue and waits for it,
for a bounded time; stopping several queues does so one after another (`stopEach`).
Shutting down stops what is running, waits for the workers, again for a bounded time,
and forgets all queues.  A call that waits is kept in `calls` and goes on by `proceed`. -/

namespace Intake.Listener

/-- The result of a call on a listener that has been shut down. -/
def returnsShutDown (l : Listener) (call : Nat) : Listener :=
  l.emit (.returned call (.error .shutDown))

/-- A call returns without a failure. -/
def returnsOk (l : Listener) (call : Nat) : Listener := l.emit (.returned call (.ok ()))

/-! ## Starting -/

/-- Start a registered queue; a running one is left as it is. -/
def startQueue (q : String) (l : Listener) : Listener :=
  match l.lifecycle.nextEpoch? q with
  | none => l
  | some epoch =>
    ({ l with lifecycle := l.lifecycle.beginStart q,
              pollers := l.pollers ++ [⟨⟨q, epoch⟩, .fresh, false⟩] } : Listener).report
      (.queueStarted q)

/-- Start one queue. -/
def start (call : Nat) (q : String) (l : Listener) : Listener :=
  if !l.active then l.returnsShutDown call
  else if (l.station? q).isNone then l.emit (.returned call (.error (.notRegistered q)))
  else (l.startQueue q).returnsOk call

/-- Start every registered queue. -/
def startAll (call : Nat) (l : Listener) : Listener :=
  if !l.active then l.returnsShutDown call
  else (l.registered.foldl (fun l q => l.startQueue q) l).returnsOk call

/-! ## Stopping -/

/-- All queues of a call have stopped. -/
def concludeStops (now call : Nat) (goal : CallGoal) (l : Listener) : Listener :=
  match goal with
  | .stop => l.returnsOk call
  | .shutdown =>
    { l with
      calls := l.calls ++ [⟨call, .shutdown, [],
        .workers (now + l.settings.drainTimeout) l.workers.active⟩]
      workers := l.workers.beginShutdown }

/-- Stop the running ones of some queues, one after another: tell the poller of the first
    and wait for it. -/
def stopEach (now call : Nat) (goal : CallGoal) : List String → Listener → Listener
  | [], l => l.concludeStops now call goal
  | q :: rest, l =>
    match l.lifecycle.runningEpoch? q with
    | none => stopEach now call goal rest l
    | some epoch =>
      let l := ({ l with lifecycle := l.lifecycle.beginStop q } : Listener).signal ⟨q, epoch⟩
      { l with calls := l.calls ++
          [⟨call, goal, rest, .poller ⟨q, epoch⟩ (now + l.settings.stopTimeout)⟩] }

/-- Stop one queue. -/
def stop (now call : Nat) (q : String) (l : Listener) : Listener :=
  if !l.active then l.returnsShutDown call
  else if (l.station? q).isNone then l.emit (.returned call (.error (.notRegistered q)))
  else l.stopEach now call .stop [q]

/-- Stop every running queue. -/
def stopAll (now call : Nat) (l : Listener) : Listener :=
  if !l.active then l.returnsShutDown call
  else l.stopEach now call .stop l.lifecycle.running

/-- Shut down; a second time nothing happens. -/
def shutdown (now call : Nat) (l : Listener) : Listener :=
  if !l.active then l.returnsOk call
  else
    let l := ({ l with active := false } : Listener).report .shuttingDown
    l.stopEach now call .shutdown l.lifecycle.running

/-- The listener is given up without a shutdown: all queues are forgotten and the pollers
    that were running are told. -/
def discard (l : Listener) : Listener :=
  let running := l.lifecycle.running.filterMap fun q =>
    (l.lifecycle.runningEpoch? q).map (PollerId.mk q)
  let l : Listener := { l with lifecycle := l.lifecycle.clear }
  running.foldl (fun l p => l.signal p) l

/-! ## Pending calls -/

/-- The call with a number. -/
def call? (l : Listener) (n : Nat) : Option Call := l.calls.find? (·.number = n)

/-- Whether a pending call can go on at this instant. -/
def canProceed (l : Listener) (now : Nat) (c : Call) : Bool :=
  match c.wait with
  | .poller id t => !l.isAlive id || t ≤ now
  | .workers t _ => l.workers.isDrained || t ≤ now

/-- The notices about a poller for which a call no longer waits: that it has broken off,
    or that it has not ended in time. -/
def stopNotices (l : Listener) (p : PollerId) : List Notice :=
  match l.poller? p with
  | none => []
  | some x => match x.phase with
    | .broken text => [.pollerBroken p.queue text]
    | _ => [.stopTimedOut p.queue l.settings.stopTimeout]

/-- A poller that has broken off is forgotten once a call has seen it. -/
def forgetBroken (l : Listener) (p : PollerId) : Listener :=
  if l.isAlive p then l else { l with pollers := l.pollers.filter (·.id ≠ p) }

/-- A pending call that can go on does so. -/
def proceed (now : Nat) (c : Call) (l : Listener) : Listener :=
  let l : Listener := { l with calls := l.calls.filter (·.number ≠ c.number) }
  match c.wait with
  | .poller id _ =>
    let l := (l.stopNotices id).foldl (fun l n => l.report n) l
    let l := l.forgetBroken id
    let l : Listener := { l with lifecycle := l.lifecycle.finishStop id.queue id.epoch }
    (l.report (.queueStopped id.queue)).stopEach now c.number c.goal c.rest
  | .workers _ active =>
    let drained := l.workers.isDrained
    let l : Listener := { l with workers := l.workers.close }
    let l := l.report (if drained then .workersDone active
      else .workersCutOff l.workers.active l.settings.drainTimeout)
    let l : Listener := { l with lifecycle := l.lifecycle.clear }
    (l.report .shutDown).returnsOk c.number

end Intake.Listener
