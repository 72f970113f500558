import Intake.Listener.Call
import Intake.Listener.Job
import Intake.Listener.Poller

/-! # The listener reacts

A `Stimulus` is one thing that happens to a listener: a call is made, a receive call
returns, a handler ends, an instant for which something waits has come.  `react` gives
the next state and what the listener wants done, in order.  A stimulus that does not
fit the state changes nothing.

A run of a listener is a sequence of stimuli at instants that never go back. -/

namespace Intake

/-- One thing that happens to a listener. -/
inductive Stimulus
  | start (call : Nat) (queue : String)
  | startAll (call : Nat)
  | stop (call : Nat) (queue : String)
  | stopAll (call : Nat)
  | shutdown (call : Nat)
  /-- The listener is given up. -/
  | discard
  /-- A poller that can go on does so. -/
  | goOn (poller : PollerId)
  /-- The receive call of a poller returns. -/
  | answer (poller : PollerId) (a : Answer)
  /-- A job that a worker has taken calls its handler. -/
  | beginJob (job : Nat)
  /-- The handler of a job ends. -/
  | endJob (job : Nat) (r : HandlerResult)
  /-- The deletion of a job's message ends. -/
  | deleted (job : Nat) (r : Except BrokerError Unit)
  /-- A pending call that can go on does so. -/
  | proceed (call : Nat)

namespace Listener

/-- The state after a stimulus, with what the listener wants done added to the outbox. -/
def after (now : Nat) (s : Stimulus) (l : Listener) : Listener :=
  match s with
  | .start call q => l.start call q
  | .startAll call => l.startAll call
  | .stop call q => l.stop now call q
  | .stopAll call => l.stopAll now call
  | .shutdown call => l.shutdown now call
  | .discard => l.discard
  | .goOn p =>
    match l.poller? p with
    | some x => if l.canGoOn now x then (l.setPhase p .ready).goOn now x else l
    | none => l
  | .answer p a =>
    match l.poller? p with
    | some x => match x.phase with
      | .receiving since => (l.setPhase p .ready).takeAnswer now since p a
      | _ => l
    | none => l
  | .beginJob n =>
    match l.job? n with
    | some j => if j.phase = .accepted then l.beginJob j else l
    | none => l
  | .endJob n r =>
    match l.job? n with
    | some j => if j.phase = .handling then l.endJob j r else l
    | none => l
  | .deleted n r =>
    match l.job? n with
    | some j => if j.phase = .deleting then l.finishDelete j r else l
    | none => l
  | .proceed n =>
    match l.call? n with
    | some c => if l.canProceed now c then l.proceed now c else l
    | none => l

/-- The reaction to a stimulus: the next state and what is to be done, in order. -/
def react (now : Nat) (s : Stimulus) (l : Listener) : Listener × List Effect :=
  let l := { l with outbox := [] }.after now s
  ({ l with outbox := [] }, l.outbox.reverse)

/-- A call that can go on at this instant, as the stimulus that lets it. -/
def pendingCall? (l : Listener) (now : Nat) : Option Stimulus :=
  (l.calls.find? (l.canProceed now)).map fun c => .proceed c.number

/-- A poller that can go on at this instant, as the stimulus that lets it. -/
def readyPoller? (l : Listener) (now : Nat) : Option Stimulus :=
  (l.pollers.find? (l.canGoOn now)).map fun x => .goOn x.id

/-- A job that has not begun, as the stimulus that lets it begin: the oldest comes first. -/
def newJob? (l : Listener) : Option Stimulus :=
  (l.jobs.find? (·.phase = .accepted)).map fun j => .beginJob j.number

/-- The instants for which the listener waits. -/
def deadlines (l : Listener) : List Nat :=
  l.calls.map (·.wait.deadline) ++ l.pollers.filterMap (·.phase.deadline?)

end Listener

end Intake
