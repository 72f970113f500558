import Intake.Listener.Basic

/-! # What happens to a message at work

A job calls the handler (`beginJob`), learns how it ended (`endJob`), deletes the
message if the policy of the queue says so, and is settled: its slot and its worker
come back (`settle`).  It is settled exactly once, however the handler and the deletion
end. -/

namespace Intake

/-- How a handler ended. -/
inductive HandlerResult
  | ok
  | failed (cause : HandlerError)
  /-- It broke off, perhaps with a text. -/
  | broken (text : Option String)
deriving DecidableEq, Repr

namespace HandlerResult

/-- The failure of a handler, if it failed; breaking off is an unexpected failure. -/
def failure? : HandlerResult → Option HandlerError
  | ok => none
  | failed cause => some cause
  | broken text => some (.unexpected (text.getD "handler panicked"))

/-- How a handler ended, as far as deletion is concerned. -/
def outcome (r : HandlerResult) : Outcome :=
  match r.failure? with
  | none => .success
  | some _ => .failure

end HandlerResult

/-- The notice about a failed handler: it is an error where the message stays for another
    delivery, and a warning where the policy is worth a mention. -/
def Source.failureNotice (s : Source) (d : Delivery) (cause : HandlerError) : Notice :=
  if s.options.policy = .onSuccess then .keptAfterFailure s.name (d.id.getD "") cause
  else .handlerFailed s.name (d.id.getD "") s.options.policy cause

namespace Listener

/-- The job with a number. -/
def job? (l : Listener) (n : Nat) : Option Job := l.jobs.find? (·.number = n)

/-- Give a job a phase. -/
def setJobPhase (l : Listener) (n : Nat) (ph : JobPhase) : Listener :=
  { l with jobs := l.jobs.map fun j => if j.number = n then { j with phase := ph } else j }

/-- The slot and the worker of a job come back. -/
def settle (j : Job) (l : Listener) : Listener :=
  let l : Listener := { l with jobs := l.jobs.filter (·.number ≠ j.number) }
  let l := l.releaseSlot j.queue
  { l with workers := l.workers.finish }

/-- The handler of a job is called. -/
def beginJob (j : Job) (l : Listener) : Listener :=
  match l.station? j.queue with
  | none => l
  | some s =>
    (l.setJobPhase j.number .handling).emit
      (.invoke j.number s.handler (s.source.letter j.delivery))

/-- The handler of a job has ended. -/
def endJob (j : Job) (r : HandlerResult) (l : Listener) : Listener :=
  match l.station? j.queue with
  | none => l
  | some s =>
    let l := match r.failure? with
      | none => l
      | some cause => l.report (s.source.failureNotice j.delivery cause)
    if s.source.options.policy.deletes r.outcome s.source.redrive then
      (l.setJobPhase j.number .deleting).emit
        (.delete j.number s.source.destination j.delivery.receipt)
    else l.settle j

/-- The deletion of a job's message has ended. -/
def finishDelete (j : Job) (r : Except BrokerError Unit) (l : Listener) : Listener :=
  let l := match r with
    | .ok _ => l
    | .error cause => l.report (.deleteFailed j.queue (j.delivery.id.getD "") cause)
  l.settle j

end Listener

end Intake
