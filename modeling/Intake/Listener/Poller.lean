import Intake.Listener.Basic

/-! # What a poller does

A poller goes in rounds.  A round begins with a look at the lifecycle and the slots
(`beginRound`) and makes a receive call.  What the call returns (`takeAnswer`) is offered
to the workers, message by message (`offer`, `dispatch`), or leads to a rest.  A poller
whose epoch is over ends at the beginning of its next round. -/

namespace Intake

/-- What a receive call returns. -/
inductive Answer
  | batch (ds : List Delivery)
  | failed (cause : BrokerError)
  /-- The call broke off, and the poller with it. -/
  | broken (text : String)
deriving DecidableEq, Repr

namespace Listener

/-- A poller begins a round. -/
def beginRound (now : Nat) (p : PollerId) (l : Listener) : Listener :=
  match l.station? p.queue with
  | none => l.retire p
  | some s =>
    if !l.isCurrent p then l.retire p
    else if s.slots.free = 0 then
      l.park p (.awaitingSlot (now + s.source.options.slotWait l.settings.minSlotWait))
    else
      (l.setPhase p (.receiving now)).emit
        (.receive p s.slots.free (l.polling s.source s.slots.free))

/-- The workers take a message with its slot: a job begins. -/
def addJob (l : Listener) (q : String) (d : Delivery) : Listener :=
  { l with jobs := l.jobs ++ [⟨l.accepted, q, d, .accepted⟩], accepted := l.accepted + 1 }

/-- The workers turn a message away: its slot comes back. -/
def turnAway (l : Listener) (q : String) : Listener :=
  (l.releaseSlot q).report (.turnedAway q)

/-- What becomes of a message when its poller goes past it. -/
inductive Fate
  /-- Left to the broker: no slot was free. -/
  | noSlot
  /-- Left to the broker: the poller's epoch was over. -/
  | outdated
  /-- Left to the broker: the workers turned it away. -/
  | refused
  /-- Taken: it is the work of a job. -/
  | taken (job : Nat)
deriving DecidableEq, Repr

/-- A poller offers a message to the workers.  It is left to the broker when no slot is
    free, when the poller's epoch is over, or when the workers turn it away.  It has no
    fate yet when all workers are busy: then the poller waits for one. -/
def offer (p : PollerId) (d : Delivery) (l : Listener) : Option Fate × Listener :=
  match l.takeSlot? p.queue with
  | none => (some .noSlot, l.report (.surplus p.queue d.id))
  | some l =>
    if !l.isCurrent p then (some .outdated, l.releaseSlot p.queue)
    else
      let sent : Listener := { l with workers := l.workers.submit p }
      match l.workers.admission with
      | .accepted => (some (.taken l.accepted), sent.addJob p.queue d)
      | .refused => (some .refused, sent.turnAway p.queue)
      | .queued => (none, sent)

/-- A poller offers the messages of a batch one after another, until it has to wait for a
    worker.  The result are the fates of the messages that it has gone past and the
    messages that it still has in hand. -/
def handOn (p : PollerId) : List Delivery → Listener → List Fate × List Delivery × Listener
  | [], l => ([], [], l)
  | d :: ds, l =>
    match l.offer p d with
    | (none, l) => ([], d :: ds, l)
    | (some f, l) =>
      match handOn p ds l with
      | (fs, rest, l) => (f :: fs, rest, l)

/-- A poller hands on the messages of a batch, and goes on with the next round or waits
    for a worker with the rest of the batch in hand. -/
def dispatch (now : Nat) (p : PollerId) (ds : List Delivery) (l : Listener) : Listener :=
  match l.handOn p ds with
  | (_, [], l) => l.beginRound now p
  | (_, d :: rest, l) => l.setPhase p (.submitting d rest)

/-- What becomes of the message with which a poller waited for a worker. -/
def offerAgain (p : PollerId) (d : Delivery) (l : Listener) : Fate × Listener :=
  let back : Listener := { l with workers := l.workers.resume p }
  match l.workers.verdict with
  | .accepted => (.taken l.accepted, back.addJob p.queue d)
  | _ => (.refused, back.turnAway p.queue)

/-- A poller that waited for a worker goes on. -/
def resumeSubmit (now : Nat) (p : PollerId) (d : Delivery) (ds : List Delivery) (l : Listener) :
    Listener :=
  dispatch now p ds (l.offerAgain p d).2

/-- A poller, at work again, takes what its receive call, made at `since`, returned. -/
def takeAnswer (now since : Nat) (p : PollerId) (a : Answer) (l : Listener) : Listener :=
  match a with
  | .broken text => l.setPhase p (.broken text)
  | .failed cause =>
    (l.report (.receiveFailed p.queue cause l.settings.backoff)).park p
      (.resting (now + l.settings.backoff))
  | .batch [] =>
    let pause := l.settings.emptyDelay - (now - since)
    if pause = 0 then l else l.park p (.resting (now + pause))
  | .batch ds => dispatch now p ds l

/-- Whether a poller can go on by itself at this instant. -/
def canGoOn (l : Listener) (now : Nat) (x : Poller) : Bool :=
  match x.phase with
  | .fresh | .ready => true
  | .awaitingSlot t | .resting t => t ≤ now
  | .submitting _ _ => l.workers.isCalled x.id
  | .receiving _ | .broken _ => false

/-- A poller that could go on, at work again, does so. -/
def goOn (now : Nat) (x : Poller) (l : Listener) : Listener :=
  match x.phase with
  | .fresh =>
    match l.station? x.id.queue with
    | some s => beginRound now x.id
        (l.report (.pollerStarted x.id.queue s.source.options.batch s.source.options.policy))
    | none => l.retire x.id
  | .ready | .awaitingSlot _ | .resting _ => beginRound now x.id l
  | .submitting d ds => resumeSubmit now x.id d ds l
  | .receiving _ | .broken _ => l

end Listener

end Intake
