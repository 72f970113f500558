import Intake.Listener.React
import Intake.Rehearsal.Broker
import Intake.Rehearsal.Conduct

/-! # Rehearsing a listener

A `Scene` puts a listener together with a broker and with handlers that behave as laid
down, and lets them act in virtual time.  What the listener wants done is done
(`perform`); what comes back is fed to it (`feed`).  Everything that can be seen is kept
in `seen`, with its instant. -/

namespace Intake

/-- What can be seen in a scene. -/
inductive Sight
  | notice (n : Notice)
  /-- The polling was asked how to call, with so many free slots. -/
  | asked (queue : String) (free : Nat)
  /-- A receive call was made. -/
  | received (r : ReceiveRequest)
  /-- A deletion was tried. -/
  | deleted (destination receipt : String) (done : Bool)
  /-- A handler was called for the n-th time with a body. -/
  | handling (handler : String) (letter : Letter) (n : Nat)
  | handled (handler body : String) (n : Nat) (r : Except HandlerError Unit)
  | brokeOff (handler body : String)
  /-- A call to the listener returned. -/
  | returned (call : Nat) (r : Except ListenerError Unit)

/-- A handler at work. -/
structure Handling where
  job : Nat
  handler : String
  letter : Letter
  /-- The how manieth call with this body it is. -/
  nth : Nat
  deed : Deed
  due : Nat

/-- A listener in its surroundings. -/
structure Scene where
  listener : Listener
  broker : Broker
  conduct : Conduct
  /-- Whether the polling is shown. -/
  showsPolling : Bool
  receives : List (PollerId × Receiving)
  handlers : List Handling
  /-- What the listener has still to learn. -/
  inbox : List Stimulus
  /-- Under what name a receipt is shown. -/
  receiptNames : Table String
  /-- Bodies delivered so far. -/
  delivered : List String
  /-- Handlers and bodies of the calls so far. -/
  called : List (String × String)
  /-- Letters seen by handlers, with the free slots of the queue then, newest first. -/
  letters : List (Letter × Nat)
  /-- Whether the listener is given up once no call is pending. -/
  leaving : Bool
  seen : List (Nat × Sight)

namespace Scene

/-- A listener in its surroundings before anything happens. -/
def start (l : Listener) (b : Broker) (c : Conduct) (showsPolling : Bool) : Scene :=
  { listener := l, broker := b, conduct := c, showsPolling, receives := [], handlers := [],
    inbox := [], receiptNames := .empty, delivered := [], called := [], letters := [],
    leaving := false, seen := [] }

/-- See something. -/
def see (now : Nat) (x : Sight) (s : Scene) : Scene := { s with seen := (now, x) :: s.seen }

/-- A deletion is tried. -/
def delete (now : Nat) (dest receipt : String) (s : Scene) : Except BrokerError Unit × Scene :=
  match s.broker.delete dest receipt with
  | (r, b) =>
    let shown := (s.receiptNames.get? receipt).getD receipt
    (r, { s with broker := b }.see now (.deleted dest shown r.isOk))

/-- Do what the listener wants done. -/
def perform (now : Nat) (s : Scene) : Effect → Scene
  | .report n => s.see now (.notice n)
  | .returned call r => s.see now (.returned call r)
  | .receive p free r =>
    let s := if s.showsPolling then s.see now (.asked p.queue free) else s
    match s.broker.beginReceive now r with
    | (rec, b) =>
      { s with broker := b, receives := s.receives ++ [(p, rec)] }.see now (.received r)
  | .invoke job handler letter =>
    let n := s.called.count (handler, letter.payload) + 1
    let turn := s.conduct.turn letter.payload n
    let queue := letter.queueName.getD ""
    { s with
      called := (handler, letter.payload) :: s.called
      letters := (letter, (s.listener.freeSlots? queue).getD 0) :: s.letters
      handlers := s.handlers ++
        [Handling.mk job handler letter n turn.deed (now + turn.duration)]
      }.see now (.handling handler letter n)
  | .delete job dest receipt =>
    match s.delete now dest receipt with
    | (r, s) => { s with inbox := s.inbox ++ [.deleted job r] }

/-- Something happens to the listener. -/
def feed (now : Nat) (x : Stimulus) (s : Scene) : Scene :=
  match s.listener.react now x with
  | (l, effects) => effects.foldl (perform now) { s with listener := l }

/-- Name the receipts of a batch after the bodies. -/
def nameReceipts (s : Scene) : List Delivery → Scene
  | [] => s
  | d :: ds =>
    let name := d.body ++ "#" ++ toString (s.delivered.count d.body + 1)
    nameReceipts { s with receiptNames := s.receiptNames.set d.receipt name
                          delivered := d.body :: s.delivered } ds

/-- The answer of a receive call reaches its poller. -/
def answer (now : Nat) (p : PollerId) (a : Answer) (s : Scene) : Scene :=
  match a with
  | .batch ds => (s.nameReceipts ds).feed now (.answer p a)
  | _ => s.feed now (.answer p a)

/-- Let the first receive call go on whose time has come.  A call that waits on goes behind
    the others. -/
def receiveFirst (now : Nat) (s : Scene) :
    List (PollerId × Receiving) → List (PollerId × Receiving) → Option Scene
  | _, [] => none
  | before, (p, r) :: after =>
    if r.due ≤ now then
      match s.broker.continueReceive now r with
      | (.inl a, b) => some ({ s with broker := b, receives := before.reverse ++ after }.answer now p a)
      | (.inr r, b) => some { s with broker := b, receives := before.reverse ++ after ++ [(p, r)] }
    else receiveFirst now s ((p, r) :: before) after

/-- A handler acknowledges its message. -/
def acknowledge (now : Nat) (h : Handling) (s : Scene) : Except HandlerError Unit × Scene :=
  match h.letter.acknowledgment with
  | none => (.error (.processing "no acknowledgment"), s)
  | some a =>
    match s.delete now a.destination a.receipt with
    | (.ok _, s) => (.ok (), s)
    | (.error e, s) => (.error (.unexpected e.message), s)

/-- What a handler does at the end of its time, unless it breaks off. -/
def act (now : Nat) (h : Handling) (s : Scene) : Except HandlerError Unit × Scene :=
  match h.deed with
  | .succeed | .breakOff _ => (.ok (), s)
  | .reject text => (.error (.processing text), s)
  | .fail text => (.error (.unexpected text), s)
  | .acknowledge => s.acknowledge now h
  | .acknowledgeGiven =>
    if h.letter.acknowledgment.isSome then s.acknowledge now h else (.ok (), s)
  | .acknowledgeTwice =>
    match s.acknowledge now h with
    | (.ok _, s) => s.acknowledge now h
    | r => r
  | .acknowledgeThenReject text =>
    match s.acknowledge now h with
    | (.ok _, s) => (.error (.processing text), s)
    | r => r

/-- A handler ends. -/
def finish (now : Nat) (h : Handling) (s : Scene) : Scene :=
  let body := h.letter.payload
  match h.deed with
  | .breakOff text =>
    (s.see now (.brokeOff h.handler body)).feed now (.endJob h.job (.broken text))
  | _ =>
    match s.act now h with
    | (r, s) =>
      let result := match r with
        | .ok _ => HandlerResult.ok
        | .error e => .failed e
      (s.see now (.handled h.handler body h.nth r)).feed now (.endJob h.job result)

/-- Let the first handler end whose time is over. -/
def finishFirst? (now : Nat) (s : Scene) : Option Scene :=
  (s.handlers.find? (·.due ≤ now)).map fun h =>
    { s with handlers := s.handlers.eraseP (·.due ≤ now) }.finish now h

/-- Tell the listener what it has still to learn. -/
def tellFirst? (now : Nat) (s : Scene) : Option Scene :=
  match s.inbox with
  | x :: rest => some ({ s with inbox := rest }.feed now x)
  | [] => none

/-- The listener is given up if nobody uses it any more. -/
def leave? (now : Nat) (s : Scene) : Option Scene :=
  if s.leaving && s.listener.calls.isEmpty then
    some ({ s with leaving := false }.feed now .discard)
  else none

/-- A scene in time.  Whoever called the listener goes on first; then what is due comes
    before what it sets free: news and handlers, receive calls, pollers, and new jobs at
    last. -/
def timeline : Timeline Scene where
  act? now s :=
    (s.listener.pendingCall? now).map (s.feed now ·)
      <|> s.tellFirst? now <|> s.finishFirst? now <|> s.receiveFirst now [] s.receives
      <|> (s.listener.readyPoller? now).map (s.feed now ·)
      <|> s.listener.newJob?.map (s.feed now ·)
      <|> s.leave? now
  next? s :=
    earliest (s.listener.deadlines ++ s.receives.map (·.2.due) ++ s.handlers.map (·.due))

/-- Whether a call has returned, and how. -/
def result? (s : Scene) (call : Nat) : Option (Except ListenerError Unit) :=
  s.seen.findSome? fun x => match x.2 with
    | .returned n r => if n = call then some r else none
    | _ => none

/-- An instant by which a call that is made now has returned. -/
def callLimit (s : Scene) (now : Nat) : Nat :=
  now + s.listener.stations.length * s.listener.settings.stopTimeout
    + s.listener.settings.drainTimeout + 1

/-- Make a call and wait until it returns: the instant, the result and the scene then. -/
def call (s : Scene) (now n : Nat) (x : Stimulus) :
    Nat × Except ListenerError Unit × Scene :=
  match timeline.runUntil (fun s => (s.result? n).isSome) (s.callLimit now) now (s.feed now x) with
  | (t, s) => (t, (s.result? n).getD (.ok ()), s)

/-- Have one message served by the only queue `q`, without a poller: take a slot, let the
    handler work and settle the message.  There is no result if no slot is free; otherwise
    the instant and the scene when the message is settled. -/
def serve? (s : Scene) (now : Nat) (q : String) (d : Delivery) : Option (Nat × Scene) :=
  (s.listener.takeSlot? q).map fun l =>
    let s := timeline.settle now { s with listener := l.addJob q d }
    let limit := (s.handlers.map (·.due)).foldl max now
    timeline.runUntil (·.listener.jobs.isEmpty) limit now s

/-- A message has been sent: the receive calls that wait look at once. -/
def wakeReceives (s : Scene) (now : Nat) : Scene :=
  { s with receives := s.receives.map fun e => (e.1, e.2.wake now) }

/-- Send a message to a queue of the store, after a delay in seconds. -/
def send (s : Scene) (now : Nat) (dest body : String) (delay : Nat) :
    Except BrokerError String × Scene :=
  match s.broker.send now dest body delay with
  | (.ok id, b) => (.ok id, { s with broker := b }.wakeReceives now)
  | (.error e, b) => (.error e, { s with broker := b })

end Scene

end Intake
