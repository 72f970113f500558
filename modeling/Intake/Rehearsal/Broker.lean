import Intake.LeaseStore.LongPoll
import Intake.Rehearsal.Script

/-! # The brokers of a rehearsal

A listener is rehearsed with a scripted broker or with a store in memory.  Both answer
the same calls; a receive call in progress is a `Receiving`. -/

namespace Intake

/-- A broker to rehearse with. -/
inductive Broker
  | scripted (b : ScriptedBroker)
  | stored (s : LeaseStore)

/-- A receive call in progress. -/
inductive Receiving
  /-- It returns at an instant with an answer that is fixed. -/
  | scripted (due : Nat) (a : Answer)
  | stored (p : LongPoll)

/-- When a receive call goes on. -/
def Receiving.due : Receiving → Nat
  | scripted t _ => t
  | stored p => p.lookAt

/-- A message has been sent. -/
def Receiving.wake (now : Nat) : Receiving → Receiving
  | scripted t a => .scripted t a
  | stored p => .stored (p.wake now)

namespace Broker

/-- A receive call begins. -/
def beginReceive (now : Nat) (r : ReceiveRequest) : Broker → Receiving × Broker
  | scripted b =>
    match b.receive r with
    | ((latency, a), b) => (.scripted (now + latency) a, .scripted b)
  | stored s => (.stored (LongPoll.start now s r), .stored s)

/-- The answer that a store gives. -/
def storedAnswer : Except ReceiveFailure (List Delivery) → Answer
  | .ok ds => .batch ds
  | .error (.refused e) => .failed e
  | .error .beyondClock => .broken beyondClockText

/-- A receive call goes on: it returns, or it waits on. -/
def continueReceive (now : Nat) (r : Receiving) (b : Broker) : (Answer ⊕ Receiving) × Broker :=
  match r, b with
  | .scripted _ a, b => (.inl a, b)
  | .stored p, .stored s =>
    match p.look now s with
    | (.inl r, s) => (.inl (storedAnswer r), .stored s)
    | (.inr p, s) => (.inr (.stored p), .stored s)
  | .stored _, .scripted b => (.inl (.batch []), .scripted b)

/-- Delete what was delivered under a receipt. -/
def delete (dest receipt : String) : Broker → Except BrokerError Unit × Broker
  | scripted b => (b.delete dest receipt, .scripted b)
  | stored s =>
    match s.delete dest receipt with
    | (r, s) => (r, .stored s)

/-- Send a message to a queue of a store, after a delay in seconds. -/
def send (now : Nat) (dest body : String) (delay : Nat) : Broker →
    Except BrokerError String × Broker
  | scripted b => (.error (.unknownQueue dest), .scripted b)
  | stored s =>
    match s.send now dest body delay with
    | (r, s) => (r, .stored s)

/-- The look-ups that a listener makes. -/
def lookup : Lookup Broker where
  destination name
    | scripted b => (b.resolve name, .scripted b)
    | stored s =>
      match s.resolve name with
      | (r, s) => (r, .stored s)
  redrive dest
    | scripted b =>
      match b.hasRedrive dest with
      | (r, b) => (r, .scripted b)
    | stored s => ((s.redriveRule dest).map (·.isSome), .stored s)

end Broker

/-- One receive call by itself: it is in progress, or it has returned. -/
structure SingleReceive where
  broker : Broker
  state : Receiving ⊕ Answer

namespace SingleReceive

/-- One receive call in time. -/
def timeline : Timeline SingleReceive where
  act? now s :=
    match s.state with
    | .inl r =>
      if r.due ≤ now then
        match s.broker.continueReceive now r with
        | (.inl a, b) => some ⟨b, .inr a⟩
        | (.inr r, b) => some ⟨b, .inl r⟩
      else none
    | .inr _ => none
  next? s :=
    match s.state with
    | .inl r => some r.due
    | .inr _ => none

/-- The answer, once there is one. -/
def answer? (s : SingleReceive) : Option Answer :=
  match s.state with
  | .inl _ => none
  | .inr a => some a

/-- The latest instant at which a receive call returns. -/
def latest : Receiving → Nat
  | .scripted t _ => t
  | .stored p => p.deadline

/-- Make a receive call and wait for its answer: the instant, the answer and the broker
    then. -/
def run (now : Nat) (r : ReceiveRequest) (b : Broker) : Nat × Answer × Broker :=
  match b.beginReceive now r with
  | (rec, b) =>
    match timeline.runUntil (fun s => s.answer?.isSome) (latest rec) now ⟨b, .inl rec⟩ with
    | (t, s) => (t, s.answer?.getD (.batch []), s.broker)

end SingleReceive

end Intake
