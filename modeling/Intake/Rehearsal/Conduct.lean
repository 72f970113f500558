import Intake.Failure
import Intake.Table

/-! # How the handlers of a rehearsal behave

What a handler does depends on the body of the message and on how often it has been
called with that body: it takes its time, and then it does what its `Deed` says. -/

namespace Intake

/-- What a handler does at the end of its time. -/
inductive Deed
  | succeed
  /-- Fail to process the message. -/
  | reject (text : String)
  /-- Fail otherwise. -/
  | fail (text : String)
  | acknowledge
  /-- Acknowledge if there is an acknowledgment. -/
  | acknowledgeGiven
  | acknowledgeTwice
  /-- Acknowledge and then fail to process the message. -/
  | acknowledgeThenReject (text : String)
  /-- Break off, perhaps with a text. -/
  | breakOff (text : Option String)
deriving DecidableEq, Repr

/-- One call of a handler. -/
structure Turn where
  /-- How long it takes, in milliseconds. -/
  duration : Nat
  deed : Deed
deriving DecidableEq, Repr

/-- A short call that succeeds. -/
def Turn.standard : Turn := ⟨7, .succeed⟩

/-- The turns of the handlers by the body of the message. -/
structure Conduct where
  byBody : Table (List Turn)
  /-- For any other body. -/
  otherwise : List Turn
deriving DecidableEq, Repr

/-- The turn with a number, counted from one; after the last one the last repeats. -/
def nthTurn : List Turn → Nat → Turn
  | [], _ => .standard
  | [t], _ => t
  | t :: _, 0 | t :: _, 1 => t
  | _ :: t :: rest, n + 2 => nthTurn (t :: rest) (n + 1)

/-- What a handler does at its n-th call with a body. -/
def Conduct.turn (c : Conduct) (body : String) (n : Nat) : Turn :=
  nthTurn ((c.byBody.get? body).getD c.otherwise) n

end Intake
