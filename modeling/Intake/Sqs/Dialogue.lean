import Intake.Json

/-! # Talking to the queue service

The service is spoken to in requests and replies.  A `Dialogue` is what one side does:
it asks something, and what it does next depends on the reply; at last it is done. -/

namespace Intake.Sqs

/-- A request: an action and its parameters. -/
structure Request where
  action : String
  body : Json

/-- What comes back. -/
inductive Reply
  | success (body : Json)
  /-- The service refuses, with a code. -/
  | refused (code : String)
  /-- The request does not arrive. -/
  | unreachable

/-- One side of a conversation with a result. -/
inductive Dialogue (α : Type)
  | done (a : α)
  | ask (r : Request) (next : Reply → Dialogue α)

namespace Dialogue

variable {α β : Type}

/-- Go on after a conversation. -/
def bind (d : Dialogue α) (f : α → Dialogue β) : Dialogue β :=
  match d with
  | done a => f a
  | ask r next => ask r fun reply => (next reply).bind f

/-- Change the result of a conversation. -/
def map (f : α → β) (d : Dialogue α) : Dialogue β := d.bind fun a => done (f a)

/-- Hold a conversation with given replies: the result, the requests in order, and the
    replies that are left.  When no reply is left, the reply is the given one. -/
def run (last : Reply) : Dialogue α → List Reply → α × List Request × List Reply
  | done a, replies => (a, [], replies)
  | ask r next, [] =>
    let (a, rs, rest) := run last (next last) []
    (a, r :: rs, rest)
  | ask r next, reply :: replies =>
    let (a, rs, rest) := run last (next reply) replies
    (a, r :: rs, rest)

/-- The result when no request arrives. -/
def offline (d : Dialogue α) : α := (d.run .unreachable []).1

end Dialogue

end Intake.Sqs
