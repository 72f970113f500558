import Intake.LeaseStore
import Intake.Timeline

/-! # Long polls

A receive call that finds nothing waits for a message until its time is over.  It looks
again when a message is sent, and otherwise at short intervals, because the end of a
lease or of a delay wakes nobody. -/

namespace Intake

/-- A receive call that has not returned. -/
structure LongPoll where
  request : ReceiveRequest
  /-- When it returns in any case. -/
  deadline : Nat
  /-- When it looks next. -/
  lookAt : Nat
deriving DecidableEq, Repr

namespace LongPoll

/-- The interval at which a waiting call looks again. -/
def tick : Nat := 50

/-- A receive call begins. -/
def start (now : Nat) (s : LeaseStore) (r : ReceiveRequest) : LongPoll :=
  ⟨r, now + r.wait.getD s.wait, now⟩

/-- A message has been sent: a waiting call looks at once. -/
def wake (now : Nat) (p : LongPoll) : LongPoll := { p with lookAt := now }

/-- Whether a call breaks off before it looks, because its deadline lies beyond the clock. -/
def isBeyond (p : LongPoll) (s : LeaseStore) : Bool :=
  (LeaseStore.queueName p.request.destination).isOk && s.lastInstant < p.deadline

/-- A call looks: it returns a result, or it waits on. -/
def look (now : Nat) (p : LongPoll) (s : LeaseStore) :
    (Except ReceiveFailure (List Delivery) ⊕ LongPoll) × LeaseStore :=
  if p.isBeyond s then (.inl (.error .beyondClock), s)
  else
    match s.take now p.request with
    | (.error e, s) => (.inl (.error e), s)
    | (.ok [], s) =>
      if p.deadline ≤ now then (.inl (.ok []), s)
      else (.inr { p with lookAt := now + min (p.deadline - now) tick }, s)
    | (.ok ds, s) => (.inl (.ok ds), s)

end LongPoll

end Intake
