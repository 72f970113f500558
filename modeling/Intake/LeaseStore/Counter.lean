import Intake.LeaseStore.LongPoll
import Intake.Outbox

/-! # A store in use

A `Counter` is a store with its address book and the long polls that wait at it, each
under a name.  Its timeline lets each waiting call look when its time has come. -/

namespace Intake

/-- A store, its address book and the receive calls in progress. -/
structure Counter where
  outbox : Outbox
  polls : List (String × LongPoll)
  /-- What has returned: the instant, the name of the call and the result, newest first. -/
  returned : List (Nat × String × Except BrokerError (List Delivery))

namespace Counter

/-- A store at which nobody waits. -/
def ofStore (s : LeaseStore) : Counter := ⟨⟨s, .empty⟩, [], []⟩

/-- The store. -/
def store (c : Counter) : LeaseStore := c.outbox.store

/-- Change the store. -/
def withStore (c : Counter) (s : LeaseStore) : Counter :=
  { c with outbox := { c.outbox with store := s } }

/-- A receive call begins. -/
def receive (c : Counter) (now : Nat) (name : String) (r : ReceiveRequest) : Counter :=
  { c with polls := c.polls ++ [(name, LongPoll.start now c.store r)] }

/-- A receive call is over.  It returns, unless it broke off. -/
def finish (c : Counter) (now : Nat) (name : String) :
    Except ReceiveFailure (List Delivery) → Counter
  | .ok ds => { c with returned := (now, name, .ok ds) :: c.returned }
  | .error (.refused e) => { c with returned := (now, name, .error e) :: c.returned }
  | .error .beyondClock => c

/-- A message has been sent: all waiting calls look. -/
def wakeAll (c : Counter) (now : Nat) : Counter :=
  { c with polls := c.polls.map fun e => (e.1, e.2.wake now) }

/-- Take the sender's side through a step; if it sent something, all waiting calls look. -/
def afterSending (c : Counter) (now : Nat) (r : Except BrokerError String × Outbox) :
    Except BrokerError String × Counter :=
  match r with
  | (.ok id, o) => (.ok id, { c with outbox := o }.wakeAll now)
  | (.error e, o) => (.error e, { c with outbox := o })

/-- Let the first call whose time has come look.  A call that waits on goes behind the
    others. -/
def lookFirst (now : Nat) (c : Counter) :
    List (String × LongPoll) → List (String × LongPoll) → Option Counter
  | _, [] => none
  | before, (name, p) :: after =>
    if p.lookAt ≤ now then
      match p.look now c.store with
      | (.inl r, s) =>
        some ({ c.withStore s with polls := before.reverse ++ after }.finish now name r)
      | (.inr p, s) => some { c.withStore s with polls := before.reverse ++ after ++ [(name, p)] }
    else lookFirst now c ((name, p) :: before) after

/-- A counter in time. -/
def timeline : Timeline Counter where
  act? now c := c.lookFirst now [] c.polls
  next? c := earliest (c.polls.map (·.2.lookAt))

/-- Whether a call is still waiting. -/
def isWaiting (c : Counter) (name : String) : Bool := c.polls.any (·.1 = name)

end Counter

end Intake
