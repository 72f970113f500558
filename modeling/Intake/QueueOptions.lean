import Intake.DeletePolicy

/-! # Options of a queue

How much is taken from a queue at a time, for how long it is leased, and what happens
to a message afterwards.  Durations are in milliseconds. -/

namespace Intake

/-- The options under which a queue is served. -/
structure QueueOptions where
  /-- Most messages in hand at a time. -/
  batch : Nat
  /-- Length of a lease; the broker's own when absent. -/
  visibility : Option Nat
  /-- Length of a long poll; the broker's own when absent. -/
  wait : Option Nat
  policy : DeletePolicy
  /-- How many slots have to be free to wake a waiting poller. -/
  wake : Option Nat
deriving DecidableEq, Repr

namespace QueueOptions

/-- The options of a queue about which nothing is said. -/
def standard : QueueOptions := ⟨10, none, none, .onSuccess, none⟩

/-- The number of free slots that wakes a waiting poller: the chosen one or half a
    batch, and at least one. -/
def wakeAt (o : QueueOptions) : Nat := max 1 (o.wake.getD (o.batch / 2))

/-- How long a poller without free slots waits before it looks again: as long as a
    long poll, but at least `minWait`. -/
def slotWait (o : QueueOptions) (minWait : Nat) : Nat := max (o.wait.getD minWait) minWait

end QueueOptions

end Intake
