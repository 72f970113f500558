/-! # Slots

A counter of free slots between zero and a capacity.  A poller takes a slot for each
message that it hands to a worker, and the slot comes back when the message is
settled; so the slots bound how much of a queue is in hand.

* `acquire`  takes what is there, at most what is asked
* `release`  puts back, never beyond the capacity
* `wakes`    whether enough is free to wake those who wait -/

namespace Intake

/-- The slots of a queue. -/
structure Slots where
  capacity : Nat
  /-- How many slots have to be free to wake a waiter. -/
  threshold : Nat
  free : Nat
  /-- Slots that came back although none was missing, and were ignored. -/
  ignored : Nat
deriving DecidableEq, Repr, Inhabited

namespace Slots

/-- All slots free.  The threshold is brought between one and the capacity. -/
def ofCapacity (capacity threshold : Nat) : Slots :=
  ⟨capacity, max 1 (min threshold (max capacity 1)), capacity, 0⟩

/-- How many of `n` slots that come back were missing. -/
def missing (s : Slots) (n : Nat) : Nat := min n (s.capacity - s.free)

/-- How many slots a request for `n` gets. -/
def granted (s : Slots) (n : Nat) : Nat := min n s.free

/-- Take up to `n` slots. -/
def acquire (s : Slots) (n : Nat) : Slots := { s with free := s.free - s.granted n }

/-- Put `n` slots back; what is beyond the capacity is ignored. -/
def release (s : Slots) (n : Nat) : Slots :=
  { s with free := s.free + s.missing n, ignored := s.ignored + (n - s.missing n) }

/-- Whether a release that leads here wakes the waiters. -/
def wakes (s : Slots) : Bool := s.threshold ≤ s.free

/-- Taking slots leaves their number as it is. -/
@[simp] theorem capacity_acquire (s : Slots) (n : Nat) : (s.acquire n).capacity = s.capacity := rfl

/-- Giving slots back leaves their number as it is. -/
@[simp] theorem capacity_release (s : Slots) (n : Nat) : (s.release n).capacity = s.capacity := rfl

/-- No more slots are taken than are free. -/
theorem free_acquire (s : Slots) (n : Nat) : (s.acquire n).free = s.free - min n s.free := rfl

/-- No more slots are given back than are missing. -/
theorem free_release (s : Slots) (n : Nat) :
    (s.release n).free = s.free + min n (s.capacity - s.free) := rfl

end Slots

end Intake
