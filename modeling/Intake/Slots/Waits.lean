import Intake.Slots
import Intake.Table
import Intake.Timeline

/-! # Waiting for slots

Any number of callers may wait until a slot is free.  A wait ends at once if a slot is
free when it begins; otherwise it ends at the first release that leaves enough slots
free, or when its time is over, and its outcome tells whether a slot is free then. -/

namespace Intake

/-- How a wait for slots ended. -/
inductive WaitOutcome
  | available
  | timedOut
deriving DecidableEq, Repr

/-- A wait that has not ended. -/
structure SlotWaiter where
  name : String
  deadline : Nat
  /-- Whether a release has ended it. -/
  woken : Bool
deriving DecidableEq, Repr

/-- Slots with single slots held under names, and waits. -/
structure SlotWaits where
  slots : Slots
  /-- Names under which a slot is held. -/
  held : List String
  waiters : List SlotWaiter
  /-- Ended waits: the instant, the name and the outcome, newest first. -/
  ended : List (Nat × String × WaitOutcome)
deriving DecidableEq, Repr

namespace SlotWaits

/-- Slots on which nobody waits. -/
def ofSlots (s : Slots) : SlotWaits := ⟨s, [], [], []⟩

/-- Take up to `n` slots. -/
def acquire (w : SlotWaits) (n : Nat) : SlotWaits := { w with slots := w.slots.acquire n }

/-- Put `n` slots back and wake the waiters if enough are free. -/
def release (w : SlotWaits) (n : Nat) : SlotWaits :=
  let w := { w with slots := w.slots.release n }
  if w.slots.wakes then
    { w with waiters := w.waiters.map fun x => { x with woken := true } }
  else w

/-- Take a slot under a name, if one is free; a slot held under the name before comes
    back afterwards. -/
def hold? (w : SlotWaits) (name : String) : Option SlotWaits :=
  if w.slots.granted 1 = 1 then
    let w := w.acquire 1
    some (if name ∈ w.held then w.release 1 else { w with held := name :: w.held })
  else none

/-- Give back the slot that is held under a name, if there is one. -/
def drop? (w : SlotWaits) (name : String) : Option SlotWaits :=
  if name ∈ w.held then some ({ w with held := w.held.erase name }.release 1) else none

/-- Begin to wait; if a slot is free the wait is over at once. -/
def await (w : SlotWaits) (now : Nat) (name : String) (timeout : Nat) : SlotWaits :=
  if 0 < w.slots.free then { w with ended := (now, name, .available) :: w.ended }
  else { w with waiters := w.waiters ++ [⟨name, now + timeout, false⟩] }

/-- Whether a wait ends at this instant. -/
def ends (now : Nat) (x : SlotWaiter) : Bool := x.woken || x.deadline ≤ now

/-- The outcome of a wait that ends now. -/
def outcome (w : SlotWaits) : WaitOutcome := if 0 < w.slots.free then .available else .timedOut

/-- End a wait. -/
def endWait (now : Nat) (w : SlotWaits) (x : SlotWaiter) : SlotWaits :=
  { w with waiters := w.waiters.erase x, ended := (now, x.name, w.outcome) :: w.ended }

/-- End the first wait that ends at this instant. -/
def endFirst? (now : Nat) (w : SlotWaits) : Option SlotWaits :=
  (w.waiters.find? (ends now)).map (w.endWait now)

/-- Slots and waits in time. -/
def timeline : Timeline SlotWaits where
  act? := endFirst?
  next? w := earliest (w.waiters.map (·.deadline))

/-- Whether a wait has not ended. -/
def isWaiting (w : SlotWaits) (name : String) : Bool := w.waiters.any (·.name = name)

end SlotWaits

end Intake
