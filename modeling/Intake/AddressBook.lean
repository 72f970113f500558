import Intake.LeaseStore

/-! # Remembering destinations

The destination of a queue never changes, so an `AddressBook` keeps what a broker once
answered.  A failure is not kept: a queue that is made later is found by the next call.
A name that is a destination already needs no broker. -/

namespace Intake

/-- Destinations by name, with the number of times that a broker was asked. -/
structure AddressBook where
  known : Table String
  asked : Nat
deriving DecidableEq, Repr

namespace AddressBook

/-- Nothing is known. -/
def empty : AddressBook := ⟨.empty, 0⟩

/-- Number of names that are known. -/
def size (b : AddressBook) : Nat := b.known.entries.length

/-- Forget a name. -/
def forget (b : AddressBook) (name : String) : AddressBook :=
  { b with known := b.known.erase name }

/-- The destination of a name, asking only if it is not known. -/
def resolve {σ : Type} (ask : String → σ → Except BrokerError String × σ) (name : String)
    (b : AddressBook) (s : σ) : Except BrokerError String × AddressBook × σ :=
  if isDestination name then (.ok name, b, s)
  else
    match b.known.get? name with
    | some dest => (.ok dest, b, s)
    | none =>
      match ask name s with
      | (.ok dest, s) => (.ok dest, ⟨b.known.set name dest, b.asked + 1⟩, s)
      | (.error e, s) => (.error e, { b with asked := b.asked + 1 }, s)

end AddressBook

end Intake
