import Intake.Table
import Intake.Text.Decimal
import Intake.Word

/-! # Deliveries

A `Delivery` is a message as a receive call hands it out: the body, the receipt under
which this delivery can be deleted, and the attributes that the broker and the sender
attached. -/

namespace Intake

/-- One delivery of a message. -/
structure Delivery where
  /-- The identifier that the broker gave the message, if it told it. -/
  id : Option String
  /-- What deletes this delivery. -/
  receipt : String
  body : String
  /-- What the broker says about the message. -/
  systemAttributes : Table String
  /-- What the sender says about the message. -/
  attributes : Table String
deriving DecidableEq, Repr

/-- The system attribute that holds the number of deliveries so far. -/
def receiveCountKey : String := "ApproximateReceiveCount"

/-- How often the message was delivered, if the broker says so in a number of 32 bits. -/
def Delivery.receiveCount (d : Delivery) : Option Nat :=
  (d.systemAttributes.get? receiveCountKey).bind (Text.unsigned? size32)

end Intake
