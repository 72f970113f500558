import Intake.Delivery
import Intake.QueueOptions
import Intake.Text.Quoted

/-! # Sources of messages

A `Source` is a queue as the listener knows it once its name has been resolved: where
it is, under which options it is served and whether failed messages end up in a
dead-letter queue.  From a source come the calls to the broker (`Polling`) and what a
handler gets to see of a delivery (`Letter`). -/

namespace Intake

/-- A resolved queue. -/
structure Source where
  /-- The name under which the queue is registered. -/
  name : String
  /-- Where the broker keeps it. -/
  destination : String
  options : QueueOptions
  /-- Whether a dead-letter queue catches what fails too often. -/
  redrive : Bool
deriving DecidableEq, Repr

/-- The parameters of one receive call. -/
structure ReceiveRequest where
  destination : String
  /-- Most messages wanted. -/
  limit : Nat
  visibility : Option Nat
  wait : Option Nat
deriving DecidableEq, Repr

/-- How a receive call is made for a source with so many free slots. -/
abbrev Polling := Source → Nat → ReceiveRequest

/-- Ask for as many messages as there are free slots, and at most a batch. -/
def Polling.bySlots : Polling := fun s free =>
  { destination := s.destination, limit := min free s.options.batch,
    visibility := s.options.visibility, wait := s.options.wait }

/-- Ask for the same number each time, under the broker's own lease. -/
def Polling.constant (n : Nat) : Polling := fun s _ =>
  { destination := s.destination, limit := n, visibility := none, wait := s.options.wait }

/-- What lets a handler delete the delivery that it is given. -/
structure Acknowledgment where
  queue : String
  destination : String
  receipt : String
deriving DecidableEq, Repr

/-- An acknowledgment in words. -/
def Acknowledgment.describe (a : Acknowledgment) : String :=
  "Acknowledgment \x7b queue_name: " ++ Text.quoted a.queue
    ++ ", destination: " ++ Text.quoted a.destination
    ++ ", receipt_handle: " ++ Text.quoted a.receipt ++ " \x7d"

/-- A message as a handler sees it. -/
structure Letter where
  payload : String
  headers : Table String
  /-- Only where the handler is the one who deletes. -/
  acknowledgment : Option Acknowledgment
deriving DecidableEq, Repr

/-- The header that holds the name of the queue. -/
def queueHeader : String := "LogicalResourceId"

/-- The header that holds the receipt. -/
def receiptHeader : String := "ReceiptHandle"

/-- The header that holds the identifier of the message. -/
def idHeader : String := "MessageId"

/-- The name of the queue as the headers give it. -/
def Letter.queueName (l : Letter) : Option String := l.headers.get? queueHeader

namespace Source

/-- The headers of a delivery: the attributes of the broker, over them those of the
    sender, and over all the three reserved ones. -/
def headers (s : Source) (d : Delivery) : Table String :=
  let h := d.systemAttributes.setAll d.attributes.entries
  let h := (h.set queueHeader s.name).set receiptHeader d.receipt
  match d.id with
  | some id => h.set idHeader id
  | none => h

/-- The acknowledgment of a delivery: given where nothing else deletes. -/
def acknowledgment? (s : Source) (d : Delivery) : Option Acknowledgment :=
  if s.options.policy = .never then some ⟨s.name, s.destination, d.receipt⟩ else none

/-- What a handler gets of a delivery. -/
def letter (s : Source) (d : Delivery) : Letter :=
  ⟨d.body, s.headers d, s.acknowledgment? d⟩

end Source

end Intake
