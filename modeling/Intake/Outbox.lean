import Intake.AddressBook

/-! # Sending messages

A payload is written down as text, the name of the queue is resolved, and the text is
sent with a delay.  Brokers take delays in whole seconds up to a quarter of an hour, so
a delay is brought into that range first (`wholeDelay`). -/

namespace Intake

/-- The longest delay, in seconds. -/
def maxDelay : Nat := 900

/-- Nanoseconds in a second. -/
def perSecond : Nat := 1000000000

/-- The delay in seconds for a wish in nanoseconds: none for none, and otherwise the whole
    seconds brought between one and `maxDelay`. -/
def wholeDelay (nanoseconds : Nat) : Nat :=
  if nanoseconds = 0 then 0
  else if nanoseconds < perSecond then 1
  else if maxDelay * perSecond < nanoseconds then maxDelay
  else nanoseconds / perSecond

/-- Nanoseconds in some milliseconds. -/
def nanoseconds (milliseconds : Nat) : Nat := milliseconds * 1000000

/-- What is sent. -/
inductive Payload
  | json (v : Json)
  /-- A floating point value that is no number. -/
  | notANumber
  /-- A map whose keys are not texts. -/
  | oddlyKeyed

/-- The text of a payload. -/
def Payload.text : Payload → Except BrokerError String
  | .json v => .ok v.render
  | .notANumber => .ok Json.null.render
  | .oddlyKeyed => .error (.unserializable "key must be a string")

/-- A store in memory with the address book of its senders. -/
structure Outbox where
  store : LeaseStore
  book : AddressBook

namespace Outbox

/-- Resolve a name through the address book. -/
def resolve (o : Outbox) (name : String) : Except BrokerError String × Outbox :=
  match o.book.resolve (fun n s => s.resolve n) name o.store with
  | (r, book, store) => (r, ⟨store, book⟩)

/-- Send a text to a queue with a delay in nanoseconds. -/
def sendText (o : Outbox) (now : Nat) (name body : String) (delay : Nat) :
    Except BrokerError String × Outbox :=
  match o.resolve name with
  | (.error e, o) => (.error e, o)
  | (.ok dest, o) =>
    match o.store.send now dest body (wholeDelay delay) with
    | (r, store) => (r, { o with store })

/-- Send a payload to a queue with a delay in nanoseconds. -/
def publish (o : Outbox) (now : Nat) (name : String) (p : Payload) (delay : Nat) :
    Except BrokerError String × Outbox :=
  match p.text with
  | .error e => (.error e, o)
  | .ok body => o.sendText now name body delay

end Outbox

end Intake
