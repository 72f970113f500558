import Intake.Failure
import Intake.Json
import Intake.Source
import Intake.Text.Search
import Intake.Word

/-! # A store of leased messages

A `LeaseStore` is a broker in memory.  A received message stays in its queue, hidden
for the length of a lease; when the lease ends it can be received again under another
receipt.  A queue may have a redrive rule: a message that was received often enough is
moved to a dead-letter queue by the next receive call that comes across it.

* `create`, `createRedrive`  make queues
* `send`                     store a message
* `take`                     one pass of a receive call
* `delete`                   remove what was delivered last under a receipt

Instants are in milliseconds, and the clock tells them up to a last one.  A receive call
that would hide a message beyond it breaks off in the middle of its pass.  Where
identifiers and receipts come from is left to a `Mint`. -/

namespace Intake

/-- Where a message goes after so many deliveries. -/
structure Redrive where
  deadLetters : String
  limit : Nat
deriving DecidableEq, Repr

/-- A message in a queue. -/
structure Stored where
  id : String
  body : String
  /-- When it was sent, on the wall clock. -/
  sentAt : Nat
  /-- The instant from which it can be received. -/
  visibleAt : Nat
  /-- Deliveries so far. -/
  count : Nat
  /-- The receipt of the latest delivery. -/
  receipt : Option String
deriving DecidableEq, Repr

/-- A queue of a store. -/
structure StoreQueue where
  messages : List Stored
  redrive : Option Redrive
deriving DecidableEq, Repr

/-- A queue without messages and without a redrive rule. -/
def StoreQueue.empty : StoreQueue := ⟨[], none⟩

/-- Where fresh texts come from.  The first argument tells what was named before. -/
structure Mint where
  /-- The identifier of a message with this body, after the bodies sent before. -/
  id : List String → String → String
  /-- The receipt of a delivery of this body, after the bodies delivered before. -/
  receipt : List String → String → String

/-- Number messages and deliveries in their order. -/
def Mint.serial : Mint where
  id sent _ := "m" ++ toString (sent.length + 1)
  receipt delivered _ := "r" ++ toString (delivered.length + 1)

/-- Name messages and deliveries after their bodies, and number the deliveries of a body. -/
def Mint.byBody : Mint where
  id _ body := "id-of-" ++ body
  receipt delivered body := body ++ "#" ++ toString (delivered.count body + 1)

/-- A broker in memory. -/
structure LeaseStore where
  queues : Table StoreQueue
  mint : Mint
  /-- Bodies sent so far, newest first. -/
  sent : List String
  /-- Bodies delivered so far, newest first. -/
  delivered : List String
  /-- Whether a queue that is asked for is made if it is missing. -/
  autoCreate : Bool
  /-- Length of a lease when a call does not say. -/
  visibility : Nat
  /-- Length of a long poll when a call does not say. -/
  wait : Nat
  /-- The wall clock at instant zero. -/
  wallClock : Nat
  /-- The last instant that the clock can tell. -/
  lastInstant : Nat

/-- What begins every destination in memory. -/
def memoryScheme : String := "memory://"

/-- Whether a name is a destination already. -/
def isDestination (name : String) : Bool := Text.hasInfix "://".toList name.toList

/-- The attribute that holds when a message was sent. -/
def sentAtKey : String := "SentTimestamp"

namespace Stored

/-- Whether a message can be received at an instant. -/
def isVisible (m : Stored) (now : Nat) : Bool := m.visibleAt ≤ now

/-- Whether a redrive rule forbids another delivery. -/
def isExhausted (m : Stored) (rule : Option Redrive) : Bool :=
  rule.any fun r => r.limit ≤ m.count

/-- Whether a message is leased to a receiver. -/
def isInFlight (m : Stored) (now : Nat) : Bool := m.receipt.isSome && now < m.visibleAt

/-- A message when it is delivered under a receipt. -/
def deliver (m : Stored) (receipt : String) (hiddenUntil : Nat) : Stored :=
  { m with count := m.count + 1, receipt := some receipt, visibleAt := hiddenUntil }

/-- A message when it arrives in a dead-letter queue. -/
def buried (m : Stored) (now : Nat) : Stored :=
  { m with count := 0, receipt := none, visibleAt := now }

/-- What a receiver gets of a delivered message. -/
def delivery (m : Stored) : Delivery :=
  { id := some m.id, receipt := m.receipt.getD "", body := m.body
    systemAttributes := .ofList [(receiveCountKey, toString m.count), (sentAtKey, toString m.sentAt)]
    attributes := .empty }

end Stored

/-- What one pass over a queue leads to. -/
structure Pass where
  /-- What stays in the queue. -/
  kept : List Stored
  /-- What is delivered; it is among what stays. -/
  taken : List Stored
  /-- What leaves the queue because it was delivered often enough. -/
  exhausted : List Stored

/-- One pass over the messages of a queue, in order, until `limit` are delivered.  Hidden
    messages are passed by; of the visible ones the exhausted leave the queue and the
    others are delivered and hidden.  How long a message is hidden then is given by how long
    it was hidden before. -/
def pass (mint : Mint) (rule : Option Redrive) (now : Nat) (hide : Nat → Nat) :
    Nat → List String → List Stored → Pass
  | 0, _, ms => ⟨ms, [], []⟩
  | _ + 1, _, [] => ⟨[], [], []⟩
  | limit + 1, delivered, m :: ms =>
    if !m.isVisible now then
      let p := pass mint rule now hide (limit + 1) delivered ms
      { p with kept := m :: p.kept }
    else if m.isExhausted rule then
      let p := pass mint rule now hide (limit + 1) delivered ms
      { p with exhausted := m :: p.exhausted }
    else
      let m' := m.deliver (mint.receipt delivered m.body) (hide m.visibleAt)
      let p := pass mint rule now hide limit (m.body :: delivered) ms
      ⟨m' :: p.kept, m' :: p.taken, p.exhausted⟩

namespace LeaseStore

/-- A clock that counts seconds in 63 bits has run for a second at instant zero. -/
def clockEnd : Nat := 1000 * (size64 / 2) - 1001

/-- An empty store. -/
def empty : LeaseStore :=
  { queues := .empty, mint := .serial, sent := [], delivered := [], autoCreate := false,
    visibility := 30000, wait := 0, wallClock := 0, lastInstant := clockEnd }

/-- The destination of a queue. -/
def destination (name : String) : String := memoryScheme ++ name

/-- The queue that a destination names. -/
def queueName (dest : String) : Except BrokerError String :=
  match Text.stripStart? memoryScheme.toList dest.toList with
  | some cs => .ok (String.ofList cs)
  | none => .error (.unknownQueue dest)

/-- The name of the queue at a destination, and the queue, if it exists. -/
def at? (s : LeaseStore) (dest : String) : Except BrokerError (String × StoreQueue) :=
  match queueName dest with
  | .error e => .error e
  | .ok name =>
    match s.queues.get? name with
    | some q => .ok (name, q)
    | none => .error (.unknownQueue name)

/-- Make a queue; one that exists is left as it is. -/
def create (s : LeaseStore) (name : String) : LeaseStore :=
  if s.queues.contains name then s else { s with queues := s.queues.set name .empty }

/-- Make a queue with a redrive rule, and its dead-letter queue. -/
def createRedrive (s : LeaseStore) (name : String) (rule : Redrive) : LeaseStore :=
  let s := (s.create rule.deadLetters).create name
  { s with queues := s.queues.modify name fun q => { q with redrive := some rule } }

/-- Messages in a queue. -/
def depth (s : LeaseStore) (name : String) : Nat :=
  match s.queues.get? name with
  | some q => q.messages.length
  | none => 0

/-- Messages of a queue that are leased. -/
def inFlight (s : LeaseStore) (now : Nat) (name : String) : Nat :=
  match s.queues.get? name with
  | some q => q.messages.countP (·.isInFlight now)
  | none => 0

/-- Store a message that can be received after `delay` seconds. -/
def send (s : LeaseStore) (now : Nat) (dest body : String) (delay : Nat) :
    Except BrokerError String × LeaseStore :=
  match s.at? dest with
  | .error e => (.error e, s)
  | .ok (name, q) =>
    let id := s.mint.id s.sent body
    let m : Stored := ⟨id, body, s.wallClock + now, now + 1000 * delay, 0, none⟩
    (.ok id, { s with queues := s.queues.set name { q with messages := q.messages ++ [m] },
                      sent := body :: s.sent })

/-- Put what left a queue at the end of its dead-letter queue. -/
def bury (s : LeaseStore) (now : Nat) (rule : Option Redrive) (ms : List Stored) : LeaseStore :=
  match rule with
  | none => s
  | some r =>
    { s with queues := s.queues.modify r.deadLetters fun q =>
        { q with messages := q.messages ++ ms.map (·.buried now) } }

/-- The instant until which a receive call hides what it delivers. -/
def hiddenUntil (s : LeaseStore) (now : Nat) (r : ReceiveRequest) : Nat :=
  now + r.visibility.getD s.visibility

/-- The pass that a receive call makes over a queue. -/
def passOver (s : LeaseStore) (now : Nat) (r : ReceiveRequest) (q : StoreQueue) : Pass :=
  pass s.mint q.redrive now (fun _ => s.hiddenUntil now r) r.limit s.delivered q.messages

/-- The pass of a receive call that breaks off when it should hide the first message that it
    delivers.  The message is counted and has its receipt by then. -/
def brokenPass (s : LeaseStore) (now : Nat) (q : StoreQueue) : Pass :=
  pass s.mint q.redrive now id 1 s.delivered q.messages

/-- Whether a receive call breaks off at a queue: it comes to hide a message, and until when
    lies beyond the clock. -/
def breaksOff (s : LeaseStore) (now : Nat) (r : ReceiveRequest) (q : StoreQueue) : Bool :=
  s.lastInstant < s.hiddenUntil now r && !(s.passOver now r q).taken.isEmpty

/-- What a pass has kept is in its queue. -/
def keep (s : LeaseStore) (name : String) (q : StoreQueue) (p : Pass) : LeaseStore :=
  { s with queues := s.queues.set name { q with messages := p.kept },
           delivered := (p.taken.map Stored.body).reverse ++ s.delivered }

/-- One pass of a receive call: the deliveries, of which an empty list means that nothing
    can be received now.  If it breaks off, it does not come to bury what left the queue. -/
def take (s : LeaseStore) (now : Nat) (r : ReceiveRequest) :
    Except ReceiveFailure (List Delivery) × LeaseStore :=
  match s.at? r.destination with
  | .error e => (.error (.refused e), s)
  | .ok (name, q) =>
    if s.breaksOff now r q then (.error .beyondClock, s.keep name q (s.brokenPass now q))
    else
      let p := s.passOver now r q
      (.ok (p.taken.map Stored.delivery), (s.keep name q p).bury now q.redrive p.exhausted)

/-- Remove the message that was delivered last under a receipt. -/
def delete (s : LeaseStore) (dest receipt : String) : Except BrokerError Unit × LeaseStore :=
  match s.at? dest with
  | .error e => (.error e, s)
  | .ok (name, q) =>
    if q.messages.any (·.receipt = some receipt) then
      let q := { q with messages := q.messages.eraseP (·.receipt = some receipt) }
      (.ok (), { s with queues := s.queues.set name q })
    else (.error (.staleReceipt receipt), s)

/-- The redrive rule of a queue as the broker tells it. -/
def redriveText (r : Redrive) : String :=
  (Json.mkObj [("deadLetterTargetArn", .str (destination r.deadLetters)),
    ("maxReceiveCount", .nat r.limit)]).render

/-- The redrive rule of the queue at a destination, if it has one. -/
def redriveRule (s : LeaseStore) (dest : String) : Except BrokerError (Option String) :=
  match s.at? dest with
  | .error e => .error e
  | .ok (_, q) => .ok (q.redrive.map redriveText)

/-- The destination of a name.  A destination stands for itself, whether its queue exists
    or not. -/
def resolve (s : LeaseStore) (name : String) : Except BrokerError String × LeaseStore :=
  if isDestination name then
    match queueName name with
    | .error e => (.error e, s)
    | .ok _ => (.ok name, s)
  else if s.queues.contains name then (.ok (destination name), s)
  else if s.autoCreate then (.ok (destination name), s.create name)
  else (.error (.unknownQueue name), s)

end LeaseStore

end Intake
