import Intake.LeaseStore
import Intake.Notice
import Intake.Sqs.Dialogue
import Intake.Sqs.Message
import Intake.Word

/-! # The queue service as a broker

What a broker does, put into requests to the Simple Queue Service.  The service takes
at most `receiveLimit` messages at a time and waits at most `waitLimit` seconds; numbers
are sent in 32 bits with a sign. -/

namespace Intake.Sqs

/-- Most messages that the service hands out at a time. -/
def receiveLimit : Nat := 10

/-- The longest wait of a receive call, in seconds. -/
def waitLimit : Nat := 20

/-- A number brought into 32 bits with a sign. -/
def signed32 (n : Nat) : Int := (n : Int).bmod size32

/-- Whole seconds of some milliseconds. -/
def wholeSeconds (milliseconds : Nat) : Nat := milliseconds / 1000

/-- Where the service is: at its usual place in a region, or somewhere else.  The address
    ends in one slash. -/
def address (region : String) (endpoint : Option String) : String :=
  let place := endpoint.getD ("https://sqs." ++ region ++ ".amazonaws.com")
  String.ofList (place.toList.reverse.dropWhile (· = '/')).reverse ++ "/"

/-- Why a request came to nothing. -/
inductive Failure
  | refused (code : String)
  | unreachable
  /-- The reply cannot be read. -/
  | unreadable
deriving DecidableEq, Repr

/-- A failed request as the failure of a broker. -/
def Failure.cause : Failure → BrokerError
  | .refused _ | .unreadable => .refused "service error"
  | .unreachable => .refused "dispatch failure"

/-- The code of the refusal that there is no such queue. -/
def noSuchQueue : String := "AWS.SimpleQueueService.NonExistentQueue"

/-- Ask something and read the reply. -/
def request {α : Type} (action : String) (parameters : List (String × Json))
    (read : Json → Option α) : Dialogue (Except Failure α) :=
  .ask ⟨action, Json.mkObj parameters⟩ fun
    | .success v =>
      match read v with
      | some a => .done (.ok a)
      | none => .done (.error .unreadable)
    | .refused code => .done (.error (.refused code))
    | .unreachable => .done (.error .unreachable)

/-- The result of a request for a broker's user. -/
def answer {α : Type} : Except Failure α → Except BrokerError α
  | .ok a => .ok a
  | .error e => .error e.cause

/-- The text in a field of a reply. -/
def field? (k : String) (v : Json) : Option (Option String) := do
  let fs ← fieldsOr? (some v)
  textOr? (Table.lookup k fs)

/-- Make a queue. -/
def createQueue (name : String) : Dialogue (Except BrokerError String × List Notice) :=
  (request "CreateQueue" [("QueueName", .str name)] (field? "QueueUrl")).map fun
    | .ok (some url) => (.ok url, [.queueCreated name url])
    | .ok none => (.error (.refused "CreateQueue returned no queue URL"), [])
    | .error e => (.error e.cause, [])

/-- The destination of a name; a destination stands for itself.  A queue that does not
    exist is made if that is wanted. -/
def resolve (autoCreate : Bool) (name : String) :
    Dialogue (Except BrokerError String × List Notice) :=
  if isDestination name then .done (.ok name, [])
  else
    (request "GetQueueUrl" [("QueueName", .str name)] (field? "QueueUrl")).bind fun
      | .ok (some url) => .done (.ok url, [])
      | .ok none => .done (.error (.unknownQueue name), [])
      | .error e =>
        if e ≠ .refused noSuchQueue then .done (.error e.cause, [])
        else if autoCreate then createQueue name
        else .done (.error (.unknownQueue name), [])

/-- The parameters of a receive call. -/
def receiveParameters (r : ReceiveRequest) : List (String × Json) :=
  [("QueueUrl", .str r.destination),
   ("MaxNumberOfMessages", .nat (min (max r.limit 1) receiveLimit)),
   ("MessageSystemAttributeNames", .arr [.str "All"]),
   ("MessageAttributeNames", .arr [.str "All"])]
  ++ (match r.visibility with
    | some v => [("VisibilityTimeout", .int (signed32 (wholeSeconds v)))]
    | none => [])
  ++ (match r.wait with
    | some w => [("WaitTimeSeconds", .int (min (max (signed32 (wholeSeconds w)) 0) waitLimit))]
    | none => [])

/-- Receive messages; what has no receipt is reported and left out. -/
def receive (r : ReceiveRequest) : Dialogue (Except BrokerError (List Delivery) × List Notice) :=
  (request "ReceiveMessage" (receiveParameters r) messages?).map fun
    | .ok ms => (.ok (ms.filterMap Sum.getLeft?),
        (ms.filterMap Sum.getRight?).map (.noReceipt r.destination))
    | .error e => (.error e.cause, [])

/-- Delete what was delivered under a receipt. -/
def delete (dest receipt : String) : Dialogue (Except BrokerError Unit) :=
  (request "DeleteMessage" [("QueueUrl", .str dest), ("ReceiptHandle", .str receipt)]
    fun _ => some ()).map answer

/-- The redrive rule of a queue as the service tells it, if it has one. -/
def redriveRule (dest : String) : Dialogue (Except BrokerError (Option String)) :=
  (request "GetQueueAttributes"
    [("QueueUrl", .str dest), ("AttributeNames", .arr [.str "RedrivePolicy"])]
    fun v => do
      let fs ← fieldsOr? (some v)
      let attributes ← texts? (Table.lookup "Attributes" fs)
      return attributes.get? "RedrivePolicy").map answer

/-- Send a message after a delay in seconds; the result is its identifier, empty if the
    service does not tell it. -/
def send (dest body : String) (delay : Nat) : Dialogue (Except BrokerError String) :=
  (request "SendMessage"
    [("QueueUrl", .str dest), ("MessageBody", .str body),
     ("DelaySeconds", .int (signed32 delay))]
    fun v => (field? "MessageId" v).map (·.getD "")).map answer

end Intake.Sqs
