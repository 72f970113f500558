/-! # Causes of failure

What can go wrong at the broker (`BrokerError`, `ReceiveFailure`), in a handler
(`HandlerError`) and in the listener (`ListenerError`), each with its wording (`message`). -/

namespace Intake

/-- Why a broker refused. -/
inductive BrokerError
  /-- There is no such queue. -/
  | unknownQueue (name : String)
  /-- The receipt does not belong to the latest delivery of a message in the queue. -/
  | staleReceipt (receipt : String)
  /-- The broker says why. -/
  | refused (text : String)
  /-- The payload has no text form. -/
  | unserializable (text : String)
deriving DecidableEq, Repr

/-- The wording of a broker failure. -/
def BrokerError.message : BrokerError → String
  | .unknownQueue name => "Queue not found: " ++ name
  | .staleReceipt r => "Broker error: Receipt handle is invalid or expired: " ++ r
  | .refused text => "Broker error: " ++ text
  | .unserializable text => "Serialization error: " ++ text

/-- Why a receive call gives no batch. -/
inductive ReceiveFailure
  /-- The broker refused. -/
  | refused (cause : BrokerError)
  /-- The call broke off at an instant that lies beyond the clock. -/
  | beyondClock
deriving DecidableEq, Repr

/-- What is said when a call breaks off at an instant that lies beyond the clock. -/
def beyondClockText : String := "overflow when adding duration to instant"

/-- How a handler failed. -/
inductive HandlerError
  /-- It could not process the message. -/
  | processing (text : String)
  /-- Anything else. -/
  | unexpected (text : String)
deriving DecidableEq, Repr

/-- The wording of a handler failure. -/
def HandlerError.message : HandlerError → String
  | .processing text => "Processing failed: " ++ text
  | .unexpected text => "Unexpected handler failure: " ++ text

/-- Why the listener refused. -/
inductive ListenerError
  | notRegistered (queue : String)
  | unresolved (queue : String) (cause : BrokerError)
  | poolClosed
  | shutDown
deriving DecidableEq, Repr

/-- The wording of a listener failure. -/
def ListenerError.message : ListenerError → String
  | .notRegistered q => "Queue not registered: " ++ q
  | .unresolved q e => "Failed to resolve queue " ++ q ++ ": " ++ e.message
  | .poolClosed => "Worker pool is closed"
  | .shutDown => "Container has been shut down"

end Intake
