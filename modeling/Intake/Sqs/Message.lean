import Intake.Delivery
import Intake.Json

/-! # Messages as the queue service writes them

A reply may leave a field out or set it to null.  A field of the wrong kind spoils the
whole reply. -/

namespace Intake.Sqs

/-- An object that may be absent: its fields. -/
def fieldsOr? : Option Json → Option (List (String × Json))
  | none | some .null => some []
  | some (.obj fs) => some fs
  | some _ => none

/-- A text that may be absent. -/
def textOr? : Option Json → Option (Option String)
  | none | some .null => some none
  | some (.str s) => some (some s)
  | some _ => none

/-- The texts of an object; fields without a value are left out. -/
def texts? (v : Option Json) : Option (Table String) := do
  let fs ← fieldsOr? v
  let es ← fs.mapM fun e => (textOr? (some e.2)).map fun t => t.map fun t => (e.1, t)
  return .ofList (es.filterMap id)

/-- The attributes of a sender that are texts. -/
def senderTexts? (v : Option Json) : Option (Table String) := do
  let fs ← fieldsOr? v
  let es ← fs.mapM fun e => do
    let parts ← fieldsOr? (some e.2)
    let t ← textOr? (Table.lookup "StringValue" parts)
    return t.map fun t => (e.1, t)
  return .ofList (es.filterMap id)

/-- A message: a delivery, or the identifier of a message without a receipt. -/
def message? (v : Json) : Option (Delivery ⊕ Option String) := do
  let fs ← fieldsOr? (some v)
  let id ← textOr? (Table.lookup "MessageId" fs)
  let receipt ← textOr? (Table.lookup "ReceiptHandle" fs)
  let body ← textOr? (Table.lookup "Body" fs)
  let systemAttributes ← texts? (Table.lookup "Attributes" fs)
  let attributes ← senderTexts? (Table.lookup "MessageAttributes" fs)
  return match receipt with
    | some receipt => .inl { id, receipt, body := body.getD "", systemAttributes, attributes }
    | none => .inr id

/-- The messages of a reply. -/
def messages? (v : Json) : Option (List (Delivery ⊕ Option String)) := do
  let fs ← fieldsOr? (some v)
  match Table.lookup "Messages" fs with
  | none | some .null => return []
  | some (.arr vs) => vs.mapM message?
  | some _ => none

end Intake.Sqs
