import Intake.Text.Blank
import Intake.Text.Upper

/-! # When a handled message is deleted

A queue has one `DeletePolicy`.  It has an exact name (`name`, `ofName?`) and a
lenient reading (`read?`), which ignores case and blanks around the name and takes a
hyphen for an underscore.  `deletes` decides about one delivery after its handler
ended:

* `always` deletes, `never` leaves
* `onSuccess` deletes what was handled well
* `noRedrive` also deletes a failure that no dead-letter queue would ever catch -/

namespace Intake

/-- When a message is deleted after its handler ended. -/
inductive DeletePolicy
  | onSuccess
  | always
  | noRedrive
  | never
deriving DecidableEq, Repr, Inhabited

/-- How a handler ended, as far as deletion is concerned. -/
inductive Outcome
  | success
  | failure
deriving DecidableEq, Repr

/-- A text that names no policy. -/
structure UnknownPolicy where
  text : String
deriving DecidableEq, Repr

/-- The wording of the refusal. -/
def UnknownPolicy.message (e : UnknownPolicy) : String :=
  "Unknown deletion policy: " ++ e.text

namespace DeletePolicy

/-- The name of a policy. -/
def name : DeletePolicy → String
  | onSuccess => "ON_SUCCESS"
  | always => "ALWAYS"
  | noRedrive => "NO_REDRIVE"
  | never => "NEVER"

/-- The policy with exactly this name. -/
def ofName? (s : String) : Option DeletePolicy :=
  [onSuccess, always, noRedrive, never].find? (·.name = s)

/-- A name in the form in which names are compared: no blanks around it, upper case,
    underscores for hyphens. -/
def canonical (s : String) : String :=
  String.ofList <|
    (Text.upperAll (Text.trim s).toList).map fun c => if c = '-' then '_' else c

/-- The policy that a text names in any accepted spelling. -/
def read (s : String) : Except UnknownPolicy DeletePolicy :=
  match ofName? (canonical s) with
  | some p => .ok p
  | none => .error ⟨s⟩

/-- Whether a delivery is deleted after its handler ended, on a queue with or without
    a dead-letter queue. -/
def deletes (p : DeletePolicy) (o : Outcome) (redrive : Bool) : Bool :=
  match p, o with
  | never, _ => false
  | always, _ => true
  | onSuccess, .success => true
  | onSuccess, .failure => false
  | noRedrive, .success => true
  | noRedrive, .failure => !redrive

/-- The name of a policy is the name of that policy. -/
@[simp] theorem ofName?_name (p : DeletePolicy) : ofName? p.name = some p := by
  cases p <;> decide

/-- Under the policy that never deletes no message is deleted. -/
@[simp] theorem not_never_deletes (o : Outcome) (r : Bool) : never.deletes o r = false := rfl

end DeletePolicy

end Intake
