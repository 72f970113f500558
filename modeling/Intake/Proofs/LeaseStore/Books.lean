import Intake.Proofs.LeaseStore.Pass
import Intake.Proofs.Run

/-!
# Calls to a store, and the books on them

A store is called again and again, in any order.  What its answers say is entered in books:
what was sent to which queue, which receipt was given out for which message, what was
removed, what was lost, and which queue has had which dead-letter queue.

- `StoreStep.books`: what one call adds to the books
- `LeaseStore.run`, `LeaseStore.steps`: a sequence of calls
- `Unbroken`: no receive call among some calls breaks off
-/

namespace Intake

/-- One call to a store. -/
inductive StoreCall
  | create (name : String)
  | createRedrive (name : String) (rule : Redrive)
  | send (dest body : String) (delay : Nat)
  /-- One pass of a receive call. -/
  | take (r : ReceiveRequest)
  | delete (dest receipt : String)
  | resolve (name : String)

/-- Whether a call is a deletion. -/
def StoreCall.isDelete : StoreCall → Bool
  | .delete _ _ => true
  | _ => false

/-- What a store answers. -/
inductive StoreAnswer
  | done
  | sent (r : Except BrokerError String)
  | taken (r : Except ReceiveFailure (List Delivery))
  | deleted (r : Except BrokerError Unit)
  | resolved (r : Except BrokerError String)

/-- What an answer delivers. -/
def StoreAnswer.deliveries : StoreAnswer → List Delivery
  | .taken (.ok ds) => ds
  | _ => []

/-- What happened at one call. -/
structure StoreStep where
  now : Nat
  call : StoreCall
  before : LeaseStore
  after : LeaseStore
  answer : StoreAnswer

namespace LeaseStore

/-- The answer to a call, and the store after it. -/
def answer (now : Nat) (s : LeaseStore) : StoreCall → StoreAnswer × LeaseStore
  | .create name => (.done, s.create name)
  | .createRedrive name rule => (.done, s.createRedrive name rule)
  | .send dest body delay => (s.send now dest body delay).map .sent id
  | .take r => (s.take now r).map .taken id
  | .delete dest receipt => (s.delete dest receipt).map .deleted id
  | .resolve name => (s.resolve name).map .resolved id

/-- The step that a call leads to. -/
def step (s : LeaseStore) (now : Nat) (c : StoreCall) : StoreStep :=
  ⟨now, c, s, (s.answer now c).2, (s.answer now c).1⟩

/-- The store after one call. -/
def next (s : LeaseStore) (x : Nat × StoreCall) : LeaseStore := (s.answer x.1 x.2).2

/-- The store after a sequence of calls. -/
def run (s : LeaseStore) (xs : List (Nat × StoreCall)) : LeaseStore := xs.foldl next s

/-- The steps that a sequence of calls leads to. -/
def steps (s : LeaseStore) (xs : List (Nat × StoreCall)) : List StoreStep :=
  noted next (fun s x => s.step x.1 x.2) s xs

/-- The steps of a sequence of calls are made at the instants of the calls. -/
theorem map_now_steps (s : LeaseStore) (xs : List (Nat × StoreCall)) :
    (s.steps xs).map (·.now) = xs.map (·.1) := by
  induction xs generalizing s with
  | nil => rfl
  | cons x xs ih => exact congrArg (x.1 :: ·) (ih (s.next x))

end LeaseStore

/-! ## Books -/

/-- What is known of the calls so far, each in order. -/
structure Books where
  /-- What was sent, and to which queue. -/
  sent : List (Parcel × String)
  /-- The receipts that were given out, each with the identifier that came with it. -/
  issued : List (String × Option String)
  /-- What was removed. -/
  removed : List Parcel
  /-- What was lost. -/
  lost : List Parcel
  /-- Queues and the dead-letter queues that they were given. -/
  redrives : List (String × String)

/-- The books before the first call. -/
def Books.empty : Books := ⟨[], [], [], [], []⟩

/-- Books one after another. -/
def Books.append (b b' : Books) : Books :=
  ⟨b.sent ++ b'.sent, b.issued ++ b'.issued, b.removed ++ b'.removed, b.lost ++ b'.lost,
    b.redrives ++ b'.redrives⟩

/-- Whether a receive call broke off. -/
def StoreStep.breaksOff (x : StoreStep) : Bool :=
  match x.answer with
  | .taken (.error .beyondClock) => true
  | _ => false

/-- No receive call among some calls breaks off. -/
def Unbroken (hist : List StoreStep) : Prop := ∀ x ∈ hist, x.breaksOff = false

instance (hist : List StoreStep) : Decidable (Unbroken hist) :=
  inferInstanceAs (Decidable (∀ x ∈ hist, x.breaksOff = false))

namespace StoreStep

/-- What was sent, and to which queue. -/
def sent (x : StoreStep) : List (Parcel × String) :=
  match x.call, x.answer with
  | .send dest body _, .sent (.ok id) =>
    match LeaseStore.queueName dest with
    | .ok name => [(⟨id, body, x.before.wallClock + x.now⟩, name)]
    | .error _ => []
  | _, _ => []

/-- What a receive call that broke off had done to its queue. -/
def broken? (x : StoreStep) : Option Pass :=
  match x.call with
  | .take r =>
    match x.before.at? r.destination with
    | .ok (_, q) => if x.breaksOff then some (x.before.brokenPass x.now q) else none
    | .error _ => none
  | _ => none

/-- What a receive call that broke off had given a receipt. -/
def stamped (x : StoreStep) : List Delivery := x.broken?.elim [] (·.taken.map Stored.delivery)

/-- What was lost: what a receive call that broke off had taken from its queue. -/
def lost (x : StoreStep) : List Parcel := x.broken?.elim [] (·.exhausted.map (·.parcel))

/-- The receipts that were given out.  The one that a receive call had given out when it broke off
    is among them, though nobody was told. -/
def issued (x : StoreStep) : List (String × Option String) :=
  (x.answer.deliveries ++ x.stamped).map fun d => (d.receipt, d.id)

/-- What was removed: the message that had the receipt. -/
def removed (x : StoreStep) : List Parcel :=
  match x.call, x.answer with
  | .delete dest receipt, .deleted (.ok _) =>
    match x.before.at? dest with
    | .ok (_, q) => ((q.messages.find? (·.receipt = some receipt)).map (·.parcel)).toList
    | .error _ => []
  | _, _ => []

/-- The dead-letter queue that a queue was given. -/
def redrives (x : StoreStep) : List (String × String) :=
  match x.call with
  | .createRedrive name rule => [(name, rule.deadLetters)]
  | _ => []

/-- What a call adds to the books. -/
def books (x : StoreStep) : Books := ⟨x.sent, x.issued, x.removed, x.lost, x.redrives⟩

/-- Where a call does not break off nothing is left half done. -/
private theorem broken?_eq_none {x : StoreStep} (h : x.breaksOff = false) : x.broken? = none := by
  unfold broken?
  split
  · split
    · rw [h]
      rfl
    · rfl
  · rfl

/-- A call that does not break off loses nothing. -/
theorem lost_eq_nil {x : StoreStep} (h : x.breaksOff = false) : x.lost = [] := by
  rw [lost, broken?_eq_none h, Option.elim_none]

/-- The receipts of a call that does not break off are those that it tells. -/
theorem issued_eq {x : StoreStep} (h : x.breaksOff = false) :
    x.issued = x.answer.deliveries.map fun d => (d.receipt, d.id) := by
  rw [issued, stamped, broken?_eq_none h, Option.elim_none, List.append_nil]

end StoreStep

/-! ## Receive calls -/

namespace LeaseStore

variable {s : LeaseStore} {now : Nat} {r : ReceiveRequest} {n : String} {q : StoreQueue}

/-- A receive call is refused where there is no queue. -/
theorem take_of_error {e : BrokerError} (hat : s.at? r.destination = .error e) (now : Nat) :
    s.take now r = (.error (.refused e), s) := by
  rw [take, hat]

/-- A receive call that breaks off leaves behind what it has done to its queue. -/
theorem take_of_breaksOff (hat : s.at? r.destination = .ok (n, q))
    (h : s.breaksOff now r q = true) :
    s.take now r = (.error .beyondClock, s.keep n q (s.brokenPass now q)) := by
  simp only [take, hat, h, if_true]

/-- A receive call that does not break off makes its pass. -/
theorem take_of_not_breaksOff (hat : s.at? r.destination = .ok (n, q))
    (h : s.breaksOff now r q = false) :
    s.take now r = (.ok ((s.passOver now r q).taken.map Stored.delivery),
      (s.keep n q (s.passOver now r q)).bury now q.redrive (s.passOver now r q).exhausted) := by
  simp only [take, hat, h, Bool.false_eq_true, if_false]

/-- A receive call on a queue breaks off if it comes to hide a message beyond the clock. -/
theorem breaksOff_step (hat : s.at? r.destination = .ok (n, q)) (now : Nat) :
    (s.step now (.take r)).breaksOff = s.breaksOff now r q := by
  unfold StoreStep.breaksOff step
  cases h : s.breaksOff now r q with
  | true => simp only [answer, take_of_breaksOff hat h, Prod.map]
  | false => simp only [answer, take_of_not_breaksOff hat h, Prod.map]

/-- A receive call that is refused does not break off. -/
theorem breaksOff_step_of_error {e : BrokerError} (hat : s.at? r.destination = .error e)
    (now : Nat) : (s.step now (.take r)).breaksOff = false := by
  unfold StoreStep.breaksOff step
  simp only [answer, take_of_error hat, Prod.map]

/-- A receive call that would hide messages within the clock does not break off. -/
theorem breaksOff_eq_false (h : s.hiddenUntil now r ≤ s.lastInstant) (q : StoreQueue) :
    s.breaksOff now r q = false := by
  simp [breaksOff, Nat.not_lt.mpr h]

/-- What is left behind where a receive call has broken off. -/
theorem broken?_step (hat : s.at? r.destination = .ok (n, q)) (h : s.breaksOff now r q = true) :
    (s.step now (.take r)).broken? = some (s.brokenPass now q) := by
  have hbreaks := (breaksOff_step hat now).trans h
  simp only [StoreStep.broken?]
  rw [hbreaks]
  simp only [step, hat, if_true]

end LeaseStore

/-! ## All calls -/

/-- Whether some calls and one more break off. -/
theorem unbroken_append {hist : List StoreStep} {x : StoreStep} :
    Unbroken (hist ++ [x]) ↔ Unbroken hist ∧ x.breaksOff = false := by
  simp only [Unbroken, List.forall_mem_append, List.forall_mem_singleton]

/-- The books on some calls. -/
def books (hist : List StoreStep) : Books :=
  ⟨hist.flatMap (·.sent), hist.flatMap (·.issued), hist.flatMap (·.removed),
    hist.flatMap (·.lost), hist.flatMap (·.redrives)⟩

/-- One more call is entered at the end. -/
theorem books_append (hist : List StoreStep) (x : StoreStep) :
    books (hist ++ [x]) = (books hist).append x.books := by
  simp [books, Books.append, StoreStep.books]

/-- Nothing is lost as long as no receive call that breaks off has taken anything from its queue. -/
theorem lost_eq_nil_iff {hist : List StoreStep} :
    (books hist).lost = [] ↔ ∀ x ∈ hist, x.breaksOff = true → x.lost = [] := by
  refine List.flatMap_eq_nil_iff.trans (forall₂_congr fun x _ => ⟨fun h _ => h, fun h => ?_⟩)
  cases hbreaks : x.breaksOff with
  | true => exact h hbreaks
  | false => exact x.lost_eq_nil hbreaks

end Intake
