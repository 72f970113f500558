import Intake.Proofs.LeaseStore.Counter
import Intake.Proofs.Outbox
import Mathlib.Data.List.Chain

/-!
# Runs of a counter

Senders and receivers come to a counter in any order, and which of the receive calls that wait
there looks first is left open.  So every way in which they can be interleaved is among the runs.

- `Counter.after`: what an errand leads to
- `Counter.calls`: the calls to the store that it comes to
- `Counter.store_run`: a run of a counter is a run of its store
- `Counter.Did`: what an errand comes to for the receive calls
- `Counter.Prompt`: time passes only while no receive call looks
-/

namespace Intake

/-- One thing that happens at a counter. -/
inductive Errand
  /-- A call is made to the store itself. -/
  | call (c : StoreCall)
  | resolve (name : String)
  | forget (name : String)
  | sendText (name body : String) (delay : Nat)
  | publish (name : String) (p : Payload) (delay : Nat)
  /-- A receive call begins under a name. -/
  | receive (name : String) (r : ReceiveRequest)
  /-- The receive call at a place looks, if its time has come. -/
  | look (i : Nat)

/-- Whether a receive call begins under a name. -/
def Errand.receives (name : String) : Errand → Bool
  | .receive name' _ => name' = name
  | _ => false

/-- What happened at one errand. -/
structure ErrandStep where
  now : Nat
  errand : Errand
  before : Counter
  after : Counter

namespace Counter

variable {c c' : Counter} {now : Nat} {e : Errand} {name : String}

/-- The counter after an errand at an instant. -/
def after (now : Nat) (c : Counter) : Errand → Counter
  | .call (.send dest body delay) =>
    (c.afterSending now ((c.store.send now dest body delay).map id fun store =>
      { c.outbox with store })).2
  | .call call => c.withStore (c.store.answer now call).2
  | .resolve name => { c with outbox := (c.outbox.resolve name).2 }
  | .forget name => { c with outbox := { c.outbox with book := c.outbox.book.forget name } }
  | .sendText name body delay => (c.afterSending now (c.outbox.sendText now name body delay)).2
  | .publish name p delay => (c.afterSending now (c.outbox.publish now name p delay)).2
  | .receive name r => c.receive now name r
  | .look i => c.lookFrom now i

/-- What a sender is told, if an errand sends. -/
def told? (now : Nat) (c : Counter) : Errand → Option (Except BrokerError String)
  | .call (.send dest body delay) => some (c.store.send now dest body delay).1
  | .sendText name body delay => some (c.outbox.sendText now name body delay).1
  | .publish name p delay => some (c.outbox.publish now name p delay).1
  | _ => none

/-- The calls to the store that the receive call at a place makes when it looks. -/
def callsToLook (now : Nat) (c : Counter) (i : Nat) : List StoreCall :=
  match c.polls[i]? with
  | some (_, p) => if p.lookAt ≤ now then p.calls c.store else []
  | none => []

/-- The calls to the store that an errand comes to. -/
def calls (now : Nat) (c : Counter) : Errand → List StoreCall
  | .call call => [call]
  | .resolve name => (c.outbox.asks name).map .resolve
  | .forget _ => []
  | .sendText name body delay => c.outbox.callsToSend name body delay
  | .publish name p delay => c.outbox.callsToPublish name p delay
  | .receive _ _ => []
  | .look i => c.callsToLook now i

/-- The step that an errand leads to. -/
def step (c : Counter) (now : Nat) (e : Errand) : ErrandStep := ⟨now, e, c, c.after now e⟩

/-- The counter after an errand at an instant. -/
def next (c : Counter) (x : Nat × Errand) : Counter := c.after x.1 x.2

/-- The counter after a sequence of errands. -/
def run (c : Counter) (xs : List (Nat × Errand)) : Counter := xs.foldl next c

/-- The steps that a sequence of errands leads to. -/
def steps (c : Counter) (xs : List (Nat × Errand)) : List ErrandStep :=
  noted next (fun c x => c.step x.1 x.2) c xs

/-- The calls to the store that a sequence of errands comes to. -/
def storeCalls (c : Counter) (xs : List (Nat × Errand)) : List (Nat × StoreCall) :=
  (noted next (fun c x => (c.calls x.1 x.2).map (x.1, ·)) c xs).flatten

end Counter

namespace ErrandStep

/-- What a sender is told at a step, if anything is sent. -/
def told? (x : ErrandStep) : Option (Except BrokerError String) := x.before.told? x.now x.errand

/-- The calls to the store that are made at a step. -/
def calls (x : ErrandStep) : List StoreStep :=
  x.before.store.steps ((x.before.calls x.now x.errand).map (x.now, ·))

/-- A receive call returns at a step. -/
def Returns (name : String) (r : Except BrokerError (List Delivery)) (x : ErrandStep) : Prop :=
  x.after.returned = (x.now, name, r) :: x.before.returned

end ErrandStep

namespace Counter

variable {c c' : Counter} {now : Nat} {e : Errand} {name : String} {xs : List (Nat × Errand)}

/-- A run goes on from where another one has led. -/
theorem run_append (c : Counter) (xs ys : List (Nat × Errand)) :
    c.run (xs ++ ys) = (c.run xs).run ys :=
  List.foldl_append

/-- The steps of a run that goes on come after those that it has made. -/
theorem steps_append (c : Counter) (xs ys : List (Nat × Errand)) :
    c.steps (xs ++ ys) = c.steps xs ++ (c.run xs).steps ys :=
  noted_append ..

/-- What holds at first and is kept by every errand holds after every run. -/
private theorem run_keeps {P : Counter → Prop} (h : P c)
    (hafter : ∀ c now e, P c → P (c.after now e)) (xs : List (Nat × Errand)) : P (c.run xs) := by
  induction xs generalizing c with
  | nil => exact h
  | cons x xs ih => exact ih (hafter c x.1 x.2 h)

/-- The steps of a run are made at its errands. -/
theorem mem_of_mem_steps {x : ErrandStep} (hx : x ∈ c.steps xs) :
    (x.now, x.errand) ∈ xs := by
  induction xs generalizing c with
  | nil => cases hx
  | cons y xs ih =>
    rcases List.mem_cons.mp hx with rfl | hx
    · exact List.mem_cons_self
    · exact List.mem_cons_of_mem y (ih hx)

/-- Where the steps of a run are cut, the run goes on from the state after the cut. -/
theorem exists_cut_of_steps {before later : List ErrandStep} {x : ErrandStep}
    (h : c.steps xs = before ++ x :: later) : ∃ ys now e zs, xs = ys ++ (now, e) :: zs ∧
      before = c.steps ys ∧ x = (c.run ys).step now e ∧ later = x.after.steps zs := by
  obtain ⟨ys, y, zs, hxs, hbefore, rfl, hlater⟩ := exists_cut_of_noted h
  exact ⟨ys, y.1, y.2, zs, hxs, hbefore, rfl, hlater⟩

/-- A step of a run is made from a counter to which a part of the run has led. -/
theorem exists_run_of_mem_steps {x : ErrandStep} (hx : x ∈ c.steps xs) :
    ∃ ys now e, x = (c.run ys).step now e := by
  obtain ⟨before, later, hcut⟩ := List.append_of_mem hx
  obtain ⟨ys, now, e, -, -, -, rfl, -⟩ := exists_cut_of_steps hcut
  exact ⟨ys, now, e, rfl⟩

/-! ## The store -/

/-- The sender's side is as sending has left it. -/
theorem outbox_afterSending (c : Counter) (now : Nat) (r : Except BrokerError String × Outbox) :
    (c.afterSending now r).2.outbox = r.2 := by
  obtain ⟨r | r, o⟩ := r <;> rfl

/-- A receive call that looks makes its calls to the store, and does nothing else to the sender's
    side. -/
private theorem outbox_lookFrom (now : Nat) (c : Counter) (i : Nat) :
    (c.lookFrom now i).outbox =
      { c.outbox with store := c.store.run ((c.callsToLook now i).map (now, ·)) } := by
  unfold lookFrom callsToLook
  cases hi : c.polls[i]? with
  | none => rfl
  | some entry =>
    obtain ⟨name, p⟩ := entry
    by_cases hdue : p.lookAt ≤ now
    · have hstore := p.look_store now c.store
      -- Whether the call returns or waits on is nothing to the store.
      simp only [if_pos hdue]
      generalize p.look now c.store = looked at hstore ⊢
      obtain ⟨r | p', s⟩ := looked
      · exact (outbox_finish ..).trans (congrArg (Outbox.mk · _) hstore)
      · exact congrArg (Outbox.mk · _) hstore
    · simp only [if_neg hdue]
      rfl

/-- An errand does to the store what its calls do. -/
theorem store_after (now : Nat) (c : Counter) (e : Errand) :
    (c.after now e).store = c.store.run ((c.calls now e).map (now, ·)) := by
  cases e with
  -- A message that was sent wakes those who wait, which is nothing to the store.
  | call call =>
    cases call with
    | send dest body delay => exact congrArg Outbox.store (outbox_afterSending ..)
    | _ => rfl
  | resolve name => exact (c.outbox.store_resolve now name).trans (by rw [calls, List.map_map]; rfl)
  | forget | receive => rfl
  | sendText name body delay =>
    exact (congrArg Outbox.store (outbox_afterSending ..)).trans (c.outbox.store_sendText ..)
  | publish name p delay =>
    exact (congrArg Outbox.store (outbox_afterSending ..)).trans (c.outbox.store_publish ..)
  | look i => exact congrArg Outbox.store (outbox_lookFrom ..)

/-- The calls of the first errand come first. -/
private theorem storeCalls_cons (c : Counter) (x : Nat × Errand) (xs : List (Nat × Errand)) :
    c.storeCalls (x :: xs) =
      (c.calls x.1 x.2).map (x.1, ·) ++ (c.after x.1 x.2).storeCalls xs := rfl

/-- A run of a counter is a run of its store. -/
theorem store_run (c : Counter) (xs : List (Nat × Errand)) :
    (c.run xs).store = c.store.run (c.storeCalls xs) := by
  induction xs generalizing c with
  | nil => rfl
  | cons x xs ih =>
    rw [storeCalls_cons, LeaseStore.run, List.foldl_append]
    change _ = LeaseStore.run (c.store.run _) _
    rw [← store_after]
    exact ih (c.after x.1 x.2)

/-- The calls that are made at the steps of a run are the steps of a run of the store. -/
theorem calls_steps (c : Counter) (xs : List (Nat × Errand)) :
    (c.steps xs).flatMap (·.calls) = c.store.steps (c.storeCalls xs) := by
  induction xs generalizing c with
  | nil => rfl
  | cons x xs ih =>
    rw [storeCalls_cons, LeaseStore.steps, noted_append]
    change _ = _ ++ noted _ _ (c.store.run _) _
    rw [← store_after]
    exact congrArg (_ ++ ·) (ih (c.after x.1 x.2))

/-- The calls to the store are made at the instants of errands. -/
private theorem exists_errand_of_mem_storeCalls {y : Nat × StoreCall} (hy : y ∈ c.storeCalls xs) :
    ∃ x ∈ xs, y.1 = x.1 := by
  induction xs generalizing c with
  | nil => cases hy
  | cons x xs ih =>
    rw [storeCalls_cons, List.mem_append] at hy
    -- A call of the store is made at the instant of the errand that makes it.
    rcases hy with hy | hy
    · obtain ⟨call, -, rfl⟩ := List.mem_map.mp hy
      exact ⟨x, List.mem_cons_self, rfl⟩
    · obtain ⟨x', hx', heq⟩ := ih hy
      exact ⟨x', List.mem_cons_of_mem x hx', heq⟩

/-- If time does not go back from errand to errand, it does not from call to call. -/
theorem pairwise_storeCalls (h : (xs.map (·.1)).Pairwise (· ≤ ·)) :
    ((c.storeCalls xs).map (·.1)).Pairwise (· ≤ ·) := by
  induction xs generalizing c with
  | nil => exact .nil
  | cons x xs ih =>
    rw [List.map_cons, List.pairwise_cons] at h
    rw [storeCalls_cons, List.map_append, List.map_map, List.pairwise_append]
    refine ⟨?_, ih h.2, fun a ha b hb => ?_⟩
    · -- The calls of one errand are made at one instant, and those of later errands later.
      exact List.pairwise_map.mpr (List.pairwise_of_forall fun _ _ => Nat.le_refl x.1)
    · obtain ⟨call, -, rfl⟩ := List.mem_map.mp ha
      obtain ⟨y, hy, rfl⟩ := List.mem_map.mp hb
      obtain ⟨x', hx', heq⟩ := exists_errand_of_mem_storeCalls hy
      exact heq ▸ h.1 x'.1 (List.mem_map_of_mem hx')

/-! ## The sender's side -/

/-- Whatever is known at a counter stays true. -/
theorem current_after (h : c.outbox.Current) (now : Nat) (e : Errand) :
    (c.after now e).outbox.Current := by
  cases e with
  -- Only what sends a message wakes those who wait, and this is nothing to the sender's side.
  | call call =>
    cases call with
    | send dest body delay => exact outbox_afterSending .. ▸ h.answer now (.send dest body delay)
    | _ => exact h.answer now _
  | resolve name => exact h.resolve name
  | forget name => exact h.forget name
  | sendText name body delay => exact outbox_afterSending .. ▸ h.sendText now name body delay
  | publish name p delay => exact outbox_afterSending .. ▸ h.publish now name p delay
  | receive => exact h
  | look i => exact outbox_lookFrom .. ▸ h.run _

/-- Whatever is known at a counter that was new is true. -/
theorem current_run (s : LeaseStore) (xs : List (Nat × Errand)) :
    ((ofStore s).run xs).outbox.Current :=
  run_keeps (P := fun c => c.outbox.Current) (.of_empty rfl)
    (fun _ now e h => current_after h now e) xs

/-! ## The receive calls -/

/-- What an errand comes to for the receive calls. -/
inductive Did (now : Nat) (c : Counter) : Errand → Counter → Prop
  /-- Nothing was sent, and no call looks. -/
  | other {e : Errand} (hnone : ∀ id, c.told? now e ≠ some (.ok id)) (o : Outbox) :
    Did now c e { c with outbox := o }
  | sent {e : Errand} {id : String} (hid : c.told? now e = some (.ok id)) (o : Outbox) :
    Did now c e ({ c with outbox := o }.wakeAll now)
  | began (name : String) (r : ReceiveRequest) : Did now c (.receive name r) (c.receive now name r)
  /-- A call looks and returns. -/
  | returned {i : Nat} {name : String} {p : LongPoll} {r : Except BrokerError (List Delivery)}
    {s : LeaseStore} (hi : c.polls[i]? = some (name, p)) (hdue : p.lookAt ≤ now)
    (hlook : p.look now c.store = (.inl (r.mapError .refused), s)) :
    Did now c (.look i) { c.withStore s with
      polls := c.polls.eraseIdx i, returned := (now, name, r) :: c.returned }
  /-- A call looks and breaks off. -/
  | brokeOff {i : Nat} {name : String} {p : LongPoll} {s : LeaseStore}
    (hi : c.polls[i]? = some (name, p)) (hdue : p.lookAt ≤ now)
    (hlook : p.look now c.store = (.inl (.error .beyondClock), s)) :
    Did now c (.look i) { c.withStore s with polls := c.polls.eraseIdx i }
  /-- A call looks and waits on. -/
  | stayed {i : Nat} {name : String} {p p' : LongPoll} {s : LeaseStore}
    (hi : c.polls[i]? = some (name, p)) (hdue : p.lookAt ≤ now)
    (hlook : p.look now c.store = (.inr p', s)) :
    Did now c (.look i) { c.withStore s with polls := c.polls.eraseIdx i ++ [(name, p')] }

/-- An errand that sends nothing leaves the receive calls alone. -/
private theorem did_of_told?_eq_none (h : c.told? now e = none) (o : Outbox) :
    Did now c e { c with outbox := o } :=
  .other (by simp [h]) o

/-- What an errand sends wakes all receive calls, and what it fails to send none. -/
private theorem did_afterSending {r : Except BrokerError String × Outbox}
    (h : c.told? now e = some r.1) : Did now c e (c.afterSending now r).2 := by
  obtain ⟨r | id, o⟩ := r
  · exact .other (by simp [h]) o
  · exact .sent h o

/-- Every errand comes to one of these for the receive calls. -/
theorem did_after (now : Nat) (c : Counter) (e : Errand) : Did now c e (c.after now e) := by
  cases e with
  | call call =>
    cases call with
    | send dest body delay => exact did_afterSending rfl
    | _ => exact did_of_told?_eq_none rfl _
  | resolve | forget => exact did_of_told?_eq_none rfl _
  | sendText | publish => exact did_afterSending rfl
  | receive name r => exact .began name r
  -- The call whose turn it is returns, breaks off or waits on, if its time has come.
  | look i =>
    simp only [after, lookFrom]
    cases hi : c.polls[i]? with
    | none => exact did_of_told?_eq_none rfl c.outbox
    | some entry =>
      obtain ⟨name, p⟩ := entry
      by_cases hdue : p.lookAt ≤ now
      · simp only [if_pos hdue]
        rcases hlook : p.look now c.store with ⟨((_ | _) | ds) | p', s⟩
        · exact .returned (r := .error _) hi hdue hlook
        · exact .brokeOff hi hdue hlook
        · exact .returned (r := .ok ds) hi hdue hlook
        · exact .stayed hi hdue hlook
      · simp only [if_neg hdue]
        exact did_of_told?_eq_none rfl c.outbox

/-- What a receive call returns with is what the store answered. -/
theorem exists_call_of_returns {r : Except BrokerError (List Delivery)}
    (h : (c.step now e).Returns name r) :
    ∃ z ∈ (c.step now e).calls, z.now = now ∧ z.answer = .taken (r.mapError .refused) := by
  have hsame : (c.after now e).returned ≠ c.returned := fun heq =>
    List.cons_ne_self _ _ (h.symm.trans heq)
  change (c.after now e).returned = _ at h
  have hdid := did_after now c e
  generalize c.after now e = c' at h hsame hdid
  -- Of all that an errand can do only a look at the store lets a call return.
  cases hdid with
  | @returned i name' p r' s hi hdue hlook =>
    obtain rfl : r' = r := congrArg (·.2.2) (List.cons.inj h).1
    obtain ⟨hbeyond, htake⟩ := (LongPoll.look_eq_inl (congrArg Prod.fst hlook)).resolve_left
      fun hno => by cases r' <;> cases hno.2
    refine ⟨c.store.step now (.take p.request), ?_, rfl, congrArg StoreAnswer.taken htake⟩
    simp [ErrandStep.calls, step, calls, callsToLook, hi, hdue, LongPoll.calls, hbeyond,
      LeaseStore.steps, noted]
  | _ => exact absurd rfl hsame

/-! ## Time -/

/-- Each errand follows the one before it promptly: time passes only while no receive call
    looks. -/
def Prompt (hist : List ErrandStep) : Prop :=
  hist.IsChain fun x y => timeline.Passes x.now y.now y.before

instance (hist : List ErrandStep) : Decidable (Prompt hist) :=
  inferInstanceAs (Decidable (hist.IsChain _))

/-- Instants do not go back. -/
theorem Prompt.now_le {x y : ErrandStep} {hist : List ErrandStep} (h : Prompt (x :: hist))
    (hy : y ∈ hist) : x.now ≤ y.now := by
  have hle : (x :: hist).IsChain (·.now ≤ ·.now) := h.imp fun _ _ hxy => hxy.le
  exact (List.pairwise_cons.mp hle.pairwise).1 y hy

/-- No receive call is found that is due. -/
private theorem lookFirst_eq_none_iff {before after : List (String × LongPoll)} :
    c.lookFirst now before after = none ↔ ∀ e ∈ after, now < e.2.lookAt := by
  induction after generalizing before with
  | nil => simp [lookFirst]
  | cons e after ih =>
    obtain ⟨name, p⟩ := e
    unfold lookFirst
    -- The first call in line is due, or whether there is one is for the others to say.
    by_cases hdue : p.lookAt ≤ now
    · rw [if_pos hdue]
      generalize p.look now c.store = looked
      obtain ⟨r | p', s⟩ := looked <;> simp [hdue]
    · rw [if_neg hdue, ih]
      simp [Nat.lt_of_not_le hdue]

/-- Nothing can be done as long as no receive call is due. -/
theorem act?_eq_none_iff : timeline.act? now c = none ↔ ∀ e ∈ c.polls, now < e.2.lookAt :=
  lookFirst_eq_none_iff

end Counter

end Intake
