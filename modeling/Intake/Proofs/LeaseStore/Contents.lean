import Intake.Proofs.LeaseStore.Kept
import Intake.Proofs.LeaseStore.Traffic

/-!
# What a call leaves in the queues

A message that is in a queue after a call was there before, or the call sent it there, moved it
there, or delivered it, and then it is leased to its receiver; or the call broke off when it should
have delivered it.

- `StoreStep.leases`, `StoreStep.moved`: the leases that a call gives, and what it moves
- `stores_answer`: how a message came to be in a queue
- `stores_of_mem_leases`, `stores_of_mem_moved`: what was leased or moved could be received
- `nodup_leases`: a call leases a message once
-/

namespace Intake

variable {s s' : LeaseStore} {now : Nat} {c : StoreCall} {r : ReceiveRequest} {n j : String}
  {q : StoreQueue} {m m₀ : Stored}

/-! ## Leases and moves -/

/-- A lease: of which message, at which queue, from when and until when. -/
structure Lease where
  id : Option String
  queue : String
  since : Nat
  ends : Nat
deriving DecidableEq, Repr

/-- The leases that a call gives: one for each delivery, as long as was asked for, or else as
    the store has it. -/
def StoreStep.leases (x : StoreStep) : List Lease :=
  match x.call with
  | .take r =>
    match LeaseStore.queueName r.destination with
    | .ok n => x.answer.deliveries.map fun d =>
        ⟨d.id, n, x.now, x.now + r.visibility.getD x.before.visibility⟩
    | .error _ => []
  | _ => []

/-- The messages that a call moves to a dead-letter queue.  One that breaks off does not come to
    move any. -/
def StoreStep.moved (x : StoreStep) : List Stored :=
  match x.call with
  | .take r =>
    match x.before.at? r.destination with
    | .ok (_, q) => if x.breaksOff then [] else (x.before.passOver x.now r q).exhausted
    | .error _ => []
  | _ => []

namespace LeaseStore

/-! ## Queues -/

/-- What is buried comes to the end of the dead-letter queue. -/
theorem get?_bury (s : LeaseStore) (now : Nat) (rule : Option Redrive) (ms : List Stored)
    (j : String) : (s.bury now rule ms).queues.get? j = (s.queues.get? j).map fun w =>
      if rule.any (·.deadLetters = j) then
        { w with messages := w.messages ++ ms.map (·.buried now) } else w := by
  unfold bury
  cases rule with
  | none => simp
  | some rule =>
    rw [Table.get?_modify]
    -- The dead-letter queue gets them at its end; every other queue is left as it is.
    by_cases hj : j = rule.deadLetters
    · simp [hj]
    · simp [hj, Ne.symm hj]

/-- No call takes a queue away. -/
theorem isSome_get?_answer (h : (s.queues.get? j).isSome) (now : Nat) (c : StoreCall) :
    ((s.answer now c).2.queues.get? j).isSome := by
  cases c with
  | create name => exact Kept.get?_create_of_isSome h name
  | createRedrive name rule =>
    have hmade := Kept.get?_create_of_isSome (Kept.get?_create_of_isSome h rule.deadLetters) name
    exact Table.isSome_get?_modify hmade name _
  | send dest body delay =>
    simp only [answer, send, Prod.map]
    split
    · exact h
    · exact Table.isSome_get?_set h ..
  -- What a call sets under a name stays in the table with all that was there.
  | take r =>
    simp only [answer, take, Prod.map]
    split
    · exact h
    · split
      · exact Table.isSome_get?_set h ..
      · rw [id, get?_bury, Option.isSome_map]
        exact Table.isSome_get?_set h ..
  | delete dest receipt =>
    simp only [answer, delete, Prod.map]
    split
    · -- The pass puts the queue back, whether or not it breaks off, and then moves what is
      -- exhausted.
      exact h
    · split
      · exact Table.isSome_get?_set h ..
      · exact h
  | resolve name =>
    simp only [answer, resolve, Prod.map]
    split
    · split <;> exact h
    · split
      · exact h
      · split
        · exact Kept.get?_create_of_isSome h name
        · exact h

/-- No run takes a queue away. -/
theorem isSome_get?_run (h : (s.queues.get? j).isSome) (xs : List (Nat × StoreCall)) :
    ((s.run xs).queues.get? j).isSome := by
  induction xs generalizing s with
  | nil => exact h
  | cons x xs ih => exact ih (isSome_get?_answer h x.1 x.2)

/-! ## What a call leaves in the queues -/

/-- Where a queue is set anew, what is stored was there or is in that queue. -/
private theorem stores_set (hs : s'.queues = s.queues.set n q) (h : s'.Stores j m) :
    s.Stores j m ∨ (j = n ∧ m ∈ q.messages) := by
  obtain ⟨w, hw, hm⟩ := h
  rw [hs, Table.get?_set] at hw
  split at hw
  next hj => exact .inr ⟨hj, Option.some.inj hw ▸ hm⟩
  next => exact .inl ⟨w, hw, hm⟩

/-- What is in a queue that is set is stored. -/
theorem stores_of_set (hs : s'.queues = s.queues.set n q) (hm : m ∈ q.messages) :
    s'.Stores n m :=
  ⟨q, hs ▸ (Table.get?_set ..).trans (if_pos rfl), hm⟩

/-- What is stored after a burial was there or is buried. -/
private theorem stores_bury {rule : Option Redrive} {ms : List Stored}
    (h : (s.bury now rule ms).Stores j m) : s.Stores j m ∨ ∃ m₀ ∈ ms, m = m₀.buried now := by
  obtain ⟨w, hw, hm⟩ := h
  rw [get?_bury] at hw
  obtain ⟨q, hq, rfl⟩ := Option.map_eq_some_iff.mp hw
  split at hm
  · -- In a dead-letter queue the message may be one of those just appended.
    rcases List.mem_append.mp hm with hm | hm
    · exact .inl ⟨q, hq, hm⟩
    · obtain ⟨m₀, hm₀, rfl⟩ := List.mem_map.mp hm
      exact .inr ⟨m₀, hm₀, rfl⟩
  · exact .inl ⟨q, hq, hm⟩

/-- What is buried comes to what is there. -/
theorem Stores.bury (h : s.Stores j m) (now : Nat) (rule : Option Redrive) (ms : List Stored) :
    (s.bury now rule ms).Stores j m := by
  obtain ⟨q, hq, hm⟩ := h
  refine ⟨_, (get?_bury ..).trans (congrArg _ hq), ?_⟩
  split
  · exact List.mem_append_left _ hm
  · exact hm

/-- Making a queue stores nothing. -/
private theorem stores_create (h : (s.create n).Stores j m) : s.Stores j m := by
  -- A queue that is made has no messages.
  unfold create at h
  split at h
  · exact h
  · rcases stores_set rfl h with h | ⟨-, hm⟩
    · exact h
    · cases hm

/-- Making a queue with a redrive rule stores nothing. -/
private theorem stores_createRedrive {rule : Redrive} (h : (s.createRedrive n rule).Stores j m) :
    s.Stores j m := by
  -- The rule is set beside the messages, which stay as they are.
  have hmade : ((s.create rule.deadLetters).create n).Stores j m := by
    obtain ⟨w, hw, hm⟩ := h
    unfold createRedrive at hw
    dsimp only at hw
    rw [Table.get?_modify] at hw
    split at hw
    next =>
      obtain ⟨q, hq, rfl⟩ := Option.map_eq_some_iff.mp hw
      exact ⟨q, hq, hm⟩
    next => exact ⟨w, hw, hm⟩
  exact stores_create (stores_create hmade)

/-- Resolving a name stores nothing. -/
private theorem stores_resolve (h : (s.resolve n).2.Stores j m) : s.Stores j m := by
  -- Only a name that is neither a destination nor known can make a queue, which is empty.
  unfold resolve at h
  split at h
  · split at h <;> exact h
  · split at h
    · exact h
    · split at h
      · exact stores_create h
      · exact h

/-- A deletion stores nothing. -/
private theorem stores_delete {dest receipt : String} (h : (s.delete dest receipt).2.Stores j m) :
    s.Stores j m := by
  unfold delete at h
  split at h
  · exact h
  next n q hat =>
    split at h
    · -- The queue lost one message, so each message that it still has was there before.
      rcases stores_set rfl h with h | ⟨rfl, hm⟩
      · exact h
      · exact ⟨q, (at?_eq_ok.mp hat).2, List.mem_of_mem_eraseP hm⟩
    · exact h

/-- What a pass leaves in its queue was stored, or is what it delivers. -/
private theorem stores_keep {hide : Nat → Nat} {limit : Nat} (hq : s.queues.get? n = some q)
    (h : (s.keep n q (pass s.mint q.redrive now hide limit s.delivered q.messages)).Stores j m) :
    s.Stores j m ∨ (j = n ∧
      m ∈ (pass s.mint q.redrive now hide limit s.delivered q.messages).taken) := by
  rcases stores_set rfl h with h | ⟨rfl, hm⟩
  · exact .inl h
  · exact (mem_kept_pass hm).imp (fun hm => ⟨q, hq, hm⟩) fun hm => ⟨rfl, hm⟩

/-- A pass leases what it delivers. -/
theorem leases_take (hat : s.at? r.destination = .ok (n, q)) (hb : s.breaksOff now r q = false) :
    (s.step now (.take r)).leases = (s.passOver now r q).taken.map fun m =>
      ⟨some m.id, n, now, now + r.visibility.getD s.visibility⟩ := by
  -- The deliveries are those of the messages taken, in their order.
  have hdeliveries : (s.step now (.take r)).answer.deliveries =
      (s.passOver now r q).taken.map Stored.delivery := by
    simp only [step, answer, take_of_not_breaksOff hat hb, Prod.map]
    rfl
  simp only [StoreStep.leases, hdeliveries, List.map_map]
  simp only [step, (at?_eq_ok.mp hat).1]
  rfl

/-- A call that delivers nothing gives no leases. -/
private theorem leases_eq_nil {x : StoreStep} (h : x.answer.deliveries = []) : x.leases = [] := by
  unfold StoreStep.leases
  rw [h]
  split
  · split <;> rfl
  · rfl

/-- A call that breaks off delivers nothing. -/
theorem deliveries_of_breaksOff {x : StoreStep} (h : x.breaksOff = true) :
    x.answer.deliveries = [] := by
  unfold StoreStep.breaksOff at h
  split at h
  next hanswer => rw [hanswer]; rfl
  next => cases h

/-- A call that does not find a queue to receive from delivers nothing. -/
theorem deliveries_take_error {e : BrokerError} (hat : s.at? r.destination = .error e) :
    (s.step now (.take r)).answer.deliveries = [] := by
  simp only [step, answer, take_of_error hat, Prod.map]
  rfl

/-- A pass moves what was delivered too often. -/
theorem moved_take (hat : s.at? r.destination = .ok (n, q)) (hb : s.breaksOff now r q = false) :
    (s.step now (.take r)).moved = (s.passOver now r q).exhausted := by
  simp only [StoreStep.moved]
  rw [(breaksOff_step hat now).trans hb]
  simp [step, hat]

/-- A call that breaks off moves nothing. -/
theorem moved_of_breaksOff {x : StoreStep} (h : x.breaksOff = true) : x.moved = [] := by
  -- It would be a receive call on a queue with a rule; when it breaks off nothing is moved.
  unfold StoreStep.moved
  split
  · split
    · rw [if_pos h]
    · rfl
  · rfl

/-- A call that does not find a queue to receive from moves nothing. -/
theorem moved_take_error {e : BrokerError} (hat : s.at? r.destination = .error e) :
    (s.step now (.take r)).moved = [] := by
  simp only [StoreStep.moved, step, hat]

/-- A receive call is refused, breaks off, or makes its pass. -/
theorem take_cases (s : LeaseStore) (now : Nat) (r : ReceiveRequest) :
    (∃ e, s.at? r.destination = .error e) ∨
      ∃ n q, s.at? r.destination = .ok (n, q) ∧ (s.breaksOff now r q = true ∨
        s.breaksOff now r q = false) := by
  cases hat : s.at? r.destination with
  | error e => exact .inl ⟨e, rfl⟩
  | ok e => exact .inr ⟨e.1, e.2, rfl, (Bool.eq_false_or_eq_true _)⟩

/-- A lease is given for a message that could be received, which then stays in its queue. -/
theorem stores_of_mem_leases {l : Lease} (hl : l ∈ (s.step now c).leases) :
    l.since = now ∧ ∃ m, s.Stores l.queue m ∧ m.isVisible now = true ∧ l.id = some m.id ∧
      ∃ receipt, (s.answer now c).2.Stores l.queue (m.deliver receipt l.ends) := by
  cases c with
  | take r =>
    obtain ⟨e, hat⟩ | ⟨n, q, hat, hb | hb⟩ := s.take_cases now r
    · rw [leases_eq_nil (deliveries_take_error hat)] at hl
      cases hl
    · rw [leases_eq_nil (deliveries_of_breaksOff ((breaksOff_step hat now).trans hb))] at hl
      cases hl
    · rw [leases_take hat hb] at hl
      obtain ⟨m', hm', rfl⟩ := List.mem_map.mp hl
      obtain ⟨m, hm, hvisible, -, heq⟩ := mem_taken_pass hm'
      refine ⟨rfl, m, ⟨q, (at?_eq_ok.mp hat).2, hm⟩, hvisible, by rw [heq]; rfl,
        m'.delivery.receipt, ?_⟩
      -- What a pass over a queue delivers is among what it keeps.
      have hkept := (sublist_taken_pass ..).subset hm'
      rw [heq] at hkept
      change (s.take now r).2.Stores n _
      rw [take_of_not_breaksOff hat hb]
      exact (stores_of_set rfl hkept).bury now q.redrive _
  | _ => cases hl

/-- What is moved could be received. -/
theorem stores_of_mem_moved (hm : m ∈ (s.step now c).moved) :
    m.isVisible now = true ∧ ∃ n, s.Stores n m := by
  unfold StoreStep.moved at hm
  split at hm
  next r hcall =>
    split at hm
    next n q hat =>
      split at hm
      next => cases hm
      -- Only a pass that does not break off moves what it has taken out.
      next =>
        obtain ⟨hmem, hvisible, -⟩ := mem_exhausted_pass hm
        exact ⟨hvisible, n, q, (at?_eq_ok.mp hat).2, hmem⟩
    next => cases hm
  next => cases hm

/-- What is stored after a message was sent was there, or is the message. -/
private theorem stores_send {dest body : String} {delay : Nat}
    (h : (s.send now dest body delay).2.Stores j m) :
    s.Stores j m ∨ (m.receipt = none ∧ m.count = 0 ∧
      (m.parcel, j) ∈ (s.step now (.send dest body delay)).sent) := by
  unfold send at h
  simp only [step, answer, send, Prod.map, StoreStep.sent]
  cases hat : s.at? dest with
  | error e =>
    rw [hat] at h
    exact .inl h
  | ok e =>
    obtain ⟨n, q⟩ := e
    obtain ⟨hname, hq⟩ := at?_eq_ok.mp hat
    rw [hat] at h
    rcases stores_set rfl h with h | ⟨rfl, hm⟩
    · exact .inl h
    · rcases List.mem_append.mp hm with hm | hm
      · exact .inl ⟨q, hq, hm⟩
      -- The new message is the one that has been sent.
      · obtain rfl := List.mem_singleton.mp hm
        refine .inr ⟨rfl, rfl, ?_⟩
        simp [hname, Stored.parcel]

/-- What a receive call that broke off had counted: a message that could be received is as it was,
    but for its count and its receipt. -/
def Stamps (s : LeaseStore) (now : Nat) (n : String) (m : Stored) : Prop :=
  ∃ m₀ receipt, s.Stores n m₀ ∧ m₀.isVisible now = true ∧ m = m₀.deliver receipt m₀.visibleAt

/-- What is stored after a receive call was there, or the call has moved or leased it, or has broken
    off with it. -/
private theorem stores_take (h : (s.take now r).2.Stores j m) :
    s.Stores j m ∨ (∃ m₀ ∈ (s.step now (.take r)).moved, m = m₀.buried now) ∨
      (∃ l ∈ (s.step now (.take r)).leases, l.id = some m.id) ∨
      ((s.step now (.take r)).breaksOff = true ∧ s.Stamps now j m) := by
  obtain ⟨e, hat⟩ | ⟨n, q, hat, hb | hb⟩ := s.take_cases now r
  · rw [take_of_error hat] at h
    exact .inl h
  · have hq := (at?_eq_ok.mp hat).2
    rw [take_of_breaksOff hat hb] at h
    -- A pass that breaks off leaves the messages it has changed so far in their queue.
    rcases stores_keep hq h with h | ⟨rfl, hm⟩
    · exact .inl h
    · obtain ⟨m₀, hm₀, hvisible, -, heq⟩ := mem_taken_pass hm
      exact .inr (.inr (.inr ⟨(breaksOff_step hat now).trans hb, m₀, _, ⟨q, hq, hm₀⟩, hvisible, heq⟩))
  · rw [take_of_not_breaksOff hat hb] at h
    rw [moved_take hat hb, leases_take hat hb]
    -- A message of the result comes from the queue itself or from the messages that were moved.
    rcases stores_bury h with hkeep | hburied
    · rcases stores_keep (at?_eq_ok.mp hat).2 hkeep with h | ⟨rfl, hm⟩
      · exact .inl h
      · exact .inr (.inr (.inl ⟨_, List.mem_map_of_mem hm, rfl⟩))
    · exact .inr (.inl hburied)

/-- What is in a queue after a call was there as it is, or was sent, moved or delivered, or the call
    has broken off with it. -/
theorem stores_answer (h : (s.answer now c).2.Stores j m) :
    s.Stores j m ∨ (m.receipt = none ∧ m.count = 0 ∧ (m.parcel, j) ∈ (s.step now c).sent) ∨
      (∃ m₀ ∈ (s.step now c).moved, m = m₀.buried now) ∨
      (∃ l ∈ (s.step now c).leases, l.id = some m.id) ∨
      ((s.step now c).breaksOff = true ∧ s.Stamps now j m) := by
  cases c with
  | create name => exact .inl (stores_create h)
  | createRedrive name rule => exact .inl (stores_createRedrive h)
  | send dest body delay => exact (stores_send h).imp_right .inl
  | take r => exact (stores_take h).imp_right .inr
  | delete dest receipt => exact .inl (stores_delete h)
  | resolve name => exact .inl (stores_resolve h)

/-- What a call sends has an identifier of its own. -/
theorem id_ne_of_sent {b : Books} (h : Kept b s) (hf : s.mint.Fresh) {e e' : Parcel × String}
    (he : e ∈ b.sent) (he' : e' ∈ (s.step now c).sent) : e.1.id ≠ e'.1.id := by
  have hfresh : (s.answer now c).2.mint.Fresh := (s.mint_answer now c).symm ▸ hf
  have hids := (h.step now c).ids_nodup hfresh
  simp only [Books.append, StoreStep.books, List.map_append, List.nodup_append] at hids
  exact hids.2.2 _ (List.mem_map_of_mem he) _ (List.mem_map_of_mem he')

/-- A call leases a message once, and moves none that it leases. -/
theorem nodup_leases {b : Books} (h : Kept b s) (hf : s.mint.Fresh) (now : Nat) (c : StoreCall) :
    ((s.step now c).leases.map (·.id) ++ (s.step now c).moved.map fun m => some m.id).Nodup := by
  cases c with
  | take r =>
    obtain ⟨e, hat⟩ | ⟨n, q, hat, hb | hb⟩ := s.take_cases now r
    · rw [leases_eq_nil (deliveries_take_error hat), moved_take_error hat]
      exact List.nodup_nil
    · have hbreaks := (breaksOff_step hat now).trans hb
      rw [leases_eq_nil (deliveries_of_breaksOff hbreaks), moved_of_breaksOff hbreaks]
      exact List.nodup_nil
    · have hqueue := h.nodup_messages hf (at?_eq_ok.mp hat).2
      have hpass : (((s.passOver now r q).taken ++ (s.passOver now r q).exhausted).map
        (·.id)).Nodup := nodup_pass hqueue
      -- A pass takes out each message once, to hand it out or to move it.
      have hsome := hpass.map fun _ _ => Option.some.inj
      rw [leases_take hat hb, moved_take hat hb, List.map_map]
      rwa [List.map_map, List.map_append] at hsome
  | _ => exact List.nodup_nil

end LeaseStore

end Intake
