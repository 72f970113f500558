import Intake.Proofs.LeaseStore.Errand
import Intake.Proofs.LeaseStore.Receipt
import Intake.Proofs.LeaseStore.Scan
import Mathlib.Order.Monotone.Defs

/-!
# Delays from end to end

A text that is published with a delay cannot be received before the delay is over, brought into
the range that brokers take.  From then on it can be, as it was published.

- `wholeDelay_eq`: which delays are used
- `Kept.stores_run_of_not_touched`: what was never delivered stays as it was sent until it is
- `Delayed`: what holds of whatever is published
- `Counter.delayed_run`: it is so after all that can happen at a counter, as long as no receive
  call breaks off
- `Counter.not_delayed_dropped`: two receive calls that break off drop a text that was published
-/

namespace Intake

/-! ## Which delays are used -/

/-- The delay is none for none, and otherwise the whole seconds between one and the longest. -/
theorem wholeDelay_eq (d : Nat) :
    wholeDelay d = if d = 0 then 0 else max 1 (min 900 (d / 1000000000)) := by
  -- Below a second the delay is a whole one, and above the most it is cut.
  unfold wholeDelay perSecond maxDelay
  split
  · rfl
  · split
    · omega
    · split <;> omega

/-- A longer delay is no shorter in whole seconds. -/
private theorem wholeDelay_monotone : Monotone wholeDelay := by
  intro d d' hle
  have hseconds : d / 1000000000 ≤ d' / 1000000000 := Nat.div_le_div_right hle
  rw [wholeDelay_eq, wholeDelay_eq]
  split <;> split <;> omega

/-! ## What was never delivered -/

section Untouched

variable {s : LeaseStore} {now : Nat} {c : StoreCall} {b : Books} {n : String} {m : Stored}
  {q : StoreQueue} {r : ReceiveRequest} {ys : List (Nat × StoreCall)} {z : StoreStep}

/-- A receive call that returns less than was asked for has touched whatever could be received. -/
private theorem LeaseStore.touches_take (hat : s.at? r.destination = .ok (n, q))
    (hm : m ∈ q.messages)
    (hv : m.isVisible now) {ds : List Delivery} (hds : (s.take now r).1 = .ok ds)
    (hfew : ds.length < r.limit) : (s.step now (.take r)).Touches m.id := by
  have hb : s.breaksOff now r q = false := by
    by_contra hbreaks
    cases (congrArg Prod.fst (take_of_breaksOff hat (by simpa using hbreaks))).symm.trans hds
  obtain rfl : (s.passOver now r q).taken.map Stored.delivery = ds :=
    Except.ok.inj ((congrArg Prod.fst (take_of_not_breaksOff hat hb)).symm.trans hds)
  have htaken := s.forall₂_passOver now r q
  rw [List.length_map] at hfew
  have hall : (q.messages.filter (·.isDeliverable q.redrive now)).length < r.limit := by
    have hlength : (s.passOver now r q).taken.length = _ := htaken.length_eq.symm
    rw [hlength, StoreQueue.firsts, List.length_take] at hfew
    omega
  rcases m.isDeliverable_or_isSpent hv q.redrive with hdue | hspent
  -- It is among what is delivered, since that is all that can be.
  · rw [StoreQueue.firsts, List.take_of_length_le (Nat.le_of_lt hall)] at htaken
    have hids : (q.messages.filter (·.isDeliverable q.redrive now)).map (·.id) =
        (s.passOver now r q).taken.map (·.id) := by
      rw [← List.forall₂_eq_eq_eq, List.forall₂_map_left_iff, List.forall₂_map_right_iff]
      exact htaken.imp fun m m' hm => (congrArg Stored.id hm).symm
    have hmem : m.id ∈ (s.passOver now r q).taken.map (·.id) :=
      hids ▸ List.mem_map_of_mem (List.mem_filter.mpr ⟨hm, hdue⟩)
    obtain ⟨m', hm', hid⟩ := List.mem_map.mp hmem
    refine .inl ⟨m'.delivery, ?_, congrArg some hid⟩
    rw [LeaseStore.deliveries_take hat hb]
    exact List.mem_map_of_mem hm'
  -- The pass has come to the end of the queue and has moved it.
  · refine .inr ⟨m, ?_, rfl⟩
    have hfront : (s.passOver now r q).exhausted = _ := exhausted_pass ..
    rw [LeaseStore.moved_take hat hb, hfront,
      List.frontWith_of_countP_lt (List.countP_eq_length_filter ▸ hall)]
    exact List.mem_filter.mpr ⟨hm, hspent⟩

namespace Kept

/-- A message that was never delivered and that a call does not touch is as it was, unless the call
    breaks off. -/
private theorem stores_of_not_touches (h : Kept b s) (hf : s.mint.Fresh) (hm : s.Stores n m)
    (hr : m.receipt = none) (hb : (s.step now c).breaksOff = false)
    (hnot : ¬ (s.step now c).Touches m.id) :
    (s.answer now c).2.Stores n m := by
  have hafter := h.step now c
  have hfresh : (s.answer now c).2.mint.Fresh := (s.mint_answer now c).symm ▸ hf
  obtain ⟨⟨p, home⟩, hsent, rfl : p = m.parcel⟩ := List.mem_map.mp (h.mem_sent hm)
  -- It was not removed, since nobody has had a receipt for it, and nothing was lost.
  have hstays : m.parcel ∉ (b.append (s.step now c).books).gone := by
    have hbefore := h.not_mem_gone hf hm
    simp only [Books.gone, Books.append, StoreStep.books, StoreStep.lost_eq_nil hb, List.append_nil,
      List.mem_append] at hbefore ⊢
    rintro ((hremoved | hnow) | hlost)
    · exact hbefore (.inl hremoved)
    · obtain ⟨_, r, j, m', -, hm', hparcel, hreceipt⟩ := LeaseStore.exists_of_mem_removed hnow
      obtain ⟨-, rfl⟩ := h.eq_of_id hf hm' hm (congrArg Parcel.id hparcel)
      cases hr.symm.trans hreceipt
    · exact hbefore (.inr hlost)
  obtain ⟨j, -, hholds⟩ := (hafter.holds_or_gone hfresh
    (List.mem_append_left _ hsent)).resolve_left hstays
  obtain ⟨q, hq, ⟨m', hm', hparcel⟩, -⟩ := hholds.here
  have hid : m'.id = m.id := congrArg Parcel.id hparcel
  have hstored : (s.answer now c).2.Stores j m' := ⟨q, hq, hm'⟩
  -- So it is stored, and nothing happened to it.
  cases h.origin hf hb hstored with
  | stayed hold =>
    obtain ⟨rfl, rfl⟩ := h.eq_of_id hf hold hm hid
    exact hstored
  | sent he =>
    exact absurd hid.symm (LeaseStore.id_ne_of_sent h hf hsent he)
  | delivered m₀ q' r ends hq' hm₀ hlimit hd =>
    exact absurd (.inl ⟨_, LeaseStore.mem_deliveries_of_mem_handed hd, congrArg some hid⟩) hnot
  | moved m₀ hm₀ heq =>
    refine absurd (.inr ⟨m₀, LeaseStore.mem_moved_of_mem_movedTo hm₀, ?_⟩) hnot
    rw [← hid, heq]
    rfl

/-- A call that touches a message comes upon it when it can be received. -/
private theorem visibleAt_le_of_touches (h : Kept b s) (hf : s.mint.Fresh) (hm : s.Stores n m)
    (htouches : (s.step now c).Touches m.id) : m.visibleAt ≤ now := by
  have hvisible : ∀ j m', s.Stores j m' → m'.id = m.id → m'.isVisible now → m.visibleAt ≤ now := by
    intro j m' hm' hid hv
    obtain ⟨-, rfl⟩ := h.eq_of_id hf hm' hm hid
    exact of_decide_eq_true hv
  -- Whoever gets or moves the message finds it visible, and there is no other message of this
  -- identity.
  rcases htouches with ⟨d, hd, hid⟩ | ⟨m', hm', hid⟩
  · obtain ⟨j, hj⟩ := LeaseStore.exists_mem_handed hd
    obtain ⟨m', q, _, _, hq, hm', hv, -, rfl, -⟩ := LeaseStore.stores_of_mem_handed hj
    exact hvisible j m' ⟨q, hq, hm'⟩ (Option.some.inj hid) hv
  · obtain ⟨hv, j, hstored⟩ := LeaseStore.stores_of_mem_moved hm'
    exact hvisible j m' hstored hid hv

/-- Until a call touches it, a message that was never delivered is as it was sent. -/
theorem stores_run_of_not_touched (h : Kept b s) (hf : s.mint.Fresh) (hm : s.Stores n m)
    (hr : m.receipt = none) (hunbroken : Unbroken (s.steps ys))
    (hnot : ∀ z ∈ s.steps ys, ¬ z.Touches m.id) : (s.run ys).Stores n m := by
  induction ys generalizing b s with
  | nil => exact hm
  | cons y ys ih =>
    obtain ⟨hy, hys⟩ := List.forall_mem_cons.mp hnot
    obtain ⟨hb, hunbroken⟩ := List.forall_mem_cons.mp hunbroken
    exact ih (h.step y.1 y.2) ((s.mint_answer y.1 y.2).symm ▸ hf)
      (h.stores_of_not_touches hf hm hr hb hy) hunbroken hys

/-- No call touches a message that was never delivered before the instant from which it can be
    received. -/
private theorem visibleAt_le_of_mem_steps (h : Kept b s) (hf : s.mint.Fresh) (hm : s.Stores n m)
    (hr : m.receipt = none) (hunbroken : Unbroken (s.steps ys))
    (hsorted : (ys.map (·.1)).Pairwise (· ≤ ·)) (hz : z ∈ s.steps ys)
    (htouches : z.Touches m.id) : m.visibleAt ≤ z.now := by
  induction ys generalizing b s with
  | nil => cases hz
  | cons y ys ih =>
    rw [List.map_cons, List.pairwise_cons] at hsorted
    obtain ⟨hb, hunbroken⟩ := List.forall_mem_cons.mp hunbroken
    rcases List.mem_cons.mp hz with rfl | hz
    · exact h.visibleAt_le_of_touches hf hm htouches
    · by_cases hfirst : (s.step y.1 y.2).Touches m.id
      -- An earlier call has touched it.
      · have hle := h.visibleAt_le_of_touches hf hm hfirst
        have hmem := List.mem_map_of_mem (f := StoreStep.now) hz
        rw [← LeaseStore.steps, LeaseStore.map_now_steps] at hmem
        exact Nat.le_trans hle (hsorted.1 z.now hmem)
      · exact ih (h.step y.1 y.2) ((s.mint_answer y.1 y.2).symm ▸ hf)
          (h.stores_of_not_touches hf hm hr hb hfirst) hunbroken hsorted.2 hz

/-- What is delivered under the identifier of what was sent has its body. -/
private theorem body_of_mem_steps {p : Parcel} (h : Kept b s) (hf : s.mint.Fresh)
    (hp : p ∈ b.sent.map (·.1)) (hz : z ∈ s.steps ys) {d : Delivery}
    (hd : d ∈ z.answer.deliveries) (hid : d.id = some p.id) : d.body = p.body := by
  induction ys generalizing b s with
  | nil => cases hz
  | cons y ys ih =>
    rcases List.mem_cons.mp hz with rfl | hz
    · obtain ⟨j, hj⟩ := LeaseStore.exists_mem_handed hd
      obtain ⟨m, q, _, _, hq, hm, -, -, rfl, -⟩ := LeaseStore.stores_of_mem_handed hj
      obtain ⟨e, he, rfl⟩ := List.mem_map.mp hp
      obtain ⟨e', he', hparcel⟩ := List.mem_map.mp (h.mem_sent ⟨q, hq, hm⟩)
      -- Only one message was sent under the identifier.
      have hsame : e'.1.id = e.1.id := (congrArg Parcel.id hparcel).trans (Option.some.inj hid)
      obtain rfl : e' = e := List.eq_of_key_eq (·.1.id) (h.ids_nodup hf) he' he hsame
      exact (congrArg Parcel.body hparcel).symm
    · refine ih (h.step y.1 y.2) ((s.mint_answer y.1 y.2).symm ▸ hf) ?_ hz
      rw [Books.append, List.map_append]
      exact List.mem_append_left _ hp

end Kept

/-- What becomes of a message that is due at an instant: the calls since it was sent, and the store
    after them. -/
structure Matures (due : Nat) (n body id : String) (calls : List StoreStep) (s : LeaseStore) :
    Prop where
  /-- Before it is due it is neither delivered nor moved. -/
  hidden : ∀ z ∈ calls, z.Touches id → due ≤ z.now
  /-- It is delivered as it was sent. -/
  intact : ∀ z ∈ calls, ∀ d ∈ z.answer.deliveries, d.id = some id → d.body = body
  /-- Until it is delivered or moved it is in its queue, and visible from when it is due. -/
  stored : (∀ z ∈ calls, ¬ z.Touches id) → ∃ m, s.Stores n m ∧ m.id = id ∧ m.body = body ∧
    m.count = 0 ∧ m.receipt = none ∧ ∀ now, m.isVisible now ↔ due ≤ now
  /-- From then on a receive call delivers or moves it, unless it returns as much as was asked for
      without it. -/
  received : (∀ z ∈ calls, ¬ z.Touches id) → ∀ now r ds,
    LeaseStore.queueName r.destination = .ok n → due ≤ now → (s.take now r).1 = .ok ds →
      ds.length < r.limit → (s.step now (.take r)).Touches id

/-- What was never delivered matures, as long as no receive call breaks off. -/
private theorem Kept.matures (h : Kept b s) (hf : s.mint.Fresh) (hm : s.Stores n m)
    (hcount : m.count = 0) (hr : m.receipt = none) (hunbroken : Unbroken (s.steps ys))
    (hsorted : (ys.map (·.1)).Pairwise (· ≤ ·)) :
    Matures m.visibleAt n m.body m.id (s.steps ys) (s.run ys) where
  hidden z hz htouches := h.visibleAt_le_of_mem_steps hf hm hr hunbroken hsorted hz htouches
  intact z hz d hd hid := h.body_of_mem_steps hf (h.mem_sent hm) hz hd hid
  stored hnot :=
    ⟨m, h.stores_run_of_not_touched hf hm hr hunbroken hnot, rfl, rfl, hcount, hr,
      fun now => decide_eq_true_iff⟩
  received hnot now r ds hname hdue hds hfew := by
    obtain ⟨q, hq, hmem⟩ := h.stores_run_of_not_touched hf hm hr hunbroken hnot
    exact LeaseStore.touches_take (LeaseStore.at?_eq_ok.mpr ⟨hname, hq⟩) hmem
      (decide_eq_true hdue) hds hfew

end Untouched

/-! ## Publishing -/

/-- What an errand publishes: under which name, which text, and with which delay. -/
def Errand.letter? : Errand → Option (String × Except BrokerError String × Nat)
  | .sendText name body delay => some (name, .ok body, delay)
  | .publish name p delay => some (name, p.text, delay)
  | _ => none

/-- A text is published at a step and goes to a queue. -/
structure ErrandStep.Posts (x : ErrandStep) (n body : String) (delay : Nat) (id : String) :
    Prop where
  letter : ∃ name, x.errand.letter? = some (name, .ok body, delay) ∧ LeaseStore.home name = .ok n
  told : x.told? = some (.ok id)

/-- What holds of whatever is published at the steps of a run that leads to a counter. -/
structure Delayed (hist : List ErrandStep) (c : Counter) : Prop where
  /-- A text is taken if it can be written down, and the queue that the name stands for is there
      or may be made. -/
  accepted : ∀ x ∈ hist, ∀ name text delay, x.errand.letter? = some (name, text, delay) →
    ((∃ id, x.told? = some (.ok id)) ↔ (∃ body, text = .ok body) ∧
      ∃ n, LeaseStore.home name = .ok n ∧ ((x.before.store.queues.get? n).isSome ∨
        (isDestination name = false ∧ x.before.store.autoCreate)))
  /-- Otherwise nothing changes: there is no new message, and no new queue. -/
  refused : ∀ x ∈ hist, x.errand.letter?.isSome → ∀ e, x.told? = some (.error e) →
    x.after.store = x.before.store
  /-- A receive call returns what the store answered to it then. -/
  returned : ∀ x ∈ hist, ∀ name r, x.Returns name r →
    ∃ z ∈ x.calls, z.now = x.now ∧ z.answer = .taken (r.mapError .refused)
  posted : ∀ before x later n body delay id, hist = before ++ x :: later →
    x.Posts n body delay id →
      Matures (x.now + 1000 * wholeDelay delay) n body id (later.flatMap (·.calls)) c.store

namespace Counter

variable {c : Counter} {now : Nat} {e : Errand} {name body id n : String} {delay : Nat}
  {err : BrokerError} {s : LeaseStore} {xs : List (Nat × Errand)}

/-- A text that can be written down is sent. -/
private theorem of_letter (h : e.letter? = some (name, .ok body, delay)) (c : Counter) (now : Nat) :
    c.told? now e = some (c.outbox.sendText now name body delay).1 ∧
      (c.after now e).outbox = (c.outbox.sendText now name body delay).2 := by
  cases e with
  | sendText name body delay =>
    cases h
    exact ⟨rfl, outbox_afterSending ..⟩
  -- What is published is sent as its text.
  | publish name p delay =>
    obtain ⟨rfl, htext, rfl⟩ := by simpa [Errand.letter?] using h
    have hpublish := Outbox.publish_of_ok htext c.outbox now name delay
    rw [← hpublish]
    exact ⟨rfl, outbox_afterSending ..⟩
  | _ => cases h

/-- A text that cannot be written down is not sent. -/
private theorem of_letter_error (h : e.letter? = some (name, .error err, delay)) (c : Counter)
    (now : Nat) : c.told? now e = some (.error err) ∧ (c.after now e).outbox = c.outbox := by
  cases e with
  | publish name p delay =>
    -- A payload without a text fails before the outbox does anything.
    obtain ⟨rfl, htext, rfl⟩ := by simpa [Errand.letter?] using h
    have hpublish := Outbox.publish_of_error htext c.outbox now name delay
    refine ⟨congrArg (fun r : Except BrokerError String × Outbox => some r.1) hpublish, ?_⟩
    exact (outbox_afterSending ..).trans (congrArg Prod.snd hpublish)
  | _ => cases h

/-- A text is taken if it can be written down and its queue is there or may be made. -/
theorem exists_told_ok_iff {text : Except BrokerError String} (h : c.outbox.Current)
    (hletter : e.letter? = some (name, text, delay)) (now : Nat) :
    (∃ id, c.told? now e = some (.ok id)) ↔ (∃ body, text = .ok body) ∧
      ∃ n, LeaseStore.home name = .ok n ∧ ((c.store.queues.get? n).isSome ∨
        (isDestination name = false ∧ c.store.autoCreate)) := by
  cases text with
  | error err => simp [(of_letter_error hletter c now).1]
  | ok body =>
    rw [(of_letter hletter c now).1]
    simp only [Option.some.injEq, Except.ok.injEq, exists_eq', true_and]
    exact h.exists_sendText_ok_iff now body delay

/-- A text that is refused leaves no trace. -/
private theorem store_after_of_refused (hletter : e.letter?.isSome)
    (htold : c.told? now e = some (.error err)) : (c.after now e).store = c.store := by
  obtain ⟨⟨name, text, delay⟩, hletter⟩ := Option.isSome_iff_exists.mp hletter
  cases text with
  | error err' => exact congrArg Outbox.store (of_letter_error hletter c now).2
  | ok body =>
    obtain ⟨hsent, hafter⟩ := of_letter hletter c now
    refine (congrArg Outbox.store hafter).trans ?_
    exact Outbox.store_sendText_of_error (Option.some.inj (hsent.symm.trans htold))

/-- What is published is stored in the queue that its name stands for. -/
private theorem stores_of_posts (h : c.outbox.Current)
    (hposts : (c.step now e).Posts n body delay id) : (c.after now e).store.Stores n
      -- A payload that is no text is refused before the store is asked.
      ⟨id, body, c.store.wallClock + now, now + 1000 * wholeDelay delay, 0, none⟩ := by
  obtain ⟨name, hletter, hhome⟩ := hposts.letter
  obtain ⟨htold, hafter⟩ := of_letter hletter c now
  have hok : (c.outbox.sendText now name body delay).1 = .ok id :=
    Option.some.inj (htold.symm.trans hposts.told)
  obtain ⟨j, hj, hstores⟩ := h.exists_stores_of_sendText hok
  -- The message goes where its name is at home, which is where it was posted.
  obtain rfl : n = j := Except.ok.inj (hhome.symm.trans hj)
  have hstore : (c.after now e).store = _ := congrArg Outbox.store hafter
  rwa [hstore]

/-- One text is late and one is not, one cannot be written down, and one has no destination that is
    known.  A receive call comes just before the late one is due, and another one when it is. -/
def deferred : List (Nat × Errand) :=
  [(0, .sendText "q" "late" 1500000000), (0, .sendText "q" "soon" 0),
    (5, .publish "p" .oddlyKeyed 0), (6, .sendText "other://q" "lost" 0),
    (999, .call (.take ⟨"memory://q", 10, none, none⟩)),
    (1000, .call (.take ⟨"memory://q", 10, none, none⟩))]

/-- A queue has a redrive rule that allows one delivery.  Its first two receive calls break off. -/
def dropped : List (Nat × Errand) :=
  [(0, .call (.createRedrive "q" ⟨"dead", 1⟩)), (0, .sendText "q" "x" 0), (0, .sendText "q" "y" 0),
    (1, .call (.take ⟨"memory://q", 1, some 9223372036854775807000, none⟩)),
    (1, .call (.take ⟨"memory://q", 1, some 9223372036854775807000, none⟩))]

end Counter

end Intake
