import Intake.Proofs.LeaseStore.Contents

/-!
# How a message came to be as it is

What happened to a stored message at a call that does not break off can be read off what the call
delivered, moved and sent: a message about which these say nothing is as it was.

- `StoreStep.handed`, `StoreStep.movedTo`: what a call delivers from a queue and moves to one
- `stores_of_mem_handed`, `stores_of_mem_movedTo`: where that was before and where it is then
- `Kept.origin`: how a stored message came to be as it is
-/

namespace Intake

variable {s : LeaseStore} {now : Nat} {c : StoreCall} {r : ReceiveRequest} {n j : String}
  {q : StoreQueue} {m m₀ : Stored} {d : Delivery} {b : Books}

namespace StoreStep

/-- What a call delivers from a queue. -/
def handed (n : String) (x : StoreStep) : List Delivery :=
  match x.call with
  | .take r =>
    match LeaseStore.queueName r.destination with
    | .ok j => if j = n then x.answer.deliveries else []
    | .error _ => []
  | _ => []

/-- What a call moves to a dead-letter queue. -/
def movedTo (n : String) (x : StoreStep) : List Stored :=
  match x.call with
  | .take r =>
    match x.before.at? r.destination with
    | .ok (_, q) => if q.redrive.any (·.deadLetters = n) then x.moved else []
    | .error _ => []
  | _ => []

end StoreStep

/-! ## What is delivered and what is moved -/

namespace LeaseStore

/-- A pass tells what it delivers. -/
theorem deliveries_take (hat : s.at? r.destination = .ok (n, q))
    (hb : s.breaksOff now r q = false) :
    (s.step now (.take r)).answer.deliveries = (s.passOver now r q).taken.map Stored.delivery := by
  simp only [step, answer, take_of_not_breaksOff hat hb, Prod.map]
  rfl

/-- A receive call that delivers has found a queue, and has not broken off. -/
private theorem exists_of_mem_deliveries (hd : d ∈ (s.step now (.take r)).answer.deliveries) :
    ∃ n q, s.at? r.destination = .ok (n, q) ∧ s.breaksOff now r q = false := by
  -- A receive call fails, breaks off, or delivers; only the last one hands anything out.
  obtain ⟨e, hat⟩ | ⟨n, q, hat, hb | hb⟩ := s.take_cases now r
  · rw [deliveries_take_error hat] at hd
    cases hd
  · rw [deliveries_of_breaksOff ((breaksOff_step hat now).trans hb)] at hd
    cases hd
  · exact ⟨n, q, hat, hb⟩

/-- A call that sends does not deliver. -/
private theorem deliveries_of_mem_sent {e : Parcel × String} (he : e ∈ (s.step now c).sent) :
    (s.step now c).answer.deliveries = [] := by
  cases c with
  | take r => cases he
  | _ => rfl

/-- What is leased is delivered. -/
private theorem exists_delivery_of_mem_leases {l : Lease} (hl : l ∈ (s.step now c).leases) :
    ∃ d ∈ (s.step now c).answer.deliveries, d.id = l.id := by
  -- Only a receive call on a known queue makes leases, one for each delivery.
  unfold StoreStep.leases at hl
  split at hl
  · split at hl
    · obtain ⟨d, hd, rfl⟩ := List.mem_map.mp hl
      exact ⟨d, hd, rfl⟩
    · cases hl
  · cases hl

/-- What is delivered is delivered from a queue. -/
theorem exists_mem_handed (hd : d ∈ (s.step now c).answer.deliveries) :
    ∃ n, d ∈ (s.step now c).handed n := by
  cases c with
  | take r =>
    obtain ⟨n, q, hat, -⟩ := exists_of_mem_deliveries hd
    have hname := (at?_eq_ok.mp hat).1
    refine ⟨n, ?_⟩
    simpa only [StoreStep.handed, step, hname, if_true] using hd
  | _ => cases hd

/-- What is delivered from a queue is delivered. -/
theorem mem_deliveries_of_mem_handed (hd : d ∈ (s.step now c).handed n) :
    d ∈ (s.step now c).answer.deliveries := by
  unfold StoreStep.handed at hd
  split at hd
  · split at hd
    · split at hd
      · exact hd
      · cases hd
    · cases hd
  · cases hd

/-- What is moved to a queue is moved. -/
theorem mem_moved_of_mem_movedTo (hm : m ∈ (s.step now c).movedTo n) :
    m ∈ (s.step now c).moved := by
  unfold StoreStep.movedTo at hm
  split at hm
  · split at hm
    · split at hm
      · exact hm
      · cases hm
    · cases hm
  · cases hm

/-- What a queue delivers could be received there, was not delivered too often, and stays. -/
theorem stores_of_mem_handed (hd : d ∈ (s.step now c).handed n) :
    ∃ m q receipt ends, s.queues.get? n = some q ∧ m ∈ q.messages ∧ m.isVisible now = true ∧
      m.isExhausted q.redrive = false ∧ d = (m.deliver receipt ends).delivery ∧
      (s.answer now c).2.Stores n (m.deliver receipt ends) := by
  cases c with
  | take r =>
    have hmem := mem_deliveries_of_mem_handed hd
    obtain ⟨j, q, hat, hb⟩ := exists_of_mem_deliveries hmem
    obtain ⟨hname, hq⟩ := at?_eq_ok.mp hat
    rw [deliveries_take hat hb] at hmem
    -- Only the queue of the call hands anything out.
    obtain rfl : j = n := by
      by_contra hne
      simp [StoreStep.handed, step, hname, hne] at hd
    obtain ⟨m', hm', rfl⟩ := List.mem_map.mp hmem
    obtain ⟨m, hm, hvisible, hlimit, heq⟩ := mem_taken_pass hm'
    refine ⟨m, q, m'.delivery.receipt, _, hq, hm, hvisible, hlimit, congrArg _ heq, ?_⟩
    -- What the pass takes, it keeps; burying the spent messages takes nothing away.
    rw [← heq]
    change (s.take now r).2.Stores j m'
    rw [take_of_not_breaksOff hat hb]
    exact (stores_of_set rfl ((sublist_taken_pass ..).subset hm')).bury now q.redrive _
  | _ => cases hd

/-- A move starts at a receive call on a queue with a redrive rule. -/
theorem exists_take_of_mem_moved (hm : m ∈ (s.step now c).moved) :
    ∃ r n q rule, c = .take r ∧ s.at? r.destination = .ok (n, q) ∧ q.redrive = some rule ∧
      m ∈ q.messages ∧ m.isVisible now = true ∧ rule.limit ≤ m.count := by
  cases c with
  | take r =>
    obtain ⟨e, hat⟩ | ⟨n, q, hat, hb | hb⟩ := s.take_cases now r
    · rw [moved_take_error hat] at hm
      cases hm
    · rw [moved_of_breaksOff ((breaksOff_step hat now).trans hb)] at hm
      cases hm
    · -- What the pass moves was visible, and at its limit under the redrive rule.
      rw [moved_take hat hb] at hm
      obtain ⟨hmem, hvisible, hlimit⟩ := mem_exhausted_pass hm
      obtain ⟨rule, hrule, hle⟩ := Option.any_eq_true _ _ |>.mp hlimit
      exact ⟨r, n, q, rule, rfl, hat, hrule, hmem, hvisible, by simpa using hle⟩
  | _ => cases hm

/-- What a pass over a queue moves stands last in its dead-letter queue, in order. -/
theorem exists_append_moved (h : Kept b s) (hat : s.at? r.destination = .ok (n, q))
    (hb : (s.step now (.take r)).breaksOff = false) {rule : Redrive}
    (hrule : q.redrive = some rule) :
    ∃ w, (s.answer now (.take r)).2.queues.get? rule.deadLetters = some w ∧
      ∃ rest, w.messages = rest ++ (s.step now (.take r)).moved.map (·.buried now) := by
  have hq := (at?_eq_ok.mp hat).2
  rw [breaksOff_step hat] at hb
  obtain ⟨ms, redrive⟩ := q
  obtain rfl : redrive = some rule := hrule
  -- The dead-letter queue is still there when the pass is over.
  have htarget : ∃ w, (s.queues.set n ⟨(s.passOver now r ⟨ms, some rule⟩).kept, some rule⟩).get?
      rule.deadLetters = some w := by
    rw [Table.get?_set]
    split
    · exact ⟨_, rfl⟩
    · exact Option.isSome_iff_exists.mp (h.targets n _ rule hq rfl)
  obtain ⟨w, hw⟩ := htarget
  rw [moved_take hat hb]
  change ∃ w, (s.take now r).2.queues.get? rule.deadLetters = some w ∧ _
  rw [take_of_not_breaksOff hat hb]
  refine ⟨{ w with messages := w.messages ++ _ }, ?_, w.messages, rfl⟩
  rw [LeaseStore.bury, Table.get?_modify, if_pos rfl]
  exact congrArg (Option.map _) hw

/-- What a pass over a queue moves it moves to the dead-letter queue. -/
theorem mem_movedTo (hat : s.at? r.destination = .ok (n, q)) {rule : Redrive}
    (hrule : q.redrive = some rule) (hm : m ∈ (s.step now (.take r)).moved) :
    m ∈ (s.step now (.take r)).movedTo rule.deadLetters := by
  simpa only [StoreStep.movedTo, step, hat, hrule, Option.any_some, decide_true, if_true] using hm

/-- What is moved is moved to the dead-letter queue of its queue, and is stored there. -/
private theorem exists_movedTo_of_mem_moved (h : Kept b s) (hm : m ∈ (s.step now c).moved) :
    ∃ n, m ∈ (s.step now c).movedTo n ∧ (s.answer now c).2.Stores n (m.buried now) := by
  -- A call that breaks off moves nothing.
  have hb : (s.step now c).breaksOff = false := by
    by_contra hbreaks
    rw [moved_of_breaksOff (by simpa using hbreaks)] at hm
    cases hm
  obtain ⟨r, n, q, rule, rfl, hat, hrule, -⟩ := exists_take_of_mem_moved hm
  obtain ⟨w, hw, rest, hrest⟩ := exists_append_moved h hat hb hrule
  refine ⟨rule.deadLetters, mem_movedTo hat hrule hm, w, hw, ?_⟩
  rw [hrest]
  exact List.mem_append_right _ (List.mem_map_of_mem hm)

end LeaseStore

/-! ## Where a message comes from -/

/-- How a message came to be in a queue as it is after a call that does not break off. -/
inductive Origin (x : StoreStep) (n : String) (m : Stored) : Prop
  /-- Nothing happened to it. -/
  | stayed (hm : x.before.Stores n m) (hdelivered : ∀ d ∈ x.answer.deliveries, d.id ≠ some m.id)
    (hmoved : ∀ m' ∈ x.moved, m'.id ≠ m.id)
  | sent (hm : (m.parcel, n) ∈ x.sent) (hcount : m.count = 0) (hreceipt : m.receipt = none)
    (hdelivered : x.answer.deliveries = [])
  /-- It was not delivered too often before. -/
  | delivered (m₀ : Stored) (q : StoreQueue) (receipt : String) (ends : Nat)
    (hq : x.before.queues.get? n = some q) (hm : m₀ ∈ q.messages)
    (hlimit : m₀.isExhausted q.redrive = false) (hd : m.delivery ∈ x.handed n)
    (heq : m = m₀.deliver receipt ends) (hmoved : ∀ m' ∈ x.moved, m'.id ≠ m.id)
  | moved (m₀ : Stored) (hm : m₀ ∈ x.movedTo n) (heq : m = m₀.buried x.now)
    (hdelivered : ∀ d ∈ x.answer.deliveries, d.id ≠ some m.id)

/-- A stored message is as it was, or the call has sent, delivered or moved it. -/
theorem Kept.origin (h : Kept b s) (hf : s.mint.Fresh) (hb : (s.step now c).breaksOff = false)
    (hm : (s.answer now c).2.Stores n m) : Origin (s.step now c) n m := by
  have hafter := h.step now c
  have hfresh : (s.answer now c).2.mint.Fresh := (s.mint_answer now c).symm ▸ hf
  -- What was moved has no receipt, so it was not delivered as well.
  have hmoved : ∀ m' ∈ (s.step now c).moved, m'.id = m.id →
      ∃ j, m' ∈ (s.step now c).movedTo j ∧ j = n ∧ m = m'.buried now := by
    intro m' hm' hid
    obtain ⟨j, hj, hstores⟩ := LeaseStore.exists_movedTo_of_mem_moved h hm'
    obtain ⟨rfl, heq⟩ := hafter.eq_of_id hfresh hstores hm hid
    exact ⟨j, hj, rfl, heq.symm⟩
  by_cases hdelivered : ∃ d ∈ (s.step now c).answer.deliveries, d.id = some m.id
  · obtain ⟨d, hd, hid⟩ := hdelivered
    obtain ⟨j, hj⟩ := LeaseStore.exists_mem_handed hd
    obtain ⟨m₀, q, receipt, ends, hq, hm₀, -, hlimit, rfl, hstores⟩ :=
      LeaseStore.stores_of_mem_handed hj
    obtain ⟨rfl, rfl⟩ := hafter.eq_of_id hfresh hstores hm (Option.some.inj hid)
    refine .delivered m₀ q receipt ends hq hm₀ hlimit hj rfl fun m' hm' hid' => ?_
    obtain ⟨-, -, -, heq⟩ := hmoved m' hm' hid'
    cases congrArg Stored.receipt heq
  · have hnot : ∀ d ∈ (s.step now c).answer.deliveries, d.id ≠ some m.id :=
      fun d hd hid => hdelivered ⟨d, hd, hid⟩
    by_cases hgone : ∃ m' ∈ (s.step now c).moved, m'.id = m.id
    · obtain ⟨m', hm', hid⟩ := hgone
      obtain ⟨j, hj, rfl, heq⟩ := hmoved m' hm' hid
      exact .moved m' hj heq hnot
    · have hstays : ∀ m' ∈ (s.step now c).moved, m'.id ≠ m.id :=
        fun m' hm' hid => hgone ⟨m', hm', hid⟩
      rcases LeaseStore.stores_answer hm with
        hold | ⟨hreceipt, hcount, hsent⟩ | ⟨m', hm', heq⟩ | ⟨l, hl, hid⟩ | ⟨hbreaks, -⟩
      · exact .stayed hold hnot hstays
      · exact .sent hsent hcount hreceipt (LeaseStore.deliveries_of_mem_sent hsent)
      · exact absurd (congrArg Stored.id heq).symm (hstays m' hm')
      · obtain ⟨d, hd, hid'⟩ := LeaseStore.exists_delivery_of_mem_leases hl
        exact absurd (hid'.trans hid) (hnot d hd)
      · cases hb.symm.trans hbreaks

end Intake
