import Intake.Proofs.Front
import Intake.Proofs.LeaseStore.Conserved
import Intake.Proofs.LeaseStore.Contents

/-!
# One pass of a receive call, as functions of a list

A receive call goes through its queue once.  What it returns, what it moves and what it leaves
behind are filters of the list of messages that was there.

- `exhausted_pass`, `forall₂_taken_pass`, `kept_pass`: the three parts of a pass
- `Scan`: what a receive call does, read off the messages of its queue
- `Traffic.scanned_run`: it is so at every store that can come about, unless the call breaks off
- `Traffic.not_scanned_beyond`: a call that breaks off returns nothing of what it has found
-/

namespace Intake

variable {s : LeaseStore} {now hiddenUntil limit : Nat} {hide : Nat → Nat} {mint : Mint}
  {rule : Option Redrive} {delivered : List String} {ms : List Stored} {m : Stored}
  {r : ReceiveRequest} {n : String} {q : StoreQueue}

/-! ## The messages of a queue -/

namespace Stored

/-- Whether a message can be delivered at an instant: it is visible, and was not delivered too
    often. -/
def isDeliverable (m : Stored) (rule : Option Redrive) (now : Nat) : Bool :=
  m.isVisible now && !m.isExhausted rule

/-- Whether a message would be moved on at an instant: it is visible, and was delivered too
    often. -/
def isSpent (m : Stored) (rule : Option Redrive) (now : Nat) : Bool :=
  m.isVisible now && m.isExhausted rule

/-- A visible message can be delivered or would be moved on. -/
theorem isDeliverable_or_isSpent (h : m.isVisible now = true) (rule : Option Redrive) :
    m.isDeliverable rule now = true ∨ m.isSpent rule now = true := by
  unfold isDeliverable isSpent
  cases m.isExhausted rule <;> simp [h]

end Stored

namespace StoreQueue

/-- The first messages of a queue that can be delivered, so many at most. -/
def firsts (q : StoreQueue) (now limit : Nat) : List Stored :=
  (q.messages.filter (·.isDeliverable q.redrive now)).take limit

/-- The messages of a queue that were delivered too often and do not come after the last of the
    first ones that can be delivered, if there are so many. -/
def spent (q : StoreQueue) (now limit : Nat) : List Stored :=
  (q.messages.frontWith (·.isDeliverable q.redrive now) limit).filter (·.isSpent q.redrive now)

end StoreQueue

/-! ## The parts of a pass -/

/-- What leaves a queue. -/
theorem exhausted_pass (mint : Mint) (rule : Option Redrive) (now : Nat) (hide : Nat → Nat)
    (limit : Nat) (delivered : List String) (ms : List Stored) :
    (pass mint rule now hide limit delivered ms).exhausted =
      (ms.frontWith (·.isDeliverable rule now) limit).filter (·.isSpent rule now) := by
  -- Along the pass: hidden, exhausted or deliverable, as the front of the queue is made of.
  fun_induction pass mint rule now hide limit delivered ms with
  | case1 | case2 => simp
  | case3 limit delivered m ms hv p ih =>
    have hnot : m.isVisible now = false := by simpa using hv
    simp [List.frontWith_cons, Stored.isDeliverable, Stored.isSpent, hnot, p, ih]
  | case4 limit delivered m ms hv he p ih =>
    have hvisible : m.isVisible now = true := by simpa using hv
    simp [List.frontWith_cons, Stored.isDeliverable, Stored.isSpent, hvisible, he, p, ih]
  | case5 limit delivered m ms hv he m' p ih =>
    have hvisible : m.isVisible now = true := by simpa using hv
    simp [List.frontWith_cons, Stored.isDeliverable, Stored.isSpent, hvisible, he, p, ih]

/-- What is delivered are the first messages that can be, in their order. -/
theorem forall₂_taken_pass (mint : Mint) (rule : Option Redrive) (now : Nat) (hide : Nat → Nat)
    (limit : Nat) (delivered : List String) (ms : List Stored) :
    List.Forall₂ (fun m m' => m' = m.deliver m'.delivery.receipt (hide m.visibleAt))
      ((ms.filter (·.isDeliverable rule now)).take limit)
      (pass mint rule now hide limit delivered ms).taken := by
  -- Along the pass: what is taken is the first deliverable message each time.
  fun_induction pass mint rule now hide limit delivered ms with
  | case1 | case2 => simp
  | case3 limit delivered m ms hv p ih =>
    have hnot : m.isDeliverable rule now = false := by simp_all [Stored.isDeliverable]
    rwa [List.filter_cons_of_neg (by simpa using hnot)]
  | case4 limit delivered m ms hv he p ih =>
    have hnot : m.isDeliverable rule now = false := by simp_all [Stored.isDeliverable]
    rwa [List.filter_cons_of_neg (by simpa using hnot)]
  | case5 limit delivered m ms hv he m' p ih =>
    have hdue : m.isDeliverable rule now = true := by simp_all [Stored.isDeliverable]
    rw [List.filter_cons_of_pos (by simpa using hdue)]
    exact .cons rfl ih

/-- What has another identifier than what was there does not leave. -/
private theorem not_mem_exhausted_pass (hm : m.id ∉ ms.map (·.id)) :
    m ∉ (pass mint rule now hide limit delivered ms).exhausted :=
  fun hmem => hm (List.mem_map_of_mem (mem_exhausted_pass hmem).1)

/-- What has another identifier than what was there is not delivered. -/
private theorem find?_taken_pass_eq_none (hm : m.id ∉ ms.map (·.id)) :
    (pass mint rule now hide limit delivered ms).taken.find? (·.id = m.id) = none := by
  refine List.find?_eq_none.mpr fun m' hm' => ?_
  obtain ⟨m₀, hm₀, -, -, heq⟩ := mem_taken_pass hm'
  have hid : m'.id = m₀.id := by rw [heq]; rfl
  have hne : m'.id ≠ m.id := fun he => hm (he ▸ hid ▸ List.mem_map_of_mem hm₀)
  simpa using hne

/-- What stays is what does not leave, and what is delivered stays in its place. -/
theorem kept_pass (hnodup : (ms.map (·.id)).Nodup) :
    (pass mint rule now hide limit delivered ms).kept =
      (ms.filter (· ∉ (pass mint rule now hide limit delivered ms).exhausted)).map fun m =>
        ((pass mint rule now hide limit delivered ms).taken.find? (·.id = m.id)).getD m := by
  fun_induction pass mint rule now hide limit delivered ms with
  | case1 => simp
  | case2 => rfl
  | case3 limit delivered m ms hv p ih =>
    obtain ⟨hm, hrest⟩ := List.nodup_cons.mp hnodup
    have hstays : m ∉ p.exhausted := not_mem_exhausted_pass hm
    have hnone : p.taken.find? (·.id = m.id) = none := find?_taken_pass_eq_none hm
    rw [List.filter_cons_of_pos (by simpa using hstays), List.map_cons, hnone, ← ih hrest]
    rfl
  -- It stands at the head of what leaves, and is not among the others.
  | case4 limit delivered m ms hv he p ih =>
    obtain ⟨hm, hrest⟩ := List.nodup_cons.mp hnodup
    have hothers : ∀ i ∈ ms, decide (i ∉ m :: p.exhausted) = decide (i ∉ p.exhausted) := by
      intro i hi
      have hne : i ≠ m := fun he => hm (he ▸ List.mem_map_of_mem hi)
      simp [hne]
    rw [List.filter_cons_of_neg (by simp), List.filter_congr hothers]
    exact ih hrest
  -- It is found under its identifier, and the others are not touched by that.
  | case5 limit delivered m ms hv he m' p ih =>
    obtain ⟨hm, hrest⟩ := List.nodup_cons.mp hnodup
    have hstays : m ∉ p.exhausted := not_mem_exhausted_pass hm
    have hself : (m' :: p.taken).find? (·.id = m.id) = some m' :=
      List.find?_cons_of_pos (decide_eq_true rfl)
    have hothers : ∀ i ∈ ms.filter (· ∉ p.exhausted),
        ((m' :: p.taken).find? (·.id = i.id)).getD i = (p.taken.find? (·.id = i.id)).getD i := by
      intro i hi
      have hne : m'.id ≠ i.id := fun he => hm (by
        have hmem := List.mem_map_of_mem (f := Stored.id) (List.mem_filter.mp hi).1
        rwa [← he] at hmem)
      rw [List.find?_cons_of_neg (by simpa using hne)]
    rw [List.filter_cons_of_pos (by simpa using hstays), List.map_cons, hself,
      List.map_congr_left hothers, ← ih hrest]
    rfl

/-! ## What a receive call does -/

/-- Some messages as their deliveries leave them: counted once more, each under its receipt, and
    hidden. -/
def leasedAs (hiddenUntil : Nat) (ms : List Stored) (ds : List Delivery) : List Stored :=
  List.zipWith (fun m d =>
    { m with count := m.count + 1, receipt := some d.receipt, visibleAt := hiddenUntil }) ms ds

/-- What a receive call does at an instant to a store and a queue there, which it leaves as another
    store, and what it returns. -/
structure Scan (hist : List StoreStep) (s : LeaseStore) (now : Nat) (r : ReceiveRequest)
    (n : String) (q : StoreQueue) (ds : List Delivery) (s' : LeaseStore) : Prop where
  /-- The first messages that can be delivered are returned, as they are then. -/
  returned : ds.length = (q.firsts now r.limit).length ∧
    ds = (leasedAs (now + r.visibility.getD s.visibility) (q.firsts now r.limit) ds).map
      Stored.delivery
  /-- No receipt was given out before. -/
  fresh : ((books hist).issued.map (·.1) ++ ds.map (·.receipt)).Nodup
  /-- What was delivered too often goes from its queue to the end of the dead-letter queue, which
      may be the same, and what is delivered stays in its place; all else is as it was. -/
  queues : ∀ j, s'.queues.get? j =
    (if j = n then some { q with
        messages := (q.messages.filter (· ∉ q.spent now r.limit)).map fun m =>
          ((leasedAs (now + r.visibility.getD s.visibility) (q.firsts now r.limit) ds).find?
            (·.id = m.id)).getD m }
      else s.queues.get? j).map fun w =>
        if q.redrive.any (·.deadLetters = j) then
          { w with messages := w.messages ++ (q.spent now r.limit).map fun m =>
              { m with count := 0, receipt := none, visibleAt := now } }
        else w
  /-- The dead-letter queue is there. -/
  target : ∀ rule, q.redrive = some rule → (s.queues.get? rule.deadLetters).isSome
  kept : s' = { s with queues := s'.queues, delivered := s'.delivered }
  /-- If fewer messages are returned than were asked for, all are moved on that were delivered
      too often. -/
  all : ds.length < r.limit →
    q.spent now r.limit = q.messages.filter (·.isSpent q.redrive now)
  /-- No visible message is passed by in favour of one behind it. -/
  in_turn : ∀ before m after, q.messages = before ++ m :: after → m ∈ q.firsts now r.limit →
    ∀ m' ∈ before, m'.visibleAt ≤ now →
      m' ∈ q.firsts now r.limit ∨ m' ∈ q.spent now r.limit

/-- Messages that are delivered under receipts of their own are as these leave them. -/
private theorem leasedAs_of_forall₂ {ms' : List Stored}
    (h : List.Forall₂ (fun m m' => m' = m.deliver m'.delivery.receipt hiddenUntil) ms ms') :
    leasedAs hiddenUntil ms (ms'.map Stored.delivery) = ms' := by
  unfold leasedAs
  induction h with
  | nil => rfl
  | cons hm _ ih => exact congr (congrArg _ hm.symm) ih

namespace LeaseStore

/-- What a receive call would deliver are the first messages of its queue that can be. -/
theorem forall₂_passOver (s : LeaseStore) (now : Nat) (r : ReceiveRequest) (q : StoreQueue) :
    List.Forall₂ (fun m m' => m' = m.deliver m'.delivery.receipt (s.hiddenUntil now r))
      (q.firsts now r.limit) (s.passOver now r q).taken :=
  forall₂_taken_pass s.mint q.redrive now (fun _ => s.hiddenUntil now r) r.limit s.delivered
    q.messages

/-- A receive call breaks off if there is a message that it can deliver, and the end of its lease
    lies beyond the clock. -/
theorem breaksOff_eq_false_iff : s.breaksOff now r q = false ↔
    q.firsts now r.limit = [] ∨ s.hiddenUntil now r ≤ s.lastInstant := by
  -- The pass takes as many messages as the list specification picks.
  have hlength := (s.forall₂_passOver now r q).length_eq
  have hnone : (s.passOver now r q).taken.isEmpty ↔ q.firsts now r.limit = [] := by
    rw [List.isEmpty_iff, ← List.length_eq_zero_iff, ← List.length_eq_zero_iff, hlength]
  unfold breaksOff
  rw [Bool.and_eq_false_iff, decide_eq_false_iff_not, Nat.not_lt, Bool.not_eq_false', hnone,
    or_comm]

end LeaseStore

/-- A receive call that does not break off makes its pass as a function of the list. -/
private theorem Kept.scan {hist : List StoreStep} (h : Kept (books hist) s) (hf : s.mint.Fresh)
    (hat : s.at? r.destination = .ok (n, q)) (hb : s.breaksOff now r q = false) :
    Scan hist s now r n q ((s.passOver now r q).taken.map Stored.delivery) (s.take now r).2 := by
  have hq := (LeaseStore.at?_eq_ok.mp hat).2
  have hids := h.nodup_messages hf hq
  have hspent : (s.passOver now r q).exhausted = q.spent now r.limit := exhausted_pass ..
  have htaken := s.forall₂_passOver now r q
  -- The messages taken are the first deliverable ones, leased as the call asks.
  have hleased : leasedAs (now + r.visibility.getD s.visibility) (q.firsts now r.limit)
      ((s.passOver now r q).taken.map Stored.delivery) = (s.passOver now r q).taken :=
    leasedAs_of_forall₂ htaken
  have hlength : (s.passOver now r q).taken.length = (q.firsts now r.limit).length :=
    htaken.length_eq.symm
  rw [LeaseStore.take_of_not_breaksOff hat hb]
  constructor
  case returned => exact ⟨by rw [List.length_map, hlength], by rw [hleased]⟩
  case fresh =>
    have hcoined := coined_pass s.mint q.redrive now (fun _ => s.hiddenUntil now r) r.limit
      s.delivered q.messages
    rw [h.receipts, List.map_map]
    exact hcoined ▸ hf.receipts _
  case queues =>
    intro j
    dsimp only
    rw [LeaseStore.get?_bury, LeaseStore.keep, Table.get?_set, hleased, ← hspent]
    have hkept : (s.passOver now r q).kept = _ := kept_pass hids
    rw [hkept]
    rfl
  case target => exact fun rule => h.targets n q rule hq
  case kept =>
    dsimp only
    rw [LeaseStore.bury_eq]
    rfl
  case all =>
    intro hlt
    -- Fewer than asked for: the scan came to the end of the queue.
    have hfew : q.messages.countP (·.isDeliverable q.redrive now) < r.limit := by
      rw [List.length_map, hlength, StoreQueue.firsts, List.length_take] at hlt
      rw [List.countP_eq_length_filter]
      omega
    rw [StoreQueue.spent, List.frontWith_of_countP_lt hfew]
  case in_turn =>
    intro before m after hcut hm m' hm' hvisible
    -- A message taken has before it only what was looked at, in its turn.
    have hfirst : m ∈ ((before ++ m :: after).filter
        (·.isDeliverable q.redrive now)).take r.limit := by
      rw [← hcut]
      exact hm
    have hfront := List.subset_frontWith (hcut ▸ hids.of_map) hfirst hm'
    rw [← hcut] at hfront
    rcases m'.isDeliverable_or_isSpent (decide_eq_true hvisible) q.redrive with hdue | hspent
    · refine .inl ?_
      rw [StoreQueue.firsts, ← List.filter_frontWith]
      exact List.mem_filter.mpr ⟨hfront, hdue⟩
    · exact .inr (List.mem_filter.mpr ⟨hfront, hspent⟩)

/-- A queue that is its own dead-letter queue.  After two seconds its first and its last message
    were delivered too often, the middle one is hidden, and the others can be delivered. -/
def assorted : List (Nat × Visit) :=
  [(0, .called (.createRedrive "q" ⟨"q", 1⟩)), (0, .called (.send "memory://q" "a" 0)),
    (0, .called (.send "memory://q" "b" 1)), (0, .called (.send "memory://q" "c" 5)),
    (0, .called (.send "memory://q" "d" 1)), (0, .called (.send "memory://q" "e" 0)),
    (0, .called (.take ⟨"memory://q", 2, some 10, none⟩))]

end Intake
