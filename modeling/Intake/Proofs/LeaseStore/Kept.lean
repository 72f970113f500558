import Intake.Proofs.Keyed
import Intake.Proofs.LeaseStore.Books
import Intake.Proofs.Table
import Mathlib.Data.List.Pairwise
import Mathlib.Logic.Relation

/-!
# What was sent is kept

Whatever calls are made to a store, it holds what was sent and neither removed nor lost, each once,
in the queue to which it was sent or further down a chain of dead-letter queues.

- `Kept`: the books agree with what is stored
- `Kept.exchange`: messages of one queue are exchanged for others
- `kept_run`: the books agree after any calls
- `Kept.eq_of_id`: two stored messages with one identifier are one
- `Kept.holds_or_gone`: what was sent is stored once, or was removed or lost
-/

namespace Intake

open scoped List

variable {b b' : Books} {s s' : LeaseStore} {n name dest : String} {q : StoreQueue}
  {m : Stored}

/-! ## Queues that agree with the books -/

/-- Whether a queue was given a dead-letter queue. -/
def Books.Redrives (b : Books) (n n' : String) : Prop := (n, n') ∈ b.redrives

/-- A message was sent to a queue from which dead-letter queues lead to where it is, and its
    receipt was given out for it. -/
structure Books.Knows (b : Books) (n : String) (m : Stored) : Prop where
  sent : ∃ home, (m.parcel, home) ∈ b.sent ∧ Relation.ReflTransGen b.Redrives home n
  issued : ∀ r, m.receipt = some r → (r, some m.id) ∈ b.issued

/-- All messages of a queue are known, and so is its dead-letter queue. -/
structure Books.Covers (b : Books) (n : String) (q : StoreQueue) : Prop where
  messages : ∀ m ∈ q.messages, b.Knows n m
  redrive : ∀ r, q.redrive = some r → b.Redrives n r.deadLetters

/-- Books may become longer. -/
structure Books.Grow (b b' : Books) : Prop where
  sent : b.sent ⊆ b'.sent
  issued : b.issued ⊆ b'.issued
  redrives : b.redrives ⊆ b'.redrives

/-- What is known of a message stays known as the books grow. -/
private theorem Books.Knows.grow (h : b.Knows n m) (hb : b.Grow b') : b'.Knows n m := by
  -- Where dead-letter queues have led to once they lead in longer books.
  obtain ⟨home, hmem, hpath⟩ := h.sent
  have hpath' := Relation.ReflTransGen.mono (fun _ _ he => hb.redrives he) _ _ hpath
  exact ⟨⟨home, hb.sent hmem, hpath'⟩, fun r hr => hb.issued (h.issued r hr)⟩

/-- What covers a queue still covers it as the books grow. -/
private theorem Books.Covers.grow (h : b.Covers n q) (hb : b.Grow b') : b'.Covers n q :=
  ⟨fun m hm => (h.messages m hm).grow hb, fun r hr => hb.redrives (h.redrive r hr)⟩

/-! ## Stores that agree with the books -/

/-- What is stored. -/
def LeaseStore.parcels (s : LeaseStore) : List Parcel :=
  s.queues.entries.flatMap fun e => e.2.messages.map (·.parcel)

/-- What is not stored any more: it was removed, or lost. -/
def Books.gone (b : Books) : List Parcel := b.removed ++ b.lost

/-- What is stored agrees with the books. -/
structure Kept (b : Books) (s : LeaseStore) : Prop where
  names_nodup : s.queues.names.Nodup
  ids : b.sent.map (·.1.id) = coined s.mint.id s.sent
  receipts : b.issued.map (·.1) = coined s.mint.receipt s.delivered
  /-- What is stored and what is gone is what was sent. -/
  balance : (s.parcels ++ b.gone).Perm (b.sent.map (·.1))
  covers : ∀ n q, s.queues.get? n = some q → b.Covers n q
  /-- A dead-letter queue exists as long as a queue has it. -/
  targets : ∀ n q r, s.queues.get? n = some q → q.redrive = some r →
    (s.queues.get? r.deadLetters).isSome

/-- A store that has never been used. -/
structure LeaseStore.Unused (s : LeaseStore) : Prop where
  queues : s.queues = .empty
  sent : s.sent = []
  delivered : s.delivered = []

/-- Books to which nothing is added. -/
private theorem Books.append_empty (b : Books) : b.append .empty = b := by
  simp [append, empty]

/-- The books of a store that was not used yet are empty. -/
theorem kept_unused (h : s.Unused) : Kept .empty s where
  names_nodup := by rw [h.queues]; exact List.nodup_nil
  ids := by rw [h.sent]; rfl
  receipts := by rw [h.delivered]; rfl
  balance := by rw [LeaseStore.parcels, h.queues]; exact .refl _
  covers n q hq := by rw [h.queues] at hq; cases hq
  targets n q r hq := by rw [h.queues] at hq; cases hq

/-- A destination names a queue that is there. -/
theorem LeaseStore.at?_eq_ok : s.at? dest = .ok (n, q) ↔
    queueName dest = .ok n ∧ s.queues.get? n = some q := by
  unfold at?
  cases queueName dest with
  | error e => simp
  | ok name =>
    dsimp only
    -- The name of a destination is that of one queue at the most.
    cases hq : s.queues.get? name with
    | none =>
      simp only [reduceCtorEq, Except.ok.injEq, false_iff, not_and]
      rintro rfl
      simp [hq]
    | some q' =>
      simp only [Except.ok.injEq, Prod.mk.injEq]
      constructor
      · rintro ⟨rfl, rfl⟩
        exact ⟨rfl, hq⟩
      · rintro ⟨rfl, hq'⟩
        exact ⟨rfl, Option.some.inj (hq.symm.trans hq')⟩

namespace Kept

/-- In one queue messages are exchanged for others; what leaves the queue is gone. -/
theorem exchange (h : Kept b s) (hq : s.queues.get? n = some q) (q' : StoreQueue)
    (hq' : b.Covers n q')
    (htarget : ∀ r, q'.redrive = some r → (s.queues.get? r.deadLetters).isSome)
    (removed lost : List Parcel)
    (hperm : (q'.messages.map (·.parcel) ++ (removed ++ lost)).Perm
      (q.messages.map (·.parcel) ++ b.gone)) :
    Kept { b with removed, lost } { s with queues := s.queues.set n q' } := by
  have hgrow : b.Grow { b with removed, lost } := ⟨fun _ => id, fun _ => id, fun _ => id⟩
  refine ⟨Table.nodup_set h.names_nodup n q', h.ids, h.receipts, ?_, fun j w hw => ?_,
    fun j w r hw hr => ?_⟩
  -- Adding what was in the queue on both sides makes it an exchange of old for new.
  · refine List.Perm.trans ?_ h.balance
    have hset := Table.flatMap_set hq q' fun q => q.messages.map (·.parcel)
    refine (List.perm_append_left_iff (q.messages.map (·.parcel))).mp ?_
    generalize hold : q.messages.map (·.parcel) = old at hset hperm ⊢
    generalize hnew : q'.messages.map (·.parcel) = new at hset hperm
    calc old ++ (LeaseStore.parcels { s with queues := s.queues.set n q' } ++ (removed ++ lost))
      _ ~ LeaseStore.parcels { s with queues := s.queues.set n q' } ++ old ++ (removed ++ lost) := by
        rw [← List.append_assoc]
        exact List.perm_append_comm.append_right _
      _ ~ s.parcels ++ new ++ (removed ++ lost) := hset.append_right _
      _ ~ s.parcels ++ (old ++ b.gone) := by
        rw [List.append_assoc]
        exact hperm.append_left _
      _ ~ old ++ (s.parcels ++ b.gone) := List.perm_append_comm_assoc ..
  · rw [Table.get?_set] at hw
    split at hw
    next hj =>
      cases hw
      exact hj ▸ hq'.grow hgrow
    next => exact (h.covers j w hw).grow hgrow
  -- No queue is taken away.
  · have htarget : (s.queues.get? r.deadLetters).isSome := by
      rw [Table.get?_set] at hw
      split at hw
      next =>
        cases hw
        exact htarget r hr
      next => exact h.targets j w r hw hr
    rw [Table.get?_set]
    split
    · rfl
    · exact htarget

/-- A queue may have been given a dead-letter queue before. -/
private theorem redriven (h : Kept b s) (es : List (String × String)) :
    Kept { b with redrives := b.redrives ++ es } s :=
  { h with
    covers := fun j w hw =>
      (h.covers j w hw).grow ⟨fun _ => id, fun _ => id, List.subset_append_left _ _⟩ }

/-- A queue is made. -/
theorem create (h : Kept b s) (name : String) : Kept b (s.create name) := by
  unfold LeaseStore.create
  split
  · exact h
  next hnew =>
    have hnone : s.queues.get? name = none := by simpa [Table.contains] using hnew
    refine ⟨Table.nodup_set h.names_nodup name .empty, h.ids, h.receipts, ?_, fun j w hw => ?_,
      fun j w r hw hr => ?_⟩
    · have hset := Table.flatMap_set_of_none hnone .empty fun q => q.messages.map (·.parcel)
      have hsame : LeaseStore.parcels { s with queues := s.queues.set name .empty } = s.parcels :=
        hset.trans (List.append_nil _)
      rw [hsame]
      exact h.balance
    -- The new queue has neither messages nor a redrive rule.
    · rw [Table.get?_set] at hw
      split at hw
      next =>
        cases hw
        exact ⟨fun m hm => (by cases hm), fun r hr => (by cases hr)⟩
      next => exact h.covers j w hw
    · rw [Table.get?_set] at hw ⊢
      split at hw
      next =>
        cases hw
        cases hr
      next =>
        split
        · rfl
        · exact h.targets j w r hw hr

/-- A queue is there once it has been made. -/
theorem isSome_create (s : LeaseStore) (name : String) :
    ((s.create name).queues.get? name).isSome := by
  unfold LeaseStore.create
  split
  next hold => exact hold
  next => simp [Table.get?_set]

/-- A queue that is there stays when one is made. -/
theorem get?_create_of_isSome (h : (s.queues.get? n).isSome) (name : String) :
    ((s.create name).queues.get? n).isSome := by
  unfold LeaseStore.create
  split
  · exact h
  · exact Table.isSome_get?_set h name .empty

/-- A queue is made with a redrive rule. -/
theorem createRedrive (h : Kept b s) (name : String) (rule : Redrive) :
    Kept { b with redrives := b.redrives ++ [(name, rule.deadLetters)] }
      (s.createRedrive name rule) := by
  have hmade := ((h.create rule.deadLetters).create name).redriven [(name, rule.deadLetters)]
  have htarget := get?_create_of_isSome (isSome_create s rule.deadLetters) name
  unfold LeaseStore.createRedrive
  dsimp only
  -- Both queues are there; what is left is to write the rule down.
  generalize (s.create rule.deadLetters).create name = s' at hmade htarget ⊢
  cases hq : s'.queues.get? name with
  | none =>
    rw [Table.modify_of_none hq]
    exact hmade
  | some q =>
    rw [Table.modify_of_some hq]
    refine hmade.exchange hq { q with redrive := some rule }
      ⟨(hmade.covers name q hq).messages, fun r hr => ?_⟩ (fun r hr => ?_)
      b.removed b.lost (.refl _)
    · cases hr
      exact List.mem_append_right _ List.mem_cons_self
    · cases hr
      exact htarget

/-- A message arrives in the queue to which it is sent. -/
theorem send (h : Kept b s) (hq : s.queues.get? n = some q)
    (hid : m.id = s.mint.id s.sent m.body) (hnew : m.receipt = none) :
    Kept { b with sent := b.sent ++ [(m.parcel, n)] }
      { s with queues := s.queues.set n { q with messages := q.messages ++ [m] }
               sent := m.body :: s.sent } := by
  -- As long as the message is sent and not stored, it counts as lost.
  have hsent : Kept { b with sent := b.sent ++ [(m.parcel, n)], lost := b.lost ++ [m.parcel] }
      { s with sent := m.body :: s.sent } := by
    have hbalance := h.balance
    refine ⟨h.names_nodup, ?_, h.receipts, ?_, fun j w hw => ?_, h.targets⟩
    · rw [List.map_append, h.ids]
      exact congrArg (_ ++ [·]) hid
    · rw [List.map_append, Books.gone, ← List.append_assoc, ← List.append_assoc]
      rw [Books.gone, ← List.append_assoc] at hbalance
      exact hbalance.append_right _
    · exact (h.covers j w hw).grow ⟨List.subset_append_left _ _, fun _ => id, fun _ => id⟩
  have hcovers := hsent.covers n q hq
  refine hsent.exchange hq { q with messages := q.messages ++ [m] } ⟨fun i hi => ?_, hcovers.redrive⟩
    (fun r => h.targets n q r hq) b.removed b.lost ?_
  · rcases List.mem_append.mp hi with hi | hi
    · exact hcovers.messages i hi
    · rw [List.mem_singleton.mp hi]
      refine ⟨⟨n, List.mem_append_right _ List.mem_cons_self, .refl⟩, fun r hr => ?_⟩
      rw [hnew] at hr
      cases hr
  · rw [List.map_append, List.append_assoc, List.map_singleton, Books.gone, ← List.append_assoc
      b.removed]
    exact List.perm_append_comm.append_left _

/-- What had left a queue arrives in its dead-letter queue, and is not lost. -/
private theorem bury {ms : List Stored} {rule : Option Redrive} {now : Nat}
    (h : Kept { b with lost := b.lost ++ ms.map (·.parcel) } s)
    (hnone : rule = none → ms = [])
    (htarget : ∀ r, rule = some r → (s.queues.get? r.deadLetters).isSome)
    (hknows : ∀ r, rule = some r → ∀ m ∈ ms, b.Knows r.deadLetters (m.buried now)) :
    Kept b (s.bury now rule ms) := by
  cases rule with
  | none =>
    -- Without a rule nothing is moved.
    rw [hnone rfl, List.map_nil, List.append_nil] at h
    exact h
  | some r =>
    obtain ⟨q, hq⟩ := Option.isSome_iff_exists.mp (htarget r rfl)
    have hcovers := h.covers r.deadLetters q hq
    rw [LeaseStore.bury, Table.modify_of_some hq]
    -- The queue of dead letters gets the messages, and the books stay as they are.
    refine h.exchange hq { q with messages := q.messages ++ ms.map (·.buried now) }
      ⟨fun m hm => ?_, hcovers.redrive⟩ (fun r' => h.targets _ q r' hq)
      b.removed b.lost ?_
    · rcases List.mem_append.mp hm with hm | hm
      · exact hcovers.messages m hm
      · obtain ⟨m', hm', rfl⟩ := List.mem_map.mp hm
        exact (hknows r rfl m' hm').grow ⟨fun _ => id, fun _ => id, fun _ => id⟩
    · rw [List.map_append, List.map_map, List.append_assoc, Books.gone, ← List.append_assoc b.removed]
      exact List.perm_append_comm.append_left _

/-- What a pass keeps is in its queue: what it delivers stays there, under receipts that are given
    out for it, and what was delivered too often has left and is nowhere yet. -/
private theorem keep (h : Kept b s) (hq : s.queues.get? n = some q) (now : Nat) (hide : Nat → Nat)
    (limit : Nat) :
    let p := pass s.mint q.redrive now hide limit s.delivered q.messages
    Kept { b with issued := b.issued ++ (p.taken.map (·.delivery)).map fun d => (d.receipt, d.id)
                  lost := b.lost ++ p.exhausted.map (·.parcel) } (s.keep n q p) := by
  intro p
  -- The receipts are given out first.
  have hissued : Kept
      { b with issued := b.issued ++ (p.taken.map (·.delivery)).map fun d => (d.receipt, d.id) }
      { s with delivered := (p.taken.map Stored.body).reverse ++ s.delivered } := by
    refine ⟨h.names_nodup, h.ids, ?_, h.balance, fun j w hw => ?_, h.targets⟩
    · rw [List.map_append, h.receipts, List.map_map, List.map_map]
      exact (coined_pass ..).symm
    · exact (h.covers j w hw).grow ⟨fun _ => id, List.subset_append_left _ _, fun _ => id⟩
  have hcovers := hissued.covers n q hq
  refine hissued.exchange hq { q with messages := p.kept } ⟨fun m hm => ?_, hcovers.redrive⟩
    (fun r => h.targets n q r hq) b.removed _ ?_
  -- What stays is as it was, or has a receipt that has just been given out for it.
  · rcases mem_kept_pass hm with hm | hm
    · exact hcovers.messages m hm
    · obtain ⟨m₀, hm₀, -, -, heq⟩ := mem_taken_pass hm
      have hparcel : m.parcel = m₀.parcel := by rw [heq, Stored.parcel_deliver]
      refine ⟨hparcel ▸ (hcovers.messages m₀ hm₀).sent, fun r hr => List.mem_append_right _ ?_⟩
      have hreceipt : m.delivery.receipt = r := by rw [Stored.delivery, hr]; rfl
      exact List.mem_map.mpr ⟨m.delivery, List.mem_map_of_mem hm, congrArg (·, some m.id) hreceipt⟩
  · have hgone : b.removed ++ (b.lost ++ p.exhausted.map (·.parcel)) ~
        p.exhausted.map (·.parcel) ++ b.gone := by
      rw [Books.gone, ← List.append_assoc b.removed]
      exact List.perm_append_comm
    refine (hgone.append_left _).trans ?_
    rw [← List.append_assoc, ← List.map_append]
    exact (perm_pass ..).append_right _

/-- One pass over a queue: what was delivered too often goes on to the dead-letter queue. -/
theorem passed (h : Kept b s) (hq : s.queues.get? n = some q) (now : Nat) (hide : Nat → Nat)
    (limit : Nat) :
    let p := pass s.mint q.redrive now hide limit s.delivered q.messages
    Kept { b with issued := b.issued ++ (p.taken.map (·.delivery)).map fun d => (d.receipt, d.id) }
      ((s.keep n q p).bury now q.redrive p.exhausted) := by
  intro p
  have hkeep := h.keep hq now hide limit
  refine hkeep.bury (fun hnone => ?_) (fun r hr => ?_) fun r hr m hm => ?_
  -- Without a redrive rule nothing is delivered too often.
  · refine List.eq_nil_iff_forall_not_mem.mpr fun m hm => ?_
    have hexhausted := (mem_exhausted_pass hm).2.2
    rw [hnone] at hexhausted
    cases hexhausted
  · refine hkeep.targets n { q with messages := p.kept } r ?_ hr
    exact (Table.get?_set ..).trans (if_pos rfl)
  · have hcovers := h.covers n q hq
    obtain ⟨home, hsent, hpath⟩ := (hcovers.messages m (mem_exhausted_pass hm).1).sent
    exact ⟨⟨home, hsent, hpath.tail (hcovers.redrive r hr)⟩, fun r' hr' => by cases hr'⟩

/-- A receive call adds to the books what it has given out and what it has lost. -/
private theorem append_books_take (b : Books) (s : LeaseStore) (now : Nat) (r : ReceiveRequest) :
    b.append (s.step now (.take r)).books =
      { b with issued := b.issued ++ (s.step now (.take r)).issued
               lost := b.lost ++ (s.step now (.take r)).lost } := by
  simp only [Books.append, StoreStep.books, StoreStep.sent, StoreStep.removed, StoreStep.redrives,
    LeaseStore.step, List.append_nil]

/-- A receive call makes its pass, is refused, or breaks off. -/
private theorem take (h : Kept b s) (now : Nat) (r : ReceiveRequest) :
    Kept (b.append (s.step now (.take r)).books) (s.take now r).2 := by
  have hanswer : (s.step now (.take r)).answer = .taken (s.take now r).1 := rfl
  rw [append_books_take]
  cases hat : s.at? r.destination with
  | error e =>
    have hnone := LeaseStore.breaksOff_step_of_error hat now
    rw [LeaseStore.take_of_error hat] at hanswer ⊢
    rw [StoreStep.issued_eq hnone, StoreStep.lost_eq_nil hnone, hanswer]
    simpa only [StoreAnswer.deliveries, List.map_nil, List.append_nil] using h
  | ok e =>
    obtain ⟨n, q⟩ := e
    have hq := (LeaseStore.at?_eq_ok.mp hat).2
    cases hbreaks : s.breaksOff now r q with
    -- It has left its queue as its first delivery did.
    | true =>
      rw [LeaseStore.take_of_breaksOff hat hbreaks] at hanswer ⊢
      rw [StoreStep.issued, StoreStep.stamped, StoreStep.lost, hanswer,
        LeaseStore.broken?_step hat hbreaks]
      exact h.keep hq now id 1
    | false =>
      have hnone := (LeaseStore.breaksOff_step hat now).trans hbreaks
      rw [LeaseStore.take_of_not_breaksOff hat hbreaks] at hanswer ⊢
      rw [StoreStep.issued_eq hnone, StoreStep.lost_eq_nil hnone, hanswer, List.append_nil]
      exact h.passed hq now (fun _ => s.hiddenUntil now r) r.limit

/-- The message that was delivered last under a receipt is removed. -/
theorem delete (h : Kept b s) (now : Nat) (dest receipt : String) :
    Kept (b.append (s.step now (.delete dest receipt)).books) (s.delete dest receipt).2 := by
  simp only [LeaseStore.step, LeaseStore.answer, StoreStep.books, StoreStep.sent, StoreStep.issued,
    StoreStep.stamped, StoreStep.removed, StoreStep.lost, StoreStep.broken?, StoreStep.redrives,
    LeaseStore.delete, Prod.map]
  cases hat : s.at? dest with
  | error e => exact (Books.append_empty b).symm ▸ h
  | ok e =>
    obtain ⟨n, q⟩ := e
    by_cases hany : q.messages.any (·.receipt = some receipt)
    -- The first message with the receipt goes from the queue to what was removed.
    · have hq := (LeaseStore.at?_eq_ok.mp hat).2
      have hcovers := h.covers n q hq
      obtain ⟨m, hm⟩ := Option.isSome_iff_exists.mp (List.find?_isSome.mpr (List.any_eq_true.mp hany))
      have hgone : b.removed ++ [m.parcel] ++ b.lost ~ m.parcel :: b.gone :=
        (List.perm_append_singleton ..).append_right b.lost
      have hperm : (q.messages.eraseP (·.receipt = some receipt)).map (·.parcel) ++
          (b.removed ++ [m.parcel] ++ b.lost) ~ q.messages.map (·.parcel) ++ b.gone :=
        (hgone.append_left _).trans
          (List.perm_middle.trans (((List.perm_cons_eraseP hm).map _).append_right _))
      have hremoved := h.exchange hq
        { q with messages := q.messages.eraseP (·.receipt = some receipt) }
        ⟨fun i hi => hcovers.messages i (List.mem_of_mem_eraseP hi), hcovers.redrive⟩
        (fun r => h.targets n q r hq) (b.removed ++ [m.parcel]) b.lost hperm
      simpa only [Books.append, StoreAnswer.deliveries, Option.elim_none, List.map_nil,
        List.append_nil, hat, hm, if_pos hany, Option.map_some, Option.toList_some] using hremoved
    · simp only [if_neg hany]
      exact (Books.append_empty b).symm ▸ h

/-- A message that is sent is in the books from then on. -/
private theorem sendTo (h : Kept b s) (now : Nat) (dest body : String) (delay : Nat) :
    Kept (b.append (s.step now (.send dest body delay)).books) (s.send now dest body delay).2 := by
  simp only [LeaseStore.step, LeaseStore.answer, StoreStep.books, StoreStep.sent, StoreStep.issued,
    StoreStep.stamped, StoreStep.removed, StoreStep.lost, StoreStep.broken?, StoreStep.redrives,
    LeaseStore.send, Prod.map]
  cases hat : s.at? dest with
  -- A call that is refused changes neither the books nor the store.
  | error e => exact (Books.append_empty b).symm ▸ h
  | ok e =>
    obtain ⟨n, q⟩ := e
    obtain ⟨hname, hq⟩ := LeaseStore.at?_eq_ok.mp hat
    simp only [Books.append, StoreAnswer.deliveries, Option.elim_none, List.map_nil,
      List.append_nil, hname]
    exact h.send (m := ⟨_, body, s.wallClock + now, now + 1000 * delay, 0, none⟩) hq rfl rfl

/-- Looking up a queue, which may make it, keeps the books. -/
private theorem resolve (h : Kept b s) (name : String) : Kept b (s.resolve name).2 := by
  unfold LeaseStore.resolve
  split
  · split <;> exact h
  · split
    · exact h
    · split
      · exact h.create name
      · exact h

/-- Every call keeps the books in agreement. -/
theorem step (h : Kept b s) (now : Nat) (c : StoreCall) :
    Kept (b.append (s.step now c).books) (s.answer now c).2 := by
  cases c with
  | create name => exact (Books.append_empty b).symm ▸ h.create name
  | createRedrive name rule =>
    -- Of the books only the rules grow, by the one that is set.
    have hmade := h.createRedrive name rule
    simpa only [Books.append, LeaseStore.step, LeaseStore.answer, StoreStep.books, StoreStep.sent,
      StoreStep.issued, StoreStep.stamped, StoreStep.removed, StoreStep.lost, StoreStep.broken?,
      StoreStep.redrives, StoreAnswer.deliveries, Option.elim_none, List.map_nil,
      List.append_nil] using hmade
  | send dest body delay => exact h.sendTo now dest body delay
  | take r => exact h.take now r
  | delete dest receipt => exact h.delete now dest receipt
  | resolve name => exact (Books.append_empty b).symm ▸ h.resolve name

end Kept

namespace LeaseStore

/-- Making a queue changes nothing else. -/
private theorem create_eq (s : LeaseStore) (name : String) :
    s.create name = { s with queues := (s.create name).queues } := by
  unfold create
  split <;> rfl

/-- What is buried changes nothing but the queues. -/
theorem bury_eq (s : LeaseStore) (now : Nat) (rule : Option Redrive) (ms : List Stored) :
    s.bury now rule ms = { s with queues := (s.bury now rule ms).queues } := by
  unfold bury
  split <;> rfl

/-- A call changes the queues of a store and what it remembers of the bodies.  How the store is set
    up it leaves as it is. -/
private theorem answer_eq (s : LeaseStore) (now : Nat) (c : StoreCall) :
    (s.answer now c).2 = { s with
      queues := (s.answer now c).2.queues
      sent := (s.answer now c).2.sent
      delivered := (s.answer now c).2.delivered } := by
  cases c with
  | create name =>
    simp only [answer]
    rw [create_eq]
  -- Each call changes the queues and the counts alone.
  | createRedrive name rule =>
    simp only [answer, createRedrive]
    rw [create_eq (s.create _), create_eq s]
  | send dest body delay =>
    simp only [answer, send, Prod.map]
    split <;> rfl
  | take r =>
    simp only [answer, take, Prod.map]
    split
    · rfl
    · split
      · rfl
      · simp only [id]
        rw [bury_eq]
        rfl
  | delete dest receipt =>
    simp only [answer, delete, Prod.map]
    split
    · rfl
    · split <;> rfl
  | resolve name =>
    simp only [answer, resolve, Prod.map]
    split
    · split <;> rfl
    · split
      · rfl
      · split
        · simp only [id]
          rw [create_eq]
        · rfl

/-- No call changes where names come from. -/
theorem mint_answer (s : LeaseStore) (now : Nat) (c : StoreCall) :
    (s.answer now c).2.mint = s.mint := by
  rw [answer_eq]

/-- No run changes until when and for how long messages can be hidden. -/
theorem clock_run (s : LeaseStore) (xs : List (Nat × StoreCall)) :
    (s.run xs).lastInstant = s.lastInstant ∧ (s.run xs).visibility = s.visibility := by
  induction xs generalizing s with
  | nil => exact ⟨rfl, rfl⟩
  | cons x xs ih =>
    have hlast : (s.next x).lastInstant = s.lastInstant := by rw [next, answer_eq]
    have hvisibility : (s.next x).visibility = s.visibility := by rw [next, answer_eq]
    exact (ih (s.next x)).imp (·.trans hlast) (·.trans hvisibility)

end LeaseStore

/-- The books agree with what is stored after any calls to a store that was not used before. -/
theorem kept_run (h : s.Unused) (xs : List (Nat × StoreCall)) :
    Kept (books (s.steps xs)) (s.run xs) :=
  foldl_keeps (P := fun hist s => Kept (books hist) s) (kept_unused h) xs fun hist t x _ ht => by
    rw [books_append]
    exact ht.step x.1 x.2

/-! ## Where a message is -/

/-- A message is in a queue. -/
def LeaseStore.Stores (s : LeaseStore) (n : String) (m : Stored) : Prop :=
  ∃ q, s.queues.get? n = some q ∧ m ∈ q.messages

/-- One queue holds a parcel, once, and no other queue holds a message with its identifier. -/
structure LeaseStore.Holds (s : LeaseStore) (n : String) (p : Parcel) : Prop where
  here : ∃ q, s.queues.get? n = some q ∧ (∃ m ∈ q.messages, m.parcel = p) ∧
    (q.messages.map (·.id)).count p.id = 1
  elsewhere : ∀ j q, s.queues.get? j = some q → j ≠ n → ∀ m ∈ q.messages, m.id ≠ p.id

/-- What a queue holds is stored. -/
theorem LeaseStore.Holds.mem_parcels {n : String} {p : Parcel} (h : s.Holds n p)
    (hnames : s.queues.names.Nodup) : p ∈ s.parcels := by
  obtain ⟨q, hq, ⟨m, hm, rfl⟩, -⟩ := h.here
  exact List.mem_flatMap.mpr
    ⟨(n, q), (Table.mem_entries_iff hnames).mpr hq, List.mem_map_of_mem hm⟩

/-- What is removed was stored under a receipt. -/
theorem LeaseStore.exists_of_mem_removed {now : Nat} {c : StoreCall} {p : Parcel}
    (hp : p ∈ (s.step now c).removed) : ∃ dest r n m,
      c = .delete dest r ∧ s.Stores n m ∧ m.parcel = p ∧ m.receipt = some r := by
  unfold StoreStep.removed at hp
  split at hp
  next dest r _ hcall _ =>
    split at hp
    next n q hat =>
      -- The message that is removed is the one that was found by its receipt.
      obtain ⟨m, hm, rfl⟩ := Option.map_eq_some_iff.mp (Option.mem_toList.mp hp)
      have hreceipt : m.receipt = some r := by simpa using List.find?_some hm
      exact ⟨dest, r, n, m, hcall,
        ⟨q, (LeaseStore.at?_eq_ok.mp hat).2, List.mem_of_find?_eq_some hm⟩, rfl, hreceipt⟩
    next => cases hp
  next => cases hp

namespace Kept

variable {p : Parcel} {home : String}

/-- What was sent has different identifiers. -/
theorem ids_nodup (h : Kept b s) (hf : s.mint.Fresh) : (b.sent.map (·.1.id)).Nodup :=
  h.ids ▸ hf.ids s.sent

/-- A receipt was given out for one message. -/
theorem issued_inj (h : Kept b s) (hf : s.mint.Fresh) {r : String} {i j : Option String}
    (hi : (r, i) ∈ b.issued) (hj : (r, j) ∈ b.issued) : i = j := by
  have hnodup : (b.issued.map (·.1)).Nodup := h.receipts ▸ hf.receipts s.delivered
  exact congrArg Prod.snd (List.eq_of_key_eq Prod.fst hnodup hi hj rfl)

/-- A deletion removes a message for which the receipt was given out. -/
theorem issued_of_removed (h : Kept b s) {now : Nat} {receipt : String}
    (hp : p ∈ (s.step now (.delete dest receipt)).removed) : (receipt, some p.id) ∈ b.issued := by
  obtain ⟨dest', r, n, m, hcall, ⟨q, hq, hm⟩, rfl, hreceipt⟩ :=
    LeaseStore.exists_of_mem_removed hp
  cases hcall
  exact ((h.covers n q hq).messages m hm).issued receipt hreceipt

/-- What is stored and what is gone has different identifiers. -/
private theorem nodup_ids (h : Kept b s) (hf : s.mint.Fresh) :
    ((s.parcels ++ b.gone).map (·.id)).Nodup := by
  have hsent : ((b.sent.map (·.1)).map (·.id)).Nodup := by
    rw [List.map_map]
    exact h.ids_nodup hf
  exact (h.balance.map (·.id)).nodup_iff.mpr hsent

/-- What is stored has different identifiers, in each queue and from queue to queue. -/
theorem nodup_stored (h : Kept b s) (hf : s.mint.Fresh) :
    (s.queues.entries.flatMap fun e => e.2.messages.map (·.id)).Nodup := by
  have hall := h.nodup_ids hf
  rw [List.map_append, LeaseStore.parcels, List.map_flatMap] at hall
  simp only [List.map_map] at hall
  exact hall.of_append_left

/-- What stands in one queue has different identifiers. -/
theorem nodup_messages (h : Kept b s) (hf : s.mint.Fresh) (hq : s.queues.get? n = some q) :
    (q.messages.map (·.id)).Nodup :=
  (List.nodup_flatMap.mp (h.nodup_stored hf)).1 _ ((Table.mem_entries_iff h.names_nodup).mpr hq)

/-- What is stored is held by its queue. -/
private theorem holds_of_mem (h : Kept b s) (hf : s.mint.Fresh) (hq : s.queues.get? n = some q)
    (hm : m ∈ q.messages) : s.Holds n m.parcel := by
  have hpairs := (List.nodup_flatMap.mp (h.nodup_stored hf)).2
  have hmem : (n, q) ∈ s.queues.entries := (Table.mem_entries_iff h.names_nodup).mpr hq
  -- It is once in its own queue, and no other queue shares an identifier with that one.
  refine ⟨⟨q, hq, ⟨m, hm, rfl⟩, ?_⟩, fun j w hw hne i hi heq => ?_⟩
  · exact List.count_eq_one_of_mem (h.nodup_messages hf hq) (List.mem_map_of_mem hm)
  · have hmem' : (j, w) ∈ s.queues.entries := (Table.mem_entries_iff h.names_nodup).mpr hw
    have hsymm : Std.Symm (Function.onFun List.Disjoint fun e : String × StoreQueue =>
        e.2.messages.map (·.id)) := ⟨fun _ _ h _ ha hb => h hb ha⟩
    have hdisjoint := hpairs.forall hmem hmem' fun he => hne (congrArg Prod.fst he).symm
    exact hdisjoint (List.mem_map_of_mem hm) (List.mem_map.mpr ⟨i, hi, heq⟩)

/-- Two stored messages with one identifier are one message in one queue. -/
theorem eq_of_id (h : Kept b s) (hf : s.mint.Fresh) {j : String} {m' : Stored}
    (hm : s.Stores n m) (hm' : s.Stores j m') (hid : m.id = m'.id) : n = j ∧ m = m' := by
  obtain ⟨q, hq, hm⟩ := hm
  obtain ⟨w, hw, hm'⟩ := hm'
  -- The queue of the one holds no message of the other.
  have hqueue : n = j := by
    by_contra hne
    exact (h.holds_of_mem hf hq hm).elsewhere j w hw (Ne.symm hne) m' hm' hid.symm
  subst hqueue
  obtain rfl : q = w := Option.some.inj (hq.symm.trans hw)
  exact ⟨rfl, List.eq_of_key_eq Stored.id (h.nodup_messages hf hq) hm hm' hid⟩

/-- What is stored was sent. -/
theorem mem_sent (h : Kept b s) (hm : s.Stores n m) : m.parcel ∈ b.sent.map (·.1) := by
  obtain ⟨q, hq, hm⟩ := hm
  obtain ⟨home, hsent, -⟩ := ((h.covers n q hq).messages m hm).sent
  exact List.mem_map_of_mem hsent

/-- What is gone has another identifier than what is stored. -/
theorem id_ne_of_gone (h : Kept b s) (hf : s.mint.Fresh) (hm : s.Stores n m)
    (hp : p ∈ b.gone) : m.id ≠ p.id := by
  obtain ⟨q, hq, hm⟩ := hm
  have hstored : m.parcel ∈ s.parcels := List.mem_flatMap.mpr
    ⟨(n, q), (Table.mem_entries_iff h.names_nodup).mpr hq, List.mem_map_of_mem hm⟩
  -- The identifiers of what is stored and of what is gone make up those of all that was sent.
  have hnodup := h.nodup_ids hf
  rw [List.map_append, List.nodup_append] at hnodup
  exact hnodup.2.2 _ (List.mem_map_of_mem hstored) _ (List.mem_map_of_mem hp)

/-- What is gone is not stored. -/
theorem not_mem_gone (h : Kept b s) (hf : s.mint.Fresh) (hm : s.Stores n m) :
    m.parcel ∉ b.gone := fun hgone => h.id_ne_of_gone hf hm hgone rfl

/-- What was removed is not lost. -/
theorem not_mem_removed_of_lost (h : Kept b s) (hf : s.mint.Fresh) (hp : p ∈ b.lost) :
    p ∉ b.removed := by
  have hnodup := (h.nodup_ids hf).of_map
  rw [Books.gone, List.nodup_append, List.nodup_append] at hnodup
  exact fun hremoved => hnodup.2.1.2.2 p hremoved p hp rfl

/-- What is gone was sent. -/
theorem mem_sent_of_gone (h : Kept b s) (hp : p ∈ b.gone) : p ∈ b.sent.map (·.1) :=
  h.balance.mem_iff.mp (List.mem_append_right _ hp)

/-- What was sent is gone, or is held by the queue to which it was sent or by one to which
    dead-letter queues lead from there. -/
theorem holds_or_gone (h : Kept b s) (hf : s.mint.Fresh) (hp : (p, home) ∈ b.sent) :
    p ∈ b.gone ∨ ∃ n, Relation.ReflTransGen b.Redrives home n ∧ s.Holds n p := by
  have hmem : p ∈ s.parcels ++ b.gone := h.balance.mem_iff.mpr (List.mem_map_of_mem hp)
  rcases List.mem_append.mp hmem with hstored | hgone
  · obtain ⟨⟨n, q⟩, he, hm⟩ := List.mem_flatMap.mp hstored
    obtain ⟨m, hi, rfl⟩ := List.mem_map.mp hm
    have hq := (Table.mem_entries_iff h.names_nodup).mp he
    -- It was sent once, so the queue to which it was sent is this one.
    obtain ⟨home', hsent, hpath⟩ := ((h.covers n q hq).messages m hi).sent
    have hhome : home = home' := congrArg Prod.snd
      (List.eq_of_key_eq (·.1.id) (h.ids_nodup hf) hp hsent rfl)
    exact .inr ⟨n, hhome ▸ hpath, h.holds_of_mem hf hq hi⟩
  · exact .inl hgone

end Kept

end Intake
