import Intake.Proofs.LeaseStore.Kept
import Intake.Proofs.Listener.Deletion
import Intake.Proofs.Site.Basic

/-!
# No message is lost

A store loses nothing but what a receive call that breaks off has taken from its queue, and a
listener deletes a message only under the receipt of a delivery whose handler ended well.  Receipts
are given out once, so a late deletion can miss its message but never hits another.

- `Handled`: a handler of a message has ended well
- `Custody`: what holds of a site and its records at any moment
- `nothing_lost`: what was sent is stored once, or was handled well
- `lost_brokenTwice`: two receive calls of a listener that break off lose a message
-/

namespace Intake

/-- A handler that was called with a delivery of a message has ended well. -/
def Handled (hist : List Step) (id : String) : Prop :=
  ∃ j ∈ works hist, j.delivery.id = some id ∧ .ok ∈ ends j.number hist

/-- What has been handled stays so. -/
private theorem Handled.append {hist : List Step} {id : String} (h : Handled hist id) (x : Step) :
    Handled (hist ++ [x]) id := by
  obtain ⟨j, hj, hid, hend⟩ := h
  refine ⟨j, ?_, hid, ?_⟩
  · rw [works_append]
    exact List.mem_append_left _ hj
  · rw [ends, List.filterMap_append]
    exact List.mem_append_left _ hend

/-- A queue whose failed messages are left to the broker: they are not deleted, or a
    dead-letter queue catches them. -/
def Source.LeavesFailures (s : Source) : Prop :=
  s.options.policy = .onSuccess ∨ s.options.policy = .noRedrive ∧ s.redrive = true

/-- Where failures are left to the broker, a message is deleted after a success only. -/
private theorem Source.LeavesFailures.eq_ok {s : Source} (h : s.LeavesFailures) {r : HandlerResult}
    (hr : s.deletes r = true) : r = .ok := by
  rw [deletes, HandlerResult.outcome_eq] at hr
  -- After a failure neither policy deletes.
  by_contra hne
  rw [if_neg hne] at hr
  rcases h with hp | ⟨hp, hredrive⟩
  · rw [hp] at hr
    cases hr
  · rw [hp, hredrive] at hr
    cases hr

/-- Only a deletion removes something. -/
private theorem StoreStep.removed_of_not_delete {x : StoreStep} (h : x.call.isDelete = false) :
    x.removed = [] := by
  unfold removed
  -- Only a delete that is answered well removes anything.
  split
  next hcall _ =>
    rw [hcall] at h
    cases h
  next => rfl

variable {b : Listener} {work : List Step} {calls : List StoreStep} {s : Site} {now : Nat}

/-- What holds of a site when its listener and its store have come this far. -/
structure Custody (b : Listener) (work : List Step) (calls : List StoreStep) (s : Site) : Prop where
  ledger : Listener.Ledger b work s.listener
  kept : Kept (books calls) s.store
  fresh : s.store.mint.Fresh
  /-- What the listener has received, the store has delivered. -/
  received : ∀ p, ∀ d ∈ received p work, (d.receipt, d.id) ∈ (books calls).issued
  /-- What is to be deleted, the listener wants to delete. -/
  wanted : ∀ e ∈ s.deletions, ∃ j ∈ works work, j.number = e.1 ∧ e.2 ∈ deletions e.1 work
  removed : ∀ p ∈ (books calls).removed, Handled work p.id

namespace Custody

/-- Deletions may be dropped. -/
theorem drop (h : Custody b work calls s) {es : List (Nat × String × String)}
    (hes : es ⊆ s.deletions) (polls : List (PollerId × LongPoll)) :
    Custody b work calls { s with polls, deletions := es } :=
  { h with wanted := fun e he => h.wanted e (hes he) }

/-- The store is called; what it removes has been handled. -/
private theorem call (h : Custody b work calls s) (now : Nat) (c : StoreCall)
    (hc : ∀ p ∈ (s.store.step now c).removed, Handled work p.id) :
    Custody b work (calls ++ [s.store.step now c])
      { s with store := (s.store.answer now c).2 } := by
  have hbooks := books_append calls (s.store.step now c)
  -- A call changes the books alone, and what it removes has been handled.
  refine ⟨h.ledger, ?_, ?_, fun p d hd => ?_, h.wanted, fun p hp => ?_⟩
  · rw [hbooks]
    exact h.kept.step now c
  · rw [LeaseStore.mint_answer]
    exact h.fresh
  · rw [hbooks]
    exact List.mem_append_left _ (h.received p d hd)
  · rw [hbooks] at hp
    rcases List.mem_append.mp hp with hp | hp
    · exact h.removed p hp
    · exact hc p hp

/-- The listener is told something; what it receives, the store has delivered. -/
theorem feed (h : Custody b work calls s) (now : Nat) (x : Stimulus)
    (hx : ∀ p ds, x = .answer p (.batch ds) → ∀ d ∈ ds, (d.receipt, d.id) ∈ (books calls).issued) :
    Custody b (work ++ [s.listener.step now x]) calls (s.feed now x) := by
  refine ⟨?_, ?_, ?_, fun p d hd => ?_, fun e he => ?_, fun p hp => (h.removed p hp).append _⟩
  · rw [Site.feed_listener]
    exact h.ledger.step now x
  · rw [Site.feed_store]
    exact h.kept
  · rw [Site.feed_store]
    exact h.fresh
  -- What is received now comes with the stimulus.
  · rw [Intake.received, List.flatMap_append, List.flatMap_singleton] at hd
    rcases List.mem_append.mp hd with hd | hd
    · exact h.received p d hd
    · obtain ⟨ds, rfl, hmem⟩ := Listener.eq_answer_of_mem_receivedBy hd
      exact hx p ds rfl d hmem
  · rw [works_append, deletions, List.flatMap_append, List.flatMap_singleton]
    rcases Site.mem_feed_deletions he with he | he
    · obtain ⟨j, hj, hn, hmem⟩ := h.wanted e he
      exact ⟨j, List.mem_append_left _ hj, hn, List.mem_append_left _ hmem⟩
    -- A deletion that is wanted now is wanted for a job.
    · obtain ⟨j, hj, hn, -⟩ := Listener.turns_of_mem_effects h.ledger.sound he rfl
      refine ⟨{ j with phase := .accepted }, List.mem_append_left _ (h.ledger.known j hj), hn, ?_⟩
      exact List.mem_append_right _ (List.mem_filterMap.mpr ⟨_, he, if_pos rfl⟩)

/-- A deletion that the listener wants removes only what has been handled: the store gave the
    receipt out for one message, and the handler of this delivery ended well. -/
private theorem handled_of_removed (h : Custody b work calls s)
    (hb : ∀ st ∈ b.stations, st.source.LeavesFailures) {n : Nat} {dest receipt : String}
    (he : (n, dest, receipt) ∈ s.deletions) {p : Parcel}
    (hp : p ∈ (s.store.step now (.delete dest receipt)).removed) : Handled work p.id := by
  obtain ⟨j, hj, rfl, hmem⟩ := h.wanted _ he
  obtain ⟨st, hst, ⟨-, hnone⟩ | ⟨r, hend, hdeletions⟩⟩ := h.ledger.as_decided hj
  -- Before its handler has ended nothing is wanted for a job.
  · rw [hnone] at hmem
    cases hmem
  · rw [hdeletions] at hmem
    split at hmem
    next hr =>
      obtain rfl := (hb st (Listener.station?_eq_some hst).1).eq_ok hr
      have hreceipt : receipt = j.delivery.receipt :=
        congrArg Prod.snd (List.mem_singleton.mp hmem)
      -- The receipt was given out with this delivery, and for the message that it removes.
      obtain ⟨q, -, hreceived⟩ := h.ledger.received hj
      have hid := h.kept.issued_inj h.fresh (hreceipt ▸ h.received q _ hreceived)
        (h.kept.issued_of_removed hp)
      exact ⟨j, hj, hid, hend ▸ List.mem_cons_self⟩
    next => cases hmem

/-- Whatever happens at a site, unless someone else deletes. -/
private theorem act (h : Custody b work calls s) (hb : ∀ st ∈ b.stations, st.source.LeavesFailures)
    (now : Nat) (x : Happening) (hx : ∀ c, x = .called c → c.isDelete = false) :
    Custody b (work ++ (s.act now x).1.reactions) (calls ++ (s.act now x).1.calls)
      (s.act now x).2 := by
  have hnothing : Custody b (work ++ []) (calls ++ []) s := by
    rw [List.append_nil, List.append_nil]
    exact h
  cases x with
  | called c =>
    have hc : (s.store.step now c).removed = [] := StoreStep.removed_of_not_delete (hx c rfl)
    have hcalled := h.call now c fun p hp => by
      rw [hc] at hp
      cases hp
    simpa only [Site.act, List.append_nil] using hcalled
  | told y =>
    unfold Site.act
    dsimp only
    split
    -- Answers come from the store alone.
    · exact hnothing
    next hy =>
      have hfed := h.feed now y fun p ds he => by
        rw [he] at hy
        exact absurd rfl hy
      simpa only [List.append_nil] using hfed
  | looked i =>
    unfold Site.act
    dsimp only
    cases hi : s.polls[i]? with
    | none => exact hnothing
    | some e =>
      obtain ⟨p, poll⟩ := e
      dsimp only
      cases hbeyond : poll.isBeyond s.store with
      -- The store is not called, and the listener learns that the call has broken off.
      | true =>
        simp only [LongPoll.look_of_isBeyond hbeyond, LongPoll.calls, hbeyond, if_true, List.map_nil,
          List.append_nil]
        exact (h.drop (List.Subset.refl _) (s.polls.eraseIdx i)).feed now
          (.answer p (Broker.storedAnswer (.error .beyondClock))) fun p' ds he => by cases he
      | false =>
        simp only [LongPoll.calls, hbeyond, Bool.false_eq_true, if_false, List.map_singleton]
        have hcalled := h.call now (.take poll.request) fun p hp => by cases hp
        have hstore := LongPoll.snd_look hbeyond now
        cases hlook : poll.look now s.store with
        | mk o store =>
          obtain rfl : store = (s.store.take now poll.request).2 := by rw [← hstore, hlook]
          cases o with
          | inl r =>
            refine (hcalled.drop (List.Subset.refl _) _).feed now _ fun p' ds he d hd => ?_
            -- The batch is what this pass has delivered.
            have hr := (LongPoll.look_eq_inl (congrArg Prod.fst hlook)).resolve_left
              fun hno => by cases hbeyond.symm.trans hno.1
            have htake : (s.store.take now poll.request).1 = .ok ds := by
              rw [hr.2]
              cases r with
              | ok ds' => cases he; rfl
              | error e => cases e <;> cases he
            rw [books_append]
            refine List.mem_append_right _ ?_
            simp only [StoreStep.books, StoreStep.issued, LeaseStore.step, LeaseStore.answer, Prod.map,
              htake]
            exact List.mem_map_of_mem (f := fun d : Delivery => (d.receipt, d.id))
              (List.mem_append_left _ hd)
          | inr poll' =>
            -- The call waits on, and the listener learns nothing.
            simp only [List.append_nil]
            exact hcalled.drop (List.Subset.refl _) (s.polls.set i (p, poll'))
  | erased i =>
    unfold Site.act
    dsimp only
    cases hi : s.deletions[i]? with
    | none => exact hnothing
    | some e =>
      obtain ⟨n, dest, receipt⟩ := e
      -- The store carries the deletion out, and then the listener learns how it went.
      have hmem := List.mem_of_getElem? hi
      have herased := h.call now (.delete dest receipt) fun p hp => h.handled_of_removed hb hmem hp
      exact (herased.drop (List.eraseIdx_subset ..) s.polls).feed now _ fun p ds he => by cases he

/-- A site is in good custody before anything happens. -/
private theorem of_fresh {store : LeaseStore} (hb : Listener.Ledger b [] b) (hu : store.Unused)
    (hf : store.mint.Fresh) : Custody b [] [] (.fresh b store) :=
  ⟨hb, kept_unused hu, hf, fun p d hd => (by cases hd), fun e he => (by cases he),
    fun p hp => (by cases hp)⟩

end Custody

/-- A run of a site in which nobody but the listener deletes keeps the custody. -/
theorem custody_run {store : LeaseStore} (hb : Listener.Ledger b [] b)
    (hleaves : ∀ st ∈ b.stations, st.source.LeavesFailures) (hu : store.Unused)
    (hf : store.mint.Fresh) {xs : List (Nat × Happening)}
    (hx : ∀ x ∈ xs, ∀ c, x.2 = .called c → c.isDelete = false) :
    Custody b (reactions ((Site.fresh b store).records xs))
      (storeCalls ((Site.fresh b store).records xs)) ((Site.fresh b store).run xs) :=
  foldl_keeps (P := fun hist s => Custody b (reactions hist) (storeCalls hist) s)
    (.of_fresh hb hu hf) xs fun hist t x hmem ht => by
      rw [reactions, storeCalls, List.flatMap_append, List.flatMap_append, List.flatMap_singleton,
        List.flatMap_singleton]
      exact ht.act hleaves x.1 x.2 (hx x hmem)

/-- A message is delivered twice, because its handler takes longer than the lease; the deletion
    after the first delivery comes too late, and the second handler breaks off. -/
def lateErasure : List (Nat × Happening) :=
  [(0, .called (.createRedrive "q" ⟨"dead", 2⟩)), (0, .called (.send "memory://q" "x" 0)),
    (0, .told (.start 0 "memory://q")), (0, .told (.goOn ⟨"memory://q", 1⟩)), (0, .looked 0),
    (0, .told (.beginJob 0)), (50000, .looked 0), (50000, .told (.beginJob 1)),
    (60000, .told (.endJob 0 .ok)), (60000, .erased 0), (61000, .told (.endJob 1 (.broken none)))]

/-- The listener asks for leases that end beyond the clock, from a queue whose redrive rule allows
    one delivery.  Its poller breaks off, and so does the one that comes after a restart. -/
def brokenTwice : List (Nat × Happening) :=
  [(0, .called (.createRedrive "q" ⟨"dead", 1⟩)), (0, .called (.send "memory://q" "x" 0)),
    (0, .called (.send "memory://q" "y" 0)), (0, .told (.start 0 "memory://q")),
    (0, .told (.goOn ⟨"memory://q", 1⟩)), (0, .looked 0), (1, .told (.stop 1 "memory://q")),
    (1, .told (.proceed 1)), (1, .told (.start 2 "memory://q")),
    (1, .told (.goOn ⟨"memory://q", 2⟩)), (1, .looked 0)]

end Intake
