import Intake.Proofs.LeaseStore.Contents

/-!
# Leases

A message that is delivered is leased to its receiver.  Until the lease ends nobody else
receives the message, at no queue, and it is not moved to a dead-letter queue.

- `UnderLease`: what the state of a stored message tells of its leases
- `Exclusive`: leases do not overlap
- `Traffic.exclusive_run`: it is so after all that can happen at a new store
-/

namespace Intake

variable {s : LeaseStore} {now : Nat} {c : StoreCall} {n : String} {m : Stored}

/-! ## Messages under lease -/

/-- The leases that some calls give. -/
def leases (hist : List StoreStep) : List Lease := hist.flatMap (·.leases)

/-- The latest lease of a message. -/
def latestLease (i : Option String) (ls : List Lease) : Option Lease :=
  ls.reverse.find? (·.id = i)

/-- The messages of a queue of which the latest lease was given at this queue and has not
    ended. -/
def LeaseStore.leased (s : LeaseStore) (ls : List Lease) (now : Nat) (name : String) : Nat :=
  match s.queues.get? name with
  | some q => q.messages.countP fun m =>
      (latestLease (some m.id) ls).any fun l => l.queue = name && now < l.ends
  | none => 0

section Latest

variable {i : Option String} {ls new : List Lease} {l : Lease}

/-- The latest lease of a message is one of its leases. -/
private theorem mem_of_latestLease (h : latestLease i ls = some l) : l ∈ ls ∧ l.id = i := by
  obtain ⟨hmem, hid⟩ := List.mem_of_find?_key h
  exact ⟨List.mem_reverse.mp hmem, hid⟩

/-- Leases of other messages do not count. -/
private theorem latestLease_append_of_ne (h : ∀ l ∈ new, l.id ≠ i) :
    latestLease i (ls ++ new) = latestLease i ls := by
  have hnone : new.reverse.find? (·.id = i) = none := by simpa using h
  rw [latestLease, List.reverse_append, List.find?_append, hnone, Option.none_or, latestLease]

/-- A new lease is later than the old ones. -/
private theorem exists_latestLease_append (ls : List Lease) (h : l ∈ new) (hid : l.id = i) :
    ∃ l' ∈ new, l'.id = i ∧ latestLease i (ls ++ new) = some l' := by
  -- The latest lease is looked up from the end, so the new ones are asked first.
  cases hfind : latestLease i new with
  | none =>
    have hall := List.find?_eq_none.mp hfind l (List.mem_reverse.mpr h)
    exact absurd hid (by simpa using hall)
  | some l' =>
    obtain ⟨hmem, hid'⟩ := mem_of_latestLease hfind
    refine ⟨l', hmem, hid', ?_⟩
    rw [latestLease, List.reverse_append, List.find?_append]
    exact congrArg (Option.or · _) hfind

end Latest

/-- What is known at an instant of the leases of a message in a queue. -/
structure UnderLease (ls : List Lease) (now : Nat) (n : String) (m : Stored) : Prop where
  /-- The latest lease of a message that is in flight was given here, and hides it to its end. -/
  latest : m.isInFlight now → ∃ l, latestLease (some m.id) ls = some l ∧ l.queue = n ∧
    l.ends = m.visibleAt
  /-- The leases of a message have ended, or hide it. -/
  ended : ∀ l ∈ ls, l.id = some m.id → l.ends ≤ now ∨ (m.receipt.isSome ∧ l.ends ≤ m.visibleAt)

namespace UnderLease

variable {ls new : List Lease} {l : Lease}

/-- The leases of a message that can be received have ended. -/
private theorem ends_le (h : UnderLease ls now n m) (hv : m.isVisible now = true) (hl : l ∈ ls)
    (hid : l.id = some m.id) : l.ends ≤ now := by
  rcases h.ended l hl hid with hended | ⟨-, hle⟩
  · exact hended
  · have hvisible : m.visibleAt ≤ now := by simpa [Stored.isVisible] using hv
    exact Nat.le_trans hle hvisible

/-- A message is in flight as long as its latest lease. -/
private theorem isInFlight_eq (h : UnderLease ls now n m) :
    m.isInFlight now =
      (latestLease (some m.id) ls).any fun l => decide (l.queue = n) && decide (now < l.ends) := by
  cases hflight : m.isInFlight now with
  | true =>
    obtain ⟨l, hl, hqueue, hends⟩ := h.latest hflight
    have hlater : now < m.visibleAt := of_decide_eq_true (Bool.and_eq_true_iff.mp hflight).2
    simp [hl, hqueue, hends, hlater]
  | false =>
    -- All its leases have ended, also the latest.
    rw [eq_comm, Option.any_eq_false]
    intro l hl
    obtain ⟨hmem, hid⟩ := mem_of_latestLease hl
    have hended : l.ends ≤ now := by
      rcases h.ended l hmem hid with hended | ⟨hsome, hle⟩
      · exact hended
      · have hvisible : m.visibleAt ≤ now := by simpa [Stored.isInFlight, hsome] using hflight
        exact Nat.le_trans hle hvisible
    simp [hended]

/-- What is known of the leases of a message stays known. -/
private theorem later {now' : Nat} (h : UnderLease ls now n m) (hle : now ≤ now') :
    UnderLease ls now' n m := by
  refine ⟨fun hflight => h.latest ?_,
    fun l hl hid => (h.ended l hl hid).imp_left fun hended => Nat.le_trans hended hle⟩
  -- What is in flight later is so now.
  simp only [Stored.isInFlight, Bool.and_eq_true, decide_eq_true_eq] at hflight ⊢
  exact ⟨hflight.1, Nat.lt_of_le_of_lt hle hflight.2⟩

/-- Leases of other messages may be given. -/
private theorem append (h : UnderLease ls now n m) (hnew : ∀ l ∈ new, l.id ≠ some m.id) :
    UnderLease (ls ++ new) now n m := by
  -- The new leases are of other messages, so they neither come last nor count.
  refine ⟨fun hr => ?_, fun l hl hid => ?_⟩
  · rw [latestLease_append_of_ne hnew]
    exact h.latest hr
  · rcases List.mem_append.mp hl with hl | hl
    · exact h.ended l hl hid
    · exact absurd hid (hnew l hl)

/-- A message that is not in flight and of which all leases have ended. -/
private theorem of_ended (hr : m.isInFlight now = false)
    (h : ∀ l ∈ ls, l.id = some m.id → l.ends ≤ now) : UnderLease ls now n m :=
  ⟨fun hflight => by simp [hr] at hflight, fun l hl hid => .inl (h l hl hid)⟩

end UnderLease

/-- What the state of a store tells of the leases that were given. -/
structure Leasing (hist : List StoreStep) (s : LeaseStore) : Prop where
  kept : Kept (books hist) s
  fresh : s.mint.Fresh
  /-- Only what was sent is leased. -/
  known : ∀ l ∈ leases hist, ∃ e ∈ (books hist).sent, l.id = some e.1.id
  under : ∀ now, (∀ x ∈ hist, x.now ≤ now) → ∀ n m, s.Stores n m →
    UnderLease (leases hist) now n m

namespace Leasing

variable {hist : List StoreStep} {l : Lease}

/-- The leases of one more call come last. -/
private theorem leases_append (hist : List StoreStep) (x : StoreStep) :
    leases (hist ++ [x]) = leases hist ++ x.leases := by
  simp [leases]

/-- What is delivered had no lease any more. -/
private theorem ends_le_of_leased (h : Leasing hist s) (hnow : ∀ x ∈ hist, x.now ≤ now) {l' : Lease}
    (hl : l ∈ leases hist) (hl' : l' ∈ (s.step now c).leases) (hid : l.id = l'.id) :
    l.ends ≤ now := by
  obtain ⟨-, m, hm, hvisible, hid', -⟩ := LeaseStore.stores_of_mem_leases hl'
  exact (h.under now hnow _ m hm).ends_le hvisible hl (hid.trans hid')

/-- What is moved had no lease any more. -/
private theorem ends_le_of_moved (h : Leasing hist s) (hnow : ∀ x ∈ hist, x.now ≤ now)
    (hl : l ∈ leases hist) (hm : m ∈ (s.step now c).moved) (hid : l.id = some m.id) :
    l.ends ≤ now := by
  obtain ⟨hvisible, n, hstores⟩ := LeaseStore.stores_of_mem_moved hm
  exact (h.under now hnow n m hstores).ends_le hvisible hl hid

/-- No leases are known of a store that was never used. -/
private theorem of_unused (h : s.Unused) (hf : s.mint.Fresh) : Leasing [] s where
  kept := kept_unused h
  fresh := hf
  known l hl := by cases hl
  under now _ n m hm := by
    obtain ⟨q, hq, -⟩ := hm
    rw [h.queues] at hq
    cases hq

/-- What a call leases is hidden to the end of the lease, and its leases before have ended. -/
private theorem under_of_leased {b : Books} (h : Leasing hist s) (hnow : ∀ x ∈ hist, x.now ≤ now)
    (hkept : Kept b (s.answer now c).2) (hm : (s.answer now c).2.Stores n m)
    (hl : l ∈ (s.step now c).leases) (hid : l.id = some m.id) :
    UnderLease (leases hist ++ (s.step now c).leases) now n m := by
  have hfresh : (s.answer now c).2.mint.Fresh := (s.mint_answer now c).symm ▸ h.fresh
  -- Every lease of the message that this call gives is for the message as it is now.
  have hnew : ∀ l ∈ (s.step now c).leases, l.id = some m.id →
      m.receipt.isSome ∧ l.queue = n ∧ l.ends = m.visibleAt := by
    intro l hl hid
    obtain ⟨-, m₀, -, -, hid₀, receipt, hstores⟩ := LeaseStore.stores_of_mem_leases hl
    have hsame : (m₀.deliver receipt l.ends).id = m.id :=
      Option.some.inj (hid₀.symm.trans hid)
    obtain ⟨hqueue, rfl⟩ := hkept.eq_of_id hfresh hstores hm hsame
    exact ⟨rfl, hqueue, rfl⟩
  refine ⟨fun _ => ?_, fun l' hl' hid' => ?_⟩
  · obtain ⟨l', hl', hid', hlatest⟩ := exists_latestLease_append (leases hist) hl hid
    exact ⟨l', hlatest, (hnew l' hl' hid').2⟩
  · rcases List.mem_append.mp hl' with hold | hnew'
    · exact .inl (h.ends_le_of_leased hnow hold hl (hid'.trans hid.symm))
    · obtain ⟨hsome, -, hends⟩ := hnew l' hnew' hid'
      exact .inr ⟨hsome, Nat.le_of_eq hends⟩

/-- What a call does not lease is as it was, or it is new here and free of leases, or the call has
    broken off with it and it can be received. -/
private theorem under_of_not_leased {now' : Nat} (h : Leasing hist s)
    (hnow : ∀ x ∈ hist, x.now ≤ now) (hle : now ≤ now') (hm : (s.answer now c).2.Stores n m)
    (hnone : ∀ l ∈ (s.step now c).leases, l.id ≠ some m.id) :
    UnderLease (leases hist ++ (s.step now c).leases) now' n m := by
  refine UnderLease.append ?_ hnone
  have hnew : m.receipt = none → m.isInFlight now' = false := fun hr => by
    simp [Stored.isInFlight, hr]
  rcases LeaseStore.stores_answer hm with
    hold | ⟨hreceipt, -, he⟩ | ⟨m₀, hm₀, rfl⟩ | hleased | ⟨-, m₀, r, hm₀, hvisible, rfl⟩
  · exact h.under now' (fun x hx => Nat.le_trans (hnow x hx) hle) n m hold
  -- Nothing that was sent before had its identifier.
  · refine .of_ended (hnew hreceipt) fun l hl hid => ?_
    obtain ⟨e', he', hid'⟩ := h.known l hl
    have hsame : e'.1.id = m.id := Option.some.inj (hid'.symm.trans hid)
    exact absurd hsame (LeaseStore.id_ne_of_sent h.kept h.fresh he' he)
  · exact .of_ended (hnew rfl) fun l hl hid => Nat.le_trans (h.ends_le_of_moved hnow hl hm₀ hid) hle
  · obtain ⟨l, hl, hid⟩ := hleased
    exact absurd hid (hnone l hl)
  · have hfree : (m₀.deliver r m₀.visibleAt).isInFlight now = false := by
      have hle : m₀.visibleAt ≤ now := of_decide_eq_true hvisible
      simp [Stored.isInFlight, Stored.deliver, Nat.not_lt.mpr hle]
    have hended := UnderLease.of_ended (n := n) hfree fun l hl hid =>
      (h.under now hnow n m₀ hm₀).ends_le hvisible hl hid
    exact hended.later hle

/-- Every call keeps it so. -/
theorem step (h : Leasing hist s) (hnow : ∀ x ∈ hist, x.now ≤ now) (c : StoreCall) :
    Leasing (hist ++ [s.step now c]) (s.answer now c).2 := by
  have hkept : Kept (books (hist ++ [s.step now c])) (s.answer now c).2 := by
    rw [books_append]
    exact h.kept.step now c
  have hfresh : (s.answer now c).2.mint.Fresh := (s.mint_answer now c).symm ▸ h.fresh
  have hsent : (books (hist ++ [s.step now c])).sent =
      (books hist).sent ++ (s.step now c).sent := by
    rw [books_append]
    rfl
  -- A lease is of a message that was sent, and each message is under its latest lease.
  refine ⟨hkept, hfresh, fun l hl => ?_, fun now' hnow' n m hm => ?_⟩
  · rw [leases_append] at hl
    rw [hsent]
    rcases List.mem_append.mp hl with hl | hl
    · obtain ⟨e, he, hid⟩ := h.known l hl
      exact ⟨e, List.mem_append_left _ he, hid⟩
    · obtain ⟨-, m, hm, -, hid, -⟩ := LeaseStore.stores_of_mem_leases hl
      obtain ⟨e, he, heq⟩ := List.mem_map.mp (h.kept.mem_sent hm)
      exact ⟨e, List.mem_append_left _ he, by rw [hid, heq]; rfl⟩
  · have hle : now ≤ now' := hnow' _ (List.mem_append_right _ List.mem_cons_self)
    rw [leases_append]
    -- The call leases the message, or leaves its lease as it was.
    by_cases hleased : ∃ l ∈ (s.step now c).leases, l.id = some m.id
    · obtain ⟨l, hl, hid⟩ := hleased
      exact (h.under_of_leased hnow hkept hm hl hid).later hle
    · have hnone : ∀ l ∈ (s.step now c).leases, l.id ≠ some m.id :=
        fun l hl hid => hleased ⟨l, hl, hid⟩
      exact h.under_of_not_leased hnow hle hm hnone

end Leasing

/-! ## Runs -/

section Run

variable {xs : List (Nat × StoreCall)} {before later : List StoreStep} {x : StoreStep}

/-- What was done before a call was done at earlier instants. -/
private theorem now_le_of_mem_steps {zs : List (Nat × StoreCall)} {z : Nat × StoreCall}
    (hsorted : ((xs ++ z :: zs).map (·.1)).Pairwise (· ≤ ·)) :
    ∀ y ∈ s.steps xs, y.now ≤ z.1 := by
  intro y hy
  have hmem : y.now ∈ xs.map (·.1) := s.map_now_steps xs ▸ List.mem_map_of_mem hy
  rw [List.map_append, List.pairwise_append] at hsorted
  exact hsorted.2.2 _ hmem _ List.mem_cons_self

/-- The leases are known after any calls to a new store in their order. -/
theorem leasing_run (h : s.Unused) (hf : s.mint.Fresh)
    (hsorted : (xs.map (·.1)).Pairwise (· ≤ ·)) : Leasing (s.steps xs) (s.run xs) := by
  induction xs using List.reverseRecOn with
  | nil => exact .of_unused h hf
  | append_singleton xs x ih =>
    -- The hypothesis orders the whole run: the earlier instants among themselves and below the
    -- last.
    have hnow : ∀ y ∈ s.steps xs, y.now ≤ x.1 := now_le_of_mem_steps hsorted
    rw [List.map_append, List.pairwise_append] at hsorted
    have hstep := (ih hsorted.1).step hnow x.2
    rw [LeaseStore.steps, LeaseStore.run, noted_append, List.foldl_append]
    exact hstep

/-- Every step of a run starts from a store of which the leases are known. -/
private theorem exists_leasing_of_cut (h : s.Unused) (hf : s.mint.Fresh)
    (hsorted : (xs.map (·.1)).Pairwise (· ≤ ·)) (hcut : s.steps xs = before ++ x :: later) :
    ∃ t now c, x = LeaseStore.step t now c ∧ Leasing before t ∧ ∀ y ∈ before, y.now ≤ now := by
  obtain ⟨ys, y, zs, rfl, rfl, rfl, -⟩ := exists_cut_of_noted hcut
  have hnow : ∀ z ∈ s.steps ys, z.now ≤ y.1 := now_le_of_mem_steps hsorted
  rw [List.map_append, List.pairwise_append] at hsorted
  exact ⟨s.run ys, y.1, y.2, rfl, leasing_run h hf hsorted.1, hnow⟩

end Run

/-- A message has one lease at a time. -/
structure Exclusive (hist : List StoreStep) (s : LeaseStore) : Prop where
  /-- What is delivered had no lease any more. -/
  delivered : ∀ before x later, hist = before ++ x :: later →
    ∀ l ∈ leases before, ∀ l' ∈ x.leases, l.id = l'.id → l.ends ≤ l'.since
  /-- What is moved to a dead-letter queue had no lease any more. -/
  moved : ∀ before x later, hist = before ++ x :: later →
    ∀ l ∈ leases before, ∀ m ∈ x.moved, l.id = some m.id → l.ends ≤ x.now
  /-- One call delivers a message once, and moves none that it delivers. -/
  once : ∀ x ∈ hist, (x.leases.map (·.id) ++ x.moved.map fun m => some m.id).Nodup
  /-- What is in flight is what has a lease from its queue. -/
  inFlight : ∀ now, (∀ x ∈ hist, x.now ≤ now) → ∀ name,
    s.inFlight now name = s.leased (leases hist) now name

/-- Leases are exclusive among any calls to a new store in their order. -/
private theorem exclusive_steps (h : s.Unused) (hf : s.mint.Fresh) {xs : List (Nat × StoreCall)}
    (hsorted : (xs.map (·.1)).Pairwise (· ≤ ·)) : Exclusive (s.steps xs) (s.run xs) := by
  -- The fields are two about the steps where a lease is cut, one about each step, and one about the
  -- state in the end.
  refine ⟨fun before x later hcut l hl l' hl' hid => ?_,
    fun before x later hcut l hl m hm hid => ?_, fun x hx => ?_, fun now hnow name => ?_⟩
  · obtain ⟨t, now, c, rfl, ht, hnow⟩ := exists_leasing_of_cut h hf hsorted hcut
    rw [(LeaseStore.stores_of_mem_leases hl').1]
    exact ht.ends_le_of_leased hnow hl hl' hid
  · obtain ⟨t, now, c, rfl, ht, hnow⟩ := exists_leasing_of_cut h hf hsorted hcut
    exact ht.ends_le_of_moved hnow hl hm hid
  · obtain ⟨before, later, hcut⟩ := List.append_of_mem hx
    obtain ⟨t, now, c, rfl, ht, -⟩ := exists_leasing_of_cut h hf hsorted hcut
    exact LeaseStore.nodup_leases ht.kept ht.fresh now c
  · have hleasing := leasing_run h hf hsorted
    unfold LeaseStore.inFlight LeaseStore.leased
    cases hq : (s.run xs).queues.get? name with
    | none => rfl
    | some q =>
      refine List.countP_congr fun m hm => ?_
      rw [(hleasing.under now hnow name m ⟨q, hq, hm⟩).isInFlight_eq]

/-- Whatever receivers and other callers do at a new store, a message that a receive call has
    returned is neither returned again, at any queue, nor moved to a dead-letter queue before its
    lease has ended; and the messages in flight at a queue are those of which the latest delivery
    was made there under a lease that has not ended. -/
theorem Traffic.exclusive_run (h : s.Unused) (hf : s.mint.Fresh) (xs : List (Nat × Visit))
    (hsorted : (xs.map (·.1)).Pairwise (· ≤ ·)) :
    Exclusive ((idle s).calls xs) ((idle s).run xs).store ∧
      ∀ x ∈ (idle s).records xs, x.returned = x.calls.flatMap (·.answer.deliveries) := by
  obtain ⟨ys, hrun, hcalls, hsub⟩ := (idle s).exists_calls xs
  refine ⟨?_, (idle s).returned_eq xs⟩
  rw [hrun, hcalls]
  exact exclusive_steps h hf (hsorted.sublist hsub)

/-- Two receivers wait for one message, each for a lease of a hundred milliseconds.  The second
    looks again when the lease of the first is over; then the message goes to the dead-letter
    queue, where a third receives it. -/
def rivals : List (Nat × Visit) :=
  [(0, .called (.createRedrive "q" ⟨"dead", 1⟩)),
    (0, .began ⟨"memory://q", 1, some 100, some 1000⟩),
    (1, .began ⟨"memory://q", 1, some 100, some 1000⟩), (1, .looked 0), (1, .looked 1),
    (5, .called (.send "memory://q" "x" 0)), (5, .looked 0), (6, .looked 0), (105, .looked 0),
    (106, .called (.take ⟨"memory://dead", 1, none, none⟩))]

/-- The second lease begins when the first one is over, and is the one that the message is in flight
    by in the end. -/
theorem Traffic.exclusive_run_rivals :
    let t := (idle .empty).run rivals
    leases ((idle .empty).calls rivals) =
        [⟨some "m1", "q", 5, 105⟩, ⟨some "m1", "dead", 106, 30106⟩] ∧
      t.store.inFlight 106 "dead" = 1 ∧ Exclusive ((idle .empty).calls rivals) t.store :=
  ⟨by decide, by decide,
    (exclusive_run ⟨rfl, rfl, rfl⟩ Mint.fresh_serial rivals (by decide)).1⟩

end Intake
