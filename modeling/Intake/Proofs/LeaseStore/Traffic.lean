import Intake.LeaseStore.LongPoll
import Intake.Proofs.LeaseStore.Books

/-!
# Receivers that wait at a store

A receive call looks for messages again and again until it returns, and between two looks
anything can happen at the store.  When a call looks is left open, so that every way in which
several receivers and other callers can follow each other is among the runs.

- `Traffic.act`: what a visit to the store leads to
- `Traffic.exists_calls`: the store of a run goes through a sequence of calls
- `Traffic.returned_eq`: what receive calls return is what their passes deliver
-/

namespace Intake

/-! ## Receive calls -/

namespace LongPoll

variable {now : Nat} {p p' : LongPoll} {s : LeaseStore}

/-- The calls to the store that a look makes: one pass, unless the receive call breaks off before. -/
def calls (p : LongPoll) (s : LeaseStore) : List StoreCall :=
  if p.isBeyond s then [] else [.take p.request]

/-- A receive call that breaks off before it looks does nothing to the store. -/
theorem look_of_isBeyond (h : p.isBeyond s = true) (now : Nat) :
    p.look now s = (.inl (.error .beyondClock), s) := by
  rw [look, if_pos h]

/-- A receive call that looks makes one pass. -/
theorem snd_look (h : p.isBeyond s = false) (now : Nat) :
    (p.look now s).2 = (s.take now p.request).2 := by
  rw [look, if_neg (by simp [h])]
  -- Whatever is made of the answer, the store is that which the pass leaves.
  split
  next h => rw [h]
  next h =>
    rw [h]
    split <;> rfl
  next h => rw [h]

/-- A receive call that looks does to the store what its calls do. -/
theorem look_store (now : Nat) (p : LongPoll) (s : LeaseStore) :
    (p.look now s).2 = s.run ((p.calls s).map (now, ·)) := by
  unfold calls
  cases h : p.isBeyond s with
  | true => rw [look_of_isBeyond h]; rfl
  | false => exact snd_look h now

/-- What a receive call returns is what its last pass delivered, unless it broke off before it. -/
theorem look_eq_inl {r : Except ReceiveFailure (List Delivery)} (h : (p.look now s).1 = .inl r) :
    (p.isBeyond s = true ∧ r = .error .beyondClock) ∨
      (p.isBeyond s = false ∧ (s.take now p.request).1 = r) := by
  cases hbeyond : p.isBeyond s with
  | true =>
    rw [look_of_isBeyond hbeyond] at h
    exact .inl ⟨rfl, (Sum.inl.inj h).symm⟩
  | false =>
    refine .inr ⟨rfl, ?_⟩
    rw [look, if_neg (by simp [hbeyond])] at h
    split at h
    next ht => rw [ht, Sum.inl.inj h]
    -- Nothing was found: it returns if its time is over, and waits on otherwise.
    next ht =>
      rw [ht]
      split at h
      · exact Sum.inl.inj h
      · cases h
    next ht => rw [ht, Sum.inl.inj h]

/-- A receive call that waits on has looked and found nothing. -/
theorem look_eq_inr (h : (p.look now s).1 = .inr p') :
    p.isBeyond s = false ∧ (s.take now p.request).1 = .ok [] := by
  cases hbeyond : p.isBeyond s with
  | true =>
    rw [look_of_isBeyond hbeyond] at h
    cases h
  | false =>
    refine ⟨rfl, ?_⟩
    -- It waits on only after an empty answer.
    rw [look, if_neg (by simp [hbeyond])] at h
    split at h
    next => cases h
    next ht => rw [ht]
    next => cases h

end LongPoll

/-! ## Visits -/

/-- A store, with the receive calls that have begun and not returned. -/
structure Traffic where
  store : LeaseStore
  polls : List LongPoll

/-- One thing that happens at a store. -/
inductive Visit
  /-- A call is answered at once. -/
  | called (c : StoreCall)
  /-- A receive call begins. -/
  | began (r : ReceiveRequest)
  /-- The receive call at a place in the list looks for messages. -/
  | looked (i : Nat)
  /-- All receive calls are told that a message was sent. -/
  | woken

/-- What happened at a visit. -/
structure VisitRecord where
  /-- The calls that the store answered. -/
  calls : List StoreStep
  /-- What a receive call returned with. -/
  returned : List Delivery

namespace Traffic

/-- A store at which nobody waits. -/
def idle (s : LeaseStore) : Traffic := ⟨s, []⟩

/-- What a visit leads to, and what happened. -/
def act (t : Traffic) (now : Nat) : Visit → VisitRecord × Traffic
  | .called c =>
    let x := t.store.step now c
    (⟨[x], x.answer.deliveries⟩, { t with store := x.after })
  | .began r => (⟨[], []⟩, { t with polls := t.polls ++ [LongPoll.start now t.store r] })
  | .looked i =>
    match t.polls[i]? with
    | none => (⟨[], []⟩, t)
    | some p =>
      let xs := (p.calls t.store).map (t.store.step now)
      match p.look now t.store with
      | (.inl r, store) =>
        (⟨xs, (StoreAnswer.taken r).deliveries⟩, ⟨store, t.polls.eraseIdx i⟩)
      | (.inr p, store) => (⟨xs, []⟩, ⟨store, t.polls.eraseIdx i ++ [p]⟩)
  | .woken => (⟨[], []⟩, { t with polls := t.polls.map (·.wake now) })

/-- The store and its receivers after a visit at an instant. -/
def next (t : Traffic) (x : Nat × Visit) : Traffic := (t.act x.1 x.2).2

/-- The store and its receivers after a sequence of visits. -/
def run (t : Traffic) (xs : List (Nat × Visit)) : Traffic := xs.foldl next t

/-- The records of a sequence of visits. -/
def records (t : Traffic) (xs : List (Nat × Visit)) : List VisitRecord :=
  noted next (fun t x => (t.act x.1 x.2).1) t xs

/-- The calls that the store answers in a sequence of visits. -/
def calls (t : Traffic) (xs : List (Nat × Visit)) : List StoreStep :=
  (t.records xs).flatMap (·.calls)

/-- At a visit the store answers one call, of which a receive call returns what it delivers, or
    none. -/
private theorem act_cases (t : Traffic) (now : Nat) (v : Visit) :
    (∃ c, (t.act now v).1.calls = [t.store.step now c] ∧
      (t.act now v).1.returned = (t.store.step now c).answer.deliveries ∧
      (t.act now v).2.store = (t.store.answer now c).2) ∨
    ((t.act now v).1 = ⟨[], []⟩ ∧ (t.act now v).2.store = t.store) := by
  cases v with
  | called c => exact .inl ⟨c, rfl, rfl, rfl⟩
  | began r | woken => exact .inr ⟨rfl, rfl⟩
  | looked i =>
    unfold act
    dsimp only
    cases hi : t.polls[i]? with
    | none => exact .inr ⟨rfl, rfl⟩
    | some p =>
      -- A poll at its place looks, and that is a receive, unless its queue is beyond reach.
      dsimp only
      cases hbeyond : p.isBeyond t.store with
      | true =>
        right
        rw [LongPoll.look_of_isBeyond hbeyond, LongPoll.calls, hbeyond]
        exact ⟨rfl, rfl⟩
      | false =>
        have hcalls : p.calls t.store = [.take p.request] := by simp [LongPoll.calls, hbeyond]
        refine .inl ⟨.take p.request, ?_⟩
        have hstore := LongPoll.snd_look hbeyond now
        rw [hcalls]
        cases hlook : p.look now t.store with
        | mk result store =>
          rw [hlook] at hstore
          have htake : (t.store.take now p.request).1 = result.elim id fun _ => .ok [] := by
            cases result with
            -- The poll returns what the receive answered, or waits on after an empty answer.
            | inl r =>
              rcases LongPoll.look_eq_inl (congrArg Prod.fst hlook) with ⟨hno, -⟩ | ⟨-, hr⟩
              · cases hbeyond.symm.trans hno
              · exact hr
            | inr p' => exact (LongPoll.look_eq_inr (congrArg Prod.fst hlook)).2
          have hreturned := congrArg (fun r => (StoreAnswer.taken r).deliveries) htake.symm
          cases result <;> exact ⟨rfl, hreturned, hstore⟩

/-- The store of a run goes through a sequence of calls, each at the instant of a visit. -/
theorem exists_calls (t : Traffic) (xs : List (Nat × Visit)) :
    ∃ ys, (t.run xs).store = t.store.run ys ∧ t.calls xs = t.store.steps ys ∧
      (ys.map (·.1)).Sublist (xs.map (·.1)) := by
  induction xs generalizing t with
  | nil => exact ⟨[], rfl, rfl, .slnil⟩
  | cons x xs ih =>
    obtain ⟨ys, hrun, hcalls, hsub⟩ := ih (t.next x)
    -- The visit is one call more, or none at all.
    rcases act_cases t x.1 x.2 with ⟨c, hcall, -, hstore⟩ | ⟨hnone, hstore⟩
    · have hnext : (t.next x).store = t.store.next (x.1, c) := hstore
      rw [hnext] at hrun hcalls
      refine ⟨(x.1, c) :: ys, hrun, ?_, hsub.cons_cons x.1⟩
      exact congr (congrArg List.append hcall) hcalls
    · have hnext : (t.next x).store = t.store := hstore
      rw [hnext] at hrun hcalls
      refine ⟨ys, hrun, ?_, hsub.cons x.1⟩
      exact congr (congrArg List.append (congrArg VisitRecord.calls hnone)) hcalls

/-- What receive calls return is what their passes deliver. -/
theorem returned_eq (t : Traffic) (xs : List (Nat × Visit)) :
    ∀ x ∈ t.records xs, x.returned = x.calls.flatMap (·.answer.deliveries) := by
  refine foldl_keeps (P := fun (hist : List VisitRecord) _ => ∀ x ∈ hist,
    x.returned = x.calls.flatMap (·.answer.deliveries)) (fun x hx => by cases hx) xs ?_
  intro hist t y _ hhist x hx
  rcases List.mem_append.mp hx with hx | hx
  · exact hhist x hx
  · rw [List.mem_singleton.mp hx]
    -- A visit returns what its call to the store delivers, or makes no call.
    rcases act_cases t y.1 y.2 with ⟨c, hcall, hreturned, -⟩ | ⟨hnone, -⟩
    · rw [hcall, hreturned, List.flatMap_singleton]
    · rw [hnone, List.flatMap_nil]

end Traffic

end Intake
