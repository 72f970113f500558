import Intake.Proofs.LeaseStore.Errand
import Intake.Proofs.LeaseStore.Scan

/-!
# How long a receive call takes

A receive call that finds nothing waits on.  It looks again when a message is sent, and otherwise
at short intervals, so nothing that it can receive escapes it for long, and it returns with empty
hands only when its time is over.

- `LongPoll.look_inl`, `LongPoll.look_inr`: when a call returns, and when it looks next
- `Counter.Fared`: what a step makes of a waiting call
- `Vigil`: a call waits in a prompt run; `Vigil.until_over`: it does not wait beyond an instant
- `Answered`: when a call returns, and with what
- `Counter.answered_run`: every call of a prompt run that fits the clock is answered so
- `Counter.not_answered_endless`: a call that does not fit it breaks off
-/

namespace Intake

/-! ## One look -/

namespace LongPoll

variable {s : LeaseStore} {now : Nat} {p p' : LongPoll} {n : String} {q : StoreQueue}

/-- A call that does not break off returns a batch, and if that is empty its time is over. -/
theorem look_inl {r : Except ReceiveFailure (List Delivery)}
    (hat : s.at? p.request.destination = .ok (n, q)) (hbeyond : p.isBeyond s = false)
    (hb : s.breaksOff now p.request q = false) (h : (p.look now s).1 = .inl r) :
    ∃ ds, r = .ok ds ∧ (ds = [] → p.deadline ≤ now) := by
  have htake := congrArg Prod.fst (LeaseStore.take_of_not_breaksOff hat hb)
  rw [look, if_neg (by simp [hbeyond])] at h
  split at h
  -- A look that breaks off or finds something returns; an empty one only at the deadline.
  next he => rw [he] at htake; cases htake
  next =>
    split at h
    next hover => exact ⟨[], (Sum.inl.inj h).symm, fun _ => hover⟩
    next => cases h
  next ds _ hne _ => exact ⟨ds, (Sum.inl.inj h).symm, fun hnil => (hne hnil).elim⟩

/-- A call that waits on has time left, and looks again before it is over. -/
theorem look_inr (h : (p.look now s).1 = .inr p') :
    now < p.deadline ∧ p' = { p with lookAt := now + min (p.deadline - now) tick } := by
  rw [look, if_neg (by simp [(look_eq_inr h).1])] at h
  -- Of the three outcomes of a look only the empty one before the deadline waits on.
  split at h
  next => cases h
  next =>
    split at h
    next => cases h
    next hover => exact ⟨Nat.lt_of_not_le hover, (Sum.inr.inj h).symm⟩
  next => cases h

end LongPoll

namespace LeaseStore

variable {s : LeaseStore} {now : Nat} {r : ReceiveRequest} {n : String} {q : StoreQueue}
  {m : Stored}

/-- A receive call that asks for messages does not come back with none if there is one that can be
    delivered. -/
private theorem take_ne_nil (hat : s.at? r.destination = .ok (n, q)) (hm : m ∈ q.messages)
    (hdue : m.isDeliverable q.redrive now) (hlimit : 0 < r.limit) :
    (s.take now r).1 ≠ .ok [] := by
  intro hnil
  -- Whoever breaks off returns nothing at all, so not the empty batch.
  cases hb : s.breaksOff now r q with
  | true => cases (congrArg Prod.fst (take_of_breaksOff hat hb)).symm.trans hnil
  | false =>
    have hreturned := congrArg Prod.fst (take_of_not_breaksOff hat hb)
    have hempty : (s.passOver now r q).taken.map Stored.delivery = [] :=
      Except.ok.inj (hreturned.symm.trans hnil)
    have hpos : 0 < (q.messages.filter (·.isDeliverable q.redrive now)).length :=
      List.length_pos_of_mem (List.mem_filter.mpr ⟨hm, hdue⟩)
    have htaken := (s.forall₂_passOver now r q).length_eq
    rw [List.map_eq_nil_iff.mp hempty, StoreQueue.firsts, List.length_take, List.length_nil] at htaken
    omega

/-- A receive call that begins at an instant stays within the clock, however long it waits: neither
    its deadline lies beyond it, nor does the end of a lease that it gives at its deadline. -/
def Fits (s : LeaseStore) (now : Nat) (r : ReceiveRequest) : Prop :=
  now + r.wait.getD s.wait + r.visibility.getD s.visibility ≤ s.lastInstant

instance (s : LeaseStore) (now : Nat) (r : ReceiveRequest) : Decidable (s.Fits now r) :=
  inferInstanceAs (Decidable (_ ≤ _))

end LeaseStore

/-! ## Steps -/

namespace ErrandStep

/-- A receive call returns at a step, with whatever result. -/
def Over (name : String) (x : ErrandStep) : Prop := ∃ r, x.Returns name r

/-- A receive call returns messages at a step. -/
def Finds (name : String) (x : ErrandStep) : Prop := ∃ ds, ds ≠ [] ∧ x.Returns name (.ok ds)

/-- Whether a queue has a message that can be delivered when a step is made. -/
def offers (n : String) (x : ErrandStep) : Bool :=
  (x.before.store.queues.get? n).any fun q => q.messages.any (·.isDeliverable q.redrive x.now)

end ErrandStep

namespace Counter

variable {c : Counter} {now : Nat} {e : Errand} {name : String} {p : LongPoll}
  {xs : List (Nat × Errand)}

/-- The receive calls of a name that have not returned. -/
def of (c : Counter) (name : String) : List (String × LongPoll) := c.polls.filter (·.1 = name)

/-- What a step at which no receive call of a name begins makes of those that have begun. -/
inductive Fared (name : String) (x : ErrandStep) : Prop
  /-- One of them looks, and returns. -/
  | returned {p : LongPoll} {r : Except BrokerError (List Delivery)}
    (hlook : (p.look x.now x.before.store).1 = .inl (r.mapError .refused))
    (hreturns : x.Returns name r) (h : ((name, p) :: x.after.of name).Perm (x.before.of name))
  /-- One of them looks, and breaks off. -/
  | brokeOff {p : LongPoll} (hlook : (p.look x.now x.before.store).1 = .inl (.error .beyondClock))
    (hnot : ¬ x.Over name) (h : ((name, p) :: x.after.of name).Perm (x.before.of name))
  /-- One of them looks, and waits on. -/
  | looked {p p' : LongPoll} {rest : List (String × LongPoll)}
    (hlook : (p.look x.now x.before.store).1 = .inr p') (hnone : x.told? = none)
    (hnot : ¬ x.Over name) (hbefore : ((name, p) :: rest).Perm (x.before.of name))
    (h : x.after.of name = rest ++ [(name, p')])
  /-- A message was sent, and they are told to look. -/
  | woken {id : String} (hid : x.told? = some (.ok id)) (hnot : ¬ x.Over name)
    (h : x.after.of name = (x.before.of name).map fun e => (e.1, e.2.wake x.now))
  /-- They are left alone. -/
  | left (hnone : ∀ id, x.told? ≠ some (.ok id)) (hnot : ¬ x.Over name)
    (h : (x.after.of name).Perm (x.before.of name))

/-- A call does not return in a step in which none does. -/
private theorem not_over_of_returned_eq {x : ErrandStep}
    (h : x.after.returned = x.before.returned) :
    ¬ x.Over name := fun ⟨_, hreturns⟩ => List.cons_ne_self _ _ (hreturns.symm.trans h)

/-- A call does not return in a step in which another one does. -/
private theorem not_over_of_returned_cons {x : ErrandStep} {name' : String} {now : Nat}
    {r : Except BrokerError (List Delivery)} (hne : name' ≠ name)
    (h : x.after.returned = (now, name', r) :: x.before.returned) : ¬ x.Over name :=
  fun ⟨_, hreturns⟩ => hne (congrArg (·.2.1) (List.cons.inj (h.symm.trans hreturns)).1)

/-- A call that is taken off its place and put in front is among the same calls. -/
theorem perm_cons_eraseIdx {l : List (String × LongPoll)} {i : Nat} {e : String × LongPoll}
    (hi : l[i]? = some e) : (e :: l.eraseIdx i).Perm l := by
  obtain ⟨hlt, rfl⟩ := List.getElem?_eq_some_iff.mp hi
  exact List.getElem_cons_eraseIdx_perm hlt

/-- When the call at a place is taken off, those of a name that are left make up those that were
    there, together with it if it is one of them. -/
private theorem perm_filter_eraseIdx {l : List (String × LongPoll)} {i : Nat} {name' : String}
    (hi : l[i]? = some (name', p)) (name : String) :
    (if name' = name then (name', p) :: (l.eraseIdx i).filter (·.1 = name)
      else (l.eraseIdx i).filter (·.1 = name)).Perm (l.filter (·.1 = name)) := by
  have hperm := (perm_cons_eraseIdx hi).filter (·.1 = name)
  rw [List.filter_cons] at hperm
  simpa using hperm

/-- A step that does not begin a receive under the name treats the polls under it alike. -/
theorem fared_step (c : Counter) (now : Nat) (hown : e.receives name = false) :
    Fared name (c.step now e) := by
  have hdid := did_after now c e
  unfold step
  generalize c.after now e = c' at hdid ⊢
  -- Only if the call that looked is of this name is it the one that waits.
  cases hdid with
  | other hnone o => exact .left hnone (not_over_of_returned_eq rfl) (.refl _)
  | sent hid o =>
    refine .woken hid (not_over_of_returned_eq rfl) ?_
    show (c.polls.map _).filter _ = _
    rw [List.filter_map]
    rfl
  | began name' r =>
    have hne : name' ≠ name := by simpa [Errand.receives] using hown
    refine .left (by simp [ErrandStep.told?, told?]) (not_over_of_returned_eq rfl) (.of_eq ?_)
    show (c.polls ++ _).filter _ = _
    rw [List.filter_append]
    simp [hne, of]
  | @returned i name' p r s hi hdue hlook =>
    have hperm := perm_filter_eraseIdx hi name
    by_cases hname : name' = name
    · subst hname
      rw [if_pos rfl] at hperm
      exact .returned (congrArg Prod.fst hlook) rfl hperm
    · rw [if_neg hname] at hperm
      exact .left (by simp [ErrandStep.told?, told?]) (not_over_of_returned_cons hname rfl) hperm
  | @brokeOff i name' p s hi hdue hlook =>
    have hperm := perm_filter_eraseIdx hi name
    by_cases hname : name' = name
    · subst hname
      rw [if_pos rfl] at hperm
      exact .brokeOff (congrArg Prod.fst hlook) (not_over_of_returned_eq rfl) hperm
    · rw [if_neg hname] at hperm
      exact .left (by simp [ErrandStep.told?, told?]) (not_over_of_returned_eq rfl) hperm
  | @stayed i name' p p' s hi hdue hlook =>
    have hperm := perm_filter_eraseIdx hi name
    have hafter : (c.polls.eraseIdx i ++ [(name', p')]).filter (·.1 = name) =
        (c.polls.eraseIdx i).filter (·.1 = name) ++ if name' = name then [(name', p')] else [] := by
      rw [List.filter_append, List.filter_singleton]
      simp
    by_cases hname : name' = name
    · subst hname
      rw [if_pos rfl] at hperm hafter
      exact .looked (congrArg Prod.fst hlook) rfl (not_over_of_returned_eq rfl) hperm hafter
    · rw [if_neg hname] at hperm hafter
      refine .left (by simp [ErrandStep.told?, told?]) (not_over_of_returned_eq rfl) ?_
      exact (List.Perm.of_eq (hafter.trans (List.append_nil _))).trans hperm

/-- Under a name under which nobody waits no call returns. -/
private theorem of_after_eq_nil (h : c.of name = []) (now : Nat) (hown : e.receives name = false) :
    (c.after now e).of name = [] ∧ ¬ (c.step now e).Over name := by
  have hbefore : (c.step now e).before.of name = [] := h
  -- The call is not there, so a step that changes it is a step of somebody else.
  cases fared_step c now hown with
  | returned _ _ hperm | brokeOff _ _ hperm | looked _ _ _ hperm =>
    cases List.perm_nil.mp (hbefore ▸ hperm)
  | woken _ hnot hafter =>
    rw [hbefore] at hafter
    exact ⟨hafter, hnot⟩
  | left _ hnot hperm => exact ⟨List.perm_nil.mp (hbefore ▸ hperm), hnot⟩

/-- As long as no call begins under a name nobody waits under it. -/
private theorem of_run_eq_nil (h : c.of name = [])
    (hown : ∀ y ∈ c.steps xs, y.errand.receives name = false) : (c.run xs).of name = [] := by
  induction xs generalizing c with
  | nil => exact h
  | cons x xs ih =>
    obtain ⟨hx, hxs⟩ := List.forall_mem_cons.mp hown
    exact ih (of_after_eq_nil h x.1 hx).1 hxs

/-- A call that is not there does not return. -/
private theorem not_over_of_mem_steps (h : c.of name = [])
    (hown : ∀ y ∈ c.steps xs, y.errand.receives name = false) :
    ∀ y ∈ c.steps xs, ¬ y.Over name := by
  induction xs generalizing c with
  | nil => exact nofun
  | cons x xs ih =>
    -- The call is not there, and only it could begin itself, so it is not there afterwards either.
    obtain ⟨hx, hxs⟩ := List.forall_mem_cons.mp hown
    obtain ⟨hafter, hnot⟩ := of_after_eq_nil h x.1 hx
    exact List.forall_mem_cons.mpr ⟨hnot, ih hafter hxs⟩

end Counter

/-! ## The course of one call -/

/-- One receive call waits under a name after a step and is not put off, and the steps after it
    follow promptly.  What it can come to lies within the clock. -/
structure Vigil (name n : String) (p : LongPoll) (x : ErrandStep) (later : List ErrandStep) :
    Prop where
  runs : ∃ xs, later = x.after.steps xs
  own : ∀ y ∈ later, y.errand.receives name = false
  prompt : Counter.Prompt (x :: later)
  waiting : x.after.of name = [(name, p)]
  destination : LeaseStore.queueName p.request.destination = .ok n
  there : (x.after.store.queues.get? n).isSome
  in_time : x.now ≤ p.deadline
  soon : p.lookAt ≤ x.now + LongPoll.tick
  lookAt_le : p.lookAt ≤ p.deadline
  fits : p.deadline + p.request.visibility.getD x.after.store.visibility ≤ x.after.store.lastInstant

namespace Vigil

open LongPoll (tick)

variable {name n : String} {p : LongPoll} {x y : ErrandStep} {later rest early : List ErrandStep}

/-- What the next step makes of the call. -/
inductive Upshot (name n : String) (p : LongPoll) (y : ErrandStep) (later : List ErrandStep) : Prop
  /-- It returns a batch, which is empty only if its time is over. -/
  | returned {ds : List Delivery} (hreturns : y.Returns name (.ok ds))
    (hempty : ds = [] → p.deadline ≤ y.now)
    (htake : (y.before.store.take y.now p.request).1 = .ok ds)
    (hsilent : ∀ z ∈ later, ¬ z.Over name)
  /-- It has found nothing, and waits on. -/
  | looked (hnone : y.told? = none) (hnot : ¬ y.Over name)
    (htake : (y.before.store.take y.now p.request).1 = .ok [])
    (h : Vigil name n { p with lookAt := y.now + min (p.deadline - y.now) tick } y later)
  | woken {id : String} (hid : y.told? = some (.ok id)) (hnot : ¬ y.Over name)
    (h : Vigil name n (p.wake y.now) y later)
  | left (hnone : ∀ id, y.told? ≠ some (.ok id)) (hnot : ¬ y.Over name) (h : Vigil name n p y later)

/-- The next step is a step of the run. -/
theorem exists_step (h : Vigil name n p x (y :: later)) :
    ∃ now e zs, y = x.after.step now e ∧ later = y.after.steps zs := by
  obtain ⟨_ | ⟨i, zs⟩, hruns⟩ := h.runs
  · cases hruns
  · obtain ⟨rfl, hlater⟩ := List.cons.inj hruns
    exact ⟨i.1, i.2, zs, rfl, hlater⟩

/-- A call that waits is at the counter. -/
theorem mem_polls (h : Vigil name n p x later) : (name, p) ∈ x.after.polls := by
  have hmem : (name, p) ∈ x.after.of name := h.waiting ▸ List.mem_singleton_self _
  exact (List.mem_filter.mp hmem).1

/-- Time does not pass the instant at which the call looks. -/
private theorem now_le (h : Vigil name n p x (y :: later)) :
    x.now ≤ y.now ∧ y.now ≤ max x.now p.lookAt := by
  obtain ⟨now, e, zs, rfl, -⟩ := h.exists_step
  obtain ⟨hle, hidle⟩ := (List.isChain_cons_cons.mp h.prompt).1
  refine ⟨hle, ?_⟩
  -- If time went past the next look of the poll there would be an instant with nothing due.
  by_contra hlt
  have hnone := hidle (max x.now p.lookAt) (Nat.lt_of_not_le hlt) (Nat.le_max_left ..)
  have hlater : max x.now p.lookAt < p.lookAt :=
    Counter.act?_eq_none_iff.mp hnone _ h.mem_polls
  omega

/-- The queue for which a call waits is there. -/
private theorem at?_eq_ok (h : Vigil name n p x later) :
    ∃ q, x.after.store.at? p.request.destination = .ok (n, q) := by
  obtain ⟨q, hq⟩ := Option.isSome_iff_exists.mp h.there
  exact ⟨q, LeaseStore.at?_eq_ok.mpr ⟨h.destination, hq⟩⟩

/-- Until its time is over the call does not break off. -/
private theorem not_beyond (h : Vigil name n p x later) :
    p.isBeyond x.after.store = false ∧
      ∀ now ≤ p.deadline, ∀ q, x.after.store.breaksOff now p.request q = false := by
  have hfits := h.fits
  refine ⟨?_, fun now hnow q => LeaseStore.breaksOff_eq_false ?_ q⟩
  · have hle : p.deadline ≤ x.after.store.lastInstant := Nat.le_trans (Nat.le_add_right ..) hfits
    simp [LongPoll.isBeyond, Nat.not_lt.mpr hle]
  · exact Nat.le_trans (Nat.add_le_add_right hnow _) hfits

/-- If the call goes on after a step and is not put off, so does its vigil. -/
theorem goes {p' : LongPoll} (h : Vigil name n p x (y :: later))
    (hof : y.after.of name = [(name, p')]) (hrequest : p'.request = p.request)
    (hdeadline : p'.deadline = p.deadline) (hsoon : p'.lookAt ≤ y.now + tick)
    (hlookAt : p'.lookAt ≤ p.deadline) : Vigil name n p' y later := by
  obtain ⟨hle, hnow⟩ := h.now_le
  have hin_time := h.in_time
  have hbefore := h.lookAt_le
  obtain ⟨now, e, zs, rfl, rfl⟩ := h.exists_step
  -- The run goes on, the queue stays there, and only the next look has come nearer.
  constructor
  case runs => exact ⟨zs, rfl⟩
  case own => exact (List.forall_mem_cons.mp h.own).2
  case prompt => exact List.IsChain.tail h.prompt
  case waiting => exact hof
  case destination => exact hrequest ▸ h.destination
  case there =>
    show ((x.after.after now e).store.queues.get? n).isSome
    rw [Counter.store_after]
    exact LeaseStore.isSome_get?_run h.there _
  case in_time => omega
  case soon => exact hsoon
  case lookAt_le => exact hdeadline ▸ hlookAt
  case fits =>
    obtain ⟨hlast, hvisibility⟩ :=
      x.after.store.clock_run ((x.after.calls now e).map (now, ·))
    show p'.deadline + p'.request.visibility.getD (x.after.after now e).store.visibility ≤
      (x.after.after now e).store.lastInstant
    rw [Counter.store_after, hlast, hvisibility, hrequest, hdeadline]
    exact h.fits

/-- What the next step makes of the call. -/
theorem step (h : Vigil name n p x (y :: later)) : Upshot name n p y later := by
  obtain ⟨hle, hnow⟩ := h.now_le
  have hin_time : y.now ≤ p.deadline :=
    Nat.le_trans hnow (Nat.max_le.mpr ⟨h.in_time, h.lookAt_le⟩)
  obtain ⟨hbeyond, hb⟩ := h.not_beyond
  obtain ⟨q, hat⟩ := h.at?_eq_ok
  obtain ⟨now, e, zs, rfl, rfl⟩ := h.exists_step
  have hwaiting : (x.after.step now e).before.of name = [(name, p)] := h.waiting
  obtain ⟨hy, hown⟩ := List.forall_mem_cons.mp h.own
  have hfared : Counter.Fared name (x.after.step now e) := Counter.fared_step x.after now hy
  -- Somebody else acts, the call looks and returns, or it looks and waits on.
  cases hfared with
  | @returned p' r hlook hreturns hperm =>
    rw [hwaiting] at hperm
    obtain ⟨heq, hnil⟩ := List.cons.inj (List.perm_singleton.mp hperm)
    cases heq
    obtain ⟨ds, hds, hempty⟩ := LongPoll.look_inl hat hbeyond (hb now hin_time q) hlook
    obtain rfl : r = .ok ds := by cases r <;> cases hds; rfl
    have htake := (LongPoll.look_eq_inl hlook).resolve_left fun hno => by cases hno.2
    exact .returned hreturns hempty htake.2 (Counter.not_over_of_mem_steps hnil hown)
  | @brokeOff p' hlook _ hperm =>
    rw [hwaiting] at hperm
    obtain ⟨heq, -⟩ := List.cons.inj (List.perm_singleton.mp hperm)
    cases heq
    -- It does not break off, as its request fits the clock.
    obtain ⟨ds, hds, -⟩ := LongPoll.look_inl hat hbeyond (hb now hin_time q) hlook
    cases hds
  | @looked p' p'' rest hlook hnone hnot hperm hafter =>
    rw [hwaiting] at hperm
    obtain ⟨heq, rfl⟩ := List.cons.inj (List.perm_singleton.mp hperm)
    cases heq
    obtain ⟨hlt, rfl⟩ := LongPoll.look_inr hlook
    refine .looked hnone hnot (LongPoll.look_eq_inr hlook).2 (h.goes hafter rfl rfl ?_ ?_)
    · exact Nat.add_le_add_left (Nat.min_le_right ..) _
    · dsimp only
      omega
  | woken hid hnot hafter =>
    rw [hwaiting] at hafter
    refine .woken hid hnot (h.goes hafter rfl rfl (Nat.le_add_right ..) ?_)
    exact hin_time
  | left hnone hnot hperm =>
    rw [hwaiting] at hperm
    refine .left hnone hnot (h.goes (List.perm_singleton.mp hperm) rfl rfl ?_ h.lookAt_le)
    exact Nat.le_trans h.soon (Nat.add_le_add_right hle _)

/-- The call returns once. -/
private theorem once (h : Vigil name n p x later) :
    later.Pairwise fun y z => ¬ (y.Over name ∧ z.Over name) := by
  induction later generalizing x p with
  | nil => exact .nil
  | cons y later ih =>
    refine List.pairwise_cons.mpr ?_
    cases h.step with
    -- When it has returned, nobody of its name waits any more.
    | returned _ _ _ hsilent =>
      refine ⟨fun z hz hboth => hsilent z hz hboth.2, ?_⟩
      exact List.pairwise_of_forall_mem_list fun y hy z _ hboth => hsilent y hy hboth.1
    | looked _ hnot _ h | woken _ hnot h | left _ hnot h =>
      exact ⟨fun z _ hboth => hnot hboth.1, ih h⟩

/-- As long as the call has not returned its vigil goes on. -/
theorem exists_of_cut (h : Vigil name n p x (early ++ rest)) (hearly : ∀ y ∈ early, ¬ y.Over name) :
    ∃ z ∈ x :: early, ∃ p', Vigil name n p' z rest ∧ p'.request = p.request ∧
      p'.deadline = p.deadline := by
  induction early generalizing x p with
  | nil => exact ⟨x, List.mem_cons_self, p, h, rfl, rfl⟩
  | cons y early ih =>
    obtain ⟨hy, hearly⟩ := List.forall_mem_cons.mp hearly
    have hnext : ∃ p', Vigil name n p' y (early ++ rest) ∧ p'.request = p.request ∧
        p'.deadline = p.deadline := by
      -- A call that has not returned by then waits on with the same request.
      cases h.step with
      | returned hreturns => exact absurd ⟨_, hreturns⟩ hy
      | looked _ _ _ h | woken _ _ h | left _ _ h => exact ⟨_, h, rfl, rfl⟩
    obtain ⟨p', h, hrequest, hdeadline⟩ := hnext
    obtain ⟨z, hz, p'', h, hrequest', hdeadline'⟩ := ih h hearly
    exact ⟨z, List.mem_cons_of_mem x hz, p'', h, hrequest'.trans hrequest,
      hdeadline'.trans hdeadline⟩

/-- The call returns when its time is over, at the latest. -/
theorem until_over (h : Vigil name n p x later) :
    Until (·.now ≤ p.deadline) (·.Over name) later := by
  induction later generalizing x p with
  | nil => trivial
  | cons y later ih =>
    have hnow : y.now ≤ p.deadline :=
      -- Nobody can let the instant pass at which a call is due to look.
      Nat.le_trans h.now_le.2 (Nat.max_le.mpr ⟨h.in_time, h.lookAt_le⟩)
    refine ⟨hnow, ?_⟩
    cases h.step with
    | returned hreturns => exact .inl ⟨_, hreturns⟩
    | looked _ _ _ h | woken _ _ h | left _ _ h =>
      have hrest := ih h
      exact .inr hrest

/-- As long as there is a message that can be delivered, the call does not wait beyond the instant
    at which it looks, and then it returns messages. -/
private theorem until_finds {bound : Nat} (h : Vigil name n p x later)
    (hlimit : 0 < p.request.limit) (hnow : x.now ≤ bound) (hlook : p.lookAt ≤ bound)
    (hoffers : Until (fun y => y.offers n) (·.Over name) later) :
    Until (·.now ≤ bound) (·.Finds name) later := by
  induction later generalizing x p with
  | nil => trivial
  | cons y later ih =>
    have hy : y.now ≤ bound := Nat.le_trans h.now_le.2 (Nat.max_le.mpr ⟨hnow, hlook⟩)
    -- If it looks now it finds something.
    have hfinds : (y.before.store.take y.now p.request).1 ≠ .ok [] := by
      obtain ⟨q, hat⟩ := h.at?_eq_ok
      obtain ⟨now, e, zs, rfl, -⟩ := h.exists_step
      obtain ⟨q', hq', hany⟩ := (Option.any_eq_true _ _).mp hoffers.1
      obtain ⟨m, hm, hdue⟩ := List.any_eq_true.mp hany
      obtain rfl : q = q' := Option.some.inj ((LeaseStore.at?_eq_ok.mp hat).2.symm.trans hq')
      exact LeaseStore.take_ne_nil hat hm hdue hlimit
    refine ⟨hy, ?_⟩
    cases h.step with
    | returned hreturns _ htake =>
      exact .inl ⟨_, fun hnil => hfinds (hnil ▸ htake), hreturns⟩
    | looked _ _ htake => exact absurd htake hfinds
    | woken _ hnot h => exact .inr (ih h hlimit hy hy (hoffers.2.resolve_left hnot))
    | left _ hnot h => exact .inr (ih h hlimit hy hlook (hoffers.2.resolve_left hnot))

/-- The call returns if it looks at its deadline, whatever it finds. -/
private theorem exists_look_over (h : Vigil name n p x later) :
    ∃ i, (x.after.step p.deadline (.look i)).Over name := by
  obtain ⟨i, hi⟩ := List.mem_iff_getElem?.mp h.mem_polls
  obtain ⟨q, hat⟩ := h.at?_eq_ok
  obtain ⟨hbeyond, hb⟩ := h.not_beyond
  refine ⟨i, ?_⟩
  show ∃ r, (x.after.lookFrom p.deadline i).returned = (p.deadline, name, r) :: x.after.returned
  simp only [Counter.lookFrom, hi, if_pos h.lookAt_le]
  rcases hlook : p.look p.deadline x.after.store with ⟨r | p', s⟩
  · obtain ⟨ds, rfl, -⟩ := LongPoll.look_inl hat hbeyond (hb p.deadline (Nat.le_refl _) q)
      (congrArg Prod.fst hlook)
    exact ⟨.ok ds, rfl⟩
  -- At its deadline it does not wait on.
  · exact absurd (LongPoll.look_inr (congrArg Prod.fst hlook)).1 (Nat.lt_irrefl _)

end Vigil

/-! ## What holds of every call -/

/-- A receive call for messages begins at a step, on a queue that is there and under a name that no
    other call has. -/
structure Asks (name n : String) (r : ReceiveRequest) (before : List ErrandStep) (x : ErrandStep)
    (later : List ErrandStep) : Prop where
  errand : x.errand = .receive name r
  own : ∀ y ∈ before ++ later, y.errand.receives name = false
  queue : ∃ q, x.before.store.at? r.destination = .ok (n, q)
  limit : 0 < r.limit

/-- When a receive call with a deadline returns that has begun at a step, and with what. -/
structure Answered (name n : String) (deadline : Nat) (x : ErrandStep) (later : List ErrandStep) :
    Prop where
  in_time : Until (·.now ≤ deadline) (·.Over name) later
  /-- As long as it has not returned, it returns if it looks at its deadline. -/
  can_return : ∀ early z rest, later = early ++ z :: rest → (∀ y ∈ early, ¬ y.Over name) →
    ∃ i, (z.before.step deadline (.look i)).Over name
  once : later.Pairwise fun y z => ¬ (y.Over name ∧ z.Over name)
  /-- It returns no error, and an empty batch only when its time is over. -/
  batch : ∀ y ∈ later, ∀ res, y.Returns name res → ∃ ds, res = .ok ds ∧ (ds = [] → y.now = deadline)
  /-- If from some instant on, for as long as it waits, its queue has a message that can be
      delivered, it returns messages within a tick. -/
  found : ∀ early rest u, later = early ++ rest → (∀ y ∈ early, ¬ y.Over name) →
    (∀ y ∈ x :: early, y.now ≤ u) → Until (fun y => y.offers n) (·.Over name) rest →
      Until (·.now ≤ min (u + LongPoll.tick) deadline) (·.Finds name) rest
  /-- If there is one when it begins, it returns messages at once. -/
  at_once : Until (fun y => y.offers n) (·.Over name) later →
    Until (·.now = x.now) (·.Finds name) later
  /-- If there is one from when a message was sent, it returns messages then. -/
  on_arrival : ∀ early z rest id, later = early ++ z :: rest →
    (∀ y ∈ early ++ [z], ¬ y.Over name) → z.told? = some (.ok id) →
      Until (fun y => y.offers n) (·.Over name) rest →
        Until (·.now = z.now) (·.Finds name) rest

/-- A call that begins in a prompt run waits. -/
theorem Asks.vigil {name n : String} {r : ReceiveRequest} {before later : List ErrandStep}
    {x : ErrandStep} {s : LeaseStore} {xs : List (Nat × Errand)}
    (h : Asks name n r before x later) (hfits : x.before.store.Fits x.now r)
    (hcut : (Counter.ofStore s).steps xs = before ++ x :: later)
    (hprompt : Counter.Prompt (before ++ x :: later)) :
    Vigil name n (.start x.now x.before.store r) x later := by
  obtain ⟨q, hat⟩ := h.queue
  obtain ⟨hdest, hq⟩ := LeaseStore.at?_eq_ok.mp hat
  obtain ⟨hbefore, hlater⟩ := List.forall_mem_append.mp h.own
  have herrand := h.errand
  obtain ⟨ys, now, e, zs, -, rfl, rfl, rfl⟩ := Counter.exists_cut_of_steps hcut
  obtain rfl : e = .receive name r := herrand
  have hnone : ((Counter.ofStore s).run ys).of name = [] := Counter.of_run_eq_nil rfl hbefore
  -- The call has just come to the counter, and nobody of its name was there before.
  constructor
  case runs => exact ⟨zs, rfl⟩
  case own => exact hlater
  case prompt => exact List.IsChain.right_of_append hprompt
  case waiting =>
    unfold Counter.of at hnone
    show (_ ++ [_]).filter _ = _
    rw [List.filter_append, hnone, List.nil_append]
    exact List.filter_cons_of_pos (decide_eq_true rfl)
  case destination => exact hdest
  case there => exact hq ▸ rfl
  case in_time | soon | lookAt_le => exact Nat.le_add_right ..
  case fits => exact hfits

/-- A call that waits is answered. -/
private theorem Vigil.answered {name n : String} {p : LongPoll} {x : ErrandStep}
    {later : List ErrandStep}
    (h : Vigil name n p x later) (hlook : p.lookAt ≤ x.now) (hlimit : 0 < p.request.limit) :
    Answered name n p.deadline x later := by
  -- What finds in time after something at an instant, finds at this instant: time does not go back.
  have hsame : ∀ {z : ErrandStep} {rest : List ErrandStep}, Counter.Prompt (z :: rest) →
      Until (·.now ≤ z.now) (·.Finds name) rest → Until (·.now = z.now) (·.Finds name) rest :=
    fun hprompt hrest => hrest.imp
      (fun y hy hle => Nat.le_antisymm hle (hprompt.now_le hy)) fun _ _ hy => hy
  constructor
  case in_time => exact h.until_over
  case once => exact h.once
  case can_return =>
    -- At every step up to the return the poll waits somewhere, so it can look.
    rintro early z rest rfl hearly
    obtain ⟨w, -, p', h', -, hdeadline⟩ := h.exists_of_cut hearly
    obtain ⟨i, hi⟩ := h'.exists_look_over
    obtain ⟨now, e, zs, rfl, -⟩ := h'.exists_step
    exact ⟨i, hdeadline ▸ hi⟩
  case batch =>
    intro y hy res hreturns
    -- The return comes once, so nothing before it is one.
    obtain ⟨early, rest, rfl⟩ := List.append_of_mem hy
    have hearly : ∀ z ∈ early, ¬ z.Over name := fun z hz hover =>
      (List.pairwise_append.mp h.once).2.2 z hz y List.mem_cons_self ⟨hover, res, hreturns⟩
    have hnow := h.until_over.of_cut hearly
    obtain ⟨w, -, p', h', -, hdeadline⟩ := h.exists_of_cut hearly
    cases h'.step with
    | @returned ds hds hempty =>
      have hres : res = .ok ds := congrArg (·.2.2) (List.cons.inj (hreturns.symm.trans hds)).1
      exact ⟨ds, hres, fun hnil => Nat.le_antisymm hnow (hdeadline ▸ hempty hnil)⟩
    | looked _ hnot | woken _ hnot | left _ hnot => exact absurd ⟨res, hreturns⟩ hnot
  case found =>
    rintro early rest u rfl hearly hu hoffers
    -- The vigil at the step that offers looks early enough to find the message.
    obtain ⟨z, hz, p', h', hrequest, hdeadline⟩ := h.exists_of_cut hearly
    have hznow := hu z hz
    have hin_time := h'.in_time
    have hsoon := h'.soon
    have hlookAt := h'.lookAt_le
    exact h'.until_finds (hrequest ▸ hlimit) (by omega) (by omega) hoffers
  case at_once =>
    exact fun hoffers => hsame h.prompt (h.until_finds hlimit (Nat.le_refl _) hlook hoffers)
  case on_arrival =>
    rintro early z rest id rfl hearly hid hoffers
    -- A wake-up moves the next look to this instant; no other step here does not return.
    obtain ⟨hearly, hz⟩ := List.forall_mem_append.mp hearly
    obtain ⟨w, -, p', h', hrequest, -⟩ := h.exists_of_cut hearly
    cases h'.step with
    | returned hreturns => exact absurd ⟨_, hreturns⟩ (hz z (List.mem_singleton_self z))
    | looked hnone => cases hnone.symm.trans hid
    | woken _ _ h' =>
      exact hsame h'.prompt
        (h'.until_finds (hrequest ▸ hlimit) (Nat.le_refl _) (Nat.le_refl _) hoffers)
    | left hnone => exact absurd hid (hnone id)

/-- A message is sent while three calls wait for it.  The one that looks first has it, the second
    one has it a little after the lease of the first is over, which tells nobody, and the third one
    breaks off because it waits for more than the clock can tell. -/
def patient : List (Nat × Errand) :=
  [(0, .call (.create "q")), (0, .receive "a" ⟨"memory://q", 1, some 30, some 200⟩), (0, .look 0),
    (10, .receive "b" ⟨"memory://q", 1, some 30, none⟩), (10, .look 1),
    (10, .receive "c" ⟨"memory://q", 1, none, some 9223372036854775807000⟩), (10, .look 2),
    (50, .look 0), (55, .sendText "q" "x" 0), (55, .look 0), (55, .look 0), (105, .look 0)]

/-- A message is there when a call begins that would wait for it longer than the clock can tell. -/
def endless : List (Nat × Errand) :=
  [(0, .call (.create "q")), (0, .sendText "q" "x" 0),
    (0, .receive "a" ⟨"memory://q", 1, none, some 9223372036854775807000⟩), (0, .look 0),
    (100, .forget "q")]

end Intake
