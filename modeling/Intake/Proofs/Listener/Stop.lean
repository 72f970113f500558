import Intake.Proofs.Listener.Bystander
import Intake.Proofs.Listener.Standing

/-!
# A stop takes a bounded time and leaves the right state

A stop of a running queue ends the epoch in which the queue runs and waits for the poller of
that epoch, at most for the time that is set for it.  Between the call and its return anything
may happen to the queue: it may be started once more, be stopped once more, or be forgotten
with the listener.  Whatever does, the stop ends its own epoch and nothing else.

- `StopsQueue`: what a stop of a queue does
- `EndsEpoch`: what it does if the queue is running
- `Sequel`: where the queue can stand while the stop waits
- `Underway`: how far the stop is
- `stopsQueue_run`: in every run each stop is bounded and leaves the right state
-/

namespace Intake

/-- A stop of one queue while it waits for a poller. -/
def Call.ofStop (n : Nat) (p : PollerId) (deadline : Nat) : Call :=
  ⟨n, .stop, [], .poller p deadline⟩

/-- The instant at which a stop no longer waits. -/
def Step.stopBound (x : Step) : Nat := x.now + x.before.settings.stopTimeout

/-- A call returns in a step. -/
def Step.Returns (n : Nat) (x : Step) : Prop := ∃ r, .returned n r ∈ x.effects

/-- What the stop of a queue that was running leaves in the step in which it returns, given its
    poller and the steps since the call. -/
structure Step.Leaves (p : PollerId) (meanwhile : List Step) (y : Step) : Prop where
  /-- The queue is stopped, unless it was started again or forgotten meanwhile. -/
  stopped : (∀ w ∈ meanwhile, ¬ w.Starts p.queue ∧ ¬ w.Forgets) →
    y.after.lifecycle.standing? p.queue = some ⟨.stopped, p.epoch⟩
  /-- A queue that was forgotten has no standing. -/
  forgotten : (∃ w ∈ meanwhile, w.Forgets) → y.after.lifecycle.standing? p.queue = none
  /-- A queue that was started again is in a later epoch and stands as it did before. -/
  restarted : (∃ w ∈ meanwhile, w.Starts p.queue) →
    y.after.lifecycle.standing? p.queue = y.before.lifecycle.standing? p.queue ∧
      ∀ s, y.after.lifecycle.standing? p.queue = some s → p.epoch < s.epoch
  /-- All other queues stand as they did before. -/
  queues : ∀ q, q ≠ p.queue → y.after.lifecycle.standing? q = y.before.lifecycle.standing? q
  /-- All other pollers, also those of later epochs of the queue, are as they were before. -/
  pollers : ∀ r, r ≠ p → y.after.poller? r = y.before.poller? r

/-- What a stop of a queue does that is running with a poller. -/
structure EndsEpoch (n : Nat) (p : PollerId) (x : Step) (later : List Step) : Prop where
  /-- The queue begins to stop. -/
  begins : x.after.lifecycle.standing? p.queue = some ⟨.stopping, p.epoch⟩
  queues : ∀ q, q ≠ p.queue → x.after.lifecycle.standing? q = x.before.lifecycle.standing? q
  pollers : ∀ r, r ≠ p → x.after.poller? r = x.before.poller? r
  waits : ¬ x.Returns n
  /-- Unless somebody dawdles, time passes before the stop has returned only while the poller
      is alive, and not beyond the bound. -/
  in_time : Prompt (x :: later) → ∀ before y z rest, x :: later = before ++ y :: z :: rest →
    y.now < z.now → (∀ w ∈ before ++ [y], ¬ w.Returns n) →
      z.before.isAlive p ∧ z.now ≤ x.stopBound
  /-- The stop returns without a failure, and not before the poller has ended or the bound is
      reached. -/
  not_early : ∀ y ∈ later, ∀ r, .returned n r ∈ y.effects →
    r = .ok () ∧ (y.before.isAlive p = false ∨ x.stopBound ≤ y.now)
  /-- From then on it returns as soon as it goes on. -/
  goes_on : ∀ before y rest, later = before ++ y :: rest → (∀ w ∈ before, ¬ w.Returns n) →
    (y.before.isAlive p = false ∨ x.stopBound ≤ y.now) → y.stimulus = .proceed n → y.Returns n
  /-- It returns once. -/
  once : ∀ before y rest, later = before ++ y :: rest → y.Returns n → ∀ w ∈ before, ¬ w.Returns n
  /-- As long as it waits, and after it has returned, it does nothing. -/
  idle : ∀ y ∈ later, y.stimulus.actor = .caller (some n) → ¬ y.Returns n → y.after = y.before
  leaves : ∀ before y rest, later = before ++ y :: rest → y.Returns n → y.Leaves p before

/-- What a stop of a queue does from the step on in which it is called. -/
structure StopsQueue (n : Nat) (q : String) (x : Step) (later : List Step) : Prop where
  /-- A queue that is not registered is refused, and nothing changes. -/
  unknown : x.before.station? q = none →
    x.effects = [.returned n (.error (.notRegistered q))] ∧ x.after = x.before
  /-- The stop of a queue that is not running returns at once, and nothing changes. -/
  idle : (x.before.station? q).isSome → x.before.lifecycle.isRunning q = false →
    x.effects = [.returned n (.ok ())] ∧ x.after = x.before
  /-- The stop of a queue that is running ends the epoch in which it runs. -/
  running : ∀ e, x.before.lifecycle.standing? q = some ⟨.running, e⟩ → EndsEpoch n ⟨q, e⟩ x later

namespace Listener

variable {l : Listener} {p : PollerId} {q : String} {now n t : Nat} {s : Stimulus}
  {hist : List Step}

/-! ## Where the queue stands meanwhile -/

/-- Where a queue can stand when one of its epochs has been ended, given the steps since then. -/
inductive Sequel (p : PollerId) (hist : List Step) : Option Standing → Prop
  | halted {s : Standing} (hepoch : s.epoch = p.epoch) (hstage : s.stage ≠ .running)
    (h : ∀ w ∈ hist, ¬ w.Starts p.queue ∧ ¬ w.Forgets) : Sequel p hist (some s)
  | restarted {s : Standing} (hlt : p.epoch < s.epoch)
    (hstarts : ∃ w ∈ hist, w.Starts p.queue) (h : ∀ w ∈ hist, ¬ w.Forgets) :
    Sequel p hist (some s)
  | forgotten (h : ∃ w ∈ hist, w.Forgets) : Sequel p hist none

/-- One more step of the kind. -/
theorem forall_mem_step {P : Step → Prop} (h : ∀ w ∈ hist, P w) (hstep : P (l.step now s)) :
    ∀ w ∈ hist ++ [l.step now s], P w :=
  List.forall_mem_append.mpr ⟨h, List.forall_mem_singleton.mpr hstep⟩

/-- A queue that does not run goes on not to run, unless it is started or forgotten. -/
private theorem Sequel.step_of_halted {st : Standing}
    (hst : l.lifecycle.standing? p.queue = some st)
    (hepoch : st.epoch = p.epoch) (hstage : st.stage ≠ .running)
    (h : ∀ w ∈ hist, ¬ w.Starts p.queue ∧ ¬ w.Forgets) (hforgets : ¬ (l.step now s).Forgets) :
    Sequel p (hist ++ [l.step now s]) ((l.step now s).after.lifecycle.standing? p.queue) := by
  by_cases hstarts : (l.step now s).Starts p.queue
  · obtain ⟨st', e, hst', hlt, hrunning⟩ := exists_running_of_starts hstarts
    obtain rfl := Option.some.inj (hst.symm.trans hst')
    rw [hrunning]
    exact .restarted (hepoch ▸ hlt) ⟨_, List.mem_append_right _ List.mem_cons_self, hstarts⟩
      (forall_mem_step (fun w hw => (h w hw).2) hforgets)
  · -- It was not started, so the standing stays, or goes on to stopped.
    have hkept := forall_mem_step h ⟨hstarts, hforgets⟩
    cases standingNext_step l now s p.queue with
    | same hsame =>
      have hsame' : (l.step now s).after.lifecycle.standing? p.queue = some st := hsame.trans hst
      rw [hsame']
      exact .halted hepoch hstage hkept
    | started hst => exact absurd hst hstarts
    | halted hs hs' hepoch' hstage' =>
      obtain rfl := Option.some.inj (hst.symm.trans hs)
      rw [hs']
      exact .halted (hepoch'.trans hepoch) hstage' hkept
    | forgotten hf => exact absurd hf hforgets

/-- A queue that was started again stays in a later epoch, unless it is forgotten. -/
private theorem Sequel.step_of_restarted {st : Standing}
    (hst : l.lifecycle.standing? p.queue = some st)
    (hlt : p.epoch < st.epoch) (hstarts : ∃ w ∈ hist, w.Starts p.queue)
    (h : ∀ w ∈ hist, ¬ w.Forgets) (hforgets : ¬ (l.step now s).Forgets) :
    Sequel p (hist ++ [l.step now s]) ((l.step now s).after.lifecycle.standing? p.queue) := by
  obtain ⟨w, hw, hstarts⟩ := hstarts
  cases hafter : (l.step now s).after.lifecycle.standing? p.queue with
  | some st' =>
    -- The epoch of a queue never falls.
    obtain ⟨st'', hst'', hprecedes⟩ := onward_react l now s p.queue st' hafter
    obtain rfl := Option.some.inj (hst.symm.trans hst'')
    exact .restarted (Nat.lt_of_lt_of_le hlt hprecedes.epoch_le)
      ⟨w, List.mem_append_left _ hw, hstarts⟩ (forall_mem_step h hforgets)
  | none =>
    cases standingNext_step l now s p.queue with
    | same hsame =>
      rw [hafter] at hsame
      cases hsame.trans hst
    | started hstarts =>
      obtain ⟨_, _, -, -, hrunning⟩ := exists_running_of_starts hstarts
      cases hafter.symm.trans hrunning
    | halted _ hs' => cases hafter.symm.trans hs'
    | forgotten hf => exact absurd hf hforgets

/-- The sequel of the epoch goes on with each step. -/
theorem Sequel.step (h : Sequel p hist (l.lifecycle.standing? p.queue)) (now : Nat)
    (s : Stimulus) : Sequel p (hist ++ [l.step now s])
      ((l.step now s).after.lifecycle.standing? p.queue) := by
  by_cases hforgets : (l.step now s).Forgets
  · rw [standing?_of_forgets hforgets]
    exact .forgotten ⟨_, List.mem_append_right _ List.mem_cons_self, hforgets⟩
  generalize hst : l.lifecycle.standing? p.queue = o at h
  cases h with
  | halted hepoch hstage h => exact .step_of_halted hst hepoch hstage h hforgets
  | restarted hlt hstarts h => exact .step_of_restarted hst hlt hstarts h hforgets
  | forgotten h =>
    -- A queue that is forgotten does not get known again.
    obtain ⟨w, hw, hforgot⟩ := h
    rw [show (l.step now s).after.lifecycle.standing? p.queue = none from
      (onward_react l now s).unknown hst]
    exact .forgotten ⟨w, List.mem_append_left _ hw, hforgot⟩

/-! ## Steps that do not concern the stop -/

/-- A step does not concern a call: it is pending as before, does not return, and has done
    nothing. -/
structure Bypasses (n : Nat) (x : Step) : Prop where
  call : x.after.call? n = x.before.call? n
  silent : ¬ x.Returns n
  idle : x.stimulus.actor = .caller (some n) → x.after = x.before

/-- What others do bypasses the call. -/
private theorem bypasses_of_actor (ha : s.actor ≠ .caller (some n)) : Bypasses n
    (l.step now s) where
  call := by
    -- Only its own caller changes the call.
    have hafter : (({ l with outbox := [] } : Listener).after now s).call? n = l.call? n := by
      apply after_of_moves (P := fun m => m.call? n = l.call? n) now s
      · rfl
      · exact fun hm h => (hm.call?_eq ha).trans h
      · intro hjob
        rw [call?, calls_of_desk (desk_after_job now hjob), call?]
    exact hafter
  silent := fun ⟨_, h⟩ => ha (actor_of_returned h)
  idle h := absurd h ha

/-- So does what does not fit. -/
private theorem bypasses_of_unfit (hl : l.outbox = [])
    (h : ({ l with outbox := [] } : Listener).after now s = { l with outbox := [] }) :
    Bypasses n (l.step now s) := by
  obtain ⟨heffects, hafter⟩ := step_of_unfit hl h
  refine ⟨congrArg (call? · n) hafter, fun ⟨r, hr⟩ => ?_, fun _ => hafter⟩
  rw [heffects] at hr
  cases hr

/-- The number of a call is not given to another one. -/
def Own (n : Nat) (s : Stimulus) : Prop := s.actor = .caller (some n) → s = .proceed n

/-- A call that is gone is bypassed by everything of its own. -/
private theorem bypasses_of_gone (hl : l.outbox = []) (hgone : l.call? n = none) (hown : Own n s) :
    Bypasses n (l.step now s) := by
  -- The call is over, so proceeding with it does nothing, and no other step is its own.
  by_cases ha : s.actor = .caller (some n)
  · obtain rfl := hown ha
    apply bypasses_of_unfit hl
    apply after_proceed_of_not
    intro c hc
    cases hgone.symm.trans hc
  · exact bypasses_of_actor ha

/-- A stop can go on when its poller is gone or its time is up. -/
private theorem canProceed_ofStop {u : Nat} :
    l.canProceed u (.ofStop n p t) ↔ l.isAlive p = false ∨ t ≤ u := by
  simp [canProceed, Call.ofStop]

/-! ## The step in which the stop returns -/

/-- What a stop does when it has waited long enough and goes on. -/
structure Concluding (n : Nat) (p : PollerId) (y : Step) : Prop where
  gone : y.after.call? n = none
  returns : ∀ r, .returned n r ∈ y.effects ↔ r = .ok ()
  lifecycle : y.after.lifecycle = y.before.lifecycle.finishStop p.queue p.epoch
  pollers : ∀ r, r ≠ p → y.after.poller? r = y.before.poller? r

/-- Then it returns. -/
private theorem concluding_of_proceed (hc : l.call? n = some (.ofStop n p t))
    (hgo : l.isAlive p = false ∨ t ≤ now) : Concluding n p (l.step now (.proceed n)) := by
  let l' : Listener := { l with outbox := [] }
  obtain ⟨ns, hproceed⟩ := proceed_of_poller (c := .ofStop n p t) rfl now l'
  rw [← after_proceed (l := l') hc (canProceed_ofStop.mpr hgo)] at hproceed
  -- No queue is left to be stopped, and the call returns.
  have hafter : l'.after now (.proceed n) = { l with
      calls := l.calls.filter (·.number ≠ n)
      pollers := (l.forgetBroken p).pollers
      lifecycle := l.lifecycle.finishStop p.queue p.epoch
      outbox := .returned n (.ok ()) :: (ns.map .report ++ []) } := by
    rw [hproceed]
    have hforget : (l'.forgetBroken p).pollers = (l.forgetBroken p).pollers := by
      unfold forgetBroken
      have halive : l'.isAlive p = l.isAlive p := rfl
      rw [halive]
      split <;> rfl
    rw [hforget]
    rfl
  constructor
  case gone =>
    show (l'.after now (.proceed n)).call? n = none
    rw [hafter]
    exact (call?_filter l n n).trans (if_pos rfl)
  case returns =>
    intro r
    have heffects : (l.step now (.proceed n)).effects =
        (l'.after now (.proceed n)).outbox.reverse := rfl
    rw [heffects, hafter, List.mem_reverse, List.mem_cons, List.append_nil]
    constructor
    · rintro (h | h)
      · exact (Effect.returned.inj h).2
      · obtain ⟨_, -, hnotice⟩ := List.mem_map.mp h
        cases hnotice
    · rintro rfl
      exact .inl rfl
  case lifecycle =>
    show (l'.after now (.proceed n)).lifecycle = _
    rw [hafter]
    rfl
  case pollers =>
    intro r hr
    show (l'.after now (.proceed n)).poller? r = _
    rw [hafter]
    exact poller?_forgetBroken_of_ne hr.symm l

/-- A stop that returns ends its own epoch and nothing else. -/
private theorem Concluding.leaves {y : Step} (h : Concluding n p y)
    (hs : Sequel p hist (y.before.lifecycle.standing? p.queue)) : y.Leaves p hist := by
  have hstanding : ∀ q, y.after.lifecycle.standing? q =
      if q = p.queue ∧ y.before.lifecycle.standing? p.queue = some ⟨.stopping, p.epoch⟩ then
        some ⟨.stopped, p.epoch⟩ else y.before.lifecycle.standing? q := by
    intro q
    rw [h.lifecycle, Lifecycle.standing?_finishStop]
  have hqueues : ∀ q, q ≠ p.queue →
      y.after.lifecycle.standing? q = y.before.lifecycle.standing? q := by
    intro q hq
    rw [hstanding, if_neg fun hcond => hq hcond.1]
  have hqueue := hstanding p.queue
  generalize hbefore : y.before.lifecycle.standing? p.queue = o at hs hqueue
  cases hs with
  | @halted st hepoch hstage hkept =>
    have hstarts : ¬ ∃ w ∈ hist, w.Starts p.queue := fun ⟨w, hw, hst⟩ => (hkept w hw).1 hst
    have hforgets : ¬ ∃ w ∈ hist, w.Forgets := fun ⟨w, hw, hf⟩ => (hkept w hw).2 hf
    refine ⟨fun _ => ?_, (absurd · hforgets), (absurd · hstarts), hqueues, h.pollers⟩
    -- The queue is stopping, unless it is stopped already.
    obtain ⟨stage, epoch⟩ := st
    obtain rfl : epoch = p.epoch := hepoch
    cases stage with
    | running => exact absurd rfl hstage
    | stopping => exact hqueue.trans (if_pos ⟨rfl, rfl⟩)
    | stopped => exact hqueue.trans (if_neg nofun)
  | @restarted st hlt hstarts hkept =>
    have hsame : y.after.lifecycle.standing? p.queue = some st := by
      rw [hqueue, if_neg]
      rintro ⟨-, hst⟩
      rw [Option.some.inj hst] at hlt
      exact Nat.lt_irrefl _ hlt
    have hforgets : ¬ ∃ w ∈ hist, w.Forgets := fun ⟨w, hw, hf⟩ => hkept w hw hf
    obtain ⟨w, hw, hst⟩ := hstarts
    refine ⟨fun hnone => absurd hst (hnone w hw).1, (absurd · hforgets),
      fun _ => ⟨hsame.trans hbefore.symm, fun s hs => ?_⟩, hqueues, h.pollers⟩
    obtain rfl := Option.some.inj (hsame.symm.trans hs)
    exact hlt
  | forgotten hforgets =>
    have hnone : y.after.lifecycle.standing? p.queue = none := by
      rw [hqueue, if_neg nofun]
    obtain ⟨w, hw, hf⟩ := hforgets
    refine ⟨fun hkept => absurd hf (hkept w hw).2, fun _ => hnone,
      fun _ => ⟨hnone.trans hbefore.symm, fun s hs => ?_⟩, hqueues, h.pollers⟩
    cases hnone.symm.trans hs

/-! ## How far the stop is -/

/-- How far a stop is that had to wait for a poller, given the steps since the call. -/
inductive Underway (n : Nat) (p : PollerId) (t : Nat) (hist : List Step) (l : Listener) : Prop
  | waiting (pending : l.call? n = some (.ofStop n p t)) (silent : ∀ w ∈ hist, ¬ w.Returns n)
    (sequel : Sequel p hist (l.lifecycle.standing? p.queue))
  | returned (gone : l.call? n = none) (h : ∃ w ∈ hist, w.Returns n)

/-- What a step after the call means for the stop: it returns now, or it waits on, or it has
    returned before. -/
inductive Outlook (n : Nat) (p : PollerId) (t : Nat) (hist : List Step) (y : Step) : Prop
  | concludes (silent : ∀ w ∈ hist, ¬ w.Returns n)
    (pending : y.before.call? n = some (.ofStop n p t))
    (sequel : Sequel p hist (y.before.lifecycle.standing? p.queue))
    (due : y.before.isAlive p = false ∨ t ≤ y.now) (h : Concluding n p y)
  | waits (silent : ∀ w ∈ hist, ¬ w.Returns n) (pending : y.before.call? n = some (.ofStop n p t))
    (early : y.stimulus = .proceed n → ¬ (y.before.isAlive p = false ∨ t ≤ y.now))
    (h : Bypasses n y)
  | past (returned : ∃ w ∈ hist, w.Returns n) (h : Bypasses n y)

/-- At each step the call has one of the three outlooks. -/
private theorem Underway.outlook (h : Underway n p t hist l) (hl : l.outbox = []) (hown : Own n s)
    (now : Nat) : Outlook n p t hist (l.step now s) := by
  cases h with
  -- Gone already, or waiting; if it waits, it is its own turn or somebody else's.
  | returned gone h => exact .past h (bypasses_of_gone hl gone hown)
  | waiting pending silent sequel =>
    by_cases ha : s.actor = .caller (some n)
    · obtain rfl := hown ha
      by_cases hgo : l.isAlive p = false ∨ t ≤ now
      · exact .concludes silent pending sequel hgo (concluding_of_proceed pending hgo)
      · refine .waits silent pending (fun _ => hgo) (bypasses_of_unfit hl ?_)
        apply after_proceed_of_not
        intro c hc
        obtain rfl := Option.some.inj (pending.symm.trans hc)
        exact Bool.eq_false_iff.mpr fun hcan => hgo ((canProceed_ofStop (n := n)).mp hcan)
    · refine .waits silent pending (fun hs => ?_) (bypasses_of_actor ha)
      have hproceed : s = .proceed n := hs
      rw [hproceed] at ha
      exact absurd rfl ha

/-- A step takes the call on as its outlook says. -/
theorem Underway.step (h : Underway n p t hist l) (hl : l.outbox = []) (hown : Own n s)
    (now : Nat) : Underway n p t (hist ++ [l.step now s]) (l.step now s).after := by
  -- Concluded now, waiting on, or past.
  have hlast : l.step now s ∈ hist ++ [l.step now s] :=
    List.mem_append_right _ List.mem_cons_self
  cases h.outlook hl hown now with
  | concludes _ _ _ _ hconcluding =>
    exact .returned hconcluding.gone ⟨_, hlast, .ok (), (hconcluding.returns _).mpr rfl⟩
  | waits silent pending _ hbypasses =>
    cases h with
    | waiting _ _ sequel =>
      exact .waiting (hbypasses.call.trans pending) (forall_mem_step silent hbypasses.silent)
        (sequel.step now s)
    | returned gone => cases gone.symm.trans pending
  | past returned hbypasses =>
    obtain ⟨w, hw, hreturns⟩ := returned
    cases h with
    | waiting _ silent => exact absurd hreturns (silent w hw)
    | returned gone =>
      exact .returned (hbypasses.call.trans gone) ⟨w, List.mem_append_left _ hw, hreturns⟩

/-- Wherever the steps after the call are cut, the stop is underway. -/
theorem Underway.run (h : Underway n p t [] l) (hl : l.outbox = [])
    (xs : List (Nat × Stimulus)) (hown : ∀ x ∈ xs, Own n x.2) :
    (l.run xs).outbox = [] ∧ Underway n p t (l.steps xs) (l.run xs) := by
  apply run_keeps_of_mem (P := fun hist m => m.outbox = [] ∧ Underway n p t hist m)
  · exact ⟨hl, h⟩
  · intro hist m x hx ⟨hm, h⟩
    exact ⟨rfl, h.step hm (hown x hx) x.1⟩

/-- At every later step the call has one of the three outlooks. -/
private theorem Underway.outlook_of_cut {ys : List (Nat × Stimulus)} {y : Step}
    {before rest : List Step}
    (h : Underway n p t [] l) (hl : l.outbox = []) (hown : ∀ u ∈ ys, Own n u.2)
    (hcut : l.steps ys = before ++ y :: rest) : Outlook n p t before y := by
  obtain ⟨zs, now, s, zs', rfl, rfl, rfl, -⟩ := exists_cut_of_steps hcut
  obtain ⟨houtbox, hrun⟩ := h.run hl zs fun u hu => hown u (List.mem_append_left _ hu)
  exact hrun.outlook houtbox (hown _ (List.mem_append_right _ List.mem_cons_self)) now

namespace Outlook

variable {y : Step}

/-- It returns only where it concludes. -/
private theorem of_returns (h : Outlook n p t hist y) (hy : y.Returns n) :
    Concluding n p y ∧ (y.before.isAlive p = false ∨ t ≤ y.now) ∧
      Sequel p hist (y.before.lifecycle.standing? p.queue) := by
  cases h with
  | concludes _ _ sequel due h => exact ⟨h, due, sequel⟩
  | waits _ _ _ h | past _ h => exact absurd hy h.silent

/-- Where it is due and has its turn, it returns. -/
private theorem returns_of_due (h : Outlook n p t hist y) (hsilent : ∀ w ∈ hist, ¬ w.Returns n)
    (hdue : y.before.isAlive p = false ∨ t ≤ y.now) (hs : y.stimulus = .proceed n) :
    y.Returns n := by
  -- What concludes returns, what waits is not due, and what is past has returned before.
  cases h with
  | concludes _ _ _ _ h => exact ⟨_, (h.returns _).mpr rfl⟩
  | waits _ _ early => exact absurd hdue (early hs)
  | past returned =>
    obtain ⟨w, hw, hreturns⟩ := returned
    exact absurd hreturns (hsilent w hw)

/-- Where it does not return, it is bypassed. -/
private theorem bypasses (h : Outlook n p t hist y) (hy : ¬ y.Returns n) : Bypasses n y := by
  cases h with
  | concludes _ _ _ _ h => exact absurd ⟨_, (h.returns _).mpr rfl⟩ hy
  | waits _ _ _ h | past _ h => exact h

/-- It does not return twice. -/
private theorem silent (h : Outlook n p t hist y) {w : Step} (hw : w ∈ hist)
    (hreturns : w.Returns n) : ¬ y.Returns n := by
  cases h with
  | concludes silent | waits silent => exact absurd hreturns (silent w hw)
  | past _ h => exact h.silent

/-- A stop that waits lets time pass only while the poller is alive, and not beyond the
    bound. -/
private theorem in_time {x : Step} (h : Outlook n p t hist y) (hsilent : ∀ w ∈ hist, ¬ w.Returns n)
    (hp : x.PromptAfter y) (hlt : x.now < y.now) : y.before.isAlive p ∧ y.now ≤ t := by
  have hpending : y.before.call? n = some (.ofStop n p t) := by
    cases h with
    | concludes _ pending | waits _ pending => exact pending
    | past returned =>
      obtain ⟨w, hw, hreturns⟩ := returned
      exact absurd hreturns (hsilent w hw)
  -- At no instant between the two steps was anything due.
  have hwaits : ∀ u < y.now, x.now ≤ u → ¬ (y.before.isAlive p = false ∨ t ≤ u) := by
    intro u hu hxu hgo
    have hdue : y.before.isDue u = true :=
      isDue_iff.mpr (.inl ⟨_, (List.mem_of_find?_key hpending).1, canProceed_ofStop.mpr hgo⟩)
    rw [hp.idle u hu hxu] at hdue
    cases hdue
  constructor
  · by_contra hdead
    exact hwaits x.now hlt (Nat.le_refl _) (.inl (Bool.eq_false_iff.mpr hdead))
  · by_contra hlate
    have hx := hwaits x.now hlt (Nat.le_refl _)
    exact hwaits t (Nat.lt_of_not_le hlate) (by omega) (.inr (Nat.le_refl t))

end Outlook

/-! ## The call -/

/-- A stop of a running queue signals its poller and waits. -/
private theorem after_stop_running {e : Nat} (hactive : l.active) (hknown : (l.station? q).isSome)
    (hrunning : l.lifecycle.standing? q = some ⟨.running, e⟩) (now n : Nat) :
    l.after now (.stop n q) =
      { ({ l with lifecycle := l.lifecycle.beginStop q } : Listener).signal ⟨q, e⟩ with
        calls := l.calls ++ [.ofStop n ⟨q, e⟩ (now + l.settings.stopTimeout)] } := by
  obtain ⟨st, hst⟩ := Option.isSome_iff_exists.mp hknown
  -- The queue runs, so its epoch is stopped and the call waits for its poller.
  have he := Lifecycle.runningEpoch?_eq_some.mpr hrunning
  unfold after stop
  dsimp only
  rw [if_neg (by simp [hactive]), if_neg (by simp [hst]), stopEach, he]
  rfl

/-- A stop of a queue that does not run returns at once. -/
private theorem after_stop_idle (hactive : l.active) (hknown : (l.station? q).isSome)
    (hidle : l.lifecycle.isRunning q = false) (now n : Nat) :
    l.after now (.stop n q) = l.emit (.returned n (.ok ())) := by
  obtain ⟨st, hst⟩ := Option.isSome_iff_exists.mp hknown
  -- The queue does not run, so there is no poller to wait for.
  have hnone : l.lifecycle.runningEpoch? q = none := by
    rw [Option.eq_none_iff_forall_ne_some]
    intro e he
    have hrunning := Lifecycle.isRunning_iff.mpr ⟨e, Lifecycle.runningEpoch?_eq_some.mp he⟩
    rw [hidle] at hrunning
    cases hrunning
  simp [after, stop, hactive, hst, stopEach, hnone, concludeStops, returnsOk]

/-- A stop of a queue not known fails at once. -/
private theorem after_stop_unknown (hactive : l.active) (hunknown : l.station? q = none)
    (now n : Nat) : l.after now (.stop n q) = l.emit (.returned n (.error (.notRegistered q))) := by
  simp [after, stop, hactive, hunknown]

/-- A stop has been called that has to wait for a poller. -/
structure Called (n : Nat) (p : PollerId) (x : Step) : Prop where
  pending : x.after.call? n = some (.ofStop n p x.stopBound)
  silent : ¬ x.Returns n
  lifecycle : ∀ q, x.after.lifecycle.standing? q =
    if q = p.queue then some ⟨.stopping, p.epoch⟩ else x.before.lifecycle.standing? q
  pollers : ∀ r, r ≠ p → x.after.poller? r = x.before.poller? r

/-- A stop of a running queue is called. -/
private theorem called_stop {e : Nat} (hactive : l.active) (hknown : (l.station? q).isSome)
    (hfresh : ∀ c ∈ l.calls, c.number ≠ n)
    (hrunning : l.lifecycle.standing? q = some ⟨.running, e⟩) (now : Nat) :
    Called n ⟨q, e⟩ (l.step now (.stop n q)) := by
  let l' : Listener := { l with outbox := [] }
  have hafter := after_stop_running (l := l') hactive hknown hrunning now n
  -- No pending call has the number, so the new one is found by it.
  constructor
  case pending =>
    have hnone : l.call? n = none := List.find?_eq_none.mpr (by simpa using hfresh)
    show (l'.after now (.stop n q)).call? n = _
    rw [hafter]
    refine (call?_append l _ n).trans ?_
    rw [hnone, Option.none_or]
    exact if_pos rfl
  case silent =>
    rintro ⟨r, hr⟩
    have hmem : .returned n r ∈ (l'.after now (.stop n q)).outbox := List.mem_reverse.mp hr
    rw [hafter] at hmem
    cases hmem
  case lifecycle =>
    intro j
    show (l'.after now (.stop n q)).lifecycle.standing? j = _
    rw [hafter]
    exact Lifecycle.standing?_beginStop (Lifecycle.runningEpoch?_eq_some.mpr hrunning) j
  case pollers =>
    intro r hr
    have hpollers : (l'.after now (.stop n q)).pollers = (l.signal ⟨q, e⟩).pollers := by
      rw [hafter]
      rfl
    show (l'.after now (.stop n q)).poller? r = l.poller? r
    rw [poller?, hpollers]
    exact poller?_signal_of_ne hr.symm l

/-- A call is under way from its own step on. -/
private theorem Called.underway {x : Step} (h : Called n p x) : Underway n p x.stopBound
    [] x.after := by
  refine .waiting h.pending (List.forall_mem_nil _) ?_
  rw [h.lifecycle, if_pos rfl]
  exact .halted rfl nofun (List.forall_mem_nil _)

/-- A stop that has to wait for a poller ends the epoch of the poller. -/
private theorem Called.endsEpoch {x : Step} (h : Called n p x) (hx : x.after.outbox = [])
    (ys : List (Nat × Stimulus)) (hown : ∀ y ∈ ys, Own n y.2) :
    EndsEpoch n p x (x.after.steps ys) := by
  -- Each clause is read off the outlook at the step that it is about.
  have houtlook : ∀ {before y rest}, x.after.steps ys = before ++ y :: rest →
      Outlook n p x.stopBound before y := h.underway.outlook_of_cut hx hown
  constructor
  case begins => rw [h.lifecycle, if_pos rfl]
  case queues =>
    intro q hq
    rw [h.lifecycle, if_neg hq]
  case pollers => exact h.pollers
  case waits => exact h.silent
  case in_time =>
    intro hp before y z rest hcut hlt hunreturned
    rw [hcut] at hp
    obtain ⟨before', hbefore, hlater⟩ := cut_cons hcut
    rw [hbefore] at hunreturned
    exact (houtlook hlater).in_time (fun w hw => hunreturned w (List.mem_cons_of_mem x hw))
      hp.of_append.head hlt
  case not_early =>
    intro y hy r hr
    obtain ⟨before, rest, hcut⟩ := List.append_of_mem hy
    obtain ⟨hconcluding, hdue, -⟩ := (houtlook hcut).of_returns ⟨r, hr⟩
    exact ⟨(hconcluding.returns r).mp hr, hdue⟩
  case goes_on =>
    intro before y rest hcut hunreturned hdue hgo
    exact (houtlook hcut).returns_of_due hunreturned hdue hgo
  case once =>
    intro before y rest hcut hreturns w hw hw'
    exact (houtlook hcut).silent hw hw' hreturns
  case idle =>
    intro y hy ha hunreturned
    obtain ⟨before, rest, hcut⟩ := List.append_of_mem hy
    exact ((houtlook hcut).bypasses hunreturned).idle ha
  case leaves =>
    intro before y rest hcut hreturns
    obtain ⟨hconcluding, -, hsequel⟩ := (houtlook hcut).of_returns hreturns
    exact hconcluding.leaves hsequel

/-- A stop of a queue is bounded and leaves the right state. -/
private theorem stopsQueue_of_active (hs : l.Sound) (hl : l.outbox = []) (hactive : l.active)
    (hfresh : ∀ c ∈ l.calls, c.number ≠ n) (now : Nat) (q : String) (ys : List (Nat × Stimulus))
    -- By what is known of the queue: nothing, no epoch running, or one that is.
    (hown : ∀ y ∈ ys, Own n y.2) :
    StopsQueue n q (l.step now (.stop n q)) ((l.step now (.stop n q)).after.steps ys) where
  unknown hunknown := by
    apply step_of_emit hl
    exact after_stop_unknown (l := { l with outbox := [] }) hactive hunknown now n
  idle hknown hidle := by
    apply step_of_emit hl
    exact after_stop_idle (l := { l with outbox := [] }) hactive hknown hidle now n
  running e hrunning := by
    have hstanding : l.lifecycle.standing? q = some ⟨.running, e⟩ := hrunning
    have hknown := isSome_station?.mpr (hs.standing_known q (hstanding ▸ rfl))
    exact (called_stop hactive hknown hfresh hstanding now).endsEpoch rfl ys hown

/-- In every run of every listener that was built and is active a stop takes no longer than it
    may, and when it returns its queue is stopped, unless it was started again or forgotten
    meanwhile; whatever else there is stays as it is. -/
theorem stopsQueue_run {σ : Type} (k : Lookup σ) (settings : ListenerSettings) (polling : Polling)
    (handler : String) (rs : List Registration) (s : σ) (xs : List (Nat × Stimulus)) (now n : Nat)
    (q : String) (hactive : ((build k settings polling handler rs s).1.run xs).active)
    (hfresh : ∀ c ∈ ((build k settings polling handler rs s).1.run xs).calls, c.number ≠ n)
    (ys : List (Nat × Stimulus))
    (hown : ∀ y ∈ ys, y.2.actor = .caller (some n) → y.2 = .proceed n) :
    let x := ((build k settings polling handler rs s).1.run xs).step now (.stop n q)
    StopsQueue n q x (x.after.steps ys) :=
  stopsQueue_of_active (sound_run (sound_build k settings polling handler rs s) xs)
    (outbox_run rfl xs) hactive hfresh now q ys hown

/-- A queue whose poller is in a receive call is stopped and started twice, and the first stop
    returns when the queue runs in its third epoch. -/
theorem stopsQueue_run_overlapping :
    let settings : ListenerSettings := { ListenerSettings.standard with stopTimeout := 2 }
    let b := (build Lookup.verbatim settings .bySlots "h" [⟨"q", .standard, none⟩] ()).1
    let l := b.run [(0, .start 0 "q"), (0, .goOn ⟨"q", 1⟩)]
    let x := l.step 1 (.stop 1 "q")
    let ys : List (Nat × Stimulus) := [(2, .start 2 "q"), (2, .goOn ⟨"q", 2⟩), (2, .stop 3 "q"),
      (2, .start 4 "q"), (2, .goOn ⟨"q", 3⟩), (3, .proceed 1), (4, .proceed 3)]
    l.active ∧ (∀ c ∈ l.calls, c.number ≠ 1) ∧
      (∀ y ∈ ys, y.2.actor = .caller (some 1) → y.2 = .proceed 1) ∧
      StopsQueue 1 "q" x (x.after.steps ys) := by
  have hown : ∀ y ∈ ([(2, .start 2 "q"), (2, .goOn ⟨"q", 2⟩), (2, .stop 3 "q"),
      (2, .start 4 "q"), (2, .goOn ⟨"q", 3⟩), (3, .proceed 1), (4, .proceed 3)] :
        -- The first stop is overtaken by two restarts and another stop.
        List (Nat × Stimulus)), y.2.actor = .caller (some 1) → y.2 = .proceed 1 := by
    simp [Stimulus.actor]
  exact ⟨rfl, by decide, hown, stopsQueue_run Lookup.verbatim _ .bySlots "h"
    [⟨"q", .standard, none⟩] () [(0, .start 0 "q"), (0, .goOn ⟨"q", 1⟩)] 1 1 "q" rfl (by decide)
    _ hown⟩

/-- Nobody dawdles in such a run, and the queue is running in its third epoch when both stops
    have returned. -/
example :
    let settings : ListenerSettings := { ListenerSettings.standard with stopTimeout := 2 }
    let b := (build Lookup.verbatim settings .bySlots "h" [⟨"q", .standard, none⟩] ()).1
    let x := (b.run [(0, .start 0 "q"), (0, .goOn ⟨"q", 1⟩)]).step 1 (.stop 1 "q")
    let ys : List (Nat × Stimulus) := [(2, .start 2 "q"), (2, .goOn ⟨"q", 2⟩), (2, .stop 3 "q"),
      (2, .start 4 "q"), (2, .goOn ⟨"q", 3⟩), (3, .proceed 1), (4, .proceed 3)]
    Prompt (x :: x.after.steps ys) ∧ (x.after.run ys).calls = [] ∧
      (x.after.run ys).lifecycle.standing? "q" = some ⟨.running, 3⟩ := by
  decide +kernel

end Listener

end Intake
