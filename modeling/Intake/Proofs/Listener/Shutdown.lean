import Intake.Proofs.Listener.Calls
import Intake.Proofs.Listener.Fate
import Intake.Proofs.Listener.Onward
import Intake.Proofs.Listener.WindDown

/-!
# A shutdown is final and does not take long

From a shutdown on queues are neither started nor stopped any more.  The shutdown returns
in time, and when it has returned no queue is known, no receive call is made and no message
is taken, whatever pollers still have out.  The work on messages that were taken before goes
on as if nothing had happened.

- `ShutsDown`: what follows from a shutdown for the steps after it
- `InHand.of_cut`: until it has returned a shutdown is in hand
- `InHand.concludes`: a shutdown returns in time
- `Over.react`: what a shutdown leaves stays as it is
- `shutsDown_run`: in every run the first shutdown is final
- `exists_shutdown_concludes`: it does return
-/

namespace Intake

/-- The instant by which a shutdown returns: each running queue has its time to stop, and then
    the workers have theirs. -/
def Step.shutdownBound (x : Step) : Nat :=
  x.now + x.before.names.countP x.before.lifecycle.isRunning * x.before.settings.stopTimeout +
    x.before.settings.drainTimeout

/-- The work on a message is over in a step, and its slot is free again. -/
structure Step.Settles (x : Step) (j : Job) : Prop where
  gone : x.after.job? j.number = none
  slot : ∀ k, x.before.freeSlots? j.queue = some k → x.after.freeSlots? j.queue = some (k + 1)

/-- What the first shutdown of a listener leads to in the steps after the one in which it is
    called. -/
structure ShutsDown (n : Nat) (x : Step) (later : List Step) : Prop where
  /-- Unless somebody dawdles the shutdown has returned before its time is over. -/
  in_time : Prompt (x :: later) → ∀ before y rest, later = before ++ y :: rest →
    x.shutdownBound < y.now → ∃ z ∈ before, z.Concludes n ∧ z.now ≤ x.shutdownBound
  /-- It goes on at most once for each queue that was running and once for the workers. -/
  begins : ∃ c, x.after.call? n = some c ∧
    c.stages ≤ x.before.names.countP x.before.lifecycle.isRunning + 1
  /-- Until it has returned it is pending.  When what it waits for is there, or the time for that is
      over, and it goes on, it returns or is nearer to its return, and nothing takes it back. -/
  goes_on : ∀ before y rest, later = before ++ y :: rest → (∀ z ∈ before, ¬ z.Concludes n) →
    ∃ c, y.before.call? n = some c ∧ (y.Concludes n ∨ ∃ c', y.after.call? n = some c' ∧
      c'.stages ≤ c.stages ∧ (c.IsServed y.now y.before → y.stimulus = .proceed n →
        c'.stages < c.stages))
  /-- Whoever wants to start or to stop queues is turned away, and nothing changes. -/
  refused : ∀ y ∈ later, ∀ m, y.stimulus.request? = some m →
    y.effects = [.returned m (.error .shutDown)] ∧ y.after = y.before
  /-- Another shutdown returns at once, and nothing changes. -/
  again : ∀ y ∈ later, ∀ m, y.stimulus = .shutdown m →
    y.effects = [.returned m (.ok ())] ∧ y.after = y.before
  /-- When it has returned no queue is known, and from then on no receive call is made, no
      message is taken and no queue gets known, whatever the pollers still have out. -/
  afterwards : ∀ before y rest, later = before ++ y :: rest → y.Concludes n →
    (∀ q, y.after.lifecycle.standing? q = none) ∧ ∀ z ∈ rest, z.receivers = [] ∧
      (∀ w ∈ z.passings, w.job? = none) ∧ z.after.accepted = y.after.accepted ∧
      ∀ q, z.after.lifecycle.standing? q = none
  /-- Nothing but the work itself changes the work on a message that was taken before. -/
  undisturbed : ∀ j ∈ x.before.jobs, ∀ before y rest, later = before ++ y :: rest →
    (∀ z ∈ before, z.stimulus.job? ≠ some j.number) → y.before.job? j.number = some j
  /-- When a handler ends its message is deleted if the policy of the queue says so, and
      settled at once if not. -/
  ends : ∀ y ∈ later, ∀ j ∈ y.before.jobs, j.phase = .handling → ∀ r,
    y.stimulus = .endJob j.number r → ∃ st, y.before.station? j.queue = some st ∧
      if st.source.deletes r then
        .delete j.number st.source.destination j.delivery.receipt ∈ y.effects ∧
          y.after.job? j.number = some { j with phase := .deleting }
      else y.Settles j
  /-- When the deletion has ended the message is settled. -/
  deleted : ∀ y ∈ later, ∀ j ∈ y.before.jobs, j.phase = .deleting → ∀ r,
    y.stimulus = .deleted j.number r → y.Settles j

/-- In a prompt run that goes on beyond its bound, a shutdown has returned. -/
private theorem ShutsDown.exists_concludes {n : Nat} {x : Step} {later : List Step}
    (h : ShutsDown n x later) (hp : Prompt (x :: later))
    (hlate : ∃ y ∈ later, x.shutdownBound < y.now) :
    ∃ z ∈ later, z.Concludes n ∧ z.now ≤ x.shutdownBound := by
  obtain ⟨y, hy, hlt⟩ := hlate
  obtain ⟨before, rest, rfl⟩ := List.append_of_mem hy
  obtain ⟨z, hz, hconcludes⟩ := h.in_time hp before y rest rfl hlt
  exact ⟨z, List.mem_append_left _ hz, hconcludes⟩

namespace Listener

variable {l : Listener} {now n : Nat} {s : Stimulus} {bound : Nat} {c : Call} {j : Job}

/-! ## After the shutdown -/

/-- Workers that turn everybody away do so for ever. -/
theorem closed_react (h : l.workers.closed) (now : Nat) (s : Stimulus) :
    (l.react now s).1.workers.closed := by
  apply workers_keeps (P := fun w => w.closed) _ (fun hclosed =>
    (Workers.closed_finish _).trans hclosed) h now
  intro w w' hshifted hclosed
  -- No way to change the workers opens them again.
  cases hshifted with
  | same | draining => exact hclosed
  | submitted p => exact (Workers.closed_submit _ p).trans hclosed
  | resumed => exact (Workers.closed_resume _ _).trans hclosed
  | closed => rfl

/-- What is over stays over. -/
theorem Over.react (h : l.Over) (now : Nat) (s : Stimulus) : (l.react now s).1.Over where
  unknown q := (onward_react l now s).unknown (h.unknown q)
  closed := closed_react h.closed now s

/-- Nobody is current then. -/
private theorem Over.isCurrent (h : l.Over) (p : PollerId) : l.isCurrent p = false := by
  rw [Bool.eq_false_iff]
  intro hc
  rw [isCurrent_iff, h.unknown] at hc
  cases hc

/-- When a shutdown is over no receive call is made. -/
theorem Over.receivers (h : l.Over) (hs : l.Sound) (now : Nat) (s : Stimulus) :
    (l.step now s).receivers = [] := by
  rw [List.eq_nil_iff_forall_not_mem]
  intro p hp
  -- Who makes a receive call is running, and here no queue is even known.
  obtain ⟨_, _, hask⟩ := asks_of_mem_receivers hs hp
  have hrunning : l.lifecycle.standing? p.queue = some ⟨.running, p.epoch⟩ := hask.running.1
  rw [h.unknown] at hrunning
  cases hrunning

/-- Once closed, the workers refuse a message handed on again. -/
private theorem fate_offerAgain_of_closed (h : l.workers.closed) (p : PollerId) (d : Delivery) :
    (l.offerAgain p d).1 = .refused := by
  unfold offerAgain
  simp [Workers.verdict, h]

/-- When a shutdown is over no message is taken. -/
private theorem Over.job?_eq_none (h : l.Over) {x : Passing} (hx : x ∈ (l.step now s).passings) :
    x.job? = none := by
  have hspec := passedBy_spec now s { l with outbox := [] }
  have hmem : x ∈ ({ l with outbox := [] } : Listener).passedBy now s := hx
  generalize ({ l with outbox := [] } : Listener).passedBy now s = ps at hspec hmem
  cases hspec with
  | nobody => cases hmem
  -- An answer is left, and so is what comes after the message that waited.
  | received hy =>
    exact job?_of_left (fate_of_mem_passings (.setPhase_ready hy) (h.isCurrent _) hmem)
  | @waited p y d ds hy =>
    have hw := AtWork.setPhase_ready hy
    have hpasses := passes_offerAgain hw d
    rcases List.mem_cons.mp hmem with rfl | hmem
    · have hclosed : (({ l with outbox := [] } : Listener).setPhase p .ready).workers.closed :=
        h.closed
      exact job?_of_refused (fate_offerAgain_of_closed hclosed p d)
    · exact job?_of_left (fate_of_mem_passings (hpasses.atWork hw)
        (hpasses.isCurrent.trans (h.isCurrent p)) hmem)

/-- Then no job is accepted. -/
private theorem Over.accepted_eq (h : l.Over) (hs : l.Sound) (now : Nat) (s : Stimulus) :
    (l.react now s).1.accepted = l.accepted := by
  have hreacts := reacts_react hs now s
  have hafter : (l.react now s).1.accepted =
      (({ l with outbox := [] } : Listener).after now s).accepted := rfl
  rw [hafter]
  cases hreacts with
  | handed hhanded =>
    -- Nothing passed becomes a job, and only passings count.
    have hnone : (({ l with outbox := [] } : Listener).passedBy now s).filterMap (·.job?) = [] := by
      rw [List.filterMap_eq_nil_iff]
      intro x hx
      exact h.job?_eq_none hx
    have haccepted := hhanded.grown.accepted
    rw [hnone] at haccepted
    exact haccepted
  | turned _ _ hturned => exact hturned.accepted

/-- Once a shutdown is over no step of a run takes a message. -/
theorem Over.run (h : l.Over) (hs : l.Sound) (xs : List (Nat × Stimulus)) :
    (l.run xs).Over ∧ (l.run xs).accepted = l.accepted := by
  have hrun : (l.run xs).Sound ∧ (l.run xs).Over ∧ (l.run xs).accepted = l.accepted := by
    -- Being over is kept only together with soundness.
    apply run_keeps (P := fun _ m => m.Sound ∧ m.Over ∧ m.accepted = l.accepted)
    · exact ⟨hs, h, rfl⟩
    · intro _ m now s ⟨hs, h, haccepted⟩
      exact ⟨hs.react now s, h.react now s, (h.accepted_eq hs now s).trans haccepted⟩
  exact hrun.2

/-- So at every later step. -/
private theorem Over.of_mem_steps (h : l.Over) (hs : l.Sound) {xs : List (Nat × Stimulus)}
    {z : Step} (hz : z ∈ l.steps xs) : z.receivers = [] ∧ (∀ w ∈ z.passings, w.job? = none) ∧
      z.after.accepted = l.accepted ∧ ∀ q, z.after.lifecycle.standing? q = none := by
  obtain ⟨ys, now, s, -, rfl, -⟩ := exists_run_of_mem_steps hz
  obtain ⟨hrun, haccepted⟩ := h.run hs ys
  have hsound := sound_run hs ys
  exact ⟨hrun.receivers hsound now s, fun w hw => hrun.job?_eq_none hw,
    (hrun.accepted_eq hsound now s).trans haccepted, (hrun.react now s).unknown⟩

/-! ## Until the shutdown returns -/

/-- A pending call lets no time pass after the instant for which it waits. -/
private theorem InHand.le_deadline {x y : Step} (h : InHand n c y.before)
    (hnow : x.now ≤ c.wait.deadline) (hp : x.PromptAfter y) : y.now ≤ c.wait.deadline := by
  -- Else the call would have been due at its deadline, while nothing was due between the steps.
  by_contra hlate
  have hidle := hp.idle c.wait.deadline (Nat.lt_of_not_le hlate) hnow
  have hmem : c ∈ y.before.calls := (List.mem_of_find?_key h.pending).1
  have hdue : y.before.isDue c.wait.deadline = true := by
    apply isDue_iff.mpr
    refine .inl ⟨c, hmem, ?_⟩
    unfold canProceed CallWait.deadline
    cases c.wait <;> simp
  rw [hidle] at hdue
  cases hdue

/-- In a prompt run a shutdown that is in hand returns in time. -/
theorem InHand.concludes {ys : List (Nat × Stimulus)} {x y : Step} {before rest : List Step}
    (h : InHand n c x.after) (hnow : x.now ≤ c.wait.deadline)
    (hlatest : c.latest x.after.settings ≤ bound) (hp : Prompt (x :: x.after.steps ys))
    (hcut : x.after.steps ys = before ++ y :: rest) (hlate : bound < y.now) :
    ∃ z ∈ before, z.Concludes n ∧ z.now ≤ bound := by
  -- Step by step the call stays in hand and is not late.
  induction ys generalizing x c before with
  | nil => simp [steps, noted] at hcut
  | cons u ys ih =>
    rw [steps_cons] at hp hcut
    have hdeadline : u.1 ≤ c.wait.deadline :=
      InHand.le_deadline (y := x.after.step u.1 u.2) h hnow hp.head
    have hbound : u.1 ≤ bound :=
      Nat.le_trans hdeadline (Nat.le_trans (c.deadline_le_latest _) hlatest)
    cases before with
    | nil =>
      obtain ⟨rfl, -⟩ := List.cons.inj hcut
      exact absurd hbound (Nat.not_le.mpr hlate)
    | cons z before =>
      obtain ⟨hz, hrest⟩ := List.cons.inj hcut
      subst hz
      rcases h.step u.1 u.2 with ⟨hconcludes, -⟩ | ⟨-, c', hc', -, -, hkept⟩
      · exact ⟨_, List.mem_cons_self, hconcludes, hbound⟩
      · obtain ⟨hnow', hlatest'⟩ := hkept hdeadline
        have hsettings : (x.after.step u.1 u.2).after.settings = x.after.settings :=
          settings_react x.after u.1 u.2
        obtain ⟨w, hw, hbefore⟩ := ih hc' hnow'
          (hsettings ▸ Nat.le_trans hlatest' hlatest) hp.tail hrest
        exact ⟨w, List.mem_cons_of_mem _ hw, hbefore⟩

/-- A shutdown is in hand or over in every state after it was called. -/
theorem inHand_or_over_run (h : InHand n c l) (xs : List (Nat × Stimulus)) :
    (∃ c, InHand n c (l.run xs)) ∨ (l.run xs).Over := by
  apply run_keeps (P := fun _ m => (∃ c, InHand n c m) ∨ m.Over)
  · exact .inl ⟨c, h⟩
  · -- The call is in hand, nearer to its return perhaps, until it returns and all is over.
    rintro _ m now s (⟨c, hm⟩ | hm)
    · rcases hm.step now s with ⟨-, hover⟩ | ⟨-, c', hc', -⟩
      · exact .inr hover
      · exact .inl ⟨c', hc'⟩
    · exact .inr (hm.react now s)

/-- Until it has returned a shutdown is in hand. -/
theorem InHand.of_cut (h : InHand n c l) {ys : List (Nat × Stimulus)} {y : Step}
    {before rest : List Step} (hcut : l.steps ys = before ++ y :: rest)
    (hnot : ∀ z ∈ before, ¬ z.Concludes n) :
    ∃ m now s c', y = m.step now s ∧ InHand n c' m := by
  obtain ⟨zs, now, s, -, -, rfl, rfl, -⟩ := exists_cut_of_steps hcut
  -- Along the steps before the cut, none of which returns it.
  have hrun : (∀ z ∈ l.steps zs, ¬ z.Concludes n) → ∃ c', InHand n c' (l.run zs) := by
    apply run_keeps (P := fun hist m => (∀ z ∈ hist, ¬ z.Concludes n) → ∃ c', InHand n c' m)
    · exact fun _ => ⟨c, h⟩
    · intro hist m now s hm hnot
      obtain ⟨hearly, hlast⟩ := List.forall_mem_append.mp hnot
      obtain ⟨c', hc'⟩ := hm hearly
      rcases hc'.step now s with ⟨hconcludes, -⟩ | ⟨-, c'', hc'', -⟩
      · exact absurd hconcludes (hlast _ List.mem_cons_self)
      · exact ⟨c'', hc''⟩
  obtain ⟨c', hc'⟩ := hrun hnot
  exact ⟨_, now, s, c', rfl, hc'⟩

/-- A shutdown in hand returns in a step or is still pending after it, no further from its return
    than before, and nearer if it could go on and has done so. -/
private theorem InHand.nears (h : InHand n c l) (now : Nat) (s : Stimulus) :
    (l.step now s).Concludes n ∨ ∃ c', (l.step now s).after.call? n = some c' ∧
      c'.stages ≤ c.stages ∧ (c.IsServed now l → s = .proceed n → c'.stages < c.stages) := by
  rcases h.step now s with ⟨hconcludes, -⟩ | ⟨-, c', hc', hle, hlt, -⟩
  · exact .inl hconcludes
  · exact .inr ⟨c', hc'.pending, hle, fun hserved hs => hlt hs (canProceed_iff.mpr hserved)⟩

/-- When a shutdown returns it is over. -/
private theorem over_of_concludes (h : (∃ c, InHand n c l) ∨ l.Over)
    (hx : (l.step now s).Concludes n) : (l.step now s).after.Over := by
  rcases h with ⟨c, h⟩ | h
  · rcases h.step now s with ⟨-, hover⟩ | ⟨hnot, -⟩
    · exact hover
    · exact absurd hx hnot
  · exact h.react now s

/-! ## Work that goes on -/

/-- What holds of the stimuli of all steps holds of those of the run. -/
private theorem forall_of_steps {P : Stimulus → Prop} {xs : List (Nat × Stimulus)}
    (h : ∀ x ∈ l.steps xs, P x.stimulus) : ∀ x ∈ xs, P x.2 := by
  induction xs generalizing l with
  | nil => simp
  | cons x xs ih =>
    rw [steps_cons, List.forall_mem_cons] at h
    exact List.forall_mem_cons.mpr ⟨h.1, ih h.2⟩

/-- The work on a message is found as it was until a stimulus is for it. -/
private theorem job?_of_cut (hs : l.Sound) (hj : j ∈ l.jobs) (hother : s.job? ≠ some j.number)
    {ys : List (Nat × Stimulus)} {before rest : List Step} {y : Step}
    (hcut : (l.step now s).after.steps ys = before ++ y :: rest)
    (hothers : ∀ z ∈ before, z.stimulus.job? ≠ some j.number) :
    y.before.job? j.number = some j := by
  -- Between the first step and the cut nobody worked on the job.
  obtain ⟨zs, now', s', zs', -, rfl, rfl, -⟩ := exists_cut_of_steps hcut
  have hlt := hs.number_lt j hj
  calc ((l.step now s).after.run zs).job? j.number
      = (l.step now s).after.job? j.number :=
        job?_run_of_ne (hs.react now s) (Nat.lt_of_lt_of_le hlt (accepted_le_react hs now s))
          (forall_of_steps (P := fun s => s.job? ≠ some j.number) hothers)
    _ = l.job? j.number := job?_react_of_ne hs hlt now hother
    _ = some j := job?_of_mem hs hj

/-- When a job is taken out in a step of the work on messages, its slot is free again. -/
private theorem settles_of_jobs (hs : l.Sound) (hb : l.Balance none) (hjob : s.job?.isSome)
    (hj : j ∈ l.jobs) (hjobs : (l.react now s).1.jobs = l.jobs.filter (·.number ≠ j.number)) :
    (l.step now s).Settles j where
  gone := by
    show (l.react now s).1.jobs.find? (·.number = j.number) = none
    rw [hjobs, List.find?_remove, if_pos rfl]
  slot k hk := by
    -- The one job that is taken out is of this queue.
    have hcount := List.countP_remove hs.numbers_nodup hj (fun i => decide (i.queue = j.queue))
    have hsettled : (l.step now s).settled j.queue = 1 := by
      show l.jobs.countP (·.queue = j.queue) -
        (l.react now s).1.jobs.countP (·.queue = j.queue) = 1
      rw [hjobs]
      simp only [decide_true, if_true] at hcount
      omega
    have hfree : (l.react now s).1.freeSlots? j.queue =
        some (k + (l.step now s).settled j.queue) := freeSlots?_react hs hb hjob hk
    rwa [hsettled] at hfree

/-- A message that is kept is settled when its handler ends. -/
private theorem jobs_endJob_of_kept {st : Station} {r : HandlerResult}
    (hst : l.station? j.queue = some st) (hr : st.source.deletes r = false) :
    (l.endJob j r).jobs = l.jobs.filter (·.number ≠ j.number) := by
  have hkept : st.source.options.policy.deletes r.outcome st.source.redrive = false := hr
  unfold endJob
  simp only [hst, hkept, Bool.false_eq_true, if_false]
  cases r.failure? <;> exact jobs_settle _ j

/-- The end of a deletion settles its job. -/
private theorem jobs_finishDelete (l : Listener) (j : Job) (r : Except BrokerError Unit) :
    (l.finishDelete j r).jobs = l.jobs.filter (·.number ≠ j.number) := by
  unfold finishDelete
  cases r <;> exact jobs_settle _ j

/-- A handler that is at work ends, and its message is deleted or settled. -/
theorem ends_step (hs : l.Sound) (hb : l.Balance none) (hj : j ∈ l.jobs)
    (hphase : j.phase = .handling) (now : Nat) (r : HandlerResult) :
    ∃ st, l.station? j.queue = some st ∧
      if st.source.deletes r then
        .delete j.number st.source.destination j.delivery.receipt ∈
          (l.step now (.endJob j.number r)).effects ∧
          (l.step now (.endJob j.number r)).after.job? j.number = some { j with phase := .deleting }
      else (l.step now (.endJob j.number r)).Settles j := by
  obtain ⟨st, hst⟩ := Option.isSome_iff_exists.mp (isSome_station?.mpr (hs.job_known j hj))
  have hjob : l.job? j.number = some j := job?_of_mem hs hj
  have hfound : ({ l with outbox := [] } : Listener).job? j.number = some j := hjob
  have hafter : ({ l with outbox := [] } : Listener).after now (.endJob j.number r) =
      ({ l with outbox := [] } : Listener).endJob j r := by
    simp [after, hfound, hphase]
  refine ⟨st, hst, ?_⟩
  -- The source decides whether the message is deleted.
  cases hr : st.source.deletes r with
  | true =>
    rw [if_pos rfl]
    obtain ⟨own, o, hturns, hturned⟩ :=
      turned_endJob (l := { l with outbox := [] }) hst hfound hphase r
    cases hturns with
    | deleting hst' _ _ =>
      obtain rfl := Option.some.inj (hst.symm.trans hst')
      rw [← hafter] at hturned
      obtain ⟨es, hout, -⟩ := hturned.outbox
      constructor
      · apply List.mem_reverse.mpr
        rw [hout]
        exact List.mem_cons_self
      · exact (hturned.job? j.number).trans (if_pos rfl)
    | kept hst' _ hkept =>
      obtain rfl := Option.some.inj (hst.symm.trans hst')
      rw [hr] at hkept
      cases hkept
  | false =>
    rw [if_neg Bool.false_ne_true]
    apply settles_of_jobs hs hb rfl hj
    show (({ l with outbox := [] } : Listener).after now (.endJob j.number r)).jobs = _
    rw [hafter]
    exact jobs_endJob_of_kept (l := { l with outbox := [] }) hst hr

/-- A deletion ends, and its message is settled. -/
theorem deleted_step (hs : l.Sound) (hb : l.Balance none) (hj : j ∈ l.jobs)
    (hphase : j.phase = .deleting) (now : Nat) (r : Except BrokerError Unit) :
    (l.step now (.deleted j.number r)).Settles j := by
  have hjob : l.job? j.number = some j := job?_of_mem hs hj
  have hfound : ({ l with outbox := [] } : Listener).job? j.number = some j := hjob
  apply settles_of_jobs hs hb rfl hj
  -- The broker's answer finds the job in deletion, so the job is settled.
  have hafter : ({ l with outbox := [] } : Listener).after now (.deleted j.number r) =
      ({ l with outbox := [] } : Listener).finishDelete j r := by
    simp [after, hfound, hphase]
  show (({ l with outbox := [] } : Listener).after now (.deleted j.number r)).jobs = _
  rw [hafter]
  exact jobs_finishDelete { l with outbox := [] } j r

/-! ## The first shutdown -/

/-- The first shutdown is in hand when it has been called. -/
private theorem inHand_shutdown (hs : l.Sound) (hnodup : l.lifecycle.queues.names.Nodup)
    (hactive : l.active) (hfresh : ∀ c ∈ l.calls, c.number ≠ n) (now : Nat) :
    ∃ c, InHand n c (l.step now (.shutdown n)).after ∧
      c.stages ≤ l.names.countP l.lifecycle.isRunning + 1 ∧ now ≤ c.wait.deadline ∧
      c.latest (l.step now (.shutdown n)).after.settings ≤
        (l.step now (.shutdown n)).shutdownBound := by
  let m : Listener := { l with active := false, outbox := [.report .shuttingDown] }
  have hafter : ({ l with outbox := [] } : Listener).after now (.shutdown n) =
      m.stopEach now n .shutdown l.lifecycle.running := by
    simp [after, shutdown, hactive, report, emit, m]
  have hnone : m.call? n = none := by
    apply List.find?_eq_none.mpr
    simpa using hfresh
  obtain ⟨c, hc, hstages, hnow, hlatest⟩ :=
    inHand_stopEach now l.lifecycle.running (m := m) rfl hnone
  -- No more queues are stopped than are running.
  have hlength := length_running_le hs hnodup
  refine ⟨c, ?_, Nat.le_trans hstages (Nat.succ_le_succ hlength), hnow, ?_⟩
  · rw [← hafter] at hc
    exact hc.cleared
  · have hrunning := Nat.mul_le_mul_right l.settings.stopTimeout hlength
    have hsettings : (l.step now (.shutdown n)).after.settings = l.settings :=
      settings_react l now (.shutdown n)
    have hbound : c.latest l.settings ≤ now + l.lifecycle.running.length * l.settings.stopTimeout +
      l.settings.drainTimeout := hlatest
    rw [hsettings]
    show _ ≤ now + l.names.countP l.lifecycle.isRunning * l.settings.stopTimeout +
      l.settings.drainTimeout
    omega

/-- A listener that has shut down stays so. -/
theorem inactive_run (h : l.active = false) (hout : l.outbox = []) (xs : List (Nat × Stimulus)) :
    (l.run xs).active = false ∧ (l.run xs).outbox = [] := by
  apply run_keeps (P := fun _ m => m.active = false ∧ m.outbox = [])
  · exact ⟨h, hout⟩
  · rintro _ m now s ⟨hm, -⟩
    exact ⟨inactive_react hm now s, rfl⟩

/-- The first shutdown of a listener is final. -/
private theorem shutsDown_of_active (hs : l.Sound) (hb : l.Balance none)
    (hnodup : l.lifecycle.queues.names.Nodup) (hactive : l.active)
    (hfresh : ∀ c ∈ l.calls, c.number ≠ n) (now : Nat) (ys : List (Nat × Stimulus)) :
    ShutsDown n (l.step now (.shutdown n)) ((l.step now (.shutdown n)).after.steps ys) := by
  obtain ⟨c, hc, hstages, hnow, hlatest⟩ := inHand_shutdown hs hnodup hactive hfresh now
  have hafter : (l.step now (.shutdown n)).after.Sound := hs.react now (.shutdown n)
  -- What holds of the states after the shutdown was called.
  have hsound := sound_run hafter
  have hbalance := balance_run hafter (hb.react hs now (.shutdown n))
  have hinactive := inactive_run hc.inactive (l := (l.step now (.shutdown n)).after) rfl
  constructor
  case in_time =>
    intro hp before y rest hcut hlate
    exact hc.concludes hnow hlatest hp hcut hlate
  case begins => exact ⟨c, hc.pending, hstages⟩
  case goes_on =>
    intro before y rest hcut hnot
    obtain ⟨m, now', s', c', rfl, hc'⟩ := hc.of_cut hcut hnot
    exact ⟨c', hc'.pending, hc'.nears now' s'⟩
  case refused =>
    intro y hy m hm
    obtain ⟨zs, now', s', -, rfl, -⟩ := exists_run_of_mem_steps hy
    exact step_of_emit (hinactive zs).2 (after_of_request (hinactive zs).1 hm)
  case again =>
    intro y hy m hm
    obtain ⟨zs, now', s', -, rfl, -⟩ := exists_run_of_mem_steps hy
    have hshutdown : s' = .shutdown m := hm
    subst hshutdown
    exact step_of_emit (hinactive zs).2 (after_shutdown (hinactive zs).1)
  case afterwards =>
    intro before y rest hcut hconcludes
    obtain ⟨zs, now', s', zs', -, -, rfl, rfl⟩ := exists_cut_of_steps hcut
    have hover := over_of_concludes (inHand_or_over_run hc zs) hconcludes
    exact ⟨hover.unknown, fun z hz => hover.of_mem_steps ((hsound zs).react now' s') hz⟩
  case undisturbed =>
    intro j hj before y rest hcut hothers
    exact job?_of_cut hs hj (s := .shutdown n) nofun hcut hothers
  case ends =>
    intro y hy j hj hphase r hr
    obtain ⟨zs, now', s', -, rfl, -⟩ := exists_run_of_mem_steps hy
    have hend : s' = .endJob j.number r := hr
    subst hend
    exact ends_step (hsound zs) (hbalance zs) hj hphase now' r
  case deleted =>
    intro y hy j hj hphase r hr
    obtain ⟨zs, now', s', -, rfl, -⟩ := exists_run_of_mem_steps hy
    have hdeleted : s' = .deleted j.number r := hr
    subst hdeleted
    exact deleted_step (hsound zs) (hbalance zs) hj hphase now' r

/-- In every run of every listener that was built the first shutdown is final: it returns in
    time, everybody is turned away from then on, and nothing is polled and no message is taken
    when it has returned, while the work on what was taken before goes on. -/
theorem shutsDown_run {σ : Type} (k : Lookup σ) (settings : ListenerSettings) (polling : Polling)
    (handler : String) (rs : List Registration) (s : σ) (xs : List (Nat × Stimulus)) (now n : Nat)
    (hactive : ((build k settings polling handler rs s).1.run xs).active)
    (hfresh : ∀ c ∈ ((build k settings polling handler rs s).1.run xs).calls, c.number ≠ n)
    (ys : List (Nat × Stimulus)) :
    let x := ((build k settings polling handler rs s).1.run xs).step now (.shutdown n)
    ShutsDown n x (x.after.steps ys) := by
  have hs := sound_build k settings polling handler rs s
  have hb := balance_build k settings polling handler rs s
  exact shutsDown_of_active (sound_run hs xs) (balance_run hs hb xs)
    (nodup_queues_run k settings polling handler rs s xs) hactive hfresh now ys

/-- A handler is at work longer than the workers have time, and the poller is in a receive call
    that returns a message when the shutdown is over.  Nobody dawdles, so the shutdown returns by
    the instant that is its bound. -/
theorem shutsDown_run_receiving :
    let settings : ListenerSettings :=
      { ListenerSettings.standard with stopTimeout := 2, drainTimeout := 3 }
    let b := (build Lookup.verbatim settings .bySlots "h" [⟨"q", .standard, none⟩] ()).1
    let d : Delivery := ⟨none, "r", "x", .empty, .empty⟩
    let l := b.run [(0, .start 0 "q"), (0, .goOn ⟨"q", 1⟩), (1, .answer ⟨"q", 1⟩ (.batch [d])),
      (1, .beginJob 0)]
    let x := l.step 2 (.shutdown 1)
    let later := x.after.steps [(4, .proceed 1), (7, .proceed 1),
      (8, .answer ⟨"q", 1⟩ (.batch [d])), (8, .goOn ⟨"q", 1⟩), (9, .endJob 0 .ok),
      (9, .deleted 0 (.ok ()))]
    l.active ∧ (∀ c ∈ l.calls, c.number ≠ 1) ∧ Prompt (x :: later) ∧ x.shutdownBound = 7 ∧
      ShutsDown 1 x later ∧ ∃ z ∈ later, z.Concludes 1 ∧ z.now ≤ 7 := by
  intro settings b d l x later
  have hprompt : Prompt (x :: later) := by decide +kernel
  have hshuts : ShutsDown 1 x later := shutsDown_run Lookup.verbatim settings .bySlots "h"
    [⟨"q", .standard, none⟩] () _ 2 1 rfl (by decide) _
  have hbound : x.shutdownBound = 7 := by decide +kernel
  have hlate : ∃ y ∈ later, x.shutdownBound < y.now := by decide +kernel
  -- The pending poller keeps it until 4, the handler that is still at work until 7.
  exact ⟨rfl, by decide, hprompt, hbound, hshuts, hbound ▸ hshuts.exists_concludes hprompt hlate⟩

/-- Pending calls keep their different numbers when a shutdown is called. -/
private theorem nodup_shutdown (hn : (l.calls.map (·.number)).Nodup) (hactive : l.active)
    (hfresh : ∀ c ∈ l.calls, c.number ≠ n) (now : Nat) :
    ((l.step now (.shutdown n)).after.calls.map (·.number)).Nodup := by
  let m : Listener := { l with active := false, outbox := [.report .shuttingDown] }
  have hcalls : (l.step now (.shutdown n)).after.calls =
      (m.stopEach now n .shutdown l.lifecycle.running).calls := by
    show (({ l with outbox := [] } : Listener).after now (.shutdown n)).calls = _
    simp [after, shutdown, hactive, report, emit, m]
  rw [hcalls]
  rcases calls_stopEach m now n .shutdown l.lifecycle.running with h | ⟨c, h, rfl, -⟩
  · exact h ▸ hn
  · -- The only call that comes is the shutdown itself.
    rw [h, List.map_append, List.map_singleton]
    refine List.nodup_append.mpr ⟨hn, List.nodup_singleton _, fun m hm m' hm' => ?_⟩
    obtain ⟨d, hd, rfl⟩ := List.mem_map.mp hm
    exact List.mem_singleton.mp hm' ▸ hfresh d hd

/-- The first shutdown of a listener that was built does return: the calls and the pollers go on
    promptly, and nobody else has to act, until it has returned in time. -/
theorem exists_shutdown_concludes {σ : Type} (k : Lookup σ) (settings : ListenerSettings)
    (hmin : 0 < settings.minSlotWait) (polling : Polling) (handler : String)
    (rs : List Registration) (s : σ) (xs : List (Nat × Stimulus)) (now n : Nat)
    (hactive : ((build k settings polling handler rs s).1.run xs).active)
    (hfresh : ∀ c ∈ ((build k settings polling handler rs s).1.run xs).calls, c.number ≠ n)
    (hn : (((build k settings polling handler rs s).1.run xs).calls.map (·.number)).Nodup) :
    let x := ((build k settings polling handler rs s).1.run xs).step now (.shutdown n)
    ∃ ys : List (Nat × Stimulus), (∀ y ∈ ys, y.2.isOwn) ∧ Prompt (x :: x.after.steps ys) ∧
      ∃ z ∈ x.after.steps ys, z.Concludes n ∧ z.now ≤ x.shutdownBound := by
  intro x
  -- The three hypotheses: sound, in balance, and a clock that runs past the bound.
  have hs := sound_run (sound_build k settings polling handler rs s) xs
  have hb := balance_run (sound_build k settings polling handler rs s)
    (balance_build k settings polling handler rs s) xs
  have hsettings : x.after.settings = settings :=
    (settings_react _ now _).trans (run_keeps (P := fun _ m => m.settings = settings) rfl
      (fun _ m now s hm => (settings_react m now s).trans hm) xs)
  have hbound : x.now ≤ x.shutdownBound :=
    Nat.le_add_right_of_le (Nat.le_add_right x.now _)
  -- A prompt run goes on beyond the bound, and by then the call has returned.
  obtain ⟨ys, hown, hprompt, hlate⟩ := Prompt.exists_later (x := x) (hs.react now _)
    (hsettings ▸ hmin) (nodup_shutdown hn hactive hfresh now) hbound
  have hshuts : ShutsDown n x (x.after.steps ys) := shutsDown_of_active hs hb
    (nodup_queues_run k settings polling handler rs s xs) hactive hfresh now ys
  exact ⟨ys, hown, hprompt, hshuts.exists_concludes hprompt hlate⟩

end Listener

end Intake
