import Intake.Proofs.Listener.Calls
import Intake.Proofs.Listener.View

/-!
# What is done for other queues

The pollers, the jobs and the calls of one queue do nothing that shows of another one, whatever
the broker answers, however the handlers end and whether there is a worker.

- `view_dispatch_of_ne`: a batch that is handed on shows of its own queue only
- `view_settle_of_ne`: a message that is settled gives a slot of its own queue back
- `view_proceed_of_ne`: a stop that goes on shows of its own queue only
-/

namespace Intake

/-- A notice of failure names its own queue. -/
@[simp] theorem Source.queue?_failureNotice (s : Source) (d : Delivery) (cause : HandlerError) :
    (s.failureNotice d cause).queue? = some s.name := by
  unfold failureNotice
  split <;> rfl

namespace Listener

variable {l l' : Listener} {q j : String} {own : Nat → Bool} {p : PollerId} {x : Job}

/-! ## Pollers -/

/-- A round of another queue does not show. -/
private theorem view_beginRound_of_ne (hp : p.queue ≠ q) (now : Nat) :
    (l.beginRound now p).view q own = l.view q own := by
  -- It retires, parks or receives, and all this is at its own queue.
  unfold beginRound
  split
  · exact view_retire_of_ne hp
  next s _ =>
    split
    · exact view_retire_of_ne hp
    · split
      · exact view_park_of_ne hp _
      · have he : Effect.event? q own (.receive p s.slots.free
            (l.polling s.source s.slots.free)) = none := if_neg hp
        rw [view_emit_of_none he, view_setPhase_of_ne hp]

/-- Turning a message away there does not show. -/
private theorem view_turnAway_of_ne (hj : j ≠ q) : (l.turnAway j).view q own = l.view q own := by
  have hn : (Notice.turnedAway j).queue? ≠ some q := fun he => hj (Option.some.inj he)
  rw [turnAway, view_report_of_ne hn, view_releaseSlot_of_ne hj]

/-- Nor does taking a slot there. -/
private theorem view_takeSlot?_of_ne {m : Listener} (hj : j ≠ q) (hm : l.takeSlot? j = some m) :
    m.view q own = l.view q own := by
  obtain ⟨_, -, -, rfl⟩ := takeSlot?_eq_some_iff.mp hm
  exact view_updateSlots_of_ne hj _

/-- Nor does an offer there. -/
private theorem Offered.view_of_ne {d : Delivery} {o : Option Fate} (h : Offered l p d o l')
    (hp : p.queue ≠ q) : l'.view q own = l.view q own := by
  cases h with
  | noSlot =>
    -- What is reported is of the queue of the poller.
    have hn : (Notice.surplus p.queue d.id).queue? ≠ some q := fun he => hp (Option.some.inj he)
    exact view_report_of_ne hn
  | outdated hm => rw [view_releaseSlot_of_ne hp, view_takeSlot?_of_ne hp hm]
  | taken hm => exact (view_addJob_of_ne hp d).trans (view_takeSlot?_of_ne hp hm :)
  | refused hm => exact (view_turnAway_of_ne hp).trans (view_takeSlot?_of_ne hp hm :)
  | queued hm => exact (view_takeSlot?_of_ne hp hm :)

/-- Nor does handing one on again. -/
private theorem view_offerAgain_of_ne (hp : p.queue ≠ q) (d : Delivery) :
    (l.offerAgain p d).2.view q own = l.view q own := by
  unfold offerAgain
  dsimp only
  split
  · exact view_addJob_of_ne hp d
  · exact view_turnAway_of_ne hp

/-- Nor does handing on what was received. -/
theorem view_dispatch_of_ne (hp : p.queue ≠ q) (now : Nat) (ds : List Delivery) :
    (l.dispatch now p ds).view q own = l.view q own := by
  induction ds generalizing l with
  | nil => exact view_beginRound_of_ne hp now
  | cons d ds ih =>
    have hoffered : (l.offer p d).2.view q own = l.view q own := (offered l p d).view_of_ne hp
    -- A poller that has to wait for a worker ends its round there.
    cases hf : (l.offer p d).1 with
    | none => rw [dispatch_cons_of_none now hf, view_setPhase_of_ne hp, hoffered]
    | some f => rw [dispatch_cons_of_some now hf, ih, hoffered]

/-- Nor does taking an answer. -/
theorem view_takeAnswer_of_ne (hp : p.queue ≠ q) (now since : Nat) (a : Answer) :
    (l.takeAnswer now since p a).view q own = l.view q own := by
  -- By the answer: nothing of it is about the queue looked at.
  unfold takeAnswer
  split
  · exact view_setPhase_of_ne hp _
  next cause =>
    have hn : (Notice.receiveFailed p.queue cause l.settings.backoff).queue? ≠ some q :=
      fun he => hp (Option.some.inj he)
    rw [view_park_of_ne hp, view_report_of_ne hn]
  · dsimp only
    split
    · rfl
    · exact view_park_of_ne hp _
  · exact view_dispatch_of_ne hp now _

/-- Nor does going on. -/
theorem view_goOn_of_ne {x : Poller} (hx : x.id.queue ≠ q) (now : Nat) :
    (l.goOn now x).view q own = l.view q own := by
  -- By the phase.
  unfold goOn
  split
  · split
    next s _ =>
      have hn : (Notice.pollerStarted x.id.queue s.source.options.batch
          s.source.options.policy).queue? ≠ some q := fun he => hx (Option.some.inj he)
      rw [view_beginRound_of_ne hx, view_report_of_ne hn]
    · exact view_retire_of_ne hx
  · exact view_beginRound_of_ne hx now
  · exact view_beginRound_of_ne hx now
  · exact view_beginRound_of_ne hx now
  · rw [resumeSubmit, view_dispatch_of_ne hx, view_offerAgain_of_ne hx]
  · rfl
  · rfl

/-! ## Jobs -/

section Jobs

/-- The jobs of a queue have other numbers than a job of another queue. -/
theorem not_mem_numbers_jobsOf (h : (l.jobs.map (·.number)).Nodup) (hx : x ∈ l.jobs)
    (hq : x.queue ≠ q) : x.number ∉ (l.jobsOf q).map (·.number) := by
  intro hmem
  obtain ⟨y, hy, hnumber⟩ := List.mem_map.mp hmem
  obtain ⟨hy, hyq⟩ := List.mem_filter.mp hy
  have he : y = x := List.eq_of_key_eq Job.number h hy hx hnumber
  exact hq (by simpa [he] using hyq)

variable (hx : x.queue ≠ q) (hn : x.number ∉ (l.jobsOf q).map (·.number))
include hn

/-- A job of another queue that begins does not show. -/
theorem view_beginJob_of_ne (ho : own x.number = false) :
    (l.beginJob x).view q own = l.view q own := by
  unfold beginJob
  split
  · rfl
  · rw [view_emit_of_none (by simp [Effect.event?, ho]), view_setJobPhase_of_ne hn]

include hx

/-- Nor does settling it. -/
theorem view_settle_of_ne : (l.settle x).view q own = l.view q own :=
  (view_releaseSlot_of_ne hx).trans (view_removeJob_of_ne hn)

/-- Nor does its end. -/
theorem view_endJob_of_ne (ho : own x.number = false) (r : HandlerResult) :
    (l.endJob x r).view q own = l.view q own := by
  have hdelete : ∀ dest receipt, Effect.event? q own (.delete x.number dest receipt) = none := by
    simp [Effect.event?, ho]
  unfold endJob
  split
  · rfl
  next s hs =>
    have hnotice : ∀ cause, (s.source.failureNotice x.delivery cause).queue? ≠ some q := by
      intro cause
      rw [s.source.queue?_failureNotice, (station?_eq_some hs).2]
      simpa using hx
    dsimp only
    -- A notice about a failure comes before what is wanted for the job.
    cases r.failure? with
    | none =>
      split
      · rw [view_emit_of_none (hdelete ..), view_setJobPhase_of_ne hn]
      · exact view_settle_of_ne hx hn
    | some cause =>
      split
      · rw [view_emit_of_none (hdelete ..), view_setJobPhase_of_ne (l := l.report _) hn,
          view_report_of_ne (hnotice cause)]
      · rw [view_settle_of_ne (l := l.report _) hx hn, view_report_of_ne (hnotice cause)]

/-- Nor does the end of its deletion. -/
theorem view_finishDelete_of_ne (r : Except BrokerError Unit) :
    (l.finishDelete x r).view q own = l.view q own := by
  unfold finishDelete
  cases r with
  | ok => exact view_settle_of_ne hx hn
  | error cause =>
    have hnotice : (Notice.deleteFailed x.queue (x.delivery.id.getD "") cause).queue? ≠ some q :=
      fun he => hx (Option.some.inj he)
    exact (view_settle_of_ne (l := l.report _) hx hn).trans (view_report_of_ne hnotice)

end Jobs

/-! ## Calls -/

section Calls

variable {c : Call} {now call : Nat}

/-- Starting another queue does not show. -/
theorem view_startQueue_of_ne (hj : j ≠ q) : (l.startQueue j).view q own = l.view q own := by
  have hn : (Notice.queueStarted j).queue? ≠ some q := fun he => hj (Option.some.inj he)
  unfold startQueue
  split
  · rfl
  next e he =>
    -- The new poller and the new epoch are of the other queue.
    have hadded : view q own { l with pollers := l.pollers ++ [⟨⟨j, e⟩, .fresh, false⟩] } =
        l.view q own := view_addPoller_of_ne hj
    have hlife : (l.lifecycle.beginStart j).standing? q = l.lifecycle.standing? q := by
      rw [Lifecycle.standing?_beginStart he, if_neg (Ne.symm hj)]
    rw [view_report_of_ne hn]
    rw [← hadded]
    exact view_setLifecycle_of_eq
      (l := { l with pollers := l.pollers ++ [⟨⟨j, e⟩, .fresh, false⟩] }) hlife

/-- Stopping other queues does not show. -/
theorem view_stopEach_of_not_mem {qs : List String} (hq : q ∉ qs) :
    (l.stopEach now call .stop qs).view q own = l.view q own := by
  have hstops := stops_stopEach now call .stop l qs
  generalize l.stopEach now call .stop qs = l' at hstops
  cases hstops with
  | concluded => exact view_returned l call _
  -- The queue that is waited for is another one.
  | @stopping before j rest e _ he =>
    have hj : j ≠ q := fun h => hq (h ▸ List.mem_append_right _ List.mem_cons_self)
    have hlife : (l.lifecycle.beginStop j).standing? q = l.lifecycle.standing? q := by
      rw [Lifecycle.standing?_beginStop he, if_neg (Ne.symm hj)]
    refine (view_addCall_of_not (l := signal { l with lifecycle := _ } _) ?_).trans ?_
    · simpa [Call.isFor] using hj
    · rw [view_signal_of_ne hj, view_setLifecycle_of_eq hlife]

/-- Reports on other queues do not show. -/
private theorem view_foldl_report_of_ne {ns : List Notice} (hns : ∀ n ∈ ns, n.queue? ≠ some q) :
    (ns.foldl (fun l n => l.report n) l).view q own = l.view q own := by
  induction ns generalizing l with
  | nil => rfl
  | cons n ns ih =>
    obtain ⟨hn, hrest⟩ := List.forall_mem_cons.mp hns
    rw [List.foldl_cons, ih hrest, view_report_of_ne hn]

/-- Whoever has waited for a poller speaks of its queue. -/
private theorem queue?_of_mem_stopNotices {n : Notice} (hn : n ∈ l.stopNotices p) :
    n.queue? = some p.queue := by
  unfold stopNotices at hn
  split at hn
  · cases hn
  · split at hn <;> rw [List.mem_singleton.mp hn] <;> rfl

/-- Forgetting a broken poller of another queue does not show. -/
private theorem view_forgetBroken_of_ne (hp : p.queue ≠ q) :
    (l.forgetBroken p).view q own = l.view q own := by
  unfold forgetBroken
  split
  · rfl
  · exact view_removePoller_of_ne hp

/-- A stop of another queue that goes on does not show. -/
theorem view_proceed_of_ne {t : Nat} (hw : c.wait = .poller p t) (hp : p.queue ≠ q)
    (hgoal : c.goal = .stop) (hrest : q ∉ c.rest) (hn : c.number ∉ (l.callsOf q).map (·.number)) :
    (l.proceed now c).view q own = l.view q own := by
  have hstopped : (Notice.queueStopped p.queue).queue? ≠ some q := fun he => hp (Option.some.inj he)
  have hnotices : ∀ m : Listener, ∀ n ∈ m.stopNotices p, n.queue? ≠ some q := by
    intro m n hn he
    exact hp (Option.some.inj ((queue?_of_mem_stopNotices hn).symm.trans he))
  have hlife : ∀ life : Lifecycle,
      (life.finishStop p.queue p.epoch).standing? q = life.standing? q := by
    intro life
    rw [Lifecycle.standing?_finishStop, if_neg fun h => hp h.1.symm]
  -- The notices, the poller forgotten and the standing are all of the other queue.
  unfold proceed
  rw [hw, hgoal]
  dsimp only
  rw [view_stopEach_of_not_mem hrest, view_report_of_ne hstopped, view_setLifecycle_of_eq (hlife _),
    view_forgetBroken_of_ne hp, view_foldl_report_of_ne (hnotices _), view_removeCall_of_ne hn]

end Calls

end Listener

end Intake
