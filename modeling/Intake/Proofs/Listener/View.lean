import Intake.Proofs.Listener.Sound

/-!
# What one queue shows

A `View` holds what belongs to one queue of a listener: its station and its standing, its
pollers, the messages at work, the calls that wait for it, and what the listener wants done
about it.  Pollers, jobs and calls of other queues do not show, nor do the numbers of jobs and
calls, which all queues share.

The lemmas say what each small operation on a listener does to the view of a queue.  An
operation on another queue does nothing to it.

- `View`: what belongs to one queue
- `Listener.view`: what belongs to a queue of a listener
- `Listener.view_emit`: what is wanted for a queue shows
- `Listener.view_setJobPhase`, `Listener.view_removeJob`: a job is known by its place
-/

namespace Intake

/-- The queue that a notice is about. -/
def Notice.queue? : Notice → Option String
  | repeated q | emptyBatch q | unresolved q _ | queueStarted q | queueStopped q
  | pollerStarted q _ _ | pollerStopped q | receiveFailed q _ _ | surplus q _ | turnedAway q
  | keptAfterFailure q _ _ | handlerFailed q _ _ _ | deleteFailed q _ _ | stopTimedOut q _
  | pollerBroken q _ | queueCreated q _ => some q
  | ready _ _ _ | shuttingDown | workersDone _ | workersCutOff _ _ | shutDown
  | noReceipt _ _ => none

/-- What a listener wants done about one queue. -/
inductive QueueEvent
  | report (n : Notice)
  | receive (epoch free : Nat) (request : ReceiveRequest)
  | invoke (handler : String) (letter : Letter)
  | delete (destination receipt : String)
deriving DecidableEq

/-- What an effect means for a queue of which the jobs are known by their numbers. -/
def Effect.event? (q : String) (own : Nat → Bool) : Effect → Option QueueEvent
  | .report n => if n.queue? = some q then some (.report n) else none
  | .receive p free request => if p.queue = q then some (.receive p.epoch free request) else none
  | .invoke n handler letter => if own n then some (.invoke handler letter) else none
  | .delete n dest receipt => if own n then some (.delete dest receipt) else none
  | .returned _ _ => none

/-- What belongs to one queue of a listener. -/
structure View where
  settings : ListenerSettings
  polling : Polling
  station : Option Station
  standing : Option Standing
  pollers : List Poller
  /-- The messages at work, in the order in which they were taken. -/
  jobs : List (Delivery × JobPhase)
  /-- What the calls that wait for a poller of the queue wait for. -/
  waits : List CallWait
  /-- What is wanted done about the queue, newest first. -/
  events : List QueueEvent

/-- What a job is about, without its number. -/
def Job.work (j : Job) : Delivery × JobPhase := (j.delivery, j.phase)

/-- Whether a call waits for a poller of a queue. -/
def Call.isFor (q : String) (c : Call) : Bool :=
  match c.wait with
  | .poller p _ => p.queue = q
  | .workers _ _ => false

namespace Listener

variable {l l' : Listener} {q j : String} {own own' : Nat → Bool} {p : PollerId}
  {f : Poller → Poller} {e : Effect} {n : Nat}

/-- The pollers of a queue. -/
def pollersOf (l : Listener) (q : String) : List Poller := l.pollers.filter (·.id.queue = q)

/-- The jobs of a queue. -/
def jobsOf (l : Listener) (q : String) : List Job := l.jobs.filter (·.queue = q)

/-- The calls that wait for a poller of a queue. -/
def callsOf (l : Listener) (q : String) : List Call := l.calls.filter (·.isFor q)

/-- What belongs to a queue. -/
def view (q : String) (own : Nat → Bool) (l : Listener) : View where
  settings := l.settings
  polling := l.polling
  station := l.station? q
  standing := l.lifecycle.standing? q
  pollers := l.pollersOf q
  jobs := (l.jobsOf q).map Job.work
  waits := (l.callsOf q).map (·.wait)
  events := l.outbox.filterMap (·.event? q own)

/-! ## Effects -/

/-- An effect shows if it is an event of the queue. -/
theorem view_emit (l : Listener) (e : Effect) : (l.emit e).view q own =
    { l.view q own with events := (e.event? q own).toList ++ (l.view q own).events } := by
  simp only [view, emit, List.filterMap_cons]
  cases e.event? q own <;> rfl

/-- An effect that is none does not show. -/
theorem view_emit_of_none (he : e.event? q own = none) : (l.emit e).view q own = l.view q own := by
  rw [view_emit, he]
  rfl

/-- What is said about another queue does not show. -/
theorem view_report_of_ne {n : Notice} (hn : n.queue? ≠ some q) :
    (l.report n).view q own = l.view q own :=
  view_emit_of_none (if_neg hn)

/-- Returns do not show. -/
@[simp] theorem view_returned (l : Listener) (call : Nat) (r : Except ListenerError Unit) :
    (l.emit (.returned call r)).view q own = l.view q own := view_emit_of_none rfl

/-! ## Pollers -/

/-- Of the pollers those of the queue show. -/
private theorem view_setPollers (l : Listener) (xs : List Poller) :
    ({ l with pollers := xs } : Listener).view q own =
      { l.view q own with pollers := xs.filter (·.id.queue = q) } := rfl

/-- If the pollers of a queue stay, nothing shows. -/
private theorem view_setPollers_of_eq {xs : List Poller}
    (h : xs.filter (·.id.queue = q) = l.pollersOf q) :
    ({ l with pollers := xs } : Listener).view q own = l.view q own := by
  rw [view_setPollers, h]
  rfl

/-- Changing pollers and choosing those of a queue commute. -/
private theorem filter_map_pollers (hf : ∀ x, (f x).id = x.id) (xs : List Poller) :
    (xs.map f).filter (·.id.queue = q) = (xs.filter (·.id.queue = q)).map f := by
  rw [List.filter_map]
  congr 2
  funext x
  simp only [Function.comp_apply, hf]

/-- These belong to the queue. -/
private theorem queue_of_mem_pollersOf {x : Poller} (hx : x ∈ l.pollersOf q) : x.id.queue = q := by
  simpa using (List.mem_filter.mp hx).2

/-- A change of all pollers shows in those of the queue. -/
theorem view_mapPollers (l : Listener) (hf : ∀ x, (f x).id = x.id) :
    ({ l with pollers := l.pollers.map f } : Listener).view q own =
      { l.view q own with pollers := (l.view q own).pollers.map f } := by
  rw [view_setPollers, filter_map_pollers hf]
  rfl

/-- What happens to pollers of other queues does not show. -/
private theorem view_mapPollers_of_ne (hf : ∀ x, (f x).id = x.id)
    (hne : ∀ x, x.id.queue = q → f x = x) :
    ({ l with pollers := l.pollers.map f } : Listener).view q own = l.view q own := by
  refine view_setPollers_of_eq ?_
  rw [filter_map_pollers hf]
  exact (List.map_congr_left fun x hx => hne x (queue_of_mem_pollersOf hx)).trans (List.map_id _)

/-- So does a change of one. -/
theorem view_updatePoller (l : Listener) (p : PollerId) (hf : ∀ x, (f x).id = x.id) :
    (l.updatePoller p f).view q own = { l.view q own with
      pollers := (l.view q own).pollers.map fun x => if x.id = p then f x else x } := by
  refine view_mapPollers l fun x => ?_
  split
  · exact hf x
  · rfl

/-- A change of a poller of another queue does not show. -/
private theorem view_updatePoller_of_ne (hp : p.queue ≠ q) (hf : ∀ x, (f x).id = x.id) :
    (l.updatePoller p f).view q own = l.view q own := by
  refine view_mapPollers_of_ne (fun x => ?_) fun x hx => ?_
  · split
    · exact hf x
    · rfl
  · -- The poller that is changed is of another queue.
    have hne : x.id ≠ p := fun he => hp (he ▸ hx)
    exact if_neg hne

/-- Nor does setting its phase. -/
theorem view_setPhase_of_ne (hp : p.queue ≠ q) (ph : Phase) :
    (l.setPhase p ph).view q own = l.view q own :=
  view_updatePoller_of_ne hp fun _ => rfl

/-- Nor does parking it. -/
theorem view_park_of_ne (hp : p.queue ≠ q) (ph : Phase) :
    (l.park p ph).view q own = l.view q own :=
  view_updatePoller_of_ne hp fun x => by split <;> rfl

/-- Nor does signalling it. -/
theorem view_signal_of_ne (hp : p.queue ≠ q) : (l.signal p).view q own = l.view q own :=
  view_updatePoller_of_ne hp fun x => by split <;> rfl

/-- A new poller of the queue shows. -/
theorem view_addPoller (l : Listener) {x : Poller} (hx : x.id.queue = q) :
    ({ l with pollers := l.pollers ++ [x] } : Listener).view q own =
      { l.view q own with pollers := (l.view q own).pollers ++ [x] } := by
  rw [view_setPollers, List.filter_append, List.filter_cons_of_pos (by simpa using hx)]
  rfl

/-- One of another queue does not. -/
theorem view_addPoller_of_ne {x : Poller} (hx : x.id.queue ≠ q) :
    ({ l with pollers := l.pollers ++ [x] } : Listener).view q own = l.view q own := by
  refine view_setPollers_of_eq ?_
  rw [List.filter_append, List.filter_cons_of_neg (by simpa using hx), List.filter_nil,
    List.append_nil]
  rfl

/-- A poller taken away is taken from those of the queue. -/
theorem view_removePoller (l : Listener) (p : PollerId) :
    ({ l with pollers := l.pollers.filter (·.id ≠ p) } : Listener).view q own =
      { l.view q own with pollers := (l.view q own).pollers.filter (·.id ≠ p) } := by
  rw [view_setPollers, List.filter_comm]
  rfl

/-- One of another queue does not show. -/
theorem view_removePoller_of_ne (hp : p.queue ≠ q) :
    ({ l with pollers := l.pollers.filter (·.id ≠ p) } : Listener).view q own = l.view q own := by
  refine view_setPollers_of_eq ?_
  rw [List.filter_comm]
  refine List.filter_eq_self.mpr fun x hx => ?_
  have hne : x.id ≠ p := fun he => hp (he ▸ queue_of_mem_pollersOf hx)
  simpa using hne

/-- Nor does one of another queue that retires. -/
theorem view_retire_of_ne (hp : p.queue ≠ q) : (l.retire p).view q own = l.view q own := by
  have hn : (Notice.pollerStopped p.queue).queue? ≠ some q := fun he => hp (Option.some.inj he)
  rw [retire, view_report_of_ne hn, view_removePoller_of_ne hp]

/-- A poller is found among those of its queue. -/
theorem poller?_eq_find?_pollersOf (hp : p.queue = q) :
    l.poller? p = (l.pollersOf q).find? (·.id = p) := by
  rw [poller?, pollersOf, List.find?_filter]
  congr 1
  funext x
  by_cases hx : x.id = p
  · simp [hx, hp]
  · simp [hx]

/-! ## Slots -/

/-- The slots of the queue show. -/
theorem view_updateSlots (l : Listener) (f : Slots → Slots) :
    (l.updateSlots q f).view q own = { l.view q own with
      station := (l.view q own).station.map fun s => { s with slots := f s.slots } } := by
  have hstation := station?_updateSlots l q q f
  simp only [if_true] at hstation
  simp only [view, hstation]
  rfl

/-- Those of other queues do not. -/
theorem view_updateSlots_of_ne (hj : j ≠ q) (f : Slots → Slots) :
    (l.updateSlots j f).view q own = l.view q own := by
  have hstation := station?_updateSlots l j q f
  simp only [if_neg hj, Option.map_id_fun', id] at hstation
  simp only [view, hstation]
  rfl

/-- Waking who waits at another queue does not show. -/
private theorem view_wakeSlotWaiters_of_ne (hj : j ≠ q) :
    (l.wakeSlotWaiters j).view q own = l.view q own := by
  refine view_mapPollers_of_ne (fun x => x.awake_id j) fun x hx => ?_
  -- A poller of the queue waits for its own slots only.
  have hne : x.id.queue ≠ j := fun he => hj (he ▸ hx)
  unfold Poller.awake
  split
  · exact if_neg hne
  · rfl

/-- Nor does giving a slot back there. -/
theorem view_releaseSlot_of_ne (hj : j ≠ q) : (l.releaseSlot j).view q own = l.view q own := by
  unfold releaseSlot
  dsimp only
  -- Both the slots and the pollers that are woken belong to the other queue.
  split
  · split
    · rw [view_wakeSlotWaiters_of_ne hj, view_updateSlots_of_ne hj]
    · exact view_updateSlots_of_ne hj _
  · exact view_updateSlots_of_ne hj _

/-! ## Jobs -/

/-- Of the jobs those of the queue show. -/
private theorem view_setJobs (l : Listener) (js : List Job) :
    ({ l with jobs := js } : Listener).view q own =
      { l.view q own with jobs := (js.filter (·.queue = q)).map Job.work } := rfl

/-- If the jobs of a queue stay, nothing shows. -/
private theorem view_setJobs_of_eq {js : List Job} (h : js.filter (·.queue = q) = l.jobsOf q) :
    ({ l with jobs := js } : Listener).view q own = l.view q own := by
  rw [view_setJobs, h]
  rfl

/-- A new job of the queue shows, as accepted. -/
theorem view_addJob (l : Listener) (d : Delivery) : (l.addJob q d).view q own =
    { l.view q own with jobs := (l.view q own).jobs ++ [(d, .accepted)] } := by
  have hview : (l.addJob q d).view q own = { l.view q own with
      jobs := ((l.jobs ++ [(⟨l.accepted, q, d, .accepted⟩ : Job)]).filter (·.queue = q)).map
        Job.work } := rfl
  rw [hview, List.filter_append, List.map_append]
  simp [view, jobsOf, Job.work]

/-- One of another queue does not. -/
theorem view_addJob_of_ne (hj : j ≠ q) (d : Delivery) :
    (l.addJob j d).view q own = l.view q own := by
  have hsame : (l.jobs ++ [(⟨l.accepted, j, d, .accepted⟩ : Job)]).filter (·.queue = q) =
      l.jobsOf q := by
    simp [List.filter_append, jobsOf, hj]
  exact view_setJobs_of_eq (l := l) hsame

/-- Setting a phase and choosing the jobs of a queue commute. -/
private theorem jobsOf_setJobPhase (l : Listener) (n : Nat) (ph : JobPhase) :
    (l.setJobPhase n ph).jobsOf q =
      (l.jobsOf q).map fun j => if j.number = n then { j with phase := ph } else j := by
  simp only [jobsOf, setJobPhase, List.filter_map]
  congr 2
  funext j
  simp only [Function.comp_apply]
  split <;> rfl

/-- The work on a message of another queue does not show. -/
theorem view_setJobPhase_of_ne (hn : n ∉ (l.jobsOf q).map (·.number)) (ph : JobPhase) :
    (l.setJobPhase n ph).view q own = l.view q own := by
  refine view_setJobs_of_eq ?_
  change (l.setJobPhase n ph).jobsOf q = l.jobsOf q
  rw [jobsOf_setJobPhase, List.map_change_of_not_mem hn]

/-- A job of another queue that goes away does not show. -/
theorem view_removeJob_of_ne (hn : n ∉ (l.jobsOf q).map (·.number)) :
    ({ l with jobs := l.jobs.filter (·.number ≠ n) } : Listener).view q own = l.view q own := by
  refine view_setJobs_of_eq ?_
  rw [List.filter_comm]
  exact List.filter_remove_of_not_mem hn

section Place

variable {i : Nat} {x : Job}

/-- Where the jobs have different numbers, a job is known by its place among those of its
    queue. -/
private theorem numbers_jobsOf (h : (l.jobs.map (·.number)).Nodup) :
    ((l.jobsOf q).map (·.number)).Nodup :=
  h.sublist (List.filter_sublist.map _)

/-- The phase of a job shows at its place. -/
theorem view_setJobPhase (h : (l.jobs.map (·.number)).Nodup) (hx : (l.jobsOf q)[i]? = some x)
    (ph : JobPhase) : (l.setJobPhase x.number ph).view q own =
      { l.view q own with jobs := (l.view q own).jobs.set i (x.delivery, ph) } := by
  -- The work of a job keeps its place among the work of its queue.
  have hjobs : (l.setJobPhase x.number ph).jobsOf q =
      (l.jobsOf q).set i { x with phase := ph } := by
    rw [jobsOf_setJobPhase]
    exact List.map_change_eq_set Job.number (numbers_jobsOf h) hx _
  have hview : (l.setJobPhase x.number ph).view q own =
      { l.view q own with jobs := ((l.setJobPhase x.number ph).jobsOf q).map Job.work } := rfl
  rw [hview, hjobs, List.map_set]
  rfl

/-- A job that goes away is missing at its place. -/
theorem view_removeJob (h : (l.jobs.map (·.number)).Nodup) (hx : (l.jobsOf q)[i]? = some x) :
    ({ l with jobs := l.jobs.filter (·.number ≠ x.number) } : Listener).view q own =
      { l.view q own with jobs := (l.view q own).jobs.eraseIdx i } := by
  -- The place of the job among those of its queue is what is erased.
  have hjobs : (l.jobs.filter (·.number ≠ x.number)).filter (·.queue = q) =
      (l.jobsOf q).eraseIdx i := by
    rw [List.filter_comm]
    exact List.filter_remove_eq_eraseIdx Job.number (numbers_jobsOf h) hx
  rw [view_setJobs, hjobs, ← List.eraseIdx_map]
  rfl

end Place

/-! ## Calls -/

/-- Of the calls those for the queue show. -/
private theorem view_setCalls (l : Listener) (cs : List Call) :
    ({ l with calls := cs } : Listener).view q own =
      { l.view q own with waits := (cs.filter (·.isFor q)).map (·.wait) } := rfl

/-- If the calls that wait for a queue stay, nothing shows. -/
private theorem view_setCalls_of_eq {cs : List Call} (h : cs.filter (·.isFor q) = l.callsOf q) :
    ({ l with calls := cs } : Listener).view q own = l.view q own := by
  rw [view_setCalls, h]
  rfl

/-- A new call for the queue shows. -/
theorem view_addCall (l : Listener) {c : Call} (hc : c.isFor q) :
    ({ l with calls := l.calls ++ [c] } : Listener).view q own =
      { l.view q own with waits := (l.view q own).waits ++ [c.wait] } := by
  rw [view_setCalls, List.filter_append, List.map_append, List.filter_cons_of_pos hc]
  rfl

/-- One for another queue does not. -/
theorem view_addCall_of_not {c : Call} (hc : ¬ c.isFor q) :
    ({ l with calls := l.calls ++ [c] } : Listener).view q own = l.view q own := by
  refine view_setCalls_of_eq ?_
  rw [List.filter_append, List.filter_cons_of_neg hc, List.filter_nil, List.append_nil]
  rfl

/-- A call that goes away is missing at its place. -/
theorem view_removeCall {i : Nat} {c : Call} (h : (l.calls.map (·.number)).Nodup)
    (hc : (l.callsOf q)[i]? = some c) :
    ({ l with calls := l.calls.filter (·.number ≠ c.number) } : Listener).view q own =
      { l.view q own with waits := (l.view q own).waits.eraseIdx i } := by
  -- The place of the call among those for the queue is what is erased.
  have hnodup : ((l.callsOf q).map (·.number)).Nodup := h.sublist (List.filter_sublist.map _)
  have hcalls : (l.calls.filter (·.number ≠ c.number)).filter (·.isFor q) =
      (l.callsOf q).eraseIdx i := by
    rw [List.filter_comm]
    exact List.filter_remove_eq_eraseIdx Call.number hnodup hc
  rw [view_setCalls, hcalls, ← List.eraseIdx_map]
  rfl

/-- A call for another queue that goes away does not show. -/
theorem view_removeCall_of_ne (hn : n ∉ (l.callsOf q).map (·.number)) :
    ({ l with calls := l.calls.filter (·.number ≠ n) } : Listener).view q own = l.view q own := by
  refine view_setCalls_of_eq ?_
  rw [List.filter_comm]
  exact List.filter_remove_of_not_mem hn

/-! ## Standings -/

/-- Of the lifecycle the standing of the queue shows. -/
theorem view_setLifecycle (l : Listener) (life : Lifecycle) :
    ({ l with lifecycle := life } : Listener).view q own =
      { l.view q own with standing := life.standing? q } := rfl

/-- So other standings do not. -/
theorem view_setLifecycle_of_eq {life : Lifecycle}
    (h : life.standing? q = l.lifecycle.standing? q) :
    ({ l with lifecycle := life } : Listener).view q own = l.view q own := by
  rw [view_setLifecycle, h]
  rfl

end Listener

end Intake
