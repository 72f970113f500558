import Intake.Proofs.Listener.Elsewhere
import Intake.Proofs.Listener.Regular

/-!
# Listeners that show the same of a queue

Two listeners are alike for a queue if they show the same of it, whatever other queues they
serve.  What is done for the queue then does the same to both, as far as can be seen of the
queue.

- `Alike`: two listeners show the same of a queue
- `Alike.dispatch`: a batch is handed on alike, since no message has to wait for a worker
- `Alike.settle`: the work on a message ends alike
-/

namespace Intake

namespace Listener

variable {l l' : Listener} {q : String} {own own' : Nat → Bool} {p : PollerId} {d : Delivery}

/-- Two listeners show the same of a queue. -/
def Alike (q : String) (own own' : Nat → Bool) (l l' : Listener) : Prop :=
  l.view q own = l'.view q own'

namespace Alike

/-! ## What can be seen -/

/-- Alike is equal in view. -/
theorem view (h : Alike q own own' l l') : l.view q own = l'.view q own' := h

/-- Being alike is symmetric. -/
theorem symm (h : Alike q own own' l l') : Alike q own' own l' l := Eq.symm h

/-- Being alike is transitive. -/
theorem trans {l'' : Listener} {own'' : Nat → Bool} (h : Alike q own own' l l')
    (h' : Alike q own' own'' l' l'') : Alike q own own'' l l'' :=
  Eq.trans h h'

/-- Alike listeners have the same settings. -/
private theorem settings (h : Alike q own own' l l') : l.settings = l'.settings :=
  congrArg View.settings h

/-- They poll in the same way. -/
private theorem polling (h : Alike q own own' l l') : l.polling = l'.polling :=
    congrArg View.polling h

/-- They have the same station of the queue. -/
theorem station (h : Alike q own own' l l') : l.station? q = l'.station? q :=
  congrArg View.station h

/-- The queue has the same standing in them. -/
theorem standing (h : Alike q own own' l l') :
    l.lifecycle.standing? q = l'.lifecycle.standing? q :=
  congrArg View.standing h

/-- It has the same pollers. -/
theorem pollers (h : Alike q own own' l l') : l.pollersOf q = l'.pollersOf q :=
  congrArg View.pollers h

/-- Each poller of the queue is the same. -/
theorem poller? (h : Alike p.queue own own' l l') : l.poller? p = l'.poller? p := by
  rw [poller?_eq_find?_pollersOf rfl, poller?_eq_find?_pollersOf rfl, h.pollers]

/-- It is current in both or in neither. -/
private theorem isCurrent (h : Alike p.queue own own' l l') : l.isCurrent p = l'.isCurrent p := by
  rw [Listener.isCurrent, Listener.isCurrent, Lifecycle.isCurrent, Lifecycle.isCurrent, h.standing]

/-- It is alive in both or in neither. -/
theorem isAlive (h : Alike p.queue own own' l l') : l.isAlive p = l'.isAlive p := by
  rw [Listener.isAlive, Listener.isAlive, h.poller?]

/-! ## Small operations -/

/-- Effects that are the same events leave them alike. -/
private theorem emit (h : Alike q own own' l l') {e e' : Effect}
    (he : e.event? q own = e'.event? q own') : Alike q own own' (l.emit e) (l'.emit e') := by
  rw [Alike, view_emit, view_emit, he, h.view]

/-- So does the same report. -/
private theorem report (h : Alike q own own' l l') (n : Notice) :
    Alike q own own' (l.report n) (l'.report n) :=
  h.emit rfl

/-- So does the same change of a poller. -/
private theorem updatePoller (h : Alike q own own' l l') (p : PollerId) {f : Poller → Poller}
    (hf : ∀ x, (f x).id = x.id) :
    Alike q own own' (l.updatePoller p f) (l'.updatePoller p f) := by
  rw [Alike, view_updatePoller l p hf, view_updatePoller l' p hf, h.view]

/-- Setting its phase. -/
theorem setPhase (h : Alike q own own' l l') (p : PollerId) (ph : Phase) :
    Alike q own own' (l.setPhase p ph) (l'.setPhase p ph) :=
  h.updatePoller p fun _ => rfl

/-- Parking it. -/
private theorem park (h : Alike q own own' l l') (p : PollerId) (ph : Phase) :
    Alike q own own' (l.park p ph) (l'.park p ph) :=
  h.updatePoller p fun x => by split <;> rfl

/-- Signalling it. -/
private theorem signal (h : Alike q own own' l l') (p : PollerId) :
    Alike q own own' (l.signal p) (l'.signal p) :=
  h.updatePoller p fun x => by split <;> rfl

/-- Taking it away. -/
private theorem removePoller (h : Alike q own own' l l') (p : PollerId) :
    Alike q own own' { l with pollers := l.pollers.filter (·.id ≠ p) }
      { l' with pollers := l'.pollers.filter (·.id ≠ p) } := by
  rw [Alike, view_removePoller, view_removePoller, h.view]

/-- Retiring it. -/
theorem retire (h : Alike q own own' l l') (p : PollerId) :
    Alike q own own' (l.retire p) (l'.retire p) :=
  (h.removePoller p).report _

/-- So does the same change of the slots. -/
private theorem updateSlots (h : Alike q own own' l l') (f : Slots → Slots) :
    Alike q own own' (l.updateSlots q f) (l'.updateSlots q f) := by
  rw [Alike, view_updateSlots, view_updateSlots, h.view]

/-- Waking who waits for slots. -/
theorem wakeSlotWaiters (h : Alike q own own' l l') (j : String) :
    Alike q own own' (l.wakeSlotWaiters j) (l'.wakeSlotWaiters j) := by
  have hids : ∀ x : Poller, (x.awake j).id = x.id := fun x => x.awake_id j
  rw [Alike, Listener.wakeSlotWaiters, Listener.wakeSlotWaiters, view_mapPollers l hids,
    view_mapPollers l' hids, h.view]

/-- Giving a slot back. -/
private theorem releaseSlot (h : Alike q own own' l l') :
    Alike q own own' (l.releaseSlot q) (l'.releaseSlot q) := by
  have hslots := h.updateSlots (·.release 1)
  unfold Listener.releaseSlot
  dsimp only
  -- The slots are the same in both, so both wake who waits or neither.
  rw [hslots.station]
  cases (l'.updateSlots q (·.release 1)).station? q with
  | none => exact hslots
  | some s =>
    dsimp only
    split
    · exact hslots.wakeSlotWaiters q
    · exact hslots

/-- The workers do not show at all. -/
private theorem setWorkers (h : Alike q own own' l l') (w w' : Workers PollerId) :
    Alike q own own' { l with workers := w } { l' with workers := w' } :=
  h

/-- Of the lifecycle the standing of the queue shows. -/
private theorem setLifecycle (h : Alike q own own' l l') {life life' : Lifecycle}
    (hlife : life.standing? q = life'.standing? q) :
    Alike q own own' { l with lifecycle := life } { l' with lifecycle := life' } := by
  rw [Alike, view_setLifecycle l life, view_setLifecycle l' life', hlife, h.view]

/-! ## Pollers -/

/-- Both begin the same round. -/
theorem beginRound (h : Alike p.queue own own' l l') (now : Nat) :
    Alike p.queue own own' (l.beginRound now p) (l'.beginRound now p) := by
  have hcurrent := h.isCurrent
  unfold Listener.beginRound
  rw [h.station, hcurrent]
  -- Both retire, or park, or receive, by the same station and standing.
  cases l'.station? p.queue with
  | none => exact h.retire p
  | some s =>
    dsimp only
    split
    · exact h.retire p
    · split
      · rw [h.settings]
        exact h.park p _
      · rw [h.polling]
        exact (h.setPhase p _).emit rfl

/-- The same message becomes a job in both. -/
private theorem addJob (h : Alike q own own' l l') (d : Delivery) :
    Alike q own own' (l.addJob q d) (l'.addJob q d) := by
  rw [Alike, view_addJob, view_addJob, h.view]

end Alike

/-! ## Batches -/

namespace Alike

/-- What becomes of a message depends on its queue alone. -/
private theorem offer (h : Alike p.queue own own' l l') (hl : l.Roomy) (hl' : l'.Roomy)
    (d : Delivery) : Alike p.queue own own' (l.offer p d).2 (l'.offer p d).2 := by
  have hcurrent := (h.updateSlots (·.acquire 1)).isCurrent
  have hstation := h.station
  unfold Listener.offer takeSlot?
  rw [hstation]
  cases hs : l'.station? p.queue with
  | none => exact h.report _
  | some s =>
    dsimp only
    by_cases hfree : 0 < s.slots.free
    · rw [if_pos hfree, if_pos hfree]
      dsimp only
      rw [hcurrent]
      split
      · exact (h.updateSlots _).releaseSlot
      -- In both listeners a worker is free for a message that has a slot.
      · have hadmission : (l.updateSlots p.queue (·.acquire 1)).workers.admission = .accepted :=
          hl.admission (hstation.trans hs) hfree
        have hadmission' : (l'.updateSlots p.queue (·.acquire 1)).workers.admission = .accepted :=
          hl'.admission hs hfree
        rw [hadmission, hadmission']
        exact ((h.updateSlots _).setWorkers _ _).addJob d
    · rw [if_neg hfree, if_neg hfree]
      exact h.report _

/-- Both hand on the same messages, if each has room for them. -/
theorem dispatch (h : Alike p.queue own own' l l') (hl : l.Roomy) (hl' : l'.Roomy)
    (hw : l.AtWork p) (hw' : l'.AtWork p) (now : Nat) (ds : List Delivery) :
    Alike p.queue own own' (l.dispatch now p ds) (l'.dispatch now p ds) := by
  induction ds generalizing l l' with
  | nil => exact h.beginRound now
  | cons d ds ih =>
    -- Where there is room each message has a fate at once, so neither round stops early.
    obtain ⟨f, hf⟩ := hl.exists_fate p d
    obtain ⟨f', hf'⟩ := hl'.exists_fate p d
    rw [dispatch_cons_of_some now hf, dispatch_cons_of_some now hf']
    exact ih (h.offer hl hl' d) (hl.offer hw d) (hl'.offer hw' d) ((offered l p d).atWork hw)
      ((offered l' p d).atWork hw')

/-- Both take the same answer. -/
theorem takeAnswer (h : Alike p.queue own own' l l') (hl : l.Roomy) (hl' : l'.Roomy)
    (hw : l.AtWork p) (hw' : l'.AtWork p) (now since : Nat) (a : Answer) :
    Alike p.queue own own' (l.takeAnswer now since p a) (l'.takeAnswer now since p a) := by
  have hsettings := h.settings
  unfold Listener.takeAnswer
  -- By the answer: broken off, failed, empty, or a batch.
  split
  · exact h.setPhase p _
  next cause =>
    rw [hsettings]
    exact (h.report _).park p _
  next =>
    dsimp only
    rw [hsettings]
    split
    · exact h
    · exact h.park p _
  · exact h.dispatch hl hl' hw hw' now _

/-- A poller without a message in hand goes on. -/
theorem goOn {x : Poller} (h : Alike x.id.queue own own' l l') (hx : x.phase.hand = [])
    (now : Nat) : Alike x.id.queue own own' (l.goOn now x) (l'.goOn now x) := by
  have hstation := h.station
  unfold Listener.goOn
  -- By the phase; nobody waits with a message in hand.
  split
  · rw [hstation]
    cases l'.station? x.id.queue with
    | none => exact h.retire _
    | some s => exact (h.report _).beginRound now
  · exact h.beginRound now
  · exact h.beginRound now
  · exact h.beginRound now
  next hphase =>
    rw [hphase] at hx
    cases hx
  · exact h
  · exact h

end Alike

/-! ## Jobs -/

section Jobs

variable {i : Nat} {x x' : Job}

/-- Two jobs have one place among the jobs of a queue in two listeners, in each of which jobs
    are known by their numbers. -/
structure Twins (q : String) (i : Nat) (l l' : Listener) (x x' : Job) : Prop where
  nodup : (l.jobs.map (·.number)).Nodup
  nodup' : (l'.jobs.map (·.number)).Nodup
  place : (l.jobsOf q)[i]? = some x
  place' : (l'.jobsOf q)[i]? = some x'

/-- A job at a place in the jobs of a queue belongs to it. -/
private theorem queue_of_place (hx : (l.jobsOf q)[i]? = some x) : x.queue = q := by
  simpa using (List.mem_filter.mp (List.mem_of_getElem? hx)).2

namespace Alike

/-- A job has its twin. -/
private theorem exists_twin (h : Alike q own own' l l') (hx : (l.jobsOf q)[i]? = some x) :
    ∃ x', (l'.jobsOf q)[i]? = some x' ∧ x'.work = x.work := by
  have hjobs : (l.jobsOf q).map Job.work = (l'.jobsOf q).map Job.work := congrArg View.jobs h
  have hplace := congrArg (·[i]?) hjobs
  simp only [List.getElem?_map, hx, Option.map_some] at hplace
  exact Option.map_eq_some_iff.mp hplace.symm

/-- Twins carry the same delivery. -/
private theorem delivery_eq (h : Alike q own own' l l') (hx : Twins q i l l' x x') :
    x'.delivery = x.delivery := by
  obtain ⟨y, hy, hwork⟩ := h.exists_twin hx.place
  obtain rfl := Option.some.inj (hy.symm.trans hx.place')
  exact congrArg Prod.fst hwork

/-- Setting the phase of twins leaves the listeners alike. -/
private theorem setJobPhase (h : Alike q own own' l l') (hx : Twins q i l l' x x') (ph : JobPhase) :
    Alike q own own' (l.setJobPhase x.number ph) (l'.setJobPhase x'.number ph) := by
  rw [Alike, view_setJobPhase hx.nodup hx.place, view_setJobPhase hx.nodup' hx.place',
    h.delivery_eq hx, h.view]

/-- The slot of a settled message comes back to its queue. -/
theorem settle (h : Alike q own own' l l') (hx : Twins q i l l' x x') :
    Alike q own own' (l.settle x) (l'.settle x') := by
  have hremoved : Alike q own own' { l with jobs := l.jobs.filter (·.number ≠ x.number) }
      { l' with jobs := l'.jobs.filter (·.number ≠ x'.number) } := by
    rw [Alike, view_removeJob hx.nodup hx.place, view_removeJob hx.nodup' hx.place', h.view]
  -- What is left to do is the same for both: the slot comes back and a worker is free.
  unfold Listener.settle
  rw [queue_of_place hx.place, queue_of_place hx.place']
  exact hremoved.releaseSlot.setWorkers _ _

variable (h : Alike q own own' l l') (hx : Twins q i l l' x x')
include h hx

/-- So does beginning them. -/
theorem beginJob (ho : own x.number) (ho' : own' x'.number) :
    Alike q own own' (l.beginJob x) (l'.beginJob x') := by
  unfold Listener.beginJob
  rw [queue_of_place hx.place, queue_of_place hx.place', h.station, h.delivery_eq hx]
  cases l'.station? q with
  | none => exact h
  | some s => exact (h.setJobPhase hx .handling).emit (by simp [Effect.event?, ho, ho'])

/-- Ending them. -/
theorem endJob (ho : own x.number) (ho' : own' x'.number) (r : HandlerResult) :
    Alike q own own' (l.endJob x r) (l'.endJob x' r) := by
  have hdelete : ∀ dest receipt, Effect.event? q own (.delete x.number dest receipt) =
      Effect.event? q own' (.delete x'.number dest receipt) := by
    simp [Effect.event?, ho, ho']
  have hreported : ∀ n, Twins q i (l.report n) (l'.report n) x x' :=
    fun _ => ⟨hx.nodup, hx.nodup', hx.place, hx.place'⟩
  unfold Listener.endJob
  rw [queue_of_place hx.place, queue_of_place hx.place', h.station, h.delivery_eq hx]
  cases l'.station? q with
  | none => exact h
  | some s =>
    dsimp only
    -- A notice about a failure comes before what is wanted for the job.
    cases r.failure? with
    | none =>
      split
      · exact (h.setJobPhase hx .deleting).emit (hdelete ..)
      · exact h.settle hx
    | some cause =>
      split
      · exact ((h.report _).setJobPhase (hreported _) .deleting).emit (hdelete ..)
      · exact (h.report _).settle (hreported _)

/-- And the end of their deletions. -/
theorem finishDelete (r : Except BrokerError Unit) :
    Alike q own own' (l.finishDelete x r) (l'.finishDelete x' r) := by
  have hreported : ∀ n, Twins q i (l.report n) (l'.report n) x x' :=
    fun _ => ⟨hx.nodup, hx.nodup', hx.place, hx.place'⟩
  unfold Listener.finishDelete
  rw [queue_of_place hx.place, queue_of_place hx.place', h.delivery_eq hx]
  -- What a failed deletion reports names the queue, and both report it.
  cases r with
  | ok => exact h.settle hx
  | error cause => exact (h.report _).settle (hreported _)

end Alike

end Jobs

/-! ## Calls -/

section Calls

variable {c c' : Call} {now call call' : Nat} {e : Effect}

namespace Alike

/-- So do returns, to whatever calls. -/
theorem returned (h : Alike q own own' l l') (call call' : Nat)
    (r r' : Except ListenerError Unit) :
    Alike q own own' (l.emit (.returned call r)) (l'.emit (.returned call' r')) :=
  h.emit rfl

/-- So does a new poller of the queue. -/
private theorem addPoller (h : Alike q own own' l l') {x : Poller} (hx : x.id.queue = q) :
    Alike q own own' { l with pollers := l.pollers ++ [x] }
      { l' with pollers := l'.pollers ++ [x] } := by
  rw [Alike, view_addPoller l hx, view_addPoller l' hx, h.view]

/-- And a pending call for the queue with the same wait. -/
private theorem addCall (h : Alike q own own' l l') (c c' : Call) (hc : c.isFor q)
    (hc' : c'.isFor q)
    (hwait : c.wait = c'.wait) : Alike q own own' { l with calls := l.calls ++ [c] }
      { l' with calls := l'.calls ++ [c'] } := by
  rw [Alike, view_addCall l hc, view_addCall l' hc', hwait, h.view]

/-- Both start the queue or do not. -/
theorem startQueue (h : Alike q own own' l l') :
    Alike q own own' (l.startQueue q) (l'.startQueue q) := by
  have hnext : l.lifecycle.nextEpoch? q = l'.lifecycle.nextEpoch? q := by
    rw [Lifecycle.nextEpoch?, Lifecycle.nextEpoch?, h.standing]
  unfold Listener.startQueue
  rw [hnext]
  -- Both open the same epoch, or none.
  cases he : l'.lifecycle.nextEpoch? q with
  | none => exact h
  | some e =>
    have hlife : (l.lifecycle.beginStart q).standing? q =
        (l'.lifecycle.beginStart q).standing? q := by
      rw [Lifecycle.standing?_beginStart (hnext.trans he), Lifecycle.standing?_beginStart he,
        if_pos rfl, if_pos rfl]
    have hadded := h.addPoller (x := ⟨⟨q, e⟩, .fresh, false⟩) rfl
    exact (hadded.setLifecycle hlife).report _

/-- A stop of the queue tells its poller and waits for it, if there is one. -/
theorem stopEach (h : Alike q own own' l l') (now call call' : Nat) :
    Alike q own own' (l.stopEach now call .stop [q]) (l'.stopEach now call' .stop [q]) := by
  have hrunning : l.lifecycle.runningEpoch? q = l'.lifecycle.runningEpoch? q := by
    rw [Lifecycle.runningEpoch?, Lifecycle.runningEpoch?, h.standing]
  unfold Listener.stopEach
  rw [hrunning]
  -- Both stop the same epoch, or none runs in either.
  cases he : l'.lifecycle.runningEpoch? q with
  | none => exact h.returned call call' _ _
  | some e =>
    have hlife : (l.lifecycle.beginStop q).standing? q =
        (l'.lifecycle.beginStop q).standing? q := by
      rw [Lifecycle.standing?_beginStop (hrunning.trans he), Lifecycle.standing?_beginStop he,
        if_pos rfl, if_pos rfl]
    exact ((h.setLifecycle hlife).signal ⟨q, e⟩).addCall
      ⟨call, .stop, [], .poller ⟨q, e⟩ (now + l.settings.stopTimeout)⟩
      ⟨call', .stop, [], .poller ⟨q, e⟩ (now + l'.settings.stopTimeout)⟩
      (by simp [Call.isFor]) (by simp [Call.isFor]) (by rw [h.settings])

/-- Two calls have one place among the calls that wait for a queue in two listeners, in each of
    which calls are known by their numbers. -/
theorem removeCall {i : Nat} (h : Alike q own own' l l') (hn : (l.calls.map (·.number)).Nodup)
    (hn' : (l'.calls.map (·.number)).Nodup) (hc : (l.callsOf q)[i]? = some c)
    (hc' : (l'.callsOf q)[i]? = some c') :
    Alike q own own' { l with calls := l.calls.filter (·.number ≠ c.number) }
      { l' with calls := l'.calls.filter (·.number ≠ c'.number) } := by
  rw [Alike, view_removeCall hn hc, view_removeCall hn' hc', h.view]

/-- Both report the same when a poller has stopped. -/
theorem stopNotices (h : Alike p.queue own own' l l') : l.stopNotices p = l'.stopNotices p := by
  rw [Listener.stopNotices, Listener.stopNotices, h.poller?, h.settings]

/-- The same reports leave them alike. -/
private theorem foldl_report (h : Alike q own own' l l') (ns : List Notice) :
    Alike q own own' (ns.foldl (fun l n => l.report n) l)
      (ns.foldl (fun l n => l.report n) l') := by
  induction ns generalizing l l' with
  | nil => exact h
  | cons n ns ih => exact ih (h.report n)

/-- So does forgetting a broken poller. -/
private theorem forgetBroken (h : Alike p.queue own own' l l') :
    Alike p.queue own own' (l.forgetBroken p) (l'.forgetBroken p) := by
  unfold Listener.forgetBroken
  rw [h.isAlive]
  split
  · exact h
  · exact h.removePoller p

/-- A stop that goes on returns, as it has stopped its only queue. -/
theorem proceed {t : Nat} (h : Alike p.queue own own'
      { l with calls := l.calls.filter (·.number ≠ c.number) }
      { l' with calls := l'.calls.filter (·.number ≠ c'.number) })
    (hw : c.wait = .poller p t) (hw' : c'.wait = .poller p t) (hc : c.goal = .stop ∧ c.rest = [])
    (hc' : c'.goal = .stop ∧ c'.rest = []) (now : Nat) :
    Alike p.queue own own' (l.proceed now c) (l'.proceed now c') := by
  have hforgot := (h.foldl_report (Listener.stopNotices
    { l with calls := l.calls.filter (·.number ≠ c.number) } p)).forgetBroken
  have hnotices := h.stopNotices
  have hlife := hforgot.standing
  -- The same notices, the same poller forgotten, the same epoch finished.
  unfold Listener.proceed
  rw [hw, hw', hc.1, hc.2, hc'.1, hc'.2]
  dsimp only
  rw [← hnotices]
  refine ((hforgot.setLifecycle ?_).report _).returned _ _ _ _
  rw [Lifecycle.standing?_finishStop, Lifecycle.standing?_finishStop, hlife]

end Alike

/-! ## Many queues at once -/

/-- What is done for many queues, for each of them once, shows of a queue as what is done for
    it alone. -/
private theorem view_foldl {f : Listener → String → Listener} {js : List String} (hjs : js.Nodup)
    (hne : ∀ m j, j ≠ q → (f m j).view q own = m.view q own)
    (hself : ∀ m m', Alike q own own m m' → Alike q own own (f m q) (f m' q)) :
    (js.foldl f l).view q own = (if q ∈ js then f l q else l).view q own := by
  induction js generalizing l with
  | nil => simp
  | cons j js ih =>
    obtain ⟨hj, hrest⟩ := List.nodup_cons.mp hjs
    rw [List.foldl_cons, ih hrest]
    by_cases hjq : j = q
    · subst hjq
      rw [if_neg hj, if_pos List.mem_cons_self]
    · -- What is done for the first queue does not show, neither at once nor afterwards.
      have hskip : Alike q own own (f l j) l := hne l j hjq
      by_cases hmem : q ∈ js
      · rw [if_pos hmem, if_pos (List.mem_cons_of_mem j hmem)]
        exact hself _ _ hskip
      · have hmem' : q ∉ j :: js := by simp [hmem, Ne.symm hjq]
        rw [if_neg hmem, if_neg hmem']
        exact hskip

/-- The queues registered are those with stations. -/
theorem mem_registered : q ∈ l.registered ↔ q ∈ l.names := by
  rw [registered, sortedTexts, List.mem_mergeSort, names]

/-- A start call shows as the start of its queue. -/
theorem view_start (hactive : l.active) (call : Nat) (q : String) : (l.start call q).view q own =
    (if q ∈ l.names then l.startQueue q else l).view q own := by
  unfold start
  rw [hactive]
  -- A start of a queue that is not known returns at once and changes nothing else.
  by_cases hq : q ∈ l.names
  · have hsome : (l.station? q).isNone = false := by simpa using isSome_station?.mpr hq
    rw [if_pos hq, hsome]
    exact view_returned _ call _
  · have hnone : (l.station? q).isNone = true := by simpa using mt isSome_station?.mp hq
    rw [if_neg hq, hnone]
    exact view_returned _ call _

/-- A start of all queues shows of a queue as a start of it alone. -/
theorem view_startAll (hactive : l.active) (hnames : l.names.Nodup) (call : Nat) :
    (l.startAll call).view q own = (if q ∈ l.names then l.startQueue q else l).view q own := by
  have hregistered : l.registered.Nodup := by
    rw [registered, sortedTexts, (List.mergeSort_perm _ _).nodup_iff]
    exact hnames
  -- Each queue is started once; only its own start shows.
  have hstarted : (l.registered.foldl (fun m j => m.startQueue j) l).view q own =
      (if q ∈ l.registered then l.startQueue q else l).view q own :=
    view_foldl hregistered (fun _ _ hj => view_startQueue_of_ne hj) fun _ _ h => h.startQueue
  simp only [mem_registered] at hstarted
  unfold startAll
  rw [hactive]
  exact (view_returned _ call _).trans hstarted

/-- The poller of a queue is told, if the queue is running under a lifecycle. -/
def tell (life : Lifecycle) (l : Listener) (q : String) : Listener :=
  match life.runningEpoch? q with
  | some e => l.signal ⟨q, e⟩
  | none => l

/-- Giving the listener up tells the poller of a running queue. -/
private theorem view_discard (hnodup : l.lifecycle.queues.names.Nodup) : l.discard.view q own =
    (tell l.lifecycle { l with lifecycle := l.lifecycle.clear } q).view q own := by
  have hdiscard : l.discard = l.lifecycle.running.foldl (tell l.lifecycle)
      { l with lifecycle := l.lifecycle.clear } := by
    unfold discard
    dsimp only
    rw [List.foldl_filterMap]
    congr 1
    funext m j
    unfold tell
    cases l.lifecycle.runningEpoch? j <;> rfl
  rw [hdiscard, view_foldl (Lifecycle.nodup_running hnodup)]
  · split
    · rfl
    next hq =>
      -- A queue that is not running has no poller to be told.
      have hnone : l.lifecycle.runningEpoch? q = none := by
        rw [Lifecycle.mem_running hnodup, Lifecycle.isRunning_iff] at hq
        by_contra hne
        obtain ⟨e, he⟩ := Option.ne_none_iff_exists'.mp hne
        exact hq ⟨e, Lifecycle.runningEpoch?_eq_some.mp he⟩
      rw [tell, hnone]
  · intro m j hj
    unfold tell
    split
    · exact view_signal_of_ne hj
    · rfl
  · intro m m' h
    unfold tell
    split
    · exact h.signal _
    · exact h

/-- Dropping both leaves them alike. -/
theorem Alike.discard (h : Alike q own own' l l') (hnodup : l.lifecycle.queues.names.Nodup)
    (hnodup' : l'.lifecycle.queues.names.Nodup) : Alike q own own' l.discard l'.discard := by
  -- Both have the same standing for the queue, so both tell the same poller, or none.
  have hrunning : l.lifecycle.runningEpoch? q = l'.lifecycle.runningEpoch? q := by
    rw [Lifecycle.runningEpoch?, Lifecycle.runningEpoch?, h.standing]
  have hcleared : Alike q own own' { l with lifecycle := l.lifecycle.clear }
      { l' with lifecycle := l'.lifecycle.clear } := h.setLifecycle rfl
  rw [Alike, view_discard hnodup, view_discard hnodup', tell, tell, hrunning]
  cases l'.lifecycle.runningEpoch? q with
  | none => exact hcleared
  | some e => exact hcleared.signal _

end Calls

end Listener

end Intake
