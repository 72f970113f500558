import Intake.Proofs.Listener.Alike

/-!
# What happens to one queue

A stimulus that fits the state is something that happens to some queue: a `QueueInput` says
what, without a word about other queues.  Until a call that ends the listener or stops all
queues, what an input does to its queue depends on what shows of the queue alone, and all
other stimuli leave the queue as it is.

- `input?`: what a stimulus is to a queue
- `Alike.after`: one input does the same to listeners that show the same of its queue
- `Alike.isBusy`: such listeners let the queue go on by itself at the same instants
- `view_after_of_input?_eq_none`: everything else leaves the queue as it is
-/

namespace Intake

/-- What happens to one queue of a listener.  Jobs and calls are known by their places among
    those of the queue. -/
inductive QueueInput
  | start
  | stop
  /-- The listener is given up. -/
  | discard
  /-- The poller of an epoch goes on. -/
  | goOn (epoch : Nat)
  /-- The receive call of the poller of an epoch returns. -/
  | answer (epoch : Nat) (a : Answer)
  /-- A job calls its handler. -/
  | beginJob (place : Nat)
  /-- The handler of a job ends. -/
  | endJob (place : Nat) (r : HandlerResult)
  /-- The deletion of a job's message ends. -/
  | deleted (place : Nat) (r : Except BrokerError Unit)
  /-- A call that waits for a poller goes on. -/
  | proceed (place : Nat)
deriving DecidableEq

/-- Whether a listener does this by itself as soon as it can. -/
def QueueInput.isInner : QueueInput → Bool
  | goOn _ | beginJob _ | proceed _ => true
  | _ => false

/-- Whether a poller in this phase waits for its receive call. -/
def Phase.isReceiving : Phase → Bool
  | receiving _ => true
  | _ => false

/-- Receiving is a phase with the instant of the call. -/
theorem Phase.isReceiving_iff {ph : Phase} : ph.isReceiving ↔ ∃ since, ph = .receiving since := by
  cases ph <;> simp [isReceiving]

/-- A stop of a queue waits for a poller of this queue. -/
private theorem Call.IsStop.exists_wait {c : Call} (h : c.IsStop) {q : String} (hq : c.isFor q) :
    ∃ p t, c.wait = .poller p t ∧ p.queue = q := by
  obtain ⟨p, t, hw⟩ := h.wait
  exact ⟨p, t, hw, by simpa [isFor, hw] using hq⟩

namespace Listener

variable {l l' : Listener} {q : String} {own own' : Nat → Bool} {now : Nat} {s s' : Stimulus}
  {i : QueueInput}

/-- What a stimulus is to a queue, if it fits the state and concerns the queue.  Calls that
    end the listener or stop all queues are left out. -/
def input? (q : String) (now : Nat) (l : Listener) : Stimulus → Option QueueInput
  | .start _ j => if j = q then some .start else none
  | .startAll _ => some .start
  | .stop _ j => if j = q then some .stop else none
  | .stopAll _ | .shutdown _ => none
  | .discard => some .discard
  | .goOn p =>
    if p.queue = q ∧ (l.poller? p).any (l.canGoOn now) then some (.goOn p.epoch) else none
  | .answer p a =>
    if p.queue = q ∧ (l.poller? p).any (·.phase.isReceiving) then some (.answer p.epoch a) else none
  | .beginJob n =>
    ((l.jobsOf q).findIdx? fun j => j.number = n ∧ j.phase = .accepted).map .beginJob
  | .endJob n r =>
    ((l.jobsOf q).findIdx? fun j => j.number = n ∧ j.phase = .handling).map (.endJob · r)
  | .deleted n r =>
    ((l.jobsOf q).findIdx? fun j => j.number = n ∧ j.phase = .deleting).map (.deleted · r)
  | .proceed n =>
    ((l.callsOf q).findIdx? fun c => c.number = n ∧ l.canProceed now c).map .proceed

/-- Whether anything of a queue can go on by itself at an instant. -/
def isBusy (q : String) (now : Nat) (l : Listener) : Bool :=
  (l.pollersOf q).any (l.canGoOn now) || (l.jobsOf q).any (·.phase = .accepted) ||
    (l.callsOf q).any (l.canProceed now)

/-- Whether a number is that of a job of a queue. -/
def owns (l : Listener) (q : String) (n : Nat) : Bool := (l.jobsOf q).any (·.number = n)

/-- The stimuli that are a certain input for a queue. -/
inductive IsInput (q : String) (now : Nat) (l : Listener) : Stimulus → QueueInput → Prop
  | start (call : Nat) : IsInput q now l (.start call q) .start
  | startAll (call : Nat) : IsInput q now l (.startAll call) .start
  | stop (call : Nat) : IsInput q now l (.stop call q) .stop
  | discard : IsInput q now l .discard .discard
  | goOn {epoch : Nat} {x : Poller} (hx : l.poller? ⟨q, epoch⟩ = some x) (hc : l.canGoOn now x) :
    IsInput q now l (.goOn ⟨q, epoch⟩) (.goOn epoch)
  | answer {epoch since : Nat} {x : Poller} (a : Answer) (hx : l.poller? ⟨q, epoch⟩ = some x)
    (hphase : x.phase = .receiving since) :
    IsInput q now l (.answer ⟨q, epoch⟩ a) (.answer epoch a)
  | beginJob {place : Nat} {j : Job} (hj : (l.jobsOf q)[place]? = some j)
    (hphase : j.phase = .accepted) : IsInput q now l (.beginJob j.number) (.beginJob place)
  | endJob {place : Nat} {j : Job} (r : HandlerResult) (hj : (l.jobsOf q)[place]? = some j)
    (hphase : j.phase = .handling) : IsInput q now l (.endJob j.number r) (.endJob place r)
  | deleted {place : Nat} {j : Job} (r : Except BrokerError Unit)
    (hj : (l.jobsOf q)[place]? = some j) (hphase : j.phase = .deleting) :
    IsInput q now l (.deleted j.number r) (.deleted place r)
  | proceed {place : Nat} {c : Call} (hc : (l.callsOf q)[place]? = some c)
    (hgo : l.canProceed now c) : IsInput q now l (.proceed c.number) (.proceed place)

/-- What is found at an index stands there and fits. -/
private theorem exists_of_findIdx? {α : Type} {xs : List α} {P : α → Prop} [DecidablePred P]
    {n : Nat} (h : xs.findIdx? (fun x => P x) = some n) : ∃ x, xs[n]? = some x ∧ P x := by
  obtain ⟨hn, hP, -⟩ := List.findIdx?_eq_some_iff_getElem.mp h
  exact ⟨xs[n], List.getElem?_eq_getElem hn, by simpa using hP⟩

/-- What is an input for the queue comes to it as one. -/
theorem isInput_of_input? (h : l.input? q now s = some i) : IsInput q now l s i := by
  cases s with
  | start call j =>
    obtain ⟨rfl, rfl⟩ : j = q ∧ QueueInput.start = i := by simpa [input?] using h
    exact .start call
  | startAll call =>
    obtain rfl := Option.some.inj h
    exact .startAll call
  | stop call j =>
    obtain ⟨rfl, rfl⟩ : j = q ∧ QueueInput.stop = i := by simpa [input?] using h
    exact .stop call
  | stopAll | shutdown => cases h
  | discard =>
    obtain rfl := Option.some.inj h
    exact .discard
  -- Going on and answers count for the pollers of this queue, where they fit.
  | goOn p =>
    obtain ⟨⟨rfl, hgo⟩, rfl⟩ : (p.queue = q ∧ (l.poller? p).any (l.canGoOn now) = true) ∧
        QueueInput.goOn p.epoch = i := by simpa only [input?, Option.ite_none_right_eq_some,
          Option.some.injEq] using h
    obtain ⟨x, hx, hc⟩ := (Option.any_eq_true _ _).mp hgo
    exact .goOn hx hc
  | answer p a =>
    obtain ⟨⟨rfl, hreceives⟩, rfl⟩ :
        (p.queue = q ∧ (l.poller? p).any (·.phase.isReceiving) = true) ∧
          QueueInput.answer p.epoch a = i := by simpa only [input?, Option.ite_none_right_eq_some,
            Option.some.injEq] using h
    obtain ⟨x, hx, hphase⟩ := (Option.any_eq_true _ _).mp hreceives
    obtain ⟨since, hsince⟩ := Phase.isReceiving_iff.mp hphase
    exact .answer a hx hsince
  -- A job is named by its place among the jobs of the queue, and so is a call.
  | beginJob n =>
    obtain ⟨place, hplace, rfl⟩ := Option.map_eq_some_iff.mp h
    obtain ⟨j, hj, rfl, hphase⟩ := exists_of_findIdx? hplace
    exact .beginJob hj hphase
  | endJob n r =>
    obtain ⟨place, hplace, rfl⟩ := Option.map_eq_some_iff.mp h
    obtain ⟨j, hj, rfl, hphase⟩ := exists_of_findIdx? hplace
    exact .endJob r hj hphase
  | deleted n r =>
    obtain ⟨place, hplace, rfl⟩ := Option.map_eq_some_iff.mp h
    obtain ⟨j, hj, rfl, hphase⟩ := exists_of_findIdx? hplace
    exact .deleted r hj hphase
  | proceed n =>
    obtain ⟨place, hplace, rfl⟩ := Option.map_eq_some_iff.mp h
    obtain ⟨c, hc, rfl, hgo⟩ := exists_of_findIdx? hplace
    exact .proceed hc hgo

/-! ## Places -/

namespace Regular

/-- All calls are stops. -/
private theorem isStop_of_place (h : l.Regular) {place : Nat} {c : Call}
    (hc : (l.callsOf q)[place]? = some c) : c.IsStop :=
  h.calls c (List.mem_of_mem_filter (List.mem_of_getElem? hc))

/-- The jobs at one place are twins. -/
private theorem twins (h : l.Regular) (h' : l'.Regular) {place : Nat} {j j' : Job}
    (hj : (l.jobsOf q)[place]? = some j) (hj' : (l'.jobsOf q)[place]? = some j') :
    Twins q place l l' j j' :=
  ⟨h.sound.numbers_nodup, h'.sound.numbers_nodup, hj, hj'⟩

end Regular

/-- A call at a place among those for a queue is for it. -/
private theorem isFor_of_place {place : Nat} {c : Call} (hc : (l.callsOf q)[place]? = some c) :
    c.isFor q :=
  (List.mem_filter.mp (List.mem_of_getElem? hc)).2

/-! ## Inputs -/

/-- A job at a place among those of a queue is its own. -/
private theorem owns_of_place {place : Nat} {j : Job} (hj : (l.jobsOf q)[place]? = some j) :
    l.owns q j.number :=
  List.any_eq_true.mpr ⟨j, List.mem_of_getElem? hj, by simp⟩

/-- It is found by its number. -/
private theorem job?_of_place (hl : l.Sound) {place : Nat} {j : Job}
    (hj : (l.jobsOf q)[place]? = some j) : l.job? j.number = some j :=
  job?_of_mem hl (List.mem_of_mem_filter (List.mem_of_getElem? hj))

/-- So is a call. -/
private theorem call?_of_place (hl : l.Regular) {place : Nat} {c : Call}
    (hc : (l.callsOf q)[place]? = some c) : l.call? c.number = some c :=
  List.find?_key Call.number hl.numbers_nodup
    (List.mem_of_mem_filter (List.mem_of_getElem? hc))

section Places

variable {place : Nat} {j : Job} {c : Call}

/-- A job that is accepted begins. -/
private theorem after_beginJob (hl : l.Sound) (hj : (l.jobsOf q)[place]? = some j)
    (hphase : j.phase = .accepted) : l.after now (.beginJob j.number) = l.beginJob j := by
  simp [after, job?_of_place hl hj, hphase]

/-- A job that is handled ends. -/
private theorem after_endJob (hl : l.Sound) (hj : (l.jobsOf q)[place]? = some j)
    (hphase : j.phase = .handling) (r : HandlerResult) :
    l.after now (.endJob j.number r) = l.endJob j r := by
  simp [after, job?_of_place hl hj, hphase]

/-- A deletion that is out ends. -/
private theorem after_deleted (hl : l.Sound) (hj : (l.jobsOf q)[place]? = some j)
    (hphase : j.phase = .deleting) (r : Except BrokerError Unit) :
    l.after now (.deleted j.number r) = l.finishDelete j r := by
  simp [after, job?_of_place hl hj, hphase]

end Places

/-- However it is made, a start of a registered queue starts it. -/
private theorem view_after_start (hl : l.Regular) (hs : IsInput q now l s .start) :
    (l.after now s).view q own = (if q ∈ l.names then l.startQueue q else l).view q own := by
  cases hs with
  | start call => exact view_start hl.active call q
  | startAll call => exact view_startAll hl.active hl.sound.names_nodup call

namespace Alike

/-- The poller of an epoch is the same in both. -/
private theorem poller_eq (h : Alike q own own' l l') {epoch : Nat} {x x' : Poller}
    (hx : l.poller? ⟨q, epoch⟩ = some x) (hx' : l'.poller? ⟨q, epoch⟩ = some x') : x = x' := by
  have hpoller : l.poller? ⟨q, epoch⟩ = l'.poller? ⟨q, epoch⟩ := Alike.poller? (p := ⟨q, epoch⟩) h
  exact Option.some.inj (hx.symm.trans (hpoller.trans hx'))

/-- Calls in one place wait for the same. -/
private theorem wait_eq (h : Alike q own own' l l') {place : Nat} {c c' : Call}
    (hc : (l.callsOf q)[place]? = some c) (hc' : (l'.callsOf q)[place]? = some c') :
    c.wait = c'.wait := by
  have hwaits : (l.callsOf q).map (·.wait) = (l'.callsOf q).map (·.wait) := congrArg View.waits h
  have hplace := congrArg (·[place]?) hwaits
  simpa only [List.getElem?_map, hc, hc', Option.map_some, Option.some.injEq] using hplace

/-- The queue has a station in both or in neither. -/
private theorem mem_names (h : Alike q own own' l l') : q ∈ l.names ↔ q ∈ l'.names := by
  rw [← isSome_station?, ← isSome_station?, h.station]

/-- Both stop the queue in the same way. -/
theorem stop (h : Alike q own own' l l') (hl : l.active) (hl' : l'.active) (now call call' : Nat) :
    Alike q own own' (l.stop now call q) (l'.stop now call' q) := by
  unfold Listener.stop
  rw [hl, hl', h.station]
  cases l'.station? q with
  | none => exact h.returned call call' _ _
  | some s => exact h.stopEach now call call'

/-- One input does the same to listeners that show the same of its queue. -/
theorem after (h : Alike q (l.owns q) (l'.owns q) l l') (hl : l.Regular) (hl' : l'.Regular)
    (hs : IsInput q now l s i) (hs' : IsInput q now l' s' i) :
    Alike q (l.owns q) (l'.owns q) (l.after now s) (l'.after now s') := by
  -- By the input: both stimuli fit it, and what each of them does is known.
  cases i with
  | start =>
    rw [Alike, view_after_start hl hs, view_after_start hl' hs']
    by_cases hq : q ∈ l.names
    · rw [if_pos hq, if_pos (h.mem_names.mp hq)]
      exact h.startQueue
    · rw [if_neg hq, if_neg (mt h.mem_names.mpr hq)]
      exact h
  | stop =>
    cases hs
    cases hs'
    exact h.stop hl.active hl'.active now _ _
  | discard =>
    cases hs
    cases hs'
    exact h.discard hl.queues_nodup hl'.queues_nodup
  | goOn epoch =>
    cases hs with
    | @goOn _ x hx hc =>
      cases hs' with
      | @goOn _ x' hx' hc' =>
        -- It is the same poller in both.
        obtain rfl := h.poller_eq hx hx'
        obtain ⟨hmem, hid⟩ := poller?_eq_some hx
        obtain rfl : q = x.id.queue := by rw [hid]
        rw [after_goOn hx hc, after_goOn hx' hc']
        exact (h.setPhase _ _).goOn (hl.roomy.calm.hands x hmem) now
  | answer epoch a =>
    cases hs with
    | @answer _ since x _ hx hphase =>
      cases hs' with
      | @answer _ since' x' _ hx' hphase' =>
        obtain rfl := h.poller_eq hx hx'
        obtain rfl : since = since' := Phase.receiving.inj (hphase.symm.trans hphase')
        rw [after_answer hx hphase, after_answer hx' hphase']
        exact (h.setPhase _ _).takeAnswer (p := ⟨q, epoch⟩) (hl.roomy.setPhase_ready hx)
          (hl'.roomy.setPhase_ready hx') (.setPhase_ready hx) (.setPhase_ready hx') now since a
  | beginJob place =>
    cases hs with
    | @beginJob _ j hj hphase =>
      cases hs' with
      | @beginJob _ j' hj' hphase' =>
        rw [after_beginJob hl.sound hj hphase, after_beginJob hl'.sound hj' hphase']
        exact h.beginJob (hl.twins hl' hj hj') (owns_of_place hj) (owns_of_place hj')
  | endJob place r =>
    cases hs with
    | @endJob _ j _ hj hphase =>
      cases hs' with
      | @endJob _ j' _ hj' hphase' =>
        rw [after_endJob hl.sound hj hphase, after_endJob hl'.sound hj' hphase']
        exact h.endJob (hl.twins hl' hj hj') (owns_of_place hj) (owns_of_place hj') r
  | deleted place r =>
    cases hs with
    | @deleted _ j _ hj hphase =>
      cases hs' with
      | @deleted _ j' _ hj' hphase' =>
        rw [after_deleted hl.sound hj hphase, after_deleted hl'.sound hj' hphase']
        exact h.finishDelete (hl.twins hl' hj hj') r
  | proceed place =>
    cases hs with
    | @proceed _ c hc hgo =>
      cases hs' with
      | @proceed _ c' hc' hgo' =>
        -- Both wait for the same poller of the queue; the numbers of the calls do not matter.
        have hstop := hl.isStop_of_place hc
        have hstop' := hl'.isStop_of_place hc'
        obtain ⟨p, t, hw, rfl⟩ := hstop.exists_wait (isFor_of_place hc)
        have hw' : c'.wait = .poller p t := (h.wait_eq hc hc').symm.trans hw
        rw [after_proceed (call?_of_place hl hc) hgo, after_proceed (call?_of_place hl' hc') hgo']
        exact (h.removeCall hl.numbers_nodup hl'.numbers_nodup hc hc').proceed hw hw'
          ⟨hstop.goal, hstop.rest⟩ ⟨hstop'.goal, hstop'.rest⟩ now

end Alike

/-! ## What a queue does by itself -/

/-- Whether a poller without a message in hand can go on is for itself to say. -/
private theorem canGoOn_of_hand {x : Poller} (hx : x.phase.hand = []) (l l' : Listener)
    (now : Nat) : l.canGoOn now x = l'.canGoOn now x := by
  unfold canGoOn
  -- Only a poller that waits for a worker depends on the workers, and it has something in hand.
  cases hphase : x.phase with
  | submitting =>
    rw [hphase] at hx
    cases hx
  | _ => rfl

/-- A stop goes on when its poller is gone or its time is up. -/
private theorem canProceed_of_wait {c : Call} {p : PollerId} {t : Nat} (hw : c.wait = .poller p t) :
    l.canProceed now c = (!l.isAlive p || decide (t ≤ now)) := by
  rw [canProceed, hw]

namespace Alike

/-- A call goes on in both or in neither. -/
theorem canProceed (h : Alike q own own' l l') (hl : l.Regular)
    (hgo : ∃ c ∈ l.callsOf q, l.canProceed now c) : ∃ c ∈ l'.callsOf q, l'.canProceed now c := by
  obtain ⟨c, hc, hgo⟩ := hgo
  obtain ⟨hmem, hfor⟩ := List.mem_filter.mp hc
  obtain ⟨p, t, hw, rfl⟩ := (hl.calls c hmem).exists_wait hfor
  -- The waits for pollers of the queue are in the view, so the other has the same wait.
  have hwaits : (l.callsOf p.queue).map (·.wait) = (l'.callsOf p.queue).map (·.wait) :=
    congrArg View.waits h
  obtain ⟨c', hc', hw'⟩ := List.mem_map.mp (hwaits ▸ List.mem_map_of_mem hc)
  refine ⟨c', hc', ?_⟩
  rwa [canProceed_of_wait (hw'.trans hw), ← h.isAlive, ← canProceed_of_wait hw]

/-- Listeners that show the same of a queue let it go on by itself at the same instants. -/
theorem isBusy (h : Alike q own own' l l') (hl : l.Regular) (hl' : l'.Regular) (now : Nat) :
    l.isBusy q now = l'.isBusy q now := by
  -- The three lists in turn: pollers, jobs and calls show in the view.
  have hpollers : (l.pollersOf q).any (l.canGoOn now) = (l'.pollersOf q).any (l'.canGoOn now) := by
    rw [← h.pollers, Bool.eq_iff_iff, List.any_eq_true, List.any_eq_true]
    refine exists_congr fun x => and_congr_right fun hx => ?_
    rw [canGoOn_of_hand (hl.roomy.calm.hands x (List.mem_of_mem_filter hx)) l l']
  have hjobs : (l.jobsOf q).any (·.phase = .accepted) =
      (l'.jobsOf q).any (·.phase = .accepted) := by
    have hworks : (l.jobsOf q).map Job.work = (l'.jobsOf q).map Job.work := congrArg View.jobs h
    have hany := congrArg (fun ws => ws.any (·.2 = .accepted)) hworks
    rw [List.any_map, List.any_map] at hany
    exact hany
  have hcalls : (l.callsOf q).any (l.canProceed now) = (l'.callsOf q).any (l'.canProceed now) := by
    rw [Bool.eq_iff_iff, List.any_eq_true, List.any_eq_true]
    exact ⟨h.canProceed hl, h.symm.canProceed hl'⟩
  rw [Listener.isBusy, Listener.isBusy, hpollers, hjobs, hcalls]

end Alike

/-- What a queue does by itself keeps it busy until it is done. -/
theorem isBusy_of_isInput (hs : IsInput q now l s i) (hi : i.isInner) : l.isBusy q now := by
  -- One of the three lists has somebody who is due.
  unfold isBusy
  cases hs with
  | @goOn _ x hx hc =>
    obtain ⟨hmem, hid⟩ := poller?_eq_some hx
    have hmem' : x ∈ l.pollersOf q := List.mem_filter.mpr ⟨hmem, by simp [hid]⟩
    have hpoller : (l.pollersOf q).any (l.canGoOn now) := List.any_eq_true.mpr ⟨x, hmem', hc⟩
    simp [hpoller]
  | @beginJob _ j hj hphase =>
    have hjob : (l.jobsOf q).any (·.phase = .accepted) :=
      List.any_eq_true.mpr ⟨j, List.mem_of_getElem? hj, decide_eq_true hphase⟩
    simp only [hjob, Bool.or_true, Bool.true_or]
  | @proceed _ c hc hgo =>
    have hcall : (l.callsOf q).any (l.canProceed now) :=
      List.any_eq_true.mpr ⟨c, List.mem_of_getElem? hc, hgo⟩
    simp [hcall]
  | _ => cases hi

/-! ## Everything else -/

/-- A job of another queue is not the queue's own. -/
private theorem owns_eq_false (hl : l.Sound) {j : Job} (hj : j ∈ l.jobs) (hq : j.queue ≠ q) :
    l.owns q j.number = false := by
  have hnumbers := not_mem_numbers_jobsOf hl.numbers_nodup hj hq
  unfold owns
  rw [List.any_eq_false]
  intro i hi he
  exact hnumbers (List.mem_map.mpr ⟨i, hi, by simpa using he⟩)

/-- Starting another queue does not show. -/
private theorem view_start_of_ne {j : String} (hj : j ≠ q) (call : Nat) :
    (l.start call j).view q own = l.view q own := by
  unfold start
  split
  · exact view_returned l call _
  · split
    · exact view_returned l call _
    · exact (view_returned _ call _).trans (view_startQueue_of_ne hj)

/-- Nor does stopping it. -/
private theorem view_stop_of_ne {j : String} (hj : j ≠ q) (call : Nat) :
    (l.stop now call j).view q own = l.view q own := by
  unfold stop
  split
  · exact view_returned l call _
  · split
    · exact view_returned l call _
    · exact view_stopEach_of_not_mem (by simpa using Ne.symm hj)

/-- A job that fits a stimulus which is no input for a queue is one of another queue. -/
private theorem elsewhere_of_job? {n : Nat} {ph : JobPhase} {j : Job} (hl : l.Sound)
    (hnone : (l.jobsOf q).findIdx? (fun j => j.number = n ∧ j.phase = ph) = none)
    (hj : l.job? n = some j) (hphase : j.phase = ph) :
    j.queue ≠ q ∧ j.number ∉ (l.jobsOf q).map (·.number) ∧ l.owns q j.number = false := by
  obtain ⟨hmem, hnumber⟩ := job?_eq_some hj
  -- A job of the queue in that phase would have been found among those of the queue.
  have hq : j.queue ≠ q := by
    intro hq
    have hj' := List.findIdx?_eq_none_iff.mp hnone j (List.mem_filter.mpr ⟨hmem, by simpa⟩)
    simp [hnumber, hphase] at hj'
  exact ⟨hq, not_mem_numbers_jobsOf hl.numbers_nodup hmem hq, owns_eq_false hl hmem hq⟩

/-- A call that can go on at a stimulus which is no input for a queue waits for another queue. -/
private theorem elsewhere_of_call? {n : Nat} {c : Call} (hl : l.Regular)
    (hnone : (l.callsOf q).findIdx? (fun c => c.number = n ∧ l.canProceed now c) = none)
    (hc : l.call? n = some c) (hgo : l.canProceed now c) :
    ¬ c.isFor q ∧ c.number ∉ (l.callsOf q).map (·.number) := by
  obtain ⟨hmem, hnumber⟩ := List.mem_of_find?_key hc
  -- A call for the queue that may go on would have been found among those of the queue.
  have hfor : ¬ c.isFor q := by
    intro hfor
    have hc' := List.findIdx?_eq_none_iff.mp hnone c (List.mem_filter.mpr ⟨hmem, hfor⟩)
    simp [hnumber, hgo] at hc'
  refine ⟨hfor, fun hn => ?_⟩
  obtain ⟨c', hc', he⟩ := List.mem_map.mp hn
  obtain ⟨hmem', hfor'⟩ := List.mem_filter.mp hc'
  exact hfor (List.eq_of_key_eq Call.number hl.numbers_nodup hmem' hmem he ▸ hfor')

/-- What is no input for a queue leaves the queue as it is. -/
theorem view_after_of_input?_eq_none (hl : l.Regular) (hs : s.isClosing = false)
    (h : l.input? q now s = none) :
    (l.after now s).view q (l.owns q) = l.view q (l.owns q) := by
  -- By the stimulus: it is for another queue, or it does not fit and does nothing.
  cases s with
  | start call j => exact view_start_of_ne (by simpa [input?] using h) call
  | stop call j => exact view_stop_of_ne (by simpa [input?] using h) call
  | startAll | discard => cases h
  | stopAll | shutdown => cases hs
  | goOn p =>
    unfold after
    dsimp only
    split
    next x hx =>
      split
      next hc =>
        have hp : p.queue ≠ q := by simpa [input?, hx, hc] using h
        obtain ⟨-, rfl⟩ := poller?_eq_some hx
        rw [view_goOn_of_ne hp, view_setPhase_of_ne hp]
      next => rfl
    next => rfl
  | answer p a =>
    unfold after
    dsimp only
    split
    next x hx =>
      split
      next since hphase =>
        have hp : p.queue ≠ q := by simpa [input?, hx, hphase, Phase.isReceiving] using h
        rw [view_takeAnswer_of_ne hp, view_setPhase_of_ne hp]
      next => rfl
    next => rfl
  | beginJob n =>
    unfold after
    dsimp only
    split
    next j hj =>
      split
      next hphase =>
        obtain ⟨-, hn, ho⟩ := elsewhere_of_job? hl.sound (Option.map_eq_none_iff.mp h) hj hphase
        exact view_beginJob_of_ne hn ho
      next => rfl
    next => rfl
  | endJob n r =>
    unfold after
    dsimp only
    split
    next j hj =>
      split
      next hphase =>
        obtain ⟨hq, hn, ho⟩ := elsewhere_of_job? hl.sound (Option.map_eq_none_iff.mp h) hj hphase
        exact view_endJob_of_ne hq hn ho r
      next => rfl
    next => rfl
  | deleted n r =>
    unfold after
    dsimp only
    split
    next j hj =>
      split
      next hphase =>
        obtain ⟨hq, hn, -⟩ := elsewhere_of_job? hl.sound (Option.map_eq_none_iff.mp h) hj hphase
        exact view_finishDelete_of_ne hq hn r
      next => rfl
    next => rfl
  | proceed n =>
    unfold after
    dsimp only
    split
    next c hc =>
      split
      next hgo =>
        obtain ⟨hfor, hn⟩ := elsewhere_of_call? hl (Option.map_eq_none_iff.mp h) hc hgo
        have hstop := hl.calls c (List.mem_of_find?_key hc).1
        obtain ⟨p, t, hw⟩ := hstop.wait
        have hp : p.queue ≠ q := by simpa [Call.isFor, hw] using hfor
        exact view_proceed_of_ne hw hp hstop.goal (by simp [hstop.rest]) hn
      next => rfl
    next => rfl

end Listener

end Intake
