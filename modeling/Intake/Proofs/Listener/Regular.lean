import Intake.Proofs.Listener.Staffing

/-!
# Before any call that concerns all queues

Until the listener is shut down or all its queues are stopped at once, there is a worker for
each message that has a slot, and each pending call waits for one poller and returns then.

- `Roomy`: no message has to wait for a worker
- `Regular`: there is room, and each pending call stops one queue
- `CallsNext`: what a step does to the pending calls
- `Regular.react`: a listener stays regular as long as calls have different numbers
-/

namespace Intake

/-- Whether a stimulus ends the listener or stops all queues. -/
def Stimulus.isClosing : Stimulus → Bool
  | stopAll _ | shutdown _ => true
  | _ => false

/-- A call that stops one queue. -/
structure Call.IsStop (c : Call) : Prop where
  goal : c.goal = .stop
  rest : c.rest = []
  wait : ∃ p t, c.wait = .poller p t

namespace Listener

variable {l l' : Listener} {q : String} {p : PollerId} {d : Delivery} {now : Nat} {s : Stimulus}

/-! ## Room for messages -/

/-- A listener takes tasks, with a worker for each message that can be in hand. -/
structure Roomy (l : Listener) : Prop where
  staffed : l.Staffed
  running : l.workers.running

namespace Roomy

/-- With room for everyone all is calm. -/
theorem calm (h : l.Roomy) : l.Calm := h.staffed.calm h.running

/-- Where a slot is free, so is a worker. -/
theorem admission (h : l.Roomy) {s : Station} (hs : l.station? q = some s)
    (hfree : 0 < s.slots.free) : l.workers.admission = .accepted :=
  Workers.admission_of_free h.running
    (h.staffed.free_pos h.running (takeSlot?_eq_some_iff.mpr ⟨s, hs, hfree, rfl⟩))

/-- No message has to wait for a worker. -/
theorem exists_fate (h : l.Roomy) (p : PollerId) (d : Delivery) :
    ∃ f, (l.offer p d).1 = some f := by
  rcases h.staffed.fate h.running (offered l p d) with he | he | ⟨he, -⟩ <;> exact ⟨_, he⟩

/-- An offer leaves room. -/
theorem offer (h : l.Roomy) (hw : l.AtWork p) (d : Delivery) : (l.offer p d).2.Roomy := by
  obtain ⟨f, hf⟩ := h.exists_fate p d
  have hmove : Move (fun _ _ => True) (.poller p) l (l.offer p d).2 := .wentPast hw trivial hf
  exact ⟨h.staffed.move hmove, (offered l p d).running.trans h.running⟩

/-- So does a phase set to ready. -/
theorem setPhase_ready (h : l.Roomy) {x : Poller} (hx : l.poller? p = some x) :
    (l.setPhase p .ready).Roomy :=
  ⟨h.staffed.move (Move.woke (G := fun _ _ => True) hx (h.calm.hands x (poller?_eq_some hx).1)),
    h.running⟩

end Roomy

/-! ## Pending calls -/

/-- Until a call ends the listener or stops all queues: there is a worker for each message that
    can be in hand, and each pending call stops one queue. -/
structure Regular (l : Listener) : Prop where
  roomy : l.Roomy
  active : l.active
  queues_nodup : l.lifecycle.queues.names.Nodup
  calls : ∀ c ∈ l.calls, c.IsStop
  numbers_nodup : (l.calls.map (·.number)).Nodup
  outbox : l.outbox = []

/-- A regular listener is sound. -/
theorem Regular.sound (h : l.Regular) : l.Sound := h.roomy.staffed.sound

/-- With an empty outbox the reaction is what happens. -/
theorem react_of_outbox (h : l.outbox = []) (now : Nat) (s : Stimulus) : l.react now s =
    ({ l.after now s with outbox := [] }, (l.after now s).outbox.reverse) := by
  have hcleared : ({ l with outbox := [] } : Listener) = l := by
    rw [← h]
  rw [react, hcleared]

/-- Whether the listener is active, and its pending calls. -/
def bench (l : Listener) : Bool × List Call := (l.active, l.calls)

/-- What a step does to the pending calls, unless it concerns all queues. -/
inductive CallsNext (l : Listener) : Stimulus → Listener → Prop
  | same {s : Stimulus} {l' : Listener} (h : l'.bench = l.bench) : CallsNext l s l'
  /-- A stop has to wait for a poller. -/
  | waiting {l' : Listener} (j : String) {c : Call} (hc : c.IsStop)
    (h : l'.bench = (l.active, l.calls ++ [c])) : CallsNext l (.stop c.number j) l'
  /-- A call has gone on and returned. -/
  | gone {s : Stimulus} {l' : Listener} (n : Nat)
    (h : l'.bench = (l.active, l.calls.filter (·.number ≠ n))) : CallsNext l s l'

/-- A fold of what leaves the bench leaves it. -/
private theorem bench_foldl {α : Type} {f : Listener → α → Listener}
    (hf : ∀ m x, (f m x).bench = m.bench)
    (xs : List α) (l : Listener) : (xs.foldl f l).bench = l.bench := by
  induction xs generalizing l with
  | nil => rfl
  | cons x xs ih => exact (ih (f l x)).trans (hf l x)

/-- Starting a queue leaves the bench. -/
private theorem bench_startQueue (l : Listener) (j : String) :
    (l.startQueue j).bench = l.bench := by
  unfold startQueue
  split <;> rfl

/-- Forgetting a broken poller leaves it. -/
private theorem bench_forgetBroken (l : Listener) (p : PollerId) :
    (l.forgetBroken p).bench = l.bench := by
  unfold forgetBroken
  split <;> rfl

/-- A stop that goes on returns. -/
private theorem bench_proceed {c : Call} (hc : c.IsStop) (now : Nat) : (l.proceed now c).bench =
    (l.active, l.calls.filter (·.number ≠ c.number)) := by
  obtain ⟨p, t, hw⟩ := hc.wait
  unfold proceed
  rw [hw, hc.goal, hc.rest]
  exact (bench_forgetBroken _ p).trans (bench_foldl (f := report) (fun _ _ => rfl) _ _)

/-- A stop of one queue waits for its poller, or returns at once. -/
private theorem callsNext_stop (l : Listener) (now call : Nat) (j : String) :
    CallsNext l (.stop call j) (l.stop now call j) := by
  -- Failed, returned at once, or waiting for the poller of the epoch that it ends.
  unfold stop
  split
  · exact .same rfl
  · split
    · exact .same rfl
    · unfold stopEach
      split
      · exact .same rfl
      next e _ =>
        exact .waiting (c := ⟨call, .stop, [], .poller ⟨j, e⟩ (now + l.settings.stopTimeout)⟩) j
          ⟨rfl, rfl, _, _, rfl⟩ rfl

/-- Only stop calls come to the pending calls, and only a call that goes on leaves them. -/
theorem callsNext_after (hl : l.Regular) (now : Nat) (hs : s.isClosing = false)
    (ha : ∃ call, s.actor = .caller call) : CallsNext l s (l.after now s) := by
  -- By the stimulus, without the two that close; what jobs and pollers do is no caller's.
  cases s with
  | start call j =>
    refine .same ?_
    unfold after start
    dsimp only
    split
    · rfl
    · split
      · rfl
      · exact bench_startQueue l j
  | startAll call =>
    refine .same ?_
    unfold after startAll
    dsimp only
    split
    · rfl
    · exact bench_foldl bench_startQueue _ l
  | stop call j => exact callsNext_stop l now call j
  | stopAll | shutdown => cases hs
  | discard => exact .same (bench_foldl (f := signal) (fun _ _ => rfl) _ _)
  | proceed n =>
    unfold after
    dsimp only
    split
    next c hc =>
      split
      · -- Each pending call is a stop, so it returns.
        exact .gone c.number (bench_proceed (hl.calls c (List.mem_of_find?_key hc).1) now)
      · exact .same rfl
    next => exact .same rfl
  | goOn | answer | beginJob | endJob | deleted =>
    obtain ⟨call, hcall⟩ := ha
    cases hcall

/-- So it is with a reaction. -/
theorem callsNext_react (hl : l.Regular) (now : Nat) (hs : s.isClosing = false) :
    CallsNext l s (l.react now s).1 := by
  -- Whatever is no caller's leaves the desk.
  by_cases ha : ∃ call, s.actor = .caller call
  · rw [react_of_outbox hl.outbox]
    have hnext := callsNext_after hl now hs ha
    generalize l.after now s = m at hnext
    cases hnext with
    | same h => exact .same h
    | waiting j hc h => exact .waiting j hc h
    | gone n h => exact .gone n h
  · have hdesk := desk_react (l := l) now fun call he => ha ⟨call, he⟩
    exact .same (Prod.ext (active_of_desk hdesk) (calls_of_desk hdesk))

/-- The numbers of the pending calls and of those that are still to come are all different. -/
def Numbered (l : Listener) (xs : List (Nat × Stimulus)) : Prop :=
  (l.calls.map (·.number) ++ xs.filterMap (·.2.request?)).Nodup

/-- Call numbers stay different. -/
theorem Numbered.react {xs : List (Nat × Stimulus)} (h : l.Numbered ((now, s) :: xs))
    (hl : l.Regular) (hs : s.isClosing = false) : (l.react now s).1.Numbered xs := by
  have hnext := callsNext_react hl now hs
  -- The numbers to come are those of the rest, besides the pending ones.
  have hlater : (xs.filterMap (·.2.request?)).Sublist
      (((now, s) :: xs).filterMap (·.2.request?)) := (List.sublist_cons_self _ _).filterMap _
  unfold Numbered at h ⊢
  generalize (l.react now s).1 = m at hnext ⊢
  cases hnext with
  | same hm =>
    rw [show m.calls = l.calls from congrArg Prod.snd hm]
    exact h.sublist (hlater.append_left _)
  | waiting j _ hm =>
    rw [show m.calls = _ from congrArg Prod.snd hm]
    simpa [Stimulus.request?] using h
  | gone n hm =>
    rw [show m.calls = _ from congrArg Prod.snd hm]
    exact h.sublist ((List.filter_sublist.map _).append hlater)

/-- A step that does not concern all queues leaves a listener regular. -/
theorem Regular.react {xs : List (Nat × Stimulus)} (hl : l.Regular) (hs : s.isClosing = false)
    (hn : (l.react now s).1.Numbered xs) : (l.react now s).1.Regular := by
  -- The lists of calls are the old one, one more, or one fewer.
  have hnext := callsNext_react hl now hs
  have hactive : (l.react now s).1.active := by
    generalize (l.react now s).1 = m at hnext
    cases hnext with
    | same h | waiting _ _ h | gone _ h => exact (congrArg Prod.fst h).trans hl.active
  -- Nothing shuts the workers down, since no pending call is a shutdown.
  have hopen : l.active → l.Open := fun _ => ⟨hl.roomy.running, fun c hc => (hl.calls c hc).goal⟩
  refine ⟨⟨hl.roomy.staffed.react now s, (open_react hopen now s hactive).running⟩, hactive,
    lifecycle_keeps Lifecycle.Next.nodup hl.queues_nodup now s, fun c hc => ?_,
    (List.nodup_append.mp hn).1, rfl⟩
  generalize (l.react now s).1 = m at hnext hc
  cases hnext with
  | same h =>
    rw [show m.calls = l.calls from congrArg Prod.snd h] at hc
    exact hl.calls c hc
  | waiting j hstop h =>
    rw [show m.calls = _ from congrArg Prod.snd h] at hc
    rcases List.mem_append.mp hc with hc | hc
    · exact hl.calls c hc
    · rw [List.mem_singleton.mp hc]
      exact hstop
  | gone n h =>
    rw [show m.calls = _ from congrArg Prod.snd h] at hc
    exact hl.calls c (List.mem_of_mem_filter hc)

end Listener

end Intake
