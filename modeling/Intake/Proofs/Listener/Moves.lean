import Intake.Proofs.Listener.Frame
import Mathlib.Logic.Relation

/-!
# What a listener does in one step, move by move

A stimulus makes a listener do several things at once: a poller goes through a batch
and begins its next round, a stop tells one poller after another.  A `Move` is the
smallest part of that which leaves every slot accounted for.  Whatever each move
keeps, every step keeps (`moves_after`).

The moves say nothing about the work on a message that the workers have taken: the
stimuli for jobs (`Stimulus.job?`) do one thing each.

All moves of a step are made by the same `Actor`.  The parameter `G` tells which
deliveries may be handed on: a poller of a queue hands on only what `G` allows for that
queue.
-/

namespace Intake

/-- The job for which a stimulus is: it is about a message that the workers have taken. -/
def Stimulus.job? : Stimulus → Option Nat
  | .beginJob n | .endJob n _ | .deleted n _ => some n
  | _ => none

/-- Who acts in a step. -/
inductive Actor
  | poller (p : PollerId)
  /-- Whoever made a call; without a call, whoever gives the listener up. -/
  | caller (call : Option Nat)
  | job (n : Nat)
deriving DecidableEq

/-- Who acts at a stimulus. -/
def Stimulus.actor : Stimulus → Actor
  | .start call _ | .startAll call | .stop call _ | .stopAll call | .shutdown call
  | .proceed call => .caller (some call)
  | .discard => .caller none
  | .goOn p | .answer p _ => .poller p
  | .beginJob n | .endJob n _ | .deleted n _ => .job n

/-- A stimulus of a job has that job for its actor. -/
theorem Stimulus.actor_of_job? {s : Stimulus} {n : Nat} (h : s.job? = some n) :
    s.actor = .job n := by
  cases s with
  | beginJob | endJob | deleted => exact congrArg Actor.job (Option.some.inj h)
  | _ => cases h

namespace Listener

/-- One part of a step of a listener. -/
inductive Move (G : String → Delivery → Prop) : Actor → Listener → Listener → Prop
  | noted {a : Actor} {l : Listener} (n : Notice) : Move G a l (l.report n)
  | returned {l : Listener} (call : Nat) (r : Except ListenerError Unit) :
    Move G (.caller (some call)) l (l.emit (.returned call r))
  /-- A queue is started: a poller for its next epoch is there. -/
  | opened {call : Option Nat} {l : Listener} {q : String} {e : Nat}
    (he : l.lifecycle.nextEpoch? q = some e) :
    Move G (.caller call) l { l with lifecycle := l.lifecycle.beginStart q,
                                     pollers := l.pollers ++ [⟨⟨q, e⟩, .fresh, false⟩] }
  /-- A poller without a message in hand is at work again. -/
  | woke {l : Listener} {p : PollerId} {x : Poller} (hx : l.poller? p = some x)
    (hh : x.phase.hand = []) : Move G (.poller p) l (l.setPhase p .ready)
  /-- A poller goes past a message. -/
  | wentPast {l : Listener} {p : PollerId} {d : Delivery} {f : Fate} (hw : l.AtWork p)
    (hd : G p.queue d) (hf : (l.offer p d).1 = some f) : Move G (.poller p) l (l.offer p d).2
  /-- A poller begins to wait for a worker. -/
  | queued {l : Listener} {p : PollerId} {d : Delivery} {ds : List Delivery} (hw : l.AtWork p)
    (hd : ∀ e ∈ d :: ds, G p.queue e) (hf : (l.offer p d).1 = none) :
    Move G (.poller p) l ((l.offer p d).2.setPhase p (.submitting d ds))
  /-- A poller that waited for a worker is at work again and goes past its message. -/
  | wentOn {l : Listener} {p : PollerId} {x : Poller} {d : Delivery} {ds : List Delivery}
    (hx : l.poller? p = some x) (hh : x.phase = .submitting d ds) (hd : G p.queue d) :
    Move G (.poller p) l ((l.setPhase p .ready).offerAgain p d).2
  /-- A poller whose epoch is over ends. -/
  | retired {l : Listener} {p : PollerId} (hw : l.AtWork p)
    (hc : l.station? p.queue = none ∨ l.isCurrent p = false) : Move G (.poller p) l (l.retire p)
  | parked {l : Listener} {p : PollerId} (hw : l.AtWork p) {ph : Phase} (hp : ph.listens) :
    Move G (.poller p) l (l.park p ph)
  /-- A poller makes a receive call. -/
  | asked {l : Listener} {p : PollerId} {s : Station} (now : Nat) (hw : l.AtWork p)
    (hs : l.station? p.queue = some s) (hc : l.isCurrent p) (hf : 0 < s.slots.free) :
    Move G (.poller p) l ((l.setPhase p (.receiving now)).emit
      (.receive p s.slots.free (l.polling s.source s.slots.free)))
  | broke {l : Listener} {p : PollerId} (hw : l.AtWork p) (text : String) :
    Move G (.poller p) l (l.setPhase p (.broken text))
  /-- A running queue begins to stop: its poller is told. -/
  | stopping {call : Option Nat} {l : Listener} {q : String} {e : Nat}
    (he : l.lifecycle.runningEpoch? q = some e) :
    Move G (.caller call) l
      (({ l with lifecycle := l.lifecycle.beginStop q } : Listener).signal ⟨q, e⟩)
  | stopped {call : Option Nat} {l : Listener} (q : String) (e : Nat) :
    Move G (.caller call) l { l with lifecycle := l.lifecycle.finishStop q e }
  | cleared {call : Option Nat} {l : Listener} :
    Move G (.caller call) l { l with lifecycle := l.lifecycle.clear }
  /-- A poller is told to stop when the listener is given up. -/
  | told {l : Listener} (p : PollerId) : Move G (.caller none) l (l.signal p)
  | forgot {call : Option Nat} {l : Listener} (p : PollerId) :
    Move G (.caller call) l (l.forgetBroken p)
  | calling {call : Nat} {l : Listener} (goal : CallGoal) (rest : List String) (wait : CallWait) :
    Move G (.caller (some call)) l { l with calls := l.calls ++ [⟨call, goal, rest, wait⟩] }
  | called {l : Listener} (n : Nat) :
    Move G (.caller (some n)) l { l with calls := l.calls.filter (·.number ≠ n) }
  | draining {call : Option Nat} {l : Listener} :
    Move G (.caller call) l { l with workers := l.workers.beginShutdown }
  | closed {call : Option Nat} {l : Listener} :
    Move G (.caller call) l { l with workers := l.workers.close }
  | finished {call : Option Nat} {l : Listener} :
    Move G (.caller call) l { l with active := false }

/-- Any number of moves of one actor. -/
abbrev Moves (G : String → Delivery → Prop) (a : Actor) : Listener → Listener → Prop :=
  Relation.ReflTransGen (Move G a)

variable {G : String → Delivery → Prop} {a : Actor} {l l' : Listener}

/-- One move is a chain of moves. -/
theorem Move.moves (h : Move G a l l') : Moves G a l l' := .single h

/-- Whatever each move keeps, any number of moves keep. -/
theorem Moves.keep {P : Listener → Prop} (hP : ∀ {l l'}, Move G a l l' → P l → P l')
    (h : Moves G a l l') (hl : P l) : P l' := by
  -- The moves are taken off from the last one on.
  induction h with
  | refl => exact hl
  | tail _ hm ih => exact hP hm ih

/-! ## Pollers -/

section Pollers

variable {p : PollerId} {d : Delivery} {ds : List Delivery}

/-- Offering a message leaves a poller at work. -/
theorem Offered.atWork {o : Option Fate} (h : Offered l p d o l') (hw : l.AtWork p) :
    l'.AtWork p := by
  cases h with
  | noSlot => exact hw
  | outdated hm => exact (hw.takeSlot? hm).releaseSlot p.queue
  | taken hm => exact (hw.takeSlot? hm :)
  | @refused m hm =>
    -- The slot comes back after the workers have turned the message away.
    have hm' : ({ m with workers := l.workers.submit p } : Listener).AtWork p :=
      (hw.takeSlot? hm :)
    exact hm'.releaseSlot p.queue
  | queued hm => exact (hw.takeSlot? hm :)

/-- A poller is at work after its submission was called. -/
theorem AtWork.offerAgain (hw : l.AtWork p) : (l.offerAgain p d).2.AtWork p := by
  unfold Listener.offerAgain
  dsimp only
  split
  · exact hw
  · exact AtWork.releaseSlot (l := { l with workers := l.workers.resume p }) hw p.queue

/-- Beginning a round is a chain of moves. -/
theorem moves_beginRound (now : Nat) (hw : l.AtWork p) :
    Moves G (.poller p) l (l.beginRound now p) := by
  -- Each branch is one move.
  unfold beginRound
  split
  next hs => exact (Move.retired hw (.inl hs)).moves
  next s hs =>
    split
    next hc => exact (Move.retired hw (.inr (by simpa using hc))).moves
    next hc =>
      split
      next hf => exact (Move.parked hw rfl).moves
      next hf => exact (Move.asked now hw hs (by simpa using hc) (Nat.pos_of_ne_zero hf)).moves

/-- Handing on goes over a message that has a fate. -/
theorem dispatch_cons_of_some (now : Nat) {f : Fate} (hf : (l.offer p d).1 = some f) :
    l.dispatch now p (d :: ds) = (l.offer p d).2.dispatch now p ds := by
  rw [dispatch, handOn_cons_of_some hf, dispatch]
  -- How the batch ends depends on the rest alone.
  generalize (l.offer p d).2.handOn p ds = r
  obtain ⟨fs, rest, l'⟩ := r
  cases rest <;> rfl

/-- It stops at one that has none. -/
theorem dispatch_cons_of_none (now : Nat) (hf : (l.offer p d).1 = none) :
    l.dispatch now p (d :: ds) = (l.offer p d).2.setPhase p (.submitting d ds) := by
  rw [dispatch, handOn_cons_of_none hf]

/-- Handing on is a chain of moves. -/
private theorem moves_dispatch (now : Nat) (hw : l.AtWork p) (hds : ∀ e ∈ ds, G p.queue e) :
    Moves G (.poller p) l (l.dispatch now p ds) := by
  induction ds generalizing l with
  | nil => exact moves_beginRound now hw
  | cons d ds ih =>
    cases hf : (l.offer p d).1 with
    | none => exact dispatch_cons_of_none now hf ▸ (Move.queued hw hds hf).moves
    | some f =>
      -- The rest of the batch is dispatched from the state after this message.
      rw [dispatch_cons_of_some now hf]
      exact .head (.wentPast hw (hds d List.mem_cons_self) hf)
        (ih ((offered l p d).atWork hw) fun e he => hds e (List.mem_cons_of_mem d he))

/-- So is taking an answer. -/
private theorem moves_takeAnswer (now since : Nat) {a : Answer} (hw : l.AtWork p)
    (ha : ∀ ds, a = .batch ds → ∀ d ∈ ds, G p.queue d) :
    Moves G (.poller p) l (l.takeAnswer now since p a) := by
  -- By the answer; a failure is noted before the poller rests.
  unfold takeAnswer
  split
  next text => exact (Move.broke hw text).moves
  next cause =>
    have hw' : (l.report (.receiveFailed p.queue cause l.settings.backoff)).AtWork p := hw
    exact .head (.noted _) (Move.parked hw' rfl).moves
  next =>
    dsimp only
    split
    · exact .refl
    · exact (Move.parked hw rfl).moves
  next ds _ => exact moves_dispatch now hw (ha ds rfl)

/-- So is going on. -/
private theorem moves_goOn (now : Nat) {x : Poller} (hx : l.poller? p = some x)
    (hc : l.canGoOn now x) (hd : ∀ d ∈ x.phase.hand, G p.queue d) :
    Moves G (.poller p) l ((l.setPhase p .ready).goOn now x) := by
  obtain ⟨-, rfl⟩ := poller?_eq_some hx
  have hw : (l.setPhase x.id .ready).AtWork x.id := .setPhase_ready hx
  unfold goOn
  split
  -- A new poller says that it has started, and begins a round.
  next hphase =>
    refine .head (.woke hx (by rw [hphase]; rfl)) ?_
    split
    next s hs =>
      have hw' : ((l.setPhase x.id .ready).report (.pollerStarted x.id.queue
        s.source.options.batch s.source.options.policy)).AtWork x.id := hw
      exact .head (.noted _) (moves_beginRound now hw')
    next hs => exact (Move.retired hw (.inl hs)).moves
  -- A poller that goes on without a message begins a round.
  next hphase => exact .head (.woke hx (by rw [hphase]; rfl)) (moves_beginRound now hw)
  next hphase => exact .head (.woke hx (by rw [hphase]; rfl)) (moves_beginRound now hw)
  next hphase => exact .head (.woke hx (by rw [hphase]; rfl)) (moves_beginRound now hw)
  -- A poller with messages in hand goes on with them.
  next d ds hphase =>
    rw [hphase] at hd
    exact .head (.wentOn hx hphase (hd d List.mem_cons_self))
      (moves_dispatch now hw.offerAgain fun e he => hd e (List.mem_cons_of_mem d he))
  -- The others cannot go on by themselves.
  next hphase => rw [canGoOn, hphase] at hc; cases hc
  next hphase => rw [canGoOn, hphase] at hc; cases hc

end Pollers

/-! ## Calls -/

/-- Starting a queue is a chain of moves. -/
private theorem moves_startQueue (call : Option Nat) (q : String) :
    Moves G (.caller call) l (l.startQueue q) := by
  unfold startQueue
  split
  · exact .refl
  next e he => exact .head (.opened he) (Move.noted _).moves

/-- A fold of chains is a chain. -/
theorem moves_foldl {α : Type} {f : Listener → α → Listener}
    (hf : ∀ l x, Moves G a l (f l x)) (xs : List α) (l : Listener) :
    Moves G a l (xs.foldl f l) := by
  induction xs generalizing l with
  | nil => exact .refl
  | cons x xs ih => exact (hf l x).trans (ih (f l x))

/-- A start call is a chain of moves. -/
private theorem moves_start (call : Nat) (q : String) :
    Moves G (.caller (some call)) l (l.start call q) := by
  unfold start
  split
  · exact (Move.returned _ _).moves
  · split
    · exact (Move.returned _ _).moves
    · exact (moves_startQueue _ q).tail (.returned _ _)

/-- So is one that starts all queues. -/
private theorem moves_startAll (call : Nat) :
    Moves G (.caller (some call)) l (l.startAll call) := by
  unfold startAll
  split
  · exact (Move.returned _ _).moves
  · exact (moves_foldl (fun _ q => moves_startQueue _ q) _ _).tail (.returned _ _)

/-- Stopping queues is a chain of moves. -/
theorem moves_stopEach (now call : Nat) (goal : CallGoal) (qs : List String) :
    Moves G (.caller (some call)) l (l.stopEach now call goal qs) := by
  induction qs with
  | nil =>
    unfold stopEach concludeStops
    cases goal with
    | stop => exact (Move.returned _ _).moves
    | shutdown => exact .head (.calling _ _ _) Move.draining.moves
  | cons q rest ih =>
    unfold stopEach
    split
    -- A queue that is not running is passed over.
    · exact ih
    next e he => exact .head (.stopping he) (Move.calling _ _ _).moves

/-- So is a stop call. -/
private theorem moves_stop (now call : Nat) (q : String) :
    Moves G (.caller (some call)) l (l.stop now call q) := by
  unfold stop
  split
  · exact (Move.returned _ _).moves
  · split
    · exact (Move.returned _ _).moves
    · exact moves_stopEach ..

/-- So is one that stops all queues. -/
private theorem moves_stopAll (now call : Nat) : Moves G (.caller (some call)) l
    (l.stopAll now call) := by
  unfold stopAll
  split
  · exact (Move.returned _ _).moves
  · exact moves_stopEach ..

/-- So is a shutdown. -/
private theorem moves_shutdown (now call : Nat) :
    Moves G (.caller (some call)) l (l.shutdown now call) := by
  unfold shutdown
  split
  · exact (Move.returned _ _).moves
  · exact .head .finished (.head (.noted _) (moves_stopEach ..))

/-- So is dropping the listener. -/
private theorem moves_discard : Moves G (.caller none) l l.discard := by
  unfold discard
  exact .head .cleared (moves_foldl (fun _ p => (Move.told p).moves) _ _)

/-- So is a call that goes on. -/
private theorem moves_proceed (now : Nat) (c : Call) :
    Moves G (.caller (some c.number)) l (l.proceed now c) := by
  unfold proceed
  refine .head (.called c.number) ?_
  dsimp only
  split
  -- The poller has ended, or the time is over: the queue is stopped and the next one follows.
  next id t _ =>
    refine (moves_foldl (f := report) (fun _ n => (Move.noted n).moves)
      (stopNotices { l with calls := l.calls.filter (·.number ≠ c.number) } id) _).trans ?_
    exact .head (.forgot id) (.head (.stopped id.queue id.epoch)
      (.head (.noted _) (moves_stopEach ..)))
  -- The workers are free, or the time is over: the shutdown is done.
  next t active _ =>
    exact .head .closed (.head (.noted _) (.head .cleared (.head (.noted _)
      (Move.returned _ _).moves)))

/-! ## Steps -/

/-- Apart from the stimuli for jobs, a step is a sequence of moves. -/
theorem moves_after (now : Nat) (s : Stimulus) (hs : s.job? = none)
    (ha : ∀ p ds, s = .answer p (.batch ds) → ∀ d ∈ ds, G p.queue d)
    (hd : ∀ p x, s = .goOn p → l.poller? p = some x → ∀ d ∈ x.phase.hand, G p.queue d) :
    Moves G s.actor l (l.after now s) := by
  -- By the stimulus: calls first, then the pollers' own steps.
  cases s with
  | start call q => exact moves_start call q
  | startAll call => exact moves_startAll call
  | stop call q => exact moves_stop now call q
  | stopAll call => exact moves_stopAll now call
  | shutdown call => exact moves_shutdown now call
  | discard => exact moves_discard
  | goOn p =>
    unfold after
    dsimp only
    split
    next x hx =>
      split
      next hc => exact moves_goOn now hx hc (hd p x rfl hx)
      next => exact .refl
    next => exact .refl
  | answer p a =>
    unfold after
    dsimp only
    split
    next x hx =>
      split
      next since hp =>
        -- The answer makes it ready first, whatever it is.
        refine .head (.woke hx (by rw [hp]; rfl)) ?_
        exact moves_takeAnswer now since (.setPhase_ready hx) fun ds he => ha p ds (he ▸ rfl)
      next => exact .refl
    next => exact .refl
  | proceed n =>
    unfold after
    dsimp only
    split
    next c hcall =>
      obtain rfl := (List.mem_of_find?_key hcall).2
      split
      · exact moves_proceed now c
      · exact .refl
    next => exact .refl
  | beginJob n => cases hs
  | endJob n r => cases hs
  | deleted n r => cases hs

end Listener

end Intake
