import Intake.Proofs.Listener.Calls

/-!
# What a step does to the standing of a queue

In one step a queue is left alone, is started, comes closer to standstill in the epoch in
which it is, or is forgotten with all others.

- `Lifecycle.Halts`: queues stop, and nothing else happens to them
- `Step.Starts`, `Step.Forgets`: a step starts a queue, or makes the listener forget all queues
- `standingNext_step`: there is nothing else that a step does
-/

namespace Intake

namespace Lifecycle

variable {l l' l'' : Lifecycle} {q : String} {e : Nat}

/-- One lifecycle becomes another by stops alone: each queue stands as it did, or it does not
    run and is in the epoch in which it was. -/
def Halts (l l' : Lifecycle) : Prop :=
  ∀ q, l'.standing? q = l.standing? q ∨ ∃ s s', l.standing? q = some s ∧
    l'.standing? q = some s' ∧ s'.epoch = s.epoch ∧ s'.stage ≠ .running

/-- Nothing is halted where nothing happens. -/
theorem Halts.refl (l : Lifecycle) : l.Halts l := fun _ => .inl rfl

/-- Halting is transitive. -/
theorem Halts.trans (h : l.Halts l') (h' : l'.Halts l'') : l.Halts l'' := by
  intro q
  -- Where the second leaves the queue alone the first decides; else the stop that it begins does.
  rcases h' q with hsame | ⟨s', s'', hs', hs'', hepoch', hstage⟩
  · rw [hsame]
    exact h q
  · rcases h q with hsame | ⟨s, t, hs, ht, hepoch, -⟩
    · exact .inr ⟨s', s'', hsame ▸ hs', hs'', hepoch', hstage⟩
    · obtain rfl := Option.some.inj (hs'.symm.trans ht)
      exact .inr ⟨s, s'', hs, hs'', hepoch'.trans hepoch, hstage⟩

/-- A stop halts. -/
private theorem halts_beginStop (he : l.runningEpoch? q = some e) : l.Halts (l.beginStop q) := by
  intro j
  rw [standing?_beginStop he]
  -- Only the queue itself is stopped, and its epoch stays.
  by_cases hj : j = q
  · subst hj
    exact .inr ⟨_, _, runningEpoch?_eq_some.mp he, if_pos rfl, rfl, nofun⟩
  · exact .inl (if_neg hj)

/-- So does the end of a stop. -/
private theorem halts_finishStop (l : Lifecycle) (q : String) (e : Nat) : l.Halts
    (l.finishStop q e) := by
  intro j
  rw [standing?_finishStop]
  -- It was stopping before, so nothing that ran is touched.
  by_cases hj : j = q ∧ l.standing? q = some ⟨.stopping, e⟩
  · obtain ⟨rfl, hs⟩ := hj
    exact .inr ⟨_, _, hs, if_pos ⟨rfl, hs⟩, rfl, nofun⟩
  · exact .inl (if_neg hj)

end Lifecycle

namespace Step

/-- A queue is started in a step: somebody starts it or all queues, and it runs in its next
    epoch. -/
def Starts (q : String) (x : Step) : Prop :=
  (∃ m, x.stimulus = .start m q ∨ x.stimulus = .startAll m) ∧
    ∃ e, x.before.lifecycle.nextEpoch? q = some e ∧
      x.after.lifecycle.standing? q = some ⟨.running, e⟩

/-- All queues are forgotten: a shutdown has finished, or the listener is given up. -/
def Forgets (x : Step) : Prop :=
  x.stimulus = .discard ∨ ∃ m, x.Concludes m ∧ x.after.Over

/-- What a step can do to the standing of a queue. -/
inductive StandingNext (q : String) (x : Step) : Prop
  | same (h : x.after.lifecycle.standing? q = x.before.lifecycle.standing? q)
  | started (h : x.Starts q)
  /-- The queue has come closer to standstill. -/
  | halted {s s' : Standing} (hs : x.before.lifecycle.standing? q = some s)
    (hs' : x.after.lifecycle.standing? q = some s') (hepoch : s'.epoch = s.epoch)
    (hstage : s'.stage ≠ .running)
  | forgotten (h : x.Forgets)

/-- Where the lifecycle halts, so does each standing. -/
private theorem StandingNext.of_halts {q : String} {x : Step}
    (h : x.before.lifecycle.Halts x.after.lifecycle) : StandingNext q x := by
  rcases h q with hsame | ⟨s, s', hs, hs', hepoch, hstage⟩
  · exact .same hsame
  · exact .halted hs hs' hepoch hstage

end Step

namespace Listener

variable {l : Listener} {q : String} {now n : Nat} {s : Stimulus}

/-! ## Starts -/

/-- To start a queue starts no other one. -/
private theorem standing?_startQueue (l : Listener) (j q : String) :
    (l.startQueue j).lifecycle.standing? q = l.lifecycle.standing? q ∨
      q = j ∧ ∃ e, l.lifecycle.nextEpoch? q = some e ∧
        (l.startQueue j).lifecycle.standing? q = some ⟨.running, e⟩ := by
  unfold startQueue
  -- A queue that runs or stops has no next epoch, and is left as it is.
  split
  · exact .inl rfl
  next e he =>
    have hstanding := Lifecycle.standing?_beginStart he q
    split at hstanding
    next hq => exact .inr ⟨hq, e, hq ▸ he, hstanding⟩
    next => exact .inl hstanding

/-- A queue that is started several times in a row is started once. -/
private theorem standing?_foldl_startQueue (js : List String) (l : Listener) (q : String) :
    (js.foldl (fun l j => l.startQueue j) l).lifecycle.standing? q = l.lifecycle.standing? q ∨
      ∃ e, l.lifecycle.nextEpoch? q = some e ∧
        (js.foldl (fun l j => l.startQueue j) l).lifecycle.standing? q = some ⟨.running, e⟩ := by
  induction js generalizing l with
  | nil => exact .inl rfl
  | cons j js ih =>
    rw [List.foldl_cons]
    rcases standing?_startQueue l j q with hsame | ⟨-, e, he, hrunning⟩
    · have hnext : (l.startQueue j).lifecycle.nextEpoch? q = l.lifecycle.nextEpoch? q := by
        rw [Lifecycle.nextEpoch?, hsame, Lifecycle.nextEpoch?]
      rw [← hsame, ← hnext]
      exact ih (l.startQueue j)
    · refine .inr ⟨e, he, ?_⟩
      -- A queue that is running stays as it is.
      rcases ih (l.startQueue j) with hsame | ⟨e', he', -⟩
      · exact hsame.trans hrunning
      · obtain ⟨s, hs, hstage, -⟩ := Lifecycle.nextEpoch?_eq_some.mp he'
        obtain rfl := Option.some.inj (hs.symm.trans hrunning)
        exact absurd rfl hstage

/-- After a start call each standing is as before, or started. -/
private theorem standingNext_start (l : Listener) (now m : Nat) (j q : String) :
    (l.step now (.start m j)).StandingNext q := by
  let l' : Listener := { l with outbox := [] }
  have hafter : (l.step now (.start m j)).after.lifecycle = (l'.start m j).lifecycle := rfl
  -- It fails, or starts the one queue.
  unfold start at hafter
  split at hafter
  · exact .same (congrArg (·.standing? q) hafter)
  · split at hafter
    · exact .same (congrArg (·.standing? q) hafter)
    · rcases standing?_startQueue l' j q with hsame | ⟨rfl, e, he, hrunning⟩
      · exact .same ((congrArg (·.standing? q) hafter).trans hsame)
      · exact .started
          ⟨⟨m, .inl rfl⟩, e, he, (congrArg (·.standing? q) hafter).trans hrunning⟩

/-- So it is after a call that starts all queues. -/
private theorem standingNext_startAll (l : Listener) (now m : Nat) (q : String) :
    (l.step now (.startAll m)).StandingNext q := by
  let l' : Listener := { l with outbox := [] }
  have hafter : (l.step now (.startAll m)).after.lifecycle = (l'.startAll m).lifecycle := rfl
  unfold startAll at hafter
  -- An inactive listener starts nothing.
  split at hafter
  · exact .same (congrArg (·.standing? q) hafter)
  · rcases standing?_foldl_startQueue l'.registered l' q with hsame | ⟨e, he, hrunning⟩
    · exact .same ((congrArg (·.standing? q) hafter).trans hsame)
    · exact .started ⟨⟨m, .inr rfl⟩, e, he, (congrArg (·.standing? q) hafter).trans hrunning⟩

/-! ## Stops -/

/-- Stopping queues halts. -/
private theorem halts_stopEach (now call : Nat) (goal : CallGoal) (l : Listener)
    (qs : List String) : l.lifecycle.Halts (l.stopEach now call goal qs).lifecycle := by
  have hstops := stops_stopEach now call goal l qs
  generalize l.stopEach now call goal qs = l' at hstops
  cases hstops with
  | concluded =>
    cases goal <;> exact .refl _
  | stopping _ _ _ he => exact Lifecycle.halts_beginStop he

/-- A call that waits for a poller and goes on stops queues only. -/
private theorem halts_proceed {c : Call} {p : PollerId} {t : Nat} (hw : c.wait = .poller p t)
    (now : Nat) (l : Listener) : l.lifecycle.Halts (l.proceed now c).lifecycle := by
  obtain ⟨ns, heq⟩ := proceed_of_poller hw now l
  rw [heq]
  exact (Lifecycle.halts_finishStop l.lifecycle p.queue p.epoch).trans
    (halts_stopEach now c.number c.goal _ c.rest)

/-- A stop call halts. -/
private theorem halts_stop (now call : Nat) (j : String) (l : Listener) :
    l.lifecycle.Halts (l.stop now call j).lifecycle := by
  unfold stop
  split
  · exact .refl _
  · split
    · exact .refl _
    · exact halts_stopEach now call .stop l [j]

/-- So does one that stops all queues. -/
private theorem halts_stopAll (now call : Nat) (l : Listener) :
    l.lifecycle.Halts (l.stopAll now call).lifecycle := by
  unfold stopAll
  split
  · exact .refl _
  · exact halts_stopEach now call .stop l l.lifecycle.running

/-- So does a shutdown. -/
private theorem halts_shutdown (now call : Nat) (l : Listener) :
    l.lifecycle.Halts (l.shutdown now call).lifecycle := by
  unfold shutdown
  split
  · exact .refl _
  · exact halts_stopEach now call .shutdown
      (({ l with active := false } : Listener).report .shuttingDown) l.lifecycle.running

/-- A call that goes on halts, or forgets all standings at its end. -/
private theorem standingNext_proceed (l : Listener) (now n : Nat) (q : String) :
    (l.step now (.proceed n)).StandingNext q := by
  let l' : Listener := { l with outbox := [] }
  -- A stop that goes on halts its queue; a shutdown at its end forgets all of them.
  by_cases hgo : ∃ c, l'.call? n = some c ∧ l'.canProceed now c
  · obtain ⟨c, hc, hgo⟩ := hgo
    cases hw : c.wait with
    | poller p t =>
      apply Step.StandingNext.of_halts
      show l'.lifecycle.Halts (l'.after now (.proceed n)).lifecycle
      rw [after_proceed hc hgo]
      exact halts_proceed hw now l'
    | workers t active => exact .forgotten (.inr ⟨n, concludes_of_workers hc hgo hw⟩)
  · have hunfit : l'.after now (.proceed n) = l' :=
      after_proceed_of_not fun c hc => Bool.eq_false_iff.mpr fun hcan => hgo ⟨c, hc, hcan⟩
    exact .same (congrArg (·.lifecycle.standing? q) hunfit)

/-! ## Steps -/

/-- In a step a queue is left alone, is started, comes closer to standstill or is forgotten. -/
theorem standingNext_step (l : Listener) (now : Nat) (s : Stimulus) (q : String) :
    (l.step now s).StandingNext q := by
  cases s with
  | start m j => exact standingNext_start l now m j q
  | startAll m => exact standingNext_startAll l now m q
  | stop m j => exact .of_halts (halts_stop now m j { l with outbox := [] })
  | stopAll m => exact .of_halts (halts_stopAll now m { l with outbox := [] })
  | shutdown m => exact .of_halts (halts_shutdown now m { l with outbox := [] })
  | discard => exact .forgotten (.inl rfl)
  | proceed n => exact standingNext_proceed l now n q
  | goOn | answer | beginJob | endJob | deleted =>
    -- Pollers and the work on messages leave the lifecycle alone.
    exact .same (congrArg (·.standing? q)
      (lifecycle_of_desk (desk_react now fun _ h => by cases h)))

/-- A queue that is started runs in a later epoch. -/
theorem exists_running_of_starts (h : (l.step now s).Starts q) : ∃ st e,
    l.lifecycle.standing? q = some st ∧ st.epoch < e ∧
      (l.step now s).after.lifecycle.standing? q = some ⟨.running, e⟩ := by
  obtain ⟨-, e, he, hrunning⟩ := h
  obtain ⟨st, hst, -, rfl⟩ := Lifecycle.nextEpoch?_eq_some.mp he
  exact ⟨st, _, hst, Nat.lt_succ_self _, hrunning⟩

/-- What forgets leaves no standing. -/
theorem standing?_of_forgets (h : (l.step now s).Forgets) (q : String) :
    (l.step now s).after.lifecycle.standing? q = none := by
  -- Dropping the listener, or the end of a shutdown.
  rcases h with hs | ⟨m, -, hover⟩
  · obtain rfl : s = .discard := hs
    have hafter : (({ l with outbox := [] } : Listener).discard).lifecycle.standing? q = none := by
      unfold discard
      apply (moves_foldl (G := fun _ _ => True) (a := .caller none)
        (fun _ p => (Move.told p).moves) _ _).keep
        (P := fun m => m.lifecycle.standing? q = none)
      · exact fun hm h => hm.onward.unknown h
      · rfl
    exact hafter
  · exact hover.unknown q

end Listener

end Intake
