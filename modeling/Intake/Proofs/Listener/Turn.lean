import Intake.Proofs.Listener.Epoch

/-!
# The turn of a poller

A poller that can go on, or whose receive call returns, has its turn.  It goes past some
messages, which changes neither the poller nor what callers see, and ends its turn in one
of a few ways.  Which of them are open to it depends on whether its epoch is over.

- `Passes`: a poller at work goes past messages
- `Ends`: how a poller ends its turn
- `turn_after`: every turn is of this form
-/

namespace Intake

/-- The poller for which an effect is a receive call. -/
def Effect.receiver? : Effect → Option PollerId
  | .receive p _ _ => some p
  | _ => none

namespace Listener

variable {l l' l'' m : Listener} {p : PollerId} {d : Delivery} {ds : List Delivery} {now : Nat}
  {s : Stimulus}

/-- From one state to another a poller at work has gone past messages only: it is as it was,
    and so are what callers see and the receive calls that are wanted. -/
structure Passes (p : PollerId) (l l' : Listener) : Prop where
  poller : l'.poller? p = l.poller? p
  desk : l'.desk = l.desk
  posts : l'.posts = l.posts
  polling : l'.polling = l.polling
  receives : ∀ e ∈ l'.outbox, e.receiver?.isSome → e ∈ l.outbox

namespace Passes

/-- Nothing is passed where nothing happens. -/
theorem refl (p : PollerId) (l : Listener) : Passes p l l := ⟨rfl, rfl, rfl, rfl, fun _ he _ => he⟩

/-- Passing messages is transitive. -/
theorem trans (h : Passes p l l') (h' : Passes p l' l'') : Passes p l l'' where
  poller := h'.poller.trans h.poller
  desk := h'.desk.trans h.desk
  posts := h'.posts.trans h.posts
  polling := h'.polling.trans h.polling
  receives e he hr := h.receives e (h'.receives e he hr) hr

/-- A report is nothing but a notice. -/
private theorem report (p : PollerId) (l : Listener) (n : Notice) : Passes p l (l.report n) := by
  refine ⟨rfl, rfl, rfl, rfl, fun e he hr => ?_⟩
  rcases List.mem_cons.mp he with rfl | he
  · cases hr
  · exact he

/-- The poller is current if it was before. -/
theorem isCurrent (h : Passes p l l') : l'.isCurrent p = l.isCurrent p := by
  rw [Listener.isCurrent, lifecycle_of_desk h.desk, Listener.isCurrent]

/-- It is still at work. -/
theorem atWork (h : Passes p l l') (hw : l.AtWork p) : l'.AtWork p := by
  obtain ⟨x, hx, hp⟩ := hw
  exact ⟨x, h.poller.trans hx, hp⟩

/-- It gives a slot back. -/
private theorem releaseSlot (hw : l.AtWork p) (q : String) : Passes p l (l.releaseSlot q) := by
  obtain ⟨x, hx, hp⟩ := hw
  -- A poller that is ready does not wait for slots, so no release wakes it.
  refine ⟨(poller?_releaseSlot_of_ready hx hp q).trans hx.symm, desk_releaseSlot l q,
    releaseSlot_posts l q, ?_, fun e he _ => ?_⟩
  · rw [releaseSlot_eq]
    rfl
  · rwa [releaseSlot_outbox] at he

/-- It turns a message away. -/
theorem turnAway (hw : l.AtWork p) (q : String) : Passes p l (l.turnAway q) :=
  (releaseSlot hw q).trans (report p _ _)

end Passes

/-- It takes a slot. -/
private theorem passes_takeSlot? {q : String} (hm : l.takeSlot? q = some m) : Passes p l m := by
  obtain ⟨_, -, -, rfl⟩ := takeSlot?_eq_some_iff.mp hm
  exact ⟨rfl, rfl, posts_updateSlots .., rfl, fun _ he _ => he⟩

/-- Workers and jobs are nothing that a poller sees. -/
private theorem Passes.aside (h : Passes p l m) (workers : Workers PollerId) (jobs : List Job)
    (accepted : Nat) : Passes p l { m with workers, jobs, accepted } :=
  ⟨h.poller, h.desk, h.posts, h.polling, h.receives⟩

/-- It offers a message. -/
theorem Offered.passes {o : Option Fate} (h : Offered l p d o l') (hw : l.AtWork p) :
    Passes p l l' := by
  -- A slot is taken first, but for a message without one.
  cases h with
  | noSlot => exact .report ..
  | outdated hm =>
    have htake : Passes p l _ := passes_takeSlot? hm
    exact htake.trans (.releaseSlot (htake.atWork hw) p.queue)
  | taken hm => exact (passes_takeSlot? hm).aside ..
  | @refused m hm =>
    have hsent := (passes_takeSlot? (p := p) hm).aside (l.workers.submit p) m.jobs m.accepted
    exact hsent.trans (.turnAway (hsent.atWork hw) p.queue)
  | queued hm => exact (passes_takeSlot? hm).aside ..

/-- It hands one on again. -/
theorem passes_offerAgain (hw : l.AtWork p) (d : Delivery) :
    Passes p l (l.offerAgain p d).2 := by
  have hback := (Passes.refl p l).aside (l.workers.resume p) l.jobs l.accepted
  unfold offerAgain
  dsimp only
  -- The worker that was kept for the poller is used or comes back.
  split
  · exact (Passes.refl p l).aside ..
  · exact hback.trans (.turnAway (hback.atWork hw) p.queue)

/-- How a poller at work ends its turn, which a stimulus has given it. -/
inductive Ends (now : Nat) (s : Stimulus) (p : PollerId) (l : Listener) : Listener → Prop
  /-- It ends, as its epoch is over. -/
  | retired (hc : l.station? p.queue = none ∨ l.isCurrent p = false) :
    Ends now s p l (l.retire p)
  | awaitsSlot (hc : l.isCurrent p) (t : Nat) : Ends now s p l (l.park p (.awaitingSlot t))
  | asks {st : Station} (hs : l.station? p.queue = some st) (hc : l.isCurrent p)
    (hf : 0 < st.slots.free) : Ends now s p l ((l.setPhase p (.receiving now)).emit
      (.receive p st.slots.free (l.polling st.source st.slots.free)))
  | submits (hc : l.isCurrent p) (d : Delivery) (ds : List Delivery) :
    Ends now s p l (l.setPhase p (.submitting d ds))
  | rests {a : Answer} (hs : s = .answer p a) (t : Nat) : Ends now s p l (l.park p (.resting t))
  /-- It goes on at once. -/
  | ready {a : Answer} (hs : s = .answer p a) : Ends now s p l l
  | breaks {text : String} (hs : s = .answer p (.broken text)) :
    Ends now s p l (l.setPhase p (.broken text))

/-- A round ends a turn. -/
private theorem ends_beginRound (now : Nat) (s : Stimulus) (p : PollerId) (l : Listener) :
    Ends now s p l (l.beginRound now p) := by
  -- By the station, the epoch and the free slots.
  unfold beginRound
  split
  next hs => exact .retired (.inl hs)
  next st hs =>
    split
    next hc => exact .retired (.inr (by simpa using hc))
    next hc =>
      have hcurrent : l.isCurrent p = true := by simpa using hc
      split
      · exact .awaitsSlot hcurrent _
      next hf => exact .asks hs hcurrent (Nat.pos_of_ne_zero hf)

/-- The turn of a poller at work: it goes past messages and ends the turn. -/
def Turn (now : Nat) (s : Stimulus) (p : PollerId) (l l' : Listener) : Prop :=
  ∃ m, Passes p l m ∧ Ends now s p m l'

/-- A turn may be nothing but its end. -/
private theorem Ends.turn (h : Ends now s p l l') : Turn now s p l l' := ⟨l, .refl p l, h⟩

/-- What is passed before belongs to the turn. -/
private theorem Passes.turn (h : Passes p l m) (h' : Turn now s p m l') : Turn now s p l l' := by
  obtain ⟨m', hm, he⟩ := h'
  exact ⟨m', h.trans hm, he⟩

/-- Handing on is the rest of a turn. -/
private theorem turn_dispatch (now : Nat) (s : Stimulus) (hw : l.AtWork p) :
    Turn now s p l (l.dispatch now p ds) := by
  induction ds generalizing l with
  | nil => exact (ends_beginRound now s p l).turn
  | cons d ds ih =>
    have hoffered := offered l p d
    have hpasses := hoffered.passes hw
    cases hf : (l.offer p d).1 with
    | some f =>
      rw [dispatch_cons_of_some now hf]
      exact hpasses.turn (ih (hpasses.atWork hw))
    | none =>
      rw [dispatch_cons_of_none now hf]
      -- Only a message of a poller whose epoch lasts can wait for a worker.
      have hcurrent : l.isCurrent p = true := by
        rw [hf] at hoffered
        generalize (l.offer p d).2 = l' at hoffered
        cases hoffered with
        | queued _ hc => exact hc
      exact hpasses.turn (Ends.submits (hpasses.isCurrent.trans hcurrent) d ds).turn

/-- So is taking an answer. -/
private theorem turn_takeAnswer (now since : Nat) (a : Answer) (hw : l.AtWork p) :
    Turn now (.answer p a) p l (l.takeAnswer now since p a) := by
  unfold takeAnswer
  -- The poller breaks off, rests after a failure or an empty batch, or hands the batch on.
  split
  · exact (Ends.breaks rfl).turn
  · exact (Passes.report ..).turn (Ends.rests rfl _).turn
  · dsimp only
    split
    · exact (Ends.ready rfl).turn
    · exact (Ends.rests rfl _).turn
  · exact turn_dispatch now _ hw

/-- So is going on. -/
private theorem turn_goOn (now : Nat) (s : Stimulus) {x : Poller} (hx : l.poller? x.id = some x)
    (hc : l.canGoOn now x) :
    Turn now s x.id (l.setPhase x.id .ready) ((l.setPhase x.id .ready).goOn now x) := by
  have hw : (l.setPhase x.id .ready).AtWork x.id := .setPhase_ready hx
  unfold goOn
  split
  · split
    · exact (Passes.report ..).turn (ends_beginRound ..).turn
    next hs => exact (Ends.retired (.inl hs)).turn
  · exact (ends_beginRound ..).turn
  · exact (ends_beginRound ..).turn
  · exact (ends_beginRound ..).turn
  next d ds _ =>
    have hpasses := passes_offerAgain hw d
    exact hpasses.turn (turn_dispatch now s (hpasses.atWork hw))
  -- The others cannot go on by themselves.
  next hphase =>
    rw [canGoOn, hphase] at hc
    cases hc
  next hphase =>
    rw [canGoOn, hphase] at hc
    cases hc

/-- A stimulus fits a poller: it can go on, or its receive call returns. -/
inductive Fits (l : Listener) (now : Nat) (x : Poller) : Stimulus → Prop
  | goOn (hc : l.canGoOn now x) : Fits l now x (.goOn x.id)
  | answer {since : Nat} (hphase : x.phase = .receiving since) (a : Answer) :
    Fits l now x (.answer x.id a)

/-- What has broken off does not go on. -/
theorem Fits.unbroken {x : Poller} (h : Fits l now x s) (text : String) :
    x.phase ≠ .broken text := by
  intro hbroken
  cases h with
  | goOn hc =>
    rw [canGoOn, hbroken] at hc
    cases hc
  | answer hphase =>
    rw [hbroken] at hphase
    cases hphase

/-- A poller that can go on is made ready and goes on. -/
theorem after_goOn {x : Poller} (hx : l.poller? p = some x) (hc : l.canGoOn now x) :
    l.after now (.goOn p) = (l.setPhase p .ready).goOn now x := by
  simp [after, hx, hc]

/-- A poller that receives is made ready and takes the answer. -/
theorem after_answer {x : Poller} {since : Nat} (hx : l.poller? p = some x)
    (hphase : x.phase = .receiving since) (a : Answer) :
    l.after now (.answer p a) = (l.setPhase p .ready).takeAnswer now since p a := by
  simp [after, hx, hphase]

/-- A stimulus that fits a poller gives it its turn. -/
theorem turn_of_fits {x : Poller} (hx : l.poller? p = some x) (h : Fits l now x s) :
    Turn now s p (l.setPhase p .ready) (l.after now s) := by
  obtain ⟨-, rfl⟩ := poller?_eq_some hx
  cases h with
  | goOn hc => exact after_goOn hx hc ▸ turn_goOn now _ hx hc
  | @answer since hphase a =>
    exact after_answer hx hphase a ▸ turn_takeAnswer now since a (.setPhase_ready hx)

/-- A stimulus for a poller that does not fit the state changes nothing; one that fits gives
    the poller its turn. -/
theorem turn_after (now : Nat) (hs : s.actor = .poller p) :
    l.after now s = l ∨ ∃ x, l.poller? p = some x ∧ Fits l now x s ∧
      Turn now s p (l.setPhase p .ready) (l.after now s) := by
  by_cases hfits : ∃ x, l.poller? p = some x ∧ Fits l now x s
  · obtain ⟨x, hx, h⟩ := hfits
    exact .inr ⟨x, hx, h, turn_of_fits hx h⟩
  · -- A stimulus that does not fit does nothing.
    refine .inl ?_
    cases s with
    | goOn r =>
      obtain rfl := Actor.poller.inj hs
      unfold after
      dsimp only
      split
      next x hx =>
        obtain ⟨-, rfl⟩ := poller?_eq_some hx
        split
        next hc => exact absurd ⟨x, hx, .goOn hc⟩ hfits
        next => rfl
      next => rfl
    | answer r a =>
      obtain rfl := Actor.poller.inj hs
      unfold after
      dsimp only
      split
      next x hx =>
        obtain ⟨-, rfl⟩ := poller?_eq_some hx
        split
        next since hphase => exact absurd ⟨x, hx, .answer hphase a⟩ hfits
        next => rfl
      next => rfl
    | _ => cases hs

end Listener

end Intake
