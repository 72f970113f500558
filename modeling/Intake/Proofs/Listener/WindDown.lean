import Intake.Proofs.Listener.Course
import Intake.Proofs.Listener.Incumbent
import Intake.Proofs.Listener.Prompt

/-!
# A poller that has been stopped winds down

A stop does not wait for everything that a poller is doing: a receive call of it may be out,
or a message that it has submitted.  From the stop on the poller asks for nothing and hands
on at most that one message, and it ends as soon as nothing of it is out any more, whether
or not its queue has been started again.

- `Winding`: what is known of such a poller between two steps
- `WindsDown`: what follows for the steps after the stop
- `windsDown_run`: in every run every poller that is stopped winds down
-/

namespace Intake

namespace Listener

/-- Something of a poller is out: its receive call has not returned, or it has submitted a
    message and no worker has been called for it. -/
def IsOut (l : Listener) (p : PollerId) : Prop :=
  ∃ x, l.poller? p = some x ∧ ((∃ since, x.phase = .receiving since) ∨
    (∃ d ds, x.phase = .submitting d ds) ∧ l.workers.isCalled p = false)

/-- How a poller winds down after a step in which its queue was stopped. -/
structure WindsDown (p : PollerId) (x : Step) (later : List Step) : Prop where
  /-- It makes no receive call. -/
  no_receive : ∀ y ∈ x :: later, p ∉ y.receivers
  /-- It neither waits for slots nor rests. -/
  quiet : ∀ y ∈ x :: later, ∀ z, y.after.poller? p = some z → z.phase.listens = false
  /-- What is out was out when the queue was stopped. -/
  out : ∀ y ∈ x :: later, ∀ z, y.after.poller? p = some z → z.phase.isOut →
    (x.before.poller? p).map (·.phase) = some z.phase
  /-- It leaves every message, but for the one with which it waited for a worker when the queue
      was stopped. -/
  left : ∀ y ∈ x :: later, ∀ z ∈ y.passings, z.poller = p →
    z.fate = .noSlot ∨ z.fate = .outdated ∨ z.waited ∧
      ∃ ds, (x.before.poller? p).map (·.phase) = some (.submitting z.delivery ds)
  /-- At most one of its messages is taken. -/
  at_most_one : (passed (x :: later)).countP (fun z => z.poller = p ∧ z.job?.isSome) ≤ 1
  /-- When its receive call has returned, nothing of it is out. -/
  answered : ∀ y ∈ later, ∀ a z since, y.stimulus = .answer p a → y.before.poller? p = some z →
    z.phase = .receiving since → ¬ y.after.IsOut p
  /-- When nothing of it is out and it goes on, it ends. -/
  ends : ∀ y ∈ later, y.before.isAlive p → ¬ y.before.IsOut p → y.stimulus = .goOn p →
    y.after.poller? p = none
  /-- If nothing of it was out when the queue was stopped, it is gone before time goes on. -/
  at_once : Prompt (x :: later) → (∀ z, x.before.poller? p = some z → z.phase.isOut = false) →
    ∀ y ∈ later, x.now < y.now → y.before.isAlive p = false
  /-- Once nothing of it is out any more, it is gone before time goes on. -/
  gone : Prompt (x :: later) → ∀ before y rest, x :: later = before ++ y :: rest →
    ¬ y.after.IsOut p → ∀ z ∈ rest, y.now < z.now → z.before.isAlive p = false

variable {l l' m m' : Listener} {p : PollerId} {now : Nat} {s : Stimulus}
  {ph : Option Phase} {y : Step}

/-- Being out is a matter of the poller's phase. -/
private theorem IsOut.exists_isOut (h : l.IsOut p) : ∃ x, l.poller? p = some x ∧ x.phase.isOut := by
  obtain ⟨x, hx, hout⟩ := h
  refine ⟨x, hx, ?_⟩
  rcases hout with ⟨since, hphase⟩ | ⟨⟨d, ds, hphase⟩, -⟩ <;> rw [hphase] <;> rfl

/-! ## Between two steps -/

/-- A poller whose epoch is over, and which was in a phase when it was stopped: it does not
    wait for slots or rest, and if it waits for anything else it has done so since then and
    knows that it has been told to stop. -/
structure Winding (p : PollerId) (ph : Option Phase) (l : Listener) : Prop where
  isOver : l.IsOver p
  quiet : ∀ x, l.poller? p = some x → x.phase.listens = false
  out : ∀ x, l.poller? p = some x → x.phase.isOut → ph = some x.phase ∧ x.signalled

/-- A poller that has ended does not come back in an epoch that is over. -/
private theorem IsOver.poller?_eq_none (h : m.IsOver p) (hspares : Spares p m m')
    (hnone : m.poller? p = none) : m'.poller? p = none := by
  have htouched := hspares.touched
  rw [hnone] at htouched
  generalize m'.poller? p = o at htouched
  cases htouched with
  | alone => rfl
  | opened he =>
    -- The epoch that a start opens is still to come.
    obtain ⟨st, hst, -, hepoch⟩ := Lifecycle.nextEpoch?_eq_some.mp he
    have hle := (h st hst).1
    omega

/-- What spares a poller lets it wind down. -/
private theorem Winding.spares (h : Winding p ph m) (hspares : Spares p m m') :
    Winding p ph m' := by
  have hover : m'.IsOver p := h.isOver.onward hspares.onward
  cases hx : m.poller? p with
  | none =>
    have hnone := h.isOver.poller?_eq_none hspares hx
    exact ⟨hover, by simp [hnone], by simp [hnone]⟩
  | some x =>
    have hquiet := h.quiet x hx
    have hout := h.out x hx
    have htouched := hspares.touched
    -- It is touched by being told, woken or forgotten, if at all.
    rw [hx] at htouched
    generalize ho : m'.poller? p = o at htouched
    cases htouched with
    | alone => exact ⟨hover, by simpa [ho] using hquiet, by simpa [ho] using hout⟩
    | woken => exact ⟨hover, by simp [ho, Phase.listens], by simp [ho, Phase.isOut]⟩
    | told =>
      have htold : x.told = { x with signalled := true } := by simp [Poller.told, hquiet]
      rw [htold] at ho
      refine ⟨hover, by simpa [ho] using hquiet, fun y hy hisOut => ?_⟩
      obtain rfl := Option.some.inj (ho.symm.trans hy)
      exact ⟨(hout hisOut).1, rfl⟩
    | forgotten => exact ⟨hover, by simp [ho], by simp [ho]⟩

/-! ## Turns after the stop -/

/-- A poller whose epoch is over ends when it goes on. -/
private theorem Ends.eq_retire {r : PollerId} (h : Ends now (.goOn r) p l l')
    (hc : l.isCurrent p = false) : l' = l.retire p := by
  -- Every other end of a turn needs that the epoch is current, or another stimulus.
  cases h with
  | retired => rfl
  | awaitsSlot hcurrent | asks _ hcurrent | submits hcurrent =>
    rw [hc] at hcurrent
    cases hcurrent
  | rests hs | ready hs | breaks hs => cases hs

/-- So it does at once, if it can go on. -/
private theorem poller?_goOn_of_outdated {x : Poller} (hc : l.isCurrent p = false)
    (hx : l.poller? p = some x) (hgo : l.canGoOn now x) :
    (l.after now (.goOn p)).poller? p = none := by
  obtain ⟨-, rfl⟩ := poller?_eq_some hx
  obtain ⟨m, hm, hends⟩ := turn_of_fits hx (.goOn hgo)
  rw [hends.eq_retire (hm.isCurrent.trans hc)]
  exact poller?_retire m x.id

/-- After a turn of its own a poller that has been told to stop is gone, or it goes on at
    once, or it has broken off. -/
private theorem Turn.phase_of_outdated {x y : Poller} (h : Turn now s p (l.setPhase p .ready) l')
    (hc : l.isCurrent p = false) (hx : l.poller? p = some x) (hfits : Fits l now x s)
    (hsignalled : x.phase.isOut → x.signalled) (hy : l'.poller? p = some y) :
    y.phase = .ready ∨ ∃ text, y.phase = .broken text := by
  obtain ⟨m, hm, hends⟩ := h
  have hmc : m.isCurrent p = false := hm.isCurrent.trans hc
  have hmx : m.poller? p = some { x with phase := .ready } := by
    rw [hm.poller, poller?_setPhase, hx, Option.map_some, if_pos rfl]
  cases hends with
  | retired =>
    rw [poller?_retire] at hy
    cases hy
  | awaitsSlot hcurrent | asks _ hcurrent | submits hcurrent =>
    rw [hmc] at hcurrent
    cases hcurrent
  | rests hs t =>
    -- It would rest, but it has been told to stop while its receive call was out.
    subst hs
    cases hfits with
    | answer hphase =>
      have htold : x.signalled = true := hsignalled (by simp [hphase, Phase.isOut])
      rw [park, poller?_updatePoller (fun z => by split <;> rfl), hmx, Option.map_some, if_pos rfl,
        if_pos htold] at hy
      exact .inl (Option.some.inj hy ▸ rfl)
  | ready =>
    rw [hmx] at hy
    exact .inl (Option.some.inj hy ▸ rfl)
  | breaks =>
    rw [poller?_setPhase, hmx, Option.map_some, if_pos rfl] at hy
    obtain rfl := Option.some.inj hy
    exact .inr ⟨_, rfl⟩

/-- So does every step. -/
theorem Winding.react (h : Winding p ph l) (hs : l.Sound) (now : Nat)
    (s : Stimulus) : Winding p ph (l.react now s).1 := by
  by_cases ha : s.actor = .poller p
  · have hover : (l.react now s).1.IsOver p := h.isOver.onward (onward_react l now s)
    -- Its turn is the last one, or what it does does not fit.
    rcases turn_after (l := { l with outbox := [] }) now ha with hsame | ⟨x, hx, hfits, hturn⟩
    · have hpoller : (l.react now s).1.poller? p = l.poller? p := congrArg (·.poller? p) hsame
      exact ⟨hover, hpoller ▸ h.quiet, hpoller ▸ h.out⟩
    · -- Whatever phase is left after its turn, the poller neither waits nor has anything out.
      have hphase : ∀ y, (l.react now s).1.poller? p = some y →
          y.phase = .ready ∨ ∃ text, y.phase = .broken text := fun y hy =>
        hturn.phase_of_outdated h.isOver.isCurrent hx hfits (fun hout => (h.out x hx hout).2) hy
      refine ⟨hover, fun y hy => ?_, fun y hy hout => ?_⟩
      · rcases hphase y hy with he | ⟨text, he⟩ <;> rw [he] <;> rfl
      · rcases hphase y hy with he | ⟨text, he⟩ <;> rw [he] at hout <;> cases hout
  · exact keeps_bystander (fun _ hspares hm => hm.spares hspares) hs now ha h

/-! ## The stop -/

/-- What is known of a poller in the course of a step in which its queue is stopped: what is
    out is what was out before, and the poller has not been told yet or is winding down,
    unless the queue has been forgotten. -/
structure Halting (p : PollerId) (ph : Option Phase) (m : Listener) : Prop where
  out : ∀ x, m.poller? p = some x → x.phase.isOut → ph = some x.phase
  told : m.isCurrent p ∨ m.lifecycle.standing? p.queue = none ∨ Winding p ph m

/-- The stop of a queue tells its poller. -/
private theorem winding_signal
    (hout : ∀ x, m.poller? p = some x → x.phase.isOut → ph = some x.phase)
    (he : m.lifecycle.runningEpoch? p.queue = some p.epoch) : Winding p ph
      (({ m with lifecycle := m.lifecycle.beginStop p.queue } : Listener).signal p) := by
  have htold : (({ m with lifecycle := m.lifecycle.beginStop p.queue } : Listener).signal p).poller?
      p = (m.poller? p).map Poller.told := by
    rw [poller?_signal]
    simp only [if_true]
    rfl
  -- Its epoch is stopping, it listens no more, and whatever it is out for was so before.
  refine ⟨fun st hst => ?_, fun y hy => ?_, fun y hy hisOut => ?_⟩
  · have hstanding : (m.lifecycle.beginStop p.queue).standing? p.queue =
        some ⟨.stopping, p.epoch⟩ := by
      rw [Lifecycle.standing?_beginStop he, if_pos rfl]
    obtain rfl := Option.some.inj (hstanding.symm.trans hst)
    exact ⟨Nat.le_refl _, nofun⟩
  · rw [htold] at hy
    obtain ⟨x, hx, rfl⟩ := Option.map_eq_some_iff.mp hy
    unfold Poller.told
    split
    · rfl
    next hlistens => simpa using hlistens
  · rw [htold] at hy
    obtain ⟨x, hx, rfl⟩ := Option.map_eq_some_iff.mp hy
    unfold Poller.told at hisOut ⊢
    split at hisOut
    · cases hisOut
    next hlistens =>
      rw [if_neg hlistens]
      exact ⟨hout x hx hisOut, rfl⟩

/-- A queue that is running goes on running in its epoch when a caller does something, or its
    poller is told to stop, or it is forgotten. -/
private theorem Move.winding_of_isCurrent {call : Option Nat}
    {G : String → Delivery → Prop} (hm : Move G (.caller call) m m') (hc : m.isCurrent p)
    (hout : ∀ x, m.poller? p = some x → x.phase.isOut → ph = some x.phase) :
    m'.isCurrent p ∨ m'.lifecycle.standing? p.queue = none ∨ Winding p ph m' := by
  have hrunning := isCurrent_iff.mp hc
  cases hm with
  | @opened _ _ q e he =>
    -- A queue that is running is not started.
    refine .inl (isCurrent_iff.mpr ?_)
    rw [Lifecycle.standing?_beginStart he]
    split
    next hq =>
      obtain ⟨st, hst, hne, -⟩ := Lifecycle.nextEpoch?_eq_some.mp he
      rw [← hq, hrunning] at hst
      exact absurd (Option.some.inj hst ▸ rfl) hne
    next => exact hrunning
  | @stopping _ _ q e he =>
    by_cases hq : p.queue = q
    · subst hq
      obtain rfl : e = p.epoch := by
        have hst := Lifecycle.runningEpoch?_eq_some.mp he
        rw [hrunning] at hst
        exact (Standing.mk.inj (Option.some.inj hst)).2.symm
      exact .inr (.inr (winding_signal hout he))
    · refine .inl (isCurrent_iff.mpr ?_)
      have hother := Lifecycle.standing?_beginStop he p.queue
      rw [if_neg hq] at hother
      exact hother.trans hrunning
  | stopped q e =>
    refine .inl (isCurrent_iff.mpr ?_)
    rw [Lifecycle.standing?_finishStop]
    split
    next hq =>
      rw [← hq.1, hrunning] at hq
      cases hq.2
    next => exact hrunning
  | cleared => exact .inr (.inl rfl)
  | forgot =>
    refine .inl ?_
    unfold forgetBroken
    split <;> exact hc
  | _ => exact .inl hc

/-- A caller's moves halt a poller or leave it. -/
private theorem Halting.move {call : Option Nat} {G : String → Delivery → Prop}
    (hm : Move G (.caller call) m m') (h : Halting p ph m) : Halting p ph m' := by
  have hspares : Spares p m m' := hm.spares nofun
  refine ⟨fun y hy hout => ?_, ?_⟩
  · -- No caller makes a poller send anything out.
    have htouched := hspares.touched
    rw [hy] at htouched
    obtain ⟨x, hx, hphase⟩ := htouched.exists_of_isOut hout
    rw [← hphase] at hout ⊢
    exact h.out x hx hout
  · rcases h.told with hc | hnone | hwinding
    · exact hm.winding_of_isCurrent hc h.out
    · exact .inr (.inl (hspares.onward.unknown hnone))
    · exact .inr (.inr (hwinding.spares hspares))

/-- Only a caller stops a queue. -/
private theorem actor_of_stop (hc : l.isCurrent p)
    (hstop : (l.react now s).1.lifecycle.standing? p.queue = some ⟨.stopping, p.epoch⟩) :
    ∃ call, s.actor = .caller call := by
  by_contra hne
  have hdesk := desk_react (l := l) now fun call ha => hne ⟨call, ha⟩
  rw [lifecycle_of_desk hdesk, isCurrent_iff.mp hc] at hstop
  cases hstop

/-- After the step in which its queue is stopped a poller winds down. -/
private theorem winding_of_stop (hc : l.isCurrent p)
    (hstop : (l.react now s).1.lifecycle.standing? p.queue = some ⟨.stopping, p.epoch⟩) :
    Winding p ((l.poller? p).map (·.phase)) (l.react now s).1 := by
  obtain ⟨call, ha⟩ := actor_of_stop hc hstop
  have hhalting : Halting p ((l.poller? p).map (·.phase))
      (({ l with outbox := [] } : Listener).after now s) := by
    -- Along the moves of the call: still current, or told.
    apply after_of_moves (P := Halting p ((l.poller? p).map (·.phase))) now s
    · refine ⟨fun x hx _ => ?_, .inl hc⟩
      have hx' : l.poller? p = some x := hx
      rw [hx', Option.map_some]
    · intro m m' hm h
      rw [ha] at hm
      exact h.move hm
    · intro hjob
      obtain ⟨n, hn⟩ := Option.isSome_iff_exists.mp hjob
      rw [Stimulus.actor_of_job? hn] at ha
      cases ha
  rcases hhalting.told with hcurrent | hnone | hwinding
  · have hrunning : (l.react now s).1.lifecycle.standing? p.queue = some ⟨.running, p.epoch⟩ :=
      isCurrent_iff.mp hcurrent
    rw [hrunning] at hstop
    cases hstop
  · have hunknown : (l.react now s).1.lifecycle.standing? p.queue = none := hnone
    rw [hunknown] at hstop
    cases hstop
  · exact hwinding.spares (spares_outbox _ p)

/-! ## Messages -/

/-- A poller whose epoch is over leaves the messages of a batch. -/
theorem fate_of_mem_passings {x : Passing} {ds : List Delivery} (hw : l.AtWork p)
    (hc : l.isCurrent p = false) (hx : x ∈ l.passings p ds) :
    -- Along the messages: each is offered to a poller that is not current.
    x.fate = .noSlot ∨ x.fate = .outdated := by
  induction ds generalizing l with
  | nil => cases hx
  | cons d ds ih =>
    have hoffered := offered l p d
    have hpasses := hoffered.passes hw
    cases hf : (l.offer p d).1 with
    | none =>
      rw [passings_cons_of_none hf] at hx
      cases hx
    | some f =>
      rw [passings_cons_of_some hf] at hx
      rcases List.mem_cons.mp hx with rfl | hx
      · rw [hf] at hoffered
        exact hoffered.fate_of_outdated hc
      · exact ih (hpasses.atWork hw) (hpasses.isCurrent.trans hc) hx

/-- Messages are passed by their own poller. -/
private theorem actor_of_mem_passedBy {x : Passing} (hx : x ∈ l.passedBy now s) :
    s.actor = .poller x.poller := by
  have hspec := passedBy_spec now s l
  generalize l.passedBy now s = ps at hspec hx
  -- Who passes messages on is the actor: the receiver of an answer, or the one who waited.
  cases hspec with
  | nobody => cases hx
  | received => exact congrArg Actor.poller (poller_of_mem_passings hx).symm
  | waited =>
    rcases List.mem_cons.mp hx with rfl | hx
    · rfl
    · exact congrArg Actor.poller (poller_of_mem_passings hx).symm

/-- After its epoch is over a poller leaves the messages that it goes past, but for one with
    which it had waited for a worker; that one comes first, and the poller ends. -/
private theorem passedBy_of_outdated (now : Nat) (hc : l.isCurrent p = false)
    (hs : s.actor = .poller p) : (∀ x ∈ l.passedBy now s, x.fate = .noSlot ∨ x.fate = .outdated) ∨
      ∃ x rest y ds, l.passedBy now s = x :: rest ∧ l.poller? p = some y ∧ x.waited ∧
        y.phase = .submitting x.delivery ds ∧ (l.after now s).poller? p = none ∧
          ∀ z ∈ rest, z.fate = .noSlot ∨ z.fate = .outdated := by
  have hready : (l.setPhase p .ready).isCurrent p = false := hc
  have hspec := passedBy_spec now s l
  generalize l.passedBy now s = ps at hspec
  -- By what it does: nothing, an answer, or the submission that it waited for.
  cases hspec with
  | nobody =>
    refine .inl fun x hx => ?_
    cases hx
  | received hx =>
    obtain rfl := Actor.poller.inj hs
    exact .inl fun x hmem => fate_of_mem_passings (.setPhase_ready hx) hready hmem
  | @waited r y d ds hy hphase hgo =>
    obtain rfl := Actor.poller.inj hs
    have hw := AtWork.setPhase_ready hy
    have hpasses := passes_offerAgain hw d
    have hrest : ∀ z ∈ ((l.setPhase r .ready).offerAgain r d).2.passings r ds,
        z.fate = .noSlot ∨ z.fate = .outdated := by
      intro z hz
      exact fate_of_mem_passings (hpasses.atWork hw) (hpasses.isCurrent.trans hready) hz
    have hgone : (l.after now (.goOn r)).poller? r = none := poller?_goOn_of_outdated hc hy hgo
    exact .inr ⟨⟨r, d, ((l.setPhase r .ready).offerAgain r d).1, true, l.setPhase r .ready,
      ((l.setPhase r .ready).offerAgain r d).2⟩, _, y, ds, rfl, hy, rfl, hphase, hgone, hrest⟩

/-! ## What stays as it is -/

/-- Once over and gone, a poller is gone for good. -/
private theorem IsOver.poller?_react_eq_none (h : l.IsOver p) (hs : l.Sound)
    (hnone : l.poller? p = none)
    (now : Nat) (s : Stimulus) : (l.react now s).1.poller? p = none := by
  -- It has no turn any more, and nobody makes it again.
  by_cases ha : s.actor = .poller p
  · rcases turn_after (l := { l with outbox := [] }) now ha with hsame | ⟨x, hx, -⟩
    · show (({ l with outbox := [] } : Listener).after now s).poller? p = none
      rw [hsame]
      exact hnone
    · have hx' : l.poller? p = some x := hx
      rw [hnone] at hx'
      cases hx'
  · have hkept : (l.react now s).1.IsOver p ∧ (l.react now s).1.poller? p = none := by
      apply keeps_bystander (P := fun m => m.IsOver p ∧ m.poller? p = none) _ hs now ha ⟨h, hnone⟩
      intro m m' _ hspares ⟨hm, hnone⟩
      exact ⟨hm.onward hspares.onward, hm.poller?_eq_none hspares hnone⟩
    exact hkept.2

/-- It winds down in every run. -/
theorem winding_run (h : Winding p ph l) (hs : l.Sound) (xs : List (Nat × Stimulus)) :
    Winding p ph (l.run xs) :=
  (run_keeps (P := fun _ m => m.Sound ∧ Winding p ph m) ⟨hs, h⟩
    (fun _ _ now s hm => ⟨hm.1.react now s, hm.2.react hm.1 now s⟩) xs).2

/-- It receives no more. -/
private theorem Winding.not_mem_receivers (h : Winding p ph l) (hs : l.Sound) (now : Nat)
    (s : Stimulus) : p ∉ (l.step now s).receivers := by
  intro hp
  obtain ⟨_, _, hask⟩ := asks_of_mem_receivers hs hp
  have hcurrent : l.isCurrent p = true := isCurrent_iff.mpr hask.running.1
  rw [h.isOver.isCurrent] at hcurrent
  cases hcurrent

/-- Once nothing of the poller is out, nothing gets out. -/
private theorem Winding.not_isOut (h : Winding p ph l) (hs : l.Sound) (hout : ¬ l.IsOut p)
    (now : Nat) (s : Stimulus) : ¬ (l.react now s).1.IsOut p := by
  by_cases ha : s.actor = .poller p
  · rcases turn_after (l := { l with outbox := [] }) now ha with hsame | ⟨x, hx, hfits, hturn⟩
    · show ¬ (({ l with outbox := [] } : Listener).after now s).IsOut p
      rw [hsame]
      exact hout
    · rintro ⟨y, hy, hisOut⟩
      have hphase := hturn.phase_of_outdated h.isOver.isCurrent hx hfits
        (fun hxout => (h.out x hx hxout).2) hy
      rcases hphase with he | ⟨text, he⟩ <;> simp [he] at hisOut
  · have hkept : Winding p ph (l.react now s).1 ∧ ¬ (l.react now s).1.IsOut p := by
      apply keeps_bystander (P := fun m => Winding p ph m ∧ ¬ m.IsOut p) _ hs now ha ⟨h, hout⟩
      rintro m m' - hspares ⟨hm, hmout⟩
      refine ⟨hm.spares hspares, ?_⟩
      -- Nothing can be out now that was not out before.
      intro hisOut
      obtain ⟨y, hy, hphase⟩ := hisOut.exists_isOut
      have htouched := hspares.touched
      rw [hy] at htouched
      obtain ⟨x, hx, hsame⟩ := htouched.exists_of_isOut hphase
      obtain ⟨y', hy', hcases⟩ := hisOut
      obtain rfl := Option.some.inj (hy.symm.trans hy')
      rw [← hsame] at hcases
      refine hmout ⟨x, hx, hcases.imp_right fun hidle => ⟨hidle.1, ?_⟩⟩
      have hcalled := hidle.2
      rw [Bool.eq_false_iff] at hcalled ⊢
      exact fun hc => hcalled (hspares.called hc)
    exact hkept.2

/-- A poller whose epoch is over and that is gone stays gone. -/
private theorem IsOver.not_isAlive (h : l.IsOver p) (hs : l.Sound) (hgone : l.isAlive p = false)
    (now : Nat) (s : Stimulus) : (l.react now s).1.isAlive p = false := by
  by_cases ha : s.actor = .poller p
  · rcases turn_after (l := { l with outbox := [] }) now ha with hsame | ⟨x, hx, hfits, -⟩
    · show (({ l with outbox := [] } : Listener).after now s).isAlive p = false
      rw [hsame]
      exact hgone
    · have halive : l.isAlive p = true := isAlive_iff.mpr ⟨x, hx, hfits.unbroken⟩
      rw [hgone] at halive
      cases halive
  · have hkept : (l.react now s).1.IsOver p ∧ (l.react now s).1.isAlive p = false := by
      apply keeps_bystander (P := fun m => m.IsOver p ∧ m.isAlive p = false) _ hs now ha ⟨h, hgone⟩
      intro m m' _ hspares ⟨hm, hdead⟩
      refine ⟨hm.onward hspares.onward, ?_⟩
      rw [Bool.eq_false_iff] at hdead ⊢
      intro halive
      obtain ⟨y, hy, hne⟩ := isAlive_iff.mp halive
      have htouched := hspares.touched
      rw [hy] at htouched
      generalize ho : m.poller? p = o at htouched
      -- It was there before, and it had not broken off then either.
      refine hdead (isAlive_iff.mpr ?_)
      cases htouched with
      | alone => exact ⟨y, ho, hne⟩
      | woken hphase => exact ⟨_, ho, fun text => by simp [hphase]⟩
      | told x =>
        refine ⟨x, ho, fun text hbroken => hne text ?_⟩
        simp [Poller.told, hbroken, Phase.listens]
      | opened =>
        rw [hm.poller?_eq_none hspares ho] at hy
        cases hy
    exact hkept.2

/-- Once its epoch is over it does not come alive again. -/
private theorem IsOver.not_isAlive_of_mem (h : l.IsOver p) (hs : l.Sound)
    (hgone : l.isAlive p = false)
    {xs : List (Nat × Stimulus)} {x : Step} (hx : x ∈ l.steps xs) : x.before.isAlive p = false := by
  obtain ⟨ys, now, s, -, rfl, -⟩ := exists_run_of_mem_steps hx
  -- An epoch that is over does not come back, and a poller of it that ended stays away.
  have hrun : (l.run ys).Sound ∧ (l.run ys).IsOver p ∧ (l.run ys).isAlive p = false := by
    apply run_keeps (P := fun _ m => m.Sound ∧ m.IsOver p ∧ m.isAlive p = false) ⟨hs, h, hgone⟩
    intro _ m now s ⟨hm, hover, hdead⟩
    exact ⟨hm.react now s, hover.onward (onward_react m now s), hover.not_isAlive hm hdead now s⟩
  exact hrun.2.2

/-- A poller that winds down and has nothing out can go on at once. -/
private theorem Winding.canGoOn (h : Winding p ph l) (halive : l.isAlive p) (hout : ¬ l.IsOut p)
    (now : Nat) : ∃ x, l.poller? p = some x ∧ l.canGoOn now x := by
  obtain ⟨x, hx, hunbroken⟩ := isAlive_iff.mp halive
  obtain ⟨-, hid⟩ := poller?_eq_some hx
  have hquiet := h.quiet x hx
  refine ⟨x, hx, ?_⟩
  -- By its phase; it does not listen, so it does not wait.
  cases hphase : x.phase with
  | fresh | ready => simp [Listener.canGoOn, hphase]
  | awaitingSlot | resting =>
    rw [hphase] at hquiet
    cases hquiet
  | receiving since => exact absurd ⟨x, hx, .inl ⟨since, hphase⟩⟩ hout
  | submitting d ds =>
    rw [Listener.canGoOn, hphase]
    by_contra hcalled
    exact hout ⟨x, hx, .inr ⟨⟨d, ds, hphase⟩, by simpa [hid] using hcalled⟩⟩
  | broken text => exact absurd hphase (hunbroken text)

/-- A poller that winds down and has nothing out is due. -/
private theorem Winding.isDue (h : Winding p ph l) (halive : l.isAlive p) (hout : ¬ l.IsOut p)
    (now : Nat) : l.isDue now := by
  obtain ⟨x, hx, hgo⟩ := h.canGoOn halive hout now
  exact isDue_iff.mpr (.inr ⟨x, (poller?_eq_some hx).1, hgo⟩)

/-- A poller that winds down and has nothing out ends when it goes on. -/
private theorem Winding.ends (h : Winding p ph l) (halive : l.isAlive p) (hout : ¬ l.IsOut p)
    (now : Nat) : (l.react now (.goOn p)).1.poller? p = none := by
  obtain ⟨x, hx, hgo⟩ := h.canGoOn halive hout now
  exact poller?_goOn_of_outdated (l := { l with outbox := [] }) h.isOver.isCurrent hx hgo

/-- A poller that winds down and has nothing out is gone before time goes on. -/
private theorem Winding.gone (h : Winding p ph y.after) (hs : y.after.Sound)
    (hout : ¬ y.after.IsOut p) (zs : List (Nat × Stimulus))
    (hprompt : Prompt (y :: y.after.steps zs)) :
    ∀ z ∈ y.after.steps zs, y.now < z.now → z.before.isAlive p = false := by
  -- The induction goes along the steps that are made at the instant of `y`.
  induction zs generalizing y with
  | nil =>
    intro z hz
    cases hz
  | cons w zs ih =>
    intro z hz hlt
    rw [steps_cons] at hprompt
    have hafter := h.react hs w.1 w.2
    have hsound := hs.react w.1 w.2
    rcases Nat.lt_or_eq_of_le hprompt.head.le with hnow | hnow
    · -- Time goes on, so the poller cannot go on, and is gone.
      have hdead : y.after.isAlive p = false := by
        rw [Bool.eq_false_iff]
        intro halive
        have hidle := hprompt.head.idle y.now hnow (Nat.le_refl _)
        have hdue := h.isDue halive hout y.now
        rw [show y.after.isDue y.now = false from hidle] at hdue
        cases hdue
      exact h.isOver.not_isAlive_of_mem hs hdead hz
    · rw [steps_cons] at hz
      rcases List.mem_cons.mp hz with rfl | hz
      · omega
      · exact ih (y := y.after.step w.1 w.2) hafter hsound (h.not_isOut hs hout w.1 w.2)
          hprompt.tail z hz (by omega)

/-! ## The messages of a run -/

/-- At most one message of a poller was taken, and the poller has ended with it. -/
structure Spent (p : PollerId) (hist : List Step) (l : Listener) : Prop where
  at_most_one : (passed hist).countP (fun z => z.poller = p ∧ z.job?.isSome) ≤ 1
  ended : 0 < (passed hist).countP (fun z => z.poller = p ∧ z.job?.isSome) →
    l.poller? p = none

/-- What is passed in one more step. -/
private theorem countP_passed_append (hist : List Step) (x : Step) (P : Passing → Bool) :
    (passed (hist ++ [x])).countP P = (passed hist).countP P + x.passings.countP P := by
  simp [passed, List.countP_append]

/-- After a step in which no message of the poller was taken. -/
private theorem Spent.still {hist : List Step} (h : Spent p hist l) (hs : l.Sound)
    (hover : l.IsOver p) (hzero : ∀ z ∈ (l.step now s).passings, z.poller = p → z.job? = none) :
    Spent p (hist ++ [l.step now s]) (l.react now s).1 := by
  -- No message is taken in this step, so as many are taken as before.
  have hcount : (passed (hist ++ [l.step now s])).countP (fun z => z.poller = p ∧ z.job?.isSome) =
      (passed hist).countP fun z => z.poller = p ∧ z.job?.isSome := by
    rw [countP_passed_append, Nat.add_eq_left, List.countP_eq_zero]
    intro z hz hP
    simp only [decide_eq_true_eq] at hP
    rw [hzero z hz hP.1] at hP
    cases hP.2
  refine ⟨hcount ▸ h.at_most_one, fun hpos => ?_⟩
  exact hover.poller?_react_eq_none hs (h.ended (hcount ▸ hpos)) now s

/-- At most one message is taken after the epoch. -/
theorem Spent.step {hist : List Step} (h : Spent p hist l) (hs : l.Sound) (hover : l.IsOver p)
    (now : Nat) (s : Stimulus) : Spent p (hist ++ [l.step now s]) (l.react now s).1 := by
  by_cases ha : s.actor = .poller p
  · -- It passed nothing but what it left, or its last message.
    rcases passedBy_of_outdated (l := { l with outbox := [] }) now hover.isCurrent ha with
      hleft | ⟨x, rest, y, ds, hpassed, hy, -, -, hended, hrest⟩
    · exact h.still hs hover fun z hz _ => job?_of_left (hleft z hz)
    · -- The poller was there, so none of its messages had been taken.
      have hfirst : (passed hist).countP (fun z => z.poller = p ∧ z.job?.isSome) = 0 := by
        by_contra hne
        have hnone := h.ended (Nat.pos_of_ne_zero hne)
        have hsome : l.poller? p = some y := hy
        rw [hnone] at hsome
        cases hsome
      have hothers : rest.countP (fun z => z.poller = p ∧ z.job?.isSome) = 0 := by
        rw [List.countP_eq_zero]
        intro z hz hP
        simp [job?_of_left (hrest z hz)] at hP
      refine ⟨?_, fun _ => hended⟩
      have hpassings : (l.step now s).passings = x :: rest := hpassed
      rw [countP_passed_append, hpassings, hfirst, List.countP_cons, hothers]
      split <;> omega
  · refine h.still hs hover fun z hz hp => ?_
    exact absurd (hp ▸ actor_of_mem_passedBy hz) ha

/-- So it is over a run. -/
theorem spent_run (hs : l.Sound) (hover : l.IsOver p) (xs : List (Nat × Stimulus)) :
    Spent p (l.steps xs) (l.run xs) := by
  have hrun : (l.run xs).Sound ∧ (l.run xs).IsOver p ∧ Spent p (l.steps xs) (l.run xs) := by
    apply run_keeps (P := fun hist m => m.Sound ∧ m.IsOver p ∧ Spent p hist m)
    · -- Nothing is taken before the first step, so there is nothing to have ended for.
      refine ⟨hs, hover, Nat.zero_le 1, fun hpos => ?_⟩
      cases hpos
    · intro hist m now s ⟨hm, hover, h⟩
      exact ⟨hm.react now s, hover.onward (onward_react m now s), h.step hm hover now s⟩
  exact hrun.2.2

/-! ## After the stop -/

/-- A poller that winds down leaves a message, unless it waits with it for a worker. -/
private theorem Winding.left (h : Winding p ph l) {z : Passing} (hz : z ∈ (l.step now s).passings)
    (hp : z.poller = p) : z.fate = .noSlot ∨ z.fate = .outdated ∨
      z.waited ∧ ∃ ds, ph = some (.submitting z.delivery ds) := by
  have hown : s.actor = .poller p := hp ▸ actor_of_mem_passedBy hz
  rcases passedBy_of_outdated (l := { l with outbox := [] }) now h.isOver.isCurrent hown with
    hleft | ⟨x, rest, w, ds, hpassed, hw, hwaited, hphase, -, hrest⟩
  · -- Without a message in hand all of its messages are outdated.
    exact (hleft z hz).imp_right .inl
  · have hmem : z ∈ x :: rest := hpassed ▸ hz
    -- The message in hand is the one with which it was out when it was stopped.
    rcases List.mem_cons.mp hmem with rfl | hmem
    · have hout := h.out w hw (by simp [hphase, Phase.isOut])
      exact .inr (.inr ⟨hwaited, ds, hphase ▸ hout.1⟩)
    · exact (hrest z hmem).imp_right .inl

/-- When its receive call has returned, nothing of the poller is out. -/
private theorem Winding.answered (h : Winding p ph l) {x : Poller} {since : Nat}
    (hx : l.poller? p = some x) (hphase : x.phase = .receiving since) (now : Nat) (a : Answer) :
    ¬ (l.react now (.answer p a)).1.IsOut p := by
  obtain ⟨-, rfl⟩ := poller?_eq_some hx
  have hfits : Fits { l with outbox := [] } now x (.answer x.id a) := .answer hphase a
  have hturn := turn_of_fits (l := { l with outbox := [] }) hx hfits
  rintro ⟨y, hy, hisOut⟩
  have hphase := hturn.phase_of_outdated h.isOver.isCurrent hx hfits
    (fun hout => (h.out x hx hout).2) hy
  -- Afterwards it is ready or has broken off, and in neither phase is anything out.
  rcases hphase with he | ⟨text, he⟩ <;> simp [he] at hisOut

/-- Each step after a stop is made from a state in which the poller winds down. -/
private theorem Winding.of_mem_steps (h : Winding p ph l) (hs : l.Sound)
    {ys : List (Nat × Stimulus)}
    (hy : y ∈ l.steps ys) : ∃ m now s, m.Sound ∧ Winding p ph m ∧ y = m.step now s := by
  obtain ⟨zs, now, s, -, rfl, -⟩ := exists_run_of_mem_steps hy
  exact ⟨_, now, s, sound_run hs zs, winding_run h hs zs, rfl⟩

/-- So it does after the step of the stop and after each step that follows. -/
private theorem Winding.of_mem_cons {x : Step} (h : Winding p ph x.after) (hs : x.after.Sound)
    (ys : List (Nat × Stimulus)) : ∀ y ∈ x :: x.after.steps ys,
      y.after.Sound ∧ Winding p ph y.after := by
  intro y hy
  rcases List.mem_cons.mp hy with rfl | hy
  · exact ⟨hs, h⟩
  · obtain ⟨m, now, s, hm, hw, rfl⟩ := h.of_mem_steps hs hy
    exact ⟨hm.react now s, hw.react hm now s⟩

/-- From a step on after which nothing of it is out, it is gone before time goes on. -/
private theorem Winding.gone_of_cut {x : Step} (h : Winding p ph x.after) (hs : x.after.Sound)
    {ys : List (Nat × Stimulus)} (hprompt : Prompt (x :: x.after.steps ys))
    {before rest : List Step} (hcut : x :: x.after.steps ys = before ++ y :: rest)
    (hout : ¬ y.after.IsOut p) : ∀ z ∈ rest, y.now < z.now → z.before.isAlive p = false := by
  -- What holds at the step holds from there on, along the rest of the run.
  have hmem : y ∈ x :: x.after.steps ys := by
    rw [hcut]
    exact List.mem_append_right before List.mem_cons_self
  obtain ⟨hy, hw⟩ := h.of_mem_cons hs ys y hmem
  obtain ⟨zs, rfl⟩ := exists_steps_of_cut hcut
  rw [hcut] at hprompt
  exact hw.gone hy hout zs hprompt.of_append

/-- After a step in which its queue is stopped a poller winds down, whatever comes then. -/
private theorem windsDown_of_stop (hs : l.Sound) (hc : l.isCurrent p)
    (hstop : (l.react now s).1.lifecycle.standing? p.queue = some ⟨.stopping, p.epoch⟩)
    (ys : List (Nat × Stimulus)) :
    WindsDown p (l.step now s) ((l.react now s).1.steps ys) := by
  obtain ⟨call, ha⟩ := actor_of_stop hc hstop
  -- The step is the caller's, not the poller's own.
  have hactor : (l.step now s).stimulus.actor ≠ .poller p := by
    intro hown
    have hown' : s.actor = .poller p := hown
    rw [hown'] at ha
    cases ha
  have hsound : (l.react now s).1.Sound := hs.react now s
  have hwinding := winding_of_stop hc hstop
  have hafter := hwinding.of_mem_cons (x := l.step now s) hsound ys
  -- Each clause is about a step after it, at which the poller still winds down.
  constructor
  case no_receive =>
    intro y hy
    rcases List.mem_cons.mp hy with rfl | hy
    · intro hp
      obtain ⟨_, _, hask⟩ := asks_of_mem_receivers hs hp
      exact hactor hask.actor
    · obtain ⟨m, now', s', hm, hw, rfl⟩ := hwinding.of_mem_steps hsound hy
      exact hw.not_mem_receivers hm now' s'
  case quiet => exact fun y hy => (hafter y hy).2.quiet
  case out => exact fun y hy z hz hout => ((hafter y hy).2.out z hz hout).1
  case left =>
    intro y hy z hz hp
    rcases List.mem_cons.mp hy with rfl | hy
    · exact absurd (hp ▸ actor_of_mem_passedBy hz) hactor
    · obtain ⟨m, now', s', -, hw, rfl⟩ := hwinding.of_mem_steps hsound hy
      exact hw.left hz hp
  case at_most_one =>
    have hstill : (l.step now s).passings.countP (fun z => z.poller = p ∧ z.job?.isSome) = 0 := by
      rw [List.countP_eq_zero]
      intro z hz hP
      simp only [decide_eq_true_eq] at hP
      exact hactor (hP.1 ▸ actor_of_mem_passedBy hz)
    rw [passed, List.flatMap_cons, List.countP_append, hstill, Nat.zero_add]
    exact (spent_run hsound hwinding.isOver ys).at_most_one
  case answered =>
    intro y hy a z since hstimulus hz hphase
    obtain ⟨m, now', s', -, hw, rfl⟩ := hwinding.of_mem_steps hsound hy
    have hanswer : s' = .answer p a := hstimulus
    subst hanswer
    exact hw.answered hz hphase now' a
  case ends =>
    intro y hy halive hout hstimulus
    obtain ⟨m, now', s', -, hw, rfl⟩ := hwinding.of_mem_steps hsound hy
    have hgoes : s' = .goOn p := hstimulus
    subst hgoes
    exact hw.ends halive hout now'
  case at_once =>
    intro hprompt hnone
    have hcut : l.step now s :: (l.react now s).1.steps ys =
        [] ++ l.step now s :: (l.react now s).1.steps ys := rfl
    -- A poller with nothing out goes in the stop's own instant.
    apply hwinding.gone_of_cut (x := l.step now s) hsound hprompt hcut
    intro hout
    obtain ⟨z, hz, hisOut⟩ := hout.exists_isOut
    obtain ⟨z', hz', hphase⟩ := Option.map_eq_some_iff.mp (hwinding.out z hz hisOut).1
    have hstill := hnone z' hz'
    rw [hphase, hisOut] at hstill
    cases hstill
  case gone =>
    intro hprompt before y rest hcut hout
    exact hwinding.gone_of_cut (x := l.step now s) hsound hprompt hcut hout

/-- In every run of every listener that was built, every poller whose queue is stopped winds
    down, whatever comes then. -/
theorem windsDown_run {σ : Type} (k : Lookup σ) (settings : ListenerSettings) (polling : Polling)
    (handler : String) (rs : List Registration) (t : σ) (xs : List (Nat × Stimulus))
    (p : PollerId) (now : Nat) (s : Stimulus) :
    let l := (build k settings polling handler rs t).1.run xs
    l.isCurrent p → (l.step now s).after.lifecycle.standing? p.queue = some ⟨.stopping, p.epoch⟩ →
      ∀ ys, WindsDown p (l.step now s) ((l.step now s).after.steps ys) := by
  intro l hc hstop ys
  exact windsDown_of_stop (sound_run (sound_build k settings polling handler rs t) xs) hc hstop ys

/-- A poller is stopped while it waits for the only worker with the second of three messages.
    Nobody dawdles: when the worker is free the poller hands this message on, leaves the third one
    and ends, all at one instant. -/
theorem windsDown_run_submitting :
    let settings := { ListenerSettings.standard with maxWorkers := some 1 }
    let p : PollerId := ⟨"q", 1⟩
    let l := (build Lookup.verbatim settings .bySlots "h" [⟨"q", .standard, none⟩] ()).1.run
      [(0, .start 0 "q"), (0, .goOn p), (1, .answer p (.batch [⟨none, "r", "x", .empty, .empty⟩,
        ⟨none, "r'", "x", .empty, .empty⟩, ⟨none, "r'", "y", .empty, .empty⟩])), (1, .beginJob 0)]
    let x := l.step 2 (.stop 1 "q")
    let later := x.after.steps [(5, .endJob 0 .ok), (6, .deleted 0 (.ok ())), (6, .goOn p),
      (6, .proceed 1), (6, .beginJob 1), (8, .endJob 1 .ok)]
    l.isCurrent p ∧ x.after.lifecycle.standing? "q" = some ⟨.stopping, 1⟩ ∧
      Prompt (x :: later) ∧ (passed (x :: later)).map (·.fate) = [.taken 1, .outdated] ∧
      later.map (fun y => (y.now, y.before.isAlive p)) =
        [(5, true), (6, true), (6, true), (6, false), (6, false), (8, false)] ∧
      WindsDown p x later := by
  intro settings p l x later
  have hcurrent : l.isCurrent p := by decide
  have hstop : x.after.lifecycle.standing? "q" = some ⟨.stopping, 1⟩ := by decide
  -- The message that waited is taken at its last turn, the one after it is left.
  have hprompt : Prompt (x :: later) := by decide +kernel
  exact ⟨hcurrent, hstop, hprompt, by decide +kernel, by decide +kernel,
    windsDown_run Lookup.verbatim settings .bySlots "h" [⟨"q", .standard, none⟩] () _ p 2
      (.stop 1 "q") hcurrent hstop _⟩

end Listener

end Intake
