import Intake.Proofs.Listener.Onward
import Intake.Proofs.Listener.Undisturbed

/-!
# A current poller that waits

A poller that is current waits for its receive call to return, for slots of its queue or for an
instant to come.  The steps of others leave it where it is, except that they wake it when enough
slots are free.  When it goes on it makes a receive call if a slot is free, and waits for slots if
none is.

- `Orderly`: what holds in every state of a run of a listener that was built
- `Placed`: in which phase a current poller is, and how the station of its queue stands
- `Placed.bystander`: what the step of somebody else makes of it
- `Phase.Opens`: from when on a poller in a phase can begin its next round
- `Placed.upshot`: what the next step makes of a poller that waits to begin a round
-/

namespace Intake

/-- From an instant on, seen from an earlier one, a poller in this phase can begin a round. -/
inductive Phase.Opens : Phase → Nat → Nat → Prop
  | ready (t : Nat) : Opens .ready t t
  | resting {since t : Nat} (h : since ≤ t) : Opens (.resting t) since t
  | awaitingSlot {since t : Nat} (h : since ≤ t) : Opens (.awaitingSlot t) since t

namespace Phase.Opens

variable {ph : Phase} {since since' t now : Nat}

/-- What opens later has not opened before. -/
private theorem le (h : ph.Opens since t) : since ≤ t := by
  cases h with
  | ready => exact Nat.le_refl _
  | resting h | awaitingSlot h => exact h

/-- It opens the same at a later instant. -/
theorem later (h : ph.Opens since t) (hle : since ≤ since') (ht : since' ≤ t) :
    ph.Opens since' t := by
  cases h with
  | ready =>
    -- Who is ready can go on at that one instant only.
    obtain rfl := Nat.le_antisymm ht hle
    exact .ready _
  | resting => exact .resting ht
  | awaitingSlot => exact .awaitingSlot ht

/-- A broken poller does not open again. -/
theorem unbroken (h : ph.Opens since t) (text : String) : ph ≠ .broken text := by
  cases h <;> exact nofun

/-- A poller that opens can go on from then on. -/
private theorem canGoOn (h : ph.Opens since t) (hnow : since ≤ now) (l : Listener) (p : PollerId)
    (signalled : Bool) : l.canGoOn now ⟨p, ph, signalled⟩ ↔ t ≤ now := by
  cases h with
  | ready => simpa [Listener.canGoOn] using hnow
  | resting | awaitingSlot => simp [Listener.canGoOn]

end Phase.Opens

/-- A poller begins a round in a step, from a state. -/
structure Step.BeginsRound (p : PollerId) (m : Listener) (x : Step) : Prop where
  turn : ∃ y, x.before.poller? p = some y ∧ x.before.Fits x.now y x.stimulus
  passes : Listener.Passes p ({ x.before with outbox := [] }.setPhase p .ready) m
  after : x.after = { m.beginRound x.now p with outbox := [] }

/-- A poller that is current begins a round and finds no slot of its queue free. -/
def Step.FindsNone (p : PollerId) (x : Step) : Prop :=
  ∃ m, x.BeginsRound p m ∧ m.isCurrent p ∧ m.freeSlots? p.queue = some 0

namespace Listener

variable {l l' m : Listener} {p : PollerId} {ph : Phase} {st st' : Station} {q : String}
  {s : Stimulus} {now since t : Nat} {x y z : Step}

/-! ## In every state of a run -/

/-- What holds in every state of a run of a listener that was built: identities are unambiguous,
    every slot is free or held, stations wake at their thresholds, and no current poller has been
    told to stop. -/
structure Orderly (l : Listener) : Prop where
  sound : l.Sound
  balance : l.Balance none
  tuned : l.Tuned
  untold : l.Untold

/-- A step keeps a listener in order. -/
theorem Orderly.react (h : l.Orderly) (now : Nat) (s : Stimulus) : (l.react now s).1.Orderly :=
  ⟨h.sound.react now s, h.balance.react h.sound now s, h.tuned.react now s,
    h.untold.react h.sound now s⟩

/-- So does a run. -/
theorem Orderly.run (h : l.Orderly) (xs : List (Nat × Stimulus)) : (l.run xs).Orderly :=
  run_keeps (P := fun _ m => m.Orderly) h (fun _ _ now s hm => hm.react now s) xs

/-- A listener is in order from the beginning. -/
theorem orderly_build {σ : Type} (k : Lookup σ) (settings : ListenerSettings) (polling : Polling)
    (handler : String) (rs : List Registration) (t : σ) :
    (build k settings polling handler rs t).1.Orderly :=
  ⟨sound_build k settings polling handler rs t, balance_build k settings polling handler rs t,
    tuned_build k settings polling handler rs t, nofun⟩

/-- Slots wake nobody before one is free. -/
theorem Tuned.threshold_pos (h : l.Tuned) (hst : l.station? q = some st) :
    0 < st.slots.threshold := by
  rw [h st (station?_eq_some hst).1]
  exact Nat.le_max_left ..

/-- The posts determine at how many free slots a queue wakes who waits. -/
theorem Tuned.exists_station (h : l.Tuned) (h' : l'.Tuned) (hposts : l'.posts = l.posts)
    (hst : l.station? q = some st) : ∃ slots, l'.station? q = some { st with slots } ∧
      slots.threshold = st.slots.threshold := by
  obtain ⟨slots, hst'⟩ := station?_of_posts hposts hst
  refine ⟨slots, hst', ?_⟩
  rw [h st (station?_eq_some hst).1]
  exact h' _ (station?_eq_some hst').1

/-! ## Where a poller is -/

/-- A current poller is in a phase and has not been told to stop; the station of its queue is
    given, and not enough slots are free there if the poller waits for slots. -/
structure Placed (p : PollerId) (ph : Phase) (st : Station) (l : Listener) : Prop where
  poller : l.poller? p = some ⟨p, ph, false⟩
  current : l.isCurrent p
  station : l.station? p.queue = some st
  asleep : ∀ t, ph = .awaitingSlot t → st.slots.wakes = false

/-- The free slots are those of the station. -/
theorem Placed.freeSlots? (h : Placed p ph st l) : l.freeSlots? p.queue = some st.slots.free :=
  freeSlots?_eq_some.mpr ⟨st, h.station, rfl⟩

/-- A poller at its place is alive. -/
theorem Placed.isAlive (h : Placed p ph st l) (hph : ∀ text, ph ≠ .broken text) : l.isAlive p :=
  isAlive_iff.mpr ⟨_, h.poller, hph⟩

/-- Who has out a receive call or rests is where it is, and so is who waits for slots until enough
    are free. -/
private theorem Placed.undisturbed (h : Placed p ph st l) : Undisturbed ⟨p, ph, false⟩ st l := by
  refine ⟨h.current, st, h.station, .refl st, h.poller.trans (congrArg some ?_)⟩
  split
  next hwakes =>
    -- It does not wait for slots, so it is not woken.
    rcases Poller.awake_eq p.queue ⟨p, ph, false⟩ with he | ⟨t, ht, -⟩
    · exact he.symm
    · rw [h.asleep t ht] at hwakes
      cases hwakes
  next => rfl

/-- The step of somebody else leaves a current poller where it is, but for waking it when enough
    slots are free, unless it ends the epoch. -/
theorem Placed.bystander (h : Placed p ph st l) (ho : l.Orderly) (ha : s.actor ≠ .poller p)
    (hph : ∀ text, ph ≠ .broken text) (now : Nat) : (l.react now s).1.IsOver p ∨
      ∃ st', st.Refills st' ∧ (Placed p ph st' (l.react now s).1 ∨
        (∃ t, ph = .awaitingSlot t) ∧ st'.slots.wakes ∧ Placed p .ready st' (l.react now s).1) := by
  refine (h.undisturbed.react ho.sound ho.balance ha hph now).imp_right fun hu => ?_
  -- Undisturbed, it is woken if the slots of its station have come to the threshold.
  obtain ⟨st', hst', hrefills, hpoller⟩ := hu.exists_station
  refine ⟨st', hrefills, ?_⟩
  cases hwakes : st'.slots.wakes with
  | false =>
    rw [hwakes] at hpoller
    exact .inl ⟨hpoller, hu.current, hst', fun _ _ => hwakes⟩
  | true =>
    rw [hwakes, if_pos rfl] at hpoller
    by_cases hawaits : ∃ t, ph = .awaitingSlot t
    · obtain ⟨t, rfl⟩ := hawaits
      have hready : (Poller.mk p (.awaitingSlot t) false).awake p.queue = ⟨p, .ready, false⟩ :=
        if_pos rfl
      exact .inr ⟨⟨t, rfl⟩, rfl, hpoller.trans (congrArg some hready), hu.current, hst', nofun⟩
    · refine .inl ⟨hpoller.trans (congrArg some ?_), hu.current, hst',
        fun t ht => absurd ⟨t, ht⟩ hawaits⟩
      rcases Poller.awake_eq p.queue ⟨p, ph, false⟩ with he | ⟨t, ht, -⟩
      · exact he
      · exact absurd ⟨t, ht⟩ hawaits

/-! ## Beginning a round -/

/-- A poller not told is parked. -/
theorem poller?_park (hx : l.poller? p = some ⟨p, ph, false⟩) (ph' : Phase) :
    (l.park p ph').poller? p = some ⟨p, ph', false⟩ := by
  unfold park
  rw [poller?_updatePoller (fun y => by split <;> rfl), hx, Option.map_some, if_pos rfl]
  rfl

/-- The instant until which a poller waits for slots. -/
def patience (l : Listener) (now : Nat) (st : Station) : Nat :=
  now + st.source.options.slotWait l.settings.minSlotWait

/-- Patience ends no earlier than now. -/
theorem le_patience (l : Listener) (now : Nat) (st : Station) : now ≤ l.patience now st :=
  Nat.le_add_right ..

/-- A round without a free slot waits for one. -/
private theorem beginRound_of_none (hst : l.station? p.queue = some st) (hc : l.isCurrent p)
    (hfree : st.slots.free = 0) (now : Nat) :
    l.beginRound now p = l.park p (.awaitingSlot (l.patience now st)) := by
  unfold beginRound
  rw [hst]
  simp only [hc, hfree, patience]
  rfl

/-- A round with free slots asks for as many messages. -/
private theorem beginRound_of_pos (hst : l.station? p.queue = some st) (hc : l.isCurrent p)
    (hfree : 0 < st.slots.free) (now : Nat) :
    l.beginRound now p = (l.setPhase p (.receiving now)).emit
      (.receive p st.slots.free (l.polling st.source st.slots.free)) := by
  unfold beginRound
  rw [hst]
  simp only [hc, Nat.ne_of_gt hfree]
  rfl

/-- A current poller that has gone past messages is at work and has not been told to stop. -/
theorem Orderly.ready_of_passes (ho : l.Orderly) {x : Poller} (hx : l.poller? p = some x)
    (hm : Passes p ({ l with outbox := [] }.setPhase p .ready) m) (hc : m.isCurrent p) :
    m.poller? p = some ⟨p, .ready, false⟩ := by
  obtain ⟨hmem, rfl⟩ := poller?_eq_some hx
  -- The poller was not told anything while its epoch is current.
  have huntold : x.signalled = false := ho.untold x hmem (hm.isCurrent.symm.trans hc)
  rw [hm.poller, poller?_setPhase]
  show (l.poller? x.id).map _ = _
  rw [hx, Option.map_some, if_pos rfl, huntold]

/-- A current poller that finds no slot free waits for slots. -/
theorem placed_of_findsNone (ho : l.Orderly) (hfinds : (l.step now s).FindsNone p) :
    ∃ st, Placed p (.awaitingSlot (l.patience now st)) st (l.react now s).1 ∧
      st.slots.free = 0 := by
  obtain ⟨m, ⟨⟨x, hx, -⟩, hpasses, hafter⟩, hcurrent, hfree⟩ := hfinds
  obtain ⟨st, hst, hzero⟩ := freeSlots?_eq_some.mp hfree
  have hsettings : m.settings = l.settings := congrArg Prod.fst hpasses.desk
  -- What it has passed before the round does not matter: the round begins with no free slot.
  have hround : (l.react now s).1 =
      { m.park p (.awaitingSlot (l.patience now st)) with outbox := [] } := by
    have hafter' : (l.react now s).1 = { m.beginRound now p with outbox := [] } := hafter
    rw [hafter', beginRound_of_none hst hcurrent hzero, patience, hsettings, patience]
  have hstation : (l.react now s).1.station? p.queue = some st := by
    rw [hround]
    exact hst
  refine ⟨st, ⟨?_, ?_, hstation, fun _ _ => ?_⟩, hzero⟩
  · rw [hround]
    exact poller?_park (ho.ready_of_passes hx hpasses hcurrent) _
  · rw [hround]
    exact hcurrent
  · have hpos := (ho.react now s).tuned.threshold_pos hstation
    exact decide_eq_false (by omega)

/-! ## Waiting to begin a round -/

/-- What has been put out does not say whose turn it is. -/
private theorem fits_outbox {x : Poller} :
    ({ l with outbox := [] } : Listener).Fits now x s ↔ l.Fits now x s := by
  constructor <;> rintro (hc | ⟨hphase, a⟩)
  exacts [.goOn hc, .answer hphase a, .goOn hc, .answer hphase a]

/-- Nobody who waits to begin a round lets the instant pass from which it can. -/
theorem Placed.le_of_prompt (h : Placed p ph st x.after) (hopens : ph.Opens x.now t)
    (hp : x.PromptAfter (x.after.step now s)) : now ≤ t := by
  by_contra hlate
  -- Had time gone past `t`, nothing would have been due there, but the poller was.
  have hidle : x.after.isDue t = false := hp.idle t (Nat.lt_of_not_le hlate) hopens.le
  have hdue : x.after.isDue t = true :=
    isDue_iff.mpr (.inr ⟨_, (poller?_eq_some h.poller).1,
      (hopens.canGoOn hopens.le ..).mpr (Nat.le_refl t)⟩)
  rw [hidle] at hdue
  cases hdue

/-- Who does not act makes no receive call. -/
private theorem not_mem_receivers (hs : l.Sound) (ha : s.actor ≠ .poller p) (now : Nat) :
    p ∉ (l.step now s).receivers := by
  intro hp
  obtain ⟨_, _, hask⟩ := asks_of_mem_receivers hs hp
  exact ha hask.actor

/-- What a step makes of a current poller that waits to begin a round and can from an instant on. -/
inductive Upshot (p : PollerId) (ph : Phase) (st : Station) (t : Nat) (x : Step) : Prop
  | ended (h : x.after.IsOver p) (hnone : p ∉ x.receivers)
  | still {st' : Station} (hr : st.Refills st') (h : Placed p ph st' x.after)
    (hnone : p ∉ x.receivers)
  /-- Enough slots are free. -/
  | woken {st' : Station} {u : Nat} (hph : ph = .awaitingSlot u) (hr : st.Refills st')
    (hwakes : st'.slots.wakes) (h : Placed p .ready st' x.after) (hnone : p ∉ x.receivers)
  | calls (ht : t ≤ x.now) (hfree : 0 < st.slots.free) (hcalls : p ∈ x.receivers)
  /-- It finds no slot free and waits once more. -/
  | parks (ht : t ≤ x.now) (hfree : st.slots.free = 0) (hfinds : x.FindsNone p)
    (h : Placed p (.awaitingSlot (x.before.patience x.now st)) st x.after)
    (hnone : p ∉ x.receivers)

/-- Who waits to begin a round begins it when it goes on. -/
private theorem after_goOn_of_opens (hx : l.poller? p = some ⟨p, ph, false⟩)
    (hopens : ph.Opens since t) (hnow : since ≤ now) (ht : t ≤ now) :
    ({ l with outbox := [] } : Listener).after now (.goOn p) =
      ({ l with outbox := [] }.setPhase p .ready).beginRound now p := by
  have hgo : ({ l with outbox := [] } : Listener).canGoOn now ⟨p, ph, false⟩ :=
    (hopens.canGoOn hnow ..).mpr ht
  rw [after_goOn (l := { l with outbox := [] }) hx hgo]
  cases hopens <;> rfl

/-- A poller that opens and finds no free slot. -/
theorem findsNone_goOn (hx : l.poller? p = some ⟨p, ph, false⟩) (hopens : ph.Opens since t)
    (hnow : since ≤ now) (ht : t ≤ now) (hc : l.isCurrent p)
    (hfree : l.freeSlots? p.queue = some 0) : (l.step now (.goOn p)).FindsNone p := by
  refine ⟨{ l with outbox := [] }.setPhase p .ready, ⟨⟨_, hx, ?_⟩, .refl .., ?_⟩, hc, hfree⟩
  · exact .goOn ((hopens.canGoOn hnow ..).mpr ht)
  · exact congrArg (fun m : Listener => { m with outbox := [] })
      (after_goOn_of_opens hx hopens hnow ht)

/-- When its wait is over it waits again, or calls. -/
private theorem Placed.upshot_goOn (h : Placed p ph st l) (ho : l.Orderly)
    (hopens : ph.Opens since t)
    (hnow : since ≤ now) (ht : t ≤ now) : Upshot p ph st t (l.step now (.goOn p)) := by
  have hafter := after_goOn_of_opens h.poller hopens hnow ht
  let m : Listener := { l with outbox := [] }.setPhase p .ready
  have hst : m.station? p.queue = some st := h.station
  have hc : m.isCurrent p := h.current
  have heffects : (l.step now (.goOn p)).effects =
      (({ l with outbox := [] } : Listener).after now (.goOn p)).outbox.reverse := rfl
  -- By the free slots of its station.
  rcases Nat.eq_zero_or_pos st.slots.free with hfree | hfree
  · have hfinds := findsNone_goOn h.poller hopens hnow ht hc
      (freeSlots?_eq_some.mpr ⟨st, hst, hfree⟩)
    have hround := hafter.trans (beginRound_of_none hst hc hfree now)
    obtain ⟨st', hplaced, -⟩ := placed_of_findsNone ho hfinds
    have hstation : (({ l with outbox := [] } : Listener).after now (.goOn p)).station? p.queue =
        some st := by
      rw [hround]
      exact hst
    obtain rfl : st' = st := Option.some.inj (hplaced.station.symm.trans hstation)
    refine .parks ht hfree hfinds hplaced fun hp => ?_
    rw [Step.receivers, heffects, hround] at hp
    cases hp
  · have hround := hafter.trans (beginRound_of_pos hst hc hfree now)
    refine .calls ht hfree ?_
    rw [Step.receivers, heffects, hround]
    exact List.mem_cons_self

/-- A stimulus for a poller that does not fit leaves it where it is. -/
theorem Placed.unfit (h : Placed p ph st l) (ha : s.actor = .poller p)
    (hunfit : ¬ l.Fits now ⟨p, ph, false⟩ s) :
    Placed p ph st (l.react now s).1 ∧ p ∉ (l.step now s).receivers := by
  -- What does not fit changes nothing and emits nothing.
  have hsame : ({ l with outbox := [] } : Listener).after now s = { l with outbox := [] } := by
    refine (turn_after now ha).resolve_right fun ⟨x, hx, hfits, _⟩ => hunfit ?_
    obtain rfl : x = ⟨p, ph, false⟩ := Option.some.inj (hx.symm.trans h.poller)
    exact fits_outbox.mp hfits
  have hreact : l.react now s = ({ l with outbox := [] }, []) := by
    unfold react
    rw [hsame]
    rfl
  constructor
  · rw [hreact]
    exact ⟨h.poller, h.current, h.station, h.asleep⟩
  · intro hp
    have heffects : (l.step now s).effects = [] := congrArg Prod.snd hreact
    rw [Step.receivers, heffects] at hp
    cases hp

/-- Who waits to begin a round goes on waiting, is woken, begins the round when it may, or is of an
    epoch that is over. -/
theorem Placed.upshot (h : Placed p ph st l) (ho : l.Orderly) (hopens : ph.Opens since t)
    (hnow : since ≤ now) (s : Stimulus) : Upshot p ph st t (l.step now s) := by
  -- Its own turn, if that fits, or somebody else's step.
  by_cases ha : s.actor = .poller p
  · by_cases hfits : l.Fits now ⟨p, ph, false⟩ s
    · cases hfits with
      | goOn hc => exact h.upshot_goOn ho hopens hnow ((hopens.canGoOn hnow ..).mp hc)
      | answer hphase => cases hopens <;> cases hphase
    · obtain ⟨hplaced, hnone⟩ := h.unfit ha hfits
      exact .still (.refl st) hplaced hnone
  · have hnone := not_mem_receivers ho.sound ha now
    rcases h.bystander ho ha hopens.unbroken now with
      hover | ⟨st', hr, hplaced | ⟨⟨u, hph⟩, hwakes, hplaced⟩⟩
    · exact .ended hover hnone
    · exact .still hr hplaced hnone
    · exact .woken hph hr hwakes hplaced hnone

/-! ## Prompt runs -/

/-- A step of an orderly listener and the steps after it, at which nobody dawdles. -/
structure PromptRun (x : Step) (later : List Step) : Prop where
  exists_step : ∃ (l : Listener) (now : Nat) (s : Stimulus), l.Orderly ∧ x = l.step now s
  exists_steps : ∃ ys, later = x.after.steps ys
  prompt : Prompt (x :: later)

namespace PromptRun

variable {later before rest : List Step}

/-- A listener in order stays so after the step. -/
theorem orderly_after (h : PromptRun x later) : x.after.Orderly := by
  obtain ⟨l, now, s, hl, rfl⟩ := h.exists_step
  exact hl.react now s

/-- The step after a step is made from the state to which that one has led. -/
theorem cons (h : PromptRun x (y :: rest)) :
    (∃ now s, y = x.after.step now s) ∧ x.PromptAfter y ∧ PromptRun y rest := by
  obtain ⟨ys, hys⟩ := h.exists_steps
  cases ys with
  | nil => cases hys
  | cons u ys =>
    rw [steps_cons] at hys
    obtain ⟨rfl, rfl⟩ := List.cons.inj hys
    exact ⟨⟨u.1, u.2, rfl⟩, h.prompt.head,
      ⟨⟨_, _, _, h.orderly_after, rfl⟩, ⟨ys, rfl⟩, h.prompt.tail⟩⟩

/-- Wherever a prompt run is cut, it goes on as one. -/
theorem cut (h : PromptRun x (before ++ y :: rest)) : PromptRun y rest := by
  induction before generalizing x with
  | nil => exact h.cons.2.2
  | cons z before ih => exact ih h.cons.2.2

/-- Between two steps the lifecycle goes onward. -/
theorem onward (h : PromptRun x (before ++ y :: rest)) :
    x.after.lifecycle.Onward y.before.lifecycle := by
  induction before generalizing x with
  | nil =>
    obtain ⟨⟨now, s, rfl⟩, -⟩ := h.cons
    exact .refl _
  | cons z before ih =>
    obtain ⟨⟨now, s, rfl⟩, -, hz⟩ := h.cons
    exact (onward_react x.after now s).trans (ih hz)

/-- An epoch that is over stays over. -/
theorem not_isOver (h : PromptRun x (before ++ y :: rest)) (hc : y.before.isCurrent p) :
    ¬ x.after.IsOver p := by
  intro hover
  rw [(hover.onward h.onward).isCurrent] at hc
  cases hc

/-- Who is current and will be is so all the time. -/
theorem isCurrent_of_later {mid : List Step}
    (h : PromptRun x (before ++ y :: (mid ++ z :: rest))) (hx : x.after.isCurrent p)
    (hz : z.before.isCurrent p) : y.before.isCurrent p := by
  refine (current_or_over hx h.onward).resolve_right fun hover => ?_
  obtain ⟨l, now, s, -, rfl⟩ := h.cut.exists_step
  exact h.cut.not_isOver hz (hover.onward (onward_react l now s))

/-- Instants do not go back. -/
theorem now_le (h : PromptRun x (before ++ y :: rest)) (hz : z ∈ before) : z.now ≤ y.now := by
  obtain ⟨before', mid, rfl⟩ := List.append_of_mem hz
  rw [List.append_assoc, List.cons_append] at h
  exact h.cut.prompt.now_le (List.mem_append_right _ List.mem_cons_self)

/-- No step changes the settings. -/
theorem settings_eq (h : PromptRun x (before ++ y :: rest)) :
    y.before.settings = x.after.settings := by
  induction before generalizing x with
  | nil =>
    obtain ⟨⟨now, s, rfl⟩, -⟩ := h.cons
    rfl
  | cons z before ih =>
    obtain ⟨⟨now, s, rfl⟩, -, hz⟩ := h.cons
    exact (ih hz).trans (settings_react x.after now s)

/-- Who makes a receive call is current before it. -/
theorem isCurrent_of_receives (h : PromptRun x later) (hp : p ∈ x.receivers) :
    x.before.isCurrent p := by
  obtain ⟨l, now, s, hl, rfl⟩ := h.exists_step
  obtain ⟨_, _, hask⟩ := asks_of_mem_receivers hl.sound hp
  exact isCurrent_iff.mpr hask.running.1

/-- Who calls is current after the step. -/
theorem isCurrent_after (h : PromptRun x later) (hp : p ∈ x.receivers) :
    x.after.isCurrent p := by
  obtain ⟨l, now, s, hl, rfl⟩ := h.exists_step
  obtain ⟨_, _, hask⟩ := asks_of_mem_receivers hl.sound hp
  exact isCurrent_iff.mpr hask.running.2

/-- A prompt run goes on as one where its last step is followed promptly. -/
theorem extend {zs : List (Nat × Stimulus)} (h : PromptRun x (before ++ [y]))
    (hprompt : Prompt (y :: y.after.steps zs)) : PromptRun x (before ++ y :: y.after.steps zs) where
  exists_step := h.exists_step
  exists_steps := by
    obtain ⟨ys, hys⟩ := h.exists_steps
    obtain ⟨ys, now, s, -, -, rfl, rfl, -⟩ := exists_cut_of_steps hys.symm
    exact ⟨ys ++ (now, s) :: zs, (steps_append x.after ys ((now, s) :: zs)).symm⟩
  -- The run that goes on joins the first part at the step where that part ends.
  prompt := by
    have hsplit : (x :: before ++ y :: y.after.steps zs).IsChain Step.PromptAfter :=
      List.isChain_split.mpr ⟨h.prompt, hprompt⟩
    exact hsplit

/-- A prompt run goes on as one past every later instant, by what the calls and the pollers do
    themselves. -/
theorem exists_later (h : PromptRun x (before ++ [y])) (hmin : 0 < y.after.settings.minSlotWait)
    (hn : (y.after.calls.map (·.number)).Nodup) {u : Nat} (hu : y.now ≤ u) :
    ∃ zs : List (Nat × Stimulus), (∀ z ∈ zs, z.2.isOwn) ∧
      PromptRun x (before ++ y :: y.after.steps zs) ∧ ∃ z ∈ y.after.steps zs, u < z.now := by
  obtain ⟨zs, hown, hprompt, hlate⟩ := Prompt.exists_later h.cut.orderly_after.sound hmin hn hu
  exact ⟨zs, hown, h.extend hprompt, hlate⟩

end PromptRun

end Listener

end Intake
