import Intake.Proofs.Listener.Turn
import Intake.Proofs.Workers

/-!
# A poller while others act

In a step in which a poller does not act itself, little can happen to it: it is woken
when a slot is free, it is told to stop, it is new, or it is forgotten after it has broken
off.  What is known of a poller while it waits is known through these lemmas.

- `Touched`: what can happen to a poller while others act
- `Move.spares`: a move of someone else does no more than that, leaves the lifecycle to go
  onward, and takes no worker away that the poller was called to
- `keeps_bystander`: what each such move keeps is kept by every step of someone else
-/

namespace Intake

/-- A poller that has been told to stop. -/
def Poller.told (x : Poller) : Poller :=
  if x.phase.listens then { x with phase := .ready } else { x with signalled := true }

/-- Telling a poller leaves its name. -/
@[simp] theorem Poller.told_id (x : Poller) : x.told.id = x.id := by
  unfold told
  split <;> rfl

/-- Whether a poller in this phase waits for what a stop does not cut short. -/
def Phase.isOut : Phase → Bool
  | .receiving _ | .submitting _ _ => true
  | _ => false

/-- Only a poller that waits for slots is woken. -/
theorem Poller.awake_eq (q : String) (x : Poller) :
    x.awake q = x ∨ ∃ t, x.phase = .awaitingSlot t ∧ x.awake q = { x with phase := .ready } := by
  unfold awake
  split
  next t ht =>
    split
    · exact .inr ⟨t, ht, rfl⟩
    · exact .inl rfl
  next => exact .inl rfl

namespace Listener

variable {G : String → Delivery → Prop} {a : Actor} {l l' m m' : Listener} {p r : PollerId}
  {s : Stimulus} {life : Lifecycle} {n : Notice} {now : Nat}

/-! ## What happens to a poller -/

/-- What can happen to a poller while others act, from what is found under its identity to
    what is found then. -/
inductive Touched (life : Lifecycle) (r : PollerId) : Option Poller → Option Poller → Prop
  | alone (o : Option Poller) : Touched life r o o
  /-- Slots are free. -/
  | woken {x : Poller} {t : Nat} (hphase : x.phase = .awaitingSlot t) :
    Touched life r (some x) (some { x with phase := .ready })
  | told (x : Poller) : Touched life r (some x) (some x.told)
  /-- Its queue is started in its epoch. -/
  | opened (he : life.nextEpoch? r.queue = some r.epoch) :
    Touched life r none (some ⟨r, .fresh, false⟩)
  /-- It had broken off, and somebody has seen it. -/
  | forgotten {x : Poller} {text : String} (hphase : x.phase = .broken text) :
    Touched life r (some x) none

/-- Nothing has touched it. -/
private theorem Touched.of_eq {o o' : Option Poller} (h : o' = o) : Touched life r o o' := by
  subst h
  exact .alone _

/-- A poller that has not broken off does not break off. -/
private theorem Touched.unbroken {x : Poller} {o : Option Poller} (h : Touched life r (some x) o)
    (hx : ∀ text, x.phase ≠ .broken text) : ∃ y, o = some y ∧ ∀ text, y.phase ≠ .broken text := by
  -- It is there after each kind of touch but the one that forgets.
  cases h with
  | alone => exact ⟨x, rfl, hx⟩
  | woken => exact ⟨_, rfl, nofun⟩
  | told =>
    refine ⟨_, rfl, fun text => ?_⟩
    unfold Poller.told
    split
    · exact nofun
    · exact hx text
  | forgotten hphase => exact absurd hphase (hx _)

/-- What a poller has out afterwards it had out before. -/
theorem Touched.exists_of_isOut {o : Option Poller} {y : Poller} (h : Touched life r o (some y))
    (hout : y.phase.isOut) : ∃ x, o = some x ∧ x.phase = y.phase := by
  cases h with
  | alone => exact ⟨y, rfl, rfl⟩
  | told x =>
    refine ⟨x, rfl, ?_⟩
    -- Being told something ends what listens, and nothing that is out listens.
    unfold Poller.told at hout ⊢
    split at hout
    · cases hout
    next hlistens => rw [if_neg hlistens]
  | woken | opened => cases hout

/-- Giving a slot back may wake it. -/
private theorem touched_releaseSlot (l : Listener) (q : String) (r : PollerId) :
    Touched life r (l.poller? r) ((l.releaseSlot q).poller? r) := by
  have hpoller : (l.releaseSlot q).poller? r =
      ({ l with pollers := (l.releaseSlot q).pollers } : Listener).poller? r := rfl
  rw [hpoller]
  -- If somebody is woken, then all who wait at the queue.
  rcases releaseSlot_pollers l q with h | h <;> rw [h]
  · exact .alone _
  · rw [poller?_map (fun x => x.awake_id q) l]
    cases l.poller? r with
    | none => exact .alone none
    | some x =>
      rw [Option.map_some]
      rcases x.awake_eq q with he | ⟨t, ht, he⟩ <;> rw [he]
      · exact .alone _
      · exact .woken ht

/-- An offer by whomever may wake it. -/
private theorem Offered.touched {d : Delivery} {o : Option Fate} (h : Offered l p d o l') :
    Touched life r (l.poller? r) (l'.poller? r) := by
  -- Taking a slot touches no poller.
  have htake : ∀ {m : Listener}, l.takeSlot? p.queue = some m → m.poller? r = l.poller? r :=
    fun hm => same_takeSlot? (f := (·.poller? r)) (fun _ => rfl) hm
  cases h with
  | noSlot => exact .alone _
  | outdated hm =>
    rw [← htake hm]
    exact touched_releaseSlot ..
  | taken hm => exact .of_eq (htake hm :)
  | @refused m' hm =>
    rw [← htake hm]
    exact touched_releaseSlot { m' with workers := l.workers.submit p } p.queue r
  | queued hm => exact .of_eq (htake hm :)

/-- So may handing on again. -/
private theorem touched_offerAgain (l : Listener) (p : PollerId) (d : Delivery) (r : PollerId) :
    Touched life r (l.poller? r) ((l.offerAgain p d).2.poller? r) := by
  unfold offerAgain
  dsimp only
  split
  · exact .alone _
  · exact touched_releaseSlot { l with workers := l.workers.resume p } p.queue r

/-- Changing one poller leaves the others. -/
theorem poller?_updatePoller_of_ne {f : Poller → Poller} (hf : ∀ x, (f x).id = x.id)
    (hne : p ≠ r) : (l.updatePoller p f).poller? r = l.poller? r := by
  rw [poller?_updatePoller hf]
  simp [hne]

/-- So does setting its phase. -/
theorem poller?_setPhase_of_ne (hne : p ≠ r) (ph : Phase) :
    (l.setPhase p ph).poller? r = l.poller? r :=
  poller?_updatePoller_of_ne (f := fun x => { x with phase := ph }) (fun _ => rfl) hne

/-- Taking one away leaves the others. -/
theorem poller?_remove (l : Listener) (p r : PollerId) :
    ({ l with pollers := l.pollers.filter (·.id ≠ p) } : Listener).poller? r =
      if p = r then none else l.poller? r :=
  List.find?_remove l.pollers p r

/-- A retired poller is gone. -/
theorem poller?_retire (l : Listener) (p : PollerId) : (l.retire p).poller? p = none :=
  (poller?_remove l p p).trans (if_pos rfl)

/-- A signal tells the poller. -/
theorem poller?_signal (l : Listener) (p r : PollerId) :
    (l.signal p).poller? r = (l.poller? r).map fun x => if p = r then x.told else x :=
  poller?_updatePoller Poller.told_id l p r

/-- It tells no other one. -/
theorem poller?_signal_of_ne (hne : p ≠ r) (l : Listener) :
    (l.signal p).poller? r = l.poller? r := by
  rw [poller?_signal]
  simp [hne]

/-- Forgetting a broken poller leaves the others. -/
theorem poller?_forgetBroken_of_ne (hne : p ≠ r) (l : Listener) :
    (l.forgetBroken p).poller? r = l.poller? r := by
  unfold forgetBroken
  split
  · rfl
  · rw [poller?_remove, if_neg hne]

/-- Signalling touches the poller by telling it. -/
private theorem touched_signal (l : Listener) (p r : PollerId) :
    Touched life r (l.poller? r) ((l.signal p).poller? r) := by
  rw [poller?_signal]
  cases l.poller? r with
  | none => exact .alone none
  | some x =>
    -- A signal changes the poller that it is for and no other.
    by_cases hp : p = r
    · simpa [hp] using .told x
    · simpa [hp] using .alone _

/-- Opening an epoch touches only its own poller. -/
private theorem touched_opened {q : String} {e : Nat} (he : l.lifecycle.nextEpoch? q = some e)
    (life : Lifecycle) (r : PollerId) : Touched l.lifecycle r (l.poller? r)
      (poller? { l with lifecycle := life, pollers := l.pollers ++ [⟨⟨q, e⟩, .fresh, false⟩] }
        r) := by
  simp only [poller?, List.find?_append]
  -- Who was there is found first.
  cases l.pollers.find? (·.id = r) with
  | some x => exact .alone _
  | none =>
    by_cases hr : (⟨q, e⟩ : PollerId) = r
    · subst hr
      simpa using .opened he
    · simpa [hr] using .alone none

/-- Forgetting touches a poller by taking it away. -/
private theorem touched_forgetBroken (l : Listener) (p r : PollerId) :
    Touched life r (l.poller? r) ((l.forgetBroken p).poller? r) := by
  unfold forgetBroken
  split
  · exact .alone _
  next hdead =>
    rw [poller?_remove]
    split
    next hp =>
      subst hp
      unfold isAlive at hdead
      -- What is there and not alive has broken off.
      cases hx : l.poller? p with
      | none => exact .alone none
      | some x =>
        rw [hx] at hdead
        cases hphase : x.phase with
        | broken text => exact .forgotten hphase
        | _ => simp [hphase] at hdead
    next => exact .alone _

/-! ## Moves of others -/

/-- From one state to another a poller was spared: it was touched at most. -/
structure Spares (r : PollerId) (m m' : Listener) : Prop where
  touched : Touched m.lifecycle r (m.poller? r) (m'.poller? r)
  onward : m.lifecycle.Onward m'.lifecycle
  /-- An epoch begins with a poller. -/
  current : m'.isCurrent r → m.isCurrent r ∨
    m.lifecycle.nextEpoch? r.queue = some r.epoch ∧ (m'.poller? r).isSome
  called : m.workers.isCalled r → m'.workers.isCalled r
  /-- No receive call is wanted for it. -/
  asks : ∀ e ∈ m'.outbox, e.receiver? = some r → e ∈ m.outbox

/-- Whatever others do, it touches a poller in one of the known ways. -/
private theorem Move.touched (hm : Move G a m m') (ha : a ≠ .poller r) :
    Touched m.lifecycle r (m.poller? r) (m'.poller? r) := by
  cases a with
  | job n =>
    cases hm with
    | noted => exact .alone _
  | caller call =>
    -- Callers tell it, forget it or open its epoch; nothing else of theirs touches it.
    cases hm with
    | opened he => exact touched_opened he _ r
    | stopping he => exact touched_signal _ _ r
    | told => exact touched_signal _ _ r
    | forgot => exact touched_forgetBroken _ _ r
    | _ => exact .alone _
  | poller p =>
    -- A poller's own moves change that poller, and wake others at the most.
    have hne : p ≠ r := fun he => ha (he ▸ rfl)
    cases hm with
    | noted => exact .alone _
    | woke | asked | broke => exact .of_eq (poller?_setPhase_of_ne hne _)
    | wentPast => exact (offered ..).touched
    | @queued _ _ d ds _ _ _ =>
      rw [poller?_setPhase_of_ne hne]
      exact (offered ..).touched
    | wentOn =>
      rw [← poller?_setPhase_of_ne (l := m) hne .ready]
      exact touched_offerAgain ..
    | retired =>
      refine .of_eq ?_
      exact (poller?_remove m p r).trans (if_neg hne)
    | parked =>
      refine .of_eq (poller?_updatePoller_of_ne (fun x => ?_) hne)
      split <;> rfl

/-- What a move does to the workers; only who acts lets a ticket go on. -/
inductive Shifted (a : Actor) (w : Workers PollerId) : Workers PollerId → Prop
  | same : Shifted a w w
  | submitted (p : PollerId) : Shifted a w (w.submit p)
  | resumed {p : PollerId} (ha : a = .poller p) : Shifted a w (w.resume p)
  | draining : Shifted a w w.beginShutdown
  | closed : Shifted a w w.close

/-- An offer shifts the workers by a submission, if it comes to that. -/
private theorem Offered.shifted {d : Delivery} {o : Option Fate} (h : Offered l p d o l')
    (a : Actor) : Shifted a l.workers l'.workers := by
  cases h with
  | noSlot => exact .same
  | outdated hm =>
    obtain ⟨_, -, -, rfl⟩ := takeSlot?_eq_some_iff.mp hm
    -- A slot taken or given back does not count for the workers.
    rw [releaseSlot_workers]
    exact .same
  | taken | queued => exact .submitted p
  | @refused m =>
    have hturned : ({ m with workers := l.workers.submit p }.turnAway p.queue).workers =
        l.workers.submit p := releaseSlot_workers _ _
    rw [hturned]
    exact .submitted p

/-- Handing on again resumes the submission. -/
theorem workers_offerAgain (l : Listener) (p : PollerId) (d : Delivery) :
    (l.offerAgain p d).2.workers = l.workers.resume p := by
  unfold offerAgain
  dsimp only
  split
  · rfl
  · exact releaseSlot_workers { l with workers := l.workers.resume p } p.queue

/-- A move shifts the workers in one of the known ways. -/
theorem Move.shifted (hm : Move G a m m') : Shifted a m.workers m'.workers := by
  cases hm with
  | wentPast => exact (offered ..).shifted _
  | @queued _ p d => exact (offered m p d).shifted _
  | wentOn =>
    rw [workers_offerAgain]
    exact .resumed rfl
  | draining => exact .draining
  | closed => exact .closed
  | forgot =>
    unfold forgetBroken
    split <;> exact .same
  | _ => exact .same

/-- What is kept by whatever a move does to the workers and when a task ends, every step
    keeps of them. -/
theorem workers_keeps {P : Workers PollerId → Prop}
    (hshift : ∀ {w w'}, Shifted s.actor w w' → P w → P w') (hfinish : ∀ {w}, P w → P w.finish)
    (h : P l.workers) (now : Nat) : P (l.react now s).1.workers := by
  have hafter : P (({ l with outbox := [] } : Listener).after now s).workers := by
    -- It is enough to look at the moves and at the end of a job.
    apply after_of_moves (P := fun m => P m.workers) now s
    · exact h
    · exact fun hm hP => hshift hm.shifted hP
    · exact fun hs => workers_after_job (P := P) hfinish now hs h
  exact hafter

/-- Others' moves do not uncall a poller. -/
private theorem Move.isCalled (hm : Move G a m m') (ha : a ≠ .poller r)
    (hr : m.workers.isCalled r) : m'.workers.isCalled r := by
  -- Only its own resumption takes it from those called.
  have hshifted := hm.shifted
  generalize m'.workers = w at hshifted
  cases hshifted with
  | same | draining => exact hr
  | submitted p => exact Workers.isCalled_submit hr p
  | resumed he =>
    refine Workers.isCalled_resume hr ?_
    rintro rfl
    exact ha he
  | closed => exact Workers.isCalled_close hr

/-- Nobody becomes current but the poller of an epoch just opened, and that one is there. -/
theorem Move.isCurrent (hm : Move G a m m') (hc : m'.isCurrent r) : m.isCurrent r ∨
    m.lifecycle.nextEpoch? r.queue = some r.epoch ∧ (m'.poller? r).isSome := by
  rw [isCurrent_iff] at hc ⊢
  -- Only callers change the lifecycle, and only a start makes anybody current.
  have hlife : m'.lifecycle = m.lifecycle →
      m.lifecycle.standing? r.queue = some ⟨.running, r.epoch⟩ := fun he => he ▸ hc
  cases a with
  | poller p => exact .inl (hlife (lifecycle_of_desk hm.desk_eq))
  | job n =>
    cases hm with
    | noted => exact .inl hc
  | caller call =>
    cases hm with
    | @opened _ _ q e he =>
      rw [Lifecycle.standing?_beginStart he] at hc
      split at hc
      next hq =>
        obtain ⟨-, rfl⟩ := Standing.mk.inj (Option.some.inj hc)
        refine .inr ⟨hq ▸ he, ?_⟩
        simp [poller?, ← hq]
      next => exact .inl hc
    | stopping he =>
      simp only [signal, updatePoller] at hc
      rw [Lifecycle.standing?_beginStop he] at hc
      split at hc
      · cases hc
      · exact .inl hc
    | stopped q e =>
      rw [Lifecycle.standing?_finishStop] at hc
      split at hc
      · cases hc
      · exact .inl hc
    | cleared => cases hc
    | forgot => exact .inl (hlife (by unfold forgetBroken; split <;> rfl))
    | _ => exact .inl hc

/-- An effect that is no receive of it adds none. -/
private theorem asks_emit {e' : Effect} (he' : e'.receiver? ≠ some r) :
    ∀ e ∈ (m.emit e').outbox, e.receiver? = some r → e ∈ m.outbox := by
  intro e he hr
  rcases List.mem_cons.mp he with rfl | he
  · exact absurd hr he'
  · exact he

/-- Others ask for nothing in its name. -/
private theorem Move.asks (hm : Move G a m m') (ha : a ≠ .poller r) :
    ∀ e ∈ m'.outbox, e.receiver? = some r → e ∈ m.outbox := by
  have hpasses : ∀ {p m₁ m₂}, Passes p m₁ m₂ → ∀ e ∈ m₂.outbox, e.receiver? = some r →
      e ∈ m₁.outbox := fun h e he hr => h.receives e he (hr ▸ rfl)
  cases hm with
  | noted | returned | retired => exact asks_emit nofun
  | wentPast hw => exact hpasses ((offered ..).passes hw)
  | @queued m p d _ hw => exact fun e he hr => hpasses ((offered m p d).passes hw) e he hr
  | @wentOn m p _ d _ hx =>
    exact fun e he hr => hpasses (passes_offerAgain (.setPhase_ready hx) d) e he hr
  | @asked m p _ now =>
    -- The receive call is wanted for the one who acts.
    have hne : p ≠ r := fun he => ha (he ▸ rfl)
    exact asks_emit (m := m.setPhase p (.receiving now)) fun he => hne (Option.some.inj he)
  | forgot =>
    unfold forgetBroken
    split <;> exact fun e he _ => he
  | _ => exact fun e he _ => he

/-- Others' moves spare a poller. -/
theorem Move.spares (hm : Move G a m m') (ha : a ≠ .poller r) : Spares r m m' :=
  ⟨hm.touched ha, hm.onward, hm.isCurrent, hm.isCalled ha, hm.asks ha⟩

/-! ## Steps of others -/

/-- A poller spared is alive if it was. -/
theorem Spares.isAlive (h : Spares r m m') (halive : m.isAlive r) : m'.isAlive r := by
  obtain ⟨x, hx, hne⟩ := isAlive_iff.mp halive
  have htouched := h.touched
  rw [hx] at htouched
  exact isAlive_iff.mpr (htouched.unbroken hne)

/-- An epoch that is still to come has no poller. -/
theorem poller?_of_nextEpoch (hs : m.Sound)
    (hnext : m.lifecycle.nextEpoch? r.queue = some r.epoch) : m.poller? r = none := by
  by_contra hne
  obtain ⟨x, hx⟩ := Option.ne_none_iff_exists'.mp hne
  obtain ⟨hmem, rfl⟩ := poller?_eq_some hx
  -- The epoch to come is later than that of each poller that there is.
  obtain ⟨st, hst, -, hepoch⟩ := Lifecycle.nextEpoch?_eq_some.mp hnext
  have hle := hs.epoch_le x.id (List.mem_map_of_mem hmem) st hst
  omega

/-- The poller with which an epoch begins is alive: there was none of its epoch. -/
theorem Spares.isAlive_of_next (h : Spares r m m') (hs : m.Sound)
    (hnext : m.lifecycle.nextEpoch? r.queue = some r.epoch) (hsome : (m'.poller? r).isSome) :
    m'.isAlive r := by
  have htouched := h.touched
  rw [poller?_of_nextEpoch hs hnext] at htouched
  generalize ho : m'.poller? r = o at htouched hsome
  -- Only the start of its epoch makes a poller of it.
  cases htouched with
  | alone => cases hsome
  | opened => exact isAlive_iff.mpr ⟨_, ho, nofun⟩

/-- Nothing that happens spares everyone. -/
theorem Spares.refl (l : Listener) (r : PollerId) : Spares r l l :=
  ⟨.alone _, .refl _, .inl, fun h => h, fun _ he _ => he⟩

/-- Emptying the outbox concerns no poller. -/
theorem spares_outbox (l : Listener) (r : PollerId) : Spares r l { l with outbox := [] } :=
  ⟨.alone _, .refl _, .inl, fun h => h, fun _ he _ => by cases he⟩

/-- What is wanted for a job is no receive call. -/
private theorem Spares.emit (h : Spares r l l') (e : Effect) (he : e.receiver? = none) :
    Spares r l (l'.emit e) := by
  have hne : e.receiver? ≠ some r := by simp [he]
  exact ⟨h.touched, h.onward, h.current, h.called,
    fun e' he' hr => h.asks e' (asks_emit hne e' he' hr) hr⟩

/-- A notice concerns no poller. -/
private theorem Spares.report (h : Spares r (l.report n) l') : Spares r l l' := by
  have hne : (Effect.report n).receiver? ≠ some r := nofun
  exact ⟨h.touched, h.onward, h.current, h.called,
    fun e he hr => asks_emit (m := l) hne e (h.asks e he hr) hr⟩

/-- Setting a job's phase spares every poller. -/
private theorem spares_setJobPhase (l : Listener) (n : Nat) (ph : JobPhase) (r : PollerId) :
    Spares r l (l.setJobPhase n ph) :=
  ⟨.alone _, .refl _, .inl, fun h => h, fun _ he _ => he⟩

/-- So does settling a job. -/
private theorem spares_settle (l : Listener) (j : Job) (r : PollerId) : Spares r l
    (l.settle j) where
  touched := touched_releaseSlot { l with jobs := l.jobs.filter (·.number ≠ j.number) } j.queue r
  onward := by
    rw [lifecycle_of_desk (desk_settle l j)]
    exact .refl _
  current h := by
    rw [Listener.isCurrent, lifecycle_of_desk (desk_settle l j)] at h
    exact .inl h
  called h := by
    -- The job's worker comes back, which calls nobody away.
    rw [workers_settle]
    exact Workers.isCalled_finish h
  asks e he _ := by
    have houtbox : (l.settle j).outbox = l.outbox :=
      releaseSlot_outbox { l with jobs := l.jobs.filter (·.number ≠ j.number) } j.queue
    exact houtbox ▸ he

/-- So do all stimuli of jobs. -/
theorem spares_after_job (now : Nat) (hs : s.job?.isSome) (r : PollerId) :
    Spares r l (l.after now s) := by
  apply after_forJob (P := Spares r l) now s hs (.refl l r)
  · intro j _ _
    unfold beginJob
    split
    · exact .refl l r
    · exact (spares_setJobPhase l j.number .handling r).emit _ rfl
  · intro j _ _ result
    unfold endJob
    split
    · exact .refl l r
    · dsimp only
      -- A notice about a failure comes before what is wanted for the job.
      cases result.failure? with
      | none =>
        split
        · exact (spares_setJobPhase l j.number .deleting r).emit _ rfl
        · exact spares_settle l j r
      | some cause =>
        split
        · exact ((spares_setJobPhase (l.report _) j.number .deleting r).emit _ rfl).report
        · exact (spares_settle _ j r).report
  · intro j _ _ result
    unfold finishDelete
    cases result with
    | ok => exact spares_settle l j r
    | error => exact (spares_settle _ j r).report

section Steps

variable {P : Listener → Prop}

/-- What is kept whenever a poller is spared is kept by every stimulus that is not its own. -/
theorem keeps_after (hP : ∀ {m m'}, m.Sound → Spares r m m' → P m → P m') (h : l.Sound)
    (now : Nat) (hs : s.actor ≠ .poller r) (hl : P l) : P (l.after now s) := by
  -- A job's stimulus spares the poller as a whole; all others do by their moves.
  cases hjob : s.job? with
  | some n => exact hP h (spares_after_job now (hjob ▸ rfl) r) hl
  | none =>
    have hafter : (l.after now s).Sound ∧ P (l.after now s) := by
      apply after_of_moves (P := fun m => m.Sound ∧ P m) now s ⟨h, hl⟩
      · intro m m' hm hm'
        exact ⟨hm'.1.move hm, hP hm'.1 (hm.spares hs) hm'.2⟩
      · intro hsome
        rw [hjob] at hsome
        cases hsome
    exact hafter.2

/-- The same for the reaction as a whole, after which the outbox is empty again. -/
theorem keeps_bystander (hP : ∀ {m m'}, m.Sound → Spares r m m' → P m → P m') (h : l.Sound)
    (now : Nat) (hs : s.actor ≠ .poller r) (hl : P l) : P (l.react now s).1 := by
  have hcleared : ({ l with outbox := [] } : Listener).Sound := h.congr rfl rfl rfl rfl rfl
  have hsound : (({ l with outbox := [] } : Listener).after now s).Sound :=
    (h.react now s).congr rfl rfl rfl rfl rfl
  exact hP hsound (spares_outbox _ r)
    (keeps_after hP hcleared now hs (hP h (spares_outbox l r) hl))

end Steps

/-- Only a step of its own makes a receive call for a poller. -/
theorem actor_of_receiver {e : Effect} (h : l.Sound) (he : e ∈ (l.step now s).effects)
    (hr : e.receiver? = some r) : s.actor = .poller r := by
  by_contra hs
  -- Otherwise all that is done in the step spares the poller, so nothing is asked in its name.
  have hcleared : ({ l with outbox := [] } : Listener).Sound := h.congr rfl rfl rfl rfl rfl
  have hnone : ∀ e ∈ (({ l with outbox := [] } : Listener).after now s).outbox,
      e.receiver? ≠ some r := by
    apply keeps_after (P := fun m => ∀ e ∈ m.outbox, e.receiver? ≠ some r) _ hcleared now hs
    · intro e he
      cases he
    · intro m m' _ hspares hm e he hr
      exact hm e (hspares.asks e he hr) hr
  exact hnone e (List.mem_reverse.mp he) hr

end Listener

end Intake
