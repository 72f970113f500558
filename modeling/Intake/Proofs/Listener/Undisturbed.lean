import Intake.Proofs.Listener.Room
import Intake.Proofs.Listener.Standing

/-!
# A current poller is left in peace

As long as the epoch of a poller lasts nobody tells the poller to stop, no slot of its queue is
taken by anybody else, and it is woken exactly when enough slots are free.

- `Tuned`: the slots of a queue wake waiters at the threshold with which they were built
- `Untold`: a current poller has not been told to stop
- `Station.Refills`: slots have come back to a queue, and none was taken
- `Undisturbed.react`: what the steps of others leave of a poller and the slots of its queue
-/

namespace Intake

/-- A poller of another queue is not woken. -/
private theorem Poller.awake_of_queue_ne {q : String} {x : Poller} (h : x.id.queue ≠ q) :
    x.awake q = x := by
  unfold awake
  split
  · exact if_neg h
  · rfl

/-- Waking tells nothing. -/
@[simp] theorem Poller.awake_signalled (q : String) (x : Poller) :
    (x.awake q).signalled = x.signalled := by
  rcases x.awake_eq q with he | ⟨t, ht, he⟩ <;> rw [he]

/-- Waking twice is waking once. -/
@[simp] theorem Poller.awake_awake (q : String) (x : Poller) : (x.awake q).awake q = x.awake q := by
  rcases x.awake_eq q with he | ⟨t, ht, he⟩
  · rw [he, he]
  · rw [he]
    rfl

/-- From one station to another slots have come back, and nothing else has changed. -/
structure Station.Refills (st st' : Station) : Prop where
  source : st'.source = st.source
  threshold : st'.slots.threshold = st.slots.threshold
  free_le : st.slots.free ≤ st'.slots.free

namespace Station.Refills

variable {st st' st'' : Station}

/-- Nothing is refilled where nothing happens. -/
theorem refl (st : Station) : st.Refills st := ⟨rfl, rfl, Nat.le_refl _⟩

/-- Refilling is transitive. -/
theorem trans (h : st.Refills st') (h' : st'.Refills st'') : st.Refills st'' :=
  ⟨h'.source.trans h.source, h'.threshold.trans h.threshold, Nat.le_trans h.free_le h'.free_le⟩

/-- Slots that come back leave enough free if enough were free. -/
private theorem wakes (h : st.Refills st') (hwakes : st.slots.wakes) : st'.slots.wakes := by
  have hle : st.slots.threshold ≤ st.slots.free := of_decide_eq_true hwakes
  have hfree := h.free_le
  have hthreshold := h.threshold
  exact decide_eq_true (by omega)

end Station.Refills

namespace Listener

variable {G : String → Delivery → Prop} {a : Actor} {l l' m : Listener} {p r : PollerId}
  {d : Delivery} {q : String} {x : Poller} {st : Station} {now : Nat} {s : Stimulus}

/-! ## Thresholds -/

/-- The slots of every queue wake waiters at the threshold with which they were built. -/
def Tuned (l : Listener) : Prop := ∀ st ∈ l.stations,
  st.slots.threshold = (stationOf st.source st.handler).slots.threshold

/-- Slots that keep their threshold stay tuned. -/
private theorem Tuned.updateSlots (h : l.Tuned) (q : String) {f : Slots → Slots}
    (hf : ∀ s, (f s).threshold = s.threshold) : (l.updateSlots q f).Tuned := by
  intro st hst
  obtain ⟨st', hst', rfl⟩ := List.mem_map.mp hst
  have htuned := h st' hst'
  split
  · exact (hf _).trans htuned
  · exact htuned

/-- The same stations stay tuned. -/
private theorem Tuned.congr (h : l.Tuned) (hstations : l'.stations = l.stations) : l'.Tuned := by
  intro st hst
  exact h st (hstations ▸ hst)

/-- Giving a slot back keeps the threshold. -/
private theorem Tuned.releaseSlot (h : l.Tuned) (q : String) : (l.releaseSlot q).Tuned :=
  (h.updateSlots q (f := (·.release 1)) fun _ => rfl).congr (releaseSlot_stations l q)

/-- So does taking one. -/
private theorem Tuned.takeSlot? (h : l.Tuned) (hm : l.takeSlot? q = some m) : m.Tuned := by
  obtain ⟨_, -, -, rfl⟩ := takeSlot?_eq_some_iff.mp hm
  exact h.updateSlots q fun _ => rfl

/-- So does an offer. -/
private theorem Offered.tuned {o : Option Fate} (ho : Offered l p d o l') (h : l.Tuned) :
    l'.Tuned := by
  cases ho with
  | noSlot => exact h
  | outdated hm => exact (h.takeSlot? hm).releaseSlot p.queue
  | taken hm | queued hm => exact (h.takeSlot? hm).congr rfl
  -- The slot was taken and comes back, with the workers changed in between.
  | @refused m hm =>
    have hm' : ({ m with workers := l.workers.submit p } : Listener).Tuned :=
      (h.takeSlot? hm).congr rfl
    exact (hm'.releaseSlot p.queue).congr rfl

/-- So does handing on again. -/
private theorem Tuned.offerAgain (h : l.Tuned) (p : PollerId) (d : Delivery) :
    (l.offerAgain p d).2.Tuned := by
  unfold Listener.offerAgain
  dsimp only
  split
  · exact h
  · exact Tuned.releaseSlot (l := { l with workers := l.workers.resume p }) h p.queue

/-- So does every move. -/
private theorem Move.tuned (hm : Move G a l l') (h : l.Tuned) : l'.Tuned := by
  cases hm with
  | wentPast => exact (offered ..).tuned h
  | queued => exact ((offered ..).tuned h).congr rfl
  | @wentOn _ p _ d => exact Tuned.offerAgain (l := l.setPhase p .ready) (h.congr rfl) p d
  | forgot =>
    unfold forgetBroken
    split <;> exact h.congr rfl
  | _ => exact h.congr rfl

/-- So does settling a job. -/
private theorem Tuned.settle (h : l.Tuned) (j : Job) : (l.settle j).Tuned :=
  Tuned.congr (Tuned.releaseSlot (l := { l with jobs := l.jobs.filter (·.number ≠ j.number) }) h
    j.queue) rfl

/-- So does every step. -/
theorem Tuned.react (h : l.Tuned) (now : Nat) (s : Stimulus) : (l.react now s).1.Tuned := by
  have hafter : (({ l with outbox := [] } : Listener).after now s).Tuned := by
    apply after_of_moves (P := Tuned) now s
    · exact h
    · exact fun hm h => hm.tuned h
    · intro hjob
      exact after_forJob_of_parts now s hjob h (fun h => h) (fun h => h) (fun h => h) (fun h => h)
        fun {_ j} _ h => h.settle j
  exact hafter

/-- At the beginning the thresholds are those of the batches. -/
theorem tuned_build {σ : Type} (k : Lookup σ) (settings : ListenerSettings) (polling : Polling)
    (handler : String) (rs : List Registration) (t : σ) :
    (build k settings polling handler rs t).1.Tuned := by
  intro st hst
  obtain ⟨r, -, source, -, -, -, rfl⟩ := madeFrom_of_build k settings polling handler rs t hst
  rfl

/-! ## A current poller has not been told to stop -/

/-- An epoch that lasts goes on, or is over. -/
theorem current_or_over (h : l.isCurrent p) (ho : l.lifecycle.Onward l'.lifecycle) :
    l'.isCurrent p ∨ l'.IsOver p := by
  rw [isCurrent_iff] at h ⊢
  -- A later epoch or another stage means that the epoch of the poller is over.
  by_cases hc : l'.lifecycle.standing? p.queue = some ⟨.running, p.epoch⟩
  · exact .inl hc
  · refine .inr fun st hst => ⟨?_, fun he => hc (he ▸ hst)⟩
    obtain ⟨st', hst', hp⟩ := ho p.queue st hst
    obtain rfl := Option.some.inj (h.symm.trans hst')
    exact hp.epoch_le

/-- No current poller has been told to stop. -/
def Untold (l : Listener) : Prop := ∀ x ∈ l.pollers, l.isCurrent x.id → x.signalled = false

/-- Whoever has been told to stop had been told before. -/
def TellsNobody (l l' : Listener) : Prop :=
  ∀ y ∈ l'.pollers, y.signalled → ∃ x ∈ l.pollers, x.id = y.id ∧ x.signalled

/-- Where the pollers stay, nobody is told. -/
private theorem TellsNobody.of_eq (h : l'.pollers = l.pollers) : TellsNobody l l' :=
  fun y hy hsignalled => ⟨y, h ▸ hy, rfl, hsignalled⟩

/-- A change that tells nobody. -/
theorem TellsNobody.of_map {f : Poller → Poller} (h : l'.pollers = l.pollers.map f)
    (hf : ∀ x, (f x).id = x.id ∧ ((f x).signalled → x.signalled)) : TellsNobody l l' := by
  intro y hy hsignalled
  obtain ⟨x, hx, rfl⟩ := List.mem_map.mp (h ▸ hy)
  exact ⟨x, hx, (hf x).1.symm, (hf x).2 hsignalled⟩

/-- Pollers taken away are not told. -/
private theorem TellsNobody.of_subset (h : ∀ x ∈ l'.pollers, x ∈ l.pollers) : TellsNobody l l' :=
  fun y hy hsignalled => ⟨y, h y hy, rfl, hsignalled⟩

/-- Telling nobody is transitive. -/
theorem TellsNobody.trans (h : TellsNobody l m) (h' : TellsNobody m l') : TellsNobody l l' := by
  intro y hy hsignalled
  obtain ⟨x, hx, hid, hx'⟩ := h' y hy hsignalled
  obtain ⟨z, hz, hid', hz'⟩ := h x hx hx'
  exact ⟨z, hz, hid'.trans hid, hz'⟩

/-- A change of one poller that does not tell it. -/
private theorem tellsNobody_updatePoller (l : Listener) (p : PollerId) {f : Poller → Poller}
    (hf : ∀ x, (f x).id = x.id ∧ ((f x).signalled → x.signalled)) :
    TellsNobody l (l.updatePoller p f) := by
  refine .of_map rfl fun x => ?_
  -- One poller is changed, and it is told nothing that it was not told before.
  by_cases hx : x.id = p
  · rw [if_pos hx]
    exact hf x
  · rw [if_neg hx]
    exact ⟨rfl, id⟩

/-- Setting a phase tells nobody. -/
private theorem tellsNobody_setPhase (l : Listener) (p : PollerId) (ph : Phase) :
    TellsNobody l (l.setPhase p ph) :=
  tellsNobody_updatePoller l p fun _ => ⟨rfl, id⟩

/-- Nor does parking. -/
private theorem tellsNobody_park (l : Listener) (p : PollerId) (ph : Phase) :
    TellsNobody l (l.park p ph) := by
  refine tellsNobody_updatePoller l p fun x => ?_
  split
  · exact ⟨rfl, nofun⟩
  · exact ⟨rfl, id⟩

/-- Nor does giving a slot back. -/
private theorem tellsNobody_releaseSlot (l : Listener) (q : String) : TellsNobody l
    (l.releaseSlot q) := by
  rcases releaseSlot_pollers l q with h | h
  · exact .of_eq h
  · exact .of_map h fun x => ⟨x.awake_id q, fun hx => by simpa using hx⟩

/-- Nor does an offer. -/
private theorem Offered.tellsNobody {o : Option Fate} (h : Offered l p d o l') :
    TellsNobody l l' := by
  -- Only slots and jobs change, and waking tells nobody.
  cases h with
  | noSlot => exact .of_eq rfl
  | outdated hm =>
    obtain ⟨_, -, -, rfl⟩ := takeSlot?_eq_some_iff.mp hm
    exact tellsNobody_releaseSlot (l.updateSlots p.queue (·.acquire 1)) p.queue
  | taken hm | queued hm =>
    obtain ⟨_, -, -, rfl⟩ := takeSlot?_eq_some_iff.mp hm
    exact .of_eq rfl
  | refused hm =>
    obtain ⟨_, -, -, rfl⟩ := takeSlot?_eq_some_iff.mp hm
    exact tellsNobody_releaseSlot
      { l.updateSlots p.queue (·.acquire 1) with workers := l.workers.submit p } p.queue

/-- Nor does handing on again. -/
private theorem tellsNobody_offerAgain (l : Listener) (p : PollerId) (d : Delivery) :
    TellsNobody l (l.offerAgain p d).2 := by
  unfold offerAgain
  dsimp only
  split
  · exact .of_eq rfl
  · exact tellsNobody_releaseSlot { l with workers := l.workers.resume p } p.queue

/-- A poller that is there is current after a move only if it was current before. -/
private theorem Move.isCurrent_of_mem (hm : Move G a l l') (hs : l.Sound) (hx : x ∈ l.pollers)
    (hc : l'.isCurrent x.id) : l.isCurrent x.id := by
  refine (hm.isCurrent hc).resolve_right fun ⟨hnext, _⟩ => ?_
  have hnone := List.find?_eq_none.mp (poller?_of_nextEpoch hs hnext) x hx
  exact hnone (decide_eq_true rfl)

/-- Only a stop or the end of the listener tells pollers, and then they are not current. -/
private theorem Untold.move (hm : Move G a m l') (ha : a ≠ .caller none) (hs : m.Sound)
    (h : m.Untold) : l'.Untold := by
  have hkept : ∀ x ∈ m.pollers, l'.isCurrent x.id → m.isCurrent x.id :=
    fun x hx => hm.isCurrent_of_mem hs hx
  -- If nobody is told by the move, who is untold stays so.
  have hsame : TellsNobody m l' → l'.Untold := by
    intro ht y hy hcurrent
    rw [Bool.eq_false_iff]
    intro hsignalled
    obtain ⟨x, hx, hid, hbefore⟩ := ht y hy hsignalled
    rw [h x hx (hkept x hx (hid ▸ hcurrent))] at hbefore
    cases hbefore
  cases hm with
  | opened he =>
    refine hsame fun y hy hsignalled => ?_
    rcases List.mem_append.mp hy with hy | hy
    · exact ⟨y, hy, rfl, hsignalled⟩
    · rw [List.mem_singleton.mp hy] at hsignalled
      cases hsignalled
  | woke | asked | broke => exact hsame (tellsNobody_setPhase _ _ _)
  | wentPast => exact hsame (offered ..).tellsNobody
  | queued => exact hsame ((offered ..).tellsNobody.trans (tellsNobody_setPhase _ _ _))
  | wentOn => exact hsame ((tellsNobody_setPhase _ _ _).trans (tellsNobody_offerAgain _ _ _))
  | retired => exact hsame (.of_subset fun _ hx => (List.mem_filter.mp hx).1)
  | parked => exact hsame (tellsNobody_park _ _ _)
  | @stopping _ _ q e he =>
    intro y hy hcurrent
    obtain ⟨x, hx, hxy⟩ := List.mem_map.mp hy
    have htold : y = if x.id = ⟨q, e⟩ then x.told else x := hxy.symm
    by_cases hid : x.id = ⟨q, e⟩
    · -- Who is told is of the epoch that is over now.
      rw [htold, if_pos hid, Poller.told_id, hid] at hcurrent
      have hstopping : (m.lifecycle.beginStop q).standing? q = some ⟨.stopping, e⟩ := by
        rw [Lifecycle.standing?_beginStop he, if_pos rfl]
      cases hstopping.symm.trans (isCurrent_iff.mp hcurrent)
    · rw [htold, if_neg hid] at hcurrent ⊢
      exact h x hx (hkept x hx hcurrent)
  | told => exact absurd rfl ha
  | forgot =>
    refine hsame ?_
    unfold forgetBroken
    split
    · exact .of_eq rfl
    · exact .of_subset fun _ hx => (List.mem_filter.mp hx).1
  | _ => exact hsame (.of_eq rfl)

/-- A change that leaves the lifecycle and tells nobody. -/
private theorem Untold.of_lifecycle (h : l.Untold) (ht : TellsNobody l l')
    (hlife : l'.lifecycle = l.lifecycle) : l'.Untold := by
  intro y hy hcurrent
  rw [Bool.eq_false_iff]
  intro hsignalled
  -- A poller that is told now was told before, and then it was not the current one.
  obtain ⟨x, hx, hid, hbefore⟩ := ht y hy hsignalled
  rw [isCurrent, hlife, ← hid] at hcurrent
  rw [h x hx hcurrent] at hbefore
  cases hbefore

/-- Settling a job tells nobody. -/
private theorem Untold.settle (h : l.Untold) (j : Job) : (l.settle j).Untold :=
  h.of_lifecycle (tellsNobody_releaseSlot { l with jobs := l.jobs.filter (·.number ≠ j.number) }
    j.queue) (lifecycle_of_desk (desk_settle l j))

/-- Only dropping the listener tells without a caller. -/
private theorem actor_ne_of_ne_discard (h : s ≠ .discard) : s.actor ≠ .caller none := by
  cases s with
  | discard => exact absurd rfl h
  | _ => nofun

/-- In each step who is current stays untold. -/
theorem Untold.react (h : l.Untold) (hs : l.Sound) (now : Nat) (s : Stimulus) :
    (l.react now s).1.Untold := by
  by_cases hdiscard : s = .discard
  · -- When the listener is given up nobody is current any more.
    intro x _ hcurrent
    have hnone : (l.step now s).after.lifecycle.standing? x.id.queue = none :=
      standing?_of_forgets (.inl hdiscard) x.id.queue
    cases hnone.symm.trans (isCurrent_iff.mp hcurrent)
  · -- All other stimuli by their moves, or by the parts of a job.
    have hafter : (({ l with outbox := [] } : Listener).after now s).Sound ∧
        (({ l with outbox := [] } : Listener).after now s).Untold := by
      have hcleared : ({ l with outbox := [] } : Listener).Sound := hs.congr rfl rfl rfl rfl rfl
      have hsound : (({ l with outbox := [] } : Listener).after now s).Sound :=
        (hs.react now s).congr rfl rfl rfl rfl rfl
      apply after_of_moves (P := fun m => m.Sound ∧ m.Untold) now s
      · exact ⟨hcleared, h⟩
      · exact fun hm h => ⟨h.1.move hm, Untold.move hm (actor_ne_of_ne_discard hdiscard) h.1 h.2⟩
      · intro hjob
        refine ⟨hsound, ?_⟩
        exact after_forJob_of_parts (P := Untold) now s hjob h (fun h => h) (fun h => h)
          (fun h => h) (fun h => h) fun {_ j} _ h => h.settle j
    exact hafter.2

/-! ## While others act -/

/-- A poller is current and not disturbed, given what it and the station of its queue were: slots
    have come back at most, and the poller is awake if enough are free. -/
structure Undisturbed (x : Poller) (st : Station) (l : Listener) : Prop where
  current : l.isCurrent x.id
  exists_station : ∃ st', l.station? x.id.queue = some st' ∧ st.Refills st' ∧
    l.poller? x.id = some (if st'.slots.wakes then x.awake x.id.queue else x)

/-- What leaves the poller, its station and the lifecycle does not disturb it. -/
private theorem Undisturbed.congr (h : Undisturbed x st l) (hlife : l'.lifecycle = l.lifecycle)
    (hstations : l'.stations = l.stations) (hpoller : l'.poller? x.id = l.poller? x.id) :
    Undisturbed x st l' := by
  obtain ⟨st', hst, hrefills, hx⟩ := h.exists_station
  -- The poller, its station and its epoch are all that is looked at.
  refine ⟨?_, st', ?_, hrefills, hpoller.trans hx⟩
  · rw [isCurrent, hlife]
    exact h.current
  · rw [station?, hstations]
    exact hst

/-- A slot that comes back wakes the pollers of its queue if enough are free then. -/
private theorem releaseSlot_pollers_eq (l : Listener) (q : String) : (l.releaseSlot q).pollers =
    if ((l.releaseSlot q).station? q).any (·.slots.wakes) then l.pollers.map (·.awake q)
      else l.pollers := by
  -- The station decides whether they are woken, and it is the same after the waking.
  have hstation : (l.releaseSlot q).station? q = (l.updateSlots q (·.release 1)).station? q := by
    rw [station?, releaseSlot_stations, station?]
  rw [hstation]
  unfold releaseSlot
  dsimp only
  cases (l.updateSlots q (·.release 1)).station? q with
  | none => rfl
  | some st =>
    dsimp only [Option.any_some]
    split <;> rfl

/-- Slots that come back, perhaps after as many were taken, disturb nobody. -/
theorem Undisturbed.changed (h : Undisturbed x st l) {f : Slots → Slots}
    (hf : ∀ st', l.station? q = some st' → st'.Refills { st' with slots := f st'.slots })
    (hlife : l'.lifecycle = l.lifecycle) (hstations : l'.stations = (l.updateSlots q f).stations)
    (hpollers : l'.pollers = if (l'.station? q).any (·.slots.wakes) then l.pollers.map (·.awake q)
      else l.pollers) : Undisturbed x st l' := by
  obtain ⟨st', hst, hrefills, hx⟩ := h.exists_station
  have hcurrent : l'.isCurrent x.id := by
    rw [isCurrent, hlife]
    exact h.current
  have hstation : ∀ j, l'.station? j =
      (l.station? j).map fun s => if q = j then { s with slots := f s.slots } else s := by
    intro j
    rw [← station?_updateSlots, station?, hstations, station?]
  have hpoller : l'.poller? x.id = (l.poller? x.id).map
      fun y => if (l'.station? q).any (·.slots.wakes) then y.awake q else y := by
    have hfound : l'.poller? x.id =
        ({ l with pollers := l'.pollers } : Listener).poller? x.id := rfl
    rw [hfound, hpollers]
    split
    · exact poller?_map (fun y => y.awake_id q) l
    · exact Option.map_id'.symm
  rw [hx, Option.map_some] at hpoller
  by_cases hq : q = x.id.queue
  · subst hq
    have hback := hf st' hst
    have hst' : l'.station? x.id.queue = some { st' with slots := f st'.slots } := by
      rw [hstation, hst, Option.map_some, if_pos rfl]
    refine ⟨hcurrent, _, hst', hrefills.trans hback, hpoller.trans (congrArg some ?_)⟩
    rw [hst', Option.any_some]
    cases hwakes : (f st'.slots).wakes with
    | true => cases st'.slots.wakes <;> simp
    | false =>
      -- Not enough are free now, so not enough were free before.
      have hbefore : st'.slots.wakes = false := by
        rw [Bool.eq_false_iff] at hwakes ⊢
        exact fun hw => hwakes (hback.wakes hw)
      simp [hbefore]
  · have hst' : l'.station? x.id.queue = some st' := by
      rw [hstation, hst, Option.map_some, if_neg hq]
    refine ⟨hcurrent, st', hst', hrefills, hpoller.trans (congrArg some ?_)⟩
    split
    · -- Slots of another queue concern nobody here.
      refine Poller.awake_of_queue_ne ?_
      split
      · rw [Poller.awake_id]
        exact Ne.symm hq
      · exact Ne.symm hq
    · rfl

/-- A slot given back refills its station or another one. -/
private theorem Undisturbed.releaseSlot (h : Undisturbed x st l) (q : String) :
    Undisturbed x st (l.releaseSlot q) := by
  refine h.changed (fun st _ => ⟨rfl, rfl, ?_⟩) (releaseSlot_lifecycle l q)
    (releaseSlot_stations l q) (releaseSlot_pollers_eq l q)
  exact Nat.le_add_right _ _

/-- A slot that is taken and comes back disturbs nobody. -/
private theorem Undisturbed.takenBack (h : Undisturbed x st l) (hb : l.Balance none)
    (hm : l.takeSlot? q = some m) (workers : Workers PollerId) :
    Undisturbed x st (({ m with workers } : Listener).releaseSlot q) := by
  obtain ⟨s, hs, hpos, rfl⟩ := takeSlot?_eq_some_iff.mp hm
  refine h.changed (q := q) (f := fun s => (s.acquire 1).release 1) (fun s' hs' => ?_)
    (releaseSlot_lifecycle _ q) ?_ (releaseSlot_pollers_eq _ q)
  · obtain rfl := Option.some.inj (hs.symm.trans hs')
    -- No more slots are free than there are.
    have hle : s.slots.free ≤ s.slots.capacity := by
      obtain ⟨hcapacity, -, hsum⟩ := hb s (station?_eq_some hs).1
      omega
    rw [Slots.release_acquire hpos hle]
    exact .refl s
  · rw [releaseSlot_stations]
    simp only [updateSlots, List.map_map]
    refine List.map_congr_left fun s' _ => ?_
    by_cases hq : s'.source.name = q <;> simp [hq]

/-- An offer by another poller does not disturb it. -/
private theorem Offered.undisturbed {o : Option Fate} (ho : Offered l p d o l')
    (h : Undisturbed x st l) (hb : l.Balance none) (hne : p ≠ x.id) : Undisturbed x st l' := by
  -- Another poller of the queue is not current, so it takes no message.
  have hother : l.isCurrent p → p.queue ≠ x.id.queue := fun hc hq => by
    rw [isCurrent_of_ne h.current hq hne] at hc
    cases hc
  have htaken : ∀ {m : Listener}, l.takeSlot? p.queue = some m → l.isCurrent p →
      Undisturbed x st m := by
    intro m hm hc
    obtain ⟨st', hst, hrefills, hx⟩ := h.exists_station
    obtain ⟨_, -, -, rfl⟩ := takeSlot?_eq_some_iff.mp hm
    refine ⟨h.current, st', ?_, hrefills, hx⟩
    rw [station?_updateSlots, hst, Option.map_some, if_neg (hother hc)]
  cases ho with
  | noSlot => exact h.congr rfl rfl rfl
  | outdated hm => exact h.takenBack hb hm _
  | taken hm hc | queued hm hc => exact (htaken hm hc).congr rfl rfl rfl
  | refused hm hc => exact (h.takenBack hb hm _).congr rfl rfl rfl

/-- Nor does handing on again. -/
private theorem Undisturbed.offerAgain (h : Undisturbed x st l) (p : PollerId) (d : Delivery) :
    Undisturbed x st (l.offerAgain p d).2 := by
  have hback : Undisturbed x st { l with workers := l.workers.resume p } := h.congr rfl rfl rfl
  unfold Listener.offerAgain
  dsimp only
  split
  · exact h.congr rfl rfl rfl
  · exact (hback.releaseSlot p.queue).congr rfl rfl rfl

/-- What a move of somebody else leaves of a poller that has not broken off, as long as its epoch
    lasts. -/
private theorem Undisturbed.move (h : Undisturbed x st m) (hm : Move G a m l') (hb : m.Balance none)
    (ha : a ≠ .poller x.id) (hnone : a ≠ .caller none) (hx : ∀ text, x.phase ≠ .broken text) :
    l'.IsOver x.id ∨ Undisturbed x st l' := by
  refine (current_or_over h.current hm.onward).symm.imp_right fun hcurrent => ?_
  obtain ⟨st', hst, hrefills, hpoller⟩ := h.exists_station
  have hsame : l'.stations = m.stations → l'.poller? x.id = m.poller? x.id →
      Undisturbed x st l' := fun hstations hp =>
    ⟨hcurrent, st', by rw [station?, hstations]; exact hst, hrefills, hp.trans hpoller⟩
  have hother : ∀ {p : PollerId}, a = .poller p → p ≠ x.id := fun he hp => ha (hp ▸ he)
  cases hm with
  | opened =>
    -- Who was there is found first.
    refine hsame rfl ?_
    have hfound : m.pollers.find? (·.id = x.id) = some _ := hpoller
    simp only [poller?, List.find?_append, hfound, Option.some_or]
  | woke | asked | broke => exact hsame rfl (poller?_setPhase_of_ne (hother rfl) _)
  | wentPast => exact (offered ..).undisturbed h hb (hother rfl)
  | queued =>
    exact ((offered ..).undisturbed h hb (hother rfl)).congr rfl rfl
      (poller?_setPhase_of_ne (hother rfl) _)
  | @wentOn _ p _ d =>
    have hready : Undisturbed x st (m.setPhase p .ready) :=
      h.congr rfl rfl (poller?_setPhase_of_ne (hother rfl) _)
    exact hready.offerAgain p d
  | retired => exact hsame rfl ((poller?_remove ..).trans (if_neg (hother rfl)))
  | parked =>
    exact hsame rfl (poller?_updatePoller_of_ne (fun y => by split <;> rfl) (hother rfl))
  | @stopping _ _ q e he =>
    -- Who is told is of the epoch that is over now.
    refine hsame rfl (poller?_signal_of_ne (fun hid => ?_) _)
    have hstopping : (m.lifecycle.beginStop q).standing? q = some ⟨.stopping, e⟩ := by
      rw [Lifecycle.standing?_beginStop he, if_pos rfl]
    rw [← hid] at hcurrent
    cases hstopping.symm.trans (isCurrent_iff.mp hcurrent)
  | told => exact absurd rfl hnone
  | forgot p =>
    by_cases hp : p = x.id
    · -- It is alive, so it is not forgotten.
      have halive : m.isAlive p := by
        rw [hp, isAlive_iff]
        refine ⟨_, hpoller, fun text => ?_⟩
        split
        · rcases x.awake_eq x.id.queue with he | ⟨t, ht, he⟩ <;> rw [he]
          · exact hx text
          · simp
        · exact hx text
      unfold forgetBroken at hcurrent ⊢
      rw [if_pos halive]
      exact h
    · refine hsame ?_ (poller?_forgetBroken_of_ne hp m)
      unfold forgetBroken
      split <;> rfl
  | _ => exact hsame rfl rfl

/-- Settling a job gives a slot back. -/
private theorem Undisturbed.settle (h : Undisturbed x st l) (j : Job) : Undisturbed x st
    (l.settle j) := by
  have hgone : Undisturbed x st { l with jobs := l.jobs.filter (·.number ≠ j.number) } :=
    h.congr rfl rfl rfl
  exact (hgone.releaseSlot j.queue).congr rfl rfl rfl

/-- What a step of somebody else leaves of a poller that has not broken off, as long as its epoch
    lasts. -/
theorem Undisturbed.react (h : Undisturbed x st l) (hs : l.Sound) (hb : l.Balance none)
    (ha : s.actor ≠ .poller x.id) (hx : ∀ text, x.phase ≠ .broken text) (now : Nat) :
    (l.react now s).1.IsOver x.id ∨ Undisturbed x st (l.react now s).1 := by
  by_cases hdiscard : s = .discard
  · -- When the listener is given up all epochs are over.
    refine .inl fun st hst => ?_
    have hnone : (l.step now s).after.lifecycle.standing? x.id.queue = none :=
      standing?_of_forgets (.inl hdiscard) x.id.queue
    cases hnone.symm.trans hst
  · have hcleared : Undisturbed x st { l with outbox := [] } := h.congr rfl rfl rfl
    have hafter : (({ l with outbox := [] } : Listener).after now s).IsOver x.id ∨
        Undisturbed x st (({ l with outbox := [] } : Listener).after now s) := by
      -- A job's stimulus by its parts, all others by their moves.
      cases hjob : s.job? with
      | some n =>
        exact .inr (after_forJob_of_parts now s (by rw [hjob]; rfl) hcleared
          (fun h => h.congr rfl rfl rfl) (fun h => h.congr rfl rfl rfl)
          (fun h => h.congr rfl rfl rfl) (fun h => h.congr rfl rfl rfl)
          fun {_ j} _ h => h.settle j)
      | none =>
        have hall : (({ l with outbox := [] } : Listener).after now s).Sound ∧
            (({ l with outbox := [] } : Listener).after now s).Balance none ∧
              ((({ l with outbox := [] } : Listener).after now s).IsOver x.id ∨
                Undisturbed x st (({ l with outbox := [] } : Listener).after now s)) := by
          apply after_of_moves (P := fun m => m.Sound ∧ m.Balance none ∧
            (m.IsOver x.id ∨ Undisturbed x st m)) now s
          · exact ⟨hs.congr rfl rfl rfl rfl rfl, hb.congr rfl fun _ => rfl, .inr hcleared⟩
          · rintro m m' hm ⟨hms, hmb, hover | hmu⟩
            · exact ⟨hms.move hm, hmb.move hm hms, .inl (hover.onward hm.onward)⟩
            · exact ⟨hms.move hm, hmb.move hm hms,
                hmu.move hm hmb ha (actor_ne_of_ne_discard hdiscard) hx⟩
          · intro hsome
            rw [hjob] at hsome
            cases hsome
        exact hall.2.2
    exact hafter.imp_right fun h => h.congr rfl rfl rfl

end Listener

end Intake
