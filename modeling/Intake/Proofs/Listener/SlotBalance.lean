import Intake.Proofs.Listener.Sound
import Intake.Proofs.Slots

/-!
# Every slot is free or held

A slot of a queue is held by each job of the queue, from the moment the workers take
the message until the message is settled, and by each poller of the queue that waits
for a worker with a message in hand.  In every state of a run the free slots and the
held ones make up the batch size of the queue.

While a step is under way one slot may be loose: taken from the free ones and not yet
held by a job or a waiting poller.  `Balance l loose` says that all slots are accounted
for with that one.

- `Balance.take`, `Balance.release`: a slot gets loose and comes back
- `Balance.addJob`, `Balance.submitting`: a loose slot comes to be held
- `slots_conserved`: the law for every run of every listener that was built
-/

namespace Intake

/-- Whether a poller holds a slot of a queue: it is a poller of the queue and waits for a
    worker. -/
def Poller.holds (q : String) (x : Poller) : Bool := x.id.queue = q && !x.phase.hand.isEmpty

namespace Listener

/-- The number of slots of a queue that are held. -/
def held (l : Listener) (q : String) : Nat :=
  l.jobs.countP (·.queue = q) + l.pollers.countP (Poller.holds q)

/-- Each slot is free or held, but for one that may be loose; none came back that was not
    missing. -/
def Balance (l : Listener) (loose : Option String) : Prop :=
  ∀ s ∈ l.stations, s.slots.capacity = s.source.options.batch ∧ s.slots.ignored = 0 ∧
    s.slots.free + l.held s.source.name + (if loose = some s.source.name then 1 else 0) =
      s.source.options.batch

variable {G : String → Delivery → Prop} {a : Actor} {l l' : Listener} {loose : Option String}
  {q : String}

/-- The balance looks at stations, jobs and the hands of pollers alone. -/
theorem Balance.congr (h : l.Balance loose) (hstations : l'.stations = l.stations)
    (hheld : ∀ q, l'.held q = l.held q) : l'.Balance loose := by
  intro s hs
  rw [hheld]
  exact h s (hstations ▸ hs)

/-- What the balance says about one queue. -/
theorem Balance.sum (h : l.Balance loose) {s : Station} (hs : l.station? q = some s) :
    s.slots.free + l.held q + (if loose = some q then 1 else 0) = s.source.options.batch := by
  obtain ⟨hmem, rfl⟩ := station?_eq_some hs
  exact (h s hmem).2.2

/-- The same pollers and jobs hold the same slots. -/
private theorem held_of_pollers (hjobs : l'.jobs = l.jobs)
    (hpollers : ∀ q, l'.pollers.countP (Poller.holds q) = l.pollers.countP (Poller.holds q))
    (q : String) : l'.held q = l.held q := by
  rw [held, held, hjobs, hpollers]

/-! ## Loose slots -/

/-- A slot taken is loose for the moment. -/
theorem Balance.take (h : l.Balance none) {m : Listener} (hm : l.takeSlot? q = some m)
    (hn : l.names.Nodup) : m.Balance (some q) := by
  obtain ⟨st, hst, hpos, rfl⟩ := takeSlot?_eq_some_iff.mp hm
  intro s' hs'
  obtain ⟨s, hs, rfl⟩ := List.mem_map.mp hs'
  obtain ⟨hcap, hign, hsum⟩ := h s hs
  have hheld : (l.updateSlots q (·.acquire 1)).held s.source.name = l.held s.source.name := rfl
  by_cases hq : s.source.name = q
  · -- The station is the one from which the slot is taken.
    obtain rfl : s = st := Option.some.inj ((station?_of_mem hn hs).symm.trans (hq ▸ hst))
    simp only [hq, if_true, Slots.capacity_acquire, Slots.ignored_acquire, Slots.free_acquire]
    refine ⟨hcap, hign, ?_⟩
    simp only [hq, reduceCtorEq, if_false] at hsum hheld
    rw [hheld]
    omega
  · -- Stations of other queues are as before.
    simp only [hq, if_false]
    refine ⟨hcap, hign, ?_⟩
    have hne : (some q = some s.source.name) = False := by simp [Ne.symm hq]
    simp only [hne, if_false, hheld]
    simpa using hsum

/-- Giving a slot back changes nobody's hold. -/
theorem held_releaseSlot (l : Listener) (q j : String) : (l.releaseSlot q).held j = l.held j := by
  refine held_of_pollers (by simp) (fun i => countP_releaseSlot fun x => ?_) j
  simp [Poller.holds]

/-- The loose slot is given back. -/
theorem Balance.release (h : l.Balance (some q)) : (l.releaseSlot q).Balance none := by
  intro s' hs'
  rw [releaseSlot_stations] at hs'
  obtain ⟨s, hs, rfl⟩ := List.mem_map.mp hs'
  obtain ⟨hcap, hign, hsum⟩ := h s hs
  simp only [held_releaseSlot]
  by_cases hq : s.source.name = q
  · simp only [hq, if_true] at hsum ⊢
    -- The loose slot is missing, so it comes back in full.
    rw [Slots.release_one (by omega)]
    refine ⟨hcap, hign, ?_⟩
    simp only [reduceCtorEq, if_false]
    omega
  · have hne : (some q = some s.source.name) = False := by simp [Ne.symm hq]
    simp only [hq, if_false] at hsum ⊢
    simp only [hne, if_false] at hsum
    exact ⟨hcap, hign, by simpa using hsum⟩

/-- A loose slot of a queue comes to be held there. -/
theorem Balance.hold (h : l.Balance (some q)) (hstations : l'.stations = l.stations)
    (hheld : ∀ j, l'.held j = l.held j + if j = q then 1 else 0) : l'.Balance none := by
  intro s hs
  obtain ⟨hcap, hign, hsum⟩ := h s (hstations ▸ hs)
  refine ⟨hcap, hign, ?_⟩
  rw [hheld]
  -- What is no longer loose is held.
  simp only [Option.some.injEq, reduceCtorEq, if_false, eq_comm (a := q)] at hsum ⊢
  omega

/-- A held slot of a queue gets loose. -/
private theorem Balance.loosen (h : l.Balance none) (hstations : l'.stations = l.stations)
    (hheld : ∀ j, l.held j = l'.held j + if j = q then 1 else 0) : l'.Balance (some q) := by
  intro s hs
  obtain ⟨hcap, hign, hsum⟩ := h s (hstations ▸ hs)
  -- The slot that is no longer held is the loose one.
  refine ⟨hcap, hign, ?_⟩
  rw [hheld] at hsum
  simp only [Option.some.injEq, reduceCtorEq, if_false, eq_comm (a := q)] at hsum ⊢
  omega

/-- A job takes over the loose slot. -/
theorem Balance.addJob (h : l.Balance (some q)) (d : Delivery) : (l.addJob q d).Balance none := by
  refine h.hold rfl fun j => ?_
  simp only [held, Listener.addJob, List.countP_append, List.countP_singleton, decide_eq_true_eq,
    eq_comm (a := q)]
  omega

/-! ## Hands -/

/-- A change of a poller that keeps its hand as full as it was keeps the balance. -/
private theorem Balance.updatePoller (h : l.Balance loose) {p : PollerId} {f : Poller → Poller}
    (hf : ∀ x ∈ l.pollers, x.id = p → ∀ j, (f x).holds j = x.holds j) :
    (l.updatePoller p f).Balance loose :=
  h.congr rfl <| held_of_pollers rfl fun j =>
    List.countP_change_eq fun x hx hid => hf x hx hid j

/-- The poller with an identity is the only one with it. -/
private theorem eq_of_poller? (hn : (l.pollers.map (·.id)).Nodup) {p : PollerId} {x y : Poller}
    (hx : l.poller? p = some x) (hy : y ∈ l.pollers) (hid : y.id = p) : y = x :=
  List.eq_of_key_eq Poller.id hn hy (poller?_eq_some hx).1 (hid.trans (poller?_eq_some hx).2.symm)

/-- An empty hand holds nothing. -/
private theorem holds_of_hand_eq_nil {x : Poller} (h : x.phase.hand = []) (j : String) :
    x.holds j = false := by
  simp [Poller.holds, h]

/-- A poller with an empty hand takes a phase without a message. -/
theorem Balance.setPhase (h : l.Balance loose) (hn : (l.pollers.map (·.id)).Nodup)
    {p : PollerId} {x : Poller} (hx : l.poller? p = some x) (hh : x.phase.hand = []) {ph : Phase}
    (hph : ph.hand = []) : (l.setPhase p ph).Balance loose := by
  refine h.updatePoller fun y hy hid j => ?_
  obtain rfl := eq_of_poller? hn hx hy hid
  rw [holds_of_hand_eq_nil hh, holds_of_hand_eq_nil (by exact hph)]

/-- Parking keeps the balance, with an empty hand before and after. -/
private theorem Balance.park (h : l.Balance loose) (hn : (l.pollers.map (·.id)).Nodup)
    {p : PollerId}
    (hw : l.AtWork p) {ph : Phase} (hph : ph.listens) : (l.park p ph).Balance loose := by
  obtain ⟨x, hx, hready⟩ := hw
  refine h.updatePoller fun y hy hid j => ?_
  obtain rfl := eq_of_poller? hn hx hy hid
  have hbefore : y.holds j = false := holds_of_hand_eq_nil (by rw [hready]; rfl) j
  rw [hbefore]
  -- Neither the phase in which it waits nor being at work again comes with a message.
  apply holds_of_hand_eq_nil
  split
  · rfl
  · exact Phase.hand_of_listens hph

/-- The loose slot goes to a poller that begins to wait for a worker. -/
theorem Balance.submitting {p : PollerId} (h : l.Balance (some p.queue))
    (hn : (l.pollers.map (·.id)).Nodup) (hw : l.AtWork p) (d : Delivery) (ds : List Delivery) :
    (l.setPhase p (.submitting d ds)).Balance none := by
  obtain ⟨x, hx, hready⟩ := hw
  obtain ⟨hmem, rfl⟩ := poller?_eq_some hx
  refine h.hold rfl fun j => ?_
  -- Of all pollers this one alone counts differently.
  have hcount := List.countP_change hn hmem
    (fun y => { y with phase := .submitting d ds }) (Poller.holds j)
  have hbefore : x.holds j = false := holds_of_hand_eq_nil (by rw [hready]; rfl) j
  have hafter : ({ x with phase := .submitting d ds } : Poller).holds j =
      decide (j = x.id.queue) := by
    simp [Poller.holds, Phase.hand, eq_comm (a := j)]
  rw [hbefore, hafter] at hcount
  simp only [Bool.false_eq_true, if_false, decide_eq_true_eq] at hcount
  simp only [held, Listener.setPhase, Listener.updatePoller]
  omega

/-- The slot of a poller that waited for a worker gets loose when it is at work again. -/
theorem Balance.wentOn (h : l.Balance none) (hn : (l.pollers.map (·.id)).Nodup) {p : PollerId}
    {x : Poller} (hx : l.poller? p = some x) {d : Delivery} {ds : List Delivery}
    (hh : x.phase = .submitting d ds) : (l.setPhase p .ready).Balance (some p.queue) := by
  obtain ⟨hmem, rfl⟩ := poller?_eq_some hx
  refine h.loosen rfl fun j => ?_
  -- It held the slot of its first message, and holds none when it is at work.
  have hcount := List.countP_change hn hmem (fun y => { y with phase := .ready })
    (Poller.holds j)
  have hbefore : x.holds j = decide (j = x.id.queue) := by
    simp [Poller.holds, Phase.hand, hh, eq_comm (a := j)]
  have hafter : ({ x with phase := .ready } : Poller).holds j = false :=
    holds_of_hand_eq_nil rfl j
  rw [hbefore, hafter] at hcount
  simp only [Bool.false_eq_true, if_false, decide_eq_true_eq] at hcount
  simp only [held, Listener.setPhase, Listener.updatePoller]
  omega

/-- A poller with an empty hand may go. -/
private theorem Balance.removePoller (h : l.Balance loose) (hn : (l.pollers.map (·.id)).Nodup)
    {p : PollerId} (hh : ∀ x, l.poller? p = some x → x.phase.hand = []) :
    ({ l with pollers := l.pollers.filter (·.id ≠ p) } : Listener).Balance loose := by
  refine h.congr rfl <| held_of_pollers rfl fun j => ?_
  cases hx : l.poller? p with
  | none =>
    -- There is no such poller, so none goes.
    have hall : l.pollers.filter (·.id ≠ p) = l.pollers := by
      refine List.filter_eq_self.mpr fun y hy => ?_
      simpa using List.find?_eq_none.mp hx y hy
    exact congrArg _ hall
  | some x =>
    obtain ⟨hmem, rfl⟩ := poller?_eq_some hx
    have hcount := List.countP_remove hn hmem (Poller.holds j)
    rw [holds_of_hand_eq_nil (hh x hx)] at hcount
    simpa using hcount

/-- Forgetting a broken poller keeps the balance, since it holds nothing. -/
private theorem Balance.forgetBroken (h : l.Balance loose) (hn : (l.pollers.map (·.id)).Nodup)
    (p : PollerId) : (l.forgetBroken p).Balance loose := by
  unfold Listener.forgetBroken
  split
  · exact h
  next hdead =>
    refine h.removePoller hn fun x hx => ?_
    -- A poller that is not alive has broken off, with nothing in hand.
    unfold isAlive at hdead
    rw [hx] at hdead
    cases hphase : x.phase with
    | broken => rfl
    | _ => simp [hphase] at hdead

/-- Signalling keeps the balance. -/
private theorem Balance.signal (h : l.Balance loose) (p : PollerId) :
    (l.signal p).Balance loose := by
  refine h.updatePoller fun x _ _ j => ?_
  cases hphase : x.phase <;> simp [Phase.listens, Poller.holds, Phase.hand, hphase]

/-! ## Moves and steps keep the balance -/

/-- An offer leaves the slot loose only if the message waits. -/
theorem Offered.balance {p : PollerId} {d : Delivery} {o : Option Fate}
    (ho : Offered l p d o l') (h : l.Balance none) (hn : l.names.Nodup) :
    l'.Balance (if o = none then some p.queue else none) := by
  -- By the way of the offer: no slot taken, or taken and given to a job, back, or held in hand.
  cases ho with
  | noSlot => exact h.congr rfl fun _ => rfl
  | outdated hm => exact (h.take hm hn).release
  | taken hm =>
    refine Balance.addJob ?_ d
    exact (h.take hm hn).congr rfl fun _ => rfl
  | @refused m hm =>
    have hloose : ({ m with workers := l.workers.submit p } : Listener).Balance (some p.queue) :=
      (h.take hm hn).congr rfl fun _ => rfl
    exact hloose.release.congr rfl fun _ => rfl
  | queued hm => exact (h.take hm hn).congr rfl fun _ => rfl

/-- Handing on again finds a use for the loose slot. -/
theorem Balance.offerAgain {p : PollerId} (h : l.Balance (some p.queue)) (d : Delivery) :
    (l.offerAgain p d).2.Balance none := by
  have hloose : ({ l with workers := l.workers.resume p } : Listener).Balance (some p.queue) :=
    h.congr rfl fun _ => rfl
  unfold Listener.offerAgain
  dsimp only
  -- The message that waited for a worker holds a slot that no job holds yet.
  split
  · exact hloose.addJob d
  · exact hloose.release.congr rfl fun _ => rfl

/-- Every move keeps the balance. -/
theorem Balance.move (hm : Move G a l l') (hs : l.Sound) (h : l.Balance none) :
    l'.Balance none := by
  cases hm with
  | noted | returned | calling | called | draining | closed | finished | stopped | cleared =>
    exact h.congr rfl fun _ => rfl
  | opened =>
    refine h.congr rfl <| held_of_pollers rfl fun j => ?_
    rw [List.countP_append, List.countP_singleton, holds_of_hand_eq_nil rfl]
    rfl
  | woke hx hh => exact h.setPhase hs.ids_nodup hx hh rfl
  | @wentPast _ p d _ _ _ hf =>
    have hoffered := (offered l p d).balance h hs.names_nodup
    rwa [hf] at hoffered
  | @queued _ p d ds hw _ hf =>
    -- The slot was taken for a message that no worker takes yet: its poller holds it.
    have hloose := (offered l p d).balance h hs.names_nodup
    rw [hf] at hloose
    exact Balance.submitting hloose ((offered l p d).sound hs).ids_nodup
      ((offered l p d).atWork hw) d ds
  | wentOn hx hh => exact (h.wentOn hs.ids_nodup hx hh).offerAgain _
  | retired hw =>
    -- A poller at work has nothing in hand.
    obtain ⟨x, hx, hready⟩ := hw
    have hgone := h.removePoller hs.ids_nodup fun y hy => by
      obtain rfl := Option.some.inj (hx.symm.trans hy)
      rw [hready]
      rfl
    exact hgone.congr rfl fun _ => rfl
  | parked hw hp => exact h.park hs.ids_nodup hw hp
  | @asked _ p s now hw =>
    obtain ⟨x, hx, hready⟩ := hw
    have hphase : (l.setPhase p (.receiving now)).Balance none :=
      h.setPhase hs.ids_nodup hx (by rw [hready]; rfl) rfl
    exact hphase.congr rfl fun _ => rfl
  | broke hw =>
    obtain ⟨x, hx, hready⟩ := hw
    exact h.setPhase hs.ids_nodup hx (by rw [hready]; rfl) rfl
  | stopping => exact Balance.signal (h.congr rfl fun _ => rfl) _
  | told => exact h.signal _
  | forgot => exact h.forgetBroken hs.ids_nodup _

/-- Setting a job's phase changes nobody's hold. -/
private theorem held_setJobPhase (l : Listener) (n : Nat) (ph : JobPhase) (q : String) :
    (l.setJobPhase n ph).held q = l.held q := by
  have hcount : (l.setJobPhase n ph).jobs.countP (·.queue = q) = l.jobs.countP (·.queue = q) :=
    List.countP_change_eq fun _ _ _ => rfl
  rw [held, hcount]
  rfl

/-- A job that is settled gives its slot back. -/
private theorem Balance.settle (h : l.Balance none) (hn : (l.jobs.map (·.number)).Nodup) {j : Job}
    (hj : j ∈ l.jobs) : (l.settle j).Balance none := by
  have hloose : ({ l with jobs := l.jobs.filter (·.number ≠ j.number) } : Listener).Balance
      (some j.queue) := by
    refine h.loosen rfl fun q => ?_
    -- The job that goes held one slot of its queue.
    have hcount := List.countP_remove hn hj (fun i => decide (i.queue = q))
    simp only [decide_eq_true_eq] at hcount
    simp only [held]
    rw [← hcount]
    simp only [eq_comm (a := q)]
    omega
  exact hloose.release.congr rfl fun _ => rfl

/-- Beginning a job keeps the balance. -/
private theorem Balance.beginJob (h : l.Balance none) (j : Job) : (l.beginJob j).Balance none := by
  unfold Listener.beginJob
  split
  · exact h
  · exact h.congr rfl (held_setJobPhase l j.number .handling)

/-- So does its end. -/
private theorem Balance.endJob (h : l.Balance none) (hn : (l.jobs.map (·.number)).Nodup) {j : Job}
    (hj : j ∈ l.jobs) (r : HandlerResult) : (l.endJob j r).Balance none := by
  unfold Listener.endJob
  split
  · exact h
  next s _ =>
    dsimp only
    -- The notice about a failure changes nothing.
    have hreport : ∀ m : Listener, m.stations = l.stations → m.jobs = l.jobs →
        m.pollers = l.pollers → (if s.source.options.policy.deletes r.outcome s.source.redrive
          then (m.setJobPhase j.number .deleting).emit
            (.delete j.number s.source.destination j.delivery.receipt)
          else m.settle j).Balance none := by
      intro m hstations hjobs hpollers
      have hm : m.Balance none := h.congr hstations fun q => by rw [held, held, hjobs, hpollers]
      split
      · exact hm.congr rfl (held_setJobPhase m j.number .deleting)
      · exact hm.settle (hjobs ▸ hn) (hjobs ▸ hj)
    cases r.failure? <;> exact hreport _ rfl rfl rfl

/-- So does the end of its deletion. -/
private theorem Balance.finishDelete (h : l.Balance none) (hn : (l.jobs.map (·.number)).Nodup)
    {j : Job}
    (hj : j ∈ l.jobs) (r : Except BrokerError Unit) : (l.finishDelete j r).Balance none := by
  unfold Listener.finishDelete
  cases r with
  | ok => exact h.settle hn hj
  | error cause =>
    exact Balance.settle (l := l.report _) (h.congr rfl fun _ => rfl) hn hj

/-- So does every step. -/
theorem Balance.react (hs : l.Sound) (h : l.Balance none) (now : Nat) (s : Stimulus) :
    (l.react now s).1.Balance none := by
  -- The outbox counts for nothing here.
  have hl : ({ l with outbox := [] } : Listener).Balance none := h.congr rfl fun _ => rfl
  have hsl : ({ l with outbox := [] } : Listener).Sound := hs.congr rfl rfl rfl rfl rfl
  have hafter := after_keeps (P := fun m => m.Sound ∧ m.Balance none) now s ⟨hsl, hl⟩
    (fun hm h => ⟨h.1.move hm, Balance.move hm h.1 h.2⟩)
    (fun j _ _ => ⟨hsl.beginJob j, hl.beginJob j⟩)
    (fun j hj _ r => ⟨hsl.endJob j r, hl.endJob hsl.numbers_nodup hj r⟩)
    (fun j hj _ r => ⟨hsl.finishDelete j r, hl.finishDelete hsl.numbers_nodup hj r⟩)
  exact hafter.2.congr rfl fun _ => rfl

/-- In every state of a run every slot is free or held. -/
theorem balance_run (hs : l.Sound) (h : l.Balance none) (xs : List (Nat × Stimulus)) :
    (l.run xs).Balance none :=
  (run_keeps (P := fun _ m => m.Sound ∧ m.Balance none) ⟨hs, h⟩
    (fun _ _ now s hm => ⟨hm.1.react now s, Balance.react hm.1 hm.2 now s⟩) xs).2

/-- At the beginning all slots are free. -/
theorem balance_build {σ : Type} (k : Lookup σ) (settings : ListenerSettings) (polling : Polling)
    (handler : String) (rs : List Registration) (s : σ) :
    (build k settings polling handler rs s).1.Balance none := by
  intro st hst
  obtain ⟨r, -, source, -, -, -, rfl⟩ := madeFrom_of_build k settings polling handler rs s hst
  refine ⟨rfl, rfl, ?_⟩
  simp [build_eq_idle, held, idle, stationOf, Slots.ofCapacity]

/-! ## Conservation -/

/-- In every state of every run the free slots of a registered queue and the held ones make
    up its batch size, whichever pollers and jobs hold them.  So no slot ever came back
    that was not missing, and no more handlers of the queue are at work than a batch has
    messages. -/
theorem slots_conserved {σ : Type} (k : Lookup σ) (settings : ListenerSettings)
    (polling : Polling) (handler : String) (rs : List Registration) (s : σ)
    (xs : List (Nat × Stimulus)) {q : String} {st : Station}
    (hst : (build k settings polling handler rs s).1.station? q = some st) :
    let l := (build k settings polling handler rs s).1.run xs
    ∃ slots, l.station? q = some { st with slots } ∧
      slots.free + l.held q = st.source.options.batch ∧
      slots.ignored = 0 ∧
      (l.jobs.countP fun j => j.queue = q ∧ j.phase = .handling) ≤ st.source.options.batch := by
  intro l
  have hbalance : l.Balance none :=
    balance_run (sound_build k settings polling handler rs s)
      (balance_build k settings polling handler rs s) xs
  obtain ⟨slots, hslots⟩ := station?_of_posts (posts_run _ xs) hst
  have hsum : slots.free + l.held q = st.source.options.batch := by
    simpa using hbalance.sum hslots
  refine ⟨slots, hslots, hsum, (hbalance _ (station?_eq_some hslots).1).2.1, ?_⟩
  -- A handler at work is the handler of a job, and a job holds a slot.
  have hhandlers : (l.jobs.countP fun j => j.queue = q ∧ j.phase = .handling) ≤
      l.jobs.countP (·.queue = q) :=
    List.countP_mono_left fun j _ hj => by
      simp only [decide_eq_true_eq] at hj ⊢
      exact hj.1
  have hjobs : l.jobs.countP (·.queue = q) ≤ l.held q := Nat.le_add_right ..
  omega

/-- Two messages are taken, and the handler of one of them has broken off. -/
theorem slots_conserved_broken :
    let b := (build Lookup.verbatim .standard .bySlots "h" [⟨"q", .standard, none⟩] ()).1
    let d : Delivery := ⟨none, "r", "x", .empty, .empty⟩
    let l := b.run [(0, .start 0 "q"), (0, .goOn ⟨"q", 1⟩), (1, .answer ⟨"q", 1⟩ (.batch [d, d])),
      (1, .beginJob 0), (1, .beginJob 1), (2, .endJob 0 (.broken none))]
    ∃ slots, l.station? "q" = some { stationOf ⟨"q", "q", .standard, false⟩ "h" with slots } ∧
      slots.free + l.held "q" = 10 ∧ slots.ignored = 0 ∧
      (l.jobs.countP fun j => j.queue = "q" ∧ j.phase = .handling) ≤ 10 :=
  slots_conserved Lookup.verbatim .standard .bySlots "h" [⟨"q", .standard, none⟩] () _ rfl

end Listener

end Intake
