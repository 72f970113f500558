import Intake.Listener.React
import Intake.Proofs.Keyed

/-!
# What the operations of a listener leave alone

Each operation of a listener changes a few of its parts.  The lemmas here say which,
so that a proof about one part need not look into an operation on another.

- `releaseSlot_pollers`: a slot that comes back wakes pollers and does nothing else to them
- `takeSlot?_eq_some_iff`: a slot can be taken exactly if one is free
- `same_takeSlot?`: taking it changes nothing but the stations
- `Offered`: what offering a message to the workers can lead to
-/

namespace Intake

/-- The messages that a poller has in hand while it waits for a worker; the first of them
    has a slot. -/
def Phase.hand : Phase → List Delivery
  | .submitting d ds => d :: ds
  | _ => []

/-- Who waits in a way that a stop cuts short has no message in hand. -/
theorem Phase.hand_of_listens {ph : Phase} (h : ph.listens) : ph.hand = [] := by
  cases ph with
  | awaitingSlot | resting => rfl
  | _ => cases h

/-- Waking a poller leaves its name. -/
@[simp] theorem Poller.awake_id (q : String) (x : Poller) : (x.awake q).id = x.id := by
  unfold awake
  split
  · split <;> rfl
  · rfl

/-- And what it has in hand. -/
@[simp] theorem Poller.awake_hand (q : String) (x : Poller) :
    (x.awake q).phase.hand = x.phase.hand := by
  unfold awake
  split
  next t ht =>
    -- Only a poller that waits for slots is woken, and it has nothing in hand.
    split
    · simp [ht, Phase.hand]
    · rfl
  next => rfl

/-- A poller at work is not woken. -/
private theorem Poller.awake_of_ready {x : Poller} (h : x.phase = .ready) (q : String) :
    x.awake q = x := by
  simp [awake, h]

namespace Listener

variable {l : Listener} {q : String} {p : PollerId}

/-! ## Stations -/

/-- The names of the registered queues. -/
def names (l : Listener) : List String := l.stations.map (·.source.name)

/-- The registered queues with the handlers to which they are bound. -/
def posts (l : Listener) : List (Source × String) :=
  l.stations.map fun s => (s.source, s.handler)

/-- A station that is found belongs to the queue. -/
theorem station?_eq_some {s : Station} (h : l.station? q = some s) :
    s ∈ l.stations ∧ s.source.name = q :=
  List.mem_of_find?_key h

/-- There is a station for each name. -/
theorem isSome_station? : (l.station? q).isSome ↔ q ∈ l.names := by
  simp [station?, names, List.find?_isSome]

/-- A station is found by its name. -/
theorem station?_of_mem (hn : l.names.Nodup) {s : Station} (hs : s ∈ l.stations) :
    l.station? s.source.name = some s :=
  List.find?_key (fun s : Station => s.source.name) hn hs

/-- Changing the slots of a queue changes its own station. -/
theorem station?_updateSlots (l : Listener) (j q : String) (f : Slots → Slots) :
    (l.updateSlots j f).station? q =
      (l.station? q).map fun s => if j = q then { s with slots := f s.slots } else s :=
  List.find?_change (f := fun s => { s with slots := f s.slots })
    (fun s : Station => s.source.name) (fun _ => rfl) l.stations q

/-- It changes no name. -/
@[simp] theorem names_updateSlots (l : Listener) (q : String) (f : Slots → Slots) :
    (l.updateSlots q f).names = l.names := by
  simp only [names, updateSlots, List.map_map]
  refine List.map_congr_left fun s _ => ?_
  simp only [Function.comp_apply]
  split <;> rfl

/-- And no post. -/
@[simp] theorem posts_updateSlots (l : Listener) (q : String) (f : Slots → Slots) :
    (l.updateSlots q f).posts = l.posts := by
  simp only [posts, updateSlots, List.map_map]
  refine List.map_congr_left fun s _ => ?_
  simp only [Function.comp_apply]
  split <;> rfl

/-- The posts determine which queue has which source and handler. -/
theorem station?_of_posts {l' : Listener} (h : l'.posts = l.posts) {s : Station}
    (hs : l.station? q = some s) : ∃ slots, l'.station? q = some { s with slots } := by
  -- Looking for a station is looking for a post.
  have hfind : ∀ m : Listener, (m.station? q).map (fun s => (s.source, s.handler)) =
      m.posts.find? fun e => e.1.name = q := by
    intro m
    simp only [posts, station?, List.find?_map]
    rfl
  have hl' := hfind l'
  rw [h, ← hfind l, hs] at hl'
  obtain ⟨s', hs', he⟩ := Option.map_eq_some_iff.mp hl'
  obtain ⟨source, handler, slots⟩ := s'
  obtain ⟨rfl, rfl⟩ := Prod.mk.inj he
  exact ⟨slots, hs'⟩

/-- Posts determine the names. -/
theorem names_of_posts {l' : Listener} (h : l'.posts = l.posts) : l'.names = l.names := by
  have hnames := congrArg (List.map (·.1.name)) h
  rw [posts, posts, List.map_map, List.map_map] at hnames
  exact hnames

/-! ## A slot that comes back -/

/-- Giving a slot back wakes pollers of the queue, or nobody. -/
theorem releaseSlot_pollers (l : Listener) (q : String) :
    (l.releaseSlot q).pollers = l.pollers ∨
      (l.releaseSlot q).pollers = l.pollers.map (·.awake q) := by
  unfold releaseSlot
  dsimp only
  -- The pollers of the queue are woken if enough slots are free after the release.
  split
  · split
    · exact .inr rfl
    · exact .inl rfl
  · exact .inl rfl

/-- Apart from the pollers that it wakes, a slot that comes back changes slots only. -/
theorem releaseSlot_eq (l : Listener) (q : String) :
    l.releaseSlot q =
      { l.updateSlots q (·.release 1) with pollers := (l.releaseSlot q).pollers } := by
  unfold releaseSlot
  dsimp only
  split
  · split <;> rfl
  · rfl

/-- Of the stations only the slots of the queue change. -/
@[simp] theorem releaseSlot_stations (l : Listener) (q : String) :
    (l.releaseSlot q).stations = (l.updateSlots q (·.release 1)).stations := by
  rw [releaseSlot_eq]

/-- The lifecycle stays. -/
@[simp] theorem releaseSlot_lifecycle (l : Listener) (q : String) :
    (l.releaseSlot q).lifecycle = l.lifecycle := by
  rw [releaseSlot_eq]; rfl

/-- The workers stay. -/
@[simp] theorem releaseSlot_workers (l : Listener) (q : String) :
    (l.releaseSlot q).workers = l.workers := by
  rw [releaseSlot_eq]; rfl

/-- The jobs stay. -/
@[simp] theorem releaseSlot_jobs (l : Listener) (q : String) :
    (l.releaseSlot q).jobs = l.jobs := by
  rw [releaseSlot_eq]; rfl

/-- The count of jobs stays. -/
@[simp] theorem releaseSlot_accepted (l : Listener) (q : String) :
    (l.releaseSlot q).accepted = l.accepted := by
  rw [releaseSlot_eq]; rfl

/-- The outbox stays. -/
@[simp] theorem releaseSlot_outbox (l : Listener) (q : String) :
    (l.releaseSlot q).outbox = l.outbox := by
  rw [releaseSlot_eq]; rfl

/-- The names stay. -/
@[simp] theorem releaseSlot_names (l : Listener) (q : String) :
    (l.releaseSlot q).names = l.names := by
  rw [names, releaseSlot_stations, ← names, names_updateSlots]

/-- The posts stay. -/
@[simp] theorem releaseSlot_posts (l : Listener) (q : String) :
    (l.releaseSlot q).posts = l.posts := by
  rw [posts, releaseSlot_stations, ← posts, posts_updateSlots]

/-- The pollers stay, whatever they do. -/
@[simp] theorem releaseSlot_ids (l : Listener) (q : String) :
    (l.releaseSlot q).pollers.map (·.id) = l.pollers.map (·.id) := by
  rcases releaseSlot_pollers l q with h | h <;> rw [h]
  rw [List.map_map]
  exact List.map_congr_left fun x _ => x.awake_id q

/-- A slot that comes back takes no message out of a hand. -/
theorem countP_releaseSlot {P : Poller → Bool} (hP : ∀ x, P (x.awake q) = P x) :
    (l.releaseSlot q).pollers.countP P = l.pollers.countP P := by
  rcases releaseSlot_pollers l q with h | h <;> rw [h]
  rw [List.countP_map]
  exact List.countP_congr fun x _ => by rw [Function.comp_apply, hP]

/-! ## Pollers -/

/-- A poller that is at work: it goes on by itself. -/
def AtWork (l : Listener) (p : PollerId) : Prop := ∃ x, l.poller? p = some x ∧ x.phase = .ready

/-- A poller that is found has the name. -/
theorem poller?_eq_some {x : Poller} (h : l.poller? p = some x) : x ∈ l.pollers ∧ x.id = p :=
  List.mem_of_find?_key h

/-- A poller is alive if it is there and has not broken off. -/
theorem isAlive_iff :
    l.isAlive p ↔ ∃ x, l.poller? p = some x ∧ ∀ text, x.phase ≠ .broken text := by
  unfold isAlive
  cases l.poller? p with
  | none => simp
  | some x => cases hphase : x.phase <;> simp [hphase]

/-- Changing pollers one by one, without their identities, changes what is found. -/
theorem poller?_map {f : Poller → Poller} (hf : ∀ x, (f x).id = x.id) (l : Listener) :
    ({ l with pollers := l.pollers.map f } : Listener).poller? p = (l.poller? p).map f := by
  simp only [poller?, List.find?_map]
  congr 2
  funext x
  simp only [Function.comp_apply, hf]

/-- Changing a poller changes this one only. -/
theorem poller?_updatePoller {f : Poller → Poller} (hf : ∀ x, (f x).id = x.id) (l : Listener)
    (p r : PollerId) :
    (l.updatePoller p f).poller? r = (l.poller? r).map fun x => if p = r then f x else x :=
  List.find?_change Poller.id hf l.pollers r

/-- So does setting its phase. -/
theorem poller?_setPhase (l : Listener) (p r : PollerId) (ph : Phase) :
    (l.setPhase p ph).poller? r =
      (l.poller? r).map fun x => if p = r then { x with phase := ph } else x :=
  poller?_updatePoller (f := fun x => { x with phase := ph }) (fun _ => rfl) l p r

/-- A poller made ready is at work. -/
theorem AtWork.setPhase_ready {x : Poller} (hx : l.poller? p = some x) :
    (l.setPhase p .ready).AtWork p := by
  refine ⟨{ x with phase := .ready }, ?_, rfl⟩
  rw [poller?_setPhase, hx, Option.map_some, if_pos rfl]

/-- A slot that comes back leaves a poller at work as it is. -/
theorem poller?_releaseSlot_of_ready {x : Poller} (hx : l.poller? p = some x)
    (hp : x.phase = .ready) (q : String) : (l.releaseSlot q).poller? p = some x := by
  have hpoller : (l.releaseSlot q).poller? p =
      ({ l with pollers := (l.releaseSlot q).pollers } : Listener).poller? p := rfl
  rw [hpoller]
  -- Whether or not pollers are woken, one that is at work stays as it is.
  rcases releaseSlot_pollers l q with he | he <;> rw [he]
  · exact hx
  · rw [poller?_map (fun y => y.awake_id q) l, hx, Option.map_some, Poller.awake_of_ready hp]

/-- Giving a slot back does not keep a poller from work. -/
theorem AtWork.releaseSlot (h : l.AtWork p) (q : String) : (l.releaseSlot q).AtWork p := by
  obtain ⟨x, hx, hp⟩ := h
  exact ⟨x, poller?_releaseSlot_of_ready hx hp q, hp⟩

/-- Changing a poller leaves the names of all. -/
@[simp] theorem ids_updatePoller {f : Poller → Poller} (hf : ∀ x, (f x).id = x.id)
    (l : Listener) (p : PollerId) :
    (l.updatePoller p f).pollers.map (·.id) = l.pollers.map (·.id) :=
  List.map_key_change hf

/-! ## Offering a message -/

/-- A slot can be taken while one is free. -/
theorem takeSlot?_eq_some_iff {l' : Listener} : l.takeSlot? q = some l' ↔
    ∃ s, l.station? q = some s ∧ 0 < s.slots.free ∧ l.updateSlots q (·.acquire 1) = l' := by
  unfold takeSlot?
  cases l.station? q with
  | none => simp
  | some s => by_cases hs : 0 < s.slots.free <;> simp [hs]

/-- Taking a slot changes the stations, and nothing else of the listener. -/
theorem same_takeSlot? {α : Type} {f : Listener → α} {m : Listener}
    (hf : ∀ stations, f { l with stations } = f l) (hm : l.takeSlot? q = some m) : f m = f l := by
  obtain ⟨_, -, -, rfl⟩ := takeSlot?_eq_some_iff.mp hm
  exact hf _

/-- None can be taken while none is free. -/
theorem takeSlot?_eq_none_iff : l.takeSlot? q = none ↔
    ∀ s, l.station? q = some s → s.slots.free = 0 := by
  unfold takeSlot?
  cases l.station? q with
  | none => simp
  | some s => by_cases hs : 0 < s.slots.free <;> simp [hs] <;> omega

/-- Taking a slot does not keep a poller from work. -/
theorem AtWork.takeSlot? {m : Listener} (h : l.AtWork p) (hm : l.takeSlot? q = some m) :
    m.AtWork p := by
  obtain ⟨_, -, -, rfl⟩ := takeSlot?_eq_some_iff.mp hm
  exact h

/-- What offering a message to the workers can lead to. -/
inductive Offered (l : Listener) (p : PollerId) (d : Delivery) : Option Fate → Listener → Prop
  | noSlot (hm : l.takeSlot? p.queue = none) :
    Offered l p d (some .noSlot) (l.report (.surplus p.queue d.id))
  | outdated {m : Listener} (hm : l.takeSlot? p.queue = some m) (hc : l.isCurrent p = false) :
    Offered l p d (some .outdated) (m.releaseSlot p.queue)
  | taken {m : Listener} (hm : l.takeSlot? p.queue = some m) (hc : l.isCurrent p)
    (ha : l.workers.admission = .accepted) :
    Offered l p d (some (.taken l.accepted))
      ({ m with workers := l.workers.submit p }.addJob p.queue d)
  | refused {m : Listener} (hm : l.takeSlot? p.queue = some m) (hc : l.isCurrent p)
    (ha : l.workers.admission = .refused) :
    Offered l p d (some .refused) ({ m with workers := l.workers.submit p }.turnAway p.queue)
  | queued {m : Listener} (hm : l.takeSlot? p.queue = some m) (hc : l.isCurrent p)
    (ha : l.workers.admission = .queued) :
    Offered l p d none { m with workers := l.workers.submit p }

/-- An offer is one of the ways to offer. -/
theorem offered (l : Listener) (p : PollerId) (d : Delivery) :
    Offered l p d (l.offer p d).1 (l.offer p d).2 := by
  unfold offer
  cases hm : l.takeSlot? p.queue with
  | none => exact .noSlot hm
  | some m =>
    -- Taking a slot changes neither the lifecycle nor the workers.
    obtain ⟨s, -, -, rfl⟩ := takeSlot?_eq_some_iff.mp hm
    dsimp only
    cases hc : l.isCurrent p with
    | false =>
      have hc' : (l.updateSlots p.queue (·.acquire 1)).isCurrent p = false := hc
      rw [hc']
      exact .outdated hm hc
    | true =>
      have hc' : (l.updateSlots p.queue (·.acquire 1)).isCurrent p = true := hc
      rw [hc']
      -- The workers decide about the message.
      cases ha : l.workers.admission with
      | accepted =>
        have ha' : (l.updateSlots p.queue (·.acquire 1)).workers.admission = .accepted := ha
        rw [ha']
        exact .taken hm hc ha
      | refused =>
        have ha' : (l.updateSlots p.queue (·.acquire 1)).workers.admission = .refused := ha
        rw [ha']
        exact .refused hm hc ha
      | queued =>
        have ha' : (l.updateSlots p.queue (·.acquire 1)).workers.admission = .queued := ha
        rw [ha']
        exact .queued hm hc ha

/-- A poller whose epoch is over leaves the messages that it goes past. -/
theorem Offered.fate_of_outdated {l' : Listener} {d : Delivery} {f : Fate}
    (h : Offered l p d (some f) l') (hc : l.isCurrent p = false) :
    f = .noSlot ∨ f = .outdated := by
  -- The two other fates need that the epoch is current.
  cases h with
  | noSlot => exact .inl rfl
  | outdated => exact .inr rfl
  | taken _ hcurrent | refused _ hcurrent =>
    rw [hc] at hcurrent
    cases hcurrent

section Batch

variable {d : Delivery} {ds : List Delivery}

/-- A message with a fate is passed, and the next ones follow. -/
theorem handOn_cons_of_some {f : Fate} (hf : (l.offer p d).1 = some f) :
    l.handOn p (d :: ds) =
      (f :: ((l.offer p d).2.handOn p ds).1, ((l.offer p d).2.handOn p ds).2) := by
  rw [handOn]
  cases ho : l.offer p d with
  | mk o l' =>
    rw [ho] at hf
    cases hf
    rfl

/-- One without a fate waits, with the rest in hand. -/
theorem handOn_cons_of_none (hf : (l.offer p d).1 = none) :
    l.handOn p (d :: ds) = ([], d :: ds, (l.offer p d).2) := by
  rw [handOn]
  cases ho : l.offer p d with
  | mk o l' =>
    rw [ho] at hf
    cases hf
    rfl

end Batch

end Listener

end Intake
