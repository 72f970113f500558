import Intake.Proofs.Listener.Sound

/-!
# Messages that a poller goes past

A `Passing` is one message with what became of it when its poller went past it.  The
passings of a step are computed by going through the batch once more (`passings`,
`passedBy`), with the states in between.

- `map_delivery_passings`: a poller goes past the messages of a batch in their order
- `hand_dispatch`: what a poller is given it goes past or has in hand
- `grown_dispatch`: the messages that were taken are new jobs under the next numbers
-/

namespace Intake

/-- A message that a poller has gone past, with the states before and after. -/
structure Passing where
  poller : PollerId
  delivery : Delivery
  fate : Listener.Fate
  /-- Whether the poller had waited for a worker, with a slot for the message. -/
  waited : Bool
  before : Listener
  after : Listener

/-- The job that a message has become, if the workers took it. -/
def Passing.job? (x : Passing) : Option Job :=
  match x.fate with
  | .taken n => some ⟨n, x.poller.queue, x.delivery, .accepted⟩
  | _ => none

/-- A job begins where its message is taken. -/
theorem Passing.job?_eq_some_iff {x : Passing} {j : Job} :
    x.job? = some j ↔ x.fate = .taken j.number ∧ x.poller.queue = j.queue ∧
      x.delivery = j.delivery ∧ j.phase = .accepted := by
  obtain ⟨number, queue, delivery, phase⟩ := j
  unfold job?
  split
  -- Only a message that was taken stands for a job, and its number is that of the job.
  next m hm => simp [hm, eq_comm]
  next hm =>
    refine ⟨fun h => (by cases h), fun h => ?_⟩
    exact absurd h.1 (hm number)

/-- The job for which an effect is wanted. -/
def Effect.job? : Effect → Option Nat
  | .invoke n _ _ | .delete n _ _ => some n
  | _ => none

namespace Listener

variable {l l' l'' : Listener} {p r : PollerId} {d : Delivery} {ds : List Delivery}

/-- A message that is left is no job. -/
theorem job?_of_left {z : Passing} (h : z.fate = .noSlot ∨ z.fate = .outdated) : z.job? = none := by
  rcases h with h | h <;> simp [Passing.job?, h]

/-- A message refused became no job. -/
theorem job?_of_refused {z : Passing} (h : z.fate = .refused) : z.job? = none := by
  rw [Passing.job?, h]

/-! ## Messages in hand -/

/-- The messages that a poller has in hand. -/
def hand (l : Listener) (p : PollerId) : List Delivery :=
  ((l.poller? p).map (·.phase.hand)).getD []

/-- The hand of a poller is that of its phase. -/
theorem hand_of_poller? {x : Poller} (hx : l.poller? p = some x) : l.hand p = x.phase.hand := by
  rw [hand, hx]
  rfl

/-- A poller at work has an empty hand. -/
private theorem AtWork.hand (hw : l.AtWork p) : l.hand p = [] := by
  obtain ⟨x, hx, hready⟩ := hw
  rw [hand_of_poller? hx, hready]
  rfl

/-- A change of a poller that leaves its hand as it was leaves all hands. -/
private theorem hand_updatePoller {f : Poller → Poller} (hf : ∀ x, (f x).id = x.id)
    (hh : ∀ x, l.poller? p = some x → (f x).phase.hand = x.phase.hand) (r : PollerId) :
    (l.updatePoller p f).hand r = l.hand r := by
  rw [hand, hand, poller?_updatePoller hf]
  -- The poller itself has in hand what it had; nothing is done to the others.
  cases hr : l.poller? r with
  | none => rfl
  | some x =>
    by_cases hp : p = r
    · subst hp
      simp [hh x hr]
    · simp [hp]

/-- Setting a phase sets the hand. -/
theorem hand_setPhase {ph : Phase} {x : Poller} (hx : l.poller? p = some x) (r : PollerId) :
    (l.setPhase p ph).hand r = if p = r then ph.hand else l.hand r := by
  rw [hand, poller?_setPhase]
  -- The poller has in hand what its new phase says; the others keep their phases.
  by_cases hp : p = r
  · subst hp
    simp [hx]
  · simp only [hp, if_false]
    cases hr : l.poller? r with
    | none => simp [hand, hr]
    | some y => simp [hand, hr]

/-- A poller without a message in hand may go. -/
private theorem hand_remove (hh : ∀ x, l.poller? p = some x → x.phase.hand = []) (r : PollerId) :
    ({ l with pollers := l.pollers.filter (·.id ≠ p) } : Listener).hand r = l.hand r := by
  have hfind : ({ l with pollers := l.pollers.filter (·.id ≠ p) } : Listener).poller? r =
      if p = r then none else l.poller? r := List.find?_remove l.pollers p r
  rw [hand, hfind]
  by_cases hp : p = r
  · -- The poller that is gone had nothing in hand.
    subst hp
    cases hx : l.poller? p with
    | none => simp [hand, hx]
    | some x => simp [hand, hx, hh x hx]
  · rw [if_neg hp, hand]

/-- Giving a slot back changes no hand. -/
theorem hand_releaseSlot (l : Listener) (q : String) (r : PollerId) :
    (l.releaseSlot q).hand r = l.hand r := by
  have hpoller : (l.releaseSlot q).poller? r =
      ({ l with pollers := (l.releaseSlot q).pollers } : Listener).poller? r := rfl
  rw [hand, hpoller]
  -- Pollers that are woken keep what they have in hand, which is nothing.
  rcases releaseSlot_pollers l q with h | h <;> rw [h]
  · rfl
  · rw [poller?_map (fun x => x.awake_id q) l, hand, Option.map_map]
    congr 2
    funext x
    exact x.awake_hand q

/-! ## Growth -/

/-- From one state to another some messages were gone past: those that were taken are new
    jobs under the next numbers, and nothing is wanted for a job. -/
structure Grown (l : Listener) (ps : List Passing) (l' : Listener) : Prop where
  jobs : l'.jobs = l.jobs ++ ps.filterMap (·.job?)
  accepted : l'.accepted = l.accepted + (ps.filterMap (·.job?)).length
  numbers : (ps.filterMap (·.job?)).map (·.number) =
    List.range' l.accepted (ps.filterMap (·.job?)).length
  outbox : ∃ es, l'.outbox = es ++ l.outbox ∧ ∀ e ∈ es, e.job? = none

/-- Growth adds up. -/
theorem Grown.trans {ps qs : List Passing} (h : Grown l ps l') (h' : Grown l' qs l'') :
    Grown l (ps ++ qs) l'' where
  jobs := by rw [h'.jobs, h.jobs, List.filterMap_append, List.append_assoc]
  accepted := by
    rw [h'.accepted, h.accepted, List.filterMap_append, List.length_append, Nat.add_assoc]
  numbers := by
    rw [List.filterMap_append, List.map_append, h.numbers, h'.numbers, h.accepted,
      List.length_append, List.range'_append_1]
  -- The effects of both, the later ones first.
  outbox := by
    obtain ⟨es, he, hes⟩ := h.outbox
    obtain ⟨es', he', hes'⟩ := h'.outbox
    refine ⟨es' ++ es, by rw [he', he, List.append_assoc], fun e h => ?_⟩
    rcases List.mem_append.mp h with h | h
    · exact hes' e h
    · exact hes e h

/-- No message is gone past, and something may be wanted that is for no job. -/
theorem Grown.still (hjobs : l'.jobs = l.jobs) (hacc : l'.accepted = l.accepted) (es : List Effect)
    (hout : l'.outbox = es ++ l.outbox) (hes : ∀ e ∈ es, e.job? = none) : Grown l [] l' :=
  ⟨by simp [hjobs], by simp [hacc], rfl, es, hout, hes⟩

/-- A message is left. -/
private theorem Grown.left {x : Passing} (hx : x.job? = none) (h : Grown l [] l') : Grown l
    [x] l' := by
  have hps : [x].filterMap (·.job?) = ([] : List Passing).filterMap (·.job?) := by simp [hx]
  exact ⟨hps ▸ h.jobs, hps ▸ h.accepted, hps ▸ h.numbers, h.outbox⟩

/-- A message becomes the next job. -/
private theorem Grown.taken {x : Passing} (hx : x.fate = .taken l.accepted)
    (hjobs : l'.jobs = l.jobs ++ [⟨l.accepted, x.poller.queue, x.delivery, .accepted⟩])
    (hacc : l'.accepted = l.accepted + 1) (hout : l'.outbox = l.outbox) : Grown l [x] l' := by
  have hps : [x].filterMap (·.job?) =
      [⟨l.accepted, x.poller.queue, x.delivery, .accepted⟩] := by
    simp [Passing.job?, hx]
  exact ⟨hps ▸ hjobs, hps ▸ hacc, hps ▸ rfl, [], hout, by simp⟩

/-! ## Moves without a message -/

/-- Nothing happens to any message. -/
structure Aside (l l' : Listener) : Prop where
  grown : Grown l [] l'
  hand : ∀ r, l'.hand r = l.hand r
  stations : l'.stations = l.stations

/-- Nothing changes for the messages where nothing changes. -/
theorem Aside.refl (l : Listener) : Aside l l :=
    ⟨.still rfl rfl [] rfl (by simp), fun _ => rfl, rfl⟩

/-- Standing aside twice is standing aside. -/
theorem Aside.trans (h : Aside l l') (h' : Aside l' l'') : Aside l l'' :=
  ⟨h.grown.trans h'.grown, fun r => (h'.hand r).trans (h.hand r), h'.stations.trans h.stations⟩

/-- What changes neither jobs nor hands nor stations and wants one thing that is for no job. -/
private theorem Aside.emit (e : Effect) (he : e.job? = none) (hl : l' = l.emit e) : Aside l l' := by
  subst hl
  exact ⟨.still rfl rfl [e] rfl (by simpa using he), fun _ => rfl, rfl⟩

/-- What changes a poller and leaves its hand as it was. -/
private theorem Aside.updatePoller {f : Poller → Poller} (hf : ∀ x, (f x).id = x.id)
    (hh : ∀ x, l.poller? p = some x → (f x).phase.hand = x.phase.hand) :
    Aside l (l.updatePoller p f) :=
  ⟨.still rfl rfl [] rfl (by simp), hand_updatePoller hf hh, rfl⟩

/-- A phase with an empty hand, set at work. -/
private theorem Aside.setPhase (hw : l.AtWork p) {ph : Phase} (hph : ph.hand = []) :
    Aside l (l.setPhase p ph) := by
  obtain ⟨x, hx, hready⟩ := hw
  refine updatePoller (f := fun y => { y with phase := ph }) (fun _ => rfl) fun y hy => ?_
  obtain rfl := Option.some.inj (hx.symm.trans hy)
  rw [hready]
  exact hph

/-- Parking a poller. -/
private theorem Aside.park (hw : l.AtWork p) {ph : Phase} (hph : ph.listens) : Aside l
    (l.park p ph) := by
  obtain ⟨x, hx, hready⟩ := hw
  -- A poller at work has nothing in hand, and neither does one that listens.
  refine updatePoller (fun y => by split <;> rfl) fun y hy => ?_
  obtain rfl := Option.some.inj (hx.symm.trans hy)
  rw [hready]
  split
  · rfl
  · exact Phase.hand_of_listens hph

/-- Signalling one. -/
private theorem Aside.signal (l : Listener) (p : PollerId) : Aside l (l.signal p) := by
  refine updatePoller (fun x => by split <;> rfl) fun x _ => ?_
  cases hphase : x.phase <;> simp [Phase.listens, Phase.hand]

/-- Taking one away that has nothing in hand. -/
theorem Aside.remove (hh : ∀ x, l.poller? p = some x → x.phase.hand = []) :
    Aside l { l with pollers := l.pollers.filter (·.id ≠ p) } :=
  ⟨.still rfl rfl [] rfl (by simp), hand_remove hh, rfl⟩

/-- Forgetting a broken one. -/
private theorem Aside.forgetBroken (l : Listener) (p : PollerId) : Aside l (l.forgetBroken p) := by
  unfold Listener.forgetBroken
  split
  · exact refl l
  next hdead =>
    refine remove fun x hx => ?_
    -- What is not alive has broken off.
    unfold isAlive at hdead
    rw [hx] at hdead
    cases hphase : x.phase with
    | broken => rfl
    | _ => simp [hphase] at hdead

/-- A new poller has nothing in hand. -/
private theorem Aside.opened (life : Lifecycle) (id : PollerId) :
    Aside l { l with lifecycle := life, pollers := l.pollers ++ [⟨id, .fresh, false⟩] } := by
  refine ⟨.still rfl rfl [] rfl (by simp), fun r => ?_, rfl⟩
  simp only [Listener.hand, poller?, List.find?_append]
  -- Who was there is found first.
  cases l.pollers.find? (·.id = r) with
  | some x => rfl
  | none =>
    by_cases hr : id = r <;> simp [hr, Phase.hand]

/-- A move by which no message is handed on. -/
private theorem Move.aside {a : Actor} (hm : Move (fun _ _ => False) a l l') : Aside l l' := by
  have hstill : ∀ {m : Listener}, m.jobs = l.jobs → m.accepted = l.accepted →
      m.outbox = l.outbox → m.pollers = l.pollers → m.stations = l.stations → Aside l m := by
    intro m hjobs hacc hout hpollers hstations
    refine ⟨.still hjobs hacc [] hout (by simp), fun r => ?_, hstations⟩
    simp only [Listener.hand, poller?, hpollers]
  cases hm with
  | noted | returned => exact .emit _ rfl rfl
  | opened => exact .opened _ _
  | woke hx hh =>
    refine .updatePoller (f := fun y => { y with phase := .ready }) (fun _ => rfl) fun y hy => ?_
    obtain rfl := Option.some.inj (hx.symm.trans hy)
    exact hh.symm
  -- No message is handed on, as none is allowed.
  | wentPast _ hd | wentOn _ _ hd => exact hd.elim
  | queued _ hd => exact (hd _ List.mem_cons_self).elim
  | retired hw =>
    obtain ⟨x, hx, hready⟩ := hw
    refine (Aside.remove fun y hy => ?_).trans (.emit _ rfl rfl)
    obtain rfl := Option.some.inj (hx.symm.trans hy)
    rw [hready]
    rfl
  | parked hw hp => exact .park hw hp
  | asked now hw => exact (Aside.setPhase hw rfl).trans (.emit _ rfl rfl)
  | broke hw => exact .setPhase hw rfl
  | @stopping _ _ q e =>
    have hstop : Aside l { l with lifecycle := l.lifecycle.beginStop q } :=
      hstill rfl rfl rfl rfl rfl
    exact hstop.trans (.signal _ _)
  | told => exact .signal _ _
  | forgot => exact .forgetBroken _ _
  | stopped | cleared | calling | called | draining | closed | finished =>
    exact hstill rfl rfl rfl rfl rfl

/-- Moves that offer no message leave the messages aside. -/
theorem Moves.aside {a : Actor} (h : Moves (fun _ _ => False) a l l') : Aside l l' :=
  h.keep (P := Aside l) (fun hm ha => ha.trans hm.aside) (.refl l)

/-! ## Offering a batch -/

/-- Offering a message leaves all hands as they are. -/
private theorem Offered.hand {o : Option Fate} (h : Offered l p d o l') (r : PollerId) :
    l'.hand r = l.hand r := by
  -- Taking a slot touches no poller.
  have htake : ∀ {m : Listener}, l.takeSlot? p.queue = some m → m.hand r = l.hand r :=
    fun hm => same_takeSlot? (f := (·.hand r)) (fun _ => rfl) hm
  cases h with
  | noSlot => rfl
  | outdated hm => rw [hand_releaseSlot, htake hm]
  | taken hm => exact (htake hm :)
  | @refused m hm =>
    exact (hand_releaseSlot { m with workers := l.workers.submit p } p.queue r).trans (htake hm :)
  | queued hm => exact (htake hm :)

/-- Handing on again changes no hand. -/
theorem hand_offerAgain (l : Listener) (p : PollerId) (d : Delivery) (r : PollerId) :
    (l.offerAgain p d).2.hand r = l.hand r := by
  unfold offerAgain
  dsimp only
  split
  · rfl
  · exact hand_releaseSlot { l with workers := l.workers.resume p } p.queue r

/-- A message that its poller goes past is left, or becomes the next job. -/
theorem Offered.grown {f : Fate} (h : Offered l p d (some f) l') :
    Grown l [⟨p, d, f, false, l, l'⟩] l' := by
  have htake : ∀ {m : Listener}, l.takeSlot? p.queue = some m →
      m.jobs = l.jobs ∧ m.accepted = l.accepted ∧ m.outbox = l.outbox := by
    intro m hm
    obtain ⟨_, -, -, rfl⟩ := takeSlot?_eq_some_iff.mp hm
    exact ⟨rfl, rfl, rfl⟩
  cases h with
  | noSlot => exact .left rfl (.still rfl rfl [_] rfl (by simp [Effect.job?]))
  | outdated hm =>
    obtain ⟨hjobs, hacc, hout⟩ := htake hm
    exact .left rfl (.still (by simpa) (by simpa) [] (by simpa) (by simp))
  -- Only a message that is taken becomes a job.
  | taken hm =>
    obtain ⟨hjobs, hacc, hout⟩ := htake hm
    refine .taken rfl ?_ ?_ hout
    · simp [addJob, hjobs, hacc]
    · simp [addJob, hacc]
  | refused hm =>
    obtain ⟨hjobs, hacc, hout⟩ := htake hm
    refine .left rfl (.still ?_ ?_ [.report (.turnedAway p.queue)] ?_ (by simp [Effect.job?]))
    · simpa [turnAway, report, emit] using hjobs
    · simpa [turnAway, report, emit] using hacc
    · simpa [turnAway, report, emit] using hout

/-- The same for a message with which a poller waited for a worker. -/
theorem grown_offerAgain (l : Listener) (p : PollerId) (d : Delivery) :
    Grown l [⟨p, d, (l.offerAgain p d).1, true, l, (l.offerAgain p d).2⟩] (l.offerAgain p d).2 := by
  unfold offerAgain
  dsimp only
  split
  · exact .taken rfl rfl rfl rfl
  · exact .left rfl (.still (by simp [turnAway, report, emit]) (by simp [turnAway, report, emit])
      [.report (.turnedAway p.queue)] (by simp [turnAway, report, emit]) (by simp [Effect.job?]))

/-- The messages of a batch that a poller goes past when it hands them on. -/
def passings (p : PollerId) : List Delivery → Listener → List Passing
  | [], _ => []
  | d :: ds, l =>
    match l.offer p d with
    | (none, _) => []
    | (some f, l') => ⟨p, d, f, false, l, l'⟩ :: passings p ds l'

/-- A message with a fate is the first passing. -/
theorem passings_cons_of_some {f : Fate} (hf : (l.offer p d).1 = some f) :
    l.passings p (d :: ds) =
      ⟨p, d, f, false, l, (l.offer p d).2⟩ :: (l.offer p d).2.passings p ds := by
  rw [passings]
  cases ho : l.offer p d with
  | mk o l' =>
    rw [ho] at hf
    cases hf
    rfl

/-- One without a fate is no passing. -/
theorem passings_cons_of_none (hf : (l.offer p d).1 = none) : l.passings p (d :: ds) = [] := by
  rw [passings]
  cases ho : l.offer p d with
  | mk o l' =>
    rw [ho] at hf
    cases hf
    rfl

/-- A poller goes past the messages of a batch in order and keeps the rest in hand. -/
theorem map_delivery_passings (p : PollerId) (ds : List Delivery) (l : Listener) :
    (l.passings p ds).map (·.delivery) ++ (l.handOn p ds).2.1 = ds := by
  induction ds generalizing l with
  | nil => rfl
  | cons d ds ih =>
    -- Where a message has to wait, it and those behind it are what is left to hand on.
    cases hf : (l.offer p d).1 with
    | none => rw [passings_cons_of_none hf, handOn_cons_of_none hf, List.map_nil, List.nil_append]
    | some f =>
      rw [passings_cons_of_some hf, handOn_cons_of_some hf, List.map_cons, List.cons_append, ih]

/-- The passings are by the poller. -/
theorem poller_of_mem_passings {x : Passing} (hx : x ∈ l.passings p ds) : x.poller = p := by
  induction ds generalizing l with
  | nil => cases hx
  | cons d ds ih =>
    -- By the first message: it stops there, or passes it and goes on.
    cases hf : (l.offer p d).1 with
    | none => simp [passings_cons_of_none hf] at hx
    | some f =>
      rw [passings_cons_of_some hf] at hx
      rcases List.mem_cons.mp hx with rfl | hx
      · rfl
      · exact ih hx

/-- Handing on grows by its passings. -/
theorem grown_dispatch (now : Nat) (hw : l.AtWork p) :
    Grown l (l.passings p ds) (l.dispatch now p ds) := by
  induction ds generalizing l with
  | nil => exact (moves_beginRound now hw).aside.grown
  | cons d ds ih =>
    have hoffered := offered l p d
    cases hf : (l.offer p d).1 with
    | none =>
      rw [dispatch_cons_of_none now hf, passings_cons_of_none hf]
      -- The message has a slot and waits; neither jobs nor outbox have changed.
      rw [hf] at hoffered
      generalize (l.offer p d).2 = l' at hoffered ⊢
      cases hoffered with
      | queued hm =>
        obtain ⟨_, -, -, rfl⟩ := takeSlot?_eq_some_iff.mp hm
        exact .still rfl rfl [] rfl (by simp)
    | some f =>
      rw [dispatch_cons_of_some now hf, passings_cons_of_some hf]
      exact (hf ▸ hoffered : Offered ..).grown.trans (ih (hoffered.atWork hw))

/-- What is left in its hand is what was not handed on. -/
theorem hand_dispatch (now : Nat) (hw : l.AtWork p) (r : PollerId) :
    (l.dispatch now p ds).hand r = if p = r then (l.handOn p ds).2.1 else l.hand r := by
  induction ds generalizing l with
  | nil =>
    have hround : (l.dispatch now p []).hand r = l.hand r := (moves_beginRound now hw).aside.hand r
    rw [hround]
    -- At the end of the batch the poller has nothing left in hand.
    by_cases hp : p = r
    · subst hp
      rw [if_pos rfl, hw.hand]
      rfl
    · rw [if_neg hp]
  | cons d ds ih =>
    have hoffered := offered l p d
    cases hf : (l.offer p d).1 with
    | none =>
      -- The poller waits with this message and the rest.
      obtain ⟨x, hx, -⟩ := hoffered.atWork hw
      rw [dispatch_cons_of_none now hf, handOn_cons_of_none hf, hand_setPhase hx]
      by_cases hp : p = r
      · simp [hp, Phase.hand]
      · simp [hp, hoffered.hand]
    | some f =>
      rw [dispatch_cons_of_some now hf, handOn_cons_of_some hf, ih (hoffered.atWork hw),
        hoffered.hand]

/-! ## Stimuli -/

/-- The messages that a poller goes past at a stimulus. -/
def passedBy (now : Nat) (s : Stimulus) (l : Listener) : List Passing :=
  match s with
  | .answer p (.batch ds) =>
    match l.poller? p with
    | some x => match x.phase with
      | .receiving _ => (l.setPhase p .ready).passings p ds
      | _ => []
    | none => []
  | .goOn p =>
    match l.poller? p with
    | some x => match x.phase with
      | .submitting d ds =>
        if l.canGoOn now x then
          let m := l.setPhase p .ready
          ⟨p, d, (m.offerAgain p d).1, true, m, (m.offerAgain p d).2⟩ ::
            (m.offerAgain p d).2.passings p ds
        else []
      | _ => []
    | none => []
  | _ => []

/-- When a poller goes past messages: its receive call returns a batch, or it has waited for a
    worker. -/
inductive PassedBy (now : Nat) (l : Listener) : Stimulus → List Passing → Prop
  | nobody (s : Stimulus) : PassedBy now l s []
  | received {p : PollerId} {x : Poller} {since : Nat} {ds : List Delivery}
    (hx : l.poller? p = some x) (hphase : x.phase = .receiving since) :
    PassedBy now l (.answer p (.batch ds)) ((l.setPhase p .ready).passings p ds)
  | waited {p : PollerId} {x : Poller} {d : Delivery} {ds : List Delivery}
    (hx : l.poller? p = some x) (hphase : x.phase = .submitting d ds) (hc : l.canGoOn now x) :
    PassedBy now l (.goOn p)
      (⟨p, d, ((l.setPhase p .ready).offerAgain p d).1, true, l.setPhase p .ready,
        ((l.setPhase p .ready).offerAgain p d).2⟩ ::
          ((l.setPhase p .ready).offerAgain p d).2.passings p ds)

/-- Messages are passed by a receive that returns or by a submission that goes on. -/
theorem passedBy_spec (now : Nat) (s : Stimulus) (l : Listener) :
    PassedBy now l s (l.passedBy now s) := by
  unfold passedBy
  -- By the stimulus: an answer to a receive, a submission that goes on, or anything else.
  split
  · split
    next x hx =>
      split
      next since hphase => exact .received hx hphase
      next => exact .nobody _
    next => exact .nobody _
  · split
    next x hx =>
      split
      next d ds hphase =>
        split
        next hc => exact .waited hx hphase hc
        next => exact .nobody _
      next => exact .nobody _
    next => exact .nobody _
  · exact .nobody _

/-- The messages that a poller receives at a stimulus. -/
def receivedBy (r : PollerId) (s : Stimulus) (l : Listener) : List Delivery :=
  match s with
  | .answer p (.batch ds) =>
    match l.poller? p with
    | some x => match x.phase with
      | .receiving _ => if p = r then ds else []
      | _ => []
    | none => []
  | _ => []

/-- What a poller receives is a batch that a receive call of its own returns. -/
theorem eq_answer_of_mem_receivedBy {s : Stimulus} (hd : d ∈ l.receivedBy r s) :
    ∃ ds, s = .answer r (.batch ds) ∧ d ∈ ds := by
  -- Only the answer to the receive that is out brings messages.
  unfold receivedBy at hd
  split at hd
  next p ds =>
    split at hd
    · split at hd
      · split at hd
        next hp => exact ⟨ds, hp ▸ rfl, hd⟩
        next => cases hd
      · cases hd
    · cases hd
  next => cases hd

end Listener

end Intake
