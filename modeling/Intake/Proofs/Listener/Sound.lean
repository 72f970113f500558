import Intake.Listener.Build
import Intake.Proofs.Lifecycle
import Intake.Proofs.Listener.Moves
import Intake.Proofs.Run

/-!
# Runs of a listener, and who is who in them

A run feeds a listener one stimulus after another; `steps` keeps what happened at each.
In every state of a run identities are unambiguous (`Sound`): queues have different
names, pollers different epochs, jobs different numbers, and each of them belongs to a
registered queue.

- `run_keeps`: what holds at first and is kept by every step holds after every run
- `sound_run`: identities are unambiguous in every state of a run
- `posts_run`: no run changes which queue is served from where and by which handler
-/

namespace Intake

/-- What happened at one stimulus. -/
structure Step where
  now : Nat
  stimulus : Stimulus
  before : Listener
  after : Listener
  /-- What the listener wanted done, in order. -/
  effects : List Effect

/-- A look-up by which every queue is where its name says, without a dead-letter queue. -/
def Lookup.verbatim : Lookup Unit where
  destination name u := (.ok name, u)
  redrive _ u := (.ok false, u)

namespace Listener

/-- The step that a stimulus leads to. -/
def step (l : Listener) (now : Nat) (s : Stimulus) : Step :=
  ⟨now, s, l, (l.react now s).1, (l.react now s).2⟩

/-- The state after one stimulus. -/
def next (l : Listener) (x : Nat × Stimulus) : Listener := (l.react x.1 x.2).1

/-- The state after a sequence of stimuli. -/
def run (l : Listener) (xs : List (Nat × Stimulus)) : Listener := xs.foldl next l

/-- The steps that a sequence of stimuli leads to. -/
def steps (l : Listener) (xs : List (Nat × Stimulus)) : List Step :=
  noted next (fun l x => l.step x.1 x.2) l xs

/-- Nothing happens in the empty run. -/
theorem run_nil (l : Listener) : l.run [] = l := rfl

/-- A run is its first step and the rest. -/
theorem run_cons (l : Listener) (x : Nat × Stimulus) (xs : List (Nat × Stimulus)) :
    l.run (x :: xs) = (l.react x.1 x.2).1.run xs := rfl

/-- A run of two parts is the run of the second after the first. -/
theorem run_append (l : Listener) (xs ys : List (Nat × Stimulus)) :
    l.run (xs ++ ys) = (l.run xs).run ys :=
  List.foldl_append

/-- Where the steps of a run are cut, the run is cut. -/
theorem steps_eq_append_cons {l : Listener} {xs : List (Nat × Stimulus)} {before later : List Step}
    {x : Step} (h : l.steps xs = before ++ x :: later) :
    ∃ ys now s, before = l.steps ys ∧ x = (l.run ys).step now s := by
  obtain ⟨ys, y, hbefore, hx⟩ := noted_eq_append_cons h
  exact ⟨ys, y.1, y.2, hbefore, hx⟩

/-- A step of a run is made from a state to which a part of the run has led. -/
theorem exists_run_of_mem_steps {l : Listener} {xs : List (Nat × Stimulus)} {x : Step}
    (hx : x ∈ l.steps xs) : ∃ ys now s later, x = (l.run ys).step now s ∧
      l.steps xs = l.steps ys ++ (l.run ys).step now s :: later := by
  obtain ⟨before, later, hcut⟩ := List.append_of_mem hx
  obtain ⟨ys, now, s, rfl, rfl⟩ := steps_eq_append_cons hcut
  exact ⟨ys, now, s, later, rfl, hcut⟩

/-- What holds at first and is kept by every step of a run holds after the run.  The property
    may look back at the steps so far. -/
theorem run_keeps_of_mem {P : List Step → Listener → Prop} {l : Listener} (h0 : P [] l)
    (xs : List (Nat × Stimulus)) (hstep : ∀ hist m, ∀ x ∈ xs, P hist m →
      P (hist ++ [m.step x.1 x.2]) (m.react x.1 x.2).1) : P (l.steps xs) (l.run xs) :=
  foldl_keeps h0 xs hstep

/-- What holds at first and is kept by every step holds after every run. -/
theorem run_keeps {P : List Step → Listener → Prop} {l : Listener} (h0 : P [] l)
    (hstep : ∀ hist m now s, P hist m → P (hist ++ [m.step now s]) (m.react now s).1)
    (xs : List (Nat × Stimulus)) : P (l.steps xs) (l.run xs) :=
  run_keeps_of_mem h0 xs fun hist m x _ => hstep hist m x.1 x.2

/-! ## Unambiguous identities -/

/-- Queues, pollers and jobs are told apart by name, identity and number, and belong to
    registered queues. -/
structure Sound (l : Listener) : Prop where
  names_nodup : l.names.Nodup
  ids_nodup : (l.pollers.map (·.id)).Nodup
  /-- No poller is of a later epoch than its queue. -/
  epoch_le : ∀ p ∈ l.pollers.map (·.id), ∀ s, l.lifecycle.standing? p.queue = some s →
    p.epoch ≤ s.epoch
  poller_known : ∀ p ∈ l.pollers.map (·.id), p.queue ∈ l.names
  standing_known : ∀ q, (l.lifecycle.standing? q).isSome → q ∈ l.names
  numbers_nodup : (l.jobs.map (·.number)).Nodup
  number_lt : ∀ j ∈ l.jobs, j.number < l.accepted
  job_known : ∀ j ∈ l.jobs, j.queue ∈ l.names

variable {G : String → Delivery → Prop} {a : Actor} {l l' : Listener}

/-- Soundness looks at names, identities, standings and jobs alone. -/
theorem Sound.congr (h : l.Sound) (hnames : l'.names = l.names)
    (hids : l'.pollers.map (·.id) = l.pollers.map (·.id))
    (hlife : l'.lifecycle = l.lifecycle) (hjobs : l'.jobs = l.jobs)
    (hacc : l'.accepted = l.accepted) : l'.Sound where
  names_nodup := by rw [hnames]; exact h.names_nodup
  ids_nodup := by rw [hids]; exact h.ids_nodup
  epoch_le := by rw [hids, hlife]; exact h.epoch_le
  poller_known := by rw [hids, hnames]; exact h.poller_known
  standing_known := by rw [hlife, hnames]; exact h.standing_known
  numbers_nodup := by rw [hjobs]; exact h.numbers_nodup
  number_lt := by rw [hjobs, hacc]; exact h.number_lt
  job_known := by rw [hjobs, hnames]; exact h.job_known

/-- Changing a poller, but not its name, keeps a listener sound. -/
private theorem Sound.updatePoller (h : l.Sound) (p : PollerId) {f : Poller → Poller}
    (hf : ∀ x, (f x).id = x.id) : (l.updatePoller p f).Sound :=
  h.congr rfl (ids_updatePoller hf l p) rfl rfl rfl

/-- So does setting a phase. -/
theorem Sound.setPhase (h : l.Sound) (p : PollerId) (ph : Phase) : (l.setPhase p ph).Sound :=
  h.updatePoller p fun _ => rfl

/-- So does giving a slot back. -/
private theorem Sound.releaseSlot (h : l.Sound) (q : String) : (l.releaseSlot q).Sound :=
  h.congr (by simp) (by simp) (by simp) (by simp) (by simp)

/-- Pollers may go. -/
private theorem Sound.filterPollers (h : l.Sound) (P : Poller → Bool) :
    ({ l with pollers := l.pollers.filter P } : Listener).Sound where
  names_nodup := h.names_nodup
  ids_nodup := h.ids_nodup.sublist (List.filter_sublist.map _)
  epoch_le p hp := h.epoch_le p ((List.filter_sublist.map _).subset hp)
  poller_known p hp := h.poller_known p ((List.filter_sublist.map _).subset hp)
  standing_known := h.standing_known
  numbers_nodup := h.numbers_nodup
  number_lt := h.number_lt
  job_known := h.job_known

/-- A new job has a new number. -/
private theorem Sound.addJob (h : l.Sound) {q : String} (hq : q ∈ l.names) (d : Delivery) :
    (l.addJob q d).Sound where
  names_nodup := h.names_nodup
  ids_nodup := h.ids_nodup
  epoch_le := h.epoch_le
  poller_known := h.poller_known
  standing_known := h.standing_known
  numbers_nodup := by
    simp only [Listener.addJob, List.map_append, List.map_cons, List.map_nil]
    rw [List.nodup_append]
    -- The new number is above all others.
    refine ⟨h.numbers_nodup, List.nodup_singleton _, fun a ha b hb => ?_⟩
    obtain ⟨j, hj, rfl⟩ := List.mem_map.mp ha
    have := h.number_lt j hj
    simp only [List.mem_singleton] at hb
    omega
  number_lt j hj := by
    rcases List.mem_append.mp hj with hj | hj
    · exact Nat.lt_succ_of_lt (h.number_lt j hj)
    · rw [List.mem_singleton.mp hj]
      exact Nat.lt_succ_self _
  job_known j hj := by
    rcases List.mem_append.mp hj with hj | hj
    · exact h.job_known j hj
    · rw [List.mem_singleton.mp hj]
      exact hq

/-- Jobs may go. -/
private theorem Sound.filterJobs (h : l.Sound) (P : Job → Bool) :
    ({ l with jobs := l.jobs.filter P } : Listener).Sound where
  names_nodup := h.names_nodup
  ids_nodup := h.ids_nodup
  epoch_le := h.epoch_le
  poller_known := h.poller_known
  standing_known := h.standing_known
  numbers_nodup := h.numbers_nodup.sublist (List.filter_sublist.map _)
  number_lt j hj := h.number_lt j (List.mem_of_mem_filter hj)
  job_known j hj := h.job_known j (List.mem_of_mem_filter hj)

/-- What a standing may become: of a queue that is known, and of no earlier epoch. -/
private theorem Sound.setLifecycle (h : l.Sound) {life : Lifecycle}
    (hlife : ∀ q s, life.standing? q = some s →
      ∃ s', l.lifecycle.standing? q = some s' ∧ s'.epoch ≤ s.epoch) :
    ({ l with lifecycle := life } : Listener).Sound where
  names_nodup := h.names_nodup
  ids_nodup := h.ids_nodup
  -- Standings come from standings, with epochs that are no lower.
  epoch_le p hp s hs := by
    obtain ⟨s', hs', hle⟩ := hlife _ s hs
    exact Nat.le_trans (h.epoch_le p hp s' hs') hle
  poller_known := h.poller_known
  standing_known q hq := by
    obtain ⟨s, hs⟩ := Option.isSome_iff_exists.mp hq
    obtain ⟨s', hs', -⟩ := hlife q s hs
    exact h.standing_known q (hs' ▸ rfl)
  numbers_nodup := h.numbers_nodup
  number_lt := h.number_lt
  job_known := h.job_known

/-- A queue that is started gets a poller of an epoch in which it had none. -/
private theorem Sound.opened (h : l.Sound) {q : String} {e : Nat}
    (he : l.lifecycle.nextEpoch? q = some e) :
    ({ l with lifecycle := l.lifecycle.beginStart q,
              pollers := l.pollers ++ [⟨⟨q, e⟩, .fresh, false⟩] } : Listener).Sound := by
  obtain ⟨s, hs, -, rfl⟩ := Lifecycle.nextEpoch?_eq_some.mp he
  -- Only a queue that is known has an epoch.
  have hq : q ∈ l.names := h.standing_known q (hs ▸ rfl)
  -- The pollers that the queue has are of its epoch or an earlier one.
  have hnew : ∀ p ∈ l.pollers.map (·.id), p.queue = q → p.epoch < s.epoch + 1 := by
    rintro p hp rfl
    exact Nat.lt_succ_of_le (h.epoch_le p hp s hs)
  have hmem : ∀ p ∈ (l.pollers ++ [(⟨⟨q, s.epoch + 1⟩, .fresh, false⟩ : Poller)]).map (·.id),
      p ∈ l.pollers.map (·.id) ∨ p = ⟨q, s.epoch + 1⟩ := by
    intro p hp
    simpa using hp
  refine { h with ids_nodup := ?_, epoch_le := ?_, poller_known := ?_, standing_known := ?_ }
  · rw [List.map_append, List.nodup_append]
    refine ⟨h.ids_nodup, List.nodup_singleton _, fun a ha b hb hab => ?_⟩
    have hlt := hnew a ha
    rw [hab, List.mem_singleton.mp hb] at hlt
    exact Nat.lt_irrefl _ (hlt rfl)
  · intro p hp s' hs'
    rw [Lifecycle.standing?_beginStart he] at hs'
    rcases hmem p hp with hp | rfl
    · split at hs'
      next hpq =>
        obtain rfl := Option.some.inj hs'
        exact Nat.le_of_lt (hnew p hp hpq)
      next => exact h.epoch_le p hp s' hs'
    · obtain rfl := Option.some.inj ((if_pos rfl).symm.trans hs')
      exact Nat.le_refl _
  · intro p hp
    rcases hmem p hp with hp | rfl
    · exact h.poller_known p hp
    · exact hq
  · intro j hj
    rw [Lifecycle.standing?_beginStart he] at hj
    split at hj
    next hjq => exact hjq ▸ hq
    next => exact h.standing_known j hj

/-! ## Moves keep identities and posts -/

/-- An offer keeps a listener sound. -/
theorem Offered.sound {p : PollerId} {d : Delivery} {o : Option Fate}
    (ho : Offered l p d o l') (h : l.Sound) : l'.Sound := by
  -- With a slot of the queue: the slots change, and the queue has a station.
  have htake : ∀ {m : Listener}, l.takeSlot? p.queue = some m → m.Sound ∧ p.queue ∈ m.names := by
    intro m hm
    obtain ⟨s, hs, -, rfl⟩ := takeSlot?_eq_some_iff.mp hm
    exact ⟨h.congr (names_updateSlots ..) rfl rfl rfl rfl,
      names_updateSlots l .. ▸ isSome_station?.mp (hs ▸ rfl)⟩
  cases ho with
  | noSlot => exact h.congr rfl rfl rfl rfl rfl
  | outdated hm => exact (htake hm).1.releaseSlot _
  | @taken m hm =>
    obtain ⟨hs, hq⟩ := htake hm
    have hs' : ({ m with workers := l.workers.submit p } : Listener).Sound :=
      hs.congr rfl rfl rfl rfl rfl
    exact hs'.addJob hq d
  | @refused m hm =>
    have hs' : ({ m with workers := l.workers.submit p } : Listener).Sound :=
      (htake hm).1.congr rfl rfl rfl rfl rfl
    exact (hs'.releaseSlot p.queue).congr rfl rfl rfl rfl rfl
  | queued hm => exact (htake hm).1.congr rfl rfl rfl rfl rfl

/-- Handing on again keeps a listener sound. -/
theorem Sound.offerAgain (h : l.Sound) {p : PollerId} (hp : p.queue ∈ l.names) (d : Delivery) :
    (l.offerAgain p d).2.Sound := by
  have hs : ({ l with workers := l.workers.resume p } : Listener).Sound :=
    h.congr rfl rfl rfl rfl rfl
  unfold Listener.offerAgain
  dsimp only
  -- If the worker comes the message becomes a job, if not its slot comes back.
  split
  · exact hs.addJob hp d
  · exact (hs.releaseSlot p.queue).congr rfl rfl rfl rfl rfl

/-- So does forgetting a broken poller. -/
private theorem Sound.forgetBroken (h : l.Sound) (p : PollerId) : (l.forgetBroken p).Sound := by
  unfold Listener.forgetBroken
  split
  · exact h
  · exact h.filterPollers _

/-- So does signalling one. -/
private theorem Sound.signal (h : l.Sound) (p : PollerId) : (l.signal p).Sound :=
  h.updatePoller p fun x => by split <;> rfl

/-- So does every move. -/
theorem Sound.move (hm : Move G a l l') (h : l.Sound) : l'.Sound := by
  cases hm with
  | noted | returned | calling | called | draining | closed | finished =>
    exact h.congr rfl rfl rfl rfl rfl
  | opened he => exact h.opened he
  | woke | broke => exact h.setPhase _ _
  | wentPast => exact (offered ..).sound h
  | queued => exact ((offered ..).sound h).setPhase _ _
  | wentOn hx =>
    -- A poller that goes on is one of those that are known.
    obtain ⟨hmem, rfl⟩ := poller?_eq_some hx
    exact (h.setPhase _ _).offerAgain (h.poller_known _ (List.mem_map_of_mem hmem)) _
  | retired => exact (h.filterPollers _).congr rfl rfl rfl rfl rfl
  | parked => exact h.updatePoller _ fun x => by split <;> rfl
  | asked => exact (h.setPhase _ _).congr rfl rfl rfl rfl rfl
  | @stopping _ _ q e he =>
    -- A stop leaves every epoch as it is.
    refine (h.setLifecycle fun j s hs => ?_).signal _
    rw [Lifecycle.standing?_beginStop he] at hs
    split at hs
    next hj =>
      obtain rfl := Option.some.inj hs
      exact ⟨⟨.running, e⟩, hj ▸ Lifecycle.runningEpoch?_eq_some.mp he, Nat.le_refl e⟩
    next => exact ⟨s, hs, Nat.le_refl _⟩
  | stopped q e =>
    refine h.setLifecycle fun j s hs => ?_
    rw [Lifecycle.standing?_finishStop] at hs
    split at hs
    next hj =>
      obtain rfl := Option.some.inj hs
      exact ⟨⟨.stopping, e⟩, hj.1 ▸ hj.2, Nat.le_refl e⟩
    next => exact ⟨s, hs, Nat.le_refl _⟩
  | cleared => exact h.setLifecycle fun j s hs => by simp at hs
  | told => exact h.signal _
  | forgot => exact h.forgetBroken _

/-- An offer changes no post. -/
theorem Offered.posts_eq {p : PollerId} {d : Delivery} {o : Option Fate}
    (ho : Offered l p d o l') : l'.posts = l.posts := by
  -- Taking a slot changes no post.
  have htake : ∀ {m : Listener}, l.takeSlot? p.queue = some m → m.posts = l.posts := by
    intro m hm
    obtain ⟨_, -, -, rfl⟩ := takeSlot?_eq_some_iff.mp hm
    exact posts_updateSlots ..
  cases ho with
  | noSlot => rfl
  | outdated hm => rw [releaseSlot_posts, htake hm]
  | taken hm => exact (htake hm :)
  | @refused m hm =>
    exact (releaseSlot_posts { m with workers := l.workers.submit p } p.queue).trans (htake hm :)
  | queued hm => exact (htake hm :)

/-- Nor does handing on again. -/
theorem posts_offerAgain (l : Listener) (p : PollerId) (d : Delivery) :
    (l.offerAgain p d).2.posts = l.posts := by
  unfold offerAgain
  dsimp only
  split
  · rfl
  · exact releaseSlot_posts { l with workers := l.workers.resume p } p.queue

/-- Nor does any move. -/
theorem Move.posts_eq (hm : Move G a l l') : l'.posts = l.posts := by
  cases hm with
  | wentPast => exact (offered ..).posts_eq
  | queued => exact ((offered ..).posts_eq :)
  | wentOn => exact posts_offerAgain ..
  | forgot =>
    unfold forgetBroken
    split <;> rfl
  | _ => rfl

/-! ## Steps keep identities and posts -/

/-- A job that is found has the number. -/
theorem job?_eq_some {n : Nat} {j : Job} (h : l.job? n = some j) : j ∈ l.jobs ∧ j.number = n :=
  List.mem_of_find?_key h

/-- A stimulus for a job turns the work on its message, or changes nothing. -/
theorem after_forJob {P : Listener → Prop} (now : Nat) (s : Stimulus) (hs : s.job?.isSome)
    (hl : P l) (hbegin : ∀ j ∈ l.jobs, j.phase = .accepted → P (l.beginJob j))
    (hend : ∀ j ∈ l.jobs, j.phase = .handling → ∀ r, P (l.endJob j r))
    (hdeleted : ∀ j ∈ l.jobs, j.phase = .deleting → ∀ r, P (l.finishDelete j r)) :
    P (l.after now s) := by
  -- By the stimulus; one that finds no job in its phase does nothing.
  cases s with
  | beginJob n =>
    unfold after
    dsimp only
    split
    next j hj =>
      split
      next hp => exact hbegin j (job?_eq_some hj).1 hp
      next => exact hl
    next => exact hl
  | endJob n r =>
    unfold after
    dsimp only
    split
    next j hj =>
      split
      next hp => exact hend j (job?_eq_some hj).1 hp r
      next => exact hl
    next => exact hl
  | deleted n r =>
    unfold after
    dsimp only
    split
    next j hj =>
      split
      next hp => exact hdeleted j (job?_eq_some hj).1 hp r
      next => exact hl
    next => exact hl
  | _ => cases hs

/-- What is kept when a job gets a phase or is settled, and whatever is wanted for it, every
    stimulus for a job keeps. -/
theorem after_forJob_of_parts {P : Listener → Prop} (now : Nat) (s : Stimulus)
    (hs : s.job?.isSome) (hl : P l) (hphase : ∀ {m n ph}, P m → P (m.setJobPhase n ph))
    (hinvoke : ∀ {m n handler letter}, P m → P (m.emit (.invoke n handler letter)))
    (hdelete : ∀ {m n dest receipt}, P m → P (m.emit (.delete n dest receipt)))
    (hreport : ∀ {m n}, P m → P (m.report n))
    (hsettle : ∀ {m j}, j ∈ m.jobs → P m → P (m.settle j)) : P (l.after now s) := by
  apply after_forJob now s hs hl
  · intro j _ _
    unfold beginJob
    split
    · exact hl
    · exact hinvoke (hphase hl)
  · intro j hj _ r
    unfold endJob
    split
    · exact hl
    · dsimp only
      -- A notice about a failure comes before what is wanted for the job.
      cases r.failure? with
      | none =>
        split
        · exact hdelete (hphase hl)
        · exact hsettle hj hl
      | some cause =>
        split
        · exact hdelete (hphase (hreport hl))
        · exact hsettle hj (hreport hl)
  · intro j hj _ r
    unfold finishDelete
    cases r with
    | ok => exact hsettle hj hl
    | error => exact hsettle hj (hreport hl)

/-- What every move of who acts keeps, every step keeps that is for no job. -/
theorem after_of_moves {P : Listener → Prop} (now : Nat) (s : Stimulus) (hl : P l)
    (hmove : ∀ {m m' : Listener}, Move (fun _ _ => True) s.actor m m' → P m → P m')
    (hjob : s.job?.isSome → P (l.after now s)) : P (l.after now s) := by
  cases hs : s.job? with
  | some n => exact hjob (hs ▸ rfl)
  | none =>
    exact (moves_after now s hs (fun _ _ _ _ _ => trivial) fun _ _ _ _ _ _ => trivial).keep
      hmove hl

/-- What every move of who acts and every stimulus for a job keeps, every step keeps. -/
theorem after_keeps {P : Listener → Prop} (now : Nat) (s : Stimulus) (hl : P l)
    (hmove : ∀ {m m' : Listener}, Move (fun _ _ => True) s.actor m m' → P m → P m')
    (hbegin : ∀ j ∈ l.jobs, j.phase = .accepted → P (l.beginJob j))
    (hend : ∀ j ∈ l.jobs, j.phase = .handling → ∀ r, P (l.endJob j r))
    (hdeleted : ∀ j ∈ l.jobs, j.phase = .deleting → ∀ r, P (l.finishDelete j r)) :
    P (l.after now s) :=
  after_of_moves now s hl hmove fun hs => after_forJob now s hs hl hbegin hend hdeleted

/-- Setting a job's phase keeps a listener sound. -/
theorem Sound.setJobPhase (h : l.Sound) (n : Nat) (ph : JobPhase) : (l.setJobPhase n ph).Sound := by
  have hnumbers : (l.setJobPhase n ph).jobs.map (·.number) = l.jobs.map (·.number) :=
    List.map_key_change fun _ => rfl
  -- Each job comes from one with its number and its queue.
  have hmem : ∀ j ∈ (l.setJobPhase n ph).jobs, ∃ i ∈ l.jobs, i.number = j.number ∧
      i.queue = j.queue := by
    intro j hj
    obtain ⟨i, hi, rfl⟩ := List.mem_map.mp hj
    refine ⟨i, hi, ?_, ?_⟩ <;> split <;> rfl
  refine { h with numbers_nodup := ?_, number_lt := ?_, job_known := ?_ }
  · rw [hnumbers]
    exact h.numbers_nodup
  · intro j hj
    obtain ⟨i, hi, he, -⟩ := hmem j hj
    exact he ▸ h.number_lt i hi
  · intro j hj
    obtain ⟨i, hi, -, he⟩ := hmem j hj
    exact he ▸ h.job_known i hi

/-- So does settling one. -/
theorem Sound.settle (h : l.Sound) (j : Job) : (l.settle j).Sound :=
  ((h.filterJobs fun i => i.number ≠ j.number).releaseSlot j.queue).congr rfl rfl rfl rfl rfl

/-- Beginning one. -/
theorem Sound.beginJob (h : l.Sound) (j : Job) : (l.beginJob j).Sound := by
  unfold Listener.beginJob
  split
  · exact h
  · exact (h.setJobPhase j.number .handling).congr rfl rfl rfl rfl rfl

/-- Ending one. -/
theorem Sound.endJob (h : l.Sound) (j : Job) (r : HandlerResult) : (l.endJob j r).Sound := by
  -- A notice about the failure changes nothing.
  have hreport : ∀ n : Notice, (l.report n).Sound := fun n => h.congr rfl rfl rfl rfl rfl
  unfold Listener.endJob
  cases l.station? j.queue with
  | none => exact h
  | some s =>
    dsimp only
    cases r.failure? with
    | none =>
      split
      · exact (h.setJobPhase j.number .deleting).congr rfl rfl rfl rfl rfl
      · exact h.settle j
    | some cause =>
      split
      · exact ((hreport _).setJobPhase j.number .deleting).congr rfl rfl rfl rfl rfl
      · exact (hreport _).settle j

/-- The end of its deletion. -/
theorem Sound.finishDelete (h : l.Sound) (j : Job) (r : Except BrokerError Unit) :
    (l.finishDelete j r).Sound := by
  unfold Listener.finishDelete
  cases r with
  | ok => exact h.settle j
  | error cause =>
    have hs : (l.report (.deleteFailed j.queue (j.delivery.id.getD "") cause)).Sound :=
      h.congr rfl rfl rfl rfl rfl
    exact hs.settle j

/-- So does every step. -/
theorem Sound.react (h : l.Sound) (now : Nat) (s : Stimulus) : (l.react now s).1.Sound := by
  have hl : ({ l with outbox := [] } : Listener).Sound := h.congr rfl rfl rfl rfl rfl
  -- Between two stimuli the outbox is emptied, which concerns no identity.
  have hafter : (({ l with outbox := [] } : Listener).after now s).Sound :=
    after_keeps now s hl (fun hm hm' => hm'.move hm) (fun j _ _ => hl.beginJob j)
      (fun j _ _ r => hl.endJob j r) fun j _ _ r => hl.finishDelete j r
  exact hafter.congr rfl rfl rfl rfl rfl

/-- Identities are unambiguous in every state of a run. -/
theorem sound_run (h : l.Sound) (xs : List (Nat × Stimulus)) : (l.run xs).Sound :=
  run_keeps (P := fun _ m => m.Sound) h (fun _ _ now s hm => hm.react now s) xs

/-- Settling a job changes no post. -/
private theorem posts_settle (l : Listener) (j : Job) : (l.settle j).posts = l.posts :=
  releaseSlot_posts { l with jobs := l.jobs.filter (·.number ≠ j.number) } j.queue

/-- It takes the job away. -/
theorem jobs_settle (l : Listener) (j : Job) :
    (l.settle j).jobs = l.jobs.filter (·.number ≠ j.number) :=
  releaseSlot_jobs { l with jobs := l.jobs.filter (·.number ≠ j.number) } j.queue

/-- It gives its worker back. -/
theorem workers_settle (l : Listener) (j : Job) : (l.settle j).workers = l.workers.finish :=
  congrArg Workers.finish
    (releaseSlot_workers { l with jobs := l.jobs.filter (·.number ≠ j.number) } j.queue)

/-- What is kept when a task ends, the work on a message keeps of the workers. -/
theorem workers_after_job {P : Workers PollerId → Prop} (hP : ∀ {w}, P w → P w.finish)
    (now : Nat) {s : Stimulus} (hs : s.job?.isSome) (h : P l.workers) :
    P (l.after now s).workers := by
  apply after_forJob_of_parts (P := fun m => P m.workers) now s hs h
  · exact fun h => h
  · exact fun h => h
  · exact fun h => h
  · exact fun h => h
  · intro m j _ h
    rw [workers_settle]
    exact hP h

/-- No step changes a post. -/
theorem posts_react (l : Listener) (now : Nat) (s : Stimulus) :
    (l.react now s).1.posts = l.posts := by
  refine after_keeps (P := fun m => m.posts = l.posts) (l := { l with outbox := [] }) now s rfl
    (fun hm hp => hm.posts_eq.trans hp) ?_ ?_ ?_
  · -- The parts of a job touch the jobs, the workers and the slots only.
    intro j _ _
    unfold beginJob
    split <;> rfl
  · intro j _ _ r
    unfold endJob
    split
    · rfl
    · dsimp only
      split
      · cases r.failure? <;> rfl
      · cases r.failure? <;> exact posts_settle _ j
  · intro j _ _ r
    unfold finishDelete
    cases r <;> exact posts_settle _ j

/-- No run changes which queue is served from where and by which handler. -/
theorem posts_run (l : Listener) (xs : List (Nat × Stimulus)) : (l.run xs).posts = l.posts :=
  run_keeps (P := fun _ m => m.posts = l.posts) rfl
    (fun _ m now s hm => (posts_react m now s).trans hm) xs

/-- Between two stimuli nothing is left to be done. -/
theorem outbox_run (h : l.outbox = []) (xs : List (Nat × Stimulus)) : (l.run xs).outbox = [] :=
  run_keeps (P := fun _ m => m.outbox = []) h (fun _ _ _ _ _ => rfl) xs

/-! ## A listener that has just been built -/

/-- A station is made from one of the registrations, as the look-ups resolved it, with its
    own handler or else the one for all. -/
def MadeFrom {σ : Type} (k : Lookup σ) (rs : List Registration) (handler : String)
    (st : Station) : Prop :=
  ∃ r ∈ rs, ∃ source t t', k.source r.name r.options t = (.ok source, t') ∧
    st = stationOf source (r.handler.getD handler)

/-- A source is made under the name and with the options asked for. -/
theorem source_eq_ok {σ : Type} {k : Lookup σ} {name : String} {o : QueueOptions} {s s' : σ}
    {source : Source} (h : k.source name o s = (.ok source, s')) :
    source.name = name ∧ source.options = o := by
  unfold Lookup.source at h
  -- The lookup fails, or the answer is unclear, or it gives the source.
  split at h
  · cases h
  · split at h
    · cases h
    · simp only [Prod.mk.injEq, Except.ok.injEq] at h
      exact ⟨h.1 ▸ rfl, h.1 ▸ rfl⟩

/-- Each station is made from a registration, and no two from the same name. -/
private theorem stationsOf_keeps {σ : Type} (k : Lookup σ) (handler : String)
    (all : List Registration) :
    ∀ (rs : List Registration) (stations : List Station) (notices : List Notice) (s : σ),
      (∀ r ∈ rs, r ∈ all) → (stations.map (·.source.name)).Nodup →
      (∀ st ∈ stations, MadeFrom k all handler st) →
      ((stationsOf k handler rs stations notices s).1.map (·.source.name)).Nodup ∧
        ∀ st ∈ (stationsOf k handler rs stations notices s).1, MadeFrom k all handler st
  | [], stations, notices, s, _, hn, hm => ⟨hn, hm⟩
  | r :: rest, stations, notices, s, hrs, hn, hm => by
    have hrest : ∀ r' ∈ rest, r' ∈ all := fun r' hr' => hrs r' (List.mem_cons_of_mem r hr')
    unfold stationsOf
    split
    -- A name that is registered already is left out, and so are the next two kinds.
    · exact stationsOf_keeps k handler all rest _ _ _ hrest hn hm
    next hnew =>
      split
      · exact stationsOf_keeps k handler all rest _ _ _ hrest hn hm
      · split
        · exact stationsOf_keeps k handler all rest _ _ _ hrest hn hm
        next source s' hsource =>
          refine stationsOf_keeps k handler all rest _ _ _ hrest ?_ ?_
          -- The name is new, as it was looked for among the stations before.
          · rw [List.map_append, List.nodup_append]
            refine ⟨hn, List.nodup_singleton _, fun a ha b hb hab => hnew ?_⟩
            obtain ⟨st, hst, rfl⟩ := List.mem_map.mp ha
            rw [List.map_singleton, List.mem_singleton] at hb
            exact List.any_eq_true.mpr
              ⟨st, hst, decide_eq_true (hab.trans (hb.trans (source_eq_ok hsource).1))⟩
          · intro st hst
            rcases List.mem_append.mp hst with hst | hst
            · exact hm st hst
            · exact ⟨r, hrs r List.mem_cons_self, source, _, s', hsource,
                List.mem_singleton.mp hst⟩

section Build

variable {σ : Type} (k : Lookup σ) (settings : ListenerSettings) (polling : Polling)
  (handler : String) (rs : List Registration) (s : σ)

/-- What is built is idle, with the stations that could be made. -/
theorem build_eq_idle : (build k settings polling handler rs s).1 =
    idle settings polling (stationsOf k handler rs [] [] s).1 := rfl

/-- In a listener that was just built all its queues are stopped. -/
theorem standing?_build (q : String) :
    (build k settings polling handler rs s).1.lifecycle.standing? q =
      if q ∈ (build k settings polling handler rs s).1.names then some ⟨.stopped, 0⟩ else none := by
  rw [build_eq_idle, idle, Lifecycle.standing?_foldl_register]
  simp [names]

/-- Each queue of a listener comes from one of the registrations. -/
theorem madeFrom_of_build {st : Station}
    (hst : st ∈ (build k settings polling handler rs s).1.stations) : MadeFrom k rs handler st :=
  (stationsOf_keeps k handler rs rs [] [] s (fun _ => id) List.nodup_nil (by simp)).2 st hst

/-- What is built is sound. -/
theorem sound_build : (build k settings polling handler rs s).1.Sound where
  names_nodup :=
    (stationsOf_keeps k handler rs rs [] [] s (fun _ => id) List.nodup_nil (by simp)).1
  ids_nodup := List.nodup_nil
  epoch_le p hp := by cases hp
  poller_known p hp := by cases hp
  -- Known are the queues registered, and these are the stations' names.
  standing_known q hq := by
    rw [build_eq_idle, idle, Lifecycle.standing?_foldl_register] at hq
    split at hq
    next h => exact h.1
    next => cases hq
  numbers_nodup := List.nodup_nil
  number_lt j hj := by cases hj
  job_known j hj := by cases hj

end Build

end Listener

end Intake
