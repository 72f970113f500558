import Intake.Proofs.Listener.Bystander
import Intake.Proofs.Listener.Calls
import Intake.Proofs.Listener.Fate
import Mathlib.Algebra.GroupWithZero.Nat

/-!
# With a worker for each message in hand nobody waits for a worker

A task is at work for each job, and a job holds a slot of its queue.  A message that is about
to be submitted has a slot as well, so with as many workers as all batches together have
messages one is free for it.  This holds as long as the workers take tasks at all, whatever
the queues, the handlers and the pollers of epochs that are over do.

- `length_le_totalBatch`: messages in hand are no more than the batches together
- `Staffed.free_pos`: whoever has taken a slot finds a worker
- `Staffed.move`: each move leaves as many workers free as are not at work
- `unhindered_run`: no poller waits for a worker in any run before the shutdown
-/

namespace Intake

namespace Workers

variable {ι : Type} {w : Workers ι} {i : ι}

/-- Nobody waits: each worker is free or at work. -/
structure AtEase (w : Workers ι) : Prop where
  sum : w.free + w.active = w.limit
  waiting : w.waiting = []
  called : w.called = []
  drain : w.drain = none

/-- Workers just made are at ease. -/
private theorem atEase_ofSize (core limit : Nat) : (ofSize core limit : Workers ι).AtEase :=
  ⟨Nat.add_zero _, rfl, rfl, rfl⟩

/-- Workers that take tasks accept one right away if somebody is free. -/
theorem admission_of_free (hrun : w.running) (hfree : 0 < w.free) : w.admission = .accepted := by
  simp [admission, hrun, hfree]

/-- They are while a free one is taken. -/
private theorem AtEase.submit (h : w.AtEase) (hfree : 0 < w.free) (ha : w.admission = .accepted)
    (i : ι) : (w.submit i).AtEase := by
  have hsum := h.sum
  rw [submit_of_accepted ha]
  exact ⟨by dsimp only; omega, h.waiting, h.called, h.drain⟩

/-- A task that ends leaves one more free. -/
private theorem AtEase.finish_eq (h : w.AtEase) :
    w.finish = { w with active := w.active - 1, free := w.free + 1 } := by
  simp [finish, giveBack, h.waiting, h.drain]

/-- They are at ease after it. -/
private theorem AtEase.finish (h : w.AtEase) (hactive : 0 < w.active) : w.finish.AtEase := by
  have hsum := h.sum
  rw [h.finish_eq]
  exact ⟨by dsimp only; omega, h.waiting, h.called, h.drain⟩

/-- And while they close. -/
private theorem AtEase.close (h : w.AtEase) : w.close.AtEase := by
  refine ⟨?_, rfl, ?_, rfl⟩
  · simpa [Workers.close, h.drain] using h.sum
  · simp [Workers.close, h.waiting, h.called]

end Workers

/-- A message that reaches the workers finds one free, who takes it. -/
def Passing.FindsWorker (limit : Nat) (z : Passing) : Prop :=
  z.fate = .noSlot ∨ z.fate = .outdated ∨ ∃ n, z.fate = .taken n ∧
    z.before.workers.admission = .accepted ∧ 0 < z.before.workers.free ∧
      z.before.workers.active + 1 ≤ limit

/-- From a state of a listener no message has to wait for a worker. -/
structure Listener.Unhindered (l : Listener) : Prop where
  /-- Workers are free or at work on a job. -/
  free : l.workers.free + l.jobs.length = l.workers.limit
  active : l.workers.active = l.jobs.length
  /-- Nobody is in the queue for a worker. -/
  waiting : l.workers.waiting = [] ∧ l.workers.called = []
  /-- No poller waits for a worker with messages in hand. -/
  hands : ∀ x ∈ l.pollers, x.phase.hand = []
  /-- Whatever comes next, a message that reaches the workers is taken in the same step. -/
  taken : ∀ now s, ∀ z ∈ (l.step now s).passings, z.FindsWorker l.workers.limit
  /-- So a poller goes past all messages of a batch in the step in which it receives them. -/
  batch : ∀ now s p, ((l.step now s).passings.filter (·.poller = p)).map (·.delivery) =
    (l.step now s).received p

namespace Listener

variable {G : String → Delivery → Prop} {a : Actor} {l l' m : Listener} {p : PollerId}
  {d : Delivery} {ds : List Delivery} {q : String} {now : Nat} {s : Stimulus}

/-! ## Messages in hand -/

/-- The batch of one more station adds to the total. -/
private theorem totalBatch_cons (s : Station) (stations : List Station) :
    totalBatch (s :: stations) = s.source.options.batch + totalBatch stations := rfl

/-- The total is the sum over the stations. -/
theorem totalBatch_eq_sum (stations : List Station) :
    totalBatch stations = (stations.map (·.source.options.batch)).sum := by
  induction stations with
  | nil => rfl
  | cons s rest ih => rw [totalBatch_cons, ih, List.map_cons, List.sum_cons]

/-- The posts tell how many messages can be in hand. -/
private theorem totalBatch_of_posts (h : l'.posts = l.posts) :
    totalBatch l'.stations = totalBatch l.stations := by
  -- The sizes of the batches are read off the posts.
  have hsum : ∀ m : Listener,
      totalBatch m.stations = (m.posts.map (·.1.options.batch)).sum := by
    intro m
    rw [totalBatch_eq_sum, posts, List.map_map]
    rfl
  rw [hsum, hsum, h]

/-- If no queue has more messages in hand than its batch, all queues together have no more than
    their batches. -/
theorem length_le_totalBatch {stations : List Station} {qs : List String}
    (hmem : ∀ q ∈ qs, q ∈ stations.map (·.source.name))
    (hcount : ∀ s ∈ stations, qs.count s.source.name ≤ s.source.options.batch) :
    qs.length ≤ totalBatch stations := by
  induction stations generalizing qs with
  | nil =>
    have hnil : qs = [] := List.eq_nil_iff_forall_not_mem.mpr fun q hq => by simpa using hmem q hq
    rw [hnil]
    exact Nat.zero_le _
  | cons s rest ih =>
    -- The messages of the first queue are counted apart from the others.
    have hothers : (qs.filter (· ≠ s.source.name)).length ≤ totalBatch rest := by
      apply ih
      · intro q hq
        obtain ⟨hq, hne⟩ := List.mem_filter.mp hq
        have hcons := hmem q hq
        rw [List.map_cons, List.mem_cons] at hcons
        exact hcons.resolve_left (by simpa using hne)
      · intro t ht
        exact Nat.le_trans (List.filter_sublist.count_le _)
          (hcount t (List.mem_cons_of_mem s ht))
    have hsplit : qs.length = qs.count s.source.name + (qs.filter (· ≠ s.source.name)).length := by
      rw [List.length_eq_countP_add_countP (· == s.source.name), List.count,
        ← List.countP_eq_length_filter]
      simp
    have hfirst := hcount s List.mem_cons_self
    rw [totalBatch_cons]
    omega

/-- With one slot loose there are fewer jobs than messages that can be in hand. -/
private theorem Balance.length_jobs_lt (h : l.Balance (some q)) (hs : l.Sound) (hq : q ∈ l.names) :
    l.jobs.length < totalBatch l.stations := by
  have hle : (q :: l.jobs.map (·.queue)).length ≤ totalBatch l.stations := by
    apply length_le_totalBatch
    · -- Each job is of a queue with a station, and no station has more of them than its batch.
      intro j hj
      rcases List.mem_cons.mp hj with rfl | hj
      · exact hq
      · obtain ⟨i, hi, rfl⟩ := List.mem_map.mp hj
        exact hs.job_known i hi
    · intro st hst
      have hsum := (h st hst).2.2
      have hjobs : (l.jobs.map (·.queue)).count st.source.name =
          l.jobs.countP (·.queue = st.source.name) := by
        rw [List.count, List.countP_map]
        exact List.countP_congr fun j _ => by simp
      rw [List.count_cons, hjobs]
      simp only [held, Option.some.injEq] at hsum
      simp only [beq_iff_eq]
      omega
  rwa [List.length_cons, List.length_map] at hle

/-! ## What a move does to the workers -/

/-- Nothing shifts the limit. -/
theorem Shifted.limit {w w' : Workers PollerId} (h : Shifted a w w') : w'.limit = w.limit := by
  cases h with
  | same | draining | closed => rfl
  | submitted => exact Workers.limit_submit ..
  | resumed => exact Workers.limit_resume ..

/-- Workers that take no tasks do not begin to take some. -/
private theorem Shifted.running {w w' : Workers PollerId} (h : Shifted a w w') (hrun : w'.running) :
    w.running := by
  cases h with
  | same | closed => exact hrun
  | submitted => rwa [Workers.running_submit] at hrun
  | resumed => rwa [Workers.running_resume] at hrun
  | draining => cases hrun

/-- An offer does not start or stop the workers. -/
theorem Offered.running {o : Option Fate} (h : Offered l p d o l') :
    l'.workers.running = l.workers.running := by
  -- Taking a slot does not touch the workers.
  have htake : ∀ {m}, l.takeSlot? p.queue = some m → m.workers = l.workers :=
    fun hm => same_takeSlot? (fun _ => rfl) hm
  cases h with
  | noSlot => rfl
  | outdated hm => rw [releaseSlot_workers, htake hm]
  | taken | queued => exact Workers.running_submit ..
  | @refused m =>
    have hworkers : ({ m with workers := l.workers.submit p }.turnAway p.queue).workers =
        l.workers.submit p := releaseSlot_workers _ _
    rw [hworkers, Workers.running_submit]

/-- Only callers stop the workers from taking tasks. -/
private theorem Move.running_eq (hm : Move G (.poller p) l l') :
    l'.workers.running = l.workers.running := by
  cases hm with
  | wentPast => exact (offered ..).running
  | queued => exact ((offered ..).running :)
  | wentOn => rw [workers_offerAgain, Workers.running_resume]; rfl
  | _ => rfl

/-! ## Enough workers -/

/-- Each worker is free or at work on a job, and no poller waits with a message in hand. -/
structure Calm (l : Listener) : Prop where
  atEase : l.workers.AtEase
  active : l.workers.active = l.jobs.length
  hands : ∀ x ∈ l.pollers, x.phase.hand = []

/-- There are as many workers as messages can be in hand, and all is calm as long as the workers
    take tasks. -/
structure Staffed (l : Listener) : Prop where
  sound : l.Sound
  balance : l.Balance none
  enough : totalBatch l.stations ≤ l.workers.limit
  calm : l.workers.running → l.Calm

/-- Whoever has taken a slot finds a worker. -/
theorem Staffed.free_pos (h : l.Staffed) (hrun : l.workers.running) (hm : l.takeSlot? q = some m) :
    0 < l.workers.free := by
  have hbalance := h.balance.take hm h.sound.names_nodup
  obtain ⟨st, hst, -, rfl⟩ := takeSlot?_eq_some_iff.mp hm
  have hsound : (l.updateSlots q (·.acquire 1)).Sound :=
    h.sound.congr (names_updateSlots ..) rfl rfl rfl rfl
  have hknown : q ∈ (l.updateSlots q (·.acquire 1)).names := by
    rw [names_updateSlots]
    exact isSome_station?.mp (hst ▸ rfl)
  have hlt := hbalance.length_jobs_lt hsound hknown
  rw [totalBatch_of_posts (posts_updateSlots ..)] at hlt
  -- The jobs are fewer than the workers, and nobody else keeps a worker.
  have hjobs : (l.updateSlots q (·.acquire 1)).jobs.length = l.jobs.length := rfl
  have hsum := (h.calm hrun).atEase.sum
  have hactive := (h.calm hrun).active
  have henough := h.enough
  omega

/-- As long as the workers take tasks a message that has a slot is taken at once. -/
theorem Staffed.fate (h : l.Staffed) (hrun : l.workers.running) {o : Option Fate}
    (ho : Offered l p d o l') : o = some .noSlot ∨ o = some .outdated ∨
      o = some (.taken l.accepted) ∧ l.workers.admission = .accepted ∧ 0 < l.workers.free ∧
        l.workers.active + 1 ≤ l.workers.limit := by
  -- Who has a slot finds a free worker, so a submission is accepted at once.
  have hadmitted : ∀ {m}, l.takeSlot? p.queue = some m → l.workers.admission = .accepted :=
    fun hm => Workers.admission_of_free hrun (h.free_pos hrun hm)
  cases ho with
  | noSlot => exact .inl rfl
  | outdated => exact .inr (.inl rfl)
  | taken hm =>
    have hfree := h.free_pos hrun hm
    have hsum := (h.calm hrun).atEase.sum
    exact .inr (.inr ⟨rfl, hadmitted hm, hfree, by omega⟩)
  | refused hm _ ha | queued hm _ ha =>
    rw [hadmitted hm] at ha
    cases ha

/-- A poller that is woken has nothing in hand. -/
private theorem hands_releaseSlot (q : String) (h : ∀ x ∈ l.pollers, x.phase.hand = []) :
    ∀ x ∈ (l.releaseSlot q).pollers, x.phase.hand = [] := by
  intro x hx
  -- A poller that is woken waited for slots, so it had nothing in hand.
  rcases releaseSlot_pollers l q with he | he <;> rw [he] at hx
  · exact h x hx
  · obtain ⟨y, hy, rfl⟩ := List.mem_map.mp hx
    rw [y.awake_hand]
    exact h y hy

/-- A message that its poller goes past is left, or a worker is at work on it. -/
private theorem Calm.offered (h : l.Calm) (hs : l.Staffed) (hrun : l.workers.running)
    {o : Option Fate} (ho : Offered l p d o l') : l'.Calm := by
  have htake : ∀ {m}, l.takeSlot? p.queue = some m →
      m.workers = l.workers ∧ m.jobs = l.jobs ∧ m.pollers = l.pollers := by
    intro m hm
    obtain ⟨_, -, -, rfl⟩ := takeSlot?_eq_some_iff.mp hm
    exact ⟨rfl, rfl, rfl⟩
  have hfate := hs.fate hrun ho
  cases ho with
  | noSlot => exact ⟨h.atEase, h.active, h.hands⟩
  | @outdated m hm =>
    -- The slot that comes back may wake pollers, which have nothing in hand.
    obtain ⟨hworkers, hjobs, hpollers⟩ := htake hm
    refine ⟨?_, ?_, fun x hx => ?_⟩
    · rw [releaseSlot_workers, hworkers]
      exact h.atEase
    · rw [releaseSlot_workers, releaseSlot_jobs, hworkers, hjobs]
      exact h.active
    · exact hands_releaseSlot p.queue (hpollers ▸ h.hands) x hx
  | taken hm _ ha =>
    obtain ⟨-, hjobs, hpollers⟩ := htake hm
    refine ⟨h.atEase.submit (hs.free_pos hrun hm) ha p, ?_, ?_⟩
    · have hactive : (l.workers.submit p).active = l.workers.active + 1 := by
        rw [Workers.submit_of_accepted ha]
      simp only [addJob, List.length_append, List.length_singleton, hjobs]
      rw [hactive, h.active]
    · intro x hx
      exact h.hands x (hpollers ▸ hx)
  | refused | queued =>
    rcases hfate with he | he | ⟨he, -⟩ <;> cases he

/-- A poller takes a phase without a message in hand. -/
private theorem Calm.updatePoller (h : l.Calm) {f : Poller → Poller}
    (hf : ∀ x, x.phase.hand = [] → (f x).phase.hand = []) : (l.updatePoller p f).Calm := by
  refine ⟨h.atEase, h.active, fun x hx => ?_⟩
  obtain ⟨y, hy, rfl⟩ := List.mem_map.mp hx
  split
  · exact hf y (h.hands y hy)
  · exact h.hands y hy

/-- Signalling disturbs nobody. -/
theorem Calm.signal (h : l.Calm) (p : PollerId) : (l.signal p).Calm := by
  refine h.updatePoller fun x hx => ?_
  split
  · rfl
  · exact hx

/-- Nor does taking pollers away. -/
private theorem Calm.filterPollers (h : l.Calm) (P : Poller → Bool) :
    ({ l with pollers := l.pollers.filter P } : Listener).Calm :=
  ⟨h.atEase, h.active, fun x hx => h.hands x (List.mem_of_mem_filter hx)⟩

/-- While the workers take tasks every move leaves them calm. -/
theorem Staffed.move (hm : Move G a l l') (h : l.Staffed) : l'.Staffed := by
  refine ⟨h.sound.move hm, h.balance.move hm h.sound, ?_, fun hrun' => ?_⟩
  · rw [totalBatch_of_posts hm.posts_eq, hm.shifted.limit]
    exact h.enough
  · have hrun := hm.shifted.running hrun'
    have hcalm := h.calm hrun
    cases hm with
    | noted | returned | calling | called | finished | stopped | cleared =>
      exact ⟨hcalm.atEase, hcalm.active, hcalm.hands⟩
    | opened =>
      refine ⟨hcalm.atEase, hcalm.active, fun x hx => ?_⟩
      rcases List.mem_append.mp hx with hx | hx
      · exact hcalm.hands x hx
      · rw [List.mem_singleton.mp hx]
        rfl
    | woke | broke => exact hcalm.updatePoller fun _ _ => rfl
    | @asked _ p _ now =>
      have hphase : (l.setPhase p (.receiving now)).Calm := hcalm.updatePoller fun _ _ => rfl
      exact ⟨hphase.atEase, hphase.active, hphase.hands⟩
    | wentPast => exact hcalm.offered h hrun (offered ..)
    -- Neither is any message in hand nor does one come to be.
    | queued _ _ hf =>
      have hfate := h.fate hrun (hf ▸ offered ..)
      simp at hfate
    | wentOn hx hh =>
      have hhand := hcalm.hands _ (poller?_eq_some hx).1
      rw [hh] at hhand
      cases hhand
    | retired => exact ⟨hcalm.atEase, hcalm.active, (hcalm.filterPollers _).hands⟩
    | parked _ hp =>
      refine hcalm.updatePoller fun x hx => ?_
      split
      · rfl
      · exact Phase.hand_of_listens hp
    | draining => cases hrun'
    | closed => exact ⟨hcalm.atEase.close, hcalm.active, hcalm.hands⟩
    | @stopping _ _ q =>
      have hstop : ({ l with lifecycle := l.lifecycle.beginStop q } : Listener).Calm :=
        ⟨hcalm.atEase, hcalm.active, hcalm.hands⟩
      exact hstop.signal _
    | told => exact hcalm.signal _
    | forgot =>
      unfold forgetBroken
      split
      · exact hcalm
      · exact hcalm.filterPollers _

/-! ## Steps and runs -/

/-- Staffing does not look at what is wanted. -/
private theorem Staffed.setOutbox (h : l.Staffed) (es : List Effect) :
    ({ l with outbox := es } : Listener).Staffed where
  sound := h.sound.congr rfl rfl rfl rfl rfl
  balance := h.balance.congr rfl fun _ => rfl
  enough := h.enough
  calm hrun := ⟨(h.calm hrun).atEase, (h.calm hrun).active, (h.calm hrun).hands⟩

/-- Nor does setting a job's phase. -/
private theorem Calm.setJobPhase (h : l.Calm) (n : Nat) (ph : JobPhase) :
    (l.setJobPhase n ph).Calm := by
  refine ⟨h.atEase, ?_, h.hands⟩
  have hlength : (l.setJobPhase n ph).jobs.length = l.jobs.length := List.length_map ..
  rw [hlength]
  exact h.active

/-- With a job its worker gets free. -/
private theorem Calm.settle (h : l.Calm) (hs : l.Sound) {j : Job} (hj : j ∈ l.jobs) :
    (l.settle j).Calm := by
  -- One job fewer, one worker fewer at work.
  have hlength : (l.settle j).jobs.length + 1 = l.jobs.length := by
    have hcount := List.countP_remove hs.numbers_nodup hj fun _ => true
    rw [jobs_settle]
    simpa using hcount
  have hactive := h.active
  refine ⟨?_, ?_, ?_⟩
  · rw [workers_settle]
    exact h.atEase.finish (by omega)
  · rw [workers_settle, h.atEase.finish_eq]
    dsimp only
    omega
  · exact hands_releaseSlot (l := { l with jobs := l.jobs.filter (·.number ≠ j.number) }) j.queue
      h.hands

/-- What is wanted changes nothing for the workers. -/
theorem Calm.emit (h : l.Calm) (e : Effect) : (l.emit e).Calm := ⟨h.atEase, h.active, h.hands⟩

/-- The work on a message leaves the workers calm. -/
private theorem calm_after_job (hs : l.Sound) (h : l.workers.running → l.Calm) (now : Nat)
    (hjob : s.job?.isSome) (hrun : (l.after now s).workers.running) : (l.after now s).Calm := by
  have hparts : (l.after now s).Sound ∧
      ((l.after now s).workers.running → (l.after now s).Calm) := by
    -- Each part of a job keeps the workers calm.
    apply after_forJob_of_parts (P := fun m => m.Sound ∧ (m.workers.running → m.Calm)) now s hjob
      ⟨hs, h⟩
    · exact fun hm => ⟨hm.1.setJobPhase _ _, fun hrun => (hm.2 hrun).setJobPhase _ _⟩
    · exact fun hm => ⟨hm.1.congr rfl rfl rfl rfl rfl, fun hrun => (hm.2 hrun).emit _⟩
    · exact fun hm => ⟨hm.1.congr rfl rfl rfl rfl rfl, fun hrun => (hm.2 hrun).emit _⟩
    · exact fun hm => ⟨hm.1.congr rfl rfl rfl rfl rfl, fun hrun => (hm.2 hrun).emit _⟩
    · intro m j hj ⟨hm, hcalm⟩
      refine ⟨hm.settle j, fun hrun => ?_⟩
      rw [workers_settle, Workers.running_finish] at hrun
      exact (hcalm hrun).settle hm hj
  exact hparts.2 hrun

/-- No step changes the number of workers. -/
theorem limit_react (l : Listener) (now : Nat) (s : Stimulus) :
    (l.react now s).1.workers.limit = l.workers.limit :=
  workers_keeps (P := fun w => w.limit = l.workers.limit) (fun hw h => hw.limit.trans h)
    (fun h => (Workers.limit_finish _).trans h) rfl now

/-- Every step leaves a listener with enough workers, who are calm as long as they take
    tasks. -/
theorem Staffed.react (h : l.Staffed) (now : Nat) (s : Stimulus) : (l.react now s).1.Staffed := by
  have hcleared := h.setOutbox []
  -- A job's stimulus settles a job at the most; all others are moves.
  cases hjob : s.job? with
  | none =>
    have hafter : (({ l with outbox := [] } : Listener).after now s).Staffed := by
      apply after_of_moves (P := Staffed) now s hcleared
      · exact fun hm hm' => hm'.move hm
      · intro hsome
        rw [hjob] at hsome
        cases hsome
    exact hafter.setOutbox []
  | some n =>
    refine ⟨h.sound.react now s, h.balance.react h.sound now s, ?_, fun hrun => ?_⟩
    · rw [totalBatch_of_posts (posts_react l now s), limit_react]
      exact h.enough
    · have hcalm := calm_after_job hcleared.sound hcleared.calm now (by rw [hjob]; rfl) hrun
      exact ⟨hcalm.atEase, hcalm.active, hcalm.hands⟩

/-! ## Messages that reach the workers -/

/-- A poller goes past all messages of a batch, as no message has to wait. -/
private theorem Staffed.passings (h : l.Staffed) (hrun : l.workers.running) (hw : l.AtWork p) :
    (l.passings p ds).map (·.delivery) = ds ∧
      ∀ z ∈ l.passings p ds, z.FindsWorker l.workers.limit := by
  induction ds generalizing l with
  | nil => exact ⟨rfl, fun z hz => by cases hz⟩
  | cons d ds ih =>
    have hoffered := offered l p d
    have hfate := h.fate hrun hoffered
    cases hf : (l.offer p d).1 with
    | none =>
      rw [hf] at hfate
      simp at hfate
    | some f =>
      have hmove : Move (fun _ _ => True) (.poller p) l (l.offer p d).2 :=
        .wentPast hw trivial hf
      -- The message is passed, so the rest are offered in the state after it.
      have hrun' : (l.offer p d).2.workers.running := hoffered.running.trans hrun
      obtain ⟨hrest, hfound⟩ := ih (h.move hmove) hrun' (hoffered.atWork hw)
      rw [passings_cons_of_some hf]
      refine ⟨?_, fun z hz => ?_⟩
      · rw [List.map_cons, hrest]
      · rcases List.mem_cons.mp hz with rfl | hz
        · rw [hf] at hfate
          rcases hfate with he | he | ⟨he, htaken⟩ <;> cases he
          · exact .inl rfl
          · exact .inr (.inl rfl)
          · exact .inr (.inr ⟨_, rfl, htaken⟩)
        · exact hmove.shifted.limit ▸ hfound z hz

/-! ## Before the shutdown -/

/-- Whatever pollers do and happens to messages at work, the workers go on to take tasks. -/
theorem running_react (now : Nat) (hs : ∀ call, s.actor ≠ .caller call) :
    (l.react now s).1.workers.running = l.workers.running := by
  have hafter : (({ l with outbox := [] } : Listener).after now s).workers.running =
      l.workers.running := by
    apply after_of_moves (P := fun m => m.workers.running = l.workers.running) now s
    · rfl
    · -- A poller or a job starts and stops no workers.
      intro m m' hm hrunning
      cases ha : s.actor with
      | caller call => exact absurd ha (hs call)
      | poller p =>
        rw [ha] at hm
        exact hm.running_eq.trans hrunning
      | job n =>
        rw [ha] at hm
        cases hm with
        | noted => exact hrunning
    · intro hjob
      exact workers_after_job (P := fun w => w.running = l.workers.running)
        (fun h => (Workers.running_finish _).trans h) now hjob rfl
  exact hafter

/-- Stopping queues does not make a listener active. -/
private theorem inactive_stopEach (h : l.active = false) (now call : Nat) (goal : CallGoal)
    (qs : List String) : (l.stopEach now call goal qs).active = false :=
  (moves_stopEach (G := fun _ _ => True) now call goal qs).keep (P := fun m => m.active = false)
    (fun hm hm' => hm.inactive hm') h

/-- A listener takes tasks, and no call in hand will end that. -/
structure Open (l : Listener) : Prop where
  running : l.workers.running
  goals : ∀ c ∈ l.calls, c.goal = .stop

namespace Open

/-- Emitting leaves a listener open. -/
private theorem emit (h : l.Open) (e : Effect) : (l.emit e).Open := ⟨h.running, h.goals⟩

/-- So does signalling. -/
private theorem signal (h : l.Open) (p : PollerId) : (l.signal p).Open := ⟨h.running, h.goals⟩

/-- So does a fold of what does. -/
theorem foldl {α : Type} {f : Listener → α → Listener} (hf : ∀ {m} x, m.Open → (f m x).Open)
    (h : l.Open) (xs : List α) : (xs.foldl f l).Open := by
  induction xs generalizing l with
  | nil => exact h
  | cons x xs ih => exact ih (hf x h)

/-- Stopping queues leaves the workers at work. -/
private theorem stopEach (h : l.Open) (now call : Nat) (qs : List String) :
    (l.stopEach now call .stop qs).Open := by
  have hstops := stops_stopEach now call .stop l qs
  generalize l.stopEach now call .stop qs = l' at hstops
  -- A call that returns at once is not in hand; one that stays is a stop, which ends no intake.
  cases hstops with
  | concluded => exact h.emit _
  | stopping =>
    refine ⟨h.running, fun c hc => ?_⟩
    rcases List.mem_append.mp hc with hc | hc
    · exact h.goals c hc
    · rw [List.mem_singleton.mp hc]

/-- So does starting a queue. -/
private theorem startQueue (h : l.Open) (q : String) : (l.startQueue q).Open := by
  unfold Listener.startQueue
  split
  · exact h
  · exact ⟨h.running, h.goals⟩

/-- So does forgetting a broken poller. -/
private theorem forgetBroken (h : l.Open) (p : PollerId) : (l.forgetBroken p).Open := by
  unfold Listener.forgetBroken
  split
  · exact h
  · exact ⟨h.running, h.goals⟩

/-- A call that stops queues goes on with the next one. -/
private theorem proceed (h : l.Open) {c : Call} (hc : c ∈ l.calls) (now : Nat) :
    (l.proceed now c).Open := by
  have hrest : ({ l with calls := l.calls.filter (·.number ≠ c.number) } : Listener).Open :=
    ⟨h.running, fun i hi => h.goals i (List.mem_of_mem_filter hi)⟩
  unfold Listener.proceed
  dsimp only
  split
  -- What is left of the calls are stops.
  next id _ _ =>
    have hnoted := (foldl (f := fun m n => m.report n) (fun n hm => hm.emit (.report n)) hrest
      (stopNotices { l with calls := l.calls.filter (·.number ≠ c.number) } id)).forgetBroken id
    rw [h.goals c hc]
    refine Open.stopEach ?_ now c.number c.rest
    exact ⟨hnoted.running, hnoted.goals⟩
  next => exact ⟨hrest.running, hrest.goals⟩

/-- A step that does not shut the listener down leaves it open. -/
theorem after (h : l.Open) (now : Nat) (hs : ∃ call, s.actor = .caller call)
    (hactive : (l.after now s).active) : (l.after now s).Open := by
  cases s with
  | start call q =>
    unfold Listener.after Listener.start
    dsimp only
    split
    · exact h.emit _
    · split
      · exact h.emit _
      · exact (h.startQueue q).emit _
  | startAll call =>
    unfold Listener.after Listener.startAll
    dsimp only
    split
    · exact h.emit _
    · exact (foldl (fun q hm => hm.startQueue q) h _).emit _
  | stop call q =>
    unfold Listener.after Listener.stop
    dsimp only
    split
    · exact h.emit _
    · split
      · exact h.emit _
      · exact h.stopEach now call [q]
  | stopAll call =>
    unfold Listener.after Listener.stopAll
    dsimp only
    split
    · exact h.emit _
    · exact h.stopEach now call _
  | shutdown call =>
    unfold Listener.after Listener.shutdown at hactive ⊢
    dsimp only at hactive ⊢
    split
    · exact h.emit _
    next ha =>
      -- From now on the listener is not active.
      rw [if_neg ha] at hactive
      rw [inactive_stopEach rfl] at hactive
      cases hactive
  | discard =>
    have hcleared : ({ l with lifecycle := l.lifecycle.clear } : Listener).Open :=
      ⟨h.running, h.goals⟩
    exact foldl (fun p hm => hm.signal p) hcleared _
  | proceed n =>
    unfold Listener.after
    dsimp only
    split
    next c hc =>
      split
      · exact h.proceed (List.mem_of_find?_key hc).1 now
      · exact h
    next => exact h
  | goOn | answer | beginJob | endJob | deleted =>
    obtain ⟨call, hcall⟩ := hs
    cases hcall

end Open

/-- Until the shutdown a listener stays open. -/
theorem open_react (h : l.active → l.Open) (now : Nat) (s : Stimulus)
    (hactive : (l.react now s).1.active) : (l.react now s).1.Open := by
  have hl : l.active := by
    by_contra hne
    rw [inactive_react (by simpa using hne) now s] at hactive
    cases hactive
  -- A caller's stimulus leaves it open if it is active afterwards; others touch no call.
  by_cases hs : ∃ call, s.actor = .caller call
  · have hcleared : ({ l with outbox := [] } : Listener).Open := ⟨(h hl).running, (h hl).goals⟩
    have hafter := hcleared.after now hs hactive
    exact ⟨hafter.running, hafter.goals⟩
  · have hcaller : ∀ call, s.actor ≠ .caller call := fun call he => hs ⟨call, he⟩
    refine ⟨(running_react now hcaller).trans (h hl).running, fun c hc => ?_⟩
    rw [calls_of_desk (desk_react now hcaller)] at hc
    exact (h hl).goals c hc

/-! ## Nobody waits for a worker -/

/-- While all is calm nobody has a message in hand. -/
private theorem Calm.hand (h : l.Calm) (p : PollerId) : l.hand p = [] := by
  cases hx : l.poller? p with
  | none => rw [Listener.hand, hx]; rfl
  | some x => rw [hand_of_poller? hx, h.hands x (poller?_eq_some hx).1]

/-- A message that is gone past in a step finds a worker, if it reaches the workers. -/
private theorem Staffed.findsWorker (h : l.Staffed) (hrun : l.workers.running) {z : Passing}
    (hz : z ∈ l.passedBy now s) : z.FindsWorker l.workers.limit := by
  have hspec := passedBy_spec now s l
  generalize l.passedBy now s = ps at hspec hz
  cases hspec with
  | nobody => cases hz
  | @received p x _ ds hx hphase =>
    have hwoke : (l.setPhase p .ready).Staffed :=
      h.move (Move.woke (G := fun _ _ => True) hx (by rw [hphase]; rfl))
    exact (hwoke.passings hrun (.setPhase_ready hx)).2 z hz
  | waited hx hphase =>
    -- No poller waits for a worker.
    have hhand := (h.calm hrun).hands _ (poller?_eq_some hx).1
    rw [hphase] at hhand
    cases hhand

/-- What is received in a step is gone past in it. -/
private theorem Staffed.batch (h : l.Staffed) (hrun : l.workers.running) (now : Nat) (s : Stimulus)
    (p : PollerId) : ((l.step now s).passings.filter (·.poller = p)).map (·.delivery) =
      (l.step now s).received p := by
  by_cases hs : ∃ call, s.actor = .caller call
  · -- A call hands on no message.
    obtain ⟨call, hcall⟩ := hs
    cases s with
    | goOn | answer | beginJob | endJob | deleted => cases hcall
    | _ => rfl
  · have hrunning := running_react (l := l) now fun call he => hs ⟨call, he⟩
    -- All hands are empty before and after, so whatever is received is handed on.
    have hafter : (l.react now s).1.hand p = [] :=
      ((h.react now s).calm (hrunning.trans hrun)).hand p
    cases reacts_react h.sound now s with
    | turned _ hturns => cases hturns <;> rfl
    | handed hh =>
      have hhand : l.hand p ++ (l.step now s).received p =
          ((l.step now s).passings.filter (·.poller = p)).map (·.delivery) ++
            (l.react now s).1.hand p := hh.hand p
      rw [(h.calm hrun).hand p, hafter, List.nil_append, List.append_nil] at hhand
      exact hhand.symm

/-- With workers for every slot no message has to wait. -/
private theorem Staffed.unhindered (h : l.Staffed) (hrun : l.workers.running) : l.Unhindered where
  free := by
    rw [← (h.calm hrun).active]
    exact (h.calm hrun).atEase.sum
  active := (h.calm hrun).active
  waiting := ⟨(h.calm hrun).atEase.waiting, (h.calm hrun).atEase.called⟩
  hands := (h.calm hrun).hands
  taken _ _ _ hz := (h.setOutbox []).findsWorker hrun hz
  batch := h.batch hrun

section Build

variable {σ : Type} (k : Lookup σ) (settings : ListenerSettings) (polling : Polling)
  (handler : String) (rs : List Registration) (t : σ)

/-- The workers built are of the size asked for. -/
theorem workers_build : (build k settings polling handler rs t).1.workers =
    .ofSize (coreWorkers settings (build k settings polling handler rs t).1.stations)
      (workerLimit settings (build k settings polling handler rs t).1.stations) := rfl

/-- Where the number of workers is not fixed, there is one for each message that can be in
    hand. -/
theorem limit_build (hnone : settings.maxWorkers = none)
    (hfits : totalBatch (build k settings polling handler rs t).1.stations < size64) :
    (build k settings polling handler rs t).1.workers.limit =
      max (totalBatch (build k settings polling handler rs t).1.stations) 1 := by
  have hlimit : workerLimit settings (build k settings polling handler rs t).1.stations =
      totalBatch (build k settings polling handler rs t).1.stations := by
    simp [workerLimit, hnone, sized, Nat.mod_eq_of_lt hfits]
  rw [workers_build, Workers.ofSize, hlimit]

/-- If they are enough for all batches, the listener is staffed. -/
theorem staffed_build
    (henough : totalBatch (build k settings polling handler rs t).1.stations ≤
      (build k settings polling handler rs t).1.workers.limit) :
    (build k settings polling handler rs t).1.Staffed where
  sound := sound_build k settings polling handler rs t
  balance := balance_build k settings polling handler rs t
  enough := henough
  calm _ := ⟨Workers.atEase_ofSize _ _, rfl, fun x hx => by cases hx⟩

/-- In every run of every listener that was built with its own number of workers, the workers
    take tasks until the shutdown, and until then no message waits for a worker, whatever the
    queues, how long the handlers are at work, whether they break off, and which pollers are
    left of epochs that are over. -/
theorem unhindered_run (xs : List (Nat × Stimulus)) (hnone : settings.maxWorkers = none)
    (hfits : totalBatch (build k settings polling handler rs t).1.stations < size64) :
    let b := (build k settings polling handler rs t).1
    let l := b.run xs
    l.workers.limit = max (totalBatch b.stations) 1 ∧ (l.active → l.workers.running) ∧
      (l.workers.running → l.Unhindered) := by
  intro b l
  have hlimit := limit_build k settings polling handler rs t hnone hfits
  have hstaffed : b.Staffed := staffed_build k settings polling handler rs t (by omega)
  -- Along the run: staffed, with the same limit, and open while active.
  have hrun : l.Staffed ∧ l.workers.limit = b.workers.limit ∧ (l.active → l.Open) := by
    apply run_keeps (P := fun _ m => m.Staffed ∧ m.workers.limit = b.workers.limit ∧
      (m.active → m.Open))
    · exact ⟨hstaffed, rfl, fun _ => ⟨rfl, fun c hc => by cases hc⟩⟩
    · intro _ m now s ⟨hm, hl, ho⟩
      exact ⟨hm.react now s, (limit_react m now s).trans hl, open_react ho now s⟩
  exact ⟨hrun.2.1.trans hlimit, fun hactive => (hrun.2.2 hactive).running, hrun.1.unhindered⟩

end Build

/-- A queue is stopped while its poller waits for messages, and started again: both pollers
    receive a batch, and the handler of one message breaks off. -/
theorem unhindered_run_restarted :
    let b := (build Lookup.verbatim .standard .bySlots "h" [⟨"q", .standard, none⟩] ()).1
    let d : Delivery := ⟨none, "r", "x", .empty, .empty⟩
    let l := b.run [(0, .start 0 "q"), (0, .goOn ⟨"q", 1⟩), (1, .stop 1 "q"), (10001, .proceed 1),
      (10001, .start 2 "q"), (10001, .goOn ⟨"q", 2⟩), (10002, .answer ⟨"q", 2⟩ (.batch [d, d, d])),
      (10002, .beginJob 0), (10003, .endJob 0 (.broken none)),
      (10003, .answer ⟨"q", 1⟩ (.batch [d, d]))]
    l.jobs.length = 2 ∧ l.workers.limit = 10 ∧ l.active ∧ l.Unhindered :=
  ⟨by decide, by decide, by decide, (unhindered_run Lookup.verbatim .standard .bySlots "h"
    [⟨"q", .standard, none⟩] () _ rfl (by decide)).2.2 (by decide)⟩

end Listener

end Intake
