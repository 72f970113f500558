import Intake.Proofs.Listener.Course
import Intake.Proofs.Listener.SlotBalance

/-!
# Every message that is received has one fate

A message that a poller has gone past is left to the broker, with its slot free again, or
it is the work of one job, which runs its course whatever else happens.

- `Passing.Fair`: a fate has its reason, and the slot of the message is where it belongs
- `Accounted`: what holds of the messages of a run
- `accounted_run`: it holds of every run of every listener that was built
-/

namespace Intake

/-- A fate has its reason: what was left was left because no slot was free, because the
    poller's epoch was over or because the workers take nothing any more; and what was taken
    is a job.  The slot of what was left is free, and that of what was taken is not. -/
structure Passing.Fair (x : Passing) : Prop where
  noSlot : x.fate = .noSlot → x.before.freeSlots? x.poller.queue = some 0
  outdated : x.fate = .outdated → x.before.isCurrent x.poller = false
  refused : x.fate = .refused → x.before.workers.running = false ∨ x.before.workers.closed = true
  jobs : x.after.jobs = x.before.jobs ++ x.job?.toList
  slots : ∀ q k, x.before.freeSlots? q = some k → ∃ k', x.after.freeSlots? q = some k' ∧
    k' + (if x.job?.isSome ∧ x.poller.queue = q then 1 else 0) =
      k + (if x.waited ∧ x.poller.queue = q then 1 else 0)

/-- How many jobs of a queue are settled in a step. -/
def Step.settled (q : String) (x : Step) : Nat :=
  x.before.jobs.countP (·.queue = q) - x.after.jobs.countP (·.queue = q)

/-- What holds of the messages that the pollers of a listener `b` received in a run that led to
    a state. -/
structure Accounted (b : Listener) (hist : List Step) (l : Listener) : Prop where
  /-- What a poller has received, it has gone past in order, each message with one fate, or
      still has in hand. -/
  in_order : ∀ p, received p hist =
    ((passed hist).filter (·.poller = p)).map (·.delivery) ++ l.hand p
  fair : ∀ x ∈ passed hist, x.Fair
  /-- No two messages are the work of one job. -/
  unique : ∀ (i k : Nat) x y n, (passed hist)[i]? = some x → (passed hist)[k]? = some y →
    x.fate = .taken n → y.fate = .taken n → i = k
  /-- A handler is called, and a deletion is wanted, for messages that were taken only. -/
  owner : ∀ x ∈ hist, ∀ e ∈ x.effects, ∀ n, e.job? = some n →
    ∃ y ∈ passed hist, y.fate = .taken n
  /-- The job of a message that was taken runs its course: its handler is called once, and it
      is settled once, after the handler and the deletion have ended. -/
  course : ∀ x ∈ passed hist, ∀ n, x.fate = .taken n → ∃ st,
    b.station? x.poller.queue = some st ∧
      Course st x.delivery ((l.job? n).map (·.phase)) (milestones n hist)
  /-- Of the steps of the work on messages, just those that settle a job give a slot back. -/
  slots : ∀ x ∈ hist, x.stimulus.job?.isSome → ∀ q k, x.before.freeSlots? q = some k →
    x.after.freeSlots? q = some (k + x.settled q)
  /-- The job is settled once its handler has been called and has ended and the deletion has
      ended, however they end and whatever happens in between. -/
  goes_on : ∀ n, (l.job? n).isSome → ∀ ys ys' ys'' : List (Nat × Stimulus),
    (∀ y ∈ ys ++ ys' ++ ys'', y.2.job? ≠ some n) → ∀ t t' t'' r r',
      (l.run (ys ++ (t, .beginJob n) :: ys' ++ (t', .endJob n r) :: ys'' ++
        [(t'', .deleted n r')])).job? n = none

namespace Listener

variable {l l' b : Listener} {p : PollerId} {d : Delivery} {ds : List Delivery} {q : String}
  {loose : Option String} {hist : List Step} {j : Job} {n : Nat}

/-! ## Fates are fair -/

/-- The free slots are those of the station. -/
theorem freeSlots?_eq_some {k : Nat} :
    l.freeSlots? q = some k ↔ ∃ st, l.station? q = some st ∧ st.slots.free = k :=
  Option.map_eq_some_iff

/-- From one balanced state to another what is free changes against what is held or loose. -/
theorem Balance.freeSlots? {loose' : Option String} (h : l.Balance loose) (h' : l'.Balance loose')
    (hposts : l'.posts = l.posts) {k : Nat} (hk : l.freeSlots? q = some k) :
    ∃ k', l'.freeSlots? q = some k' ∧
      k' + l'.held q + (if loose' = some q then 1 else 0) =
        k + l.held q + if loose = some q then 1 else 0 := by
  obtain ⟨st, hst, rfl⟩ := freeSlots?_eq_some.mp hk
  obtain ⟨slots, hslots⟩ := station?_of_posts hposts hst
  refine ⟨slots.free, freeSlots?_eq_some.mpr ⟨_, hslots, rfl⟩, ?_⟩
  -- Both sums make up the same batch size.
  have hsum := h.sum hst
  have hsum' := h'.sum hslots
  dsimp only at hsum hsum'
  omega

/-- The held slots after a message was gone past. -/
private theorem Offered.held {f : Fate} (h : Offered l p d (some f) l') (q : String) :
    l'.held q = l.held q +
      if (Passing.job? ⟨p, d, f, false, l, l'⟩).isSome ∧ p.queue = q then 1 else 0 := by
  have htake : ∀ {m : Listener}, l.takeSlot? p.queue = some m → m.held q = l.held q :=
    fun hm => same_takeSlot? (f := (·.held q)) (fun _ => rfl) hm
  cases h with
  | noSlot => rfl
  | outdated hm => rw [held_releaseSlot, htake hm]; rfl
  -- The job holds the slot that was free.
  | taken hm =>
    have hheld := htake hm
    simp only [Listener.held, addJob, List.countP_append, List.countP_singleton] at hheld ⊢
    simp only [Passing.job?, Option.isSome_some, true_and, decide_eq_true_eq]
    omega
  | @refused m hm =>
    have hheld := held_releaseSlot { m with workers := l.workers.submit p } p.queue q
    exact (hheld.trans (htake hm :) :)

/-- A message handed on again holds what it held, as a job or not at all. -/
private theorem held_offerAgain (l : Listener) (p : PollerId) (d : Delivery) (q : String) :
    (l.offerAgain p d).2.held q = l.held q +
      if (Passing.job? ⟨p, d, (l.offerAgain p d).1, true, l, (l.offerAgain p d).2⟩).isSome ∧
        p.queue = q then 1 else 0 := by
  unfold offerAgain
  dsimp only
  -- A waiter who is admitted holds the slot through a new job, else the slot comes back.
  split
  · simp only [Listener.held, addJob, List.countP_append, List.countP_singleton]
    simp only [Passing.job?, Option.isSome_some, true_and, decide_eq_true_eq]
    omega
  · exact held_releaseSlot { l with workers := l.workers.resume p } p.queue q

/-- An offer with a fate is fair. -/
theorem Offered.fair {f : Fate} (h : Offered l p d (some f) l') (hs : l.Sound)
    (hb : l.Balance none) (hw : l.AtWork p) : Passing.Fair ⟨p, d, f, false, l, l'⟩ where
  noSlot hf := by
    -- The queue of a poller is registered, so there are slots that could be free.
    obtain ⟨x, hx, -⟩ := hw
    obtain ⟨hmem, rfl⟩ := poller?_eq_some hx
    obtain ⟨st, hst⟩ := Option.isSome_iff_exists.mp
      (isSome_station?.mpr (hs.poller_known _ (List.mem_map_of_mem hmem)))
    subst hf
    cases h with
    | noSlot hm => exact freeSlots?_eq_some.mpr ⟨st, hst, takeSlot?_eq_none_iff.mp hm st hst⟩
  outdated hf := by
    subst hf
    cases h with
    | outdated _ hc => exact hc
  refused hf := by
    subst hf
    cases h with
    | refused _ _ ha =>
      refine .inl ?_
      show l.workers.running = false
      cases hrun : l.workers.running with
      | false => rfl
      | true =>
        -- As long as the workers run they take a message or let it wait.
        unfold Workers.admission at ha
        rw [hrun] at ha
        split at ha
        · contradiction
        · split at ha <;> cases ha
  jobs := by
    have hjobs := h.grown.jobs
    cases hjob : Passing.job? ⟨p, d, f, false, l, l'⟩ <;> simpa [hjob] using hjobs
  slots q k hk := by
    obtain ⟨k', hk', hsum⟩ := hb.freeSlots? (by simpa using h.balance hb hs.names_nodup)
      h.posts_eq hk
    refine ⟨k', hk', ?_⟩
    -- What was taken is held now, and what was left is free.
    have hheld := h.held q
    simp only [Bool.false_eq_true, false_and, reduceCtorEq, if_false] at hsum ⊢
    omega

/-- So is handing one on again. -/
theorem fair_offerAgain (hb : l.Balance (some p.queue)) (d : Delivery) :
    Passing.Fair ⟨p, d, (l.offerAgain p d).1, true, l, (l.offerAgain p d).2⟩ where
  noSlot hf := by
    unfold offerAgain at hf
    dsimp only at hf
    split at hf <;> cases hf
  outdated hf := by
    unfold offerAgain at hf
    dsimp only at hf
    split at hf <;> cases hf
  refused hf := by
    unfold offerAgain at hf
    dsimp only at hf
    split at hf
    next => cases hf
    next hv =>
      refine .inr ?_
      show l.workers.closed = true
      unfold Workers.verdict at hv
      simpa using hv
  jobs := by
    have hjobs := (grown_offerAgain l p d).jobs
    cases hjob : Passing.job? ⟨p, d, (l.offerAgain p d).1, true, l, (l.offerAgain p d).2⟩ <;>
      simpa [hjob] using hjobs
  slots q k hk := by
    obtain ⟨k', hk', hsum⟩ := hb.freeSlots? (hb.offerAgain d) (posts_offerAgain l p d) hk
    refine ⟨k', hk', ?_⟩
    -- The slot with which the poller waited goes to the job or comes back.
    have hheld := held_offerAgain l p d q
    simp only [Option.some.injEq, reduceCtorEq, if_false, true_and] at hsum ⊢
    omega

/-- So are all passings of a batch. -/
private theorem fair_passings (hs : l.Sound) (hb : l.Balance none) (hw : l.AtWork p) {x : Passing}
    (hx : x ∈ l.passings p ds) : x.Fair := by
  induction ds generalizing l with
  | nil => cases hx
  | cons d ds ih =>
    have hoffered := offered l p d
    cases hf : (l.offer p d).1 with
    | none =>
      rw [passings_cons_of_none hf] at hx
      cases hx
    | some f =>
      rw [passings_cons_of_some hf] at hx
      rw [hf] at hoffered
      rcases List.mem_cons.mp hx with rfl | hx
      · exact hoffered.fair hs hb hw
      -- The rest is offered from a state that is sound and balanced again.
      · exact ih (hoffered.sound hs) (by simpa using hoffered.balance hb hs.names_nodup)
          (hoffered.atWork hw) hx

/-- So are all passings of a step. -/
private theorem fair_passedBy (hs : l.Sound) (hb : l.Balance none) {now : Nat} {s : Stimulus}
    {x : Passing} (hx : x ∈ l.passedBy now s) : x.Fair := by
  unfold passedBy at hx
  split at hx
  -- A receive call returns a batch.
  next p ds =>
    split at hx
    next y hy =>
      split at hx
      next since hphase =>
        exact fair_passings (hs.setPhase p .ready)
          (hb.setPhase hs.ids_nodup hy (by rw [hphase]; rfl) rfl) (.setPhase_ready hy) hx
      next => cases hx
    next => cases hx
  -- A poller that waited for a worker goes on.
  next p =>
    split at hx
    next y hy =>
      split at hx
      next d ds hphase =>
        split at hx
        next hc =>
          have hready : (l.setPhase p .ready).Sound := hs.setPhase p .ready
          have hloose : (l.setPhase p .ready).Balance (some p.queue) :=
            hb.wentOn hs.ids_nodup hy hphase
          have hknown : p.queue ∈ (l.setPhase p .ready).names := by
            obtain ⟨hmem, rfl⟩ := poller?_eq_some hy
            exact hs.poller_known _ (List.mem_map_of_mem hmem)
          rcases List.mem_cons.mp hx with rfl | hx
          · exact fair_offerAgain hloose d
          · exact fair_passings (hready.offerAgain hknown d) (hloose.offerAgain d)
              (AtWork.setPhase_ready hy).offerAgain hx
        next => cases hx
      next => cases hx
    next => cases hx
  next => cases hx

/-! ## Slots of settled jobs -/

/-- The work on messages takes no slot of a waiting poller, and adds no job. -/
private theorem counts_settle (l : Listener) (j : Job) (q : String) :
    (l.settle j).pollers.countP (Poller.holds q) = l.pollers.countP (Poller.holds q) ∧
      (l.settle j).jobs.countP (·.queue = q) ≤ l.jobs.countP (·.queue = q) := by
  have hpollers : (l.settle j).pollers.countP (Poller.holds q) =
      l.pollers.countP (Poller.holds q) :=
    countP_releaseSlot (l := { l with jobs := l.jobs.filter (·.number ≠ j.number) })
      fun x => by simp [Poller.holds]
  exact ⟨hpollers, jobs_settle l j ▸ List.filter_sublist.countP_le⟩

/-- In a step of the work on a message as many slots of a queue come back as jobs of it are
    settled. -/
theorem freeSlots?_react (hs : l.Sound) (hb : l.Balance none) {now : Nat} {s : Stimulus}
    (hjob : s.job?.isSome) {k : Nat} (hk : l.freeSlots? q = some k) :
    (l.react now s).1.freeSlots? q = some (k + (l.step now s).settled q) := by
  have hcounts : (l.react now s).1.pollers.countP (Poller.holds q) =
      l.pollers.countP (Poller.holds q) ∧
      (l.react now s).1.jobs.countP (·.queue = q) ≤ l.jobs.countP (·.queue = q) := by
    refine after_forJob (l := { l with outbox := [] })
      (P := fun m => m.pollers.countP (Poller.holds q) = l.pollers.countP (Poller.holds q) ∧
        m.jobs.countP (·.queue = q) ≤ l.jobs.countP (·.queue = q))
      now s hjob ⟨rfl, Nat.le_refl _⟩ ?_ ?_ ?_
    -- Only a job that is settled goes, whether after its handler or after its deletion.
    · intro j _ _
      unfold beginJob
      split
      · exact ⟨rfl, Nat.le_refl _⟩
      · exact ⟨rfl, Nat.le_of_eq (List.countP_change_eq fun _ _ _ => rfl)⟩
    · intro j _ _ r
      unfold endJob
      split
      · exact ⟨rfl, Nat.le_refl _⟩
      · dsimp only
        split
        · refine ⟨?_, Nat.le_of_eq ?_⟩
          · cases r.failure? <;> rfl
          · cases r.failure? <;> exact List.countP_change_eq fun _ _ _ => rfl
        · cases r.failure? <;> exact counts_settle _ j q
    · intro j _ _ r
      unfold finishDelete
      cases r <;> exact counts_settle _ j q
  -- As the pollers hold what they held, the slots that come back are those of jobs.
  obtain ⟨k', hk', hsum⟩ := hb.freeSlots? (hb.react hs now s) (posts_react l now s) hk
  have hsettled : (l.step now s).settled q =
      l.jobs.countP (·.queue = q) - (l.react now s).1.jobs.countP (·.queue = q) := rfl
  simp only [held, reduceCtorEq, if_false, Nat.add_zero] at hsum
  rw [hk', hsettled]
  congr 1
  omega

/-! ## The work goes on -/

/-- A job that is told to begin calls its handler. -/
private theorem phase_beginJob (hs : l.Sound) (now n : Nat) :
    ∀ j, (l.react now (.beginJob n)).1.job? n = some j → j.phase ≠ .accepted := by
  intro i hi
  have hafter : (({ l with outbox := [] } : Listener).after now (.beginJob n)).job? n = some i := hi
  cases hj : l.job? n with
  | none =>
    have hj' : ({ l with outbox := [] } : Listener).job? n = none := hj
    simp [after, hj'] at hafter
  | some j =>
    obtain ⟨hmem, rfl⟩ := job?_eq_some hj
    have hj' : ({ l with outbox := [] } : Listener).job? j.number = some j := hj
    by_cases hphase : j.phase = .accepted
    · obtain ⟨st, hst⟩ := Option.isSome_iff_exists.mp (isSome_station?.mpr (hs.job_known j hmem))
      have hjob := (turned_beginJob (l := { l with outbox := [] }) hst hj').job? j.number
      simp only [after, hj', hphase, if_true] at hafter
      rw [if_pos rfl, hafter] at hjob
      cases hjob
      simp
    -- A job that has begun already is left as it is.
    · simp only [after, hj', hphase, if_false] at hafter
      cases hafter
      exact hphase

/-- Once its handler has ended, a job is over but for the deletion. -/
private theorem phase_endJob (hs : l.Sound) (h : ∀ j, l.job? n = some j → j.phase ≠ .accepted)
    (now : Nat) (r : HandlerResult) :
    ∀ j, (l.react now (.endJob n r)).1.job? n = some j → j.phase = .deleting := by
  intro i hi
  have hafter : (({ l with outbox := [] } : Listener).after now (.endJob n r)).job? n = some i := hi
  cases hj : l.job? n with
  | none =>
    have hj' : ({ l with outbox := [] } : Listener).job? n = none := hj
    simp [after, hj'] at hafter
  | some j =>
    obtain ⟨hmem, rfl⟩ := job?_eq_some hj
    have hj' : ({ l with outbox := [] } : Listener).job? j.number = some j := hj
    by_cases hphase : j.phase = .handling
    · obtain ⟨st, hst⟩ := Option.isSome_iff_exists.mp (isSome_station?.mpr (hs.job_known j hmem))
      obtain ⟨own, o, hturns, hturned⟩ :=
        turned_endJob (l := { l with outbox := [] }) hst hj' hphase r
      have hjob := hturned.job? j.number
      simp only [after, hj', hphase, if_true] at hafter
      rw [if_pos rfl, hafter] at hjob
      cases hturns with
      | deleting =>
        cases hjob
        rfl
      | kept => cases hjob
    -- No handler is at work, and the job has begun: only the deletion is left.
    · simp only [after, hj', hphase, if_false] at hafter
      rw [← Option.some.inj hafter]
      cases hp : j.phase with
      | accepted => exact absurd hp (h j hj)
      | handling => exact absurd hp hphase
      | deleting => rfl

/-- Once the deletion has ended, a job is over. -/
private theorem gone_deleted (h : ∀ j, l.job? n = some j → j.phase = .deleting) (now : Nat)
    (r : Except BrokerError Unit) : (l.react now (.deleted n r)).1.job? n = none := by
  show (({ l with outbox := [] } : Listener).after now (.deleted n r)).job? n = none
  cases hj : l.job? n with
  | none =>
    have hj' : ({ l with outbox := [] } : Listener).job? n = none := hj
    -- Only a job whose deletion is out is settled by its end; no other one has the number.
    simp [after, hj']
  | some j =>
    obtain ⟨-, rfl⟩ := job?_eq_some hj
    have hj' : ({ l with outbox := [] } : Listener).job? j.number = some j := hj
    simp only [after, hj', h j hj, if_true]
    exact ((turned_finishDelete _ j r).job? j.number).trans (if_pos rfl)

/-- The work on a message ends, whatever happens in between. -/
theorem gone_run (hs : l.Sound) (hj : (l.job? n).isSome) {ys ys' ys'' : List (Nat × Stimulus)}
    (hn : ∀ y ∈ ys ++ ys' ++ ys'', y.2.job? ≠ some n) (t t' t'' : Nat) (r : HandlerResult)
    (r' : Except BrokerError Unit) :
    (l.run (ys ++ (t, .beginJob n) :: ys' ++ (t', .endJob n r) :: ys'' ++
      [(t'', .deleted n r')])).job? n = none := by
  simp only [List.append_assoc, List.mem_append] at hn
  have hlt : n < l.accepted := by
    obtain ⟨j, hj⟩ := Option.isSome_iff_exists.mp hj
    obtain ⟨hmem, rfl⟩ := job?_eq_some hj
    exact hs.number_lt j hmem
  -- The states in which the job is told something, one after another.
  have hs₁ := (sound_run hs ys).react t (.beginJob n)
  have hlt₁ := Nat.lt_of_lt_of_le (Nat.lt_of_lt_of_le hlt (accepted_le_run hs ys))
    (accepted_le_react (sound_run hs ys) t (.beginJob n))
  have hs₂ := (sound_run hs₁ ys').react t' (.endJob n r)
  have hlt₂ := Nat.lt_of_lt_of_le (Nat.lt_of_lt_of_le hlt₁ (accepted_le_run hs₁ ys'))
    (accepted_le_react (sound_run hs₁ ys') t' (.endJob n r))
  simp only [List.append_assoc, List.cons_append, run_append, run_cons, run_nil]
  refine gone_deleted (fun j hj => ?_) t'' r'
  rw [job?_run_of_ne hs₂ hlt₂ fun y hy => hn y (.inr (.inr hy))] at hj
  refine phase_endJob (sound_run hs₁ ys') (fun i hi => ?_) t' r j hj
  rw [job?_run_of_ne hs₁ hlt₁ fun y hy => hn y (.inr (.inl hy))] at hi
  exact phase_beginJob (sound_run hs ys) t n i hi

/-! ## The account -/

/-- No two messages are the work of one job. -/
private theorem Ledger.unique (h : Ledger b hist l) {i k : Nat} {x y : Passing}
    (hx : (passed hist)[i]? = some x) (hy : (passed hist)[k]? = some y)
    (hi : x.fate = .taken n) (hk : y.fate = .taken n) : i = k := by
  -- Jobs are numbered in order, and each place in the history counts for itself.
  have hnodup : ((passed hist).filterMap fun x => x.job?.map (·.number)).Nodup := by
    have hnumbers := h.numbers
    rw [works, List.map_filterMap] at hnumbers
    exact hnumbers ▸ List.nodup_range
  rw [List.Nodup, List.pairwise_filterMap, List.pairwise_iff_getElem] at hnodup
  obtain ⟨hilt, rfl⟩ := List.getElem?_eq_some_iff.mp hx
  obtain ⟨hklt, rfl⟩ := List.getElem?_eq_some_iff.mp hy
  have hnumber : ∀ {z : Passing}, z.fate = .taken n → z.job?.map (·.number) = some n := by
    intro z hz
    simp [Passing.job?, hz]
  rcases Nat.lt_trichotomy i k with hlt | heq | hlt
  · exact absurd rfl (hnodup i k hilt hklt hlt n (hnumber hi) n (hnumber hk))
  · exact heq
  · exact absurd rfl (hnodup k i hklt hilt hlt n (hnumber hk) n (hnumber hi))

/-- What is wanted is wanted for a job, and a job was a message that was taken before. -/
private theorem Ledger.owner (h : Ledger b hist l) {now : Nat} {s : Stimulus} {e : Effect}
    (he : e ∈ (l.step now s).effects) (hn : e.job? = some n) :
    ∃ y ∈ passed hist, y.fate = .taken n := by
  obtain ⟨j, hj, rfl, -⟩ := turns_of_mem_effects h.sound he hn
  obtain ⟨y, hy, hjob⟩ := List.mem_filterMap.mp (h.known j hj)
  exact ⟨y, hy, (Passing.job?_eq_some_iff.mp hjob).1⟩

/-- In every run of every listener that was built each message that was received has one fate,
    and what was taken runs its course. -/
theorem accounted_run {σ : Type} (k : Lookup σ) (settings : ListenerSettings) (polling : Polling)
    (handler : String) (rs : List Registration) (s : σ) (xs : List (Nat × Stimulus)) :
    let b := (build k settings polling handler rs s).1
    Accounted b (b.steps xs) (b.run xs) ∧ ∀ st ∈ b.stations, MadeFrom k rs handler st := by
  intro b
  have hledger : ∀ ys, Ledger b (b.steps ys) (b.run ys) := ledger_run k settings polling handler rs s
  have hbalance : ∀ ys, (b.run ys).Balance none :=
    balance_run (sound_build k settings polling handler rs s)
      (balance_build k settings polling handler rs s)
  refine ⟨⟨(hledger xs).hands, ?_, ?_, ?_, ?_, ?_, ?_⟩,
    fun st hst => madeFrom_of_build k settings polling handler rs s hst⟩
  -- The message was gone past in a step of the run.
  · intro x hx
    obtain ⟨y, hy, hmem⟩ := List.mem_flatMap.mp hx
    obtain ⟨ys, now, s', -, rfl, -⟩ := exists_run_of_mem_steps hy
    have hs : ({ b.run ys with outbox := [] } : Listener).Sound :=
      (hledger ys).sound.congr rfl rfl rfl rfl rfl
    have hb : ({ b.run ys with outbox := [] } : Listener).Balance none :=
      (hbalance ys).congr rfl fun _ => rfl
    exact fair_passedBy hs hb hmem
  · intro i k x y n hx hy hi hk
    exact (hledger xs).unique hx hy hi hk
  · intro x hx e he n hn
    obtain ⟨ys, now, s', later, rfl, hcut⟩ := exists_run_of_mem_steps hx
    obtain ⟨y, hy, hfate⟩ := (hledger ys).owner he hn
    refine ⟨y, ?_, hfate⟩
    rw [hcut, passed, List.flatMap_append]
    exact List.mem_append_left _ hy
  · intro x hx n hn
    have hwork : (⟨n, x.poller.queue, x.delivery, .accepted⟩ : Job) ∈ works (b.steps xs) :=
      List.mem_filterMap.mpr ⟨x, hx, Passing.job?_eq_some_iff.mpr ⟨hn, rfl, rfl, rfl⟩⟩
    exact (hledger xs).course _ hwork
  · intro x hx hjob q k hk
    obtain ⟨ys, now, s', -, rfl, -⟩ := exists_run_of_mem_steps hx
    exact freeSlots?_react (hledger ys).sound (hbalance ys) hjob hk
  · intro n hn ys ys' ys'' hother t t' t'' r r'
    exact gone_run (hledger xs).sound hn hother t t' t'' r r'

/-- A poller that is stopped while it waits for the only worker hands on the message for which
    it waits, and leaves the rest. -/
example :
    let b := (build Lookup.verbatim { ListenerSettings.standard with maxWorkers := some 1 } .bySlots
      "h" [⟨"q", .standard, none⟩] ()).1
    let d : Delivery := ⟨none, "r", "x", .empty, .empty⟩
    let hist := b.steps [(0, .start 0 "q"), (0, .goOn ⟨"q", 1⟩),
      (1, .answer ⟨"q", 1⟩ (.batch [d, d, d])), (1, .beginJob 0), (2, .stop 1 "q"),
      (3, .endJob 0 (.broken none)), (3, .goOn ⟨"q", 1⟩)]
    (passed hist).map (·.fate) = [.taken 0, .taken 1, .outdated] := by
  decide

end Listener

end Intake
