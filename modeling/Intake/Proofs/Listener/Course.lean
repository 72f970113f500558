import Intake.Proofs.Listener.Reaction

/-!
# The course of the work on a message

Once the workers have taken a message, its job has milestones: the handler is called,
it ends, the message is being deleted, the deletion ends, the job is settled.  The
milestones of a job are read off the steps of a run, whatever else happens in between.

- `Course`: which milestones a job can have behind it in each phase
- `Ledger`: what the steps of a run say about every message, and `ledger_run`: it holds
  after every run
- `job?_run_of_ne`: between its own stimuli nothing happens to a job
-/

namespace Intake

/-- What an effect means for a job. -/
def Effect.milestone? (n : Nat) : Effect → Option Milestone
  | .invoke m h letter => if m = n then some (.invoked h letter) else none
  | .delete m dest receipt => if m = n then some (.deleting dest receipt) else none
  | _ => none

/-- An effect means nothing for a job for which it is not wanted. -/
private theorem Effect.milestone?_eq_none {e : Effect} {n : Nat} (he : e.job? ≠ some n) :
    e.milestone? n = none := by
  cases e with
  | invoke | delete =>
    refine if_neg fun hn => he ?_
    rw [hn, Effect.job?]
  | _ => rfl

/-- The milestones that the job of a message of a station has behind it in a phase; without
    a phase the work is over. -/
inductive Course (st : Station) (d : Delivery) : Option JobPhase → List Milestone → Prop
  | accepted : Course st d (some .accepted) []
  | handling : Course st d (some .handling) [.invoked st.handler (st.source.letter d)]
  | deleting {r : HandlerResult} (hr : st.source.deletes r = true) : Course st d (some .deleting)
      [.invoked st.handler (st.source.letter d), .ended r,
        .deleting st.source.destination d.receipt]
  | kept {r : HandlerResult} (hr : st.source.deletes r = false) : Course st d none
      [.invoked st.handler (st.source.letter d), .ended r, .settled]
  | gone {r : HandlerResult} (hr : st.source.deletes r = true) (r' : Except BrokerError Unit) :
    Course st d none
      [.invoked st.handler (st.source.letter d), .ended r,
        .deleting st.source.destination d.receipt, .deleted r', .settled]

namespace Step

/-- The messages that a poller goes past. -/
def passings (x : Step) : List Passing :=
  ({ x.before with outbox := [] } : Listener).passedBy x.now x.stimulus

/-- The messages that a poller receives. -/
def received (p : PollerId) (x : Step) : List Delivery := x.before.receivedBy p x.stimulus

/-- The milestones of a job: what it learns, what is wanted for it, and that it is over. -/
def milestones (n : Nat) (x : Step) : List Milestone :=
  (x.before.learned? n x.stimulus).toList ++ x.effects.filterMap (·.milestone? n) ++
    if (x.before.job? n).isSome && (x.after.job? n).isNone then [.settled] else []

end Step

/-- The messages that pollers have gone past, in order. -/
def passed (hist : List Step) : List Passing := hist.flatMap (·.passings)

/-- The messages that a poller has received, in order. -/
def received (p : PollerId) (hist : List Step) : List Delivery := hist.flatMap (·.received p)

/-- The milestones of a job, in order. -/
def milestones (n : Nat) (hist : List Step) : List Milestone := hist.flatMap (·.milestones n)

/-- The jobs so far, as they began. -/
def works (hist : List Step) : List Job := (passed hist).filterMap (·.job?)

/-- The jobs of one more step. -/
theorem works_append (hist : List Step) (x : Step) :
    works (hist ++ [x]) = works hist ++ x.passings.filterMap (·.job?) := by
  simp [works, passed]

/-- The milestones of one more step. -/
private theorem milestones_append (n : Nat) (hist : List Step) (x : Step) :
    milestones n (hist ++ [x]) = milestones n hist ++ x.milestones n := by
  simp [milestones]

namespace Listener

variable {l l' b : Listener} {n : Nat} {j : Job} {hist : List Step} {now : Nat} {s : Stimulus}

/-! ## The ledger -/

/-- What the steps of a run of a listener `b` say about the messages, in a state that the run
    has led to. -/
structure Ledger (b : Listener) (hist : List Step) (l : Listener) : Prop where
  sound : l.Sound
  posts : l.posts = b.posts
  /-- What a poller has received, it has gone past in order or has in hand. -/
  hands : ∀ p, received p hist =
    ((passed hist).filter (·.poller = p)).map (·.delivery) ++ l.hand p
  /-- The messages that were taken are numbered in order. -/
  numbers : (works hist).map (·.number) = List.range l.accepted
  /-- Each job runs its course. -/
  course : ∀ j ∈ works hist, ∃ st, b.station? j.queue = some st ∧
    Course st j.delivery ((l.job? j.number).map (·.phase)) (milestones j.number hist)
  known : ∀ j ∈ l.jobs, { j with phase := .accepted } ∈ works hist
  /-- Nothing has happened under a number that is not given yet. -/
  unborn : ∀ n, l.accepted ≤ n → milestones n hist = []

/-- The number of a job was given out. -/
private theorem Ledger.number_lt (h : Ledger b hist l) (hj : j ∈ works hist) :
    j.number < l.accepted := by
  have hmem := List.mem_map_of_mem (f := Job.number) hj
  rw [h.numbers] at hmem
  exact List.mem_range.mp hmem

/-- Going past messages is no milestone. -/
private theorem Handed.milestones (hs : l.Sound)
    (h : Handed now s { l with outbox := [] } (({ l with outbox := [] } : Listener).after now s))
    (n : Nat) : (l.step now s).milestones n = [] := by
  obtain ⟨es, hout, hes⟩ := h.grown.outbox
  -- A milestone is an effect for the job, what it learns, or its settlement.
  have heffects : (l.step now s).effects.filterMap (·.milestone? n) = [] := by
    have he : (l.step now s).effects = es.reverse := by
      simpa [step, react] using hout
    rw [he]
    refine List.filterMap_eq_nil_iff.mpr fun e hmem => ?_
    exact Effect.milestone?_eq_none (by simp [hes e (List.mem_reverse.mp hmem)])
  -- A job that was there still is.
  have hsettled : ((l.job? n).isSome && ((l.step now s).after.job? n).isNone) = false := by
    cases hj : l.job? n with
    | none => rfl
    | some j =>
      obtain ⟨hmem, rfl⟩ := job?_eq_some hj
      have hsame : (l.step now s).after.job? j.number = l.job? j.number :=
        h.grown.job?_of_lt (hs.number_lt j hmem)
      rw [hsame, hj]
      rfl
  have hbefore : (l.step now s).before = l := rfl
  have hlearned : l.learned? n (l.step now s).stimulus = none := h.learned n
  rw [Step.milestones, heffects, hbefore, hlearned, hsettled]
  rfl

/-- The ledger after a step in which messages were gone past. -/
theorem Ledger.handed (h : Ledger b hist l)
    (hh : Handed now s { l with outbox := [] } (({ l with outbox := [] } : Listener).after now s)) :
    Ledger b (hist ++ [l.step now s]) (l.react now s).1 := by
  -- The outbox, which is emptied between two stimuli, is no part of the ledger.
  have hg : Grown { l with outbox := [] } (l.step now s).passings (l.react now s).1 :=
    ⟨hh.grown.jobs, hh.grown.accepted, hh.grown.numbers, [], rfl, by simp⟩
  have hsound : (l.react now s).1.Sound := h.sound.react now s
  have hposts : (l.react now s).1.posts = b.posts := (posts_react l now s).trans h.posts
  have hmilestones : ∀ n, milestones n (hist ++ [l.step now s]) = milestones n hist := by
    intro n
    rw [milestones_append, hh.milestones h.sound, List.append_nil]
  refine ⟨hsound, hposts, fun p => ?_, ?_, fun j hj => ?_, fun j hj => ?_, fun n hle => ?_⟩
  -- What was in hand and what is received goes past, or is in hand now.
  · have hhand : l.hand p ++ (l.step now s).received p =
        ((l.step now s).passings.filter (·.poller = p)).map (·.delivery) ++
          (l.react now s).1.hand p := hh.hand p
    have hreceived := h.hands p
    simp only [received, passed, List.flatMap_append, List.flatMap_singleton,
      List.filter_append, List.map_append, List.append_assoc] at hreceived ⊢
    rw [← hhand, ← List.append_assoc, ← hreceived]
  -- The new jobs take up the count where it stood.
  · have hnumbers : ((l.step now s).passings.filterMap (·.job?)).map (·.number) =
        List.range' l.accepted ((l.step now s).passings.filterMap (·.job?)).length := hg.numbers
    have hacc : (l.react now s).1.accepted =
        l.accepted + ((l.step now s).passings.filterMap (·.job?)).length := hg.accepted
    rw [works_append, List.map_append, h.numbers, hnumbers, hacc, List.range_eq_range',
      List.range_eq_range', ← List.range'_append_1, Nat.zero_add]
  · rw [hmilestones]
    rw [works_append] at hj
    rcases List.mem_append.mp hj with hj | hj
    · have hsame : (l.react now s).1.job? j.number = l.job? j.number :=
        hg.job?_of_lt (h.number_lt hj)
      rw [hsame]
      exact h.course j hj
    · -- A new job has no milestone behind it.
      have hmem : j ∈ (l.react now s).1.jobs := hg.mem_jobs.mpr (.inr hj)
      obtain ⟨st, hst⟩ := Option.isSome_iff_exists.mp
        (isSome_station?.mpr (hsound.job_known j hmem))
      obtain ⟨slots, hst'⟩ := station?_of_posts hposts.symm hst
      refine ⟨_, hst', ?_⟩
      rw [job?_of_mem hsound hmem, h.unborn j.number (hg.le_number hj), Option.map_some,
        phase_of_mem_filterMap hj]
      exact .accepted
  -- A job is an old one in its phase or a new one that has just been accepted.
  · rw [works_append]
    rcases hg.mem_jobs.mp hj with hj | hj
    · exact List.mem_append_left _ (h.known j hj)
    · have hsame : { j with phase := .accepted } = j := by rw [← phase_of_mem_filterMap hj]
      exact List.mem_append_right _ (hsame ▸ hj)
  · have hacc : (l.react now s).1.accepted =
        l.accepted + ((l.step now s).passings.filterMap (·.job?)).length := hg.accepted
    rw [hmilestones]
    exact h.unborn n (by omega)

section Turns

variable {own : Option Effect} {o : Option JobPhase}

/-- The milestones of a step in which the work on a message turns. -/
private theorem Turned.milestones (hj : l.job? j.number = some j)
    (h : Turned { l with outbox := [] } j own o (({ l with outbox := [] } : Listener).after now s))
    (m : Nat) : (l.step now s).milestones m = (l.learned? m s).toList ++
      own.toList.filterMap (·.milestone? m) ++
        if j.number = m ∧ o = none then [.settled] else [] := by
  obtain ⟨es, hout, hes⟩ := h.outbox
  have heffects : (l.step now s).effects.filterMap (·.milestone? m) =
      own.toList.filterMap (·.milestone? m) := by
    have he : (l.step now s).effects = es.reverse ++ own.toList.reverse := by
      simpa [step, react] using congrArg List.reverse hout
    have hnone : es.reverse.filterMap (·.milestone? m) = [] :=
      List.filterMap_eq_nil_iff.mpr fun e hmem =>
        Effect.milestone?_eq_none (by simp [hes e (List.mem_reverse.mp hmem)])
    rw [he, List.filterMap_append, hnone, List.nil_append]
    cases own <;> rfl
  -- Only the job itself can be gone, and it is gone if it has no phase any more.
  have hsettled : ((l.job? m).isSome && ((l.step now s).after.job? m).isNone) =
      decide (j.number = m ∧ o = none) := by
    have hafter : (l.step now s).after.job? m =
        if j.number = m then o.map ({ j with phase := · }) else l.job? m := h.job? m
    rw [hafter]
    by_cases hm : j.number = m
    · subst hm
      cases o <;> simp [hj]
    · cases l.job? m <;> simp [hm]
  have hbefore : (l.step now s).before = l := rfl
  have hstimulus : (l.step now s).stimulus = s := rfl
  rw [Step.milestones, heffects, hbefore, hstimulus, hsettled]
  simp only [decide_eq_true_eq]

/-- When the work on a message turns, its course goes on. -/
private theorem Turns.course {st : Station} {slots : Slots} {ms : List Milestone}
    (h : Turns l j s own o) (hj : l.job? j.number = some j)
    (hst : l.station? j.queue = some { st with slots })
    (hc : Course st j.delivery (some j.phase) ms) :
    Course st j.delivery o (ms ++ ((l.learned? j.number s).toList ++
      own.toList.filterMap (·.milestone? j.number) ++ if o = none then [.settled] else [])) := by
  -- The phase tells which milestones the job has behind it, and the stimulus which come next.
  cases h with
  | began hs hphase =>
    obtain rfl := Option.some.inj (hs.symm.trans hst)
    rw [hphase] at hc
    cases hc
    simpa [learned?, Effect.milestone?] using Course.handling
  | deleting hs hphase hr =>
    obtain rfl := Option.some.inj (hs.symm.trans hst)
    have hdeletes : st.source.deletes _ = true := hr
    rw [hphase] at hc
    cases hc
    simpa [learned?, hj, hphase, Effect.milestone?] using Course.deleting hdeletes
  | kept hs hphase hr =>
    obtain rfl := Option.some.inj (hs.symm.trans hst)
    have hkeeps : st.source.deletes _ = false := hr
    rw [hphase] at hc
    cases hc
    simpa [learned?, hj, hphase] using Course.kept hkeeps
  | @gone r hphase =>
    rw [hphase] at hc
    cases hc with
    | deleting hr => simpa [learned?, hj, hphase] using Course.gone hr r

/-- The ledger after a step in which the work on a message turns. -/
private theorem Ledger.turned (h : Ledger b hist l) (hj : l.job? j.number = some j)
    (hs : Turns { l with outbox := [] } j s own o)
    (ht : Turned { l with outbox := [] } j own o (({ l with outbox := [] } : Listener).after now s)) :
    Ledger b (hist ++ [l.step now s]) (l.react now s).1 := by
  have hpassings : (l.step now s).passings = [] := by cases hs <;> rfl
  have hworks : works (hist ++ [l.step now s]) = works hist := by
    rw [works_append, hpassings, List.filterMap_nil, List.append_nil]
  -- Other jobs have no milestone in this step.
  have hothers : ∀ m, m ≠ j.number → (l.step now s).milestones m = [] := by
    intro m hm
    have hlearned : l.learned? m s = none := hs.learned?_of_ne hm
    rw [ht.milestones hj, hlearned]
    have hnone : own.toList.filterMap (·.milestone? m) = [] := by
      refine List.filterMap_eq_nil_iff.mpr fun e he => Effect.milestone?_eq_none ?_
      rw [hs.own_job? (Option.mem_toList.mp he)]
      simpa using Ne.symm hm
    simp [hnone, Ne.symm hm]
  have hacc : (l.react now s).1.accepted = l.accepted := ht.accepted
  have hjob : ∀ m, (l.react now s).1.job? m =
      if j.number = m then o.map ({ j with phase := · }) else l.job? m := ht.job?
  refine ⟨h.sound.react now s, (posts_react l now s).trans h.posts, fun p => ?_, ?_,
    fun i hi => ?_, fun i hi => ?_, fun n hle => ?_⟩
  · have hpassed : passed (hist ++ [l.step now s]) = passed hist := by simp [passed, hpassings]
    have hreceived : received p (hist ++ [l.step now s]) = received p hist := by
      have hnone : (l.step now s).received p = [] := by cases hs <;> rfl
      simp [received, hnone]
    have hhand : (l.react now s).1.hand p = l.hand p := ht.hand p
    rw [hpassed, hreceived, hhand]
    exact h.hands p
  · rw [hworks, hacc]
    exact h.numbers
  · rw [hworks] at hi
    obtain ⟨st, hst, hc⟩ := h.course i hi
    refine ⟨st, hst, ?_⟩
    rw [hjob, milestones_append]
    by_cases hm : j.number = i.number
    · -- The job is the one of which the ledger knows under its number.
      have hji : { j with phase := .accepted } = i :=
        List.eq_of_key_eq Job.number (h.numbers ▸ List.nodup_range)
          (h.known j (job?_eq_some hj).1) hi hm
      have hqueue : j.queue = i.queue := (congrArg Job.queue hji :)
      have hdelivery : j.delivery = i.delivery := (congrArg Job.delivery hji :)
      obtain ⟨slots, hslots⟩ := station?_of_posts h.posts (hqueue ▸ hst)
      have hphase : (o.map ({ j with phase := · })).map (·.phase) = o := by cases o <;> rfl
      rw [← hm, hj, Option.map_some, ← hdelivery] at hc
      have hcourse := hs.course hj hslots hc
      rw [if_pos hm, ← hm, ← hdelivery, hphase, ht.milestones hj]
      simp only [true_and]
      exact hcourse
    · rw [if_neg hm, hothers i.number (Ne.symm hm), List.append_nil]
      exact hc
  · rw [hworks]
    obtain ⟨k, hk, he⟩ := ht.mem_jobs i hi
    rw [he]
    exact h.known k hk
  · have hlt := h.sound.number_lt j (job?_eq_some hj).1
    rw [milestones_append, hothers n (by omega), List.append_nil]
    exact h.unborn n (by omega)

end Turns

/-- The steps of a run keep the ledger. -/
theorem Ledger.step (h : Ledger b hist l) (now : Nat) (s : Stimulus) :
    Ledger b (hist ++ [l.step now s]) (l.react now s).1 := by
  cases reacts_react h.sound now s with
  | handed hh => exact h.handed hh
  | turned hj hs ht => exact h.turned hj hs ht

/-- The ledger of a listener that has just been built is empty. -/
theorem ledger_build {σ : Type} (k : Lookup σ) (settings : ListenerSettings) (polling : Polling)
    (handler : String) (rs : List Registration) (s : σ) :
    Ledger (build k settings polling handler rs s).1 []
      (build k settings polling handler rs s).1 where
  sound := sound_build k settings polling handler rs s
  posts := rfl
  hands _ := rfl
  numbers := rfl
  course j hj := by cases hj
  known j hj := by cases hj
  unborn _ _ := rfl

/-- The ledger holds after every run of a listener that was built. -/
theorem ledger_run {σ : Type} (k : Lookup σ) (settings : ListenerSettings) (polling : Polling)
    (handler : String) (rs : List Registration) (s : σ) (xs : List (Nat × Stimulus)) :
    Ledger (build k settings polling handler rs s).1
      ((build k settings polling handler rs s).1.steps xs)
      ((build k settings polling handler rs s).1.run xs) :=
  run_keeps (ledger_build k settings polling handler rs s) (fun _ _ now s h => h.step now s) xs

/-! ## What is wanted for a job -/

/-- Something is wanted for a job only when the work on its message turns. -/
theorem turns_of_mem_effects (hs : l.Sound) {e : Effect} (he : e ∈ (l.step now s).effects)
    (hn : e.job? = some n) :
    ∃ j ∈ l.jobs, j.number = n ∧ ∃ o, Turns { l with outbox := [] } j s (some e) o := by
  have hmem : e ∈ (({ l with outbox := [] } : Listener).after now s).outbox :=
    List.mem_reverse.mp he
  cases reacts_react hs now s with
  | handed hh =>
    -- Going past messages wants nothing for a job.
    obtain ⟨es, hout, hes⟩ := hh.grown.outbox
    rw [hout, List.append_nil] at hmem
    rw [hes e hmem] at hn
    cases hn
  | @turned j own o hj hturns ht =>
    obtain rfl := ht.own_eq rfl hmem hn
    have hnumber := hturns.own_job? rfl
    exact ⟨j, (job?_eq_some hj).1, Option.some.inj (hnumber.symm.trans hn), o, hturns⟩

/-! ## The work goes on -/

/-- Numbers that are given stay given. -/
theorem accepted_le_react (hs : l.Sound) (now : Nat) (s : Stimulus) :
    l.accepted ≤ (l.react now s).1.accepted := by
  cases reacts_react hs now s with
  | handed hh =>
    have hacc : (l.react now s).1.accepted = l.accepted + _ := hh.grown.accepted
    exact hacc ▸ Nat.le_add_right ..
  | turned _ _ ht => exact Nat.le_of_eq ht.accepted.symm

/-- The count of jobs does not go down. -/
theorem accepted_le_run (hs : l.Sound) (xs : List (Nat × Stimulus)) :
    l.accepted ≤ (l.run xs).accepted :=
  (run_keeps (P := fun _ m => m.Sound ∧ l.accepted ≤ m.accepted) ⟨hs, Nat.le_refl _⟩
    (fun _ _ now s hm =>
      ⟨hm.1.react now s, Nat.le_trans hm.2 (accepted_le_react hm.1 now s)⟩) xs).2

/-- A stimulus that is not for a job leaves it as it is. -/
theorem job?_react_of_ne (hs : l.Sound) (hlt : n < l.accepted) (now : Nat)
    (hn : s.job? ≠ some n) : (l.react now s).1.job? n = l.job? n := by
  cases reacts_react hs now s with
  | handed hh => exact hh.grown.job?_of_lt hlt
  | @turned j own o hj hturns ht =>
    have hne : j.number ≠ n := fun he => hn (he ▸ hturns.job?)
    exact (ht.job? n).trans (if_neg hne)

/-- Between the stimuli for a job nothing happens to it. -/
theorem job?_run_of_ne (hs : l.Sound) (hlt : n < l.accepted) {ys : List (Nat × Stimulus)}
    (hn : ∀ y ∈ ys, y.2.job? ≠ some n) : (l.run ys).job? n = l.job? n := by
  -- The induction goes from the first stimulus on; a number that is given stays given.
  induction ys generalizing l with
  | nil => rfl
  | cons y ys ih =>
    have hjob := job?_react_of_ne hs hlt y.1 (hn y List.mem_cons_self)
    have hrest := ih (hs.react y.1 y.2) (Nat.lt_of_lt_of_le hlt (accepted_le_react hs y.1 y.2))
      fun z hz => hn z (List.mem_cons_of_mem y hz)
    exact hrest.trans hjob

end Listener

end Intake
