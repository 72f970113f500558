import Intake.Proofs.Workers.Discipline

/-!
# The first shutdown of a pool

The first shutdown waits until the tasks are over that were at work or waited when it was called,
but not beyond its deadline.  It says whether they were, and turns away whoever still waits.

- `Took.unfinished_of_open`: until whoever waits is turned away, a submission goes on to the end of
  its task
- `Draining`: how far a shutdown in progress has come
- `Drains`: what follows from the first shutdown
- `drains_run`: the first shutdown of every pool is such
- `exists_concludes`: a prompt run goes on promptly until the shutdown has returned
- `idle_or_repeated`, `not_idle_of_repeated`: what it means that a shutdown returns that all is
  done
-/

namespace Intake

namespace ShiftStep

/-- The task of a submission ends or breaks off at a step. -/
def Ends (x : ShiftStep) (n : Nat) : Prop := ∃ b ∈ x.ended, b.number = n

/-- The shutdown in progress returns at a step. -/
structure Concludes (x : ShiftStep) (call : String) (r : Bool) : Prop where
  closing : ∃ c, x.before.closing = some c ∧ c.call = call
  done : x.after.closing = none
  answer : (x.now, .shutDown call r) ∈ x.news

end ShiftStep

namespace Shift

variable {s s' : Shift} {now : Nat} {i : ShiftInput} {es : List (Nat × ShiftEvent)} {n : Nat}
  {e : Nat × Task}

/-- Submissions that have not been turned away and whose tasks are not over. -/
def unfinished (s : Shift) : List Nat := s.busy.map (·.number) ++ s.waiting.map (·.1)

/-! ## What a step does to submissions -/

/-- Unfinished is what is at work or waits. -/
private theorem mem_unfinished : n ∈ s.unfinished ↔
    n ∈ s.busy.map (·.number) ∨ n ∈ s.waiting.map (·.1) :=
  List.mem_append

/-- After the shutdown was called there are no new submissions. -/
private theorem Took.of_unfinished (ht : Took now s i es s') (hrun : s.workers.running = false)
    (hn : n ∈ s'.unfinished) : n ∈ s.unfinished := by
  rw [mem_unfinished] at hn ⊢
  -- Only an accepted submission adds a task, and none is accepted any more.
  cases ht with
  | accepted t ha =>
    have hopen := (Workers.admission_eq_accepted_iff.mp ha).1
    rw [hrun] at hopen
    cases hopen
  | queued t ha =>
    have hopen := (Workers.admission_eq_queued_iff.mp ha).1
    rw [hrun] at hopen
    cases hopen
  | @wentOn e he =>
    rcases hn with hn | hn
    · obtain ⟨b, hb, rfl⟩ := List.mem_map.mp hn
      rcases List.mem_append.mp hb with hb | hb
      · -- The one that goes on had waited before.
        exact .inl (List.mem_map_of_mem hb)
      · rw [List.mem_singleton.mp hb]
        exact .inr (List.mem_map_of_mem he)
    · exact .inr ((List.filter_sublist.map _).subset hn)
  | sentAway => exact hn.imp_right fun hn => (List.filter_sublist.map _).subset hn
  | ended =>
    rw [busy_finish, waiting_finish] at hn
    exact hn.imp_left fun hn => (List.filter_sublist.map _).subset hn
  | _ => exact hn

/-- Until whoever waits is turned away, a submission stays until its task is over. -/
theorem Took.unfinished_of_open (ht : Took now s i es s') (hs : s.Sound)
    (hopen : s.workers.closed = false) (hn : n ∈ s.unfinished) :
    n ∈ s'.unfinished ∨ (⟨now, i, s, s'⟩ : ShiftStep).Ends n := by
  rw [mem_unfinished] at hn ⊢
  cases ht with
  | accepted => exact .inl (hn.imp_left fun hn => by simp [begin, note, hn])
  | queued => exact .inl (hn.imp_right fun hn => by simp [hn])
  | @wentOn e he =>
    refine .inl ?_
    -- Whoever waited waits on, or begins and is at work.
    rcases hn with hn | hn
    · exact .inl (by simp [begin, note, hn])
    · by_cases hne : n = e.1
      · exact .inl (by simp [begin, note, hne])
      · obtain ⟨e', he', rfl⟩ := List.mem_map.mp hn
        exact .inr (List.mem_map_of_mem (List.mem_filter.mpr ⟨he', by simpa using hne⟩))
  | sentAway _ _ hclosed =>
    rw [hopen] at hclosed
    cases hclosed
  | @ended b hb =>
    -- The task that ends is the one, or another one.
    by_cases hne : n = b.number
    · have hended := ShiftStep.ended_of_remove
        (x := ⟨now, .finish b.number, s, s.finish now b⟩) (busy_finish now b s) hs hb
      exact .inr ⟨b, hended ▸ List.mem_cons_self, hne.symm⟩
    · refine .inl ?_
      rw [busy_finish, waiting_finish]
      refine hn.imp_left fun hn => ?_
      obtain ⟨b', hb', rfl⟩ := List.mem_map.mp hn
      exact List.mem_map_of_mem (List.mem_filter.mpr ⟨hb', by simpa using hne⟩)
  | _ => exact .inl hn

/-- What ends is unfinished no more. -/
private theorem Took.not_unfinished (ht : Took now s i es s') (hs : s.Sound)
    (hends : (⟨now, i, s, s'⟩ : ShiftStep).Ends n) : n ∉ s'.unfinished := by
  obtain ⟨b, hb, rfl⟩ := hends
  have hbusy : b ∈ s.busy := (List.mem_filter.mp hb).1
  obtain ⟨hi, -⟩ := (ht.proper hs).ends b hb
  rw [mem_unfinished]
  -- Its number is at work and not in the line, and it is taken away from the work.
  cases ht with
  | unfit =>
    rw [ShiftStep.ended_of_busy_eq rfl] at hb
    cases hb
  | @ended b' hb' =>
    rw [busy_finish, waiting_finish, ← ShiftInput.finish.inj hi]
    rintro (hn | hn)
    · obtain ⟨c, hc, hnumber⟩ := List.mem_map.mp hn
      have hne := (List.mem_filter.mp hc).2
      simp [hnumber, ShiftInput.finish.inj hi] at hne
    · exact hs.apart _ (List.mem_map_of_mem hbusy) (ShiftInput.finish.inj hi ▸ hn)
  | _ => cases hi

/-- A shutdown in progress goes on or returns. -/
private theorem Took.closing_or_concludes (ht : Took now s i es s')
    (hrun : s.workers.running = false) {c : Closing} (hc : s.closing = some c) :
    s'.closing = some c ∨ (s' = s.close now c ∧
      (⟨now, i, s, s'⟩ : ShiftStep).Concludes c.call s.workers.isDrained) := by
  have hnews := ShiftStep.news_eq (x := ⟨now, i, s, s'⟩) ht.events
  -- A shutdown finds the pool shut down; only a close takes the call away.
  cases ht with
  | closing _ _ hopen =>
    rw [hrun] at hopen
    cases hopen
  | ended => exact .inl ((closing_finish ..).trans hc)
  | @closed c' hc' =>
    obtain rfl := Option.some.inj (hc.symm.trans hc')
    exact .inr ⟨rfl, ⟨c, hc, rfl⟩, rfl, by rw [hnews]; exact List.mem_cons_self⟩
  | _ => exact .inl hc

/-- What a shutdown returns with. -/
private theorem Took.of_concludes (ht : Took now s i es s') {call : String} {r : Bool}
    (h : (⟨now, i, s, s'⟩ : ShiftStep).Concludes call r) : r = s.workers.isDrained ∧
      ∃ c, s.closing = some c ∧ s' = s.close now c ∧
        (s.workers.isDrained ∨ c.deadline ≤ now) := by
  have hnews := ShiftStep.news_eq (x := ⟨now, i, s, s'⟩) ht.events
  obtain ⟨⟨c, hc, -⟩, hended, hanswer⟩ := h
  have hcut : s.closing ≠ none := Option.ne_none_iff_exists'.mpr ⟨c, hc⟩
  -- Only a close leaves nothing pending, and only one that was due.
  cases ht with
  | closing => cases hended
  | ended => exact absurd ((closing_finish ..).symm.trans hended) hcut
  | @closed c' hc' hdone =>
    rw [hnews] at hanswer
    refine ⟨?_, c', hc', rfl, hdone⟩
    rcases List.mem_cons.mp hanswer with heq | hmem
    · exact (ShiftEvent.shutDown.inj (Prod.mk.inj heq).2).2
    · cases List.mem_singleton.mp hmem
  | _ => exact absurd hended hcut

/-! ## When whoever waits is turned away -/

/-- The shutdown is over. -/
structure Shut (s : Shift) : Prop where
  sound : s.Sound
  closing : s.closing = none
  stopped : s.workers.running = false
  closed : s.workers.closed

/-- Nothing leads back from the shutdown. -/
theorem Shut.after (h : s.Shut) (now : Nat) (i : ShiftInput) : (s.after now i).Shut := by
  obtain ⟨es, ht⟩ := took_after now s i
  have hs' := h.sound.took ht
  have hstopped : (s.after now i).workers.running = false := by
    rw [ht.running, h.stopped]
    rfl
  -- Another shutdown would have to find the workers running.
  have hclosing : (s.after now i).closing = none := by
    rw [Option.eq_none_iff_forall_ne_some]
    intro c hc
    rcases ht.closing_eq hc with hc | ⟨-, hrun, -⟩
    · cases h.closing.symm.trans hc
    · cases h.stopped.symm.trans hrun
  refine ⟨hs', hclosing, hstopped, ?_⟩
  have hdrain := hs'.closing
  rw [hclosing] at hdrain
  rcases hs'.stopped hstopped with hsome | hclosed
  · rw [← hdrain] at hsome
    cases hsome
  · exact hclosed

/-- After the shutdown no task begins. -/
theorem Shut.begun (h : s.Shut) (now : Nat) (i : ShiftInput) : (s.step now i).begun = [] := by
  obtain ⟨_, ht⟩ := took_after now s i
  unfold Shift.step
  generalize s.after now i = s' at ht ⊢
  -- A pool that was stopped accepts nobody, and a closed one lets nobody go on.
  cases ht with
  | accepted _ ha => cases h.stopped.symm.trans (Workers.admission_eq_accepted_iff.mp ha).1
  | wentOn _ _ hv => cases (Workers.verdict_eq_accepted_iff.mp hv).symm.trans h.closed
  | ended => exact ShiftStep.begun_of_remove (busy_finish ..)
  | _ => exact ShiftStep.begun_of_busy_eq rfl

/-- Shut is what it stays in every run. -/
theorem Shut.run (h : s.Shut) (xs : List (Nat × ShiftInput)) : (s.run xs).Shut :=
  run_keeps (P := fun _ m => m.Shut) h (fun _ _ now i hm => hm.after now i) xs

/-- So it is before each step. -/
private theorem Shut.of_mem_steps (h : s.Shut) {xs : List (Nat × ShiftInput)} {y : ShiftStep}
    (hy : y ∈ s.steps xs) :
    ∃ (m : Shift) (now : Nat) (i : ShiftInput), m.Shut ∧ y = m.step now i := by
  obtain ⟨ys, now, i, rfl⟩ := exists_run_of_mem_steps hy
  exact ⟨_, now, i, h.run ys, rfl⟩

/-- Whoever still waits was told that it is over. -/
private theorem Shut.isCalled (h : s.Shut) (he : e ∈ s.waiting) : s.workers.isCalled e.1 := by
  have hmem : e.1 ∈ s.workers.pending := h.sound.pending ▸ List.mem_map_of_mem he
  rw [Workers.pending, (h.sound.manned.closed h.closed).1, List.append_nil] at hmem
  simpa [Workers.isCalled] using hmem

/-! ## A shutdown in progress -/

/-- How far a shutdown has come that was called in a state. -/
structure Draining (s : Shift) (c : Closing) (hist : List ShiftStep) (m : Shift) : Prop where
  sound : m.Sound
  limit : m.workers.limit < size32
  closing : m.closing = some c
  stopped : m.workers.running = false
  left : ∀ n ∈ m.unfinished, n ∈ s.unfinished
  accounted : ∀ n ∈ s.unfinished, n ∈ m.unfinished ∨ ∃ y ∈ hist, y.Ends n
  ended : ∀ n, (∃ y ∈ hist, y.Ends n) → n ∉ m.unfinished
  admitted : ∀ e ∈ s.waiting, e ∈ m.waiting ∨ ∃ y ∈ hist, y.Returns e.1 e.2 (.ok ())

namespace Draining

variable {c : Closing} {hist : List ShiftStep} {m : Shift}

/-- While it goes on the workers drain. -/
private theorem isSome_drain (h : Draining s c hist m) : m.workers.drain.isSome := by
  rw [← h.sound.closing, h.closing]
  rfl

/-- And the semaphore is open. -/
private theorem isOpen (h : Draining s c hist m) : m.workers.closed = false := by
  obtain ⟨d, hd⟩ := Option.isSome_iff_exists.mp h.isSome_drain
  exact h.sound.manned.open_of_drain hd

/-- It has all workers when all tasks are over that were at work or waited when it was called. -/
theorem isDrained_iff (h : Draining s c hist m) :
    m.workers.isDrained ↔ ∀ n ∈ s.unfinished, ∃ y ∈ hist, y.Ends n := by
  -- All workers are back exactly if nobody works and nobody waits.
  have hnil : m.workers.isDrained ↔ m.unfinished = [] := by
    rw [h.sound.manned.isDrained_iff h.limit h.isSome_drain, h.sound.active, ← h.sound.pending]
    simp [unfinished]
  rw [hnil]
  constructor
  · intro hnone n hn
    have hcases := h.accounted n hn
    rw [hnone] at hcases
    exact hcases.resolve_left nofun
  · intro hall
    rw [List.eq_nil_iff_forall_not_mem]
    exact fun n hn => h.ended n (hall n (h.left n hn)) hn

/-- The shutdown goes on or returns. -/
theorem step (h : Draining s c hist m) (now : Nat) (i : ShiftInput) :
    Draining s c (hist ++ [m.step now i]) (m.after now i) ∨
      ((m.after now i).Shut ∧ (m.step now i).Concludes c.call m.workers.isDrained) := by
  -- It is not over: each field by what the step does with the tasks.
  obtain ⟨es, ht⟩ := took_after now m i
  have hs' := h.sound.took ht
  have hstopped : (m.after now i).workers.running = false := by
    rw [ht.running, h.stopped]
    rfl
  rcases ht.closing_or_concludes h.stopped h.closing with hclosing | ⟨hafter, hconcludes⟩
  · refine .inl ⟨hs', ht.limit.symm ▸ h.limit, hclosing, hstopped,
      fun n hn => h.left n (ht.of_unfinished h.stopped hn), fun n hn => ?_, fun n hn hn' => ?_,
      fun e he => ?_⟩
    · rcases h.accounted n hn with hn | ⟨y, hy, hends⟩
      · refine (ht.unfinished_of_open h.sound h.isOpen hn).imp_right fun hends => ?_
        exact ⟨_, List.mem_append_right _ List.mem_cons_self, hends⟩
      · exact .inr ⟨y, List.mem_append_left _ hy, hends⟩
    · obtain ⟨y, hy, hends⟩ := hn
      rcases List.mem_append.mp hy with hy | hy
      · exact h.ended n ⟨y, hy, hends⟩ (ht.of_unfinished h.stopped hn')
      · rw [List.mem_singleton.mp hy] at hends
        exact ht.not_unfinished h.sound hends hn'
    · rcases h.admitted e he with he | ⟨y, hy, hreturns⟩
      · refine (ht.waits_or_returns h.sound he).imp_right fun hreturns => ?_
        rw [h.isOpen] at hreturns
        exact ⟨_, List.mem_append_right _ List.mem_cons_self, hreturns⟩
      · exact .inr ⟨y, List.mem_append_left _ hy, hreturns⟩
  · refine .inr ⟨⟨hs', ?_, hstopped, ?_⟩, hconcludes⟩
    · rw [hafter]
      rfl
    · rw [hafter]
      rfl

end Draining

/-- The shutdown begins. -/
private theorem draining_of_shutdown (h : s.Sound) (hlimit : s.workers.limit < size32)
    (hrun : s.workers.running) (now : Nat) (call : String) (timeout : Nat) :
    Draining s ⟨call, timeout, now + timeout, s.workers.active⟩ []
      (s.after now (.shutdown call timeout)) := by
  have hs' := h.after now (.shutdown call timeout)
  have hafter : s.after now (.shutdown call timeout) = { s with
      workers := s.workers.beginShutdown
      closing := some ⟨call, timeout, now + timeout, s.workers.active⟩ } := by
    simp only [Shift.after, shutdown, if_pos hrun]
  rw [hafter] at hs' ⊢
  exact ⟨hs', hlimit, rfl, rfl, fun n hn => hn, fun n hn => .inl hn,
    fun n hn => (by obtain ⟨y, hy, -⟩ := hn; cases hy), fun e he => .inl he⟩

/-- A shutdown goes on or has returned. -/
private theorem draining_or_shut {c : Closing} {m : Shift} (h : Draining s c [] m)
    (xs : List (Nat × ShiftInput)) : Draining s c (m.steps xs) (m.run xs) ∨
      ((m.run xs).Shut ∧ ∃ z ∈ m.steps xs, ∃ r, z.Concludes c.call r) := by
  apply run_keeps (P := fun hist m => Draining s c hist m ∨
    (m.Shut ∧ ∃ z ∈ hist, ∃ r, z.Concludes c.call r)) (.inl h)
  intro hist m now i hm
  -- In a pool that is shut the shutdown has returned, and that stays so.
  rcases hm with hm | ⟨hm, z, hz, r, hr⟩
  · refine (hm.step now i).imp_right fun ⟨hshut, hr⟩ => ⟨hshut, ?_⟩
    exact ⟨_, List.mem_append_right _ List.mem_cons_self, _, hr⟩
  · exact .inr ⟨hm.after now i, z, List.mem_append_left _ hz, r, hr⟩

/-! ## The whole shutdown -/

/-- What a shutdown returns with that was called in a state, and what follows. -/
structure Concluded (s : Shift) (call : String) (deadline : Nat) (before : List ShiftStep)
    (z : ShiftStep) (r : Bool) (rest : List ShiftStep) : Prop where
  /-- It returns whether all tasks are over that were at work or waited when it was called. -/
  answer : r = true ↔ ∀ n ∈ s.unfinished, ∃ y ∈ before, y.Ends n
  /-- If so, everybody who waited was accepted. -/
  accepted : r = true → ∀ e ∈ s.waiting, ∃ y ∈ before, y.Returns e.1 e.2 (.ok ())
  not_early : r = false → deadline ≤ z.now
  /-- Whoever still waits is turned away, -/
  turns_away : ∀ e ∈ z.before.waiting,
    Until (e ∈ ·.before.waiting) (·.Returns e.1 e.2 (.error .poolClosed)) rest
  /-- before time goes on. -/
  at_once : Prompt (z :: rest) → ∀ e ∈ z.before.waiting,
    Until (·.now = z.now) (·.Returns e.1 e.2 (.error .poolClosed)) rest
  /-- A task at work goes on until it ends or breaks off. -/
  goes_on : ∀ b ∈ z.before.busy, Until (b ∈ ·.before.busy) (b ∈ ·.ended) (z :: rest)
  none_begins : ∀ y ∈ z :: rest, y.begun = []
  /-- It does not return again. -/
  once : ∀ y ∈ rest, ∀ r', ¬ y.Concludes call r'

/-- What follows from the first shutdown of a pool. -/
structure Drains (earlier : List ShiftStep) (x : ShiftStep) (call : String) (deadline : Nat)
    (later : List ShiftStep) : Prop where
  /-- Submissions are turned away at once. -/
  refuses : ∀ y ∈ later, ∀ t, y.input = .submit t →
    y.Returns y.before.submissions t (.error .poolClosed) ∧ y.begun = [] ∧
      y.after.workers = y.before.workers ∧ y.after.waiting = y.before.waiting
  /-- It returns by its deadline. -/
  in_time : Prompt (earlier ++ x :: later) →
    Until (·.now ≤ deadline) (fun y => ∃ r, y.Concludes call r) later
  /-- Until it has returned it returns as soon as it goes on, if its time is over or all tasks are
      that were at work or waited when it was called. -/
  goes_on : ∀ before y rest, later = before ++ y :: rest → (∀ z ∈ before, ∀ r, ¬ z.Concludes call r) →
    (deadline ≤ y.now ∨ ∀ n ∈ x.before.unfinished, ∃ z ∈ before, z.Ends n) → y.input = .close →
      ∃ r, y.Concludes call r
  /-- Tasks end, and whoever waits goes on, as before. -/
  responsive : ∀ y ∈ later, y.Responsive
  concludes : ∀ before z rest, later = before ++ z :: rest → ∀ r, z.Concludes call r →
    Concluded x.before call deadline before z r rest
  /-- If all tasks are over before the deadline it says so. -/
  drained : Prompt (earlier ++ x :: later) →
    (∀ n ∈ x.before.unfinished, ∃ y ∈ later, y.now < deadline ∧ y.Ends n) →
      ∀ z ∈ later, ∀ r, z.Concludes call r → r = true
  /-- If one of them is not over by the deadline it says so. -/
  cut_off : Prompt (earlier ++ x :: later) → ∀ n ∈ x.before.unfinished,
    (∀ y ∈ later, y.now ≤ deadline → ¬ y.Ends n) →
      ∀ z ∈ later, ∀ r, z.Concludes call r → r = false
  /-- The tasks that are at work have the time that they need. -/
  on_time : Prompt (earlier ++ x :: later) → ∀ y ∈ later,
    (∀ b ∈ y.before.busy, y.now ≤ b.due) ∧ ∀ b ∈ y.ended, y.now = b.due

variable {c : Closing} {m : Shift}

/-- A pool that was stopped turns submissions away at once. -/
private theorem Sound.refuses (h : s.Sound) (hrun : s.workers.running = false) (now : Nat)
    (t : Task) : (s.step now (.submit t)).Returns s.submissions t (.error .poolClosed) ∧
      (s.step now (.submit t)).begun = [] ∧
      (s.after now (.submit t)).workers = s.workers ∧
      (s.after now (.submit t)).waiting = s.waiting := by
  have ha := Workers.admission_eq_refused_iff.mpr hrun
  -- The submission is counted, and refused in the same step.
  have hafter : s.after now (.submit t) =
      ({ s with submissions := s.submissions + 1 }.turnAway now t) := by
    simp only [Shift.after, submit, ha, Workers.submit]
  have hnews : (s.step now (.submit t)).news = [(now, .submitted t.name (.error .poolClosed))] :=
    ShiftStep.news_eq (congrArg events hafter)
  refine ⟨h.returns_submit ((congrArg waiting hafter).trans rfl) ?_, ?_, ?_, ?_⟩
  · rw [← Shift.step, hnews]
    exact List.mem_cons_self
  · exact ShiftStep.begun_of_busy_eq ((congrArg busy hafter).trans rfl)
  · exact (congrArg workers hafter).trans rfl
  · exact (congrArg waiting hafter).trans rfl

/-- A shutdown in progress returns when it goes on, if it has all workers or its time is over. -/
private theorem Draining.concludes_close {hist : List ShiftStep} (h : Draining s c hist m)
    (hdone : m.workers.isDrained ∨ c.deadline ≤ now) :
    (m.step now .close).Concludes c.call m.workers.isDrained := by
  have hafter : m.after now .close = m.close now c := by
    simp [Shift.after, closeDone?, h.closing, hdone]
  -- The shutdown is taken off in this step, so the step concludes it.
  obtain ⟨es, ht⟩ := took_after now m .close
  rcases ht.closing_or_concludes h.stopped h.closing with hgoes | ⟨-, hconcludes⟩
  · rw [hafter] at hgoes
    cases hgoes
  · exact hconcludes

/-- In every state to which a shutdown leads the pool is stopped. -/
theorem Draining.stopped_run (h : Draining s c [] m) (xs : List (Nat × ShiftInput)) :
    (m.run xs).Sound ∧ (m.run xs).workers.running = false := by
  rcases draining_or_shut h xs with h | ⟨h, -⟩
  · exact ⟨h.sound, h.stopped⟩
  · exact ⟨h.sound, h.stopped⟩

/-- A shutdown is in progress until it returns. -/
private theorem Draining.until_concludes {hist : List ShiftStep} (h : Draining s c hist m)
    (xs : List (Nat × ShiftInput)) :
    Until (·.before.closing = some c) (fun y => ∃ r, y.Concludes c.call r) (m.steps xs) := by
  refine until_steps (I := fun m => m.closing = some c ∧ m.workers.running = false)
    (fun _ _ _ hm => hm.1) (fun m now i hm => ?_) ⟨h.closing, h.stopped⟩ xs
  -- Either the shutdown is still in progress after the step or the step concludes it.
  obtain ⟨_, ht⟩ := took_after now m i
  rcases ht.closing_or_concludes hm.2 hm.1 with hclosing | ⟨-, hconcludes⟩
  · refine .inl ⟨hclosing, ?_⟩
    rw [ht.running, hm.2]
    rfl
  · exact .inr ⟨_, hconcludes⟩

/-- Whoever waits after the shutdown is due at once. -/
private theorem Shut.isDue (h : s.Shut) (he : e ∈ s.waiting) (now : Nat) : s.isDue now := by
  by_contra hidle
  have hnot := (isDue_eq_false_iff.mp (Bool.eq_false_iff.mpr hidle)).2.1 e he
  rw [h.isCalled he] at hnot
  cases hnot

/-- Whoever waits when the shutdown is over is turned away. -/
private theorem Shut.waits_or_returns (h : s.Shut ∧ e ∈ s.waiting) (now : Nat) (i : ShiftInput) :
    ((s.after now i).Shut ∧ e ∈ (s.after now i).waiting) ∨
      (s.step now i).Returns e.1 e.2 (.error .poolClosed) := by
  obtain ⟨_, ht⟩ := took_after now s i
  rcases ht.waits_or_returns h.1.sound h.2 with hwaits | hreturns
  · exact .inl ⟨h.1.after now i, hwaits⟩
  · rw [h.1.closed] at hreturns
    exact .inr hreturns

/-- What a shutdown in progress returns with, and what follows. -/
theorem Draining.concluded {hist : List ShiftStep} (h : Draining s c hist m) {call : String}
    {r : Bool} (hz : (m.step now i).Concludes call r) (xs : List (Nat × ShiftInput)) :
    Concluded s call c.deadline hist (m.step now i) r ((m.after now i).steps xs) := by
  obtain ⟨es, ht⟩ := took_after now m i
  obtain ⟨rfl, c', hc', hafter, hdone⟩ := ht.of_concludes hz
  obtain rfl : c = c' := Option.some.inj (h.closing.symm.trans hc')
  -- It has returned, so no shutdown is pending any more.
  have hshut : (m.after now i).Shut := by
    rcases h.step now i with hgoes | ⟨hshut, -⟩
    · cases hgoes.closing.symm.trans hz.done
    · exact hshut
  have hwaiting : (m.after now i).waiting = m.waiting := by
    rw [hafter]
    rfl
  constructor
  case answer => exact h.isDrained_iff
  case accepted =>
    intro hr e he
    -- Whoever waits still is unfinished, and all are over.
    refine (h.admitted e he).resolve_left fun hwaits => ?_
    have hn : e.1 ∈ m.unfinished := mem_unfinished.mpr (.inr (List.mem_map_of_mem hwaits))
    exact h.ended e.1 (h.isDrained_iff.mp hr e.1 (h.left e.1 hn)) hn
  case not_early =>
    intro hr
    exact hdone.resolve_left (by simp [hr])
  case turns_away =>
    intro e he
    exact until_steps (I := fun m => m.Shut ∧ e ∈ m.waiting) (fun _ _ _ hm => hm.2)
      (fun _ now i hm => Shut.waits_or_returns hm now i) ⟨hshut, hwaiting.symm ▸ he⟩ xs
  case at_once =>
    intro hprompt e he
    exact Prompt.until_at_once (I := fun m => m.Shut ∧ e ∈ m.waiting) (x := m.step now i)
      (fun _ u hm => hm.1.isDue hm.2 u) (fun _ now i hm => Shut.waits_or_returns hm now i)
      hprompt ⟨hshut, hwaiting.symm ▸ he⟩
  case goes_on =>
    intro b hb
    refine until_steps (I := fun m => b ∈ m.busy) (fun _ _ _ hm => hm) (fun m now i hm => ?_) hb
      ((now, i) :: xs)
    -- A task at work stays there or ends by the step.
    by_cases hafter : b ∈ (m.after now i).busy
    · exact .inl hafter
    · exact .inr (List.mem_filter.mpr ⟨hm, decide_eq_true hafter⟩)
  case none_begins =>
    intro y hy
    -- By the shutdown's own step nothing begins, and afterwards nothing can.
    rcases List.mem_cons.mp hy with rfl | hy
    · refine ShiftStep.begun_of_busy_eq ?_
      show (m.after now i).busy = m.busy
      rw [hafter]
      rfl
    · obtain ⟨m, now, i, hm, rfl⟩ := hshut.of_mem_steps hy
      exact hm.begun now i
  case once =>
    intro y hy r' hr'
    obtain ⟨m, now, i, hm, rfl⟩ := hshut.of_mem_steps hy
    obtain ⟨c', hc', -⟩ := hr'.closing
    cases hm.closing.symm.trans hc'

/-- A shutdown is in progress when it returns. -/
private theorem Draining.of_cut (h : Draining s c [] m) {xs : List (Nat × ShiftInput)}
    {before rest : List ShiftStep} {z : ShiftStep} (hcut : m.steps xs = before ++ z :: rest)
    {call : String} {r : Bool} (hz : z.Concludes call r) :
    Draining s c before z.before ∧ ∃ (m' : Shift) (now : Nat) (i : ShiftInput) (zs : _),
      z = m'.step now i ∧ rest = z.after.steps zs := by
  obtain ⟨ys, now, i, zs, rfl, rfl, rfl⟩ := exists_cut_of_steps hcut
  refine ⟨?_, _, now, i, zs, rfl, rfl⟩
  -- A pool that is shut has no shutdown to conclude.
  rcases draining_or_shut h ys with hdraining | ⟨hshut, -⟩
  · exact hdraining
  · obtain ⟨c', hc', -⟩ := hz.closing
    cases hshut.closing.symm.trans hc'

/-- What is done before an instant is done before what is done at or after it. -/
private theorem Prompt.mem_of_now_lt {before rest : List ShiftStep} {y z : ShiftStep}
    (h : Prompt (before ++ z :: rest)) (hy : y ∈ before ++ z :: rest) (hlt : y.now < z.now) :
    y ∈ before := by
  rcases List.mem_append.mp hy with hy | hy
  · exact hy
  · -- What comes after the step is not before it in time.
    have hle := (List.pairwise_append.mp h.pairwise).2.1
    rcases List.mem_cons.mp hy with rfl | hy
    · exact absurd hlt (Nat.lt_irrefl _)
    · exact absurd ((List.pairwise_cons.mp hle).1 y hy) (Nat.not_le_of_lt hlt)

/-- In a prompt run what comes earlier is no later. -/
private theorem Prompt.now_le {before rest : List ShiftStep} {y z : ShiftStep}
    (h : Prompt (before ++ z :: rest)) (hy : y ∈ before) : y.now ≤ z.now :=
  (List.pairwise_append.mp h.pairwise).2.2 y hy z List.mem_cons_self

namespace Concluded

variable {call : String} {deadline : Nat} {before rest : List ShiftStep} {z : ShiftStep} {r : Bool}

/-- If all tasks are over before the deadline the shutdown says so. -/
private theorem of_over (h : Concluded s call deadline before z r rest)
    (hordered : Prompt (before ++ z :: rest))
    (hall : ∀ n ∈ s.unfinished, ∃ y ∈ before ++ z :: rest, y.now < deadline ∧ y.Ends n) :
    r = true := by
  by_contra hnot
  -- Otherwise it would not have returned before the deadline, and all tasks were over then.
  have hlate := h.not_early (Bool.eq_false_iff.mpr hnot)
  refine hnot (h.answer.mpr fun n hn => ?_)
  obtain ⟨y, hy, hlt, hends⟩ := hall n hn
  exact ⟨y, hordered.mem_of_now_lt hy (Nat.lt_of_lt_of_le hlt hlate), hends⟩

/-- If a task is not over by the deadline the shutdown says so. -/
private theorem of_not_over (h : Concluded s call deadline before z r rest)
    (hordered : Prompt (before ++ z :: rest)) (hdeadline : z.now ≤ deadline)
    (hn : n ∈ s.unfinished)
    (hnever : ∀ y ∈ before ++ z :: rest, y.now ≤ deadline → ¬ y.Ends n) : r = false := by
  rw [Bool.eq_false_iff]
  intro htrue
  obtain ⟨y, hy, hends⟩ := h.answer.mp htrue n hn
  have hle := Nat.le_trans (hordered.now_le hy) hdeadline
  exact hnever y (List.mem_append_left _ hy) hle hends

end Concluded

/-- The first shutdown of a pool with fewer than 2³² workers returns by its deadline.  It says
    whether all tasks are over that were at work or waited, and whoever still waits is turned
    away while tasks at work go on. -/
theorem drains_run (core limit : Nat) (hlimit : limit < size32) (xs : List (Nat × ShiftInput))
    (hfirst : ∀ x ∈ (ofSize core limit).steps xs, x.input.isShutdown = false) (now : Nat)
    (call : String) (timeout : Nat) (ys : List (Nat × ShiftInput)) :
    Drains ((ofSize core limit).steps xs)
      (((ofSize core limit).run xs).step now (.shutdown call timeout)) call (now + timeout)
      ((((ofSize core limit).run xs).after now (.shutdown call timeout)).steps ys) := by
  have hs := sound_run core limit xs
  have hrun := (log_run (sound_ofSize core limit) rfl rfl rfl rfl xs).running hfirst
  -- The whole run, from the beginning, in which being prompt is a hypothesis.
  have hwhole : (ofSize core limit).steps xs ++
      ((ofSize core limit).run xs).step now (.shutdown call timeout) ::
        (((ofSize core limit).run xs).after now (.shutdown call timeout)).steps ys =
      (ofSize core limit).steps (xs ++ (now, .shutdown call timeout) :: ys) := by
    rw [steps_append]
    rfl
  have hsize : ((ofSize core limit).run xs).workers.limit < size32 := by
    rw [limit_run]
    exact max_lt hlimit (by decide)
  generalize (ofSize core limit).run xs = s at hs hrun hwhole hsize ⊢
  generalize (ofSize core limit).steps xs = earlier at hwhole ⊢
  have hbegun := draining_of_shutdown hs hsize hrun now call timeout
  generalize s.after now (.shutdown call timeout) = m at hwhole hbegun ⊢
  have hlater : ∀ {hist}, Prompt (earlier ++ s.step now (.shutdown call timeout) :: hist) →
      Prompt hist := fun h => List.IsChain.tail (List.IsChain.right_of_append h)
  -- Before each step nothing is overdue.
  have hpunctual : Prompt (earlier ++ s.step now (.shutdown call timeout) :: m.steps ys) →
      ∀ y ∈ m.steps ys, y.before.Punctual y.now := by
    intro hprompt y hy
    refine (hwhole ▸ hprompt).punctual_ofSize y (hwhole ▸ ?_)
    exact List.mem_append_right _ (List.mem_cons_of_mem _ hy)
  have hconcluded : ∀ before z rest, m.steps ys = before ++ z :: rest →
      ∀ r, z.Concludes call r → Concluded s call (now + timeout) before z r rest := by
    intro before z rest hcut r hz
    obtain ⟨hdraining, m', now', i, zs, rfl, rfl⟩ := hbegun.of_cut hcut hz
    exact hdraining.concluded hz zs
  constructor
  case refuses =>
    intro y hy t hsubmit
    obtain ⟨ys', now', i, rfl⟩ := exists_run_of_mem_steps hy
    obtain rfl : i = .submit t := hsubmit
    obtain ⟨hsound, hstopped⟩ := hbegun.stopped_run ys'
    exact hsound.refuses hstopped now' t
  case in_time =>
    intro hprompt
    exact (hbegun.until_concludes ys).imp
      (fun y hy hc => (hpunctual hprompt y hy).closing _ hc) fun _ _ hz => hz
  case goes_on =>
    intro before y rest hcut hnot hover hclose
    -- As long as it has not returned it is draining, so a close that is due returns.
    obtain ⟨zs, now', i, -, rfl, rfl, -⟩ := exists_cut_of_steps hcut
    obtain rfl : i = .close := hclose
    rcases draining_or_shut hbegun zs with hdraining | ⟨-, z, hz, r, hr⟩
    · have hdone := hover.symm.imp_left hdraining.isDrained_iff.mpr
      exact ⟨_, hdraining.concludes_close hdone⟩
    · exact absurd hr (hnot z hz r)
  case responsive =>
    intro y hy
    obtain ⟨ys', now', i, rfl⟩ := exists_run_of_mem_steps hy
    exact (hbegun.stopped_run ys').1.responsive now' i
  case concludes => exact hconcluded
  case drained =>
    intro hprompt hall z hz r hr
    obtain ⟨before, rest, hcut⟩ := List.append_of_mem hz
    have hordered : Prompt (before ++ z :: rest) := hcut ▸ hlater hprompt
    exact (hconcluded before z rest hcut r hr).of_over hordered (hcut ▸ hall)
  case cut_off =>
    intro hprompt n hn hnever z hz r hr
    obtain ⟨before, rest, hcut⟩ := List.append_of_mem hz
    have hordered : Prompt (before ++ z :: rest) := hcut ▸ hlater hprompt
    have hdeadline := (hpunctual hprompt z hz).closing _ (hbegun.of_cut hcut hr).1.closing
    exact (hconcluded before z rest hcut r hr).of_not_over hordered hdeadline hn (hcut ▸ hnever)
  case on_time =>
    intro hprompt y hy
    have hnow := hpunctual hprompt y hy
    refine ⟨hnow.busy, fun b hb => ?_⟩
    obtain ⟨ys', now', i, rfl⟩ := exists_run_of_mem_steps hy
    have hdue := (((hbegun.stopped_run ys').1.proper now' i).ends b hb).2
    exact Nat.le_antisymm (hnow.busy b (List.mem_filter.mp hb).1) hdue

/-- The only worker is at work and a submission waits, which is accepted but not over in time.
    Nothing is put off, so the shutdown returns by its deadline, and says that not all is done. -/
theorem drains_run_cutOff :
    let xs : List (Nat × ShiftInput) := [(0, .submit ⟨"a", 5, false⟩), (0, .submit ⟨"b", 5, true⟩)]
    let x := ((ofSize 1 1).run xs).step 1 (.shutdown "s" 6)
    let later := x.after.steps [(5, .finish 0), (5, .resume 1), (7, .close),
      (8, .submit ⟨"c", 5, false⟩), (10, .finish 1)]
    1 < size32 ∧ (∀ x ∈ (ofSize 1 1).steps xs, x.input.isShutdown = false) ∧
      Prompt ((ofSize 1 1).steps xs ++ x :: later) ∧ Drains ((ofSize 1 1).steps xs) x "s" 7 later ∧
      ∃ z ∈ later, z.now ≤ 7 ∧ z.Concludes "s" false := by
  intro xs x later
  have hprompt : Prompt ((ofSize 1 1).steps xs ++ x :: later) := by decide +kernel
  have hdrains : Drains ((ofSize 1 1).steps xs) x "s" 7 later :=
    drains_run 1 1 (by decide) xs (by decide) 1 "s" 6 _
  refine ⟨by decide, by decide, hprompt, hdrains, ?_⟩
  obtain ⟨y, hy, hlate⟩ : ∃ y ∈ later, ¬ y.now ≤ 7 := by decide
  obtain ⟨z, hz, hle, r, hr⟩ := (hdrains.in_time hprompt).exists_of_not hy hlate
  -- The task of the second submission is not over by then.
  have hnever : ∀ y ∈ later, y.now ≤ 7 → ¬ y.Ends 1 := by
    unfold ShiftStep.Ends
    decide
  obtain rfl := hdrains.cut_off hprompt 1 (by decide) hnever z hz r hr
  exact ⟨z, hz, hle, hr⟩

/-- A run that is prompt until the first shutdown goes on promptly, by what the pool does itself,
    until the shutdown has returned. -/
theorem exists_concludes (core limit : Nat) (hlimit : limit < size32) (xs : List (Nat × ShiftInput))
    (hfirst : ∀ x ∈ (ofSize core limit).steps xs, x.input.isShutdown = false) (now : Nat)
    (call : String) (timeout : Nat) :
    let x := ((ofSize core limit).run xs).step now (.shutdown call timeout)
    Prompt ((ofSize core limit).steps xs ++ [x]) →
      ∃ ys : List (Nat × ShiftInput), (∀ y ∈ ys, y.2.isOwn) ∧
        Prompt ((ofSize core limit).steps xs ++ x :: x.after.steps ys) ∧
        ∃ z ∈ x.after.steps ys, z.now ≤ now + timeout ∧ ∃ r, z.Concludes call r := by
  intro x hprompt
  have hs : x.after.Sound := (sound_run core limit xs).after now (.shutdown call timeout)
  obtain ⟨ys, hown, honward⟩ := Prompt.exists_onward hs (u := now + timeout + 1) (x := x)
    (Nat.le_succ_of_le (Nat.le_add_right now timeout))
  have hwhole : Prompt ((ofSize core limit).steps xs ++
      x :: x.after.steps (ys ++ [(now + timeout + 1, .close)])) :=
    List.isChain_split.mpr ⟨hprompt, honward .close⟩
  refine ⟨_, List.forall_mem_append.mpr ⟨fun y hy => (hown y hy).2, by simp [ShiftInput.isOwn]⟩,
    hwhole, ?_⟩
  -- The last of these steps is made after the deadline.
  have hlast : ∃ y ∈ x.after.steps (ys ++ [(now + timeout + 1, .close)]),
      ¬ y.now ≤ now + timeout := by
    rw [steps_append]
    exact ⟨_, List.mem_append_right _ List.mem_cons_self, Nat.not_succ_le_self _⟩
  obtain ⟨y, hy, hlate⟩ := hlast
  have hdrains := drains_run core limit hlimit xs hfirst now call timeout
    (ys ++ [(now + timeout + 1, .close)])
  exact (hdrains.in_time hwhole).exists_of_not hy hlate

/-! ## What the answer says -/

/-- A shutdown that returns that all is done has all workers, or it was not the first. -/
private theorem Took.of_shutDown (ht : Took now s i es s') {call : String}
    (hnoted : (now, .shutDown call true) ∈ (⟨now, i, s, s'⟩ : ShiftStep).news) :
    ((⟨now, i, s, s'⟩ : ShiftStep).Concludes call true ∧ s.workers.isDrained ∧
      ∃ c, s.closing = some c ∧ s' = s.close now c) ∨
    (s.workers.running = false ∧ (∃ timeout, i = .shutdown call timeout) ∧
      s' = s.note now (.shutDown call true)) := by
  have hnews := ShiftStep.news_eq (x := ⟨now, i, s, s'⟩) ht.events
  have hmem := hnews ▸ hnoted
  cases ht with
  -- Only two steps give the answer: a repeated call, and the close of the pending one.
  | again call' timeout hrun =>
    obtain ⟨-, heq⟩ := Prod.mk.inj (List.mem_singleton.mp hmem)
    obtain rfl := (ShiftEvent.shutDown.inj heq).1
    exact .inr ⟨hrun, ⟨timeout, rfl⟩, rfl⟩
  | @closed c hc =>
    rcases List.mem_cons.mp hmem with heq | hmem
    · obtain ⟨rfl, hdrained⟩ := ShiftEvent.shutDown.inj (Prod.mk.inj heq).2
      exact .inl ⟨⟨⟨c, hc, rfl⟩, rfl, hnoted⟩, hdrained.symm, c, hc, rfl⟩
    · cases List.mem_singleton.mp hmem
  | ended =>
    split at hmem <;> simp at hmem
  | _ => simp at hmem

/-- With fewer than 2³² workers a shutdown that returns that all is done leaves no task at work,
    unless it was not the first: then it returns so at once, whatever is at work. -/
theorem idle_or_repeated (core limit : Nat) (hlimit : limit < size32)
    (xs : List (Nat × ShiftInput)) :
    ∀ x ∈ (ofSize core limit).steps xs, ∀ call, (x.now, .shutDown call true) ∈ x.news →
      (x.Concludes call true ∧ x.after.workers.active = 0 ∧ x.after.busy = []) ∨
      (x.before.workers.running = false ∧ (∃ timeout, x.input = .shutdown call timeout) ∧
        x.after = x.before.note x.now (.shutDown call true)) := by
  intro x hx call hnoted
  obtain ⟨ys, now, i, rfl⟩ := exists_run_of_mem_steps hx
  have hs := sound_run core limit ys
  have hsize : ((ofSize core limit).run ys).workers.limit < size32 := by
    rw [limit_run]
    exact max_lt hlimit (by decide)
  generalize (ofSize core limit).run ys = s at hs hsize hnoted ⊢
  obtain ⟨es, ht⟩ := took_after now s i
  refine (ht.of_shutDown hnoted).imp_left fun ⟨hconcludes, hdrained, c, hc, hafter⟩ => ?_
  -- A close that finds all workers back: none is at work.
  have hsome : s.workers.drain.isSome := by
    rw [← hs.closing, hc]
    rfl
  have hactive := ((hs.manned.isDrained_iff hsize hsome).mp hdrained).1
  have hbusy : s.busy = [] := List.length_eq_zero_iff.mp (hs.active.symm.trans hactive)
  refine ⟨hconcludes, ?_, ?_⟩
  · show (s.after now i).workers.active = 0
    rw [hafter]
    exact hactive
  · show (s.after now i).busy = []
    rw [hafter]
    exact hbusy

/-- The first shutdown has all workers when the task is over, and the second one is not the
    first. -/
theorem idle_or_repeated_twice :
    let xs : List (Nat × ShiftInput) := [(0, .submit ⟨"a", 5, false⟩), (0, .shutdown "s" 10),
      (5, .finish 0), (5, .close), (5, .shutdown "t" 0)]
    1 < size32 ∧ ∀ x ∈ (ofSize 1 1).steps xs, ∀ call, (x.now, .shutDown call true) ∈ x.news →
      (x.Concludes call true ∧ x.after.workers.active = 0 ∧ x.after.busy = []) ∨
      (x.before.workers.running = false ∧ (∃ timeout, x.input = .shutdown call timeout) ∧
        x.after = x.before.note x.now (.shutDown call true)) :=
  ⟨by decide, idle_or_repeated 1 1 (by decide) _⟩

/-- A shutdown that is not the first may return that all is done while a task is at work: the
    first one gave up on it. -/
theorem not_idle_of_repeated :
    ¬ ∀ (core limit : Nat) (xs : List (Nat × ShiftInput)), ∀ x ∈ (ofSize core limit).steps xs,
      ∀ call, (x.now, .shutDown call true) ∈ x.news → x.after.workers.active = 0 := by
  intro h
  let xs : List (Nat × ShiftInput) := [(0, .submit ⟨"a", 50, false⟩), (0, .shutdown "s" 10),
    (10, .close)]
  let x := ((ofSize 1 1).run xs).step 10 (.shutdown "t" 0)
  have hx : x ∈ (ofSize 1 1).steps (xs ++ [(10, .shutdown "t" 0)]) := by
    rw [steps_append]
    exact List.mem_append_right _ List.mem_cons_self
  -- The first shutdown gives up at 10, with the task at work; the second one answers at once.
  have hnoted : (x.now, .shutDown "t" true) ∈ x.news := List.mem_cons_self
  have hactive : x.after.workers.active = 1 := by decide
  have hidle := h 1 1 _ x hx "t" hnoted
  rw [hactive] at hidle
  cases hidle

end Shift

end Intake
