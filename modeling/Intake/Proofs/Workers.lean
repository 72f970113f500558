import Intake.Workers

/-!
# Where the workers are, and who waits for one

Until whoever waits is turned away, each worker is free, at work, handed to a ticket that has
not gone on yet, or kept for the shutdown.  Tickets go on from the line in the order in which
they joined it, and nobody is in the line while a worker is free.

- `Manned`: where each worker is
- `Manned.finish`: a worker that comes back is accounted for again
- `pending_finish`: to be handed a worker does not change the order of the tickets
- `Manned.isDrained_iff`: the shutdown has all workers when nothing is left to do
-/

namespace Intake.Workers

variable {ι : Type} {w : Workers ι} {i j : ι}

/-! ## What the operations leave alone -/

/-- Submitting does not change the limit. -/
@[simp] theorem limit_submit (w : Workers ι) (i : ι) : (w.submit i).limit = w.limit := by
  unfold submit
  split <;> rfl

/-- Nor whether the workers run. -/
@[simp] theorem running_submit (w : Workers ι) (i : ι) : (w.submit i).running = w.running := by
  unfold submit
  split <;> rfl

/-- Resuming does not change the limit. -/
@[simp] theorem limit_resume [DecidableEq ι] (w : Workers ι) (i : ι) :
    (w.resume i).limit = w.limit := by
  unfold resume
  dsimp only
  split <;> rfl

/-- Nor whether the workers run. -/
@[simp] theorem running_resume [DecidableEq ι] (w : Workers ι) (i : ι) :
    (w.resume i).running = w.running := by
  unfold resume
  dsimp only
  split <;> rfl

/-- A worker that comes back leaves the rest of the pool alone. -/
private theorem finish_eq (w : Workers ι) : w.finish = { w with
    active := w.active - 1, free := w.finish.free, waiting := w.finish.waiting
    called := w.finish.called, drain := w.finish.drain } := by
  unfold finish giveBack
  -- The worker that comes free goes to the next in line, to the drain, or back to the free ones.
  split
  · rfl
  · split
    · split <;> rfl
    · rfl

/-- A task that ends does not change the limit. -/
@[simp] theorem limit_finish (w : Workers ι) : w.finish.limit = w.limit := by
  rw [finish_eq]

/-- Nor whether the workers run. -/
@[simp] theorem running_finish (w : Workers ι) : w.finish.running = w.running := by
  rw [finish_eq]

/-- Submitting does not close the semaphore. -/
@[simp] theorem closed_submit (w : Workers ι) (i : ι) : (w.submit i).closed = w.closed := by
  unfold submit
  split <;> rfl

/-- Nor does resuming. -/
@[simp] theorem closed_resume [DecidableEq ι] (w : Workers ι) (i : ι) :
    (w.resume i).closed = w.closed := by
  unfold resume
  dsimp only
  split <;> rfl

/-- Nor does a task that ends. -/
@[simp] theorem closed_finish (w : Workers ι) : w.finish.closed = w.closed := by
  rw [finish_eq]

/-- How many workers the shutdown waits for, if there is one. -/
def wanted? (w : Workers ι) : Option Nat := w.drain.map (·.2)

/-- A worker that comes back does not change what the shutdown waits for. -/
@[simp] theorem wanted?_finish (w : Workers ι) : w.finish.wanted? = w.wanted? := by
  unfold finish giveBack wanted?
  -- The drain gets a worker more at most; what it wants stays.
  split
  · rfl
  · split
    next hd =>
      have hdrain : w.drain = _ := hd
      split <;> simp [hdrain]
    · rfl

/-- A worker that comes back neither begins nor ends a shutdown. -/
@[simp] theorem isSome_drain_finish (w : Workers ι) : w.finish.drain.isSome = w.drain.isSome := by
  simpa [wanted?] using congrArg Option.isSome (wanted?_finish w)

/-- Submitting does not change what a drain waits for. -/
@[simp] theorem wanted?_submit (w : Workers ι) (i : ι) : (w.submit i).wanted? = w.wanted? := by
  unfold submit
  split <;> rfl

/-- Nor does resuming. -/
@[simp] theorem wanted?_resume [DecidableEq ι] (w : Workers ι) (i : ι) :
    (w.resume i).wanted? = w.wanted? := by
  unfold resume
  dsimp only
  split <;> rfl

/-- A task that ends leaves one fewer at work. -/
@[simp] theorem active_finish (w : Workers ι) : w.finish.active = w.active - 1 := by
  rw [finish_eq]

/-! ## Tickets that were called -/

section Called

variable [DecidableEq ι]

/-- Whoever has been called stays called when another one submits. -/
theorem isCalled_submit (h : w.isCalled i) (j : ι) : (w.submit j).isCalled i := by
  unfold submit
  split <;> exact h

/-- A ticket that goes on leaves the others called. -/
theorem isCalled_resume (h : w.isCalled i) (hij : i ≠ j) : (w.resume j).isCalled i := by
  have hmem : i ∈ w.called.erase j := (List.mem_erase_of_ne hij).mpr (by simpa [isCalled] using h)
  unfold resume
  dsimp only
  split <;> simpa [isCalled] using hmem

/-- Whoever has been called stays called when a task ends. -/
theorem isCalled_finish (h : w.isCalled i) : w.finish.isCalled i := by
  have hmem : i ∈ w.called := by simpa [isCalled] using h
  simp only [isCalled, finish, giveBack, decide_eq_true_eq]
  split
  · exact List.mem_append_left _ hmem
  · split
    · split <;> exact hmem
    · exact hmem

/-- Whoever has been called stays called when the workers close. -/
theorem isCalled_close (h : w.isCalled i) : w.close.isCalled i := by
  have hmem : i ∈ w.called := by simpa [isCalled] using h
  simpa [isCalled, close] using List.mem_append_left _ hmem

end Called

/-! ## The line -/

/-- Tickets that have not gone on, in the order in which they joined the line. -/
def pending (w : Workers ι) : List ι := w.called ++ w.waiting

/-- The first in the line is handed the worker that comes back. -/
theorem finish_of_cons {rest : List ι} (h : w.waiting = i :: rest) : w.finish =
    { w with active := w.active - 1, waiting := rest, called := w.called ++ [i] } := by
  simp only [finish, giveBack, h]

/-- An accepted submission takes a free worker. -/
theorem submit_of_accepted (h : w.admission = .accepted) (i : ι) :
    w.submit i = { w with free := w.free - 1, active := w.active + 1 } := by
  rw [submit, h]

/-- A queued one is put at the end of the line. -/
private theorem submit_of_queued (h : w.admission = .queued) (i : ι) :
    w.submit i = { w with waiting := w.waiting ++ [i] } := by
  rw [submit, h]

/-- A called ticket gets its worker, unless whoever waits was turned away. -/
theorem resume_of_open [DecidableEq ι] (h : w.closed = false) (i : ι) :
    w.resume i = { w with called := w.called.erase i, active := w.active + 1 } := by
  simp [resume, verdict, h]

/-- Once closed, whoever was called goes away without a worker. -/
theorem resume_of_closed [DecidableEq ι] (h : w.closed) (i : ι) :
    w.resume i = { w with called := w.called.erase i } := by
  simp [resume, verdict, h]

/-- A queued submission is the last of those pending. -/
theorem pending_submit_of_queued (h : w.admission = .queued) (i : ι) :
    (w.submit i).pending = w.pending ++ [i] := by
  rw [submit_of_queued h]
  exact (List.append_assoc ..).symm

/-- Any other one is not pending. -/
theorem pending_submit (h : w.admission ≠ .queued) (i : ι) :
    (w.submit i).pending = w.pending := by
  unfold submit
  split
  · rfl
  · rfl
  next hq => exact absurd hq h

/-- To be handed a worker does not change the order of the tickets. -/
@[simp] theorem pending_finish (w : Workers ι) : w.finish.pending = w.pending := by
  unfold finish giveBack pending
  split
  -- The next in line is called, so it stays in the same place among those pending.
  next i rest h =>
    have hwaiting : w.waiting = i :: rest := h
    simp [hwaiting]
  · split
    · split <;> rfl
    · rfl

/-- Closing leaves everyone pending: they have not heard of it yet. -/
@[simp] theorem pending_close (w : Workers ι) : w.close.pending = w.pending := by
  simp [pending, close]

/-- Whoever resumes is no longer pending. -/
theorem pending_resume [DecidableEq ι] (h : w.isCalled i) :
    (w.resume i).pending = w.pending.erase i := by
  have hmem : i ∈ w.called := by simpa [isCalled] using h
  unfold resume pending
  rw [List.erase_append_left _ hmem]
  dsimp only
  split <;> rfl

/-! ## Where each worker is -/

/-- Workers that a shutdown keeps. -/
def kept (w : Workers ι) : Nat :=
  match w.drain with
  | some (held, _) => held
  | none => 0

/-- A worker that comes back is free, or handed to a ticket, or kept. -/
theorem free_finish (w : Workers ι) : w.finish.free + w.finish.called.length + w.finish.kept =
    w.free + w.called.length + w.kept + 1 := by
  unfold finish giveBack
  -- The worker goes to the first in the line, or to the drain, or to the free ones.
  split
  next i rest _ =>
    show w.free + (w.called ++ [i]).length + w.kept = w.free + w.called.length + w.kept + 1
    rw [List.length_append, List.length_singleton]
    omega
  · split
    next held wanted hd =>
      have hkept : w.kept = held := by rw [kept, show w.drain = some (held, wanted) from hd]
      split
      · show w.free + w.called.length + (held + 1) = w.free + w.called.length + w.kept + 1
        omega
      · show w.free + 1 + w.called.length + w.kept = w.free + w.called.length + w.kept + 1
        omega
    next =>
      show w.free + 1 + w.called.length + w.kept = w.free + w.called.length + w.kept + 1
      omega

/-- Each worker of a pool is accounted for. -/
structure Manned (w : Workers ι) : Prop where
  limit_pos : 0 < w.limit
  active_le : w.active ≤ w.limit
  /-- Until whoever waits is turned away, a worker is free, at work, handed to a ticket, or kept
      for the shutdown. -/
  sum : w.closed = false → w.free + w.active + w.called.length + w.kept = w.limit
  /-- Nobody is in the line while a worker is free, or is kept for a shutdown. -/
  line : w.waiting ≠ [] → w.free = 0 ∧ w.kept = 0
  running : w.running → w.drain = none
  closed : w.closed → w.waiting = [] ∧ w.running = false ∧ w.drain = none
  /-- A shutdown waits for as many workers as there are, counted in 32 bits, and leaves none
      free until it has them. -/
  wanted : ∀ held wanted, w.drain = some (held, wanted) →
    held ≤ wanted ∧ wanted = w.limit % size32 ∧ (held < wanted → w.free = 0)

/-! ## Each operation accounts for the workers -/

/-- A submission is accepted if the workers run and one of them is free. -/
theorem admission_eq_accepted_iff : w.admission = .accepted ↔ w.running ∧ 0 < w.free := by
  unfold admission
  cases w.running <;> simp [Nat.pos_iff_ne_zero]

/-- Queued if they run and none is free. -/
theorem admission_eq_queued_iff : w.admission = .queued ↔ w.running ∧ w.free = 0 := by
  unfold admission
  cases w.running <;> simp

/-- Refused if they do not run. -/
theorem admission_eq_refused_iff : w.admission = .refused ↔ w.running = false := by
  unfold admission
  cases w.running with
  | false => simp
  | true => by_cases hfree : 0 < w.free <;> simp [hfree]

/-- Whoever was called gets a worker unless the semaphore is closed. -/
theorem verdict_eq_accepted_iff : w.verdict = .accepted ↔ w.closed = false := by
  unfold verdict
  cases w.closed <;> simp

namespace Manned

/-- Workers that run are open. -/
theorem open_of_running (h : w.Manned) (hrun : w.running) : w.closed = false := by
  cases hc : w.closed with
  | false => rfl
  | true =>
    rw [(h.closed hc).2.1] at hrun
    cases hrun

/-- So are workers that drain. -/
theorem open_of_drain (h : w.Manned) {d : Nat × Nat} (hd : w.drain = some d) :
    w.closed = false := by
  cases hc : w.closed with
  | false => rfl
  | true =>
    rw [(h.closed hc).2.2] at hd
    cases hd

/-- While they run, no drain keeps any worker. -/
theorem kept_of_running (h : w.Manned) (hrun : w.running) : w.kept = 0 := by
  rw [kept, h.running hrun]

/-- Workers just made are manned. -/
theorem ofSize (core limit : Nat) : (Workers.ofSize core limit : Workers ι).Manned where
  limit_pos := Nat.le_max_right limit 1
  active_le := Nat.zero_le _
  sum _ := rfl
  line hne := absurd rfl hne
  running _ := rfl
  closed hc := by cases hc
  wanted _ _ hd := by cases hd

/-- Submitting keeps the workers manned. -/
theorem submit (h : w.Manned) (i : ι) : (w.submit i).Manned := by
  unfold Workers.submit
  split
  next => exact h
  next ha =>
    -- A worker is free, so nobody is in the line.
    obtain ⟨hrun, hfree⟩ := admission_eq_accepted_iff.mp ha
    have hsum := h.sum (h.open_of_running hrun)
    refine ⟨h.limit_pos, ?_, fun _ => ?_, fun hne => ?_, h.running, h.closed,
      fun held wanted hd => ?_⟩
    · show w.active + 1 ≤ w.limit
      omega
    · show w.free - 1 + (w.active + 1) + w.called.length + w.kept = w.limit
      omega
    · have hnone := (h.line hne).1
      omega
    · have hnone := h.running hrun
      rw [show w.drain = some (held, wanted) from hd] at hnone
      cases hnone
  next ha =>
    obtain ⟨hrun, hfree⟩ := admission_eq_queued_iff.mp ha
    refine ⟨h.limit_pos, h.active_le, h.sum, fun _ => ⟨hfree, h.kept_of_running hrun⟩, h.running,
      fun hc => ?_, h.wanted⟩
    cases (h.open_of_running hrun).symm.trans hc

/-- So does resuming, of whoever was called. -/
theorem resume [DecidableEq ι] (h : w.Manned) (hi : w.isCalled i) : (w.resume i).Manned := by
  have hmem : i ∈ w.called := by simpa [isCalled] using hi
  have hpos := List.length_pos_of_mem hmem
  have hlength := List.length_erase_of_mem hmem
  unfold Workers.resume
  dsimp only
  split
  next hv =>
    have hsum := h.sum (verdict_eq_accepted_iff.mp hv)
    refine ⟨h.limit_pos, ?_, fun _ => ?_, h.line, h.running, h.closed, h.wanted⟩
    · show w.active + 1 ≤ w.limit
      omega
    · show w.free + (w.active + 1) + (w.called.erase i).length + w.kept = w.limit
      omega
  next hv =>
    -- Whoever waited is turned away, and the workers are not accounted for any more.
    refine ⟨h.limit_pos, h.active_le, fun hopen => ?_, h.line, h.running, h.closed, h.wanted⟩
    exact absurd (verdict_eq_accepted_iff.mpr hopen) hv

/-- The first in the line is handed the worker that comes back. -/
theorem finish_of_cons (h : w.Manned) (hactive : 0 < w.active) {rest : List ι}
    (hwaiting : w.waiting = i :: rest) : w.finish.Manned := by
  have hle := h.active_le
  rw [Workers.finish_of_cons hwaiting]
  refine ⟨h.limit_pos, ?_, fun hopen => ?_, fun _ => h.line (by simp [hwaiting]), h.running,
    fun hc => ?_, h.wanted⟩
  · show w.active - 1 ≤ w.limit
    omega
  · -- The one called has the worker that comes free.
    have hsum := h.sum hopen
    show w.free + (w.active - 1) + (w.called ++ [i]).length + w.kept = w.limit
    rw [List.length_append, List.length_singleton]
    omega
  · -- Nobody waits once the semaphore is closed.
    have hnil := (h.closed hc).1
    rw [hwaiting] at hnil
    cases hnil

/-- A shutdown that lacks workers gets the one that comes back. -/
private theorem finish_of_lacking (h : w.Manned) (hactive : 0 < w.active)
    (hwaiting : w.waiting = [])
    {held wanted : Nat} (hd : w.drain = some (held, wanted)) (hlt : held < wanted) :
    w.finish.Manned := by
  obtain ⟨-, hwanted, hfree⟩ := h.wanted held wanted hd
  have hle := h.active_le
  have hopen := h.open_of_drain hd
  have hsum := h.sum hopen
  have hkept : w.kept = held := by rw [kept, hd]
  -- The worker given back is one more for the drain.
  have heq : w.finish = { w with active := w.active - 1, drain := some (held + 1, wanted) } := by
    simp [Workers.finish, giveBack, hwaiting, hd, hlt]
  rw [heq]
  refine ⟨h.limit_pos, ?_, fun _ => ?_, fun hne => absurd hwaiting hne, fun hrun => ?_,
    fun hc => ?_, fun held' wanted' hd' => ?_⟩
  · show w.active - 1 ≤ w.limit
    omega
  · show w.free + (w.active - 1) + w.called.length + (held + 1) = w.limit
    omega
  · cases hd.symm.trans (h.running hrun)
  · cases hopen.symm.trans hc
  · obtain ⟨rfl, rfl⟩ := Prod.mk.inj (Option.some.inj hd')
    exact ⟨hlt, hwanted, fun _ => hfree hlt⟩

/-- Otherwise it is free. -/
private theorem finish_of_free (h : w.Manned) (hactive : 0 < w.active) (hwaiting : w.waiting = [])
    (hd : ∀ held wanted, w.drain = some (held, wanted) → ¬ held < wanted) : w.finish.Manned := by
  have hle := h.active_le
  -- No drain lacks a worker, so the one given back is free.
  have heq : w.finish = { w with active := w.active - 1, free := w.free + 1 } := by
    unfold Workers.finish giveBack
    simp only [hwaiting]
    split
    next held wanted hdrain => rw [if_neg (hd held wanted hdrain)]
    next => rfl
  rw [heq]
  refine ⟨h.limit_pos, ?_, fun hopen => ?_, fun hne => absurd hwaiting hne, h.running, h.closed,
    fun held wanted hdrain => ?_⟩
  · show w.active - 1 ≤ w.limit
    omega
  · have hsum := h.sum hopen
    show w.free + 1 + (w.active - 1) + w.called.length + w.kept = w.limit
    omega
  · obtain ⟨hheld, hwanted, -⟩ := h.wanted held wanted hdrain
    exact ⟨hheld, hwanted, fun hlt => absurd hlt (hd held wanted hdrain)⟩

/-- A worker that comes back is accounted for again. -/
theorem finish (h : w.Manned) (hactive : 0 < w.active) : w.finish.Manned := by
  -- The worker goes to the next in line, else to a drain that lacks one, else it is free.
  cases hwaiting : w.waiting with
  | cons i rest => exact h.finish_of_cons hactive hwaiting
  | nil =>
    by_cases hlacking : ∃ held wanted, w.drain = some (held, wanted) ∧ held < wanted
    · obtain ⟨held, wanted, hd, hlt⟩ := hlacking
      exact h.finish_of_lacking hactive hwaiting hd hlt
    · exact h.finish_of_free hactive hwaiting fun held wanted hd hlt =>
        hlacking ⟨held, wanted, hd, hlt⟩

/-- A shutdown takes the free workers for the drain, and keeps them manned. -/
theorem beginShutdown (h : w.Manned) (hrun : w.running) : w.beginShutdown.Manned := by
  have hopen := h.open_of_running hrun
  have hsum := h.sum hopen
  have hkept := h.kept_of_running hrun
  refine ⟨h.limit_pos, h.active_le, fun _ => ?_, fun hne => ?_, nofun, fun hc => ?_,
    fun held wanted hd => ?_⟩
  · -- The free workers not taken are those beyond what the drain asks for.
    show w.free - min w.free (w.limit % size32) + w.active + w.called.length +
      min w.free (w.limit % size32) = w.limit
    omega
  · have hfree := (h.line hne).1
    show w.free - min w.free (w.limit % size32) = 0 ∧ min w.free (w.limit % size32) = 0
    omega
  · cases hopen.symm.trans hc
  · obtain ⟨rfl, rfl⟩ := Prod.mk.inj (Option.some.inj hd)
    refine ⟨Nat.min_le_right _ _, rfl, fun hlt => ?_⟩
    show w.free - min w.free (w.limit % size32) = 0
    omega

/-- Closing the semaphore keeps them manned. -/
theorem close (h : w.Manned) (hrun : w.running = false) : w.close.Manned where
  limit_pos := h.limit_pos
  active_le := h.active_le
  sum hopen := by cases hopen
  line hne := absurd rfl hne
  running _ := rfl
  closed _ := ⟨rfl, hrun, rfl⟩
  wanted _ _ hd := by cases hd

/-- The shutdown of a pool whose size fits in 32 bits has all workers when nobody is at work and
    no ticket is pending. -/
theorem isDrained_iff (h : w.Manned) (hlimit : w.limit < size32) (hdrain : w.drain.isSome) :
    w.isDrained ↔ w.active = 0 ∧ w.pending = [] := by
  obtain ⟨⟨held, wanted⟩, hd⟩ := Option.isSome_iff_exists.mp hdrain
  obtain ⟨hheld, hwanted, hfree⟩ := h.wanted held wanted hd
  rw [Nat.mod_eq_of_lt hlimit] at hwanted
  have hkept : w.kept = held := by rw [kept, hd]
  have hsum := h.sum (h.open_of_drain hd)
  have hpos := h.limit_pos
  simp only [isDrained, hd, decide_eq_true_eq, pending, List.append_eq_nil_iff]
  constructor
  · intro hle
    refine ⟨by omega, List.length_eq_zero_iff.mp (by omega), ?_⟩
    cases hwaiting : w.waiting with
    | nil => rfl
    | cons i rest =>
      -- Somebody in the line would be handed a worker before the shutdown.
      have hline := h.line (by simp [hwaiting])
      omega
  · rintro ⟨hactive, hcalled, -⟩
    rw [hcalled, List.length_nil] at hsum
    omega

end Manned

end Intake.Workers
