import Intake.Proofs.Keyed
import Intake.Proofs.Run
import Intake.Proofs.Workers
import Intake.Workers.Shift

/-!
# Runs of a shift

Submissions, the ends of tasks and calls follow each other in any order: which task ends first
at an instant, and when a submission that was called goes on, is left open.  So every way in
which the tasks of a pool can be interleaved is among the runs.

- `Took`: what one step does
- `Sound`: who is who in a pool, and where its workers are
- `sound_run`: this holds in every state of a run
-/

namespace Intake

/-- One thing that happens during a shift. -/
inductive ShiftInput
  | submit (t : Task)
  | shutdown (call : String) (timeout : Nat)
  /-- The task of a submission ends, if its time is over. -/
  | finish (n : Nat)
  /-- A waiting submission goes on, if it was called. -/
  | resume (n : Nat)
  /-- The shutdown in progress returns, if it can. -/
  | close

namespace ShiftInput

def isSubmit : ShiftInput → Bool
  | .submit _ => true
  | _ => false

def isShutdown : ShiftInput → Bool
  | .shutdown _ _ => true
  | _ => false

/-- Whether the pool goes on by itself: nobody calls it. -/
def isOwn : ShiftInput → Bool
  | .finish _ | .resume _ | .close => true
  | _ => false

end ShiftInput

/-- What happened at one input. -/
structure ShiftStep where
  now : Nat
  input : ShiftInput
  before : Shift
  after : Shift

namespace ShiftStep

/-- What was noted in a step, newest first. -/
def news (x : ShiftStep) : List (Nat × ShiftEvent) :=
  x.after.events.take (x.after.events.length - x.before.events.length)

/-- Tasks that have begun in a step. -/
def begun (x : ShiftStep) : List Stint := x.after.busy.filter (· ∉ x.before.busy)

/-- Tasks that have ended in a step. -/
def ended (x : ShiftStep) : List Stint := x.before.busy.filter (· ∉ x.after.busy)

/-- The news of a step are the events that it put before the old ones. -/
theorem news_eq {x : ShiftStep} {es : List (Nat × ShiftEvent)}
    (h : x.after.events = es ++ x.before.events) : x.news = es := by
  simp [news, h]

end ShiftStep

namespace Shift

variable {s s' : Shift} {now : Nat} {i : ShiftInput} {es : List (Nat × ShiftEvent)}

/-- The shift after one input. -/
def after (now : Nat) (s : Shift) : ShiftInput → Shift
  | .submit t => s.submit now t
  | .shutdown call timeout => s.shutdown now call timeout
  | .finish n =>
    match s.busy.find? (·.number = n) with
    | some b => if b.due ≤ now then s.finish now b else s
    | none => s
  | .resume n =>
    match s.waiting.find? (·.1 = n) with
    | some e => if s.workers.isCalled n then s.resume now e else s
    | none => s
  | .close => (s.closeDone? now).getD s

/-- The step that an input leads to. -/
def step (s : Shift) (now : Nat) (i : ShiftInput) : ShiftStep := ⟨now, i, s, s.after now i⟩

/-- The shift after one input at an instant. -/
def next (s : Shift) (x : Nat × ShiftInput) : Shift := s.after x.1 x.2

/-- The shift after a sequence of inputs. -/
def run (s : Shift) (xs : List (Nat × ShiftInput)) : Shift := xs.foldl next s

/-- The steps that a sequence of inputs leads to. -/
def steps (s : Shift) (xs : List (Nat × ShiftInput)) : List ShiftStep :=
  noted next (fun s x => s.step x.1 x.2) s xs

/-- A run of two parts is the run of the second after the first. -/
theorem run_append (s : Shift) (xs ys : List (Nat × ShiftInput)) :
    s.run (xs ++ ys) = (s.run xs).run ys :=
  List.foldl_append

/-- Its steps are those of both. -/
theorem steps_append (s : Shift) (xs ys : List (Nat × ShiftInput)) :
    s.steps (xs ++ ys) = s.steps xs ++ (s.run xs).steps ys :=
  noted_append ..

/-- What holds at first and is kept by every step holds after every run.  The property may look
    back at the steps so far. -/
theorem run_keeps {P : List ShiftStep → Shift → Prop} (h0 : P [] s)
    (hstep : ∀ hist m now i, P hist m → P (hist ++ [m.step now i]) (m.after now i))
    (xs : List (Nat × ShiftInput)) : P (s.steps xs) (s.run xs) :=
  foldl_keeps h0 xs fun hist m x _ => hstep hist m x.1 x.2

/-- What goes on as long as a state is of one kind goes on until a step at which it is not any
    more. -/
theorem until_steps {P Q : ShiftStep → Prop} {I : Shift → Prop}
    (hP : ∀ m now i, I m → P (m.step now i))
    (hI : ∀ m now i, I m → I (m.after now i) ∨ Q (m.step now i)) (h : I s)
    (xs : List (Nat × ShiftInput)) : Until P Q (s.steps xs) := by
  induction xs generalizing s with
  | nil => trivial
  | cons x xs ih => exact ⟨hP s x.1 x.2 h, (hI s x.1 x.2 h).symm.imp_right fun h => ih h⟩

/-- Where the steps of a run are cut, the run goes on from the state after the cut. -/
theorem exists_cut_of_steps {xs : List (Nat × ShiftInput)} {before later : List ShiftStep}
    {x : ShiftStep} (h : s.steps xs = before ++ x :: later) :
    ∃ ys now i zs, before = s.steps ys ∧ x = (s.run ys).step now i ∧
      later = x.after.steps zs := by
  obtain ⟨ys, y, zs, -, hbefore, rfl, hlater⟩ := exists_cut_of_noted h
  exact ⟨ys, y.1, y.2, zs, hbefore, rfl, hlater⟩

/-- A step of a run is made from a state to which a part of the run has led. -/
theorem exists_run_of_mem_steps {xs : List (Nat × ShiftInput)} {x : ShiftStep}
    (hx : x ∈ s.steps xs) : ∃ ys now i, x = (s.run ys).step now i := by
  obtain ⟨before, later, hcut⟩ := List.append_of_mem hx
  obtain ⟨ys, now, i, -, -, rfl, -⟩ := exists_cut_of_steps hcut
  exact ⟨ys, now, i, rfl⟩

/-! ## The end of a task -/

section Finish

variable (now : Nat) (b : Stint) (s : Shift)

/-- Whether a task ends or breaks off shows in what is noted only. -/
private theorem finish_eq : s.finish now b = { s with
    busy := s.busy.filter (·.number ≠ b.number), workers := s.workers.finish
    events := (s.finish now b).events } := by
  unfold finish
  dsimp only
  split <;> rfl

/-- A task that ends gives its worker back. -/
theorem workers_finish : (s.finish now b).workers = s.workers.finish := by
  rw [finish_eq]

/-- It counts no submission. -/
private theorem submissions_finish : (s.finish now b).submissions = s.submissions := by
  rw [finish_eq]

/-- It leaves the line to the workers. -/
theorem waiting_finish : (s.finish now b).waiting = s.waiting := by
  rw [finish_eq]

/-- It is taken from those at work. -/
theorem busy_finish : (s.finish now b).busy = s.busy.filter (·.number ≠ b.number) := by
  rw [finish_eq]

/-- It leaves a pending shutdown pending. -/
theorem closing_finish : (s.finish now b).closing = s.closing := by
  rw [finish_eq]

end Finish

/-! ## A submission that goes on -/

section Resume

variable (now : Nat) (e : Nat × Task) (s : Shift)

/-- Whether it is accepted or turned away, a submission that goes on does not wait any more. -/
theorem waiting_resume : (s.resume now e).waiting = s.waiting.filter (·.1 ≠ e.1) := by
  unfold resume
  dsimp only
  split <;> rfl

/-- So does a submission that goes on. -/
theorem closing_resume : (s.resume now e).closing = s.closing := by
  unfold resume
  dsimp only
  split <;> rfl

/-- At most its own task begins. -/
theorem length_busy_resume_le : (s.resume now e).busy.length ≤ s.busy.length + 1 := by
  unfold resume
  dsimp only
  split
  · exact Nat.le_of_eq List.length_append
  · exact Nat.le_succ _

end Resume

/-! ## What one step does -/

/-- What an input does at an instant, with what is noted then. -/
inductive Took (now : Nat) (s : Shift) :
    ShiftInput → List (Nat × ShiftEvent) → Shift → Prop
  /-- The input does not fit. -/
  | unfit {i : ShiftInput} (hsubmit : i.isSubmit = false) (hshutdown : i.isShutdown = false) :
    Took now s i [] s
  | accepted (t : Task) (h : s.workers.admission = .accepted) :
    Took now s (.submit t) [(now, .began t.name), (now, .submitted t.name (.ok ()))]
      ({ s with workers := s.workers.submit s.submissions
                submissions := s.submissions + 1 }.begin now s.submissions t)
  | refused (t : Task) (h : s.workers.admission = .refused) :
    Took now s (.submit t) [(now, .submitted t.name (.error .poolClosed))]
      ({ s with submissions := s.submissions + 1 }.turnAway now t)
  | queued (t : Task) (h : s.workers.admission = .queued) :
    Took now s (.submit t) []
      { s with workers := s.workers.submit s.submissions, submissions := s.submissions + 1
               waiting := s.waiting ++ [(s.submissions, t)] }
  /-- A waiting submission is accepted. -/
  | wentOn {e : Nat × Task} (he : e ∈ s.waiting) (hc : s.workers.isCalled e.1)
    (hv : s.workers.verdict = .accepted) :
    Took now s (.resume e.1) [(now, .began e.2.name), (now, .submitted e.2.name (.ok ()))]
      ({ s with workers := s.workers.resume e.1
                waiting := s.waiting.filter (·.1 ≠ e.1) }.begin now e.1 e.2)
  /-- A waiting submission is turned away. -/
  | sentAway {e : Nat × Task} (he : e ∈ s.waiting) (hc : s.workers.isCalled e.1)
    (hv : s.workers.closed) :
    Took now s (.resume e.1) [(now, .submitted e.2.name (.error .poolClosed))]
      ({ s with workers := s.workers.resume e.1
                waiting := s.waiting.filter (·.1 ≠ e.1) }.turnAway now e.2)
  | ended {b : Stint} (hb : b ∈ s.busy) (hdue : b.due ≤ now) :
    Took now s (.finish b.number) (if b.task.breaks then [] else [(now, .ended b.task.name)])
      (s.finish now b)
  | closing (call : String) (timeout : Nat) (h : s.workers.running) :
    Took now s (.shutdown call timeout) []
      { s with workers := s.workers.beginShutdown
               closing := some ⟨call, timeout, now + timeout, s.workers.active⟩ }
  /-- A shutdown that is not the first returns at once. -/
  | again (call : String) (timeout : Nat) (h : s.workers.running = false) :
    Took now s (.shutdown call timeout) [(now, .shutDown call true)]
      (s.note now (.shutDown call true))
  | closed {c : Closing} (hc : s.closing = some c)
    (h : s.workers.isDrained ∨ c.deadline ≤ now) :
    Took now s .close [(now, .shutDown c.call s.workers.isDrained),
      (now, .notice (if s.workers.isDrained then .workersDone c.active
        else .workersCutOff s.workers.active c.timeout))] (s.close now c)

/-- Each step is one of the ways to go on. -/
theorem took_after (now : Nat) (s : Shift) (i : ShiftInput) :
    ∃ es, Took now s i es (s.after now i) := by
  -- By the input; one that does not fit the state does nothing.
  cases i with
  | submit t =>
    cases ha : s.workers.admission with
    | accepted =>
      simp only [after, submit, ha]
      exact ⟨_, .accepted t ha⟩
    | queued =>
      simp only [after, submit, ha]
      exact ⟨_, .queued t ha⟩
    | refused =>
      simp only [after, submit, ha, Workers.submit]
      exact ⟨_, .refused t ha⟩
  | shutdown call timeout =>
    simp only [after, shutdown]
    split
    next h => exact ⟨_, .closing call timeout h⟩
    next h => exact ⟨_, .again call timeout (by simpa using h)⟩
  | finish n =>
    simp only [after]
    split
    next b hb =>
      obtain ⟨hmem, rfl⟩ := List.mem_of_find?_key hb
      split
      next hdue => exact ⟨_, .ended hmem hdue⟩
      next => exact ⟨_, .unfit rfl rfl⟩
    next => exact ⟨_, .unfit rfl rfl⟩
  | resume n =>
    simp only [after]
    split
    next e he =>
      obtain ⟨hmem, rfl⟩ := List.mem_of_find?_key he
      split
      next hc =>
        -- Called, it gets a worker, or learns that there are none any more.
        cases hclosed : s.workers.closed with
        | false =>
          have hv := Workers.verdict_eq_accepted_iff.mpr hclosed
          simp only [Shift.resume, hv]
          exact ⟨_, .wentOn hmem hc hv⟩
        | true =>
          have hv : s.workers.verdict = .refused := by simp [Workers.verdict, hclosed]
          simp only [Shift.resume, hv]
          exact ⟨_, .sentAway hmem hc hclosed⟩
      next => exact ⟨_, .unfit rfl rfl⟩
    next => exact ⟨_, .unfit rfl rfl⟩
  | close =>
    simp only [after, closeDone?]
    split
    next c hc =>
      split
      next h => exact ⟨_, .closed hc (by simpa using h)⟩
      next => exact ⟨_, .unfit rfl rfl⟩
    next => exact ⟨_, .unfit rfl rfl⟩

/-- The events grow by those of the step. -/
theorem Took.events (h : Took now s i es s') : s'.events = es ++ s.events := by
  cases h with
  | ended =>
    unfold finish
    dsimp only
    split <;> rfl
  | _ => rfl

/-- The limit stays as it is. -/
theorem Took.limit (h : Took now s i es s') : s'.workers.limit = s.workers.limit := by
  cases h with
  | accepted | queued => exact Workers.limit_submit _ _
  | wentOn | sentAway => exact Workers.limit_resume _ _
  | ended => exact (congrArg Workers.limit (workers_finish ..)).trans (Workers.limit_finish _)
  | _ => rfl

/-- A shutdown stops the pool, and nothing starts it again. -/
theorem Took.running (h : Took now s i es s') :
    s'.workers.running = (s.workers.running && !i.isShutdown) := by
  -- Only a shutdown touches it.
  cases h with
  | unfit _ hshutdown => simp [hshutdown]
  | accepted | queued => exact (Workers.running_submit _ _).trans (Bool.and_true _).symm
  | wentOn | sentAway => exact (Workers.running_resume _ _).trans (Bool.and_true _).symm
  | ended =>
    rw [workers_finish, Workers.running_finish]
    exact (Bool.and_true _).symm
  | again _ _ h => simp [note, h]
  | closing => exact (Bool.and_false _).symm
  | _ => exact (Bool.and_true _).symm

/-- Only a submission counts as one. -/
theorem Took.submissions (h : Took now s i es s') :
    s'.submissions = s.submissions + if i.isSubmit then 1 else 0 := by
  cases h with
  | unfit hsubmit => simp [hsubmit]
  | ended => exact submissions_finish ..
  | _ => rfl

/-- Who waits has waited before or has just been submitted. -/
theorem Took.mem_waiting (h : Took now s i es s') {e : Nat × Task} (he : e ∈ s'.waiting) :
    e ∈ s.waiting ∨ (i = .submit e.2 ∧ e.1 = s.submissions) := by
  cases h with
  | queued t =>
    rcases List.mem_append.mp he with he | he
    · exact .inl he
    · rw [List.mem_singleton.mp he]
      exact .inr ⟨rfl, rfl⟩
  | wentOn | sentAway => exact .inl (List.mem_filter.mp he).1
  | ended => exact .inl (waiting_finish .. ▸ he)
  | _ => exact .inl he

/-- What is at work was at work before or has just begun. -/
theorem Took.mem_busy (h : Took now s i es s') {b : Stint} (hb : b ∈ s'.busy) :
    b ∈ s.busy ∨ b.due = now + b.task.duration := by
  -- A task new at work is due after its duration.
  cases h with
  | accepted | wentOn =>
    rcases List.mem_append.mp hb with hb | hb
    · exact .inl hb
    · rw [List.mem_singleton.mp hb]
      exact .inr rfl
  | ended =>
    rw [busy_finish] at hb
    exact .inl (List.mem_filter.mp hb).1
  | _ => exact .inl hb

/-- A shutdown in progress was in progress before or has just begun. -/
theorem Took.closing_eq (h : Took now s i es s') {c : Closing} (hc : s'.closing = some c) :
    s.closing = some c ∨
      (i = .shutdown c.call c.timeout ∧ s.workers.running ∧ c.deadline = now + c.timeout) := by
  cases h with
  | closing call timeout hrun =>
    cases hc
    exact .inr ⟨rfl, hrun, rfl⟩
  | ended => exact .inl (closing_finish .. ▸ hc)
  | closed => cases hc
  | _ => exact .inl hc

/-! ## Who is who -/

/-- Submissions are told apart by their numbers.  Each of them that has not returned is a ticket
    of the workers, in the order of the submissions, and each task that is active is at work. -/
structure Sound (s : Shift) : Prop where
  manned : s.workers.Manned
  pending : s.waiting.map (·.1) = s.workers.pending
  sorted : (s.waiting.map (·.1)).Pairwise (· < ·)
  waiting_lt : ∀ n ∈ s.waiting.map (·.1), n < s.submissions
  busy_nodup : (s.busy.map (·.number)).Nodup
  busy_lt : ∀ n ∈ s.busy.map (·.number), n < s.submissions
  apart : ∀ n ∈ s.busy.map (·.number), n ∉ s.waiting.map (·.1)
  active : s.workers.active = s.busy.length
  closing : s.closing.isSome = s.workers.drain.isSome
  /-- Once a shutdown was called one is in progress or over. -/
  stopped : s.workers.running = false → s.workers.drain.isSome ∨ s.workers.closed

/-- Whoever waits is there once. -/
theorem Sound.waiting_nodup (h : s.Sound) : (s.waiting.map (·.1)).Nodup :=
  h.sorted.imp Nat.ne_of_lt

/-- A shift without a task is sound. -/
theorem sound_ofSize (core limit : Nat) : (ofSize core limit).Sound where
  manned := .ofSize core limit
  pending := rfl
  sorted := .nil
  waiting_lt _ hn := by cases hn
  busy_nodup := .nil
  busy_lt _ hn := by cases hn
  apart _ hn := by cases hn
  active := rfl
  closing := rfl
  stopped h := by cases h

/-- A task begins whose submission does not wait any more. -/
theorem Sound.begin (h : s.Sound) {w : Workers Nat} {waiting : List (Nat × Task)} {k n : Nat}
    (hw : w.Manned) (hpending : waiting.map (·.1) = w.pending)
    (hsub : (waiting.map (·.1)).Sublist (s.waiting.map (·.1))) (hk : s.submissions ≤ k)
    (hn : n < k) (hbusy : n ∉ s.busy.map (·.number)) (hwaiting : n ∉ waiting.map (·.1))
    (hactive : w.active = s.workers.active + 1) (hdrain : w.drain = s.workers.drain)
    (hrunning : w.running = s.workers.running) (hclosed : w.closed = s.workers.closed) (now : Nat)
    (t : Task) : ({ s with workers := w, waiting, submissions := k }.begin now n t).Sound := by
  have hnumbers : (s.busy ++ [(⟨n, t, now + t.duration⟩ : Stint)]).map (·.number) =
      s.busy.map (·.number) ++ [n] := by simp
  have hcases : ∀ j ∈ s.busy.map (·.number) ++ [n], j ∈ s.busy.map (·.number) ∨ j = n := by simp
  refine ⟨hw, hpending, h.sorted.sublist hsub,
    fun j hj => Nat.lt_of_lt_of_le (h.waiting_lt j (hsub.subset hj)) hk, ?_, fun j hj => ?_,
    fun j hj => ?_, ?_, ?_, ?_⟩
  · -- The number is new to those at work; all else was so before.
    show ((s.busy ++ [(⟨n, t, now + t.duration⟩ : Stint)]).map (·.number)).Nodup
    rw [hnumbers]
    exact h.busy_nodup.append (List.nodup_singleton n) (by simpa using hbusy)
  · rcases hcases j (hnumbers ▸ hj) with hj | rfl
    · exact Nat.lt_of_lt_of_le (h.busy_lt j hj) hk
    · exact hn
  · rcases hcases j (hnumbers ▸ hj) with hj | rfl
    · exact fun hjw => h.apart j hj (hsub.subset hjw)
    · exact hwaiting
  · show w.active = (s.busy ++ [(⟨n, t, now + t.duration⟩ : Stint)]).length
    rw [hactive, h.active, List.length_append, List.length_singleton]
  · show s.closing.isSome = w.drain.isSome
    rw [hdrain]
    exact h.closing
  · show w.running = false → w.drain.isSome ∨ w.closed
    rw [hrunning, hdrain, hclosed]
    exact h.stopped

/-- What is left of the submissions that wait when one of them goes on. -/
private theorem Sound.map_fst_filter (h : s.Sound) {n : Nat} (hc : s.workers.isCalled n) :
    (s.waiting.filter (·.1 ≠ n)).map (·.1) = (s.workers.resume n).pending := by
  rw [Workers.pending_resume hc, ← h.pending, h.waiting_nodup.erase_eq_filter, List.filter_map]
  exact congrArg _ (List.filter_congr fun e _ => by simp [bne, beq_eq_decide])

/-- A submission finds a free worker, and its task begins. -/
private theorem Sound.accept (h : s.Sound) (t : Task) (ha : s.workers.admission = .accepted) :
    ({ s with workers := s.workers.submit s.submissions
              submissions := s.submissions + 1 }.begin now s.submissions t).Sound := by
  have heq := Workers.submit_of_accepted ha s.submissions
  have hqueued : s.workers.admission ≠ .queued := by simp [ha]
  -- It gets the next number, which nobody has.
  refine h.begin (h.manned.submit _) ?_ (.refl _) (Nat.le_succ _) (Nat.lt_succ_self _) ?_ ?_ ?_
    ?_ ?_ ?_ now t
  · rw [Workers.pending_submit hqueued]
    exact h.pending
  · exact fun hn => Nat.lt_irrefl _ (h.busy_lt _ hn)
  · exact fun hn => Nat.lt_irrefl _ (h.waiting_lt _ hn)
  all_goals rw [heq]

/-- A submission is turned away at once: it has its number, and nothing else changes. -/
private theorem Sound.refuse (h : s.Sound) (t : Task) :
    ({ s with submissions := s.submissions + 1 }.turnAway now t).Sound :=
  ⟨h.manned, h.pending, h.sorted, fun n hn => Nat.lt_succ_of_lt (h.waiting_lt n hn),
    h.busy_nodup, fun n hn => Nat.lt_succ_of_lt (h.busy_lt n hn), h.apart, h.active, h.closing,
    h.stopped⟩

/-- A submission joins the line behind all others. -/
private theorem Sound.queue (h : s.Sound) (t : Task) (ha : s.workers.admission = .queued) :
    ({ s with workers := s.workers.submit s.submissions, submissions := s.submissions + 1
              waiting := s.waiting ++ [(s.submissions, t)] } : Shift).Sound := by
  have hnumbers : (s.waiting ++ [(s.submissions, t)]).map (·.1) =
      s.waiting.map (·.1) ++ [s.submissions] := by simp
  have hcases : ∀ n ∈ (s.waiting ++ [(s.submissions, t)]).map (·.1),
      n ∈ s.waiting.map (·.1) ∨ n = s.submissions := by simp
  -- The workers put the same number at the end of their line.
  have heq : s.workers.submit s.submissions =
      { s.workers with waiting := s.workers.waiting ++ [s.submissions] } := by
    simp [Workers.submit, ha]
  -- The number is the highest so far, so the line stays sorted and apart from those at work.
  constructor
  case manned => exact h.manned.submit _
  case pending =>
    show (s.waiting ++ [(s.submissions, t)]).map (·.1) = (s.workers.submit s.submissions).pending
    rw [hnumbers, h.pending, Workers.pending_submit_of_queued ha]
  case sorted =>
    show ((s.waiting ++ [(s.submissions, t)]).map (·.1)).Pairwise (· < ·)
    rw [hnumbers, List.pairwise_append]
    refine ⟨h.sorted, List.pairwise_singleton .., fun a ha b hb => ?_⟩
    rw [List.mem_singleton.mp hb]
    exact h.waiting_lt a ha
  case waiting_lt =>
    intro n hn
    rcases hcases n hn with hn | rfl
    · exact Nat.lt_succ_of_lt (h.waiting_lt n hn)
    · exact Nat.lt_succ_self _
  case busy_nodup => exact h.busy_nodup
  case busy_lt => exact fun n hn => Nat.lt_succ_of_lt (h.busy_lt n hn)
  case apart =>
    intro n hn hnw
    rcases hcases n hnw with hnw | rfl
    · exact h.apart n hn hnw
    · exact Nat.lt_irrefl _ (h.busy_lt _ hn)
  -- The counts of the workers do not change.
  all_goals
    dsimp only
    rw [heq]
  case active => exact h.active
  case closing => exact h.closing
  case stopped => exact h.stopped

/-- A waiting submission that was called gets its worker. -/
private theorem Sound.goOn (h : s.Sound) {e : Nat × Task} (he : e ∈ s.waiting)
    (hc : s.workers.isCalled e.1) (hv : s.workers.verdict = .accepted) :
    ({ s with workers := s.workers.resume e.1
              waiting := s.waiting.filter (·.1 ≠ e.1) }.begin now e.1 e.2).Sound := by
  have hmem : e.1 ∈ s.waiting.map (·.1) := List.mem_map_of_mem he
  -- The one that goes on leaves the line and those called, and its number is used for the task.
  have heq := Workers.resume_of_open (Workers.verdict_eq_accepted_iff.mp hv) e.1
  refine h.begin (h.manned.resume hc) (h.map_fst_filter hc)
    (List.filter_sublist.map _) (Nat.le_refl _) (h.waiting_lt _ hmem)
    (fun hb => h.apart _ hb hmem) (by simp) ?_ ?_ ?_ ?_ now e.2
  all_goals rw [heq]

/-- A waiting submission is turned away: it leaves the line, and no worker is concerned. -/
private theorem Sound.sendAway (h : s.Sound) {e : Nat × Task} (hc : s.workers.isCalled e.1)
    (hclosed : s.workers.closed) :
    ({ s with workers := s.workers.resume e.1
              waiting := s.waiting.filter (·.1 ≠ e.1) }.turnAway now e.2).Sound := by
  -- The line is one shorter on both sides.
  have heq := Workers.resume_of_closed hclosed e.1
  have hsub : ((s.waiting.filter (·.1 ≠ e.1)).map (·.1)).Sublist (s.waiting.map (·.1)) :=
    List.filter_sublist.map _
  refine ⟨h.manned.resume hc, h.map_fst_filter hc, h.sorted.sublist hsub,
    fun n hn => h.waiting_lt n (hsub.subset hn), h.busy_nodup, h.busy_lt,
    fun n hn hnw => h.apart n hn (hsub.subset hnw), ?_, ?_, ?_⟩
  all_goals
    simp only [turnAway, note]
    rw [heq]
  · exact h.active
  · exact h.closing
  · exact h.stopped

/-- A task ends or breaks off, and its worker comes back. -/
private theorem Sound.finish (h : s.Sound) {b : Stint} (hb : b ∈ s.busy) :
    (s.finish now b).Sound := by
  have hlength := List.length_remove h.busy_nodup hb
  have hactive : 0 < s.workers.active := h.active ▸ List.length_pos_of_mem hb
  -- One fewer at work on both sides; the line is the workers' business.
  have hsub : ((s.busy.filter (·.number ≠ b.number)).map (·.number)).Sublist
      (s.busy.map (·.number)) := List.filter_sublist.map _
  refine ⟨workers_finish now b s ▸ h.manned.finish hactive, ?_, ?_, ?_, ?_, ?_, ?_, ?_, ?_, ?_⟩
  all_goals
    simp only [workers_finish, submissions_finish, waiting_finish, busy_finish, closing_finish]
  · exact h.pending.trans (Workers.pending_finish _).symm
  · exact h.sorted
  · exact h.waiting_lt
  · exact h.busy_nodup.sublist hsub
  · exact fun n hn => h.busy_lt n (hsub.subset hn)
  · exact fun n hn => h.apart n (hsub.subset hn)
  · rw [Workers.active_finish, h.active]
    omega
  · exact h.closing.trans (Workers.isSome_drain_finish _).symm
  · simpa using h.stopped

/-- The shutdown in progress returns. -/
private theorem Sound.close (h : s.Sound) {c : Closing} (hc : s.closing = some c) :
    (s.close now c).Sound := by
  have hdrain : s.workers.drain.isSome := by rw [← h.closing, hc]; rfl
  -- A shutdown in progress holds workers, and a pool that runs has no drain.
  have hrun : s.workers.running = false := by
    rw [Bool.eq_false_iff]
    intro hrun
    rw [h.manned.running hrun] at hdrain
    cases hdrain
  exact ⟨h.manned.close hrun, h.pending.trans (Workers.pending_close _).symm, h.sorted,
    h.waiting_lt, h.busy_nodup, h.busy_lt, h.apart, h.active, rfl, fun _ => .inr rfl⟩

/-- Whatever one step does, it is known who is who and where the workers are. -/
theorem Sound.took (h : s.Sound) (ht : Took now s i es s') : s'.Sound := by
  cases ht with
  | unfit => exact h
  | accepted t ha => exact h.accept t ha
  | refused t => exact h.refuse t
  | queued t ha => exact h.queue t ha
  | wentOn he hc hv => exact h.goOn he hc hv
  | sentAway _ hc hclosed => exact h.sendAway hc hclosed
  | ended hb => exact h.finish hb
  -- A shutdown touches the workers only.
  | closing call timeout hrun =>
    exact ⟨h.manned.beginShutdown hrun, h.pending, h.sorted, h.waiting_lt, h.busy_nodup, h.busy_lt,
      h.apart, h.active, rfl, fun _ => .inl rfl⟩
  | again =>
    exact ⟨h.manned, h.pending, h.sorted, h.waiting_lt, h.busy_nodup, h.busy_lt, h.apart, h.active,
      h.closing, h.stopped⟩
  | closed hc => exact h.close hc

/-- A step keeps a shift sound. -/
theorem Sound.after (h : s.Sound) (now : Nat) (i : ShiftInput) : (s.after now i).Sound := by
  obtain ⟨_, ht⟩ := took_after now s i
  exact h.took ht

/-- So does a run. -/
theorem Sound.run (h : s.Sound) (xs : List (Nat × ShiftInput)) : (s.run xs).Sound :=
  run_keeps (P := fun _ m => m.Sound) h (fun _ _ now i hm => hm.after now i) xs

/-- A shift is sound in each of its states. -/
theorem sound_run (core limit : Nat) (xs : List (Nat × ShiftInput)) :
    ((ofSize core limit).run xs).Sound :=
  (sound_ofSize core limit).run xs

end Shift

end Intake
