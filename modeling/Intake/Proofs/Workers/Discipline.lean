import Intake.Proofs.Workers.Prompt
import Mathlib.Data.List.Perm.Basic

/-!
# Submissions and their tasks

A submission that returns with success has its task begin at that instant, and no other task
begins.  A task that has begun is at work until it ends or breaks off, and holds a worker until
then.  A submission returns at once or waits until it returns; nobody waits for a worker while one
is free, and nobody is overtaken.

- `Responsive`: what is done at one step for whoever submits, goes on or is over
- `Proper`: what becomes of tasks and workers at one step
- `Disciplined`: what has become of them in all steps so far
- `disciplined_run`: every run of every pool is disciplined
-/

namespace Intake

/-- The task that has begun. -/
def ShiftEvent.began? : ShiftEvent → Option String
  | .began task => some task
  | _ => none

/-- The task that has ended without breaking off. -/
def ShiftEvent.ended? : ShiftEvent → Option String
  | .ended task => some task
  | _ => none

namespace ShiftStep

/-- A submission returns at a step: it was made there or had been waiting, and does not wait any
    more. -/
structure Returns (x : ShiftStep) (n : Nat) (t : Task) (r : Except ListenerError Unit) :
    Prop where
  came : (x.input = .submit t ∧ n = x.before.submissions) ∨
    (x.input = .resume n ∧ (n, t) ∈ x.before.waiting)
  gone : (n, t) ∉ x.after.waiting
  answer : (x.now, .submitted t.name r) ∈ x.news

/-- What is done at a step for a submission that is made, waits or goes on, and for a task that is
    over. -/
structure Responsive (x : ShiftStep) : Prop where
  /-- A submission returns at once, or it waits. -/
  submits : ∀ t, x.input = .submit t → (∃ r, x.Returns x.before.submissions t r) ∨
    (x.before.submissions, t) ∈ x.after.waiting
  /-- Until a shutdown one that finds a free worker is accepted at once. -/
  accepts : ∀ t, x.input = .submit t → x.before.workers.running → 0 < x.before.workers.free →
    x.Returns x.before.submissions t (.ok ())
  /-- Whoever waits goes on waiting or returns: turned away if the pool is closed, with success if
      not. -/
  waits : ∀ e ∈ x.before.waiting, e ∈ x.after.waiting ∨
    x.Returns e.1 e.2 (if x.before.workers.closed then .error .poolClosed else .ok ())
  /-- One that was called and goes on does not wait any more. -/
  goes_on : ∀ e ∈ x.before.waiting, x.before.workers.isCalled e.1 → x.input = .resume e.1 →
    e ∉ x.after.waiting
  /-- A task whose time is over ends or breaks off. -/
  ends : ∀ b ∈ x.before.busy, b.due ≤ x.now → x.input = .finish b.number → b ∈ x.ended

/-- Tasks that have begun in a step after their submissions had waited. -/
def admitted (x : ShiftStep) : List Stint :=
  x.begun.filter fun b => (b.number, b.task) ∈ x.before.waiting

/-- What becomes of tasks and workers at a step. -/
structure Proper (x : ShiftStep) : Prop where
  /-- A task begins when its submission returns with success, and only then; it has all its time
      before it. -/
  begins : ∀ b, b ∈ x.begun ↔
    x.Returns b.number b.task (.ok ()) ∧ b.due = x.now + b.task.duration
  began : x.news.filterMap (·.2.began?) = x.begun.map (·.task.name)
  /-- A task that is over has had all its time. -/
  ends : ∀ b ∈ x.ended, x.input = .finish b.number ∧ b.due ≤ x.now
  ended : x.news.filterMap (·.2.ended?) =
    (x.ended.filter fun b => !b.task.breaks).map (·.task.name)
  /-- Whether it ended or broke off, it is not active any more, and its worker is free, or handed
      to somebody, or kept for a shutdown. -/
  frees : ∀ b ∈ x.ended, x.after.workers.active + 1 = x.before.workers.active ∧
    x.after.workers.free + x.after.workers.called.length + x.after.workers.kept =
      x.before.workers.free + x.before.workers.called.length + x.before.workers.kept + 1
  /-- If somebody is in the line, it is handed to the first. -/
  hands_on : ∀ b ∈ x.ended, ∀ n rest, x.before.workers.waiting = n :: rest →
    x.after.workers.waiting = rest ∧ x.after.workers.called = x.before.workers.called ++ [n]
  /-- Everybody who came before one who is accepted was handed a worker before. -/
  no_overtaking : ∀ n t, x.Returns n t (.ok ()) →
    ∀ m ∈ x.before.waiting.map (·.1), m ≤ n → x.before.workers.isCalled m

variable {x : ShiftStep} {b : Stint} {n : Nat} {t : Task}

/-! ## Tasks at work before and after a step -/

/-- Nothing begins where the tasks at work stay the same. -/
theorem begun_of_busy_eq (h : x.after.busy = x.before.busy) : x.begun = [] := by
  simp [begun, h]

/-- And nothing ends there. -/
theorem ended_of_busy_eq (h : x.after.busy = x.before.busy) : x.ended = [] := by
  simp [ended, h]

/-- A task put to work begins. -/
private theorem begun_of_append (h : x.after.busy = x.before.busy ++ [b]) (hb : b ∉ x.before.busy) :
    x.begun = [b] := by
  simp [begun, h, List.filter_append, hb]

/-- Nothing ends by it. -/
private theorem ended_of_append (h : x.after.busy = x.before.busy ++ [b]) : x.ended = [] := by
  simp +contextual [ended, h]

/-- Nothing begins when a task is taken away. -/
theorem begun_of_remove (h : x.after.busy = x.before.busy.filter (·.number ≠ n)) :
    x.begun = [] := by
  simp +contextual [begun, h]

/-- What is taken away ends. -/
theorem ended_of_remove (h : x.after.busy = x.before.busy.filter (·.number ≠ b.number))
    (hs : x.before.Sound) (hb : b ∈ x.before.busy) : x.ended = [b] := by
  rw [ended, h]
  exact List.filter_not_mem_remove hs.busy_nodup hb

/-! ## One step -/

/-- No task begins or ends. -/
private theorem Proper.of_quiet (hbegun : x.begun = []) (hended : x.ended = [])
    (hnews : ∀ e ∈ x.news, e.2.began? = none ∧ e.2.ended? = none ∧
      ∀ name, e.2 ≠ .submitted name (.ok ())) : x.Proper := by
  have hnone : ∀ n t, ¬ x.Returns n t (.ok ()) := fun n t h => (hnews _ h.answer).2.2 _ rfl
  -- The fields in their order: none of them speaks of anything here.
  refine ⟨fun b => ?_, ?_, ?_, ?_, ?_, ?_, fun n t h => absurd h (hnone n t)⟩
  · rw [hbegun]
    exact ⟨nofun, fun h => absurd h.1 (hnone _ _)⟩
  · rw [hbegun, List.filterMap_eq_nil_iff.mpr fun e he => (hnews e he).1]
    rfl
  · simp [hended]
  · rw [hended, List.filterMap_eq_nil_iff.mpr fun e he => (hnews e he).2.1]
    rfl
  · simp [hended]
  · simp [hended]

/-- One task begins. -/
private theorem Proper.of_begun (hbusy : x.after.busy = x.before.busy ++ [b])
    (hb : b ∉ x.before.busy)
    (hnews : x.news = [(x.now, .began b.task.name), (x.now, .submitted b.task.name (.ok ()))])
    (hdue : b.due = x.now + b.task.duration)
    (hreturns : ∀ n t, x.Returns n t (.ok ()) ↔ n = b.number ∧ t = b.task)
    (hcalled : ∀ m ∈ x.before.waiting.map (·.1), m ≤ b.number → x.before.workers.isCalled m) :
    x.Proper := by
  have hbegun := begun_of_append hbusy hb
  have hended := ended_of_append hbusy
  refine ⟨fun b' => ?_, ?_, ?_, ?_, ?_, ?_, fun n t h => ?_⟩
  · -- The fields in their order: what begins, its news, what ends, its news, the workers.
    rw [hbegun, List.mem_singleton, hreturns]
    constructor
    · rintro rfl
      exact ⟨⟨rfl, rfl⟩, hdue⟩
    · rintro ⟨⟨hnumber, htask⟩, hdue'⟩
      -- A stint is its number, its task and its due instant.
      obtain ⟨n, t, due⟩ := b'
      obtain ⟨n', t', due'⟩ := b
      simp_all
  · rw [hnews, hbegun]
    rfl
  · simp [hended]
  · rw [hnews, hended]
    rfl
  · simp [hended]
  · simp [hended]
  · rw [((hreturns n t).mp h).1]
    exact hcalled

/-- One task ends or breaks off. -/
private theorem Proper.of_ended (hs : x.before.Sound) (hb : b ∈ x.before.busy)
    (hbusy : x.after.busy = x.before.busy.filter (·.number ≠ b.number))
    (hworkers : x.after.workers = x.before.workers.finish)
    (hinput : x.input = .finish b.number) (hdue : b.due ≤ x.now)
    (hnews : x.news = if b.task.breaks then [] else [(x.now, .ended b.task.name)]) :
    x.Proper := by
  have hbegun := begun_of_remove hbusy
  have hended := ended_of_remove hbusy hs hb
  -- The step returns from no submission: its news are an end, if anything.
  have hnone : ∀ n t, ¬ x.Returns n t (.ok ()) := fun n t h => by
    have hanswer := h.answer
    rw [hnews] at hanswer
    split at hanswer <;> simp at hanswer
  have hone : ∀ {P : Stint → Prop}, P b → ∀ b' ∈ x.ended, P b' := by
    intro P h b' hb'
    rw [hended, List.mem_singleton] at hb'
    exact hb' ▸ h
  refine ⟨fun b' => ?_, ?_, hone ⟨hinput, hdue⟩, ?_, hone ⟨?_, ?_⟩, hone fun n rest h => ?_,
    fun n t h => absurd h (hnone n t)⟩
  · rw [hbegun]
    exact ⟨nofun, fun h => absurd h.1 (hnone _ _)⟩
  · rw [hnews, hbegun]
    split <;> rfl
  · rw [hnews, hended]
    cases hbreaks : b.task.breaks <;> simp [hbreaks, ShiftEvent.ended?]
  · have hpos := List.length_pos_of_mem hb
    rw [hworkers, Workers.active_finish, hs.active]
    omega
  · rw [hworkers]
    exact Workers.free_finish _
  · rw [hworkers, Workers.finish_of_cons h]
    exact ⟨rfl, rfl⟩

end ShiftStep

namespace Shift

open scoped List

variable {s s' : Shift} {now : Nat} {i : ShiftInput} {es : List (Nat × ShiftEvent)}

/-- While a worker is free, whoever waits was called. -/
private theorem Sound.isCalled_of_free (h : s.Sound) (hfree : 0 < s.workers.free) :
    ∀ m ∈ s.waiting.map (·.1), s.workers.isCalled m := by
  intro m hm
  -- While a worker is free nobody is in the line, so all who wait are called.
  have hline : s.workers.waiting = [] := by
    by_contra hne
    have hnone := (h.manned.line hne).1
    omega
  rw [h.pending, Workers.pending, hline, List.append_nil] at hm
  simpa [Workers.isCalled] using hm

/-- Who came before somebody who was called was called, too. -/
private theorem Sound.isCalled_of_le (h : s.Sound) {n m : Nat} (hn : s.workers.isCalled n)
    (hm : m ∈ s.waiting.map (·.1)) (hle : m ≤ n) : s.workers.isCalled m := by
  have hsorted := h.sorted
  rw [h.pending, Workers.pending] at hm hsorted
  have hmem : n ∈ s.workers.called := by simpa [Workers.isCalled] using hn
  -- Those called come before the line, in the order of their numbers.
  rcases List.mem_append.mp hm with hm | hm
  · simpa [Workers.isCalled] using hm
  · have hlt := (List.pairwise_append.mp hsorted).2.2 n hmem m hm
    omega

/-- A submission returns when its answer is noted and nobody has joined the line. -/
theorem Sound.returns_submit (h : s.Sound) {t : Task} {r : Except ListenerError Unit}
    (hwaiting : s'.waiting = s.waiting)
    (hnews : (now, .submitted t.name r) ∈ (⟨now, .submit t, s, s'⟩ : ShiftStep).news) :
    (⟨now, .submit t, s, s'⟩ : ShiftStep).Returns s.submissions t r := by
  refine ⟨.inl ⟨rfl, rfl⟩, fun hmem => ?_, hnews⟩
  have hmem' : (s.submissions, t) ∈ s.waiting := hwaiting ▸ hmem
  exact Nat.lt_irrefl _ (h.waiting_lt _ (List.mem_map_of_mem hmem'))

/-- A submission that waits returns when its answer is noted and it has left the line. -/
private theorem returns_resume {e : Nat × Task} {r : Except ListenerError Unit} (he : e ∈ s.waiting)
    (hwaiting : s'.waiting = s.waiting.filter (·.1 ≠ e.1))
    (hnews : (now, .submitted e.2.name r) ∈ (⟨now, .resume e.1, s, s'⟩ : ShiftStep).news) :
    (⟨now, .resume e.1, s, s'⟩ : ShiftStep).Returns e.1 e.2 r := by
  refine ⟨.inr ⟨rfl, he⟩, fun hmem => ?_, hnews⟩
  have hmem' : e ∈ s.waiting.filter (·.1 ≠ e.1) := hwaiting ▸ hmem
  simpa using (List.mem_filter.mp hmem').2

/-- Who waits goes on waiting or gets an answer. -/
theorem Took.waits_or_returns (ht : Took now s i es s') (hs : s.Sound) {e : Nat × Task}
    (he : e ∈ s.waiting) :
    e ∈ s'.waiting ∨ (⟨now, i, s, s'⟩ : ShiftStep).Returns e.1 e.2
      (if s.workers.closed then .error .poolClosed else .ok ()) := by
  have hnews := ShiftStep.news_eq (x := ⟨now, i, s, s'⟩) ht.events
  have hstays : ∀ {e' : Nat × Task}, e' ∈ s.waiting → e ≠ e' →
      e ∈ s.waiting.filter (·.1 ≠ e'.1) := fun he' hne =>
    List.mem_filter.mpr
      ⟨he, by simpa using fun h => hne (List.eq_of_key_eq _ hs.waiting_nodup he he' h)⟩
  cases ht with
  | queued => exact .inl (List.mem_append_left _ he)
  | @wentOn e' he' _ hv =>
    -- It is this submission that has its turn, or another one.
    by_cases hne : e = e'
    · subst hne
      rw [Workers.verdict_eq_accepted_iff.mp hv]
      exact .inr (returns_resume he rfl (by rw [hnews]; simp))
    · exact .inl (hstays he' hne)
  | @sentAway e' he' _ hclosed =>
    by_cases hne : e = e'
    · subst hne
      rw [hclosed]
      exact .inr (returns_resume he rfl (by rw [hnews]; simp))
    · exact .inl (hstays he' hne)
  -- A task that ends calls the next one, who then waits still.
  | ended => exact .inl ((waiting_finish ..).symm ▸ he)
  | _ => exact .inl he

/-- A submission returns at once, with success if a worker is free and the pool is running, or it
    waits. -/
private theorem Sound.submits (h : s.Sound) (now : Nat) (t : Task) :
    (∃ r, (s.step now (.submit t)).Returns s.submissions t r ∧
      (s.workers.running → 0 < s.workers.free → r = .ok ())) ∨
    (s.submissions, t) ∈ (s.after now (.submit t)).waiting ∧
      ¬ (s.workers.running ∧ 0 < s.workers.free) := by
  obtain ⟨es, ht⟩ := took_after now s (.submit t)
  have hnews := ShiftStep.news_eq (x := s.step now (.submit t)) ht.events
  -- By the admission: taken or refused at once, or put into the line.
  unfold Shift.step at hnews ⊢
  generalize s.after now (.submit t) = m at ht hnews ⊢
  cases ht with
  | unfit hsubmit => cases hsubmit
  | accepted =>
    refine .inl ⟨.ok (), h.returns_submit rfl ?_, fun _ _ => rfl⟩
    rw [hnews]
    exact List.mem_cons_of_mem _ List.mem_cons_self
  | refused _ ha =>
    refine .inl ⟨.error .poolClosed, h.returns_submit rfl ?_, fun hrun _ => ?_⟩
    · rw [hnews]
      exact List.mem_cons_self
    · cases hrun.symm.trans (Workers.admission_eq_refused_iff.mp ha)
  | queued _ ha =>
    refine .inr ⟨List.mem_append_right _ List.mem_cons_self, fun ⟨_, hfree⟩ => ?_⟩
    have hnone := (Workers.admission_eq_queued_iff.mp ha).2
    omega

/-- A submission that was called and goes on does not wait any more. -/
private theorem Sound.leaves_line (h : s.Sound) {e : Nat × Task} (he : e ∈ s.waiting)
    (hc : s.workers.isCalled e.1) (now : Nat) : e ∉ (s.after now (.resume e.1)).waiting := by
  have hfind := List.find?_key (·.1) h.waiting_nodup he
  have hafter : s.after now (.resume e.1) = s.resume now e := by
    simp only [Shift.after, hfind, if_pos hc]
  rw [hafter, waiting_resume]
  exact fun hmem => by simpa using (List.mem_filter.mp hmem).2

/-- A task whose time is over ends or breaks off. -/
private theorem Sound.ends_on_time (h : s.Sound) {b : Stint} (hb : b ∈ s.busy)
    (hdue : b.due ≤ now) : b ∈ (s.step now (.finish b.number)).ended := by
  have hfind := List.find?_key (·.number) h.busy_nodup hb
  have hafter : s.after now (.finish b.number) = s.finish now b := by
    simp only [Shift.after, hfind, if_pos hdue]
  -- The task leaves those at work in this step, which is what it means to end.
  have hended := ShiftStep.ended_of_remove (x := s.step now (.finish b.number)) (b := b)
    ((congrArg busy hafter).trans (busy_finish now b s)) h hb
  exact hended ▸ List.mem_cons_self

/-- Every step of a pool does what it should for whoever submits, goes on or is over. -/
theorem Sound.responsive (h : s.Sound) (now : Nat) (i : ShiftInput) :
    (s.step now i).Responsive := by
  -- By the input; each part is known for it.
  constructor
  case submits =>
    intro t hi
    obtain rfl : i = .submit t := hi
    exact (h.submits now t).imp (fun ⟨r, hr, _⟩ => ⟨r, hr⟩) And.left
  case accepts =>
    intro t hi hrun hfree
    obtain rfl : i = .submit t := hi
    rcases h.submits now t with ⟨r, hr, hok⟩ | ⟨-, hnot⟩
    · exact hok hrun hfree ▸ hr
    · exact absurd ⟨hrun, hfree⟩ hnot
  case waits =>
    intro e he
    obtain ⟨_, ht⟩ := took_after now s i
    exact ht.waits_or_returns h he
  case goes_on =>
    intro e he hc hi
    obtain rfl : i = .resume e.1 := hi
    exact h.leaves_line he hc now
  case ends =>
    intro b hb hdue hi
    obtain rfl : i = .finish b.number := hi
    exact h.ends_on_time hb hdue

/-- What one step does to tasks and workers is proper. -/
theorem Took.proper (h : s.Sound) (ht : Took now s i es s') :
    (⟨now, i, s, s'⟩ : ShiftStep).Proper := by
  have hnews := ShiftStep.news_eq (x := ⟨now, i, s, s'⟩) ht.events
  cases ht with
  -- A submission begins its own task, under a number not used before.
  | accepted t ha =>
    have hfree := (Workers.admission_eq_accepted_iff.mp ha).2
    refine .of_begun (b := ⟨s.submissions, t, now + t.duration⟩) rfl ?_ hnews rfl (fun n u => ?_)
      fun m hm _ => h.isCalled_of_free hfree m hm
    · -- The number is the count of submissions, above all those at work.
      exact fun hb => Nat.lt_irrefl _ (h.busy_lt _ (List.mem_map_of_mem hb))
    · constructor
      · rintro ⟨⟨hinput, rfl⟩ | ⟨hinput, -⟩, -⟩
        · cases hinput
          exact ⟨rfl, rfl⟩
        · cases hinput
      · rintro ⟨rfl, rfl⟩
        exact h.returns_submit rfl (by simp [hnews])
  -- So does one that waited; it has not begun yet, since who waits is not at work.
  | @wentOn e he hc hv =>
    refine .of_begun (b := ⟨e.1, e.2, now + e.2.duration⟩) rfl ?_ hnews rfl (fun n u => ?_)
      fun m hm hle => h.isCalled_of_le hc hm hle
    · exact fun hb => h.apart _ (List.mem_map_of_mem hb) (List.mem_map_of_mem he)
    · constructor
      · rintro ⟨⟨hinput, -⟩ | ⟨hinput, hmem⟩, -⟩
        · cases hinput
        · have hn : n = e.1 := (ShiftInput.resume.inj hinput).symm
          have heq := List.eq_of_key_eq (·.1) h.waiting_nodup hmem he hn
          exact ⟨hn, congrArg Prod.snd heq⟩
      · rintro ⟨rfl, rfl⟩
        exact returns_resume he rfl (by rw [hnews]; simp)
  | @ended b hb hdue =>
    exact .of_ended h hb (busy_finish now b s) (workers_finish now b s) rfl hdue hnews
  -- By all other steps nothing begins and nothing ends.
  | _ =>
    refine .of_quiet (ShiftStep.begun_of_busy_eq rfl) (ShiftStep.ended_of_busy_eq rfl) ?_
    rw [hnews]
    simp [ShiftEvent.began?, ShiftEvent.ended?]

/-- Every step of a sound shift is proper. -/
theorem Sound.proper (h : s.Sound) (now : Nat) (i : ShiftInput) : (s.step now i).Proper := by
  obtain ⟨_, ht⟩ := took_after now s i
  exact ht.proper h

/-! ## All steps so far -/

/-- What has become of submissions and their tasks. -/
structure Log (hist : List ShiftStep) (s : Shift) : Prop where
  proper : ∀ x ∈ hist, x.Proper
  /-- The number of a submission says how many were made before it. -/
  numbered : s.submissions = hist.countP (·.input.isSubmit)
  made : ∀ e ∈ s.waiting, ∃ x ∈ hist, x.input = .submit e.2 ∧ x.before.submissions = e.1
  /-- A task that has begun is over or at work. -/
  at_work : (hist.flatMap (·.begun)).Perm (hist.flatMap (·.ended) ++ s.busy)
  /-- The task of a submission does not begin again. -/
  once : ((hist.flatMap (·.begun)).map (·.number)).Nodup
  fresh : ∀ n ∈ (hist.flatMap (·.begun)).map (·.number),
    n < s.submissions ∧ n ∉ s.waiting.map (·.1)
  running : (∀ x ∈ hist, x.input.isShutdown = false) → s.workers.running
  /-- Submissions that wait are accepted in the order in which they were made, if those that were
      called go on in their order. -/
  in_turn : (∀ x ∈ hist, x.InTurn) →
    ((hist.flatMap (·.admitted)).map (·.number)).Pairwise (· < ·) ∧
      ∀ n ∈ (hist.flatMap (·.admitted)).map (·.number), ∀ m ∈ s.waiting.map (·.1), n < m

/-- A pool does with submissions and tasks what it should. -/
structure Disciplined (size : Nat) (hist : List ShiftStep) (s : Shift) : Prop
    extends Log hist s where
  responsive : ∀ x ∈ hist, x.Responsive
  /-- Every submission returns in the step in which it is made, or waits from then on until it
      returns. -/
  answered : ∀ before x later, hist = before ++ x :: later → ∀ t, x.input = .submit t →
    (∃ r, x.Returns x.before.submissions t r) ∨
      (x.before.submissions, t) ∈ x.after.waiting ∧
        Until ((x.before.submissions, t) ∈ ·.before.waiting)
          (fun y => ∃ r, y.Returns x.before.submissions t r) later
  /-- Until a shutdown a submission that finds a free worker is accepted at once. -/
  at_once : ∀ before x later, hist = before ++ x :: later →
    (∀ y ∈ before, y.input.isShutdown = false) → ∀ t, x.input = .submit t →
      0 < x.before.workers.free → x.Returns x.before.submissions t (.ok ())
  /-- The tasks that are active are those that are at work. -/
  active : s.workers.active = s.busy.length
  active_le : s.workers.active ≤ size
  /-- Until a shutdown each worker is free, at work or handed to somebody, and nobody is in the
      line while a worker is free. -/
  no_idling : (∀ x ∈ hist, x.input.isShutdown = false) →
    s.workers.free + s.workers.active + s.workers.called.length = size ∧
      (s.workers.waiting ≠ [] → s.workers.free = 0)
  /-- If somebody still waits when nothing can be done, all workers are at work. -/
  no_waiting : (∀ x ∈ hist, x.input.isShutdown = false) → ∀ now, s.isDue now = false →
    s.waiting ≠ [] → s.workers.active = size
  /-- Nothing is done to a task before or after its time is over. -/
  on_time : Prompt hist → ∀ x ∈ hist,
    (∀ b ∈ x.before.busy, x.now ≤ b.due) ∧ ∀ b ∈ x.ended, x.now = b.due

variable {hist : List ShiftStep}

/-- Before the first step nothing is logged. -/
private theorem log_nil (hwaiting : s.waiting = []) (hbusy : s.busy = []) (hsub : s.submissions = 0)
    (hrun : s.workers.running) : Log [] s where
  proper _ hx := by cases hx
  numbered := hsub
  made := by simp [hwaiting]
  at_work := by simp [hbusy]
  once := .nil
  fresh _ hn := by cases hn
  running _ := hrun
  in_turn _ := ⟨.nil, nofun⟩

/-- Tasks that begin in one step have one number. -/
private theorem number_of_mem_begun {x : ShiftStep} (hx : x.Proper) {b : Stint} (hb : b ∈ x.begun) :
    (x.input.isSubmit ∧ b.number = x.before.submissions) ∨
      (x.input = .resume b.number ∧ (b.number, b.task) ∈ x.before.waiting) := by
  rcases ((hx.begins b).mp hb).1.came with ⟨hinput, hn⟩ | hwaited
  · exact .inl ⟨by rw [hinput]; rfl, hn⟩
  · exact .inr hwaited

/-- Whoever is admitted from the line begins. -/
private theorem mem_begun_of_mem_admitted {n : Nat}
    (hn : n ∈ (hist.flatMap (·.admitted)).map (·.number)) :
    n ∈ (hist.flatMap (·.begun)).map (·.number) := by
  obtain ⟨b, hb, rfl⟩ := List.mem_map.mp hn
  obtain ⟨x, hx, hb⟩ := List.mem_flatMap.mp hb
  exact List.mem_map_of_mem (List.mem_flatMap.mpr ⟨x, hx, (List.mem_filter.mp hb).1⟩)

/-- The task of a submission has not begun before. -/
private theorem Log.not_begun (h : Log hist s) {x : ShiftStep} (hbefore : x.before = s)
    (hx : x.Proper)
    {b : Stint} (hb : b ∈ x.begun) : b.number ∉ (hist.flatMap (·.begun)).map (·.number) := by
  intro hmem
  obtain ⟨hlt, hwaiting⟩ := h.fresh _ hmem
  -- A task begins when it is submitted, with a new number, or from the line, where it waited.
  rcases number_of_mem_begun hx hb with ⟨-, hn⟩ | ⟨-, hwaited⟩
  · rw [hbefore] at hn
    omega
  · rw [hbefore] at hwaited
    exact hwaiting (List.mem_map_of_mem hwaited)

/-- Who was called first has come before everybody else who waits. -/
private theorem Sound.lt_of_head? (h : s.Sound) {n m : Nat} (hn : s.workers.called.head? = some n)
    (hm : m ∈ s.waiting.map (·.1)) (hne : m ≠ n) : n < m := by
  have hsorted := h.sorted
  -- The first one called is the first in the line.
  obtain ⟨rest, hcalled⟩ : ∃ rest, s.workers.called = n :: rest := by
    cases hc : s.workers.called with
    | nil => simp [hc] at hn
    | cons k rest =>
      rw [hc] at hn
      exact ⟨rest, by rw [Option.some.inj hn]⟩
  rw [h.pending, Workers.pending, hcalled, List.cons_append] at hm hsorted
  rcases List.mem_cons.mp hm with hm | hm
  · exact absurd hm hne
  · exact (List.pairwise_cons.mp hsorted).1 m hm

/-- The one admitted is the one who resumes, and had waited. -/
private theorem resume_of_mem_admitted (h : s.Sound) {b : Stint}
    (hb : b ∈ (s.step now i).admitted) : i = .resume b.number ∧ b.number ∈ s.waiting.map (·.1) := by
  obtain ⟨hbegun, hwaited⟩ := List.mem_filter.mp hb
  have hmem : b.number ∈ s.waiting.map (·.1) := List.mem_map_of_mem (of_decide_eq_true hwaited)
  rcases number_of_mem_begun (h.proper now i) hbegun with ⟨-, hn⟩ | ⟨hi, -⟩
  · exact absurd hn (Nat.ne_of_lt (h.waiting_lt _ hmem))
  · exact ⟨hi, hmem⟩

/-- Who goes on in turn leaves only later submissions behind. -/
private theorem lt_of_mem_admitted (h : s.Sound) (hturn : (s.step now i).InTurn) {b : Stint}
    (hb : b ∈ (s.step now i).admitted) :
    ∀ m ∈ (s.after now i).waiting.map (·.1), b.number < m := by
  obtain ⟨rfl, hwaited⟩ := resume_of_mem_admitted h hb
  intro m hm
  have hbusy : b ∈ (s.after now (.resume b.number)).busy :=
    (List.mem_filter.mp (List.mem_filter.mp hb).1).1
  have hne : m ≠ b.number := fun he =>
    (h.after now _).apart _ (List.mem_map_of_mem hbusy) (he ▸ hm)
  obtain ⟨e, he, rfl⟩ := List.mem_map.mp hm
  obtain ⟨_, ht⟩ := took_after now s (.resume b.number)
  -- The others stood behind it; a new one would be submitted, which this step is not.
  rcases ht.mem_waiting he with he | ⟨hsubmit, -⟩
  · exact h.lt_of_head? (hturn _ rfl) (List.mem_map_of_mem he) hne
  · cases hsubmit

/-- A task begins once at the most. -/
private theorem Log.once_step (h : Log hist s) (hs : s.Sound) (now : Nat) (i : ShiftInput) :
    (((hist ++ [s.step now i]).flatMap (·.begun)).map (·.number)).Nodup := by
  have hbusy : (s.step now i).begun.Sublist (s.after now i).busy := List.filter_sublist
  simp only [List.flatMap_append, List.flatMap_singleton, List.map_append]
  refine h.once.append ((hs.after now i).busy_nodup.sublist (hbusy.map _)) fun n hn hnew => ?_
  obtain ⟨b, hb, rfl⟩ := List.mem_map.mp hnew
  exact h.not_begun rfl (hs.proper now i) hb hn

/-- A submission whose task has begun does not wait again. -/
private theorem Log.fresh_step (h : Log hist s) (hs : s.Sound) (now : Nat) (i : ShiftInput) :
    ∀ n ∈ ((hist ++ [s.step now i]).flatMap (·.begun)).map (·.number),
      n < (s.after now i).submissions ∧ n ∉ (s.after now i).waiting.map (·.1) := by
  obtain ⟨es, ht⟩ := took_after now s i
  intro n hn
  simp only [List.flatMap_append, List.flatMap_singleton, List.map_append] at hn
  -- Those that began before, then those that begin now.
  rcases List.mem_append.mp hn with hn | hn
  · obtain ⟨hlt, hwaiting⟩ := h.fresh n hn
    have hsub : s.submissions ≤ (s.after now i).submissions := by
      rw [ht.submissions]
      exact Nat.le_add_right _ _
    refine ⟨Nat.lt_of_lt_of_le hlt hsub, fun hmem => ?_⟩
    obtain ⟨e, he, rfl⟩ := List.mem_map.mp hmem
    -- A number that comes to the line is a new one, so it has not begun.
    rcases ht.mem_waiting he with he | ⟨-, hnew⟩
    · exact hwaiting (List.mem_map_of_mem he)
    · omega
  · have hbusy : (s.step now i).begun.Sublist (s.after now i).busy := List.filter_sublist
    have hmem := (hbusy.map _).subset hn
    exact ⟨(hs.after now i).busy_lt n hmem, (hs.after now i).apart n hmem⟩

/-- Only one submission goes on in one step. -/
private theorem pairwise_admitted (hs : s.Sound) (now : Nat) (i : ShiftInput) :
    ((s.step now i).admitted.map (·.number)).Pairwise (· < ·) := by
  have hadmitted : (s.step now i).admitted.Sublist (s.after now i).busy :=
    List.Sublist.trans List.filter_sublist List.filter_sublist
  have hnodup := (hs.after now i).busy_nodup.sublist (hadmitted.map _)
  -- One step resumes one waiter, so no two are admitted in it.
  refine hnodup.pairwise_of_forall_ne fun n hn m hm hne => ?_
  obtain ⟨b, hb, rfl⟩ := List.mem_map.mp hn
  obtain ⟨b', hb', rfl⟩ := List.mem_map.mp hm
  have heq := (resume_of_mem_admitted hs hb).1.symm.trans (resume_of_mem_admitted hs hb').1
  exact absurd (ShiftInput.resume.inj heq) hne

/-- If all go on in turn, then those who are accepted were submitted later and later, and before
    whoever still waits. -/
private theorem Log.in_turn_step (h : Log hist s) (hs : s.Sound) (now : Nat) (i : ShiftInput)
    (hturn : ∀ x ∈ hist ++ [s.step now i], x.InTurn) :
    (((hist ++ [s.step now i]).flatMap (·.admitted)).map (·.number)).Pairwise (· < ·) ∧
      ∀ n ∈ ((hist ++ [s.step now i]).flatMap (·.admitted)).map (·.number),
        ∀ m ∈ (s.after now i).waiting.map (·.1), n < m := by
  obtain ⟨es, ht⟩ := took_after now s i
  obtain ⟨hearlier, hi⟩ := List.forall_mem_append.mp hturn
  obtain ⟨hsorted, hahead⟩ := h.in_turn hearlier
  simp only [List.flatMap_append, List.flatMap_singleton, List.map_append]
  -- Those admitted before come before the one admitted now; and all of them before who waits still.
  refine ⟨List.pairwise_append.mpr ⟨hsorted, pairwise_admitted hs now i, fun n hn m hm => ?_⟩,
    fun n hn m hm => ?_⟩
  · obtain ⟨b, hb, rfl⟩ := List.mem_map.mp hm
    exact hahead n hn _ (resume_of_mem_admitted hs hb).2
  · rcases List.mem_append.mp hn with hn | hn
    · obtain ⟨e, he, rfl⟩ := List.mem_map.mp hm
      rcases ht.mem_waiting he with he | ⟨-, hlast⟩
      · exact hahead n hn _ (List.mem_map_of_mem he)
      · -- A new one in the line has the highest number.
        rw [hlast]
        exact (h.fresh n (mem_begun_of_mem_admitted hn)).1
    · obtain ⟨b, hb, rfl⟩ := List.mem_map.mp hn
      exact lt_of_mem_admitted hs (hi _ List.mem_cons_self) hb m hm

/-- One more step is accounted for. -/
theorem Log.step (h : Log hist s) (hs : s.Sound) (now : Nat) (i : ShiftInput) :
    Log (hist ++ [s.step now i]) (s.after now i) := by
  obtain ⟨es, ht⟩ := took_after now s i
  constructor
  case proper =>
    exact List.forall_mem_append.mpr
      ⟨h.proper, List.forall_mem_singleton.mpr (hs.proper now i)⟩
  case numbered =>
    rw [ht.submissions, List.countP_append, h.numbered]
    simp [Shift.step]
  case made =>
    intro e he
    rcases ht.mem_waiting he with he | ⟨hi, hn⟩
    · obtain ⟨x, hmem, hmade⟩ := h.made e he
      exact ⟨x, List.mem_append_left _ hmem, hmade⟩
    · exact ⟨_, List.mem_append_right _ List.mem_cons_self, hi, hn.symm⟩
  -- What began is over or at work; the step moves between the two lists only.
  case at_work =>
    have hperm :=
      List.perm_append_filter hs.busy_nodup.of_map (hs.after now i).busy_nodup.of_map
    simp only [List.flatMap_append, List.flatMap_singleton]
    calc hist.flatMap (·.begun) ++ (s.step now i).begun
      _ ~ (hist.flatMap (·.ended) ++ s.busy) ++ (s.step now i).begun := h.at_work.append_right _
      _ = hist.flatMap (·.ended) ++ (s.busy ++ (s.step now i).begun) := List.append_assoc ..
      _ ~ hist.flatMap (·.ended) ++ ((s.step now i).ended ++ (s.after now i).busy) :=
        hperm.append_left _
      _ = hist.flatMap (·.ended) ++ (s.step now i).ended ++ (s.after now i).busy :=
        (List.append_assoc ..).symm
  case once => exact h.once_step hs now i
  case fresh => exact h.fresh_step hs now i
  case running =>
    intro hnone
    obtain ⟨hearlier, hi⟩ := List.forall_mem_append.mp hnone
    have hshutdown : i.isShutdown = false := hi _ List.mem_cons_self
    rw [ht.running, h.running hearlier, hshutdown]
    rfl
  case in_turn => exact h.in_turn_step hs now i

/-- The run of a shift whose workers run logs all its tasks. -/
theorem log_run (h : s.Sound) (hwaiting : s.waiting = []) (hbusy : s.busy = [])
    (hsub : s.submissions = 0) (hrun : s.workers.running) (xs : List (Nat × ShiftInput)) :
    Log (s.steps xs) (s.run xs) :=
  (run_keeps (P := fun hist m => m.Sound ∧ Log hist m) ⟨h, log_nil hwaiting hbusy hsub hrun⟩
    (fun _ _ now i hm => ⟨hm.1.after now i, hm.2.step hm.1 now i⟩) xs).2

/-- The limit of the workers stays as it is. -/
theorem limit_run (s : Shift) (xs : List (Nat × ShiftInput)) :
    (s.run xs).workers.limit = s.workers.limit := by
  apply run_keeps (P := fun _ m => m.workers.limit = s.workers.limit) rfl
  intro _ m now i hm
  obtain ⟨_, ht⟩ := took_after now m i
  exact ht.limit.trans hm

/-- While the pool is running and nothing can be done, nobody was called. -/
private theorem Sound.called_eq_nil (h : s.Sound) (hidle : s.isDue now = false) :
    s.workers.called = [] := by
  rw [List.eq_nil_iff_forall_not_mem]
  intro n hn
  -- Whoever is called waits, and could go on now.
  have hmem : n ∈ s.waiting.map (·.1) := h.pending ▸ List.mem_append_left _ hn
  obtain ⟨e, he, rfl⟩ := List.mem_map.mp hmem
  have hnot := (isDue_eq_false_iff.mp hidle).2.1 e he
  simp [Workers.isCalled, hn] at hnot

/-- Every submission returns in its step, or it waits until it returns. -/
private theorem Sound.answered (h : s.Sound) {xs : List (Nat × ShiftInput)}
    {before later : List ShiftStep} {x : ShiftStep} (hcut : s.steps xs = before ++ x :: later)
    {t : Task} (hinput : x.input = .submit t) :
    (∃ r, x.Returns x.before.submissions t r) ∨
      (x.before.submissions, t) ∈ x.after.waiting ∧
        Until ((x.before.submissions, t) ∈ ·.before.waiting)
          (fun y => ∃ r, y.Returns x.before.submissions t r) later := by
  obtain ⟨ys, now, i, zs, -, rfl, rfl⟩ := exists_cut_of_steps hcut
  have hs := h.run ys
  refine ((hs.responsive now i).submits t hinput).imp_right fun hwaits => ⟨hwaits, ?_⟩
  generalize ((s.run ys).step now i).before.submissions = n at hwaits ⊢
  -- The submission stays in the line until the step in which it returns.
  refine until_steps (I := fun m => m.Sound ∧ (n, t) ∈ m.waiting) (fun _ _ _ hm => hm.2)
    (fun m now i hm => ?_) ⟨hs.after now i, hwaits⟩ zs
  exact ((hm.1.responsive now i).waits _ hm.2).imp (fun hw => ⟨hm.1.after now i, hw⟩)
    fun hr => ⟨_, hr⟩

/-- In every run of every pool, whatever tasks are submitted and whether they end or break off:
    a submission is accepted at most once and its task runs from then on, as many tasks are active
    as were accepted and are not over, at most as many as there are workers, and nobody waits in
    vain or out of turn. -/
theorem disciplined_run (core limit : Nat) (xs : List (Nat × ShiftInput)) :
    Disciplined (max limit 1) ((ofSize core limit).steps xs) ((ofSize core limit).run xs) := by
  have hs := sound_run core limit xs
  have hlog := fun ys => log_run (sound_ofSize core limit) rfl rfl rfl rfl ys
  have hlimit : ((ofSize core limit).run xs).workers.limit = max limit 1 := limit_run _ xs
  -- While the workers run, each of them is free, at work or called.
  have hsum : ((ofSize core limit).run xs).workers.running →
      ((ofSize core limit).run xs).workers.free + ((ofSize core limit).run xs).workers.active +
        ((ofSize core limit).run xs).workers.called.length = max limit 1 := fun hrun => by
    have hsum := hs.manned.sum (hs.manned.open_of_running hrun)
    rw [hs.manned.kept_of_running hrun, hlimit] at hsum
    exact hsum
  constructor
  case toLog => exact hlog xs
  case active => exact hs.active
  case active_le => exact hlimit ▸ hs.manned.active_le
  case responsive =>
    intro x hx
    obtain ⟨ys, now, i, rfl⟩ := exists_run_of_mem_steps hx
    exact (sound_run core limit ys).responsive now i
  case answered =>
    intro before x later hcut t hinput
    exact (sound_ofSize core limit).answered hcut hinput
  case at_once =>
    intro before x later hcut hnone t hinput hfree
    obtain ⟨ys, now, i, zs, rfl, rfl, -⟩ := exists_cut_of_steps hcut
    have hrun := (hlog ys).running hnone
    exact ((sound_run core limit ys).responsive now i).accepts t hinput hrun hfree
  case no_idling =>
    intro hnone
    exact ⟨hsum ((hlog xs).running hnone), fun hne => (hs.manned.line hne).1⟩
  case no_waiting =>
    intro hnone now hidle hwaiting
    -- Nobody is called, so whoever is pending stands in the line.
    have hcalled := hs.called_eq_nil hidle
    have hpending := hs.pending
    rw [Workers.pending, hcalled, List.nil_append] at hpending
    have hline : ((ofSize core limit).run xs).workers.waiting ≠ [] := fun hnil =>
      hwaiting (List.map_eq_nil_iff.mp (hpending.trans hnil))
    -- A line means that nobody is free: all are at work.
    have hfree := (hs.manned.line hline).1
    have hall := hsum ((hlog xs).running hnone)
    rw [hcalled, hfree, List.length_nil] at hall
    omega
  case on_time =>
    intro hprompt x hx
    have hnow := hprompt.punctual_ofSize x hx
    refine ⟨hnow.busy, fun b hb => ?_⟩
    have hbusy : b ∈ x.before.busy := (List.mem_filter.mp hb).1
    exact Nat.le_antisymm (hnow.busy b hbusy) (((hlog xs).proper x hx).ends b hb).2

/-- The task of the only worker breaks off.  Of the two submissions that wait the first one goes on
    at that instant, and the second one when the next task ends; nothing is put off. -/
theorem disciplined_run_turns :
    let xs : List (Nat × ShiftInput) := [(0, .submit ⟨"a", 5, true⟩), (1, .submit ⟨"b", 4, false⟩),
      (2, .submit ⟨"c", 3, false⟩), (5, .finish 0), (5, .resume 1), (9, .finish 1), (9, .resume 2),
      (12, .finish 2)]
    let hist := (ofSize 1 1).steps xs
    Prompt hist ∧ (∀ x ∈ hist, x.InTurn) ∧
      hist.map (fun x => (x.begun.map (·.number), x.ended.map (·.number))) =
        [([0], []), ([], []), ([], []), ([], [0]), ([1], []), ([], [1]), ([2], []), ([], [2])] ∧
      hist.map (·.after.workers.active) = [1, 1, 1, 0, 1, 0, 1, 0] ∧
      Disciplined 1 hist ((ofSize 1 1).run xs) := by
  intro xs hist
  have hprompt : Prompt hist := by decide +kernel
  have hturn : ∀ x ∈ hist, x.InTurn := by decide
  -- The first task breaks, and gives its worker back all the same.
  exact ⟨hprompt, hturn, by decide, by decide, disciplined_run 1 1 xs⟩

end Shift

end Intake
