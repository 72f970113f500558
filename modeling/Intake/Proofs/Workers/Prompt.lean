import Intake.Proofs.Timeline
import Intake.Proofs.Workers.Shift
import Mathlib.Data.List.Chain
import Mathlib.Data.Nat.Find

/-!
# Runs of a shift in time

The inputs of a run say when a task ends, when a submission goes on and when the shutdown
returns.  A run is prompt if time passes only while nothing of this can be done.

- `isDue_eq_false_iff`: what is so when nothing can be done
- `Prompt`: nothing that can be done is put off
- `Prompt.punctual`: then everything happens at its instant
- `load_of_act?`: whatever can be done leaves less to do
- `Prompt.exists_onward`: a prompt run goes on promptly to every later instant
- `exists_run_of_runUntil`: time that passes at a shift is one of the runs
-/

namespace Intake

namespace Shift

variable {s : Shift} {now : Nat}

/-- Whether a task can end, a submission go on or the shutdown return at an instant. -/
def isDue (s : Shift) (now : Nat) : Bool := (timeline.act? now s).isSome

/-- Nothing is due: nobody is at its end, nobody is called, and the shutdown has to wait. -/
theorem isDue_eq_false_iff : s.isDue now = false ↔ (∀ b ∈ s.busy, now < b.due) ∧
    (∀ e ∈ s.waiting, s.workers.isCalled e.1 = false) ∧
    ∀ c, s.closing = some c → s.workers.isDrained = false ∧ now < c.deadline := by
  have hclose : s.closeDone? now = none ↔
      ∀ c, s.closing = some c → s.workers.isDrained = false ∧ now < c.deadline := by
    unfold closeDone?
    cases hc : s.closing with
    | none => simp
    | some c => simp
  rw [← hclose]
  simp only [isDue, timeline, finishFirst?, resumeFirst?]
  -- By the three questions of the timeline, in their order.
  cases hbusy : s.busy.find? (·.due ≤ now) with
  | some b =>
    have hb := List.find?_some hbusy
    have hmem := List.mem_of_find?_eq_some hbusy
    simp only [Option.map_some, Option.isSome_some, Bool.true_eq_false, false_iff, not_and]
    intro hall
    have hlt := hall b hmem
    simp only [decide_eq_true_eq] at hb
    omega
  | none =>
    cases hwaiting : s.waiting.find? (fun e => s.workers.isCalled e.1) with
    | some e =>
      have he := List.find?_some hwaiting
      have hmem := List.mem_of_find?_eq_some hwaiting
      simp only [Option.map_none, Option.map_some, Option.isSome_some, Bool.true_eq_false,
        false_iff, not_and]
      intro _ hall
      rw [hall e hmem] at he
      cases he
    | none =>
      have hdue : ∀ b ∈ s.busy, now < b.due := by simpa using hbusy
      have hcalled : ∀ e ∈ s.waiting, s.workers.isCalled e.1 = false := by simpa using hwaiting
      simp only [Option.map_none, Option.isSome_eq_false_iff, Option.isNone_iff_eq_none]
      exact ⟨fun hclosed => ⟨hdue, hcalled, hclosed⟩, fun h => h.2.2⟩

end Shift

namespace ShiftStep

/-- A step follows another one promptly: no instant has gone by at which anything could be done. -/
structure PromptAfter (x y : ShiftStep) : Prop where
  le : x.now ≤ y.now
  idle : ∀ u < y.now, x.now ≤ u → y.before.isDue u = false

instance (x y : ShiftStep) : Decidable (x.PromptAfter y) :=
  decidable_of_iff (x.now ≤ y.now ∧ ∀ u < y.now, x.now ≤ u → y.before.isDue u = false)
    ⟨fun h => ⟨h.1, h.2⟩, fun h => ⟨h.le, h.idle⟩⟩

/-- Submissions that were called go on in the order in which they were called. -/
def InTurn (x : ShiftStep) : Prop :=
  ∀ n, x.input = .resume n → x.before.workers.called.head? = some n

instance : (x : ShiftStep) → Decidable x.InTurn
  | ⟨_, .resume n, s, _⟩ => decidable_of_iff (s.workers.called.head? = some n)
      ⟨fun h _ hn => ShiftInput.resume.inj hn ▸ h, fun h => h n rfl⟩
  | ⟨_, .submit _, _, _⟩ | ⟨_, .shutdown _ _, _, _⟩ | ⟨_, .finish _, _, _⟩ | ⟨_, .close, _, _⟩ =>
    isTrue nofun

end ShiftStep

namespace Shift

variable {s s' : Shift} {now : Nat}

/-- Each step follows the one before it promptly. -/
def Prompt (hist : List ShiftStep) : Prop := hist.IsChain ShiftStep.PromptAfter

instance (hist : List ShiftStep) : Decidable (Prompt hist) :=
  inferInstanceAs (Decidable (hist.IsChain ShiftStep.PromptAfter))

/-- In a prompt run time does not go back. -/
theorem Prompt.pairwise {hist : List ShiftStep} (h : Prompt hist) :
    hist.Pairwise (·.now ≤ ·.now) := by
  have hle : hist.IsChain (·.now ≤ ·.now) := h.imp fun _ _ hxy => hxy.le
  exact hle.pairwise

/-- As long as something can be done time does not go on. -/
theorem Prompt.until_at_once {Q : ShiftStep → Prop} {I : Shift → Prop}
    (hdue : ∀ m u, I m → m.isDue u)
    (hI : ∀ m now i, I m → I (m.after now i) ∨ Q (m.step now i)) {x : ShiftStep}
    {xs : List (Nat × ShiftInput)} (h : Prompt (x :: x.after.steps xs)) (hx : I x.after) :
    Until (·.now = x.now) Q (x.after.steps xs) := by
  induction xs generalizing x with
  | nil => trivial
  | cons y xs ih =>
    have hnext := (List.isChain_cons_cons.mp h).1
    -- Something is due after the first step, so no time passes.
    have hnow : y.1 = x.now := by
      by_contra hne
      have hlt : x.now < y.1 := Nat.lt_of_le_of_ne hnext.le (Ne.symm hne)
      have hidle : x.after.isDue x.now = false := hnext.idle x.now hlt (Nat.le_refl _)
      cases (hdue x.after x.now hx).symm.trans hidle
    refine ⟨hnow, (hI x.after y.1 y.2 hx).symm.imp_right fun hafter => ?_⟩
    have hrest := ih (x := x.after.step y.1 y.2) (List.IsChain.tail h) hafter
    exact hrest.imp (fun z _ hz => hz.trans hnow) fun _ _ hz => hz

/-- Nothing was put off for which the instant was known. -/
structure Punctual (now : Nat) (s : Shift) : Prop where
  busy : ∀ b ∈ s.busy, now ≤ b.due
  closing : ∀ c, s.closing = some c → now ≤ c.deadline

/-- A step at an instant leaves nothing overdue there. -/
theorem Punctual.after (h : s.Punctual now) (i : ShiftInput) :
    (s.after now i).Punctual now := by
  obtain ⟨_, ht⟩ := took_after now s i
  -- Whatever is put to work now ends later, and so does a shutdown that begins now.
  constructor
  · intro b hb
    rcases ht.mem_busy hb with hb | hdue
    · exact h.busy b hb
    · omega
  · intro c hc
    rcases ht.closing_eq hc with hc | ⟨-, -, hdeadline⟩
    · exact h.closing c hc
    · omega

/-- Time goes on past no instant at which something can be done. -/
private theorem Punctual.later {now' : Nat} (h : s.Punctual now)
    (hidle : ∀ u < now', now ≤ u → s.isDue u = false) : s.Punctual now' := by
  constructor
  · intro b hb
    -- Otherwise the task would be due at its instant, where nothing is.
    by_contra hlt
    have hnot := isDue_eq_false_iff.mp (hidle b.due (by omega) (h.busy b hb))
    exact Nat.lt_irrefl _ (hnot.1 b hb)
  · intro c hc
    by_contra hlt
    have hnot := isDue_eq_false_iff.mp (hidle c.deadline (by omega) (h.closing c hc))
    exact Nat.lt_irrefl _ (hnot.2.2 c hc).2

/-- In a prompt run everything happens at its instant. -/
theorem Prompt.punctual {i : ShiftInput} {xs : List (Nat × ShiftInput)}
    (h : Prompt (s.step now i :: (s.after now i).steps xs)) (hs : s.Punctual now) :
    ∀ y ∈ s.step now i :: (s.after now i).steps xs, y.before.Punctual y.now := by
  -- From step to step, since nothing was due in between.
  induction xs generalizing s now i with
  | nil =>
    intro y hy
    rw [List.mem_singleton.mp hy]
    exact hs
  | cons x xs ih =>
    intro y hy
    rcases List.mem_cons.mp hy with rfl | hy
    · exact hs
    · have hnext := (List.isChain_cons_cons.mp h).1
      exact ih (List.IsChain.tail h) ((hs.after i).later hnext.idle) y hy

/-- A prompt run from the beginning is never late. -/
theorem Prompt.punctual_ofSize {core limit : Nat} {xs : List (Nat × ShiftInput)}
    (h : Prompt ((ofSize core limit).steps xs)) :
    ∀ y ∈ (ofSize core limit).steps xs, y.before.Punctual y.now := by
  cases xs with
  | nil =>
    intro y hy
    cases hy
  | cons x xs => exact h.punctual ⟨nofun, nofun⟩

/-- The first that waits was called first, if any was. -/
private theorem Sound.head?_called (h : s.Sound) {e : Nat × Task}
    (he : s.waiting.find? (fun e => s.workers.isCalled e.1) = some e) :
    s.workers.called.head? = some e.1 := by
  have hpending := h.pending
  -- The line begins with those called.
  cases hcalled : s.workers.called with
  | nil =>
    have hc := List.find?_some he
    simp [Workers.isCalled, hcalled] at hc
  | cons n rest =>
    rw [Workers.pending, hcalled, List.cons_append] at hpending
    obtain ⟨e', _, hwaiting, rfl, -⟩ := List.map_eq_cons_iff.mp hpending
    rw [hwaiting, List.find?_cons_of_pos (by simp [Workers.isCalled, hcalled])] at he
    rw [Option.some.inj he]
    rfl

/-- What can be done at an instant is one of the inputs by which the pool goes on itself. -/
private theorem exists_input_of_act? (h : s.Sound) (hact : timeline.act? now s = some s') :
    ∃ i, s' = s.after now i ∧ i.isOwn ∧ (s.step now i).InTurn := by
  simp only [timeline] at hact
  split at hact
  -- First a task that is over, then the first one called, then the shutdown.
  next _ hfinish =>
    cases hact
    obtain ⟨b, hb, rfl⟩ := Option.map_eq_some_iff.mp hfinish
    have hdue : b.due ≤ now := by simpa using List.find?_some hb
    have hfind := List.find?_key (·.number) h.busy_nodup (List.mem_of_find?_eq_some hb)
    refine ⟨.finish b.number, ?_, rfl, fun n hn => by cases hn⟩
    simp only [Shift.after, hfind, if_pos hdue]
  split at hact
  next _ hresume =>
    cases hact
    obtain ⟨e, he, rfl⟩ := Option.map_eq_some_iff.mp hresume
    have hc := List.find?_some he
    have hfind := List.find?_key (·.1) h.waiting_nodup (List.mem_of_find?_eq_some he)
    refine ⟨.resume e.1, ?_, rfl, ?_⟩
    · simp only [Shift.after, hfind, if_pos hc]
    · intro n hn
      -- It is the first of those called, so it is in turn.
      rw [← ShiftInput.resume.inj hn]
      exact h.head?_called he
  next =>
    refine ⟨.close, ?_, rfl, fun n hn => by cases hn⟩
    simp only [Shift.after, hact, Option.getD_some]

/-! ## What can be done is done in the end -/

/-- How much is left to do at most: each submission that waits goes on and then its task ends, each
    task at work ends, and a shutdown returns. -/
def load (s : Shift) : Nat :=
  2 * s.waiting.length + s.busy.length + if s.closing.isSome then 1 else 0

/-- A task that is over leaves less to do. -/
private theorem load_finish (h : s.Sound) {b : Stint} (hb : b ∈ s.busy) :
    (s.finish now b).load < s.load := by
  have hlength := List.length_remove h.busy_nodup hb
  unfold load
  rw [waiting_finish, busy_finish, closing_finish]
  omega

/-- A submission that goes on leaves its task at the most. -/
private theorem load_resume (h : s.Sound) {e : Nat × Task} (he : e ∈ s.waiting) :
    (s.resume now e).load < s.load := by
  have hlength := List.length_remove h.waiting_nodup he
  have hbusy := length_busy_resume_le now e s
  unfold load
  rw [waiting_resume, closing_resume]
  omega

/-- Whatever can be done leaves less to do. -/
theorem load_of_act? (h : s.Sound) (hact : timeline.act? now s = some s') : s'.load < s.load := by
  simp only [timeline] at hact
  split at hact
  -- A task that ends leaves fewer at work.
  next _ hfinish =>
    cases hact
    obtain ⟨b, hb, rfl⟩ := Option.map_eq_some_iff.mp hfinish
    exact load_finish h (List.mem_of_find?_eq_some hb)
  split at hact
  next _ hresume =>
    cases hact
    -- One that goes on leaves fewer in the line.
    obtain ⟨e, he, rfl⟩ := Option.map_eq_some_iff.mp hresume
    exact load_resume h (List.mem_of_find?_eq_some he)
  next =>
    unfold closeDone? at hact
    split at hact
    next c hc =>
      split at hact
      next =>
        -- The shutdown returns, and is pending no more.
        obtain rfl := Option.some.inj hact
        simp only [load, close, note, hc, Option.isSome_some, Option.isSome_none, if_true,
          Bool.false_eq_true, if_false]
        omega
      next => cases hact
    next => cases hact

/-- A run that has been prompt so far goes on promptly to every later instant by what the pool does
    itself, whatever happens then. -/
theorem Prompt.exists_onward {x : ShiftStep} (hs : x.after.Sound) {u : Nat} (hu : x.now ≤ u) :
    ∃ ys : List (Nat × ShiftInput), (∀ y ∈ ys, y.1 ≤ u ∧ y.2.isOwn) ∧
      ∀ i, Prompt (x :: x.after.steps (ys ++ [(u, i)])) := by
  -- The induction is on what is left to do.
  induction hload : x.after.load using Nat.strongRecOn generalizing x with
  | ind load ih =>
    by_cases hdue : ∃ v, x.now ≤ v ∧ v ≤ u ∧ x.after.isDue v
    · -- The next thing is done at the first instant at which anything can be done.
      obtain ⟨hnow, hle, hact⟩ := Nat.find_spec hdue
      have hfirst : ∀ w < Nat.find hdue, x.now ≤ w → x.after.isDue w = false := by
        intro w hlt hw
        rw [Bool.eq_false_iff]
        exact fun hact => Nat.find_min hdue hlt ⟨hw, Nat.le_trans (Nat.le_of_lt hlt) hle, hact⟩
      generalize Nat.find hdue = v at hnow hle hact hfirst
      obtain ⟨m, hm⟩ := Option.isSome_iff_exists.mp hact
      have hless := load_of_act? hs hm
      obtain ⟨i, rfl, hown, -⟩ := exists_input_of_act? hs hm
      obtain ⟨ys, hys, hprompt⟩ := ih _ (hload ▸ hless) (x := x.after.step v i) (hs.after v i) hle rfl
      refine ⟨(v, i) :: ys, List.forall_mem_cons.mpr ⟨⟨hle, hown⟩, hys⟩, fun j => ?_⟩
      exact .cons_cons ⟨hnow, hfirst⟩ (hprompt j)
    · refine ⟨[], nofun, fun i => .cons_cons ⟨hu, fun w hlt hw => ?_⟩ (.singleton _)⟩
      rw [Bool.eq_false_iff]
      exact fun hact => hdue ⟨w, hw, Nat.le_of_lt hlt, hact⟩

/-- Time that passes at a shift is one of the runs, in which submissions go on in turn. -/
theorem exists_run_of_runUntil (h : s.Sound) (done : Shift → Bool) (limit now : Nat) :
    ∃ xs : List (Nat × ShiftInput), (xs.map (·.1)).Pairwise (· ≤ ·) ∧
      (∀ x ∈ xs, now ≤ x.1 ∧ x.1 ≤ (timeline.runUntil done limit now s).1) ∧
      (∀ x ∈ s.steps xs, x.InTurn) ∧ (timeline.runUntil done limit now s).2 = s.run xs := by
  have hnone : ∀ x ∈ s.steps [], x.InTurn := fun x hx => absurd hx List.not_mem_nil
  refine timeline.exists_inputs_of_runUntil (s := s)
    (R := fun xs m => (∀ x ∈ s.steps xs, x.InTurn) ∧ m = s.run xs)
    -- Each act of the timeline is an input, and in turn.
    (fun now xs m m' hact hm => ?_) done limit now ⟨hnone, rfl⟩
  obtain ⟨hturn, rfl⟩ := hm
  obtain ⟨i, rfl, -, hi⟩ := exists_input_of_act? (h.run xs) hact
  refine ⟨i, fun x hx => ?_, (run_append s xs [(now, i)]).symm⟩
  rw [steps, noted_append] at hx
  rcases List.mem_append.mp hx with hx | hx
  · exact hturn x hx
  · rw [List.mem_singleton.mp hx]
    exact hi

end Shift

end Intake
