import Intake.Proofs.Listener.Sound
import Mathlib.Data.List.Chain

/-!
# Runs in which nobody dawdles

A listener does nothing by itself: the stimuli of a run say which poller and which call
goes on, and when.  A run is prompt if time passes only while no poller and no call can go
on.  In a prompt run nobody waits beyond the instant for which it waits.

- `Step.PromptAfter`: a step follows another one promptly
- `Prompt`: each step follows the one before it promptly
-/

namespace Intake

namespace Listener

variable {l : Listener} {now : Nat}

/-- Whether a pending call or a poller can go on at an instant. -/
def isDue (l : Listener) (now : Nat) : Bool :=
  (l.pendingCall? now).isSome || (l.readyPoller? now).isSome

/-- Due is a call or a poller that can go on. -/
theorem isDue_iff : l.isDue now ↔
    (∃ c ∈ l.calls, l.canProceed now c) ∨ ∃ x ∈ l.pollers, l.canGoOn now x := by
  simp [isDue, pendingCall?, readyPoller?, List.find?_isSome]

/-- The steps of a run are the first and those after it. -/
theorem steps_cons (l : Listener) (x : Nat × Stimulus) (xs : List (Nat × Stimulus)) :
    l.steps (x :: xs) = l.step x.1 x.2 :: (l.react x.1 x.2).1.steps xs := rfl

/-- The steps of a run of two parts. -/
theorem steps_append (l : Listener) (xs ys : List (Nat × Stimulus)) :
    l.steps (xs ++ ys) = l.steps xs ++ (l.run xs).steps ys :=
  noted_append ..

/-- Where the steps of a run are cut, the run goes on from the state after the cut. -/
theorem exists_cut_of_steps {xs : List (Nat × Stimulus)} {before later : List Step} {x : Step}
    (h : l.steps xs = before ++ x :: later) :
    ∃ ys now s zs, xs = ys ++ (now, s) :: zs ∧ before = l.steps ys ∧ x = (l.run ys).step now s ∧
      later = x.after.steps zs := by
  obtain ⟨ys, y, zs, hxs, hbefore, rfl, hlater⟩ := exists_cut_of_noted h
  exact ⟨ys, y.1, y.2, zs, hxs, hbefore, rfl, hlater⟩

/-- Wherever a step and the steps after it are cut, the run goes on from there. -/
theorem exists_steps_of_cut {ys : List (Nat × Stimulus)} {x y : Step} {before rest : List Step}
    (h : x :: x.after.steps ys = before ++ y :: rest) : ∃ zs, rest = y.after.steps zs := by
  -- The cut is right behind the first step, or within the run that follows.
  cases before with
  | nil =>
    obtain ⟨rfl, rfl⟩ := List.cons.inj h
    exact ⟨ys, rfl⟩
  | cons z before =>
    obtain ⟨_, _, _, zs, -, -, -, hzs⟩ := exists_cut_of_steps (List.cons.inj h).2
    exact ⟨zs, hzs⟩

end Listener

/-- A step follows another one promptly: no instant has gone by at which a call or a poller
    could go on. -/
structure Step.PromptAfter (x y : Step) : Prop where
  le : x.now ≤ y.now
  idle : ∀ u < y.now, x.now ≤ u → y.before.isDue u = false

instance (x y : Step) : Decidable (x.PromptAfter y) :=
  decidable_of_iff (x.now ≤ y.now ∧ ∀ u < y.now, x.now ≤ u → y.before.isDue u = false)
    ⟨fun h => ⟨h.1, h.2⟩, fun h => ⟨h.le, h.idle⟩⟩

/-- Each step follows the one before it promptly. -/
def Prompt (hist : List Step) : Prop := hist.IsChain Step.PromptAfter

instance (hist : List Step) : Decidable (Prompt hist) :=
  inferInstanceAs (Decidable (hist.IsChain Step.PromptAfter))

namespace Prompt

variable {x y : Step} {hist before : List Step}

/-- The second step comes promptly after the first. -/
theorem head (h : Prompt (x :: y :: hist)) : x.PromptAfter y := (List.isChain_cons_cons.mp h).1

/-- The rest is prompt as well. -/
theorem tail (h : Prompt (x :: hist)) : Prompt hist := List.IsChain.tail h

/-- What comes after a cut is prompt. -/
theorem of_append (h : Prompt (before ++ hist)) : Prompt hist := h.right_of_append

/-- Instants do not go back. -/
theorem now_le (h : Prompt (x :: hist)) (hy : y ∈ hist) : x.now ≤ y.now := by
  induction hist generalizing x with
  | nil => cases hy
  | cons z hist ih =>
    rcases List.mem_cons.mp hy with rfl | hy
    · exact h.head.le
    · exact Nat.le_trans h.head.le (ih h.tail hy)

end Prompt

end Intake
