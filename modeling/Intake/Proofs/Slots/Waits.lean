import Intake.Proofs.Run
import Intake.Proofs.Slots
import Intake.Proofs.Timeline
import Intake.Slots.Waits
import Mathlib.Data.List.Chain

/-!
# Runs of slots with waits

Slots are taken and come back, and callers wait for them, in any order; which of the waits that
can end goes on first is left open.  So every way in which calls can be interleaved is among the
runs.

- `Took`: what one step does
- `Slots.Within`: slots stay between zero and the capacity
- `SlotStep.Ends`: a wait ends at a step
- `Prompt`: time passes only while no wait can end
- `exists_run_of_runUntil`: time that passes at slots is one of the runs
-/

namespace Intake

/-- One thing that happens at slots. -/
inductive SlotInput
  | acquire (n : Nat)
  | release (n : Nat)
  /-- Take a slot under a name, if one is free. -/
  | hold (name : String)
  /-- Give back the slot that is held under a name, if there is one. -/
  | drop (name : String)
  | await (name : String) (timeout : Nat)
  /-- A wait ends, if it can. -/
  | goOn (name : String)
deriving DecidableEq

/-- Whether a wait begins under a name. -/
def SlotInput.awaits (name : String) : SlotInput → Bool
  | .await name' _ => name' = name
  | _ => false

/-- What happened at one input. -/
structure SlotStep where
  now : Nat
  input : SlotInput
  before : SlotWaits
  after : SlotWaits

namespace SlotStep

/-- Whether slots come back at a step. -/
def givesBack (x : SlotStep) : Bool :=
  match x.input with
  | .release _ => true
  | .drop name => name ∈ x.before.held
  -- The slot that was held under the name comes back.
  | .hold name => 0 < x.before.slots.free && name ∈ x.before.held
  | _ => false

/-- Whether slots come back at a step and leave enough free to wake the waiters. -/
def wakes (x : SlotStep) : Bool := x.givesBack && x.after.slots.wakes

/-- A wait ends at a step. -/
def Ends (name : String) (o : WaitOutcome) (x : SlotStep) : Prop :=
  x.after.ended = (x.now, name, o) :: x.before.ended

instance (name : String) (o : WaitOutcome) (x : SlotStep) : Decidable (x.Ends name o) :=
  inferInstanceAs (Decidable (_ = _))

/-- A wait ends at a step, in one way or the other. -/
def Over (name : String) (x : SlotStep) : Prop := ∃ o, x.Ends name o

end SlotStep

namespace SlotWaits

variable {w w' : SlotWaits} {now : Nat} {i : SlotInput} {name : String}

/-- The slots and waits after one input. -/
def after (now : Nat) (w : SlotWaits) : SlotInput → SlotWaits
  | .acquire n => w.acquire n
  | .release n => w.release n
  | .hold name => (w.hold? name).getD w
  | .drop name => (w.drop? name).getD w
  | .await name timeout => w.await now name timeout
  | .goOn name =>
    match w.waiters.find? fun x => x.name = name && ends now x with
    | some x => w.endWait now x
    | none => w

/-- The step that an input leads to. -/
def step (w : SlotWaits) (now : Nat) (i : SlotInput) : SlotStep := ⟨now, i, w, w.after now i⟩

/-- The slots and waits after one input at an instant. -/
def next (w : SlotWaits) (x : Nat × SlotInput) : SlotWaits := w.after x.1 x.2

/-- The slots and waits after a sequence of inputs. -/
def run (w : SlotWaits) (xs : List (Nat × SlotInput)) : SlotWaits := xs.foldl next w

/-- The steps that a sequence of inputs leads to. -/
def steps (w : SlotWaits) (xs : List (Nat × SlotInput)) : List SlotStep :=
  noted next (fun w x => w.step x.1 x.2) w xs

/-- The steps of a run are the first and those after it. -/
theorem steps_cons (w : SlotWaits) (x : Nat × SlotInput) (xs : List (Nat × SlotInput)) :
    w.steps (x :: xs) = w.step x.1 x.2 :: (w.after x.1 x.2).steps xs := rfl

/-- What holds at first and is kept by every step holds after every run.  The property may look
    back at the steps so far. -/
theorem run_keeps {P : List SlotStep → SlotWaits → Prop} (h0 : P [] w)
    (hstep : ∀ hist m now i, P hist m → P (hist ++ [m.step now i]) (m.after now i))
    (xs : List (Nat × SlotInput)) : P (w.steps xs) (w.run xs) :=
  foldl_keeps h0 xs fun hist m x _ => hstep hist m x.1 x.2

/-- Where the steps of a run are cut, the run goes on from the state after the cut. -/
theorem exists_cut_of_steps {xs : List (Nat × SlotInput)} {before later : List SlotStep}
    {x : SlotStep} (h : w.steps xs = before ++ x :: later) :
    ∃ ys now i zs, before = w.steps ys ∧ x = (w.run ys).step now i ∧
      later = x.after.steps zs := by
  obtain ⟨ys, y, zs, -, hbefore, rfl, hlater⟩ := exists_cut_of_noted h
  exact ⟨ys, y.1, y.2, zs, hbefore, rfl, hlater⟩

/-- A step of a run is made from a state to which a part of the run has led. -/
theorem exists_run_of_mem_steps {xs : List (Nat × SlotInput)} {x : SlotStep}
    (hx : x ∈ w.steps xs) : ∃ ys now i, x = (w.run ys).step now i := by
  obtain ⟨before, later, hcut⟩ := List.append_of_mem hx
  obtain ⟨ys, now, i, -, -, rfl, -⟩ := exists_cut_of_steps hcut
  exact ⟨ys, now, i, rfl⟩

/-! ## What one step does -/

/-- A wait that a release has ended. -/
def woke (x : SlotWaiter) : SlotWaiter := { x with woken := true }

/-- A release says which slots are free then, and who is woken. -/
private theorem release_eq (w : SlotWaits) (n : Nat) : w.release n = { w with
    slots := w.slots.release n
    waiters := if (w.slots.release n).wakes then w.waiters.map woke else w.waiters } := by
  unfold release
  dsimp only
  split <;> rfl

/-- What an input does at an instant. -/
inductive Took (now : Nat) (w : SlotWaits) : SlotInput → SlotWaits → Prop
  | acquired (n : Nat) : Took now w (.acquire n) (w.acquire n)
  | released (n : Nat) : Took now w (.release n) (w.release n)
  | held {name : String} (hfree : 0 < w.slots.free) (hnew : name ∉ w.held) :
    Took now w (.hold name) { w.acquire 1 with held := name :: w.held }
  /-- A slot is taken under a name, and the one that was held under it comes back. -/
  | renewed {name : String} (hfree : 0 < w.slots.free) (hheld : name ∈ w.held) :
    Took now w (.hold name) ((w.acquire 1).release 1)
  | denied (name : String) (hfree : w.slots.free = 0) : Took now w (.hold name) w
  | dropped {name : String} (hheld : name ∈ w.held) :
    Took now w (.drop name) ({ w with held := w.held.erase name }.release 1)
  | unheld {name : String} (hheld : name ∉ w.held) : Took now w (.drop name) w
  /-- A wait is over at once. -/
  | served (name : String) (timeout : Nat) (hfree : 0 < w.slots.free) :
    Took now w (.await name timeout) { w with ended := (now, name, .available) :: w.ended }
  | began (name : String) (timeout : Nat) (hfree : w.slots.free = 0) :
    Took now w (.await name timeout)
      { w with waiters := w.waiters ++ [⟨name, now + timeout, false⟩] }
  | ended {x : SlotWaiter} (hx : x ∈ w.waiters) (hends : ends now x) :
    Took now w (.goOn x.name) (w.endWait now x)
  /-- No wait of the name can end. -/
  | stayed {name : String} (h : ∀ x ∈ w.waiters, x.name = name → ends now x = false) :
    Took now w (.goOn name) w

/-- Each step is one of the ways to go on. -/
theorem took_after (now : Nat) (w : SlotWaits) (i : SlotInput) : Took now w i (w.after now i) := by
  cases i with
  -- All others are the definition itself; a hold needs one free slot.
  | acquire n => exact .acquired n
  | release n => exact .released n
  | hold name =>
    have hone : w.slots.granted 1 = 1 ↔ 0 < w.slots.free := by
      unfold Slots.granted
      omega
    simp only [after, hold?, hone]
    split
    next hfree =>
      rw [Option.getD_some]
      split
      next hheld => exact .renewed hfree hheld
      next hnew => exact .held hfree hnew
    next hfree => exact .denied name (Nat.eq_zero_of_not_pos hfree)
  | drop name =>
    simp only [after, drop?]
    split
    next hheld => exact .dropped hheld
    next hheld => exact .unheld hheld
  | await name timeout =>
    simp only [after, await]
    split
    next hfree => exact .served name timeout hfree
    next hfree => exact .began name timeout (Nat.eq_zero_of_not_pos hfree)
  | goOn name =>
    simp only [after]
    split
    next x hx =>
      obtain ⟨rfl, hends⟩ := by simpa using List.find?_some hx
      exact .ended (List.mem_of_find?_eq_some hx) hends
    next hnone => exact .stayed (by simpa using hnone)

/-! ## The slots -/

end SlotWaits

/-- Slots of the same capacity and threshold, of which not more are free than there are. -/
structure Slots.Within (s s' : Slots) : Prop where
  capacity : s'.capacity = s.capacity
  threshold : s'.threshold = s.threshold
  free_le : s'.free ≤ s.capacity

namespace Slots.Within

variable {s s' : Slots}

/-- Acquiring keeps the slots within their capacity. -/
theorem acquire (h : s.Within s') (n : Nat) : s.Within (s'.acquire n) :=
  ⟨h.capacity, h.threshold, Nat.le_trans (Nat.sub_le _ _) h.free_le⟩

/-- So does releasing. -/
private theorem release (h : s.Within s') (n : Nat) : s.Within (s'.release n) := by
  refine ⟨h.capacity, h.threshold, ?_⟩
  have hle := h.free_le
  rw [free_release, h.capacity]
  omega

/-- What wakes the waiters leaves a slot free. -/
theorem free_pos {capacity threshold : Nat} (h : (ofCapacity capacity threshold).Within s)
    (hwakes : s.wakes) : 0 < s.free := by
  have hle : s.threshold ≤ s.free := of_decide_eq_true hwakes
  have hpos : 1 ≤ s.threshold := h.threshold ▸ Nat.le_max_left 1 _
  omega

end Slots.Within

namespace SlotWaits

variable {w w' : SlotWaits} {now : Nat} {i : SlotInput} {name : String} {s : Slots}

/-- So does every step. -/
theorem Took.within (h : Took now w i w') (hw : s.Within w.slots) : s.Within w'.slots := by
  cases h with
  | acquired n => exact hw.acquire n
  | released n => exact release_eq w n ▸ hw.release n
  | held => exact hw.acquire 1
  | renewed => exact release_eq (w.acquire 1) 1 ▸ (hw.acquire 1).release 1
  | @dropped name => exact release_eq { w with held := w.held.erase name } 1 ▸ hw.release 1
  | _ => exact hw

/-! ## The waits -/

/-- The waits of a name that have not ended. -/
def of (w : SlotWaits) (name : String) : List SlotWaiter := w.waiters.filter (·.name = name)

/-- A release wakes the waiters of each name, if it wakes. -/
private theorem of_release (w : SlotWaits) (n : Nat) (name : String) : (w.release n).of name =
    if (w.slots.release n).wakes then (w.of name).map woke else w.of name := by
  rw [release_eq]
  unfold of
  dsimp only
  -- Every waiter of the name is woken, or none.
  split
  · rw [List.filter_map]
    rfl
  · rfl

/-- It ends no wait. -/
private theorem ended_release (w : SlotWaits) (n : Nat) : (w.release n).ended = w.ended := by
  rw [release_eq]

/-- What ends is taken out of the list, under its own name. -/
private theorem of_endWait (now : Nat) (w : SlotWaits) (x : SlotWaiter) (name : String) :
    (w.endWait now x).of name = (w.of name).erase x :=
  List.erase_filter.symm

/-- A step does not end a wait of a name, and wakes those that have begun or leaves them alone. -/
structure Spared (name : String) (x : SlotStep) : Prop where
  not_ends : ∀ o, ¬ x.Ends name o
  of_eq : x.after.of name = if x.wakes then (x.before.of name).map woke else x.before.of name

/-- Where no slots come back, the waits that do not end are left alone. -/
private theorem Spared.still (hback : (⟨now, i, w, w'⟩ : SlotStep).givesBack = false)
    (hended : w'.ended = w.ended ∨ ∃ e, e.2.1 ≠ name ∧ w'.ended = e :: w.ended)
    (hof : w'.of name = w.of name) : Spared name ⟨now, i, w, w'⟩ := by
  constructor
  case not_ends =>
    intro o hends
    -- The one that ended, if any, has another name.
    rcases hended with hended | ⟨e, hne, hended⟩
    · exact List.cons_ne_self _ _ (hends.symm.trans hended)
    · exact hne (congrArg (·.2.1) (List.cons.inj (hended.symm.trans hends)).1)
  case of_eq =>
    rw [SlotStep.wakes, hback]
    exact hof

/-- Where slots come back, the waits are woken if enough are free then. -/
theorem Spared.release {v : SlotWaits} {n : Nat}
    (hback : (⟨now, i, w, v.release n⟩ : SlotStep).givesBack)
    (hended : v.ended = w.ended) (hof : v.of name = w.of name) :
    Spared name ⟨now, i, w, v.release n⟩ := by
  constructor
  case not_ends =>
    intro o hends
    -- A release ends no wait, it only wakes.
    exact List.cons_ne_self _ _ (hends.symm.trans ((ended_release v n).trans hended))
  case of_eq =>
    rw [SlotStep.wakes, hback, Bool.true_and]
    show (v.release n).of name = if (v.release n).slots.wakes then _ else _
    rw [of_release, hof, release_eq]

/-- A step ends a wait of a name, or it spares those that have begun. -/
theorem Took.waits (h : Took now w i w') (hnew : i.awaits name = false) :
    (∃ x ∈ w.of name, ends now x ∧ w'.of name = (w.of name).erase x ∧
      w'.ended = (now, name, w.outcome) :: w.ended) ∨ Spared name ⟨now, i, w, w'⟩ := by
  -- Steps that give nothing back, steps that give a slot back, and steps of other waits.
  cases h with
  | acquired | stayed => exact .inr (.still rfl (.inl rfl) rfl)
  | released n => exact .inr (.release rfl rfl rfl)
  | held _ hheld | unheld hheld =>
    exact .inr (.still (by simp [SlotStep.givesBack, hheld]) (.inl rfl) rfl)
  | renewed hfree hheld =>
    exact .inr (.release (by simp [SlotStep.givesBack, hfree, hheld]) rfl rfl)
  | denied _ hfree => exact .inr (.still (by simp [SlotStep.givesBack, hfree]) (.inl rfl) rfl)
  | dropped hheld => exact .inr (.release (by simpa [SlotStep.givesBack] using hheld) rfl rfl)
  | served name' timeout hfree =>
    have hne : name' ≠ name := by simpa [SlotInput.awaits] using hnew
    exact .inr (.still rfl (.inr ⟨_, hne, rfl⟩) rfl)
  | began name' timeout hfree =>
    have hne : name' ≠ name := by simpa [SlotInput.awaits] using hnew
    exact .inr (.still rfl (.inl rfl) (by simp [of, List.filter_append, hne]))
  -- A wait that ends is one of this name, or the list of this name stays as it is.
  | @ended x hx hends =>
    by_cases hname : x.name = name
    · refine .inl ⟨x, ?_, hends, of_endWait .., hname ▸ rfl⟩
      exact List.mem_filter.mpr ⟨hx, by simpa using hname⟩
    · have hnot : x ∉ w.of name := fun hmem => hname (by simpa using (List.mem_filter.mp hmem).2)
      refine .inr (.still rfl (.inr ⟨_, hname, rfl⟩) ?_)
      rw [of_endWait, List.erase_of_not_mem hnot]

/-- A wait ends well exactly if a slot is free when it looks. -/
theorem outcome_eq_available_iff : w.outcome = .available ↔ 0 < w.slots.free := by
  unfold outcome
  split <;> simp_all

/-- What ends a wait says whether a slot is free then. -/
theorem Took.outcome (h : Took now w i w') {o : WaitOutcome}
    (hends : (⟨now, i, w, w'⟩ : SlotStep).Ends name o) : o = w.outcome := by
  have hsame : w'.ended ≠ w.ended := fun heq => List.cons_ne_self _ _ (hends.symm.trans heq)
  -- Only a step that ends a wait has an outcome.
  cases h with
  | served _ _ hfree =>
    rw [outcome_eq_available_iff.mpr hfree]
    exact congrArg (·.2.2) (List.cons.inj hends).1.symm
  | ended => exact congrArg (·.2.2) (List.cons.inj hends).1.symm
  | released | renewed | dropped => exact (hsame (ended_release ..)).elim
  | _ => exact (hsame rfl).elim

/-- Whoever waits when enough slots come back is woken. -/
theorem Took.wakes (h : Took now w i w') (hwakes : (⟨now, i, w, w'⟩ : SlotStep).wakes) :
    w'.waiters = w.waiters.map woke := by
  obtain ⟨hback, henough⟩ := by simpa only [SlotStep.wakes, Bool.and_eq_true] using hwakes
  have hrelease : ∀ (v : SlotWaits) (n : Nat), (v.release n).slots.wakes →
      (v.release n).waiters = v.waiters.map woke := by
    intro v n hv
    rw [release_eq] at hv ⊢
    exact if_pos hv
  -- The three steps that give a slot back; no other one wakes.
  cases h with
  | released | renewed | dropped => exact hrelease _ _ henough
  | held _ hheld | unheld hheld => simp [SlotStep.givesBack, hheld] at hback
  | denied _ hfree => simp [SlotStep.givesBack, hfree] at hback
  | _ => cases hback

/-! ## Time -/

/-- Whether a wait can end at an instant. -/
def isDue (w : SlotWaits) (now : Nat) : Bool := (timeline.act? now w).isSome

/-- Nothing is due while no waiter ends. -/
theorem isDue_eq_false_iff : w.isDue now = false ↔ ∀ x ∈ w.waiters, ends now x = false := by
  simp [isDue, timeline, endFirst?]

end SlotWaits

namespace SlotStep

/-- A step follows another one promptly: no instant has gone by at which a wait could end. -/
structure PromptAfter (x y : SlotStep) : Prop where
  le : x.now ≤ y.now
  idle : ∀ u < y.now, x.now ≤ u → y.before.isDue u = false

instance (x y : SlotStep) : Decidable (x.PromptAfter y) :=
  decidable_of_iff (x.now ≤ y.now ∧ ∀ u < y.now, x.now ≤ u → y.before.isDue u = false)
    ⟨fun h => ⟨h.1, h.2⟩, fun h => ⟨h.le, h.idle⟩⟩

end SlotStep

namespace SlotWaits

variable {w w' : SlotWaits} {now : Nat}

/-- Each step follows the one before it promptly. -/
def Prompt (hist : List SlotStep) : Prop := hist.IsChain SlotStep.PromptAfter

instance (hist : List SlotStep) : Decidable (Prompt hist) :=
  inferInstanceAs (Decidable (hist.IsChain SlotStep.PromptAfter))

/-- In a prompt run time does not go back. -/
theorem Prompt.pairwise {hist : List SlotStep} (h : Prompt hist) :
    hist.Pairwise (·.now ≤ ·.now) := by
  have hle : hist.IsChain (·.now ≤ ·.now) := h.imp fun _ _ hxy => hxy.le
  exact hle.pairwise

/-- What can be done at an instant is that a wait ends. -/
private theorem exists_goOn_of_act? (h : timeline.act? now w = some w') :
    ∃ name, w' = w.after now (.goOn name) := by
  obtain ⟨x, hx, rfl⟩ := Option.map_eq_some_iff.mp h
  refine ⟨x.name, ?_⟩
  -- It is also the first wait of its name that can end.
  have hfirst : w.waiters.find? (fun y => y.name = x.name && ends now y) = some x := by
    obtain ⟨hends, before, rest, hcut, hbefore⟩ := List.find?_eq_some_iff_append.mp hx
    refine List.find?_eq_some_iff_append.mpr ⟨by simpa using hends, before, rest, hcut, ?_⟩
    intro y hy
    have hnot := hbefore y hy
    simp_all
  simp only [after, hfirst]

/-- Time that passes at slots is one of the runs. -/
theorem exists_run_of_runUntil (w : SlotWaits) (done : SlotWaits → Bool) (limit now : Nat) :
    ∃ xs : List (Nat × SlotInput), (xs.map (·.1)).Pairwise (· ≤ ·) ∧
      (∀ x ∈ xs, now ≤ x.1 ∧ x.1 ≤ (timeline.runUntil done limit now w).1) ∧
      (timeline.runUntil done limit now w).2 = w.run xs := by
  refine timeline.exists_inputs_of_runUntil (R := fun xs m => m = w.run xs)
    (fun now xs m m' hact hm => ?_) done limit now rfl
  obtain ⟨name, rfl⟩ := exists_goOn_of_act? hact
  refine ⟨.goOn name, ?_⟩
  rw [hm, run, run, List.foldl_append]
  rfl

end SlotWaits

end Intake
