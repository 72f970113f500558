import Intake.Proofs.Lifecycle
import Intake.Proofs.Run

/-!
# The history of a lifecycle

A lifecycle is called in any order and with any arguments, also by those who are too late.
Whoever has an epoch of a queue can tell from the history of the calls whether it is current.

- `isCurrent_call`: what a call does to an epoch
- `Counted`: epochs are counted by the starts that opened them
- `Orderly`: what the history tells of epochs
- `orderly_run`: every history is orderly in which no queue comes back that was forgotten
-/

namespace Intake

/-- One call to a lifecycle. -/
inductive LifecycleCall
  | register (q : String)
  | beginStart (q : String)
  | beginStop (q : String)
  | finishStop (q : String) (epoch : Nat)
  | clear
deriving DecidableEq

/-- The queue that a call names. -/
def LifecycleCall.queue? : LifecycleCall → Option String
  | .register q | .beginStart q | .beginStop q | .finishStop q _ => some q
  | .clear => none

/-- What happened at one call. -/
structure LifecycleStep where
  call : LifecycleCall
  before : Lifecycle
  /-- The epoch that the call has opened or ended. -/
  answer : Option Nat
  after : Lifecycle

namespace LifecycleStep

/-- The epoch of a queue that a step has opened. -/
def opened? (q : String) (x : LifecycleStep) : Option Nat :=
  match x.call with
  | .beginStart j => if j = q then x.answer else none
  | _ => none

/-- Whether a step has stopped a queue or forgotten it. -/
def ends (q : String) (x : LifecycleStep) : Bool :=
  match x.call with
  | .beginStop j => j = q && x.answer.isSome
  | .clear => true
  | _ => false

end LifecycleStep

/-- The epochs of a queue in the order in which they were opened. -/
def opened (q : String) (hist : List LifecycleStep) : List Nat := hist.filterMap (·.opened? q)

namespace Lifecycle

variable {l : Lifecycle} {c : LifecycleCall} {q j : String} {e : Nat} {s : Standing}
  {hist : List LifecycleStep}

/-- The lifecycle after a call. -/
def called (l : Lifecycle) : LifecycleCall → Lifecycle
  | .register q => l.register q
  | .beginStart q => l.beginStart q
  | .beginStop q => l.beginStop q
  | .finishStop q e => l.finishStop q e
  | .clear => l.clear

/-- What a call returns: the epoch that it opens or ends. -/
def answer (l : Lifecycle) : LifecycleCall → Option Nat
  | .beginStart q => l.nextEpoch? q
  | .beginStop q => l.runningEpoch? q
  | _ => none

/-- The step that a call leads to. -/
def step (l : Lifecycle) (c : LifecycleCall) : LifecycleStep := ⟨c, l, l.answer c, l.called c⟩

/-- The lifecycle after a sequence of calls. -/
def run (l : Lifecycle) (cs : List LifecycleCall) : Lifecycle := cs.foldl called l

/-- The steps that a sequence of calls leads to. -/
def steps (l : Lifecycle) (cs : List LifecycleCall) : List LifecycleStep := noted called step l cs

/-- The steps of a run are its calls. -/
private theorem map_call_steps (l : Lifecycle) (cs : List LifecycleCall) :
    (l.steps cs).map (·.call) = cs := by
  induction cs generalizing l with
  | nil => rfl
  | cons c cs ih => exact congrArg (c :: ·) (ih _)

/-! ## One call -/

/-- A current epoch is one that the standing names, while it is running. -/
theorem isCurrent_iff : l.isCurrent q e ↔ l.standing? q = some ⟨.running, e⟩ := by
  simp [isCurrent]

/-- A call about one queue leaves the others alone. -/
private theorem standing?_called_of_ne (hc : c ≠ .clear) (hj : c.queue? ≠ some j) :
    (l.called c).standing? j = l.standing? j := by
  -- By the call: it sets the entry of its own queue, if it sets one.
  cases c with
  | register q =>
    have hne : j ≠ q := fun he => hj (congrArg some he.symm)
    simp [called, standing?_register, hne]
  | beginStart q =>
    have hne : j ≠ q := fun he => hj (congrArg some he.symm)
    cases he : l.nextEpoch? q with
    | none => simp [called, beginStart, he]
    | some e => simp [called, standing?_beginStart he, hne]
  | beginStop q =>
    have hne : j ≠ q := fun he => hj (congrArg some he.symm)
    cases he : l.runningEpoch? q with
    | none => simp [called, beginStop, he]
    | some e => simp [called, standing?_beginStop he, hne]
  | finishStop q e =>
    have hne : j ≠ q := fun he => hj (congrArg some he.symm)
    simp [called, standing?_finishStop, hne]
  | clear => exact absurd rfl hc

/-- What a call makes of the standing of a queue, with the epoch that it opens and whether it
    ends one. -/
inductive Turned (c : LifecycleCall) (q : String) :
    Option Standing → Option Nat → Bool → Option Standing → Prop
  | alone (o : Option Standing) : Turned c q o none false o
  | registered (hc : c = .register q) : Turned c q none none false (some ⟨.stopped, 0⟩)
  | started {s : Standing} (hs : s.stage ≠ .running) :
    Turned c q (some s) (some (s.epoch + 1)) false (some ⟨.running, s.epoch + 1⟩)
  | stopping (e : Nat) : Turned c q (some ⟨.running, e⟩) none true (some ⟨.stopping, e⟩)
  | stopped (e : Nat) : Turned c q (some ⟨.stopping, e⟩) none false (some ⟨.stopped, e⟩)
  | forgotten (hc : c = .clear) (o : Option Standing) : Turned c q o none true none

/-- By a call the standing of a queue turns to what its answers say. -/
private theorem turned_called (l : Lifecycle) (c : LifecycleCall) (q : String) :
    Turned c q (l.standing? q) ((l.step c).opened? q) ((l.step c).ends q)
      ((l.called c).standing? q) := by
  cases c with
  | register j =>
    have hafter : (l.called (.register j)).standing? q = _ := standing?_register l j q
    rw [hafter]
    -- A registration counts for a queue not known yet.
    split
    next h =>
      obtain ⟨rfl, hnone⟩ := h
      rw [hnone]
      exact .registered rfl
    next => exact .alone _
  | beginStart j =>
    -- A start is about this queue, and opens an epoch or not, or it is about another one.
    by_cases hj : j = q
    · subst hj
      cases he : l.nextEpoch? j with
      | none =>
        have hsame : l.called (.beginStart j) = l := by simp [called, beginStart, he]
        have hopened : (l.step (.beginStart j)).opened? j = none := by
          simp [LifecycleStep.opened?, step, answer, he]
        rw [hsame, hopened]
        exact .alone _
      | some e =>
        have hafter : (l.called (.beginStart j)).standing? j = some ⟨.running, e⟩ :=
          (standing?_beginStart he j).trans (if_pos rfl)
        have hopened : (l.step (.beginStart j)).opened? j = some e := by
          simp [LifecycleStep.opened?, step, answer, he]
        obtain ⟨s, hs, hstage, rfl⟩ := nextEpoch?_eq_some.mp he
        rw [hafter, hopened, hs]
        exact .started hstage
    · have hopened : (l.step (.beginStart j)).opened? q = none := by
        simp [LifecycleStep.opened?, step, hj]
      rw [hopened, standing?_called_of_ne (c := .beginStart j) (by simp) (mt Option.some.inj hj)]
      exact .alone _
  | beginStop j =>
    -- So is a stop.
    by_cases hj : j = q
    · subst hj
      cases he : l.runningEpoch? j with
      | none =>
        have hsame : l.called (.beginStop j) = l := by simp [called, beginStop, he]
        have hends : (l.step (.beginStop j)).ends j = false := by
          simp [LifecycleStep.ends, step, answer, he]
        rw [hsame, hends]
        exact .alone _
      | some e =>
        have hafter : (l.called (.beginStop j)).standing? j = some ⟨.stopping, e⟩ :=
          (standing?_beginStop he j).trans (if_pos rfl)
        have hends : (l.step (.beginStop j)).ends j = true := by
          simp [LifecycleStep.ends, step, answer, he]
        rw [hafter, hends, runningEpoch?_eq_some.mp he]
        exact .stopping e
    · have hends : (l.step (.beginStop j)).ends q = false := by
        simp [LifecycleStep.ends, step, hj]
      rw [hends, standing?_called_of_ne (c := .beginStop j) (by simp) (mt Option.some.inj hj)]
      exact .alone _
  | finishStop j e =>
    have hafter : (l.called (.finishStop j e)).standing? q = _ := standing?_finishStop l j e q
    rw [hafter]
    -- A finish counts only for the epoch that is stopping.
    split
    next h =>
      obtain ⟨rfl, hs⟩ := h
      rw [hs]
      exact .stopped e
    next => exact .alone _
  | clear => exact .forgotten rfl _

/-- After a call an epoch is current if the call has opened it, or if it was current and the
    call has not ended it. -/
private theorem isCurrent_called : (l.called c).isCurrent q e ↔
    (l.step c).opened? q = some e ∨ l.isCurrent q e ∧ (l.step c).ends q = false := by
  have hturned := turned_called l c q
  rw [isCurrent_iff, isCurrent_iff]
  generalize l.standing? q = o, (l.step c).opened? q = n, (l.step c).ends q = b,
    (l.called c).standing? q = o' at hturned ⊢
  cases hturned with
  | alone | registered | stopping | stopped | forgotten => simp
  | @started s hs =>
    -- A queue that is started was not running.
    have hne : s ≠ ⟨.running, e⟩ := fun he => hs (he ▸ rfl)
    simp [hne]

/-! ## Counting epochs -/

/-- No queue is registered again after it was forgotten. -/
def Lasting (cs : List LifecycleCall) : Prop :=
  ∀ q, ¬ [.register q, .clear, .register q].Sublist cs

/-- A longer run without a clear has none at its start either. -/
private theorem Lasting.of_append {cs ds : List LifecycleCall} (h : Lasting (cs ++ ds)) :
    Lasting cs :=
  fun q hsub => h q (hsub.trans (List.sublist_append_left ..))

/-- One more step opens its own epoch at the end. -/
private theorem opened_append (q : String) (hist : List LifecycleStep) (x : LifecycleStep) :
    opened q (hist ++ [x]) = opened q hist ++ (x.opened? q).toList := by
  rw [opened, List.filterMap_append, ← opened, List.filterMap_cons]
  cases x.opened? q <;> rfl

/-- The epochs of a queue are counted from one, as long as it is known up to the one in which it
    stands. -/
structure Counted (q : String) (hist : List LifecycleStep) (o : Option Standing) : Prop where
  counted : opened q hist = List.range' 1 (opened q hist).length
  epoch : ∀ s, o = some s → s.epoch = (opened q hist).length
  /-- Only a queue that was started has left the stage in which it was registered. -/
  started : ∀ s, o = some s → s.stage ≠ .stopped → opened q hist ≠ []
  known : o.isSome → .register q ∈ hist.map (·.call)
  /-- A queue without a standing has had no epoch, or it was forgotten. -/
  forgotten : o = none →
    opened q hist = [] ∨ [.register q, .clear].Sublist (hist.map (·.call))

/-- Nothing was opened before the first call. -/
private theorem counted_empty (q : String) : Counted q [] none where
  counted := rfl
  epoch _ hs := by cases hs
  started _ hs := by cases hs
  known hs := by cases hs
  forgotten _ := .inl rfl

/-- A call that opens no epoch leaves the count as it is. -/
private theorem Counted.of_same {o o' : Option Standing} {x : LifecycleStep} (h : Counted q hist o)
    (hopened : opened q (hist ++ [x]) = opened q hist)
    (hsome : ∀ s', o' = some s' → ∃ s, o = some s ∧ s.epoch = s'.epoch ∧
      (s'.stage ≠ .stopped → s.stage ≠ .stopped))
    (hnone : o' = none → o = none ∨ x.call = .clear) : Counted q (hist ++ [x]) o' where
  counted := by rw [hopened]; exact h.counted
  epoch s' hs' := by
    obtain ⟨s, hs, he, -⟩ := hsome s' hs'
    rw [hopened, ← he]
    exact h.epoch s hs
  started s' hs' hstage := by
    obtain ⟨s, hs, -, hstarted⟩ := hsome s' hs'
    rw [hopened]
    exact h.started s hs (hstarted hstage)
  known hs' := by
    obtain ⟨s', hs'⟩ := Option.isSome_iff_exists.mp hs'
    obtain ⟨s, hs, -⟩ := hsome s' hs'
    rw [List.map_append]
    exact List.mem_append_left _ (h.known (hs ▸ rfl))
  forgotten ho' := by
    rw [hopened, List.map_append]
    rcases hnone ho' with ho | hclear
    · exact (h.forgotten ho).imp_right fun hsub => hsub.trans (List.sublist_append_left ..)
    · cases ho : o with
      | none =>
        exact (h.forgotten ho).imp_right fun hsub => hsub.trans (List.sublist_append_left ..)
      | some s =>
        -- It was registered some time, and now it is forgotten.
        have hknown := List.singleton_sublist.mpr (h.known (ho ▸ rfl))
        refine .inr (hknown.append ?_)
        rw [List.map_singleton, hclear]

/-- Each turn of the standing keeps the count of epochs. -/
private theorem Counted.turned {o o' : Option Standing} {x : LifecycleStep} (h : Counted q hist o)
    (ht : Turned x.call q o (x.opened? q) (x.ends q) o')
    (hlasting : Lasting ((hist ++ [x]).map (·.call))) : Counted q (hist ++ [x]) o' := by
  have happend := opened_append q hist x
  generalize x.opened? q = n, x.ends q = b at ht happend
  cases ht with
  | alone =>
    exact h.of_same (happend.trans (List.append_nil _)) (fun s hs => ⟨s, hs, rfl, id⟩) .inl
  | stopping e | stopped e =>
    refine h.of_same (happend.trans (List.append_nil _)) (fun s hs => ⟨_, rfl, ?_, nofun⟩) nofun
    rw [← Option.some.inj hs]
  | forgotten hc =>
    exact h.of_same (happend.trans (List.append_nil _)) nofun fun _ => .inr hc
  | registered hc =>
    have hcalls : (hist ++ [x]).map (·.call) = hist.map (·.call) ++ [LifecycleCall.register q] := by
      rw [List.map_append, List.map_singleton, hc]
    -- It was not forgotten before, so it has had no epoch.
    have hnil : opened q hist = [] := by
      refine (h.forgotten rfl).resolve_right fun hsub => hlasting q ?_
      rw [hcalls]
      exact hsub.append (.refl [LifecycleCall.register q])
    have hopened : opened q (hist ++ [x]) = [] := happend.trans (by rw [hnil]; rfl)
    refine ⟨by rw [hopened]; rfl, fun s hs => ?_, fun s hs hstage => ?_, fun _ => ?_, nofun⟩
    · rw [hopened, ← Option.some.inj hs]
      rfl
    · exact absurd (Option.some.inj hs ▸ rfl) hstage
    · rw [hcalls]
      exact List.mem_append_right _ List.mem_cons_self
  | @started s hs =>
    have hepoch := h.epoch s rfl
    have hopened : opened q (hist ++ [x]) = List.range' 1 ((opened q hist).length + 1) := by
      rw [happend, List.range'_concat, ← h.counted, hepoch]
      simp [Nat.add_comm]
    refine ⟨by rw [hopened, List.length_range'], fun s' hs' => ?_, fun _ _ _ => ?_, fun _ => ?_,
      nofun⟩
    · rw [hopened, List.length_range', ← Option.some.inj hs', ← hepoch]
    · rw [hopened]
      simp
    · rw [List.map_append]
      exact List.mem_append_left _ (h.known rfl)

/-- The steps of a run that one more call ends. -/
private theorem steps_concat (l : Lifecycle) (cs : List LifecycleCall) (c : LifecycleCall) :
    l.steps (cs ++ [c]) = l.steps cs ++ [(l.run cs).step c] := noted_append ..

/-- The state after it. -/
private theorem run_concat (l : Lifecycle) (cs : List LifecycleCall) (c : LifecycleCall) :
    l.run (cs ++ [c]) = (l.run cs).called c := List.foldl_append ..

/-- The epochs of a queue are counted from 1 in every run without a clear. -/
theorem counted_run (cs : List LifecycleCall) (h : Lasting cs) (q : String) :
    Counted q (empty.steps cs) ((empty.run cs).standing? q) := by
  induction cs using List.reverseRecOn with
  | nil => exact counted_empty q
  | append_singleton cs c ih =>
    have hturned := turned_called (empty.run cs) c q
    rw [run_concat, steps_concat]
    -- The call at the end turns the queue by what it is told.
    refine (ih h.of_append).turned hturned ?_
    rwa [← steps_concat, map_call_steps]

/-- A queue that has left the stage in which it was registered stands in the last epoch that was
    opened. -/
private theorem Counted.getLast?_opened {o : Option Standing} (h : Counted q hist o)
    (ho : o = some s) (hs : s.stage ≠ .stopped) : (opened q hist).getLast? = some s.epoch := by
  have hne : (opened q hist).length ≠ 0 := mt List.length_eq_zero_iff.mp (h.started s ho hs)
  rw [h.epoch s ho, h.counted, List.getLast?_range', if_neg (by simpa using hne)]
  simp only [List.length_range']
  congr 1
  omega

/-! ## What the history tells -/

/-- An epoch is current while it has been opened and not ended since. -/
theorem isCurrent_run (cs : List LifecycleCall) : (empty.run cs).isCurrent q e ↔
    ∃ later, Since (fun x => x.opened? q = some e) (fun x => x.ends q) (empty.steps cs) later := by
  induction cs using List.reverseRecOn with
  | nil =>
    refine ⟨fun h => ?_, fun ⟨later, h⟩ => absurd h not_since_nil⟩
    cases isCurrent_iff.mp h
  | append_singleton cs c ih =>
    rw [run_concat, steps_concat, isCurrent_called]
    simp only [since_append, exists_or, exists_and_left, exists_eq, and_true]
    -- The last call leaves a current epoch current unless it ends it.
    refine or_congr_right ?_
    rw [ih, Bool.not_eq_true]
    constructor
    · rintro ⟨⟨later, hsince⟩, hends⟩
      exact ⟨hends, _, later, hsince, rfl⟩
    · rintro ⟨hends, _, later, hsince, -⟩
      exact ⟨⟨later, hsince⟩, hends⟩

/-- The lifecycle that a step finds is the one that the steps before it lead to. -/
private theorem exists_calls_of_cut {cs : List LifecycleCall} {before later : List LifecycleStep}
    {x : LifecycleStep} (h : l.steps cs = before ++ x :: later) :
    ∃ ds c ds', cs = ds ++ c :: ds' ∧ before = l.steps ds ∧ x = (l.run ds).step c := by
  obtain ⟨ds, c, ds', hcs, hbefore, hx, -⟩ := exists_cut_of_noted h
  exact ⟨ds, c, ds', hcs, hbefore, hx⟩

/-- What the history tells after an epoch has ceased to be current. -/
theorem over_run (cs : List LifecycleCall) (h : Lasting cs) (q : String) (e : Nat) :
    ∀ before x later, empty.steps cs = before ++ x :: later →
      x.before.isCurrent q e → ¬ x.after.isCurrent q e →
        e ∈ opened q (empty.steps cs) ∧ (∀ y ∈ later, ¬ y.after.isCurrent q e) ∧
          ¬ (empty.run cs).isCurrent q e := by
  induction cs using List.reverseRecOn with
  | nil => intro before x later hcut; simp [steps, noted] at hcut
  | append_singleton cs c ih =>
    intro before x later hcut hbefore hafter
    have hcounted := (counted_run (cs ++ [c]) h q).counted
    rw [steps_concat] at hcut hcounted ⊢
    rw [run_concat]
    -- Either the last call ends the epoch, or an earlier one did.
    rcases cut_append hcut with ⟨-, rfl, rfl⟩ | ⟨later', rfl, hcut'⟩
    · have hstanding := isCurrent_iff.mp hbefore
      have hlast := (counted_run cs h.of_append q).getLast?_opened hstanding nofun
      refine ⟨?_, nofun, hafter⟩
      rw [opened_append]
      exact List.mem_append_left _ (List.mem_of_getLast? hlast)
    · obtain ⟨hmem, hlater, hnow⟩ := ih h.of_append _ _ _ hcut' hbefore hafter
      have hnot : ¬ ((empty.run cs).called c).isCurrent q e := by
        rw [isCurrent_called]
        rintro (hopened | ⟨hcurrent, -⟩)
        · -- It would have been opened twice.
          rw [opened_append, hopened] at hcounted
          have hnodup : (opened q (empty.steps cs) ++ [e]).Nodup :=
            hcounted ▸ List.nodup_range'
          exact (List.nodup_append.mp hnodup).2.2 e hmem e List.mem_cons_self rfl
        · exact hnow hcurrent
      refine ⟨?_, fun y hy => ?_, hnot⟩
      · rw [opened_append]
        exact List.mem_append_left _ hmem
      · rcases List.mem_append.mp hy with hy | hy
        · exact hlater y hy
        · rw [List.mem_singleton.mp hy]
          exact hnot

/-- What the history of a lifecycle tells of the epochs of its queues. -/
structure Orderly (hist : List LifecycleStep) (l : Lifecycle) : Prop where
  /-- The epochs of a queue are opened in the order 1, 2, 3 and so on. -/
  counted : ∀ q, opened q hist = List.range' 1 (opened q hist).length
  unique : ∀ q e e', l.isCurrent q e → l.isCurrent q e' → e = e'
  /-- An epoch is current from the start that opened it up to the next stop of its queue, or
      until every queue is forgotten. -/
  current : ∀ q e, l.isCurrent q e ↔
    ∃ later, Since (fun x => x.opened? q = some e) (fun x => x.ends q) hist later
  /-- An epoch that has ceased to be current stays so. -/
  ended : ∀ q e before x later, hist = before ++ x :: later →
    x.before.isCurrent q e → ¬ x.after.isCurrent q e →
      (∀ y ∈ later, ¬ y.after.isCurrent q e) ∧ ¬ l.isCurrent q e
  /-- A stop is finished only in the last epoch of a queue that is stopping. -/
  finish : ∀ q e before x later, hist = before ++ x :: later → x.call = .finishStop q e →
    x.after = x.before ∨
      (x.before.standing? q = some ⟨.stopping, e⟩ ∧ (opened q before).getLast? = some e ∧
        x.after.standing? q = some ⟨.stopped, e⟩)
  /-- A call about one queue leaves the others alone. -/
  frame : ∀ x ∈ hist, x.call ≠ .clear → ∀ j, x.call.queue? ≠ some j →
    x.after.standing? j = x.before.standing? j

/-- Every history is orderly in which no queue is registered again after it was forgotten. -/
theorem orderly_run (cs : List LifecycleCall) (h : Lasting cs) :
    Orderly (empty.steps cs) (empty.run cs) where
  counted q := (counted_run cs h q).counted
  unique q e e' he he' := by
    have heq := (isCurrent_iff.mp he).symm.trans (isCurrent_iff.mp he')
    exact congrArg Standing.epoch (Option.some.inj heq)
  current _ _ := isCurrent_run cs
  ended q e before x later hcut hbefore hafter :=
    (over_run cs h q e before x later hcut hbefore hafter).2
  finish q e before x later hcut hcall := by
    obtain ⟨ds, c, ds', rfl, rfl, rfl⟩ := exists_calls_of_cut hcut
    obtain rfl : c = .finishStop q e := hcall
    -- A finish is late unless the queue is stopping in just this epoch.
    by_cases hs : (empty.run ds).standing? q = some ⟨.stopping, e⟩
    · have hlast := (counted_run ds h.of_append q).getLast?_opened hs nofun
      refine .inr ⟨hs, hlast, ?_⟩
      exact (standing?_finishStop ..).trans (if_pos ⟨rfl, hs⟩)
    · exact .inl (if_neg hs)
  frame x hx hclear j hj := by
    obtain ⟨before, later, hcut⟩ := List.append_of_mem hx
    obtain ⟨ds, c, ds', -, -, rfl⟩ := exists_calls_of_cut hcut
    exact standing?_called_of_ne hclear hj

/-- A queue is started again before its stop was finished.  Then all are forgotten, and one comes
    that was not known before. -/
def lateFinish : List LifecycleCall :=
  [.register "q", .beginStart "q", .beginStop "q", .beginStart "q", .finishStop "q" 1, .clear,
    .register "p", .beginStart "p"]

/-- A queue restarted while its poller winds down: the late finish of epoch 1 leaves epoch 2 alone.
    -/
theorem orderly_run_lateFinish :
    Lasting lateFinish ∧ opened "q" (empty.steps lateFinish) = [1, 2] ∧
      Orderly (empty.steps lateFinish) (empty.run lateFinish) := by
  have h : Lasting lateFinish := by
    intro q hsub
    have hq : q = "q" ∨ q = "p" := by simpa [lateFinish] using hsub.subset List.mem_cons_self
    rcases hq with rfl | rfl <;> exact absurd hsub (by decide)
  exact ⟨h, by decide, orderly_run _ h⟩

end Lifecycle

end Intake
