import Intake.Proofs.Slots.Waits

/-!
# How long a wait for slots takes

A wait that finds no free slot ends at its deadline or when enough slots come back, whichever is
first.  Enough may come back and be taken again before the wait goes on: then it is over early and
still finds no free slot.

- `overAt`: the instant at which a wait is over
- `Waiting`: how far a wait has come, with what one step makes of it
- `Serves`: what holds of every run on slots of a capacity
- `serves_run`: every run is such
-/

namespace Intake

namespace SlotWaits

variable {w : SlotWaits} {now deadline : Nat} {i : SlotInput} {name : String} {woken : Bool}
  {xs : List (Nat × SlotInput)} {later : List SlotStep} {x : SlotStep}

/-- When a wait is over: at its deadline, or at the first step from now on that wakes the waiters
    if that comes first. -/
def overAt (deadline : Nat) (later : List SlotStep) : Nat :=
  match later.find? (·.wakes) with
  | some y => min deadline y.now
  | none => deadline

/-- A step that wakes ends the wait, unless the deadline came before it. -/
private theorem overAt_cons_of_wakes (h : x.wakes) (deadline : Nat) (later : List SlotStep) :
    overAt deadline (x :: later) = min deadline x.now := by
  simp [overAt, h]

/-- Any other step leaves it to the rest. -/
private theorem overAt_cons_of_not (h : x.wakes = false) (deadline : Nat) (later : List SlotStep) :
    overAt deadline (x :: later) = overAt deadline later := by
  simp [overAt, h]

/-- A wait is over at its deadline at the latest. -/
private theorem overAt_le (deadline : Nat) (later : List SlotStep) :
    overAt deadline later ≤ deadline := by
  unfold overAt
  split <;> omega

/-- It is not over before it began. -/
private theorem le_overAt (hdeadline : now ≤ deadline) (hlater : ∀ y ∈ later, now ≤ y.now) :
    now ≤ overAt deadline later := by
  unfold overAt
  -- The deadline is not past, and neither is the first step that wakes.
  split
  next y hy =>
    have hle := hlater y (List.mem_of_find?_eq_some hy)
    omega
  next => exact hdeadline

/-! ## The course of one wait -/

/-- One wait goes on under a name. -/
def Waiting (name : String) (deadline : Nat) (woken : Bool) (w : SlotWaits) : Prop :=
  w.of name = [⟨name, deadline, woken⟩]

/-- A wait that goes on ends, which it does only if it was woken or its time is over, or it goes
    on, and is woken if slots come back then and enough are free. -/
theorem Waiting.step (h : w.Waiting name deadline woken) (now : Nat)
    (hown : i.awaits name = false) :
    ((w.step now i).Over name ∧ (woken ∨ deadline ≤ now) ∧ (w.after now i).of name = []) ∨
    (¬ (w.step now i).Over name ∧
      (w.after now i).Waiting name deadline (woken || (w.step now i).wakes)) := by
  have hof : w.of name = [⟨name, deadline, woken⟩] := h
  -- Either this wait ends, or it is spared by the step.
  rcases (took_after now w i).waits hown with ⟨x, hx, hends, hrest, hended⟩ | hspared
  · rw [hof] at hx hrest
    obtain rfl := List.mem_singleton.mp hx
    refine .inl ⟨⟨_, hended⟩, by simpa [ends] using hends, ?_⟩
    simpa using hrest
  · refine .inr ⟨fun ⟨o, ho⟩ => hspared.not_ends o ho, hspared.of_eq.trans ?_⟩
    show (if (w.step now i).wakes then (w.of name).map woke else w.of name) = _
    rw [hof]
    cases (w.step now i).wakes <;> simp [woke]

/-- A wait stands in the list of waiters. -/
private theorem Waiting.mem_waiters (h : w.Waiting name deadline woken) :
    ⟨name, deadline, woken⟩ ∈ w.waiters := by
  have hof : w.of name = [⟨name, deadline, woken⟩] := h
  exact (List.mem_filter.mp (hof ▸ List.mem_singleton_self _)).1

/-- A wait ends if it has been woken or its deadline has come. -/
theorem ends_iff : ends now ⟨name, deadline, woken⟩ ↔ woken ∨ deadline ≤ now := by
  simp [ends]

/-- A wait that was woken or whose time is over can end, and no other. -/
theorem Waiting.over_goOn_iff (h : w.Waiting name deadline woken) (now : Nat) :
    (w.step now (.goOn name)).Over name ↔ woken ∨ deadline ≤ now := by
  constructor
  · intro hover
    rcases h.step now (i := .goOn name) rfl with ⟨-, hdue, -⟩ | ⟨hnot, -⟩
    · exact hdue
    · exact (hnot hover).elim
  · intro hdue
    -- It is the first waiter of its name, so it is the one that looks.
    have htook := took_after now w (.goOn name)
    show ∃ o, (w.after now (.goOn name)).ended = (now, name, o) :: w.ended
    generalize w.after now (.goOn name) = w' at htook ⊢
    cases htook with
    | stayed hnone =>
      exact (Bool.eq_false_iff.mp (hnone _ h.mem_waiters rfl) (ends_iff.mpr hdue)).elim
    | ended => exact ⟨_, rfl⟩

/-- Under a name under which nobody waits no wait ends. -/
private theorem of_after_eq_nil (h : w.of name = []) (now : Nat) (hown : i.awaits name = false) :
    (w.after now i).of name = [] ∧ ¬ (w.step now i).Over name := by
  rcases (took_after now w i).waits hown with ⟨x, hx, -⟩ | hspared
  · rw [h] at hx
    cases hx
  · refine ⟨hspared.of_eq.trans ?_, fun ⟨o, ho⟩ => hspared.not_ends o ho⟩
    simp [h]

/-- Without a waiter of the name, and with no new one, no step ends a wait of it. -/
private theorem not_over_of_mem_steps (h : w.of name = [])
    (hown : ∀ y ∈ w.steps xs, y.input.awaits name = false) :
    ∀ y ∈ w.steps xs, ¬ y.Over name := by
  induction xs generalizing w with
  | nil => exact nofun
  | cons x xs ih =>
    obtain ⟨hx, hxs⟩ := List.forall_mem_cons.mp hown
    obtain ⟨hafter, hnot⟩ := of_after_eq_nil h x.1 hx
    exact List.forall_mem_cons.mpr ⟨hnot, ih hafter hxs⟩

/-- As long as a wait has not ended it goes on, and was woken if any step has woken it. -/
private theorem Waiting.of_cut (h : w.Waiting name deadline woken)
    (hown : ∀ y ∈ w.steps xs, y.input.awaits name = false) {early rest : List SlotStep}
    (hcut : w.steps xs = early ++ x :: rest) (hearly : ∀ y ∈ early, ¬ y.Over name) :
    x.before.Waiting name deadline (woken || early.any (·.wakes)) := by
  -- Along the steps before the cut: each leaves the wait there, woken if it wakes.
  induction early generalizing w woken xs with
  | nil =>
    cases xs with
    | nil => cases hcut
    | cons y ys =>
      obtain ⟨rfl, -⟩ := List.cons.inj hcut
      show w.Waiting name deadline (woken || false)
      rwa [Bool.or_false]
  | cons z early ih =>
    cases xs with
    | nil => cases hcut
    | cons y ys =>
      obtain ⟨hz, hrest⟩ := List.cons.inj hcut
      obtain ⟨hy, hys⟩ := List.forall_mem_cons.mp hown
      obtain ⟨hnot, hearly⟩ := List.forall_mem_cons.mp hearly
      -- A step that ends the wait is excluded; any other one keeps it.
      rcases h.step y.1 hy with ⟨hover, -⟩ | ⟨-, hgoes⟩
      · exact (hnot (hz ▸ hover)).elim
      · have hx := ih hgoes hys hrest hearly
        rw [List.any_cons, ← Bool.or_assoc, ← hz]
        exact hx

/-- A wait ends once. -/
private theorem Waiting.once (h : w.Waiting name deadline woken)
    (hown : ∀ y ∈ w.steps xs, y.input.awaits name = false) :
    (w.steps xs).Pairwise fun y z => ¬ (y.Over name ∧ z.Over name) := by
  induction xs generalizing w woken with
  | nil => exact .nil
  | cons x xs ih =>
    obtain ⟨hx, hxs⟩ := List.forall_mem_cons.mp hown
    rw [steps_cons, List.pairwise_cons]
    rcases h.step x.1 hx with ⟨-, -, hnone⟩ | ⟨hnot, hgoes⟩
    -- After it has ended nobody waits under the name.
    · have hsilent := not_over_of_mem_steps hnone hxs
      refine ⟨fun z hz hboth => hsilent z hz hboth.2, ?_⟩
      exact List.pairwise_of_forall_mem_list fun y hy z _ hboth => hsilent y hy hboth.1
    · exact ⟨fun z _ hboth => hnot hboth.1, ih hgoes hxs⟩

/-- Only one step ends the wait, so those before it do not. -/
private theorem not_over_of_once {early rest : List SlotStep}
    (h : (early ++ x :: rest).Pairwise fun y z => ¬ (y.Over name ∧ z.Over name))
    (hover : x.Over name) : ∀ z ∈ early, ¬ z.Over name := fun z hz hz' =>
  (List.pairwise_append.mp h).2.2 z hz x List.mem_cons_self ⟨hz', hover⟩

/-! ## The instant at which a wait ends -/

/-- A wait that ends is due. -/
private theorem Waiting.isDue (h : w.Waiting name deadline woken) (hdue : woken ∨ deadline ≤ now) :
    w.isDue now := by
  by_contra hnot
  have hends := isDue_eq_false_iff.mp (Bool.eq_false_iff.mpr hnot) _ h.mem_waiters
  exact Bool.eq_false_iff.mp hends (ends_iff.mpr hdue)

/-- A wait that goes on is not put off: it was woken at this very instant, or its time is not
    over and it has not been woken. -/
def InTime (deadline : Nat) (woken : Bool) (now t : Nat) (later : List SlotStep) : Prop :=
  if woken then now = t else now ≤ deadline ∧ t = overAt deadline later

/-- In a prompt run time does not pass the instant at which a wait is over before it has ended,
    and it ends then. -/
private theorem Waiting.until_over {t : Nat} (h : x.after.Waiting name deadline woken)
    (hown : ∀ y ∈ x.after.steps xs, y.input.awaits name = false)
    (hprompt : Prompt (x :: x.after.steps xs))
    (ht : InTime deadline woken x.now t (x.after.steps xs)) :
    Until (fun y => y.now ≤ t ∧ (y.Over name → y.now = t)) (·.Over name) (x.after.steps xs) := by
  induction xs generalizing x woken with
  | nil => trivial
  | cons y xs ih =>
    obtain ⟨hy, hys⟩ := List.forall_mem_cons.mp hown
    have hnext : x.PromptAfter (x.after.step y.1 y.2) := (List.isChain_cons_cons.mp hprompt).1
    have hrest : Prompt (x.after.step y.1 y.2 :: (x.after.after y.1 y.2).steps xs) :=
      List.IsChain.tail hprompt
    have hle : x.now ≤ y.1 := hnext.le
    have hlater : ∀ z ∈ (x.after.after y.1 y.2).steps xs, y.1 ≤ z.now :=
      (List.pairwise_cons.mp hrest.pairwise).1
    -- No instant has gone by at which the wait could have ended.
    have hidle : ∀ u, x.now ≤ u → u < y.1 → ¬ (woken ∨ deadline ≤ u) := by
      intro u hu hlt hdue
      have hnot : x.after.isDue u = false := hnext.idle u hlt hu
      exact Bool.eq_false_iff.mp hnot (h.isDue hdue)
    rw [steps_cons] at ht ⊢
    have hstep := h.step y.1 (i := y.2) hy
    cases woken with
    | true =>
      obtain rfl : x.now = t := ht
      have hnow : y.1 = x.now := by
        by_contra hne
        exact hidle x.now (Nat.le_refl _) (by omega) (.inl rfl)
      refine ⟨⟨Nat.le_of_eq hnow, fun _ => hnow⟩, ?_⟩
      rcases hstep with ⟨hover, -⟩ | ⟨-, hgoes⟩
      · exact .inl hover
      · exact .inr (ih (x := x.after.step y.1 y.2) hgoes hys hrest hnow)
    | false =>
      obtain ⟨hdeadline, ht⟩ : x.now ≤ deadline ∧ _ = _ := ht
      have hnow : y.1 ≤ deadline := by
        by_contra hlt
        exact hidle deadline hdeadline (by omega) (.inr (Nat.le_refl _))
      have hle : y.1 ≤ t := ht ▸ le_overAt hnow (List.forall_mem_cons.mpr ⟨Nat.le_refl _, hlater⟩)
      rcases hstep with ⟨hover, hdue, -⟩ | ⟨hnot, hgoes⟩
      -- It was not woken, so it ends because its time is over.
      · have hover' : y.1 = deadline := by
          have := hdue.resolve_left (by decide)
          omega
        have ht' : t ≤ deadline := ht ▸ overAt_le _ _
        exact ⟨⟨hle, fun _ => show y.1 = t by omega⟩, .inl hover⟩
      · refine ⟨⟨hle, fun hover => (hnot hover).elim⟩, .inr ?_⟩
        refine ih (x := x.after.step y.1 y.2) hgoes hys hrest ?_
        rw [Bool.false_or]
        cases hwakes : (x.after.step y.1 y.2).wakes with
        | true =>
          rw [overAt_cons_of_wakes hwakes] at ht
          exact (ht.trans (Nat.min_eq_right hnow)).symm
        | false => exact ⟨hnow, ht.trans (overAt_cons_of_not hwakes _ _)⟩

/-! ## What holds of every run -/

/-- A caller begins to wait, under a name that no other call has. -/
structure Calls (name : String) (timeout : Nat) (before : List SlotStep) (x : SlotStep)
    (later : List SlotStep) : Prop where
  input : x.input = .await name timeout
  own : ∀ y ∈ before ++ later, y.input.awaits name = false

/-- A wait with a deadline goes on after a step. -/
structure Waits (name : String) (deadline : Nat) (x : SlotStep) (later : List SlotStep) :
    Prop where
  not_yet : ¬ x.Over name
  /-- As long as it has not ended, it can end if it was woken or its time is over, and only
      then. -/
  can_end : ∀ early z rest, later = early ++ z :: rest → (∀ y ∈ early, ¬ y.Over name) →
    ∀ now, (z.before.step now (.goOn name)).Over name ↔ (∃ y ∈ early, y.wakes) ∨ deadline ≤ now
  in_time : Prompt (x :: later) → Until (·.now ≤ overAt deadline later) (·.Over name) later
  on_time : Prompt (x :: later) → ∀ y ∈ later, y.Over name → y.now = overAt deadline later
  once : later.Pairwise fun y z => ¬ (y.Over name ∧ z.Over name)

/-- What holds of a run on slots of a capacity that wake waiters at a threshold. -/
structure Serves (capacity threshold : Nat) (hist : List SlotStep) : Prop where
  /-- Never more slots are free than there are; so what is missing is no negative number. -/
  within : ∀ y ∈ hist, (Slots.ofCapacity capacity threshold).Within y.before.slots ∧
    (Slots.ofCapacity capacity threshold).Within y.after.slots
  /-- Whoever waits is woken by the same step, whatever his deadline. -/
  woken : ∀ y ∈ hist, y.wakes → y.after.waiters = y.before.waiters.map woke
  outcome : ∀ y ∈ hist, ∀ name o, y.Ends name o → (o = .available ↔ 0 < y.before.slots.free)
  /-- A wait that begins while a slot is free ends at once. -/
  at_once : ∀ before x later name timeout, hist = before ++ x :: later →
    Calls name timeout before x later → 0 < x.before.slots.free →
    x.Ends name .available ∧ ∀ y ∈ later, ¬ y.Over name
  waits : ∀ before x later name timeout, hist = before ++ x :: later →
    Calls name timeout before x later → x.before.slots.free = 0 →
    Waits name (x.now + timeout) x later

/-- As long as no call begins to wait under a name nobody waits under it. -/
private theorem of_run_eq_nil (h : w.of name = [])
    (hown : ∀ y ∈ w.steps xs, y.input.awaits name = false) : (w.run xs).of name = [] := by
  -- Nobody waits under the name, and only a wait of that name could begin one.
  have hrun := run_keeps (w := w)
    (P := fun hist m => (∀ y ∈ hist, y.input.awaits name = false) → m.of name = [])
    (fun _ => h) (fun hist m now i hm hall => ?_) xs
  · exact hrun hown
  · have hlast := hall (m.step now i) (List.mem_append_right _ (List.mem_singleton_self _))
    exact (of_after_eq_nil (hm fun y hy => hall y (List.mem_append_left _ hy)) now hlast).1

/-- With a free slot a wait is over at once. -/
private theorem await_of_free (h : 0 < w.slots.free) (now : Nat) (name : String) (timeout : Nat) :
    w.await now name timeout = { w with ended := (now, name, .available) :: w.ended } :=
  if_pos h

/-- Without one it is put into the list. -/
private theorem await_of_full (h : w.slots.free = 0) (now : Nat) (name : String) (timeout : Nat) :
    w.await now name timeout =
      { w with waiters := w.waiters ++ [⟨name, now + timeout, false⟩] } :=
  if_neg (by omega)

/-- A caller that finds no free slot begins to wait. -/
private theorem waiting_await (h : w.slots.free = 0) (hnone : w.of name = []) (now timeout : Nat) :
    (w.await now name timeout).Waiting name (now + timeout) false := by
  unfold of at hnone
  simp [await_of_full h, Waiting, of, List.filter_append, hnone]

/-- What a wait that finds no free slot comes to. -/
private theorem Waiting.waits (h : x.after.Waiting name deadline false) (hnot : ¬ x.Over name)
    (hown : ∀ y ∈ x.after.steps xs, y.input.awaits name = false) (hdeadline : x.now ≤ deadline) :
    Waits name deadline x (x.after.steps xs) := by
  -- One invariant for both clauses: the next step is no later than where the wait is over.
  have huntil : Prompt (x :: x.after.steps xs) → _ :=
    fun hprompt => h.until_over hown hprompt ⟨hdeadline, rfl⟩
  constructor
  case not_yet => exact hnot
  case can_end =>
    -- It can end at a step exactly if something before has woken it, or its deadline has come.
    intro early z rest hcut hearly now
    rw [(h.of_cut hown hcut hearly).over_goOn_iff now, Bool.false_or, List.any_eq_true]
  case in_time => exact fun hprompt => (huntil hprompt).imp (fun _ _ hy => hy.1) fun _ _ hy => hy
  case on_time =>
    intro hprompt y hy hover
    obtain ⟨early, rest, hcut⟩ := List.append_of_mem hy
    have hfirst : ∀ z ∈ early, ¬ z.Over name := not_over_of_once (hcut ▸ h.once hown) hover
    have hall := huntil hprompt
    rw [hcut] at hall ⊢
    exact (hall.of_cut hfirst).2 hover
  case once => exact h.once hown

/-- A call ends at once if a slot is free, and begins to wait otherwise. -/
private theorem Calls.began {before : List SlotStep} {timeout : Nat}
    (h : Calls name timeout before x later) (hcut : w.steps xs = before ++ x :: later)
    (hnone : w.of name = []) : ∃ zs, later = x.after.steps zs ∧
      ((0 < x.before.slots.free ∧ x.Ends name .available ∧ x.after.of name = []) ∨
        (x.before.slots.free = 0 ∧ ¬ x.Over name ∧
          x.after.Waiting name (x.now + timeout) false)) := by
  obtain ⟨ys, now, i, zs, rfl, rfl, rfl⟩ := exists_cut_of_steps hcut
  obtain rfl : i = .await name timeout := h.input
  have hbefore := of_run_eq_nil hnone (List.forall_mem_append.mp h.own).1
  refine ⟨zs, rfl, ?_⟩
  -- By the free slots at the call.
  rcases Nat.eq_zero_or_pos (w.run ys).slots.free with hfull | hfree
  · have hsame := congrArg ended (await_of_full hfull now name timeout)
    refine .inr ⟨hfull, fun ⟨o, hends⟩ => ?_, waiting_await hfull hbefore now timeout⟩
    exact List.cons_ne_self _ _ (hends.symm.trans hsame)
  · have hafter := await_of_free hfree now name timeout
    exact .inl ⟨hfree, congrArg ended hafter, (congrArg (of · name) hafter).trans hbefore⟩

/-- The free slots stay within the capacity in each run. -/
theorem within_run (capacity threshold : Nat) (xs : List (Nat × SlotInput)) :
    (Slots.ofCapacity capacity threshold).Within
      ((ofSlots (Slots.ofCapacity capacity threshold)).run xs).slots :=
  run_keeps (P := fun _ m => (Slots.ofCapacity capacity threshold).Within m.slots)
    ⟨rfl, rfl, Nat.le_refl _⟩ (fun _ m now i hm => (took_after now m i).within hm) xs

/-- Slots stay between zero and the capacity, and every wait on them ends in time, with an
    outcome that says whether a slot is free then. -/
theorem serves_run (capacity threshold : Nat) (xs : List (Nat × SlotInput)) :
    Serves capacity threshold
      ((ofSlots (Slots.ofCapacity capacity threshold)).steps xs) := by
  constructor
  case within =>
    intro y hy
    obtain ⟨ys, now, i, rfl⟩ := exists_run_of_mem_steps hy
    have hbefore := within_run capacity threshold ys
    exact ⟨hbefore, (took_after now _ i).within hbefore⟩
  case woken =>
    intro y hy
    obtain ⟨ys, now, i, rfl⟩ := exists_run_of_mem_steps hy
    exact (took_after now _ i).wakes
  case outcome =>
    intro y hy name o hends
    obtain ⟨ys, now, i, rfl⟩ := exists_run_of_mem_steps hy
    rw [(took_after now _ i).outcome hends]
    exact outcome_eq_available_iff
  -- A free slot: the wait is over in the step of its call.
  case at_once =>
    intro before x later name timeout hcut hcall hfree
    have hlater := (List.forall_mem_append.mp hcall.own).2
    obtain ⟨zs, rfl, ⟨-, hends, hnone⟩ | ⟨hfull, -⟩⟩ := hcall.began hcut rfl
    · exact ⟨hends, not_over_of_mem_steps hnone hlater⟩
    · omega
  -- No free slot: the wait is put into the list, and ends by one of the steps after it.
  case waits =>
    intro before x later name timeout hcut hcall hfull
    have hlater := (List.forall_mem_append.mp hcall.own).2
    obtain ⟨zs, rfl, ⟨hfree, -⟩ | ⟨-, hnot, hwaiting⟩⟩ := hcall.began hcut rfl
    · omega
    · exact hwaiting.waits hnot hlater (Nat.le_add_right _ _)

/-- Two callers wait for the only slot, which comes back before the time of either is over: both
    are woken, and the second finds that it was taken again. -/
example :
    let w := ofSlots (Slots.ofCapacity 1 1)
    let xs : List (Nat × SlotInput) := [(0, .hold "p"), (0, .await "a" 50), (1, .await "b" 90),
      (7, .drop "p"), (7, .goOn "a"), (7, .acquire 1), (7, .goOn "b")]
    Prompt (w.steps xs) ∧ (w.run xs).ended = [(7, "b", .timedOut), (7, "a", .available)] := by
  decide +kernel

/-! ## Waits that find no free slot in the end -/

/-- Enough slots have come back to wake a waiter, and the last of them was taken again before it
    went on.  If nobody dawdles all this is at one instant. -/
def Overtaken (x : SlotStep) (early : List SlotStep) (y : SlotStep) (rest : List SlotStep) : Prop :=
  ∃ before z between u after, early = before ++ z :: (between ++ u :: after) ∧ z.wakes ∧
    0 < u.before.slots.free ∧ u.after.slots.free = 0 ∧
    (Prompt (x :: (early ++ y :: rest)) → z.now = y.now ∧ u.now = y.now)

/-- If a slot is free at first and none in the end, the last free ones have been taken. -/
private theorem exists_taken (h : 0 < w.slots.free) {early rest : List SlotStep}
    (hcut : w.steps xs = early ++ x :: rest) (hx : x.before.slots.free = 0) :
    ∃ before u later, early = before ++ u :: later ∧ 0 < u.before.slots.free ∧
      u.after.slots.free = 0 := by
  -- The first step after which no slot is free is the one that takes the last.
  induction early generalizing w xs with
  | nil =>
    cases xs with
    | nil => cases hcut
    | cons y ys =>
      obtain ⟨rfl, -⟩ := List.cons.inj hcut
      exact absurd hx (Nat.ne_of_gt h)
  | cons z early ih =>
    cases xs with
    | nil => cases hcut
    | cons y ys =>
      obtain ⟨rfl, hrest⟩ := List.cons.inj hcut
      by_cases hfull : (w.after y.1 y.2).slots.free = 0
      · exact ⟨[], _, early, rfl, h, hfull⟩
      · obtain ⟨before, u, later, rfl, hu⟩ := ih (Nat.pos_of_ne_zero hfull) hrest
        exact ⟨_ :: before, u, later, rfl, hu⟩

/-- A wait that ends before its time is over and finds no free slot was overtaken. -/
theorem Waits.overtaken {early rest : List SlotStep} {y : SlotStep}
    (h : Waits name deadline x (x.after.steps xs)) (hcut : x.after.steps xs = early ++ y :: rest)
    (hover : y.Over name) (hfull : y.before.slots.free = 0) (hearly : y.now < deadline)
    (hfree : ∀ z ∈ early, z.wakes → 0 < z.after.slots.free) (hwoken : ∃ z ∈ early, z.wakes) :
    Overtaken x early y rest := by
  obtain ⟨z, hz⟩ := Option.isSome_iff_exists.mp (List.find?_isSome.mpr hwoken)
  obtain ⟨hwakes, before, after, rfl, -⟩ := List.find?_eq_some_iff_append.mp hz
  have hzcut : x.after.steps xs = before ++ z :: (after ++ y :: rest) := by
    rw [hcut, List.append_assoc, List.cons_append]
  obtain ⟨_, _, _, zs, -, -, hzs⟩ := exists_cut_of_steps hzcut
  have hpos := hfree z (List.mem_append_right _ List.mem_cons_self) hwakes
  obtain ⟨between, u, later, rfl, hu⟩ := exists_taken hpos hzs.symm hfull
  refine ⟨before, z, between, u, later, rfl, hwakes, hu.1, hu.2, fun hprompt => ?_⟩
  -- The wait is over when it is woken, since that is before its deadline.
  have hnow : y.now = min deadline z.now := by
    have hmem : y ∈ x.after.steps xs := hcut ▸ List.mem_append_right _ List.mem_cons_self
    rw [h.on_time (hcut ▸ hprompt) y hmem hover, overAt, hcut, List.find?_append, hz]
    rfl
  have hsorted := (List.pairwise_cons.mp hprompt.pairwise).2
  simp only [List.pairwise_append, List.pairwise_cons, List.mem_append, List.mem_cons] at hsorted
  have hzu : z.now ≤ u.now := by grind
  have huy : u.now ≤ y.now := by grind
  omega

/-- A wait that finds no free slot in the end took all its time, unless it was overtaken. -/
theorem timedOut_run (capacity threshold : Nat) (xs : List (Nat × SlotInput)) :
    ∀ before x early y rest name timeout,
      (ofSlots (Slots.ofCapacity capacity threshold)).steps xs =
        before ++ x :: (early ++ y :: rest) →
      Calls name timeout before x (early ++ y :: rest) → y.Ends name .timedOut →
      y.before.slots.free = 0 ∧ (x.now + timeout ≤ y.now ∨ Overtaken x early y rest) := by
  intro before x early y rest name timeout hcut hcall hends
  have hown := (List.forall_mem_append.mp hcall.own).2
  have hmem : y ∈ early ++ y :: rest := List.mem_append_right _ List.mem_cons_self
  -- Which step is the end of the wait, and what is free in each state.
  have hstep : ∀ z ∈ early ++ y :: rest, ∃ ys now i,
      z = ((ofSlots (Slots.ofCapacity capacity threshold)).run ys).step now i := fun z hz =>
    exists_run_of_mem_steps (hcut ▸ List.mem_append_right _ (List.mem_cons_of_mem _ hz))
  obtain ⟨zs, hzs, ⟨-, -, hnone⟩ | ⟨-, hnot, hwaiting⟩⟩ := hcall.began hcut rfl
  · exact (not_over_of_mem_steps hnone (hzs ▸ hown) y (hzs ▸ hmem) ⟨_, hends⟩).elim
  · have hwaits := hwaiting.waits hnot (hzs ▸ hown) (Nat.le_add_right _ _)
    have hfull : y.before.slots.free = 0 := by
      obtain ⟨ys, now, i, rfl⟩ := hstep y hmem
      have houtcome := (took_after now _ i).outcome hends
      by_contra hne
      cases houtcome.trans (outcome_eq_available_iff.mpr (Nat.pos_of_ne_zero hne))
    refine ⟨hfull, or_iff_not_imp_left.mpr fun hearly => ?_⟩
    have hfirst : ∀ z ∈ early, ¬ z.Over name :=
      not_over_of_once (hzs ▸ hwaits.once) ⟨_, hends⟩
    refine hwaits.overtaken hzs.symm ⟨_, hends⟩ hfull (by omega) (fun z hz hwakes => ?_) ?_
    · obtain ⟨ys, now, i, rfl⟩ := hstep z (List.mem_append_left _ hz)
      have hwithin := (took_after now _ i).within (within_run capacity threshold ys)
      exact hwithin.free_pos (Bool.and_eq_true_iff.mp hwakes).2
    · have hwoken := hwaiting.of_cut (hzs ▸ hown) hzs.symm hfirst
      obtain ⟨ys, now, i, rfl⟩ := hstep y hmem
      rcases hwoken.step now (hown _ hmem) with ⟨-, hdue, -⟩ | ⟨hnotover, -⟩
      · exact List.any_eq_true.mp (hdue.resolve_right hearly)
      · exact (hnotover ⟨_, hends⟩).elim

/-- The only slot comes back at once and is taken again before the one who waits for it goes on. -/
def snatched : List (Nat × SlotInput) :=
  [(0, .acquire 1), (0, .await "a" 1000), (0, .release 1), (0, .acquire 1), (0, .goOn "a")]

/-- A release wakes the waiter, and an acquire takes the slot before it looks. -/
theorem timedOut_run_snatched :
    let w := ofSlots (Slots.ofCapacity 1 1)
    let x := (w.run (snatched.take 1)).step 0 (.await "a" 1000)
    let early := x.after.steps ((snatched.drop 2).take 2)
    let y := (w.run (snatched.take 4)).step 0 (.goOn "a")
    Calls "a" 1000 (w.steps (snatched.take 1)) x (early ++ [y]) ∧ y.Ends "a" .timedOut ∧
      y.before.slots.free = 0 ∧ (1000 ≤ y.now ∨ Overtaken x early y []) := by
  intro w x early y
  have hcall : Calls "a" 1000 (w.steps (snatched.take 1)) x (early ++ [y]) :=
    ⟨rfl, by decide +kernel⟩
  exact ⟨hcall, rfl, timedOut_run 1 1 snatched _ x early y [] "a" 1000 rfl hcall rfl⟩

/-- So a wait may find no free slot in the end although its time is not over. -/
theorem timedOut_early :
    ¬ ∀ (capacity threshold : Nat) (xs : List (Nat × SlotInput)) before x early y rest name timeout,
      (ofSlots (Slots.ofCapacity capacity threshold)).steps xs =
        before ++ x :: (early ++ y :: rest) →
      Calls name timeout before x (early ++ y :: rest) →
      Prompt ((ofSlots (Slots.ofCapacity capacity threshold)).steps xs) →
      y.Ends name .timedOut → x.now + timeout ≤ y.now := by
  intro h
  have hle := h 1 1 snatched ((ofSlots (Slots.ofCapacity 1 1)).steps (snatched.take 1)) _
    (((ofSlots (Slots.ofCapacity 1 1)).run (snatched.take 2)).steps ((snatched.drop 2).take 2)) _ []
    "a" 1000 rfl ⟨rfl, by decide +kernel⟩ (by decide +kernel) rfl
  exact absurd hle (by decide +kernel)

end SlotWaits

end Intake
