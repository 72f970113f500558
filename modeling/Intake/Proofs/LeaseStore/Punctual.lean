import Intake.Proofs.LeaseStore.LongPoll

/-!
# A counter whose clock goes on

The clock of a counter stops at every instant at which a receive call is due to look, so a run that
has been prompt stays so as time passes, and nobody waits beyond its time.

- `Counter.timely_timeline`: the clock goes past no instant at which a receive call is due
- `Counter.due_of_act?`: a receive call that looks does not look again at the same instant
- `Counter.PromptTo.exists_of_runUntil`: a prompt run goes on promptly
- `Counter.exists_over_of_advance`: a receive call returns as the clock goes to its deadline
-/

namespace Intake

/-- A receive call has its name alone, whatever calls look. -/
private theorem Asks.append_looks {name n : String} {r : ReceiveRequest}
    {before later : List ErrandStep}
    {x : ErrandStep} {ys : List (Nat × Errand)} (h : Asks name n r before x later) (c : Counter)
    (hlooks : ∀ y ∈ ys, ∃ i, y.2 = .look i) : Asks name n r before x (later ++ c.steps ys) := by
  refine ⟨h.errand, ?_, h.queue, h.limit⟩
  rw [← List.append_assoc]
  refine List.forall_mem_append.mpr ⟨h.own, fun y hy => ?_⟩
  -- The steps that are added are looks, and a look begins no call.
  obtain ⟨i, hi⟩ : ∃ i, y.errand = .look i := hlooks _ (Counter.mem_of_mem_steps hy)
  rw [hi]
  rfl

namespace Counter

variable {c c' : Counter} {now : Nat}

/-! ## What is due -/

/-- The clock goes past no instant at which a receive call is due to look. -/
theorem timely_timeline : timeline.Timely := by
  intro u c h
  refine act?_eq_none_iff.mpr fun e he => ?_
  have hmem : e.2.lookAt ∈ c.polls.map (·.2.lookAt) := List.mem_map_of_mem he
  -- If the earliest look is not before `t`, none is.
  cases hmin : earliest (c.polls.map (·.2.lookAt)) with
  | none => exact absurd (List.min?_eq_none_iff.mp hmin) (List.ne_nil_of_mem hmem)
  | some t =>
    have hle : t ≤ e.2.lookAt := (List.min?_eq_some_iff.mp hmin).2 _ hmem
    exact Nat.lt_of_lt_of_le (h t hmin) hle

/-- The receive calls whose time to look has come. -/
def due (now : Nat) (c : Counter) : Nat := c.polls.countP (·.2.lookAt ≤ now)

/-- A receive call that looks does not look again at the same instant. -/
theorem due_of_act? (h : timeline.act? now c = some c') :
    c'.due now < c.due now ∧ c'.polls.length ≤ c.polls.length := by
  obtain ⟨i, name, p, hi, hdue, rfl⟩ := exists_place_of_lookFirst rfl h
  -- The poll at its place is the first due one: the others are due as before.
  have hperm := perm_cons_eraseIdx hi
  have hlength := hperm.length_eq
  have hcount : (c.polls.eraseIdx i).countP (·.2.lookAt ≤ now) + 1 = c.due now := by
    rw [due, ← hperm.countP_eq, List.countP_cons_of_pos (by simpa using hdue)]
  rw [List.length_cons] at hlength
  simp only [lookFrom, hi, if_pos hdue]
  rcases hlook : p.look now c.store with ⟨r | p', s⟩
  · -- The poll returns, so it is no longer waiting.
    refine ⟨?_, ?_⟩
    · rw [due, polls_finish]
      show (c.polls.eraseIdx i).countP _ < _
      omega
    · rw [polls_finish]
      show (c.polls.eraseIdx i).length ≤ _
      omega
  · -- It waits on, and its next look is after this instant.
    obtain ⟨hnow, hp'⟩ := LongPoll.look_inr (congrArg Prod.fst hlook)
    have hnot : ¬ p'.lookAt ≤ now := by
      rw [hp']
      have htick : 0 < LongPoll.tick := by decide
      dsimp only
      omega
    refine ⟨?_, ?_⟩
    · show (c.polls.eraseIdx i ++ [(name, p')]).countP _ < _
      rw [List.countP_append, List.countP_singleton, if_neg (by simpa using hnot)]
      omega
    · show (c.polls.eraseIdx i ++ [(name, p')]).length ≤ _
      rw [List.length_append, List.length_singleton]
      omega

/-! ## Prompt runs -/

/-- A run is prompt, and time goes on promptly from its last step to an instant. -/
structure PromptTo (c : Counter) (xs : List (Nat × Errand)) (now : Nat) : Prop where
  prompt : Prompt (c.steps xs)
  passes : ∀ x ∈ (c.steps xs).getLast?, timeline.Passes x.now now (c.run xs)

namespace PromptTo

variable {xs : List (Nat × Errand)} {now' : Nat}

/-- One more thing happens, at the instant to which time has gone. -/
private theorem act (h : c.PromptTo xs now) (e : Errand) : c.PromptTo (xs ++ [(now, e)]) now := by
  have hlast : c.steps (xs ++ [(now, e)]) = c.steps xs ++ [(c.run xs).step now e] :=
    c.steps_append xs _
  constructor
  case prompt =>
    -- The last step is at the instant that the clock has come to.
    rw [hlast]
    refine List.isChain_append.mpr ⟨h.prompt, .singleton _, fun x hx y hy => ?_⟩
    obtain rfl := Option.some.inj hy
    exact h.passes x hx
  case passes =>
    intro x hx
    rw [hlast, List.getLast?_append_of_ne_nil _ (List.cons_ne_nil _ _)] at hx
    obtain rfl := Option.some.inj hx
    exact ⟨Nat.le_refl now, fun u hlt hle => absurd hlt (Nat.not_lt.mpr hle)⟩

/-- Time goes on past no instant at which a receive call is due. -/
private theorem later (h : c.PromptTo xs now) (hpasses : timeline.Passes now now' (c.run xs)) :
    c.PromptTo xs now' :=
  ⟨h.prompt, fun x hx => (h.passes x hx).trans hpasses⟩

/-- As the clock goes, a prompt run goes on promptly, and at the end nobody is due to look. -/
theorem exists_of_runUntil (h : c.PromptTo xs now)
    (hfew : (c.run xs).polls.length ≤ Timeline.burst) (done : Counter → Bool) (limit : Nat) :
    ∃ ys, (∀ y ∈ ys, ∃ i, y.2 = .look i) ∧
      (timeline.runUntil done limit now (c.run xs)).2 = c.run (xs ++ ys) ∧
      c.PromptTo (xs ++ ys) (timeline.runUntil done limit now (c.run xs)).1 ∧
      ∀ e ∈ (c.run (xs ++ ys)).polls,
        (timeline.runUntil done limit now (c.run xs)).1 < e.2.lookAt := by
  -- Carried along: the run so far is a prompt run, lengthened by looks only.
  have hrun := timely_timeline.runUntil_keeps (P := fun t m => m.polls.length ≤ Timeline.burst ∧
    ∃ ys, (∀ y ∈ ys, ∃ i, y.2 = .look i) ∧ m = c.run (xs ++ ys) ∧ c.PromptTo (xs ++ ys) t)
    ?act ?settled ?later done limit now
    ⟨hfew, [], nofun, by rw [List.append_nil], by rwa [List.append_nil]⟩
  · obtain ⟨⟨-, ys, hlooks, heq, hprompt⟩, hnone⟩ := hrun
    exact ⟨ys, hlooks, heq, hprompt, act?_eq_none_iff.mp (heq ▸ hnone)⟩
  case act =>
    rintro t m m' hm ⟨hfew, ys, hlooks, rfl, hprompt⟩
    have hlength := (due_of_act? hm).2
    obtain ⟨i, -, -, -, -, rfl⟩ := exists_place_of_lookFirst rfl hm
    refine ⟨Nat.le_trans hlength hfew, ys ++ [(t, .look i)], ?_, ?_, ?_⟩
    · exact List.forall_mem_append.mpr ⟨hlooks, List.forall_mem_singleton.mpr ⟨i, rfl⟩⟩
    · rw [← List.append_assoc, run_append _ (xs ++ ys)]
      rfl
    · rw [← List.append_assoc]
      exact hprompt.act (.look i)
  case settled =>
    intro t m h
    -- Each look makes one poll fewer due, so the burst is long enough for all of them.
    exact Timeline.act?_settleFor_eq_none (due t) (fun m m' hm => (due_of_act? hm).1)
      (Nat.le_trans List.countP_le_length h.1)
  case later =>
    rintro t t' m hpasses ⟨hfew, ys, hlooks, rfl, hprompt⟩
    exact ⟨hfew, ys, hlooks, rfl, hprompt.later hpasses⟩

end PromptTo

/-! ## Receive calls -/

variable {s : LeaseStore} {xs : List (Nat × Errand)} {before later : List ErrandStep}
  {x : ErrandStep} {name n : String} {r : ReceiveRequest}

/-- As long as it has not returned, a receive call that fits the clock waits, and looks when its time
    is over. -/
private theorem PromptTo.exists_waiting (h : (ofStore s).PromptTo xs now)
    (hcut : (ofStore s).steps xs = before ++ x :: later) (hasks : Asks name n r before x later)
    (hfits : x.before.store.Fits x.now r) (hwaits : ∀ y ∈ later, ¬ y.Over name) :
    ∃ p, (name, p) ∈ ((ofStore s).run xs).polls ∧
      p.lookAt ≤ x.now + r.wait.getD x.before.store.wait := by
  -- One more step shows that it is still there.
  have hlast : (ofStore s).steps (xs ++ [(now, .look 0)]) =
      before ++ x :: (later ++ [((ofStore s).run xs).step now (.look 0)]) := by
    rw [steps_append, hcut, List.append_assoc]
    rfl
  have hprompt := (h.act (.look 0)).prompt
  have hown : ∀ y ∈ before ++ (later ++ [((ofStore s).run xs).step now (.look 0)]),
      y.errand.receives name = false := by
    rw [← List.append_assoc]
    exact List.forall_mem_append.mpr ⟨hasks.own, List.forall_mem_singleton.mpr rfl⟩
  have hvigil := Asks.vigil ⟨hasks.errand, hown, hasks.queue, hasks.limit⟩ hfits hlast
    (hlast ▸ hprompt)
  obtain ⟨z, -, p, hvigil, -, hdeadline⟩ := hvigil.exists_of_cut hwaits
  obtain ⟨_, _, _, hz, -⟩ := hvigil.exists_step
  have hbefore : z.after = (ofStore s).run xs := (congrArg ErrandStep.before hz).symm
  exact ⟨p, hbefore ▸ hvigil.mem_polls, Nat.le_trans hvigil.lookAt_le hdeadline.le⟩

/-- Once the clock has gone to its deadline, a receive call that fits it has returned. -/
theorem exists_over_of_advance (h : (ofStore s).PromptTo xs now)
    (hcut : (ofStore s).steps xs = before ++ x :: later) (hasks : Asks name n r before x later)
    (hfits : x.before.store.Fits x.now r)
    (hfew : ((ofStore s).run xs).polls.length ≤ Timeline.burst) {limit : Nat} (hle : now ≤ limit)
    (hlimit : x.now + r.wait.getD x.before.store.wait ≤ limit) :
    ∃ ys, (timeline.advance limit now ((ofStore s).run xs)).2 = (ofStore s).run (xs ++ ys) ∧
      Prompt ((ofStore s).steps (xs ++ ys)) ∧
      ∃ y ∈ later ++ ((ofStore s).run xs).steps ys, y.Over name := by
  -- The polls look as they become due, until the clock is at the limit.
  obtain ⟨ys, hlooks, heq, hprompt, hidle⟩ := h.exists_of_runUntil hfew (fun _ => false) limit
  refine ⟨ys, heq, hprompt.prompt, ?_⟩
  have hreached : (timeline.runUntil (fun _ => false) limit now ((ofStore s).run xs)).1 = limit :=
    timeline.fst_advance hle _
  rw [hreached] at hprompt hidle
  have hlonger : (ofStore s).steps (xs ++ ys) =
      before ++ x :: (later ++ ((ofStore s).run xs).steps ys) := by
    rw [steps_append, hcut, List.append_assoc]
    rfl
  -- Else it would be waiting still, with a look that is past.
  by_contra hnone
  obtain ⟨p, hp, hlookAt⟩ := hprompt.exists_waiting hlonger (hasks.append_looks _ hlooks) hfits
    fun y hy hover => hnone ⟨y, hy, hover⟩
  exact absurd (hidle _ hp) (Nat.not_lt.mpr (Nat.le_trans hlookAt hlimit))

end Counter

end Intake
