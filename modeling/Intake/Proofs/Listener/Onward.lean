import Intake.Proofs.Listener.Bystander
import Intake.Proofs.Listener.Calls
import Intake.Proofs.Listener.Passing
import Mathlib.Algebra.GroupWithZero.Nat
import Mathlib.Algebra.Order.BigOperators.Group.Finset
import Mathlib.Data.Nat.Find
import Mathlib.Data.Prod.Lex
import Mathlib.Order.WellFounded

/-!
# A listener does not stand still

What is due at an instant cannot be due there forever: each time that a pending call or a poller
goes on, less is left to do at this instant.  So in the end nothing is due any more, time can pass,
and a prompt run goes on to every later instant.

- `load`: what is left to do at an instant
- `load_proceed`, `load_goOn`: whoever goes on leaves less to do
- `Prompt.exists_onward`: a prompt run goes on promptly to every later instant
-/

namespace Intake

/-- Whether by a stimulus a pending call or a poller goes on; nobody from outside has to act. -/
def Stimulus.isOwn : Stimulus → Bool
  | .goOn _ | .proceed _ => true
  | _ => false

namespace Listener

variable {l l' : Listener} {now n : Nat} {p r : PollerId} {c : Call} {x : Poller}

/-! ## What is left to do -/

/-- The sum of a measure over all pollers. -/
def tally (l : Listener) (f : PollerId → Nat) : Nat := ∑ p ∈ (l.pollers.map (·.id)).toFinset, f p

/-- How often a poller can still have its turn at an instant, if nothing else happens: once if it can
    go on, and once more if it has been told to stop and does not know it yet. -/
def turnsOf (l : Listener) (now : Nat) (p : PollerId) : Nat :=
  match l.poller? p with
  | some x => (l.canGoOn now x).toNat + x.signalled.toNat
  | none => 0

/-- What is left to do at an instant: the stages of the pending calls, then the messages in hand, then
    the turns of the pollers. -/
def load (l : Listener) (now : Nat) : Nat ×ₗ Nat ×ₗ Nat :=
  toLex ((l.calls.map (·.stages)).sum,
    toLex (l.tally fun p => (l.hand p).length, l.tally (l.turnsOf now)))

/-- The names in the list are those of the pollers there. -/
private theorem mem_ids_iff : p ∈ (l.pollers.map (·.id)).toFinset ↔ l.poller? p ≠ none := by
  simp [poller?, List.find?_eq_none]

/-- A measure that grows for nobody does not grow in sum. -/
private theorem tally_le {f g : PollerId → Nat} (hle : ∀ r, g r ≤ f r)
    (hnone : ∀ r, l.poller? r = none → f r = 0) : l'.tally g ≤ l.tally f := by
  have hbound : l'.tally g ≤ l.tally g := by
    refine Finset.sum_le_sum_of_ne_zero fun r _ hr => mem_ids_iff.mpr fun hgone => hr ?_
    exact Nat.le_zero.mp (hnone r hgone ▸ hle r)
  exact Nat.le_trans hbound (Finset.sum_le_sum fun r _ => hle r)

/-- If it gets smaller for one poller, it gets smaller in sum. -/
private theorem tally_lt {f g : PollerId → Nat} (hle : ∀ r, g r ≤ f r)
    (hnone : ∀ r, l.poller? r = none → f r = 0) (hp : l.poller? p = some x) (hlt : g p < f p) :
    l'.tally g < l.tally f := by
  have hmem : p ∈ (l.pollers.map (·.id)).toFinset := mem_ids_iff.mpr (by simp [hp])
  have hbound : l'.tally g ≤ l.tally g :=
    tally_le (fun _ => Nat.le_refl _) fun r hgone => Nat.le_zero.mp (hnone r hgone ▸ hle r)
  exact Nat.lt_of_le_of_lt hbound (Finset.sum_lt_sum (fun r _ => hle r) ⟨p, hmem, hlt⟩)

/-- Who is not there has nothing in hand. -/
private theorem hand_of_none (h : l.poller? p = none) : (l.hand p).length = 0 := by
  rw [hand, h]
  rfl

/-- And no turn. -/
private theorem turnsOf_of_none (h : l.poller? p = none) : l.turnsOf now p = 0 := by
  rw [turnsOf, h]

/-- Who is there has a turn if it can go on, and one more if it was told. -/
private theorem turnsOf_of_some (h : l.poller? p = some x) :
    l.turnsOf now p = (l.canGoOn now x).toNat + x.signalled.toNat := by
  rw [turnsOf, h]

/-- The turns of a poller depend on the poller and the workers alone. -/
private theorem turnsOf_congr (hp : l'.poller? r = l.poller? r) (hw : l'.workers = l.workers) :
    l'.turnsOf now r = l.turnsOf now r := by
  have hgo : ∀ x, l'.canGoOn now x = l.canGoOn now x := fun x => by rw [canGoOn, canGoOn, hw]
  rw [turnsOf, turnsOf, hp]
  simp only [hgo]

/-! ## Calls that go on -/

/-- Stopping queues leads to one pending call at the most. -/
theorem calls_stopEach (l : Listener) (now n : Nat) (goal : CallGoal) (qs : List String) :
    (l.stopEach now n goal qs).calls = l.calls ∨ ∃ c : Call,
      (l.stopEach now n goal qs).calls = l.calls ++ [c] ∧ c.number = n ∧
        c.stages ≤ qs.length + 1 := by
  have hstops := stops_stopEach now n goal l qs
  generalize l.stopEach now n goal qs = l' at hstops
  -- Nothing to wait for, or a call for the queues that are left.
  cases hstops with
  | concluded =>
    cases goal with
    | stop => exact .inl rfl
    | shutdown => exact .inr ⟨_, rfl, rfl, Nat.le_add_left _ _⟩
  | stopping before rest =>
    refine .inr ⟨_, rfl, rfl, ?_⟩
    simp only [Call.stages, List.length_append, List.length_cons]
    omega

/-- A call that goes on returns, or waits in fewer stages. -/
private theorem calls_proceed (l : Listener) (now : Nat) (c : Call) :
    (l.proceed now c).calls = l.calls.filter (·.number ≠ c.number) ∨ ∃ c' : Call,
      (l.proceed now c).calls = l.calls.filter (·.number ≠ c.number) ++ [c'] ∧
        c'.number = c.number ∧ c'.stages < c.stages := by
  cases hw : c.wait with
  | poller p t =>
    obtain ⟨ns, heq⟩ := proceed_of_poller hw now l
    have hstages : c.stages = c.rest.length + 2 := by simp [Call.stages, hw]
    rw [heq]
    -- The poller it waited for is behind it: one stage fewer.
    refine (calls_stopEach _ now c.number c.goal c.rest).imp_right ?_
    rintro ⟨c', hcalls, hnumber, hle⟩
    exact ⟨c', hcalls, hnumber, by omega⟩
  | workers t active =>
    left
    unfold proceed
    rw [hw]
    rfl

/-- What is taken out of a list lowers the sum. -/
private theorem sum_filter_add_le {f : Call → Nat} {P : Call → Bool} {cs : List Call} (hc : c ∈ cs)
    (hP : P c = false) : ((cs.filter P).map f).sum + f c ≤ (cs.map f).sum := by
  -- By the place of the element.
  induction cs with
  | nil => cases hc
  | cons d cs ih =>
    rcases List.mem_cons.mp hc with rfl | hc
    · -- The element taken out is counted once, and whatever else goes makes it less.
      have hrest : ((cs.filter P).map f).sum ≤ (cs.map f).sum :=
        (List.filter_sublist.map f).sum_le_sum fun _ _ => Nat.zero_le _
      rw [List.filter_cons_of_neg (by simp [hP]), List.map_cons, List.sum_cons]
      omega
    · have hrest := ih hc
      by_cases hd : P d
      · rw [List.filter_cons_of_pos hd, List.map_cons, List.sum_cons, List.map_cons, List.sum_cons]
        omega
      · rw [List.filter_cons_of_neg hd, List.map_cons, List.sum_cons]
        omega

/-- A pending call that goes on leaves less to do. -/
theorem load_proceed (hc : l.call? n = some c) (hgo : l.canProceed now c) :
    (l.react now (.proceed n)).1.load now < l.load now := by
  obtain ⟨hmem, hnumber⟩ := List.mem_of_find?_key hc
  have hafter : ({ l with outbox := [] } : Listener).after now (.proceed n) =
      ({ l with outbox := [] } : Listener).proceed now c := after_proceed hc hgo
  have hpos : 0 < c.stages := by
    unfold Call.stages
    split <;> omega
  -- The call is taken out, and comes back with fewer stages, if at all.
  have hrest : ((l.calls.filter (·.number ≠ c.number)).map (·.stages)).sum + c.stages ≤
      (l.calls.map (·.stages)).sum := sum_filter_add_le hmem (by simp)
  have hless : ((l.react now (.proceed n)).1.calls.map (·.stages)).sum <
      (l.calls.map (·.stages)).sum := by
    show ((({ l with outbox := [] } : Listener).after now (.proceed n)).calls.map _).sum < _
    rw [hafter]
    rcases calls_proceed { l with outbox := [] } now c with h | ⟨c', h, -, hlt⟩
    · rw [h]
      exact Nat.lt_of_lt_of_le (Nat.lt_add_of_pos_right hpos) hrest
    · rw [h, List.map_append, List.sum_append]
      simp only [List.map_cons, List.map_nil, List.sum_cons, List.sum_nil]
      omega
  exact Prod.Lex.toLex_lt_toLex.mpr (.inl hless)

/-- Pending calls keep their different numbers when one goes on. -/
private theorem nodup_proceed (h : (l.calls.map (·.number)).Nodup) (hc : l.call? n = some c)
    (hgo : l.canProceed now c) : ((l.react now (.proceed n)).1.calls.map (·.number)).Nodup := by
  have hafter : ({ l with outbox := [] } : Listener).after now (.proceed n) =
      ({ l with outbox := [] } : Listener).proceed now c := after_proceed hc hgo
  have hrest : ((l.calls.filter (·.number ≠ c.number)).map (·.number)).Nodup :=
    h.sublist (List.filter_sublist.map _)
  show ((({ l with outbox := [] } : Listener).after now (.proceed n)).calls.map _).Nodup
  rw [hafter]
  rcases calls_proceed { l with outbox := [] } now c with h | ⟨c', h, hnumber, -⟩
  · rw [h]
    exact hrest
  · -- Either nothing comes back, or the call itself.
    -- It comes back under its own number.
    rw [h, List.map_append]
    refine List.nodup_append.mpr ⟨hrest, List.nodup_singleton _, ?_⟩
    intro m hm m' hm' he
    obtain ⟨d, hd, rfl⟩ := List.mem_map.mp hm
    rw [List.map_singleton, List.mem_singleton] at hm'
    have hne : d.number ≠ c.number := by simpa using (List.mem_filter.mp hd).2
    exact hne (he.trans (hm'.trans hnumber))

/-! ## Pollers that go on -/

/-- Parking makes a poller ready at once if it was told. -/
private theorem poller?_park_of_some (hx : l.poller? p = some x) (ph : Phase) :
    (l.park p ph).poller? p = some (if x.signalled then
      { x with phase := .ready, signalled := false } else { x with phase := ph }) := by
  rw [park, poller?_updatePoller (fun x => by split <;> rfl), hx, Option.map_some, if_pos rfl]

/-- A poller that begins a round touches no other. -/
private theorem alone_beginRound (now : Nat) (p : PollerId) (l : Listener) :
    (l.beginRound now p).workers = l.workers ∧
      ∀ r, p ≠ r → (l.beginRound now p).poller? r = l.poller? r := by
  unfold beginRound
  split
  · -- Each way to begin a round ends, changes or leaves the poller's own entry only.
    exact ⟨rfl, fun r hr => (poller?_remove l p r).trans (if_neg hr)⟩
  · split
    · exact ⟨rfl, fun r hr => (poller?_remove l p r).trans (if_neg hr)⟩
    · split
      · exact ⟨rfl, fun r hr => poller?_updatePoller_of_ne (fun x => by split <;> rfl) hr⟩
      · exact ⟨rfl, fun r hr => poller?_setPhase_of_ne hr _⟩

/-- A poller at work that begins a round has one turn less: it ends, it has out a receive call, or it
    waits until a later instant, unless it has been told to stop and knows that now. -/
private theorem turnsOf_beginRound (hmin : 0 < l.settings.minSlotWait) (hx : l.poller? p = some x)
    (now : Nat) : (l.beginRound now p).turnsOf now p < 1 + x.signalled.toNat := by
  unfold beginRound
  split
  · -- Retired: no turn is left.
    rw [turnsOf_of_none (poller?_retire l p)]
    omega
  next st _ =>
    split
    · rw [turnsOf_of_none (poller?_retire l p)]
      omega
    · split
      · -- It waits for slots, at least for a moment.
        have hwait : 0 < st.source.options.slotWait l.settings.minSlotWait :=
          Nat.lt_of_lt_of_le hmin (Nat.le_max_right _ _)
        rw [turnsOf_of_some (poller?_park_of_some hx _)]
        cases x.signalled with
        | true => simp [canGoOn]
        | false => simp [canGoOn, Nat.pos_iff_ne_zero.mp hwait]
      · -- It receives, and cannot go on by itself.
        have hasks := poller?_setPhase l p p (.receiving now)
        rw [hx, Option.map_some, if_pos rfl] at hasks
        have hturns : (l.setPhase p (.receiving now)).turnsOf now p = x.signalled.toNat := by
          rw [turnsOf_of_some hasks]
          simp [canGoOn]
        show (l.setPhase p (.receiving now)).turnsOf now p < _
        omega

/-- Unless it has waited for a worker, a poller that goes on begins a round. -/
private theorem goOn_eq_beginRound (hgo : l.canGoOn now x) (hphase : x.phase.hand = [])
    (m : Listener) : ∃ es, m.goOn now x = ({ m with outbox := es } : Listener).beginRound now x.id := by
  unfold goOn
  -- Each phase begins a round, but for the one with messages in hand.
  cases hx : x.phase with
  | fresh =>
    dsimp only
    split
    · exact ⟨_, rfl⟩
    next hs =>
      refine ⟨m.outbox, ?_⟩
      rw [beginRound]
      simp only [hs]
  | ready | awaitingSlot | resting => exact ⟨m.outbox, rfl⟩
  | submitting d ds =>
    rw [hx] at hphase
    cases hphase
  | receiving | broken => simp [canGoOn, hx] at hgo

/-- A batch of which a poller has handed on some messages is no longer than before. -/
private theorem length_handOn_le (p : PollerId) (ds : List Delivery) (l : Listener) :
    (l.handOn p ds).2.1.length ≤ ds.length := by
  have hlength := congrArg List.length (map_delivery_passings p ds l)
  rw [List.length_append] at hlength
  omega

/-- Who goes on after it has waited for a worker has fewer messages in hand then. -/
private theorem hand_goOn_submitting {d : Delivery} {ds : List Delivery}
    (hx : l.poller? x.id = some x) (hphase : x.phase = .submitting d ds) (now : Nat) :
    (∀ r, (((l.setPhase x.id .ready).goOn now x).hand r).length ≤ (l.hand r).length) ∧
      (((l.setPhase x.id .ready).goOn now x).hand x.id).length < (l.hand x.id).length := by
  have hw : (l.setPhase x.id .ready).AtWork x.id := .setPhase_ready hx
  have hagain := (passes_offerAgain hw d).atWork hw
  have hgoOn : (l.setPhase x.id .ready).goOn now x =
      ((l.setPhase x.id .ready).offerAgain x.id d).2.dispatch now x.id ds := by
    simp only [goOn, hphase, resumeSubmit]
  have hbefore : l.hand x.id = d :: ds := by rw [hand_of_poller? hx, hphase, Phase.hand]
  have hkept := length_handOn_le x.id ds ((l.setPhase x.id .ready).offerAgain x.id d).2
  rw [hgoOn]
  -- The message offered again is in no hand any more.
  refine ⟨fun r => ?_, ?_⟩
  · rw [hand_dispatch now hagain, hand_offerAgain, hand_setPhase hx]
    by_cases hr : x.id = r
    · subst hr
      rw [if_pos rfl, hbefore, List.length_cons]
      omega
    · rw [if_neg hr, if_neg hr]
  · rw [hand_dispatch now hagain, if_pos rfl, hbefore, List.length_cons]
    omega

/-- Who goes on with nothing in hand changes no hand and has one turn less. -/
private theorem turnsOf_goOn (hmin : 0 < l.settings.minSlotWait) (hx : l.poller? x.id = some x)
    (hgo : l.canGoOn now x) (hphase : x.phase.hand = []) :
    (∀ r, ((l.setPhase x.id .ready).goOn now x).hand r = l.hand r) ∧
      (∀ r, ((l.setPhase x.id .ready).goOn now x).turnsOf now r ≤ l.turnsOf now r) ∧
      ((l.setPhase x.id .ready).goOn now x).turnsOf now x.id < l.turnsOf now x.id := by
  obtain ⟨es, hround⟩ := goOn_eq_beginRound hgo hphase (l.setPhase x.id .ready)
  let m : Listener := { l.setPhase x.id .ready with outbox := es }
  have hready : m.poller? x.id = some { x with phase := .ready } := by
    show (l.setPhase x.id .ready).poller? x.id = _
    rw [poller?_setPhase, hx, Option.map_some, if_pos rfl]
  have hw : m.AtWork x.id := ⟨_, hready, rfl⟩
  obtain ⟨hworkers, hothers⟩ := alone_beginRound now x.id m
  -- It could go on, and after its round it cannot, unless it was told.
  have hbefore : l.turnsOf now x.id = 1 + x.signalled.toNat := by
    rw [turnsOf_of_some hx, hgo, Bool.toNat_true]
  have hless : (m.beginRound now x.id).turnsOf now x.id < l.turnsOf now x.id :=
    hbefore ▸ turnsOf_beginRound (l := m) hmin hready now
  rw [hround]
  refine ⟨fun r => ?_, fun r => ?_, hless⟩
  · -- Nobody has a message more.
    have hmhand : m.hand r = l.hand r := by
      show (l.setPhase x.id .ready).hand r = l.hand r
      rw [hand_setPhase hx]
      split
      next hr => exact hr ▸ ((hand_of_poller? hx).trans hphase).symm
      next => rfl
    exact ((moves_beginRound now hw).aside.hand r).trans hmhand
  · -- The turns of all others are as before.
    by_cases hr : x.id = r
    · exact hr ▸ Nat.le_of_lt hless
    · have hsame : (m.beginRound now x.id).poller? r = l.poller? r :=
        (hothers r hr).trans (poller?_setPhase_of_ne hr .ready)
      exact Nat.le_of_eq (turnsOf_congr hsame hworkers)

/-- A poller that goes on leaves less to do. -/
theorem load_goOn (hmin : 0 < l.settings.minSlotWait) (hx : l.poller? p = some x)
    (hgo : l.canGoOn now x) : (l.react now (.goOn p)).1.load now < l.load now := by
  obtain ⟨-, rfl⟩ := poller?_eq_some hx
  have hcalls : (l.react now (.goOn x.id)).1.calls = l.calls :=
    calls_of_desk (desk_react now fun _ he => by cases he)
  let m : Listener := (({ l with outbox := [] } : Listener).setPhase x.id .ready).goOn now x
  have hafter : (l.react now (.goOn x.id)).1 = { m with outbox := [] } :=
    congrArg (fun m : Listener => { m with outbox := [] })
      (after_goOn (l := { l with outbox := [] }) hx hgo)
  refine Prod.Lex.toLex_lt_toLex.mpr (.inr ⟨by rw [hcalls], Prod.Lex.toLex_lt_toLex.mpr ?_⟩)
  rw [hafter]
  -- With an empty hand a round; otherwise the message in hand goes on.
  by_cases hphase : x.phase.hand = []
  · obtain ⟨hhand, hturns, hless⟩ :=
      turnsOf_goOn (l := { l with outbox := [] }) hmin hx hgo hphase
    have hle : m.tally (fun r => (m.hand r).length) ≤ l.tally fun r => (l.hand r).length :=
      tally_le (fun r => Nat.le_of_eq (congrArg List.length (hhand r))) fun r => hand_of_none
    exact hle.lt_or_eq.imp_right fun he => ⟨he, tally_lt hturns (fun r => turnsOf_of_none) hx hless⟩
  · -- Only who waits for a worker has messages in hand.
    obtain ⟨d, ds, hsubmitting⟩ : ∃ d ds, x.phase = .submitting d ds := by
      cases h : x.phase with
      | submitting d ds => exact ⟨d, ds, rfl⟩
      | _ => exact absurd (h ▸ rfl) hphase
    obtain ⟨hhand, hless⟩ := hand_goOn_submitting (l := { l with outbox := [] }) hx hsubmitting now
    exact .inl (tally_lt hhand (fun r => hand_of_none) hx hless)

/-! ## Prompt runs go on -/

/-- What is due can go on, and leaves less to do. -/
private theorem exists_own_of_isDue (hs : l.Sound) (hmin : 0 < l.settings.minSlotWait)
    (hn : (l.calls.map (·.number)).Nodup) (hdue : l.isDue now) :
    ∃ s : Stimulus, s.isOwn ∧ (l.react now s).1.load now < l.load now ∧
      ((l.react now s).1.calls.map (·.number)).Nodup := by
  rcases isDue_iff.mp hdue with ⟨c, hc, hgo⟩ | ⟨x, hx, hgo⟩
  · -- Either a call proceeds, or a poller goes on, and then the calls stay as they are.
    have hcall : l.call? c.number = some c := List.find?_key Call.number hn hc
    exact ⟨.proceed c.number, rfl, load_proceed hcall hgo, nodup_proceed hn hcall hgo⟩
  · have hfind : l.poller? x.id = some x := List.find?_key Poller.id hs.ids_nodup hx
    have hcalls : (l.react now (.goOn x.id)).1.calls = l.calls :=
      calls_of_desk (desk_react now fun _ he => by cases he)
    exact ⟨.goOn x.id, rfl, load_goOn hmin hfind hgo, hcalls ▸ hn⟩

end Listener

/-- A run that has been prompt so far goes on promptly to every later instant by what the calls and
    the pollers do themselves, whatever happens then. -/
theorem Prompt.exists_onward {x : Step} (hs : x.after.Sound)
    (hmin : 0 < x.after.settings.minSlotWait) (hn : (x.after.calls.map (·.number)).Nodup) {u : Nat}
    (hu : x.now ≤ u) : ∃ ys : List (Nat × Stimulus), (∀ y ∈ ys, y.1 ≤ u ∧ y.2.isOwn) ∧
      ∀ s, Prompt (x :: x.after.steps (ys ++ [(u, s)])) := by
  -- The induction is on the time that is left, and at one instant on what is left to do.
  induction hload : toLex (u - x.now, x.after.load x.now) using WellFoundedLT.induction
    generalizing x with
  | ind load ih =>
    by_cases hdue : ∃ v, x.now ≤ v ∧ v ≤ u ∧ x.after.isDue v
    · -- The next one goes on at the first instant at which anybody can go on.
      obtain ⟨hnow, hle, hgo⟩ := Nat.find_spec hdue
      have hfirst : ∀ w < Nat.find hdue, x.now ≤ w → x.after.isDue w = false := by
        intro w hlt hw
        rw [Bool.eq_false_iff]
        exact fun hgo => Nat.find_min hdue hlt ⟨hw, Nat.le_trans (Nat.le_of_lt hlt) hle, hgo⟩
      generalize Nat.find hdue = v at hnow hle hgo hfirst
      obtain ⟨s, hown, hless, hn'⟩ := Listener.exists_own_of_isDue hs hmin hn hgo
      have hearlier : toLex (u - v, (x.after.react v s).1.load v) < load := by
        rw [← hload]
        rcases Nat.eq_or_lt_of_le hnow with rfl | hlt
        · exact Prod.Lex.toLex_lt_toLex.mpr (.inr ⟨rfl, hless⟩)
        · exact Prod.Lex.toLex_lt_toLex.mpr (.inl (by dsimp only; omega))
      obtain ⟨ys, hys, hprompt⟩ := ih _ hearlier (x := x.after.step v s) (hs.react v s)
        ((Listener.settings_react x.after v s).symm ▸ hmin) hn' hle rfl
      refine ⟨(v, s) :: ys, List.forall_mem_cons.mpr ⟨⟨hle, hown⟩, hys⟩, fun s' => ?_⟩
      exact .cons_cons ⟨hnow, hfirst⟩ (hprompt s')
    · refine ⟨[], nofun, fun s => .cons_cons ⟨hu, fun w hlt hw => ?_⟩ (.singleton _)⟩
      rw [Bool.eq_false_iff]
      exact fun hgo => hdue ⟨w, hw, Nat.le_of_lt hlt, hgo⟩

/-- It goes on promptly past every later instant. -/
theorem Prompt.exists_later {x : Step} (hs : x.after.Sound)
    (hmin : 0 < x.after.settings.minSlotWait) (hn : (x.after.calls.map (·.number)).Nodup) {u : Nat}
    (hu : x.now ≤ u) : ∃ ys : List (Nat × Stimulus), (∀ y ∈ ys, y.2.isOwn) ∧
      Prompt (x :: x.after.steps ys) ∧ ∃ y ∈ x.after.steps ys, u < y.now := by
  obtain ⟨ys, hys, hprompt⟩ := exists_onward hs hmin hn (Nat.le_succ_of_le hu)
  refine ⟨ys ++ [(u + 1, .proceed 0)], ?_, hprompt _, ?_⟩
  · exact List.forall_mem_append.mpr ⟨fun y hy => (hys y hy).2, List.forall_mem_singleton.mpr rfl⟩
  · rw [Listener.steps_append]
    exact ⟨_, List.mem_append_right _ List.mem_cons_self, Nat.lt_succ_self u⟩

end Intake
