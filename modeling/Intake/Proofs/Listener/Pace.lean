import Intake.Proofs.Listener.Waiting

/-!
# How fast a poller asks

A poller whose receive call fails rests before it makes the next one, and a poller whose receive
call brings nothing makes the next one no sooner than a while after it made this one.  Neither
ends it.  So however long its receive calls fail or bring nothing, it asks neither too fast nor
too slowly.

- `Answer.due?`: when the next receive call is due
- `Placed.calls`: it is made at that instant
- `spread_of_prompt`: many receive calls in vain take their time
- `PromptRun.exists_call`: a receive call in vain is followed by another one
- `paced_run`: in every run nobody asks too fast or stops asking
-/

namespace Intake

/-- When the next receive call is due, if one that was made at an instant has returned at another
    one and has failed or brought nothing. -/
def Answer.due? (settings : ListenerSettings) (asked returned : Nat) : Answer → Option Nat
  | .failed _ => some (returned + settings.backoff)
  | .batch [] => some (max (asked + settings.emptyDelay) returned)
  | .batch (_ :: _) | .broken _ => none

/-- Whether a receive call has failed or brought nothing. -/
def Answer.isVain : Answer → Bool
  | .failed _ | .batch [] => true
  | .batch (_ :: _) | .broken _ => false

/-- After a receive call in vain the next one takes its time. -/
private theorem Answer.exists_due {a : Answer} (h : a.isVain) (settings : ListenerSettings)
    {asked returned : Nat} (hle : asked ≤ returned) :
    ∃ t, a.due? settings asked returned = some t ∧
      asked + min settings.backoff settings.emptyDelay ≤ t := by
  -- A failure backs off and an empty batch rests; no other answer is in vain.
  cases a with
  | failed => exact ⟨_, rfl, Nat.add_le_add hle (Nat.min_le_left ..)⟩
  | batch ds =>
    cases ds with
    | nil =>
      refine ⟨_, rfl, Nat.le_trans ?_ (Nat.le_max_left ..)⟩
      exact Nat.add_le_add_left (Nat.min_le_right ..) asked
    | cons => cases h
  | broken => cases h

/-- The next receive call is due when this one has returned, at the earliest. -/
private theorem Answer.le_due {a : Answer} {settings : ListenerSettings} {asked returned t : Nat}
    (h : a.due? settings asked returned = some t) : returned ≤ t := by
  -- A failure adds its backoff to the return, and a pause ends no earlier than the return.
  cases a with
  | failed => exact Option.some.inj h ▸ Nat.le_add_right ..
  | batch ds =>
    cases ds with
    | nil => exact Option.some.inj h ▸ Nat.le_max_right ..
    | cons => cases h
  | broken => cases h

namespace Listener

variable {l : Listener} {p : PollerId} {ph : Phase} {st : Station} {a : Answer} {s : Stimulus}
  {settings : ListenerSettings} {now since t : Nat} {x y u v w : Step}
  {before later rest : List Step}

/-! ## A receive call is out -/

/-- Who makes a receive call waits for it to return. -/
private theorem placed_of_receives (ho : l.Orderly) (hp : p ∈ (l.step now s).receivers) :
    ∃ st, Placed p (.receiving now) st (l.react now s).1 ∧ 0 < st.slots.free := by
  obtain ⟨e, he, hr⟩ := List.mem_filterMap.mp hp
  cases e with
  | receive r free request =>
    obtain rfl := Option.some.inj hr
    obtain ⟨-, x, m, st, hx, -, hm, hc, hst, hpos, hafter, -⟩ := exists_turn_of_receive ho.sound he
    -- The turn ends by the receive.
    have hround : (l.react now s).1 = { (m.setPhase r (.receiving now)).emit
        (.receive r free request) with outbox := [] } :=
      congrArg (fun m : Listener => { m with outbox := [] }) hafter
    rw [hround]
    refine ⟨st, ⟨?_, hc, hst, nofun⟩, hpos⟩
    show (m.setPhase r (.receiving now)).poller? r = _
    rw [poller?_setPhase, ho.ready_of_passes hx hm hc, Option.map_some, if_pos rfl]
  | _ => cases hr

/-- Who has out a receive call has no turn before it returns. -/
private theorem not_fits_of_receiving (hs : ∀ a, s ≠ .answer p a) :
    ¬ l.Fits now ⟨p, .receiving t, false⟩ s := by
  intro hfits
  cases hfits with
  | goOn hgo => cases hgo
  | answer _ a => exact hs a rfl

/-- A receive call is out until it returns. -/
private theorem Placed.receiving_of_cut (h : Placed p (.receiving t) st x.after)
    (hrun : PromptRun x (before ++ w :: rest))
    (hnone : ∀ z ∈ before, ∀ a, z.stimulus ≠ .answer p a) (hc : w.before.isCurrent p) :
    ∃ st', st.Refills st' ∧ Placed p (.receiving t) st' w.before := by
  induction before generalizing x st with
  | nil =>
    obtain ⟨⟨now, s, rfl⟩, -⟩ := hrun.cons
    exact ⟨st, .refl st, h⟩
  | cons z before ih =>
    obtain ⟨⟨now, s, rfl⟩, -, hz⟩ := hrun.cons
    have hanswer : ∀ a, s ≠ .answer p a := hnone _ List.mem_cons_self
    have hnone' : ∀ z ∈ before, ∀ a, z.stimulus ≠ .answer p a :=
      fun z hz => hnone z (List.mem_cons_of_mem _ hz)
    -- What the poller does itself does not fit: it receives, and this is not its answer.
    by_cases ha : s.actor = .poller p
    · exact ih (h.unfit ha (not_fits_of_receiving hanswer)).1 hz hnone'
    · rcases h.bystander hrun.orderly_after ha nofun now with
        hover | ⟨st', hr, hplaced | ⟨⟨u, hu⟩, -⟩⟩
      · exact absurd hover (hz.not_isOver hc)
      · obtain ⟨st'', hr', hw⟩ := ih hplaced hz hnone'
        exact ⟨st'', hr.trans hr', hw⟩
      · cases hu

/-- When a receive call fails or brings nothing, its poller waits until the next one is due. -/
private theorem Placed.answered (h : Placed p (.receiving since) st l) (hnow : since ≤ now)
    (hdue : a.due? l.settings since now = some t) :
    (∃ ph, Placed p ph st (l.react now (.answer p a)).1 ∧ ph.Opens now t ∧
      ∀ u, ph ≠ .awaitingSlot u) ∧ p ∉ (l.step now (.answer p a)).receivers := by
  let m : Listener := { l with outbox := [] }.setPhase p .ready
  have hx : ({ l with outbox := [] } : Listener).poller? p = some ⟨p, .receiving since, false⟩ :=
    h.poller
  have hready : m.poller? p = some ⟨p, .ready, false⟩ := by
    rw [poller?_setPhase, hx, Option.map_some, if_pos rfl]
  have hafter : ({ l with outbox := [] } : Listener).after now (.answer p a) =
      m.takeAnswer now since p a := after_answer hx rfl a
  have hreact : (l.react now (.answer p a)).1 =
      { m.takeAnswer now since p a with outbox := [] } :=
    congrArg (fun m : Listener => { m with outbox := [] }) hafter
  have heffects : (l.step now (.answer p a)).effects =
      (m.takeAnswer now since p a).outbox.reverse :=
    congrArg (fun m : Listener => m.outbox.reverse) hafter
  rw [Step.receivers, hreact, heffects]
  cases a with
  | failed cause =>
    obtain rfl : now + l.settings.backoff = t := Option.some.inj hdue
    refine ⟨⟨.resting (now + l.settings.backoff), ⟨?_, h.current, h.station, by simp⟩,
      .resting (Nat.le_add_right ..), by simp⟩, List.not_mem_nil⟩
    exact poller?_park hready _
  | batch ds =>
    cases ds with
    | nil =>
      obtain rfl : max (since + l.settings.emptyDelay) now = t := Option.some.inj hdue
      have hsettings : m.settings = l.settings := rfl
      unfold takeAnswer
      simp only [hsettings]
      split
      next hpause =>
        -- The pause is over already.
        have hmax : max (since + l.settings.emptyDelay) now = now := by omega
        rw [hmax]
        exact ⟨⟨.ready, ⟨hready, h.current, h.station, by simp⟩, .ready now, by simp⟩,
          List.not_mem_nil⟩
      next hpause =>
        have hmax : max (since + l.settings.emptyDelay) now =
            now + (l.settings.emptyDelay - (now - since)) := by omega
        rw [hmax]
        refine ⟨⟨.resting (now + (l.settings.emptyDelay - (now - since))),
          ⟨?_, h.current, h.station, by simp⟩, .resting (Nat.le_add_right ..), by simp⟩,
          List.not_mem_nil⟩
        exact poller?_park hready _
    | cons => cases hdue
  | broken => cases hdue

/-! ## The next receive call -/

/-- Until a poller makes a receive call or its epoch is over it is alive, and the instant at which
    the call is due has not gone by; the call is made at this instant. -/
def CallsAt (p : PollerId) (t : Nat) : List Step → Prop :=
  Until (fun y => y.before.isAlive p ∧ y.now ≤ t ∧ (p ∈ y.receivers → y.now = t))
    fun y => p ∈ y.receivers ∨ y.after.IsOver p

/-- Who rests while a slot is free makes a receive call when it has rested. -/
theorem Placed.calls (h : Placed p ph st x.after) (hfree : 0 < st.slots.free)
    (hopens : ph.Opens x.now t) (hrests : ∀ u, ph ≠ .awaitingSlot u) (hrun : PromptRun x later) :
    CallsAt p t later := by
  induction later generalizing x st with
  | nil => trivial
  | cons y later ih =>
    obtain ⟨⟨now, s, rfl⟩, hp, hy⟩ := hrun.cons
    have halive : x.after.isAlive p := h.isAlive hopens.unbroken
    have hle : now ≤ t := h.le_of_prompt hopens hp
    -- By what the step means for the poller: over, still, or the call.
    cases h.upshot hrun.orderly_after hopens hp.le s with
    | ended hover hnone => exact ⟨⟨halive, hle, fun hc => absurd hc hnone⟩, .inl (.inr hover)⟩
    | still hr hplaced hnone =>
      refine ⟨⟨halive, hle, fun hc => absurd hc hnone⟩, .inr ?_⟩
      exact ih hplaced (Nat.lt_of_lt_of_le hfree hr.free_le) (hopens.later hp.le hle) hy
    | woken hph => exact absurd hph (hrests _)
    | calls ht _ hcalls =>
      exact ⟨⟨halive, hle, fun _ => Nat.le_antisymm hle ht⟩, .inl (.inl hcalls)⟩
    | parks _ hzero => exact absurd hzero (Nat.ne_of_gt hfree)

/-- How a poller paces its receive calls, from one of them on. -/
structure Paced (settings : ListenerSettings) (p : PollerId) (u : Step) (later : List Step) :
    Prop where
  /-- Before the poller makes another one this one has returned. -/
  returned : ∀ before v rest, later = before ++ v :: rest → p ∈ v.receivers →
    ∃ w ∈ before ++ [v], ∃ a, w.stimulus = .answer p a
  /-- When it has failed or brought nothing, and the poller is current, the next one is made, at
      the instant at which it is due. -/
  on_time : ∀ before w rest a t, later = before ++ w :: rest →
    (∀ z ∈ before, ∀ a, z.stimulus ≠ .answer p a) → w.stimulus = .answer p a →
    a.due? settings u.now w.now = some t → w.before.isCurrent p →
    p ∉ w.receivers ∧ CallsAt p t rest
  /-- So much later is the next one made, if this one has failed or brought nothing. -/
  successive : ∀ before w mid v rest a t, later = before ++ w :: (mid ++ v :: rest) →
    (∀ z ∈ before, ∀ a, z.stimulus ≠ .answer p a) → w.stimulus = .answer p a →
    (∀ z ∈ mid, p ∉ z.receivers) → p ∈ v.receivers →
    a.due? settings u.now w.now = some t → v.now = t
  /-- However many receive calls fail or bring nothing in a row, each takes its time. -/
  spread : ∀ before v rest, later = before ++ v :: rest → p ∈ v.receivers →
    (∀ w ∈ before ++ [v], ∀ a, w.stimulus = .answer p a → a.isVain) →
    u.now + (before.countP (p ∈ ·.receivers) + 1) * min settings.backoff settings.emptyDelay ≤
      v.now

/-- Between two receive calls of a poller the first one returns. -/
private theorem returned_of_prompt (hrun : PromptRun u (before ++ v :: rest)) (hu : p ∈ u.receivers)
    (hv : p ∈ v.receivers) : ∃ w ∈ before ++ [v], ∃ a, w.stimulus = .answer p a := by
  by_contra hnot
  have hnone : ∀ z ∈ before ++ [v], ∀ a, z.stimulus ≠ .answer p a :=
    fun z hz a he => hnot ⟨z, hz, a, he⟩
  obtain ⟨l, now, s, hl, rfl⟩ := hrun.exists_step
  -- From the first call on it is placed as receiving until its answer.
  obtain ⟨st, hplaced, -⟩ := placed_of_receives hl hu
  have hc := hrun.cut.isCurrent_of_receives hv
  obtain ⟨st', -, hv'⟩ := Placed.receiving_of_cut hplaced hrun
    (fun z hz => hnone z (List.mem_append_left _ hz)) hc
  obtain ⟨l', now', s', hl', rfl⟩ := hrun.cut.exists_step
  obtain ⟨_, _, hask⟩ := asks_of_mem_receivers hl'.sound hv
  have hanswer : ∀ a, s' ≠ .answer p a := hnone _ (List.mem_append_right _ List.mem_cons_self)
  exact (hv'.unfit hask.actor (not_fits_of_receiving hanswer)).2 hv

/-- After a call in vain the next one is made on time. -/
private theorem on_time_of_prompt (hrun : PromptRun u (before ++ w :: rest)) (hu : p ∈ u.receivers)
    (hnone : ∀ z ∈ before, ∀ a, z.stimulus ≠ .answer p a) (hw : w.stimulus = .answer p a)
    (hdue : a.due? u.before.settings u.now w.now = some t) (hc : w.before.isCurrent p) :
    p ∉ w.receivers ∧ CallsAt p t rest := by
  obtain ⟨l, now, s, hl, rfl⟩ := hrun.exists_step
  obtain ⟨st, hplaced, hfree⟩ := placed_of_receives hl hu
  obtain ⟨st', hr, hout⟩ := Placed.receiving_of_cut hplaced hrun hnone hc
  have hle : now ≤ w.now := hrun.prompt.now_le (List.mem_append_right _ List.mem_cons_self)
  have hsettings : w.before.settings = l.settings :=
    hrun.settings_eq.trans (settings_react l now s)
  have hwrun := hrun.cut
  obtain ⟨l', now', s', hl', rfl⟩ := hwrun.exists_step
  obtain rfl : s' = .answer p a := hw
  -- The answer leaves it waiting until the instant due.
  obtain ⟨⟨ph, hph, hopens, hrests⟩, hsilent⟩ := hout.answered hle (hsettings ▸ hdue)
  exact ⟨hsilent, Placed.calls hph (Nat.lt_of_lt_of_le hfree hr.free_le) hopens hrests hwrun⟩

/-- The next receive call is made at the instant due. -/
private theorem successive_of_prompt {mid : List Step}
    (hrun : PromptRun u (before ++ w :: (mid ++ v :: rest))) (hu : p ∈ u.receivers)
    (hnone : ∀ z ∈ before, ∀ a, z.stimulus ≠ .answer p a) (hw : w.stimulus = .answer p a)
    (hmid : ∀ z ∈ mid, p ∉ z.receivers) (hv : p ∈ v.receivers)
    (hdue : a.due? u.before.settings u.now w.now = some t) : v.now = t := by
  have hvc : v.before.isCurrent p := hrun.cut.cut.isCurrent_of_receives hv
  have hwc : w.before.isCurrent p := hrun.isCurrent_of_later (hrun.isCurrent_after hu) hvc
  have hcalls := (on_time_of_prompt hrun hu hnone hw hdue hwc).2
  refine (hcalls.of_cut fun z hz hq => ?_).2.2 hv
  -- Nothing ends the wait before the call: the poller is current when it makes it.
  rcases hq with hz' | hover
  · exact hmid z hz hz'
  · obtain ⟨mid', mid'', rfl⟩ := List.append_of_mem hz
    have hzrun : PromptRun z (mid'' ++ v :: rest) := by
      have hcut := hrun.cut
      rw [List.append_assoc, List.cons_append] at hcut
      exact hcut.cut
    exact hzrun.not_isOver hvc hover

/-- A receive call in vain and the next one are some time apart. -/
private theorem apart_of_prompt (hrun : PromptRun u (before ++ v :: rest)) (hu : p ∈ u.receivers)
    (hnone : ∀ z ∈ before, p ∉ z.receivers) (hv : p ∈ v.receivers)
    (hvain : ∀ w ∈ before ++ [v], ∀ a, w.stimulus = .answer p a → a.isVain) :
    u.now + min u.before.settings.backoff u.before.settings.emptyDelay ≤ v.now := by
  -- The first answer between the two calls is in vain, so an instant is due for the second.
  obtain ⟨z, hz, hanswer⟩ := returned_of_prompt hrun hu hv
  obtain ⟨b, w, later, hcut, ⟨a, ha⟩, hfirst⟩ := exists_first
    (P := fun w : Step => ∃ a, w.stimulus = .answer p a) hz hanswer
  have hsilent : ∀ z ∈ b, ∀ a, z.stimulus ≠ .answer p a := fun z hz a he => hfirst z hz ⟨a, he⟩
  have hisVain : a.isVain := hvain w (by rw [hcut]; simp) a ha
  rcases cut_append hcut with ⟨rfl, rfl, rfl⟩ | ⟨mid, rfl, rfl⟩
  · -- A step in which a receive call returns in vain makes none.
    have hle := hrun.prompt.now_le (List.mem_append_right _ List.mem_cons_self)
    obtain ⟨t, hdue, -⟩ := a.exists_due hisVain u.before.settings hle
    have hc := hrun.cut.isCurrent_of_receives hv
    exact absurd hv (on_time_of_prompt hrun hu hsilent ha hdue hc).1
  · -- It comes before the second call, which is made when it is due.
    rw [List.append_assoc, List.cons_append] at hrun
    have hle := hrun.prompt.now_le (List.mem_append_right _ List.mem_cons_self)
    obtain ⟨t, hdue, ht⟩ := a.exists_due hisVain u.before.settings hle
    have hmid : ∀ z ∈ mid, p ∉ z.receivers := fun z hz => hnone z (by simp [hz])
    rw [successive_of_prompt hrun hu hsilent ha hmid hv hdue]
    exact ht

/-- So many receive calls in vain are so far apart. -/
theorem spread_of_prompt (hrun : PromptRun u (before ++ v :: rest)) (hu : p ∈ u.receivers)
    (hv : p ∈ v.receivers)
    (hvain : ∀ w ∈ before ++ [v], ∀ a, w.stimulus = .answer p a → a.isVain) :
    u.now + (before.countP (p ∈ ·.receivers) + 1) *
      min u.before.settings.backoff u.before.settings.emptyDelay ≤ v.now := by
  generalize hn : before.countP (p ∈ ·.receivers) = n
  -- The receive calls are taken off from the first one on.
  induction n generalizing u before with
  | zero =>
    have hnone : ∀ z ∈ before, p ∉ z.receivers := by simpa using hn
    simpa using apart_of_prompt hrun hu hnone hv hvain
  | succ n ih =>
    have hpos : 0 < before.countP (p ∈ ·.receivers) := by omega
    obtain ⟨z, hz, hcalls⟩ := List.countP_pos_iff.mp hpos
    obtain ⟨b, u', mid, rfl, hu', hfirst⟩ := exists_first (P := fun z : Step => p ∈ z.receivers) hz
      (of_decide_eq_true hcalls)
    rw [List.append_assoc, List.cons_append] at hrun
    have hsplit : b ++ u' :: mid ++ [v] = b ++ [u'] ++ (mid ++ [v]) := by simp
    rw [hsplit, List.forall_mem_append] at hvain
    have hcount : mid.countP (p ∈ ·.receivers) = n := by
      have hnone : b.countP (p ∈ ·.receivers) = 0 := by simpa using hfirst
      rw [List.countP_append, List.countP_cons_of_pos (by simpa using hu'), hnone] at hn
      omega
    have hstep := apart_of_prompt hrun hu hfirst hu' hvain.1
    have hrest := ih hrun.cut hu' hvain.2 hcount
    have hsettings : u'.before.settings = u.before.settings := by
      obtain ⟨l, now, s, -, rfl⟩ := hrun.exists_step
      exact hrun.settings_eq.trans (settings_react l now s)
    rw [hsettings] at hrest
    rw [Nat.succ_mul (n + 1)]
    omega

/-- From a receive call of an orderly listener on its poller paces its receive calls. -/
private theorem PromptRun.paced (hrun : PromptRun u later) (hu : p ∈ u.receivers) :
    Paced u.before.settings p u later where
  returned _ _ _ hcut hv := returned_of_prompt (hcut ▸ hrun) hu hv
  on_time _ _ _ _ _ hcut hnone hw hdue hc := on_time_of_prompt (hcut ▸ hrun) hu hnone hw hdue hc
  successive _ _ _ _ _ _ _ hcut hnone hw hmid hv hdue :=
    successive_of_prompt (hcut ▸ hrun) hu hnone hw hmid hv hdue
  spread _ _ _ hcut hv hvain := spread_of_prompt (hcut ▸ hrun) hu hv hvain

/-- A poller that is current does not stop asking: when a receive call has failed or brought nothing,
    the calls and the pollers go on promptly, and nobody else has to act, until the next one is made
    at the instant at which it is due, or the epoch of the poller is over. -/
theorem PromptRun.exists_call (hrun : PromptRun u (before ++ [w])) (hu : p ∈ u.receivers)
    (hnone : ∀ z ∈ before, ∀ a, z.stimulus ≠ .answer p a) (hw : w.stimulus = .answer p a)
    (hdue : a.due? u.before.settings u.now w.now = some t) (hc : w.before.isCurrent p)
    (hmin : 0 < w.after.settings.minSlotWait) (hn : (w.after.calls.map (·.number)).Nodup) :
    ∃ zs : List (Nat × Stimulus), (∀ z ∈ zs, z.2.isOwn) ∧
      PromptRun u (before ++ w :: w.after.steps zs) ∧
      ∃ y ∈ w.after.steps zs, (p ∈ y.receivers ∧ y.now = t) ∨ y.after.IsOver p := by
  have hle : w.now ≤ t := a.le_due hdue
  obtain ⟨zs, hown, hgoes, y, hy, hlate⟩ := hrun.exists_later hmin hn hle
  have hcalls := (on_time_of_prompt hgoes hu hnone hw hdue hc).2
  obtain ⟨z, hz, ⟨-, -, hnow⟩, hcall⟩ := hcalls.exists_of_not hy fun h => Nat.not_le.mpr hlate h.2.1
  exact ⟨zs, hown, hgoes, z, hz, hcall.imp_left fun h => ⟨h, hnow h⟩⟩

section Build

variable {σ : Type} (k : Lookup σ) (settings : ListenerSettings) (polling : Polling)
  (handler : String) (rs : List Registration) (t : σ)

/-- In every run of every listener that was built, a poller that is current makes its next receive
    call, if one has failed or brought nothing, at just the instant at which it is due: when it has
    rested after the failure, or a while after it made the last one. -/
theorem paced_run (xs : List (Nat × Stimulus)) (p : PollerId) (now : Nat) (s : Stimulus) :
    let u := ((build k settings polling handler rs t).1.run xs).step now s
    p ∈ u.receivers → ∀ ys, Prompt (u :: u.after.steps ys) →
      Paced settings p u (u.after.steps ys) := by
  intro u hp ys hprompt
  have horderly := (orderly_build k settings polling handler rs t).run xs
  have hrun : PromptRun u (u.after.steps ys) := ⟨⟨_, now, s, horderly, rfl⟩, ⟨ys, rfl⟩, hprompt⟩
  -- No step of a listener changes its settings.
  have hsettings : u.before.settings = settings :=
    run_keeps (P := fun _ m => m.settings = settings) rfl
      (fun _ m now s hm => (settings_react m now s).trans hm) xs
  exact hsettings ▸ hrun.paced hp

/-- The first receive call fails, and the second one brings nothing after one millisecond. -/
theorem paced_run_failed :
    let settings : ListenerSettings :=
      { ListenerSettings.standard with backoff := 5, emptyDelay := 3 }
    let l := (build Lookup.verbatim settings .bySlots "h" [⟨"q", .standard, none⟩] ()).1.run
      [(0, .start 0 "q")]
    let u := l.step 0 (.goOn ⟨"q", 1⟩)
    let later := u.after.steps [(2, .answer ⟨"q", 1⟩ (.failed (.refused "busy"))),
      (7, .goOn ⟨"q", 1⟩), (8, .answer ⟨"q", 1⟩ (.batch [])), (10, .goOn ⟨"q", 1⟩)]
    ⟨"q", 1⟩ ∈ u.receivers ∧ Prompt (u :: later) ∧
      (later.filter (⟨"q", 1⟩ ∈ ·.receivers)).map (·.now) = [7, 10] ∧
      Paced settings ⟨"q", 1⟩ u later :=
  ⟨by decide, by decide, by decide, paced_run Lookup.verbatim
    { ListenerSettings.standard with backoff := 5, emptyDelay := 3 } .bySlots "h"
    [⟨"q", .standard, none⟩] () [(0, .start 0 "q")] ⟨"q", 1⟩ 0 (.goOn ⟨"q", 1⟩) (by decide)
    [(2, .answer ⟨"q", 1⟩ (.failed (.refused "busy"))), (7, .goOn ⟨"q", 1⟩),
      (8, .answer ⟨"q", 1⟩ (.batch [])), (10, .goOn ⟨"q", 1⟩)] (by decide)⟩

end Build

end Listener

end Intake
