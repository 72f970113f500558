import Intake.Proofs.Listener.Waiting

/-!
# A poller that waits for slots resumes on time

A poller that finds no slot of its queue free waits.  It is woken when enough slots are free, and
it looks again at each tick, which come one wait after the other from the instant at which it
found none.  So its next receive call is made at the first instant at which enough slots are free
to wake it, or at the first tick at which it finds one, whichever comes first.

- `InVain`: until an instant there was no reason to resume
- `Vigil`: what holds of a poller that has waited in vain so far
- `Vigil.step`: what the next step makes of it
- `Vigil.exists_call`: it does not wait for ever
- `resumes_run`: in every run a poller that waits for slots resumes on time
-/

namespace Intake

/-- A step leaves at least so many slots of a queue free. -/
def Step.LeavesFree (q : String) (n : Nat) (x : Step) : Prop :=
  ∃ k, x.after.freeSlots? q = some k ∧ n ≤ k

namespace Listener

variable {l : Listener} {p : PollerId} {ph : Phase} {st : Station} {s : Stimulus}
  {wait threshold now since n t t' : Nat} {x y z w : Step} {hist before later rest : List Step}

/-- Since a step in which a poller found no slot free there was no reason to resume before an
    instant. -/
structure InVain (p : PollerId) (wait threshold : Nat) (x : Step) (hist : List Step) (t : Nat) :
    Prop where
  /-- There were never enough slots free to wake the poller. -/
  scarce : ∀ z ∈ hist, z.now < t → ¬ z.LeavesFree p.queue threshold
  /-- At each tick the poller looked, and found none. -/
  ticks : ∀ k, 1 ≤ k → x.now + k * wait < t →
    ∃ w ∈ hist, w.now = x.now + k * wait ∧ w.FindsNone p

/-- What has been in vain so far is so for less. -/
private theorem InVain.mono (h : InVain p wait threshold x hist t) (hle : t' ≤ t) :
    InVain p wait threshold x hist t' where
  scarce z hz hlt := h.scarce z hz (Nat.lt_of_lt_of_le hlt hle)
  ticks k hk hlt := h.ticks k hk (Nat.lt_of_lt_of_le hlt hle)

/-- One more step that gives no reason either. -/
private theorem InVain.append (h : InVain p wait threshold x hist t)
    (hz : z.now < t → ¬ z.LeavesFree p.queue threshold) :
    InVain p wait threshold x (hist ++ [z]) t where
  scarce y hy := by
    -- The new step leaves too few slots free, and the ticks found before are still there.
    rcases List.mem_append.mp hy with hy | hy
    · exact h.scarce y hy
    · rw [List.mem_singleton.mp hy]
      exact hz
  ticks k hk hlt := by
    obtain ⟨w, hw, hfinds⟩ := h.ticks k hk hlt
    exact ⟨w, List.mem_append_left _ hw, hfinds⟩

/-- As many slots are left free as the station has. -/
theorem Placed.leavesFree_iff (h : Placed p ph st x.after) :
    x.LeavesFree p.queue n ↔ n ≤ st.slots.free := by
  constructor
  · rintro ⟨k, hk, hle⟩
    obtain rfl := Option.some.inj (h.freeSlots?.symm.trans hk)
    exact hle
  · exact fun hle => ⟨_, h.freeSlots?, hle⟩

/-- A poller has waited in vain since a step in which it found no slot free, and begins its next
    round at an instant: at the next tick, as so far there were not enough slots free to wake it,
    or at the instant of the last step, as there are now. -/
structure Vigil (p : PollerId) (wait threshold : Nat) (x : Step) (hist : List Step)
    (since t : Nat) (ph : Phase) (st : Station) (l : Listener) : Prop where
  placed : Placed p ph st l
  opens : ph.Opens since t
  wait_eq : st.source.options.slotWait l.settings.minSlotWait = wait
  threshold_eq : st.slots.threshold = threshold
  inVain : InVain p wait threshold x hist t
  /-- No slot that was free has been taken. -/
  kept : ∀ z ∈ hist, ∀ n, z.LeavesFree p.queue n → n ≤ st.slots.free
  cause : (ph = .awaitingSlot t ∧ (∃ k, t = x.now + (k + 1) * wait) ∧
      ∀ z ∈ hist, ¬ z.LeavesFree p.queue threshold) ∨
    (ph = .ready ∧ threshold ≤ st.slots.free ∧
      ∃ w ∈ hist, w.now = t ∧ w.LeavesFree p.queue threshold)

/-- Who finds no slot free begins to wait. -/
private theorem vigil_of_findsNone (ho : l.Orderly) (hx : (l.step now s).FindsNone p) :
    ∃ st, Vigil p (st.source.options.slotWait l.settings.minSlotWait) st.slots.threshold
      (l.step now s) [] now (l.patience now st) (.awaitingSlot (l.patience now st)) st
      (l.react now s).1 := by
  obtain ⟨st, hplaced, -⟩ := placed_of_findsNone ho hx
  have hpatience : l.patience now st =
      (l.step now s).now + (0 + 1) * st.source.options.slotWait l.settings.minSlotWait := by
    rw [Nat.zero_add, Nat.one_mul]
    rfl
  refine ⟨st, hplaced, .awaitingSlot (l.le_patience now st), by rw [settings_react], rfl,
    ⟨by simp, fun k hk hlt => ?_⟩, by simp, .inl ⟨rfl, ⟨0, hpatience⟩, by simp⟩⟩
  -- The first tick is when the wait is over.
  rw [hpatience] at hlt
  have hk' := Nat.lt_of_mul_lt_mul_right (Nat.lt_of_add_lt_add_left hlt)
  omega

/-- A step in which a poller that waits makes no receive call leaves it waiting, or its epoch is
    over. -/
theorem Vigil.step (h : Vigil p wait threshold x hist y.now t ph st y.after)
    (ho : y.after.Orderly) (hp : y.PromptAfter (y.after.step now s))
    (hnone : p ∉ (y.after.step now s).receivers) : (y.after.react now s).1.IsOver p ∨
      ∃ t' ph' st', Vigil p wait threshold x (hist ++ [y.after.step now s]) now t' ph' st'
        (y.after.react now s).1 := by
  have hle : now ≤ t := h.placed.le_of_prompt h.opens hp
  have hpos : 0 < threshold := h.threshold_eq ▸ ho.tuned.threshold_pos h.placed.station
  have hsettings : (y.after.react now s).1.settings = y.after.settings := settings_react ..
  have hkept : ∀ {ph' st'}, st.Refills st' → Placed p ph' st' (y.after.react now s).1 →
      ∀ z ∈ hist ++ [y.after.step now s], ∀ n, z.LeavesFree p.queue n → n ≤ st'.slots.free := by
    intro ph' st' hr hplaced z hz n hfree
    rcases List.mem_append.mp hz with hz | hz
    · exact Nat.le_trans (h.kept z hz n hfree) hr.free_le
    · obtain rfl := List.mem_singleton.mp hz
      exact (Placed.leavesFree_iff (x := y.after.step now s) hplaced).mp hfree
  have hleaves : ∀ {ph' st'}, Placed p ph' st' (y.after.react now s).1 →
      ∀ n, (y.after.step now s).LeavesFree p.queue n ↔ n ≤ st'.slots.free :=
    fun hplaced _ => Placed.leavesFree_iff (x := y.after.step now s) hplaced
  cases h.placed.upshot ho h.opens hp.le s with
  | ended hover => exact .inl hover
  | @still st' hr hplaced =>
    have hopens := h.opens.later hp.le hle
    have hwait :
        st'.source.options.slotWait (y.after.react now s).1.settings.minSlotWait = wait := by
      rw [hsettings, hr.source, h.wait_eq]
    have hthreshold : st'.slots.threshold = threshold := hr.threshold.trans h.threshold_eq
    rcases h.cause with ⟨rfl, htick, hscarce⟩ | ⟨rfl, hfree, w, hw, hwake⟩
    · have hasleep : ¬ (y.after.step now s).LeavesFree p.queue threshold := by
        rw [hleaves hplaced, ← hthreshold]
        exact of_decide_eq_false (hplaced.asleep t rfl)
      refine .inr ⟨t, _, st', hplaced, hopens, hwait, hthreshold, h.inVain.append fun _ => hasleep,
        hkept hr hplaced, .inl ⟨rfl, htick, ?_⟩⟩
      exact List.forall_mem_append.mpr ⟨hscarce, List.forall_mem_singleton.mpr hasleep⟩
    · -- Who has been woken goes on at this very instant.
      have hnow : now = t := Nat.le_antisymm hle (by cases h.opens; exact hp.le)
      exact .inr ⟨t, _, st', hplaced, hopens, hwait, hthreshold,
        h.inVain.append fun hlt => absurd hnow (Nat.ne_of_lt hlt), hkept hr hplaced,
        .inr ⟨rfl, Nat.le_trans hfree hr.free_le, w, List.mem_append_left _ hw, hwake⟩⟩
  | @woken st' u hph hr hwakes hplaced =>
    have hthreshold : st'.slots.threshold = threshold := hr.threshold.trans h.threshold_eq
    have hfree : threshold ≤ st'.slots.free := hthreshold ▸ of_decide_eq_true hwakes
    refine .inr ⟨now, _, st', hplaced, .ready now, by rw [hsettings, hr.source, h.wait_eq],
      hthreshold, (h.inVain.mono hle).append fun hlt => absurd hlt (Nat.lt_irrefl now),
      hkept hr hplaced, .inr ⟨rfl, hfree, _, List.mem_append_right _ List.mem_cons_self, rfl, ?_⟩⟩
    exact (hleaves hplaced _).mpr hfree
  | calls _ _ hcalls => exact absurd hcalls hnone
  | parks ht hzero hfinds hplaced =>
    obtain rfl : now = t := Nat.le_antisymm hle ht
    rcases h.cause with ⟨rfl, ⟨k, hk⟩, hscarce⟩ | ⟨-, hfree, -⟩
    · have hnot : ¬ (y.after.step now s).LeavesFree p.queue threshold := by
        rw [hleaves hplaced]
        omega
      have hscarce' : ∀ z ∈ hist ++ [y.after.step now s], ¬ z.LeavesFree p.queue threshold :=
        List.forall_mem_append.mpr ⟨hscarce, List.forall_mem_singleton.mpr hnot⟩
      have hnext : y.after.patience now st = x.now + (k + 1 + 1) * wait := by
        rw [patience, h.wait_eq, Nat.succ_mul (k + 1), ← Nat.add_assoc, ← hk]
      have hplaced' : Placed p (.awaitingSlot (y.after.patience now st)) st
        (y.after.react now s).1 := hplaced
      refine .inr ⟨_, _, st, hplaced', .awaitingSlot (le_patience ..),
        by rw [hsettings, h.wait_eq], h.threshold_eq,
        ⟨fun z hz _ => hscarce' z hz, fun i hi hlt => ?_⟩,
        hkept (.refl st) hplaced, .inl ⟨rfl, ⟨k + 1, hnext⟩, hscarce'⟩⟩
      -- The ticks before the next one are those before this one, and this one.
      rw [hnext] at hlt
      have hi' := Nat.lt_of_mul_lt_mul_right (Nat.lt_of_add_lt_add_left hlt)
      rcases Nat.lt_or_ge i (k + 1) with hik | hik
      · have hwait : 0 < wait := by
          rcases Nat.eq_zero_or_pos wait with rfl | hwait
          · simp at hlt
          · exact hwait
        have hbefore : x.now + i * wait < now := by
          rw [hk]
          exact Nat.add_lt_add_left (Nat.mul_lt_mul_of_pos_right hik hwait) _
        obtain ⟨w, hw, hlook⟩ := h.inVain.ticks i hi hbefore
        exact ⟨w, List.mem_append_left _ hw, hlook⟩
      · obtain rfl : i = k + 1 := by omega
        exact ⟨_, List.mem_append_right _ List.mem_cons_self, hk, hfinds⟩
    · omega

/-- Until it makes a receive call a poller that waits for slots keeps its vigil, as long as it is
    current. -/
private theorem Vigil.of_cut (h : Vigil p wait threshold x hist z.now t ph st z.after)
    (hrun : PromptRun z (before ++ y :: rest)) (hnone : ∀ w ∈ before, p ∉ w.receivers)
    (hc : y.before.isCurrent p) : ∃ since t' ph' st', since ≤ y.now ∧ y.now ≤ t' ∧
      Vigil p wait threshold x (hist ++ before) since t' ph' st' y.before := by
  induction before generalizing z hist t ph st with
  | nil =>
    obtain ⟨⟨now, s, rfl⟩, hp, -⟩ := hrun.cons
    rw [List.append_nil]
    exact ⟨_, _, _, _, hp.le, h.placed.le_of_prompt h.opens hp, h⟩
  | cons w before ih =>
    obtain ⟨⟨now, s, rfl⟩, hp, hw⟩ := hrun.cons
    rw [List.forall_mem_cons] at hnone
    -- Who is current at the cut has not ended before it.
    rcases h.step hrun.orderly_after hp hnone.1 with hover | ⟨t', ph', st', hvigil⟩
    · exact absurd hover (hw.not_isOver hc)
    · rw [List.append_cons]
      exact ih hvigil hw hnone.2

/-- What follows for the steps after one in which a poller found no slot free: the poller waits for
    slots, and when it makes its next receive call. -/
structure Resumes (p : PollerId) (wait threshold : Nat) (x : Step) (later : List Step) :
    Prop where
  /-- Until it makes one, and as long as it is current, there was no earlier instant at which to
      make it: neither were enough slots free to wake it, nor did it find one at a tick. -/
  waits : ∀ before y rest, later = before ++ y :: rest → (∀ z ∈ before, p ∉ z.receivers) →
    y.before.isCurrent p → InVain p wait threshold x before y.now
  /-- It makes one at an instant at which enough slots came to be free, or at a tick at which it
      finds one. -/
  calls : ∀ before y rest, later = before ++ y :: rest → (∀ z ∈ before, p ∉ z.receivers) →
    p ∈ y.receivers → ∃ n, y.before.freeSlots? p.queue = some n ∧ 0 < n ∧
      ((threshold ≤ n ∧ ∃ w ∈ before, w.now = y.now ∧ w.LeavesFree p.queue threshold) ∨
        ∃ k, 1 ≤ k ∧ y.now = x.now + k * wait)
  /-- Once a slot is free it makes one by the next tick, whatever becomes of the other slots. -/
  picked_up : ∀ before y mid z rest, later = before ++ y :: (mid ++ z :: rest) →
    (∀ w ∈ before ++ y :: mid, p ∉ w.receivers) → z.before.isCurrent p → y.LeavesFree p.queue 1 →
    z.now ≤ x.now + ((y.now - x.now) / wait + 1) * wait

/-- Who calls has been woken, or its tick has come. -/
private theorem Vigil.calls (h : Vigil p wait threshold x hist since t ph st y.before)
    (hrun : PromptRun y rest) (hsince : since ≤ y.now) (hle : y.now ≤ t) (hy : p ∈ y.receivers) :
    ∃ n, y.before.freeSlots? p.queue = some n ∧ 0 < n ∧
      ((threshold ≤ n ∧ ∃ w ∈ hist, w.now = y.now ∧ w.LeavesFree p.queue threshold) ∨
        ∃ k, 1 ≤ k ∧ y.now = x.now + k * wait) := by
  obtain ⟨l, now, s, ho, rfl⟩ := hrun.exists_step
  cases h.placed.upshot ho h.opens hsince s with
  | ended _ hnone | still _ _ hnone | woken _ _ _ _ hnone | parks _ _ _ _ hnone =>
    exact absurd hy hnone
  | calls ht hfree =>
    -- The call is made when the wait is over, and its cause was kept.
    obtain rfl : now = t := Nat.le_antisymm hle ht
    refine ⟨_, h.placed.freeSlots?, hfree, ?_⟩
    rcases h.cause with ⟨-, ⟨k, hk⟩, -⟩ | ⟨-, henough, w, hw, hnow, hleaves⟩
    · exact .inr ⟨k + 1, Nat.le_add_left .., hk⟩
    · exact .inl ⟨henough, w, hw, hnow, hleaves⟩

/-- Who looks for a slot after one has come to be free finds one. -/
private theorem Vigil.not_findsNone (h : Vigil p wait threshold x hist since t ph st y.before)
    (hrun : PromptRun y rest) (hsince : since ≤ y.now) (hz : z ∈ hist)
    (hfree : z.LeavesFree p.queue 1) (hnone : p ∉ y.receivers) : ¬ y.FindsNone p := by
  intro hfinds
  -- The slot left free is still there.
  have hpos : 1 ≤ st.slots.free := h.kept z hz 1 hfree
  obtain ⟨l, now, s, ho, rfl⟩ := hrun.exists_step
  obtain ⟨st₀, hplaced₀, hzero⟩ := placed_of_findsNone ho hfinds
  have hkept : ∀ {ph' st'}, st.Refills st' → ¬ Placed p ph' st' (l.react now s).1 := by
    intro ph' st' hr hplaced
    obtain rfl : st₀ = st' := Option.some.inj (hplaced₀.station.symm.trans hplaced.station)
    have hle := hr.free_le
    omega
  cases h.placed.upshot ho h.opens hsince s with
  | ended hover => cases hover.isCurrent.symm.trans hplaced₀.current
  | still hr hplaced => exact hkept hr hplaced
  | woken _ hr _ hplaced => exact hkept hr hplaced
  | calls _ _ hcalls => exact hnone hcalls
  | parks _ _ _ hplaced => exact hkept (.refl st) hplaced

/-- From a step in which it found no slot free on a poller that has begun to wait resumes on
    time. -/
private theorem Vigil.resumes (h : Vigil p wait threshold x [] x.now t ph st x.after)
    (hwait : 0 < wait) (hrun : PromptRun x later) : Resumes p wait threshold x later where
  waits before y rest hcut hnone hc := by
    obtain ⟨_, _, _, _, -, hle, hvigil⟩ := h.of_cut (hcut ▸ hrun) hnone hc
    exact hvigil.inVain.mono hle
  calls before y rest hcut hnone hy := by
    have hyrun := (hcut ▸ hrun : PromptRun x (before ++ y :: rest)).cut
    have hc : y.before.isCurrent p := hyrun.isCurrent_of_receives hy
    obtain ⟨_, _, _, _, hsince, hle, hvigil⟩ := h.of_cut (hcut ▸ hrun) hnone hc
    exact hvigil.calls hyrun hsince hle hy
  picked_up before y mid z rest hcut hnone hc hfree := by
    by_contra hlate
    have htick : y.now - x.now < ((y.now - x.now) / wait + 1) * wait :=
      (Nat.div_lt_iff_lt_mul hwait).mp (Nat.lt_succ_self _)
    have hrunz : PromptRun x (before ++ y :: mid ++ z :: rest) := by simpa [hcut] using hrun
    -- At the next tick the poller looked, and found none.
    obtain ⟨_, _, _, _, -, hle, hvigil⟩ := h.of_cut hrunz hnone hc
    obtain ⟨w, hw, hnow, hfinds⟩ :=
      (hvigil.inVain.mono hle).ticks _ (Nat.le_add_left 1 _) (Nat.lt_of_not_le hlate)
    rw [List.nil_append] at hw
    -- But that was after the slot had come to be free.
    have hmid : w ∈ mid := by
      rcases List.mem_append.mp hw with hw | hw
      · have hearly := (hcut ▸ hrun : PromptRun x (before ++ y :: (mid ++ z :: rest))).now_le hw
        omega
      · refine (List.mem_cons.mp hw).resolve_left fun he => ?_
        rw [he] at hnow
        omega
    obtain ⟨mid₁, mid₂, rfl⟩ := List.append_of_mem hmid
    have hrunw : PromptRun x (before ++ y :: mid₁ ++ w :: (mid₂ ++ z :: rest)) := by
      simpa [hcut] using hrun
    have hnone₁ : ∀ v ∈ before ++ y :: mid₁, p ∉ v.receivers := by
      intro v hv
      refine hnone v ?_
      rw [← List.cons_append, ← List.append_assoc]
      exact List.mem_append_left _ hv
    have hwc := hrunw.isCurrent_of_later h.placed.current hc
    obtain ⟨_, _, _, _, hsince, -, hvigil⟩ := h.of_cut hrunw hnone₁ hwc
    rw [List.nil_append] at hvigil
    exact hvigil.not_findsNone hrunw.cut hsince (List.mem_append_right _ List.mem_cons_self) hfree
      (hnone w hw) hfinds

/-- A poller that waits for slots does not wait for ever: once a slot is free, the calls and the
    pollers go on promptly, and nobody else has to act, until the poller makes a receive call by the
    next tick, or its epoch is over. -/
theorem Vigil.exists_call (h : Vigil p wait threshold x [] x.now t ph st x.after) (hwait : 0 < wait)
    (hrun : PromptRun x (before ++ [y])) (hnone : ∀ z ∈ before ++ [y], p ∉ z.receivers)
    (hfree : y.LeavesFree p.queue 1) (hmin : 0 < y.after.settings.minSlotWait)
    (hn : (y.after.calls.map (·.number)).Nodup) : ∃ zs : List (Nat × Stimulus),
      (∀ z ∈ zs, z.2.isOwn) ∧ PromptRun x (before ++ y :: y.after.steps zs) ∧
      ∃ z ∈ y.after.steps zs, (p ∈ z.receivers ∧
        z.now ≤ x.now + ((y.now - x.now) / wait + 1) * wait) ∨ z.before.IsOver p := by
  have htick : y.now - x.now < ((y.now - x.now) / wait + 1) * wait :=
    (Nat.div_lt_iff_lt_mul hwait).mp (Nat.lt_succ_self _)
  -- A prompt run goes on beyond the next tick.
  obtain ⟨zs, hown, hgoes, z, hz, hlate⟩ := hrun.exists_later hmin hn
    (u := x.now + ((y.now - x.now) / wait + 1) * wait) (by omega)
  refine ⟨zs, hown, hgoes, ?_⟩
  have hpicked : ∀ mid w rest, y.after.steps zs = mid ++ w :: rest → (∀ v ∈ mid, p ∉ v.receivers) →
      w.before.isCurrent p → w.now ≤ x.now + ((y.now - x.now) / wait + 1) * wait := by
    intro mid w rest hcut hmid hc
    refine (h.resumes hwait hgoes).picked_up before y mid w rest (hcut ▸ rfl) ?_ hc hfree
    rw [List.append_cons]
    exact List.forall_mem_append.mpr ⟨hnone, hmid⟩
  -- Either some step calls, and the first of them is in time, or none does.
  by_cases hcalls : ∃ w ∈ y.after.steps zs, p ∈ w.receivers
  · obtain ⟨v, hv, hask⟩ := hcalls
    obtain ⟨mid, w, rest, hcut, hw, hfirst⟩ := exists_first (P := fun w : Step => p ∈ w.receivers)
      hv hask
    have hc : w.before.isCurrent p := (hcut ▸ hgoes.cut :).cut.isCurrent_of_receives hw
    have hmem : w ∈ y.after.steps zs := hcut ▸ List.mem_append_right _ List.mem_cons_self
    exact ⟨w, hmem, .inl ⟨hw, hpicked mid w rest hcut hfirst hc⟩⟩
  · -- Who has asked for nothing when the tick has gone by is not current any more.
    obtain ⟨mid, rest, hcut⟩ := List.append_of_mem hz
    have honward := (show PromptRun x (before ++ y :: mid ++ z :: rest) by
      simpa [hcut] using hgoes).onward
    have hover := (current_or_over h.placed.current honward).resolve_left fun hc => by
      have hmid : ∀ v ∈ mid, p ∉ v.receivers := fun v hv hask =>
        hcalls ⟨v, hcut ▸ List.mem_append_left _ hv, hask⟩
      exact Nat.not_le.mpr hlate (hpicked mid z rest hcut hmid hc)
    exact ⟨z, hz, .inr hover⟩

section Build

variable {σ : Type} (k : Lookup σ) (settings : ListenerSettings) (polling : Polling)
  (handler : String) (rs : List Registration) (t : σ)

/-- In every run of every listener that was built, a poller that finds no slot of its queue free
    makes its next receive call, as long as it is current, at the first instant at which enough
    slots are free to wake it, or at the first tick at which it finds one. -/
theorem resumes_run (xs : List (Nat × Stimulus)) (p : PollerId) (now : Nat) (s : Stimulus)
    {st : Station} (hst : (build k settings polling handler rs t).1.station? p.queue = some st)
    (hwait : 0 < st.source.options.slotWait settings.minSlotWait) :
    let x := ((build k settings polling handler rs t).1.run xs).step now s
    x.FindsNone p → ∀ ys, Prompt (x :: x.after.steps ys) →
      Resumes p (st.source.options.slotWait settings.minSlotWait) st.slots.threshold x
        (x.after.steps ys) := by
  intro x hfinds ys hprompt
  have hbuild := orderly_build k settings polling handler rs t
  have horderly := hbuild.run xs
  have hrun : PromptRun x (x.after.steps ys) := ⟨⟨_, now, s, horderly, rfl⟩, ⟨ys, rfl⟩, hprompt⟩
  have hsettings : x.before.settings = settings :=
    run_keeps (P := fun _ m => m.settings = settings) rfl
      (fun _ m now s hm => (settings_react m now s).trans hm) xs
  obtain ⟨st', hvigil⟩ := vigil_of_findsNone horderly hfinds
  -- The station is the one with which the queue was registered, but for its free slots.
  have hposts : x.after.posts = (build k settings polling handler rs t).1.posts :=
    (posts_react _ now s).trans (posts_run _ xs)
  obtain ⟨slots, hslots, hthreshold⟩ :=
    hbuild.tuned.exists_station hrun.orderly_after.tuned hposts hst
  obtain rfl : { st with slots } = st' :=
    Option.some.inj (hslots.symm.trans hvigil.placed.station)
  have hwait' : 0 < st.source.options.slotWait x.before.settings.minSlotWait := by
    rw [hsettings]
    exact hwait
  have hresumes : Resumes p (st.source.options.slotWait x.before.settings.minSlotWait)
      slots.threshold x (x.after.steps ys) := hvigil.resumes hwait' hrun
  rw [hsettings, hthreshold] at hresumes
  exact hresumes

/-- Both slots of a queue are taken by handlers of which one never ends: the slot of the other one
    is picked up at the next tick. -/
theorem resumes_run_stuck :
    let settings : ListenerSettings := { ListenerSettings.standard with minSlotWait := 3 }
    let options : QueueOptions := { QueueOptions.standard with batch := 2, wake := some 2 }
    let p : PollerId := ⟨"q", 1⟩
    let d : Delivery := ⟨none, "r", "x", .empty, .empty⟩
    let b := (build Lookup.verbatim settings .bySlots "h" [⟨"q", options, none⟩] ()).1
    let x := (b.run [(0, .start 0 "q"), (0, .goOn p), (0, .answer p (.batch [d, d])),
      (0, .beginJob 0), (0, .beginJob 1)]).step 3 (.goOn p)
    let later := x.after.steps [(4, .endJob 0 (.failed (.unexpected "no"))), (6, .goOn p)]
    b.station? "q" = some (stationOf ⟨"q", "q", options, false⟩ "h") ∧ x.FindsNone p ∧
      Prompt (x :: later) ∧ (later.filter (p ∈ ·.receivers)).map (·.now) = [6] ∧
      Resumes p 3 2 x later := by
  intro settings options p d b x later
  have hst : b.station? "q" = some (stationOf ⟨"q", "q", options, false⟩ "h") := rfl
  have hwaits : x.before.poller? p = some ⟨p, .awaitingSlot 3, false⟩ := by decide
  have hfinds : x.FindsNone p :=
    findsNone_goOn hwaits (.awaitingSlot (Nat.zero_le 3)) (Nat.zero_le 3) (Nat.le_refl 3)
      (by decide) (by decide)
  have hprompt : Prompt (x :: later) := by decide
  -- The slot comes free at 4, below the threshold, and is found at the tick.
  exact ⟨hst, hfinds, hprompt, by decide, resumes_run Lookup.verbatim settings .bySlots "h"
    [⟨"q", options, none⟩] () [(0, .start 0 "q"), (0, .goOn p), (0, .answer p (.batch [d, d])),
      (0, .beginJob 0), (0, .beginJob 1)] p 3 (.goOn p) hst (by decide) hfinds
    [(4, .endJob 0 (.failed (.unexpected "no"))), (6, .goOn p)] hprompt⟩

end Build

end Listener

end Intake
