import Intake.Proofs.Listener.Bystander

/-!
# The poller of a running queue

A queue that is running has at most one poller of the epoch in which it runs, and that
poller alone makes receive calls for it.  It is there as long as no receive call has broken
off: then the poller is gone, and the queue is running without one.

- `asks_of_mem_effects`: who makes a receive call, and when
- `incumbent_run`: there is one poller at most, and no other makes receive calls
- `attended_run`: there is one, or its receive call has broken off
-/

namespace Intake

namespace Step

/-- The pollers that make a receive call in a step. -/
def receivers (x : Step) : List PollerId := x.effects.filterMap (·.receiver?)

/-- A poller makes a receive call for its queue: it is alive, and its queue is running in its
    epoch, before the step and after it. -/
structure Asks (x : Step) (p : PollerId) (free : Nat) (request : ReceiveRequest) : Prop where
  actor : x.stimulus.actor = .poller p
  alive : x.before.isAlive p ∧ x.after.isAlive p
  running : x.before.lifecycle.standing? p.queue = some ⟨.running, p.epoch⟩ ∧
    x.after.lifecycle.standing? p.queue = some ⟨.running, p.epoch⟩
  station : ∃ st, x.before.station? p.queue = some st ∧
    request = x.before.polling st.source free

end Step

/-- The pollers that have made receive calls, in order. -/
def receivers (hist : List Step) : List PollerId := hist.flatMap (·.receivers)

namespace Listener

/-- The receive call of a poller has broken off, and the poller with it. -/
def BrokeOff (p : PollerId) (hist : List Step) : Prop :=
  ∃ x ∈ hist, ∃ text, x.stimulus = .answer p (.broken text) ∧ x.before.isAlive p

/-- What holds of the pollers in a run that has led to a state: the poller of a queue that is
    running is the only one that asks for messages. -/
structure Incumbent (hist : List Step) (l : Listener) : Prop where
  /-- A queue has at most one poller whose epoch is current. -/
  at_most_one : ∀ q, l.pollers.countP (fun x => x.id.queue = q ∧ l.isCurrent x.id) ≤ 1
  /-- Only a poller that is alive and current makes receive calls. -/
  asks : ∀ x ∈ hist, ∀ p free request, .receive p free request ∈ x.effects →
    x.Asks p free request
  /-- Once a poller has made a receive call, no earlier poller of its queue makes one. -/
  in_order : (receivers hist).Pairwise fun p r => p.queue = r.queue → p.epoch ≤ r.epoch

variable {l l' b : Listener} {p : PollerId} {now : Nat} {s : Stimulus} {hist : List Step}

/-! ## Receive calls -/

/-- The end of a turn at which a receive call is wanted. -/
private theorem Ends.asks_of_mem {e : Effect} (h : Ends now s p l l') (he : e ∈ l'.outbox)
    (hr : e.receiver?.isSome) : e ∈ l.outbox ∨ l.isCurrent p ∧ ∃ st,
      l.station? p.queue = some st ∧ 0 < st.slots.free ∧
        l' = (l.setPhase p (.receiving now)).emit e ∧
          e = .receive p st.slots.free (l.polling st.source st.slots.free) := by
  -- Only an end that asks emits a receive; a notice is none.
  cases h with
  | retired =>
    rcases List.mem_cons.mp he with rfl | he
    · cases hr
    · exact .inl he
  | asks hs hc hf =>
    rcases List.mem_cons.mp he with rfl | he
    · exact .inr ⟨hc, _, hs, hf, rfl, rfl⟩
    · exact .inl he
  | awaitsSlot | submits | rests | ready | breaks => exact .inl he

/-- A receive call is wanted at the end of a turn of the poller that makes it. -/
theorem exists_turn_of_receive (h : l.Sound) {free : Nat} {request : ReceiveRequest}
    (he : .receive p free request ∈ (l.step now s).effects) : s.actor = .poller p ∧
      ∃ x m st, l.poller? p = some x ∧ Fits { l with outbox := [] } now x s ∧
        Passes p ({ l with outbox := [] }.setPhase p .ready) m ∧ m.isCurrent p ∧
          m.station? p.queue = some st ∧ 0 < st.slots.free ∧
            ({ l with outbox := [] } : Listener).after now s =
              (m.setPhase p (.receiving now)).emit (.receive p free request) ∧
                free = st.slots.free ∧ request = m.polling st.source free := by
  have hs : s.actor = .poller p := actor_of_receiver h he rfl
  -- The receive is emitted by the poller's own turn, and ends it.
  have hmem : .receive p free request ∈ (({ l with outbox := [] } : Listener).after now s).outbox :=
    List.mem_reverse.mp he
  refine ⟨hs, ?_⟩
  rcases turn_after (l := { l with outbox := [] }) now hs with hsame | ⟨x, hx, hfits, m, hm, hends⟩
  · -- A stimulus that does not fit wants nothing.
    rw [hsame] at hmem
    cases hmem
  · rcases hends.asks_of_mem hmem rfl with hmem | ⟨hc, st, hst, hpos, hafter, hask⟩
    · cases hm.receives _ hmem rfl
    · injection hask with _ hfree hrequest
      exact ⟨x, m, st, hx, hfits, hm, hc, hst, hpos, hafter, hfree, hfree ▸ hrequest⟩

/-- Who makes a receive call, and when. -/
theorem asks_of_mem_effects (h : l.Sound) {free : Nat} {request : ReceiveRequest}
    (he : .receive p free request ∈ (l.step now s).effects) :
    (l.step now s).Asks p free request := by
  obtain ⟨hs, x, m, st, hx, hfits, hm, hc, hst, -, hafter, -, hask⟩ := exists_turn_of_receive h he
  have hdesk : (l.react now s).1.desk = l.desk := by
    apply desk_react now
    rw [hs]
    exact nofun
  have hcurrent : l.isCurrent p = true := hm.isCurrent.symm.trans hc
  have hposts : m.posts = l.posts := hm.posts
  have hpolling : m.polling = l.polling := hm.polling
  obtain ⟨y, hy, -⟩ : m.AtWork p := hm.atWork (.setPhase_ready hx)
  -- From now on the poller waits for its receive call.
  have hreceiving : (l.react now s).1.poller? p = some { y with phase := .receiving now } := by
    have hphase := poller?_setPhase m p p (.receiving now)
    rw [hy, Option.map_some, if_pos rfl] at hphase
    show (({ l with outbox := [] } : Listener).after now s).poller? p = _
    rw [hafter]
    exact hphase
  obtain ⟨slots, hslots⟩ := station?_of_posts hposts.symm hst
  refine ⟨hs, ⟨isAlive_iff.mpr ⟨x, hx, hfits.unbroken⟩, isAlive_iff.mpr ⟨_, hreceiving, nofun⟩⟩,
    ⟨isCurrent_iff.mp hcurrent, ?_⟩, ⟨_, hslots, ?_⟩⟩
  · show (l.react now s).1.lifecycle.standing? p.queue = _
    rw [lifecycle_of_desk hdesk]
    exact isCurrent_iff.mp hcurrent
  · rw [hask, hpolling]
    rfl

/-! ## One poller at most -/

/-- Current are pollers of the one running epoch. -/
private theorem countP_current (h : l.Sound) (q : String) :
    l.pollers.countP (fun x => x.id.queue = q ∧ l.isCurrent x.id) ≤ 1 := by
  apply List.countP_le_one h.ids_nodup
  intro x _ y _ hx hy
  simp only [decide_eq_true_eq, isCurrent_iff] at hx hy
  obtain ⟨hxq, hxs⟩ := hx
  obtain ⟨hyq, hys⟩ := hy
  -- Both are of the epoch in which the queue is running.
  rw [hxq] at hxs
  rw [hyq, hxs] at hys
  have hepoch : x.id.epoch = y.id.epoch := by simpa using hys
  calc x.id = ⟨x.id.queue, x.id.epoch⟩ := rfl
    _ = ⟨y.id.queue, y.id.epoch⟩ := by rw [hxq, hyq, hepoch]

/-- What is received in one more step. -/
private theorem receivers_append (hist : List Step) (x : Step) :
    receivers (hist ++ [x]) = receivers hist ++ x.receivers := by
  simp [receivers]

/-- Who receives asks for messages. -/
theorem asks_of_mem_receivers (h : l.Sound) (hp : p ∈ (l.step now s).receivers) :
    ∃ free request, (l.step now s).Asks p free request := by
  obtain ⟨e, he, hr⟩ := List.mem_filterMap.mp hp
  cases e with
  | receive =>
    obtain rfl := Option.some.inj hr
    exact ⟨_, _, asks_of_mem_effects h he⟩
  | _ => cases hr

/-- No poller has made a receive call in an epoch that is still to come. -/
def Epochal (hist : List Step) (l : Listener) : Prop :=
  ∀ p ∈ receivers hist, ∀ st, l.lifecycle.standing? p.queue = some st → p.epoch ≤ st.epoch

/-- Receives stay in their epochs. -/
theorem Epochal.step (h : Epochal hist l) (hs : l.Sound) (now : Nat) (s : Stimulus) :
    Epochal (hist ++ [l.step now s]) (l.react now s).1 := by
  -- An epoch that is received in is no later than the standing's, which never goes back.
  intro p hp st hst
  obtain ⟨st', hst', hprecedes⟩ := onward_react l now s p.queue st hst
  rw [receivers_append] at hp
  rcases List.mem_append.mp hp with hp | hp
  · exact Nat.le_trans (h p hp st' hst') hprecedes.epoch_le
  · -- Who makes a receive call is of the epoch in which the queue is running.
    obtain ⟨free, request, hask⟩ := asks_of_mem_receivers hs hp
    have hrunning : l.lifecycle.standing? p.queue = some ⟨.running, p.epoch⟩ := hask.running.1
    obtain rfl := Option.some.inj (hst'.symm.trans hrunning)
    exact hprecedes.epoch_le

/-- Each step keeps the incumbent's order. -/
theorem Incumbent.step (h : Incumbent hist l) (he : Epochal hist l) (hs : l.Sound) (now : Nat)
    (s : Stimulus) : Incumbent (hist ++ [l.step now s]) (l.react now s).1 where
  at_most_one := countP_current (hs.react now s)
  asks x hx p free request hmem := by
    rcases List.mem_append.mp hx with hx | hx
    · exact h.asks x hx p free request hmem
    · obtain rfl := List.mem_singleton.mp hx
      exact asks_of_mem_effects hs hmem
  in_order := by
    rw [receivers_append, List.pairwise_append]
    refine ⟨h.in_order, ?_, ?_⟩
    · -- In one step only the poller that acts makes receive calls.
      apply List.pairwise_of_forall_mem_list
      intro p hp r hr _
      obtain ⟨_, _, hpask⟩ := asks_of_mem_receivers hs hp
      obtain ⟨_, _, hrask⟩ := asks_of_mem_receivers hs hr
      have hpr : p = r := Actor.poller.inj (hpask.actor.symm.trans hrask.actor)
      exact Nat.le_of_eq (congrArg PollerId.epoch hpr)
    · intro p hp r hr hqueue
      obtain ⟨free, request, hask⟩ := asks_of_mem_receivers hs hr
      exact he p hp _ (hqueue ▸ hask.running.1)

/-- In every run of every listener that was built, at most one poller of a queue is current,
    and only a poller that is current makes receive calls for the queue, while it is running. -/
theorem incumbent_run {σ : Type} (k : Lookup σ) (settings : ListenerSettings) (polling : Polling)
    (handler : String) (rs : List Registration) (s : σ) (xs : List (Nat × Stimulus)) :
    let b := (build k settings polling handler rs s).1
    Incumbent (b.steps xs) (b.run xs) := by
  intro b
  have hsound : b.Sound := sound_build k settings polling handler rs s
  -- Along the run, with the invariant that receives stay in their epochs.
  have hrun : (b.run xs).Sound ∧ Epochal (b.steps xs) (b.run xs) ∧
      Incumbent (b.steps xs) (b.run xs) := by
    apply run_keeps (P := fun hist l => l.Sound ∧ Epochal hist l ∧ Incumbent hist l)
    · refine ⟨hsound, fun p hp => ?_, countP_current hsound, fun x hx => ?_, .nil⟩
      · cases hp
      · cases hx
    · intro hist l now s ⟨hs, he, h⟩
      exact ⟨hs.react now s, he.step hs now s, h.step he hs now s⟩
  exact hrun.2.2

/-! ## One poller, unless it has broken off -/

/-- A poller changed, but not broken, is alive. -/
private theorem isAlive_updatePoller {f : Poller → Poller} (hf : ∀ x, (f x).id = x.id) {x : Poller}
    (hx : l.poller? p = some x) (hne : ∀ text, (f x).phase ≠ .broken text) :
    (l.updatePoller p f).isAlive p := by
  rw [isAlive_iff, poller?_updatePoller hf, hx, Option.map_some, if_pos rfl]
  exact ⟨_, rfl, hne⟩

/-- A poller that is current survives its turn, unless its receive call breaks off. -/
private theorem Ends.isAlive (h : Ends now s p l l') (hw : l.AtWork p) (hc : l.isCurrent p)
    (hst : (l.station? p.queue).isSome) :
    l'.isAlive p ∨ ∃ text, s = .answer p (.broken text) := by
  obtain ⟨x, hx, hready⟩ := hw
  cases h with
  | retired hend =>
    rcases hend with hnone | hnot
    · rw [hnone] at hst
      cases hst
    · rw [hc] at hnot
      cases hnot
  -- By its end: parked, receiving, submitting or ready, it is there still.
  | awaitsSlot | rests =>
    refine .inl (isAlive_updatePoller (fun y => ?_) hx fun text => ?_) <;> split <;> first
      | rfl
      | exact nofun
  | asks =>
    exact .inl (isAlive_updatePoller (f := fun y => { y with phase := .receiving now })
      (fun _ => rfl) hx nofun)
  | submits _ d ds =>
    exact .inl (isAlive_updatePoller (f := fun y => { y with phase := .submitting d ds })
      (fun _ => rfl) hx nofun)
  | ready =>
    refine .inl (isAlive_iff.mpr ⟨x, hx, fun text => ?_⟩)
    rw [hready]
    exact nofun
  | breaks hs => exact .inr ⟨_, hs⟩

/-- The epoch in which a queue is running has a poller that is alive, unless its receive call
    has broken off. -/
def Attended (p : PollerId) (hist : List Step) (l : Listener) : Prop :=
  l.isCurrent p → l.isAlive p ∨ BrokeOff p hist

/-- What broke off did so. -/
private theorem BrokeOff.append (h : BrokeOff p hist) (x : Step) : BrokeOff p (hist ++ [x]) := by
  obtain ⟨y, hy, hbroke⟩ := h
  exact ⟨y, List.mem_append_left _ hy, hbroke⟩

/-- A step keeps a current poller attended, unless its receive breaks off. -/
theorem Attended.step (h : Attended p hist l) (hs : l.Sound) (now : Nat) (s : Stimulus) :
    Attended p (hist ++ [l.step now s]) (l.react now s).1 := by
  by_cases ha : s.actor = .poller p
  · intro hc
    -- Its own turn does not touch the lifecycle, so it was current before.
    have hdesk : (l.react now s).1.desk = l.desk := by
      apply desk_react now
      rw [ha]
      exact nofun
    have hcurrent : l.isCurrent p = true := by
      rw [isCurrent, lifecycle_of_desk hdesk] at hc
      exact hc
    rcases h hcurrent with halive | hbroke
    · rcases turn_after (l := { l with outbox := [] }) now ha with hsame | ⟨x, hx, -, m, hm, hends⟩
      · refine .inl ?_
        show (({ l with outbox := [] } : Listener).after now s).isAlive p
        rw [hsame]
        exact halive
      · have hknown : (m.station? p.queue).isSome := by
          obtain ⟨hmem, rfl⟩ := poller?_eq_some hx
          have hposts : m.posts = l.posts := hm.posts
          obtain ⟨st, hst⟩ := Option.isSome_iff_exists.mp
            (isSome_station?.mpr (hs.poller_known _ (List.mem_map_of_mem hmem)))
          obtain ⟨slots, hslots⟩ := station?_of_posts hposts hst
          rw [hslots]
          rfl
        have hw : m.AtWork p := hm.atWork (.setPhase_ready hx)
        have hmc : m.isCurrent p = true := hm.isCurrent.trans hcurrent
        rcases hends.isAlive hw hmc hknown with hafter | ⟨text, rfl⟩
        · exact .inl hafter
        · exact .inr ⟨_, List.mem_append_right _ List.mem_cons_self, text, rfl, halive⟩
    · exact .inr (hbroke.append _)
  · -- What others do spares it.
    have hkept : Attended p hist (l.react now s).1 := by
      apply keeps_bystander _ hs now ha h
      intro m m' hm hspares hattended hc
      rcases hspares.current hc with hcm | ⟨hnext, hsome⟩
      · exact (hattended hcm).imp_left hspares.isAlive
      · exact .inl (hspares.isAlive_of_next hm hnext hsome)
    exact fun hc => (hkept hc).imp_right (·.append _)

/-- In every run of every listener that was built, the epoch in which a queue is running has a
    poller that is alive, unless its receive call has broken off. -/
theorem attended_run {σ : Type} (k : Lookup σ) (settings : ListenerSettings) (polling : Polling)
    (handler : String) (rs : List Registration) (s : σ) (xs : List (Nat × Stimulus)) (q : String) :
    let b := (build k settings polling handler rs s).1
    (b.run xs).lifecycle.isRunning q → ∃ p : PollerId, p.queue = q ∧ (b.run xs).isCurrent p ∧
      ((b.run xs).isAlive p ∨ BrokeOff p (b.steps xs)) := by
  intro b hrunning
  obtain ⟨e, he⟩ := Lifecycle.isRunning_iff.mp hrunning
  have hcurrent : (b.run xs).isCurrent ⟨q, e⟩ := isCurrent_iff.mpr he
  -- What is current was opened with a poller, and keeps it unless its receive breaks off.
  have hrun : (b.run xs).Sound ∧ Attended ⟨q, e⟩ (b.steps xs) (b.run xs) := by
    apply run_keeps (P := fun hist l => l.Sound ∧ Attended ⟨q, e⟩ hist l)
    · refine ⟨sound_build k settings polling handler rs s, fun hc => ?_⟩
      rw [isCurrent_build] at hc
      cases hc
    · intro hist l now s ⟨hs, h⟩
      exact ⟨hs.react now s, h.step hs now s⟩
  exact ⟨⟨q, e⟩, rfl, hcurrent, hrun.2 hcurrent⟩

/-- A queue that is started once more while its first poller is in a receive call. -/
theorem attended_run_restarted :
    let b := (build Lookup.verbatim .standard .bySlots "h" [⟨"q", .standard, none⟩] ()).1
    let xs : List (Nat × Stimulus) := [(0, .start 0 "q"), (0, .goOn ⟨"q", 1⟩), (1, .stop 1 "q"),
      (10001, .proceed 1), (10002, .start 2 "q")]
    (b.run xs).lifecycle.isRunning "q" ∧ ∃ p : PollerId, p.queue = "q" ∧ (b.run xs).isCurrent p ∧
      ((b.run xs).isAlive p ∨ BrokeOff p (b.steps xs)) :=
  ⟨by decide, attended_run Lookup.verbatim .standard .bySlots "h" [⟨"q", .standard, none⟩] ()
    _ "q" (by decide)⟩

/-- When the receive call of a poller has broken off, its queue is running and no poller of its
    epoch is alive, and to start the queue once more changes nothing. -/
theorem unattended_broken :
    let b := (build Lookup.verbatim .standard .bySlots "h" [⟨"q", .standard, none⟩] ()).1
    let l := b.run [(0, .start 0 "q"), (0, .goOn ⟨"q", 1⟩), (3, .answer ⟨"q", 1⟩ (.broken "boom"))]
    l.lifecycle.isRunning "q" ∧
      ¬ (∃ p : PollerId, p.queue = "q" ∧ l.isCurrent p ∧ l.isAlive p) ∧
      (l.react 40 (.start 1 "q")).1.pollers = l.pollers ∧
      (l.react 40 (.start 1 "q")).1.lifecycle.standing? "q" = l.lifecycle.standing? "q" := by
  intro b l
  refine ⟨by decide, ?_, by decide, by decide⟩
  rintro ⟨⟨q, e⟩, rfl, hc, halive⟩
  -- The queue is running in its first epoch, and the poller of that epoch has broken off.
  have hrunning : l.lifecycle.standing? "q" = some ⟨.running, 1⟩ := by decide
  have hepoch : some (⟨.running, 1⟩ : Standing) = some ⟨.running, e⟩ :=
    hrunning.symm.trans (isCurrent_iff.mp hc)
  obtain rfl : 1 = e := by simpa using hepoch
  have hdead : l.isAlive ⟨"q", 1⟩ = false := by decide
  rw [hdead] at halive
  cases halive

end Listener

end Intake
