import Intake.Proofs.Listener.Prompt
import Intake.Proofs.Listener.Epoch

/-!
# Pending calls

A call that stops queues waits for one poller after another, and a shutdown waits for the
workers then.  Nobody but its caller lets it go on, and each time that it goes on it waits
for less; so in a prompt run it returns by an instant that is known from the beginning.

- `Stops`: what stopping some queues leads to
- `Move.call?_eq`, `actor_of_returned`: a pending call is left alone by all but its caller
- `InHand`: a shutdown that has not returned
- `InHand.step`: it stays in hand until it returns
-/

namespace Intake

/-- The instant by which a pending call returns if it always goes on in time. -/
def Call.latest (settings : ListenerSettings) (c : Call) : Nat :=
  match c.wait with
  | .poller _ t => t + c.rest.length * settings.stopTimeout + settings.drainTimeout
  | .workers t _ => t

/-- The wait of a call is over before its latest end. -/
theorem Call.deadline_le_latest (settings : ListenerSettings) (c : Call) :
    c.wait.deadline ≤ c.latest settings := by
  unfold latest CallWait.deadline
  -- A call for a poller may have to wait for the workers after that.
  cases c.wait with
  | poller =>
    dsimp only
    omega
  | workers => exact Nat.le_refl _

/-- How often a pending shutdown goes on at most until it returns: for the poller that it waits
    for, for those of the queues that are left, and for the workers. -/
def Call.stages (c : Call) : Nat :=
  match c.wait with
  | .poller _ _ => c.rest.length + 2
  | .workers _ _ => 1

/-- What a pending call waits for is there at an instant, or the time for that is over. -/
def Call.IsServed (c : Call) (now : Nat) (l : Listener) : Prop :=
  c.wait.deadline ≤ now ∨ match c.wait with
    | .poller p _ => l.isAlive p = false
    | .workers _ _ => l.workers.isDrained

/-- The call that a stimulus makes in order to start or to stop queues. -/
def Stimulus.request? : Stimulus → Option Nat
  | .start call _ | .startAll call | .stop call _ | .stopAll call => some call
  | _ => none

/-- A call returns without a failure when it goes on. -/
def Step.Concludes (n : Nat) (x : Step) : Prop :=
  x.stimulus = .proceed n ∧ .returned n (.ok ()) ∈ x.effects

namespace Listener

variable {G : String → Delivery → Prop} {a : Actor} {l l' : Listener} {now n : Nat}
  {s : Stimulus} {c : Call}

/-! ## Stopping queues -/

/-- What stopping some queues leads to: none of them is running, or the first one that is
    running begins to stop and the call waits for its poller. -/
inductive Stops (now call : Nat) (goal : CallGoal) (l : Listener) :
    List String → Listener → Prop
  | concluded {qs : List String} (h : ∀ q ∈ qs, l.lifecycle.runningEpoch? q = none) :
    Stops now call goal l qs (l.concludeStops now call goal)
  | stopping (before : List String) {q : String} (rest : List String) {e : Nat}
    (h : ∀ j ∈ before, l.lifecycle.runningEpoch? j = none)
    (he : l.lifecycle.runningEpoch? q = some e) : Stops now call goal l (before ++ q :: rest)
      { ({ l with lifecycle := l.lifecycle.beginStop q } : Listener).signal ⟨q, e⟩ with
        calls := l.calls ++ [⟨call, goal, rest, .poller ⟨q, e⟩ (now + l.settings.stopTimeout)⟩] }

/-- Stopping queues one after the other ends at the first one that is waited for. -/
theorem stops_stopEach (now call : Nat) (goal : CallGoal) (l : Listener) (qs : List String) :
    Stops now call goal l qs (l.stopEach now call goal qs) := by
  induction qs with
  | nil => exact .concluded (fun q hq => by cases hq)
  | cons q rest ih =>
    unfold stopEach
    split
    next hnone =>
      -- A queue that is not running is passed over.
      generalize l.stopEach now call goal rest = l' at ih
      cases ih with
      | concluded h => exact .concluded (List.forall_mem_cons.mpr ⟨hnone, h⟩)
      | stopping before rest h he =>
        exact .stopping (q :: before) rest (List.forall_mem_cons.mpr ⟨hnone, h⟩) he
    next e he => exact .stopping [] rest (fun q hq => by cases hq) he

/-! ## Calls of others -/

/-- Taking a call away leaves the others. -/
theorem call?_filter (l : Listener) (m n : Nat) :
    ({ l with calls := l.calls.filter (·.number ≠ m) } : Listener).call? n =
      if m = n then none else l.call? n :=
  List.find?_remove l.calls m n

/-- A call appended is found if no earlier one has its number. -/
theorem call?_append (l : Listener) (c : Call) (n : Nat) :
    ({ l with calls := l.calls ++ [c] } : Listener).call? n =
      (l.call? n).or (if c.number = n then some c else none) := by
  simp only [call?, List.find?_append, List.find?_singleton, decide_eq_true_eq]

/-- Only its own caller changes a pending call. -/
theorem Move.call?_eq (hm : Move G a l l') (ha : a ≠ .caller (some n)) :
    l'.call? n = l.call? n := by
  cases a with
  | poller p => rw [call?, calls_of_desk hm.desk_eq, call?]
  | job j =>
    cases hm with
    | noted => rfl
  | caller call =>
    cases hm with
    | @calling m =>
      -- It is another caller's call, so it has another number.
      have hne : m ≠ n := fun he => ha (congrArg (Actor.caller ∘ some) he)
      rw [call?_append, if_neg hne, Option.or_none]
    | called m =>
      have hne : m ≠ n := fun he => ha (congrArg (Actor.caller ∘ some) he)
      rw [call?_filter, if_neg hne]
    | forgot =>
      unfold forgetBroken
      split <;> rfl
    | _ => rfl

/-- No move changes the settings. -/
private theorem Move.settings_eq (hm : Move G a l l') : l'.settings = l.settings := by
  -- The settings lie on the desk; of the callers' moves none touches them.
  cases a with
  | poller p => exact settings_of_desk hm.desk_eq
  | job n =>
    cases hm with
    | noted => rfl
  | caller call =>
    cases hm with
    | forgot =>
      unfold forgetBroken
      split <;> rfl
    | _ => rfl

/-- A listener that has been shut down is not active again. -/
theorem Move.inactive (hm : Move G a l l') (h : l.active = false) : l'.active = false := by
  -- Only the end of a shutdown touches it, and that ends inactive too.
  cases a with
  | poller p => exact (active_of_desk hm.desk_eq).trans h
  | job n =>
    cases hm with
    | noted => exact h
  | caller call =>
    cases hm with
    | forgot =>
      unfold forgetBroken
      split <;> exact h
    | finished => rfl
    | _ => exact h

/-- What has shut down stays so. -/
theorem inactive_react (h : l.active = false) (now : Nat) (s : Stimulus) :
    (l.react now s).1.active = false := by
  have hafter : (({ l with outbox := [] } : Listener).after now s).active = false := by
    -- Moves keep it; the work of a job does not touch the desk.
    apply after_of_moves (P := fun m => m.active = false) now s
    · exact h
    · intro m m' hm hm'
      exact hm.inactive hm'
    · intro hjob
      exact (active_of_desk (desk_after_job now hjob)).trans h
  exact hafter

/-- Another effect hides no effect emitted before. -/
private theorem mem_outbox_of_emit {e f : Effect} (h : e ∈ (l.emit f).outbox) (hne : f ≠ e) :
    e ∈ l.outbox :=
  (List.mem_cons.mp h).resolve_left hne.symm

/-- Offering a message wants nothing but notices. -/
private theorem Offered.mem_outbox {p : PollerId} {d : Delivery} {o : Option Fate} {e : Effect}
    (h : Offered l p d o l') (he : e ∈ l'.outbox) :
    e ∈ l.outbox ∨ ∃ notice, e = .report notice := by
  have htake : ∀ {m : Listener}, l.takeSlot? p.queue = some m → m.outbox = l.outbox :=
    fun hm => same_takeSlot? (fun _ => rfl) hm
  -- By the way of the offer: a notice at the most.
  cases h with
  | noSlot => exact (List.mem_cons.mp he).symm.imp_right fun he => ⟨_, he⟩
  | outdated hm =>
    rw [releaseSlot_outbox, htake hm] at he
    exact .inl he
  | taken hm | queued hm => exact .inl (htake hm ▸ he :)
  | @refused m hm =>
    refine (List.mem_cons.mp he).symm.imp (fun he => ?_) fun he => ⟨_, he⟩
    rw [releaseSlot_outbox { m with workers := l.workers.submit p }] at he
    exact htake hm ▸ he

/-- Handing on again emits reports only. -/
private theorem mem_outbox_offerAgain {p : PollerId} {d : Delivery} {e : Effect}
    (he : e ∈ (l.offerAgain p d).2.outbox) : e ∈ l.outbox ∨ ∃ notice, e = .report notice := by
  unfold offerAgain at he
  dsimp only at he
  -- A waiter who is admitted causes no effect; one who is turned away is reported.
  split at he
  · exact .inl he
  · refine (List.mem_cons.mp he).symm.imp (fun he => ?_) fun he => ⟨_, he⟩
    rwa [releaseSlot_outbox { l with workers := l.workers.resume p }] at he

/-- Only a caller that has made a call lets it return. -/
private theorem Move.of_returned (hm : Move G a l l') (ha : a ≠ .caller (some n))
    {r : Except ListenerError Unit} (h : .returned n r ∈ l'.outbox) : .returned n r ∈ l.outbox := by
  -- What has been emitted besides is a notice, which is no return.
  have hnotice : (Effect.returned n r ∈ l.outbox ∨ ∃ notice, .returned n r = Effect.report notice) →
      .returned n r ∈ l.outbox := by
    rintro (h | ⟨_, h⟩)
    · exact h
    · cases h
  cases hm with
  | noted | retired => exact mem_outbox_of_emit h nofun
  | @asked _ p _ now => exact mem_outbox_of_emit (l := l.setPhase p (.receiving now)) h nofun
  | returned m =>
    refine mem_outbox_of_emit h fun he => ha ?_
    obtain ⟨rfl, -⟩ := Effect.returned.inj he
    rfl
  | wentPast | queued => exact hnotice ((offered ..).mem_outbox h)
  | @wentOn _ p => exact hnotice (mem_outbox_offerAgain (l := l.setPhase p .ready) h)
  | forgot =>
    unfold forgetBroken at h
    split at h <;> exact h
  | _ => exact h

/-- In a step of somebody else a call does not return. -/
theorem actor_of_returned {r : Except ListenerError Unit}
    (h : .returned n r ∈ (l.step now s).effects) : s.actor = .caller (some n) := by
  -- Otherwise nobody emits a return, by the moves of the step or, for a job, by its parts.
  by_contra ha
  have hnone : .returned n r ∉ (({ l with outbox := [] } : Listener).after now s).outbox := by
    apply after_of_moves (P := fun m => .returned n r ∉ m.outbox) now s
    · exact List.not_mem_nil
    · exact fun hm hnot h => hnot (hm.of_returned ha h)
    · intro hjob
      apply after_forJob_of_parts (P := fun m => .returned n r ∉ m.outbox) now s hjob
      · exact List.not_mem_nil
      · exact fun h => h
      · exact fun hnot h => hnot (mem_outbox_of_emit h nofun)
      · exact fun hnot h => hnot (mem_outbox_of_emit h nofun)
      · exact fun hnot h => hnot (mem_outbox_of_emit h nofun)
      · intro m j _ hnot
        have hsettle : (m.settle j).outbox = m.outbox :=
          releaseSlot_outbox { m with jobs := m.jobs.filter (·.number ≠ j.number) } j.queue
        rwa [hsettle]
  exact hnone (List.mem_reverse.mp h)

/-! ## Calls after a shutdown -/

/-- A request to a listener that has shut down fails. -/
theorem after_of_request (h : l.active = false) (hs : s.request? = some n) :
    l.after now s = l.emit (.returned n (.error .shutDown)) := by
  cases s with
  | start | startAll | stop | stopAll =>
    obtain rfl := Option.some.inj hs
    simp [after, start, startAll, stop, stopAll, h, returnsShutDown]
  | _ => cases hs

/-- A second shutdown returns at once. -/
theorem after_shutdown (h : l.active = false) :
    l.after now (.shutdown n) = l.emit (.returned n (.ok ())) := by
  simp [after, shutdown, h, returnsOk]

/-- A stimulus that leads to one effect and to nothing else. -/
theorem step_of_emit {e : Effect} (hl : l.outbox = [])
    (h : ({ l with outbox := [] } : Listener).after now s =
      ({ l with outbox := [] } : Listener).emit e) :
    (l.step now s).effects = [e] ∧ (l.step now s).after = l := by
  have hcleared : ({ l with outbox := [] } : Listener) = l := by
    rw [← hl]
  have hreact : l.react now s = ({ l with outbox := [] }, [e]) := by
    simp [react, h, emit]
  exact ⟨congrArg Prod.snd hreact, (congrArg Prod.fst hreact).trans hcleared⟩

/-- A stimulus that leads to nothing. -/
theorem step_of_unfit (hl : l.outbox = [])
    (h : ({ l with outbox := [] } : Listener).after now s = { l with outbox := [] }) :
    (l.step now s).effects = [] ∧ (l.step now s).after = l := by
  have hcleared : ({ l with outbox := [] } : Listener) = l := by
    rw [← hl]
  have hreact : l.react now s = ({ l with outbox := [] }, []) := by
    simp [react, h]
  exact ⟨congrArg Prod.snd hreact, (congrArg Prod.fst hreact).trans hcleared⟩

/-! ## A call that goes on -/

/-- A pending call can go on just if what it waits for is there, or the time for that is over. -/
theorem canProceed_iff : l.canProceed now c ↔ c.IsServed now l := by
  unfold canProceed Call.IsServed CallWait.deadline
  cases c.wait with
  | poller p t => simp [or_comm]
  | workers t active => simp [or_comm]

/-- A call that can go on goes on. -/
theorem after_proceed (hc : l.call? n = some c) (hgo : l.canProceed now c) :
    l.after now (.proceed n) = l.proceed now c := by
  simp [after, hc, hgo]

/-- Reporting one after the other puts the reports into the outbox. -/
private theorem foldl_report (ns : List Notice) (l : Listener) : ns.foldl
    (fun l n => l.report n) l =
    { l with outbox := (ns.map Effect.report).reverse ++ l.outbox } := by
  induction ns generalizing l with
  | nil => rfl
  | cons n ns ih =>
    rw [List.foldl_cons, ih, List.map_cons, List.reverse_cons, List.append_assoc]
    rfl

/-- A call that waits for a poller and goes on ends the stop of its queue, says so, and stops
    the queues that are left. -/
theorem proceed_of_poller {p : PollerId} {t : Nat} (hw : c.wait = .poller p t) (now : Nat)
    (l : Listener) : ∃ ns : List Notice, l.proceed now c =
      ({ l with calls := l.calls.filter (·.number ≠ c.number)
                pollers := (l.forgetBroken p).pollers
                lifecycle := l.lifecycle.finishStop p.queue p.epoch
                outbox := ns.map .report ++ l.outbox } : Listener).stopEach now c.number c.goal
        c.rest := by
  let taken : Listener := { l with calls := l.calls.filter (·.number ≠ c.number) }
  refine ⟨.queueStopped p.queue :: (taken.stopNotices p).reverse, ?_⟩
  unfold proceed
  rw [hw]
  dsimp only
  rw [foldl_report, List.map_cons, List.map_reverse]
  unfold forgetBroken
  -- Whether the poller is alive is for the pollers to say alone.
  by_cases halive : l.isAlive p
  · have htaken : ∀ es, ({ taken with outbox := es } : Listener).isAlive p = true :=
      fun _ => halive
    rw [if_pos halive, if_pos (htaken _)]
    rfl
  · have htaken : ∀ es, ¬ ({ taken with outbox := es } : Listener).isAlive p = true :=
      fun _ => halive
    rw [if_neg halive, if_neg (htaken _)]
    rfl

/-- A call that cannot go on does nothing. -/
theorem after_proceed_of_not (h : ∀ c, l.call? n = some c → l.canProceed now c = false) :
    l.after now (.proceed n) = l := by
  cases hc : l.call? n with
  | none => simp [after, hc]
  | some c => simp [after, hc, h c hc]

/-! ## A shutdown that has not returned -/

/-- A shutdown has not returned. -/
structure InHand (n : Nat) (c : Call) (l : Listener) : Prop where
  inactive : l.active = false
  pending : l.call? n = some c
  goal : c.goal = .shutdown

/-- What is left when a shutdown has returned: no queue is known and the workers turn away
    whoever waits. -/
structure Over (l : Listener) : Prop where
  unknown : ∀ q, l.lifecycle.standing? q = none
  closed : l.workers.closed = true

/-- Others' moves leave a call in hand. -/
private theorem InHand.move (hm : Move G a l l') (ha : a ≠ .caller (some n)) (h : InHand n c l) :
    InHand n c l' :=
  ⟨hm.inactive h.inactive, (hm.call?_eq ha).trans h.pending, h.goal⟩

/-- So does whatever does not touch the desk. -/
private theorem InHand.of_desk (hdesk : l'.desk = l.desk) (h : InHand n c l) : InHand n c l' := by
  refine ⟨(active_of_desk hdesk).trans h.inactive, ?_, h.goal⟩
  rw [call?, calls_of_desk hdesk]
  exact h.pending

/-- The outbox is taken away between steps. -/
theorem InHand.cleared (h : InHand n c l) : InHand n c { l with outbox := [] } :=
  ⟨h.inactive, h.pending, h.goal⟩

/-- A call of a shutdown that stops queues is in hand: it returns by the instant at which all
    of them and the workers have had their time, and goes on for each of them at most once. -/
theorem inHand_stopEach (now : Nat) {m : Listener} (qs : List String) (hm : m.active = false)
    (hnone : m.call? n = none) : ∃ c, InHand n c (m.stopEach now n .shutdown qs) ∧
      c.stages ≤ qs.length + 1 ∧ now ≤ c.wait.deadline ∧ c.latest m.settings ≤
        now + qs.length * m.settings.stopTimeout + m.settings.drainTimeout := by
  have hstops := stops_stopEach now n .shutdown m qs
  generalize m.stopEach now n .shutdown qs = l' at hstops
  have hfound : ∀ c : Call, c.number = n →
      ({ m with calls := m.calls ++ [c] } : Listener).call? n = some c := by
    intro c hc
    rw [call?_append, hnone, if_pos hc, Option.none_or]
  cases hstops with
  | concluded =>
    refine ⟨_, ⟨hm, hfound _ rfl, rfl⟩, Nat.le_add_left _ _, Nat.le_add_right _ _, ?_⟩
    show now + m.settings.drainTimeout ≤ _
    omega
  | @stopping before q rest =>
    -- The queue for which the call waits is one of those that were to be stopped.
    have hlength : rest.length + 1 ≤ (before ++ q :: rest).length := by
      simp
    refine ⟨_, ⟨hm, hfound _ rfl, rfl⟩, Nat.succ_le_succ hlength, Nat.le_add_right _ _, ?_⟩
    have hrest : (rest.length + 1) * m.settings.stopTimeout ≤
        (before ++ q :: rest).length * m.settings.stopTimeout :=
      Nat.mul_le_mul_right _ hlength
    show now + m.settings.stopTimeout + rest.length * m.settings.stopTimeout +
      m.settings.drainTimeout ≤ _
    rw [Nat.add_one_mul] at hrest
    omega

/-- What a call of a shutdown does in order to stop queues is not that it returns. -/
private theorem outbox_stopEach_shutdown (now n : Nat) (l : Listener) (qs : List String) :
    (l.stopEach now n .shutdown qs).outbox = l.outbox := by
  have hstops := stops_stopEach now n .shutdown l qs
  generalize l.stopEach now n .shutdown qs = l' at hstops
  cases hstops <;> rfl

/-- A shutdown that has gone on and does not wait again yet. -/
structure Resumed (n : Nat) (l m : Listener) : Prop where
  inactive : m.active = false
  settings : m.settings = l.settings
  unknown : m.call? n = none
  unreturned : ∀ r, .returned n r ∉ m.outbox

/-- What has been resumed stays so while broken pollers are forgotten. -/
private theorem Resumed.moves {m : Listener} (h : Resumed n l m)
    (hm : Moves G (.caller none) m l') : Resumed n l l' := by
  apply hm.keep (P := Resumed n l) _ h
  intro m m' hm h
  exact ⟨hm.inactive h.inactive, hm.settings_eq.trans h.settings,
    (hm.call?_eq nofun).trans h.unknown, fun r hr => h.unreturned r (hm.of_returned nofun hr)⟩

/-- A call that waits for a poller and goes on stops the queues that are left. -/
private theorem resumed_proceed (now : Nat) {p : PollerId} {t : Nat} (h : InHand n c l)
    (hl : l.outbox = []) (hw : c.wait = .poller p t) : ∃ m, Resumed n l m ∧
      l.proceed now c = m.stopEach now n .shutdown c.rest := by
  obtain ⟨-, hnumber⟩ := List.mem_of_find?_key h.pending
  have htaken : Resumed n l { l with calls := l.calls.filter (·.number ≠ n) } :=
    ⟨h.inactive, rfl, (call?_filter l n n).trans (if_pos rfl), by simp [hl]⟩
  unfold proceed
  rw [hw, h.goal, hnumber]
  dsimp only
  refine ⟨_, htaken.moves (G := fun _ _ => True) ?_, rfl⟩
  -- What it does before that concerns no pending call.
  exact (moves_foldl (f := report) (fun _ n => (Move.noted n).moves) _ _).trans
    (.head (.forgot p) (.head (.stopped p.queue p.epoch) (Move.noted _).moves))

/-- A call that waits for the workers and goes on ends the shutdown. -/
private theorem over_proceed (now : Nat) {t active : Nat} (hw : c.wait = .workers t active) :
    (l.proceed now c).Over ∧ .returned c.number (.ok ()) ∈ (l.proceed now c).outbox := by
  unfold proceed
  rw [hw]
  exact ⟨⟨fun _ => rfl, rfl⟩, List.mem_cons_self⟩

/-- What a step does to a shutdown: it stays in hand, and if it had not missed its time it does
    not miss it now and does not return later than it would have.  It is no further from its
    return than before, and nearer if it could go on and has done so. -/
def StaysInHand (n : Nat) (c : Call) (l : Listener) (x : Step) : Prop :=
  ¬ x.Concludes n ∧ ∃ c', InHand n c' x.after ∧ c'.stages ≤ c.stages ∧
    (x.stimulus = .proceed n → l.canProceed x.now c → c'.stages < c.stages) ∧
    (x.now ≤ c.wait.deadline →
      x.now ≤ c'.wait.deadline ∧ c'.latest l.settings ≤ c.latest l.settings)

/-- The same call with no return by the step. -/
private theorem StaysInHand.same {x : Step} (hx : ¬ x.Concludes n) (h : InHand n c x.after)
    (hnot : x.stimulus = .proceed n → ¬ l.canProceed x.now c) : StaysInHand n c l x :=
  ⟨hx, c, h, Nat.le_refl _, fun hs hgo => absurd hgo (hnot hs), fun hnow => ⟨hnow, Nat.le_refl _⟩⟩

/-- When the poller has ended for which a shutdown waits, it waits for the next one or for the
    workers. -/
private theorem InHand.proceed_poller {p : PollerId} {t : Nat} (h : InHand n c l)
    (hgo : l.canProceed now c) (hw : c.wait = .poller p t) :
    StaysInHand n c l (l.step now (.proceed n)) := by
  have hafter := after_proceed h.cleared.pending hgo
  obtain ⟨m, hm, heq⟩ := resumed_proceed now h.cleared rfl hw
  obtain ⟨c', hc', hstages, hdeadline, hlatest⟩ :=
    inHand_stopEach now c.rest hm.inactive hm.unknown
  -- The poller it waited for is gone: one stage fewer.
  have hless : c'.stages < c.stages := by
    have hbefore : c.stages = c.rest.length + 2 := by simp [hw, Call.stages]
    omega
  refine ⟨fun hconcludes => ?_, c', ?_, Nat.le_of_lt hless, fun _ _ => hless,
    fun hnow => ⟨hdeadline, ?_⟩⟩
  · have hreturned := List.mem_reverse.mp hconcludes.2
    rw [hafter, heq, outbox_stopEach_shutdown] at hreturned
    exact hm.unreturned _ hreturned
  · rw [← heq, ← hafter] at hc'
    exact hc'.cleared
  · -- What it waited for is over by now, and for each queue that is left it has its time.
    have hsettings : m.settings = l.settings := hm.settings
    have hwait : now ≤ c.wait.deadline := hnow
    rw [hw] at hwait
    have hdue : now ≤ t := hwait
    have hbefore : c.latest l.settings =
        t + c.rest.length * l.settings.stopTimeout + l.settings.drainTimeout := by
      simp [hw, Call.latest]
    rw [hsettings] at hlatest
    omega

/-- When a call goes on that waits for the workers, it returns and its shutdown is over. -/
theorem concludes_of_workers {t active : Nat} (hc : l.call? n = some c)
    (hgo : l.canProceed now c) (hw : c.wait = .workers t active) :
    (l.step now (.proceed n)).Concludes n ∧ (l.step now (.proceed n)).after.Over := by
  obtain ⟨-, hnumber⟩ := List.mem_of_find?_key hc
  -- A call that waits for the workers closes them and forgets the queues when it proceeds.
  have hafter := after_proceed (l := { l with outbox := [] }) hc hgo
  obtain ⟨hover, hreturned⟩ := over_proceed (l := { l with outbox := [] }) now hw
  rw [hnumber, ← hafter] at hreturned
  rw [← hafter] at hover
  exact ⟨⟨rfl, List.mem_reverse.mpr hreturned⟩, hover.unknown, hover.closed⟩

/-- When a shutdown goes on it returns, and then it is over, or it stays in hand. -/
private theorem InHand.proceed (h : InHand n c l) (now : Nat) :
    (l.step now (.proceed n)).Concludes n ∧ (l.step now (.proceed n)).after.Over ∨
      StaysInHand n c l (l.step now (.proceed n)) := by
  by_cases hgo : l.canProceed now c
  · cases hw : c.wait with
    | poller p t => exact .inr (h.proceed_poller hgo hw)
    | workers t active => exact .inl (concludes_of_workers h.pending hgo hw)
  · -- It cannot go on yet, and nothing happens.
    have hunfit : ({ l with outbox := [] } : Listener).after now (.proceed n) =
        { l with outbox := [] } := by
      apply after_proceed_of_not
      intro c' hc'
      obtain rfl := Option.some.inj (h.cleared.pending.symm.trans hc')
      exact Bool.eq_false_iff.mpr hgo
    refine .inr (.same (fun hconcludes => ?_) ?_ fun _ => hgo)
    · have hreturned := List.mem_reverse.mp hconcludes.2
      rw [hunfit] at hreturned
      cases hreturned
    · apply h.of_desk
      show (({ l with outbox := [] } : Listener).after now (.proceed n)).desk = l.desk
      rw [hunfit]
      rfl

/-- A shutdown stays in hand until it returns, and then it is over. -/
theorem InHand.step (h : InHand n c l) (now : Nat) (s : Stimulus) :
    (l.step now s).Concludes n ∧ (l.step now s).after.Over ∨ StaysInHand n c l (l.step now s) := by
  by_cases ha : s.actor = .caller (some n)
  · -- Its caller can let it go on only: other calls are turned away at once.
    have hturned : ∀ e, ({ l with outbox := [] } : Listener).after now s =
        ({ l with outbox := [] } : Listener).emit e → InHand n c (l.step now s).after := by
      intro e he
      apply h.of_desk
      show (({ l with outbox := [] } : Listener).after now s).desk = l.desk
      rw [he]
      rfl
    cases s with
    | start | startAll | stop | stopAll =>
      refine .inr (.same ?_ (hturned _ (after_of_request h.inactive rfl)) nofun)
      rintro ⟨hs, -⟩
      cases hs
    | shutdown =>
      refine .inr (.same ?_ (hturned _ (after_shutdown h.inactive)) nofun)
      rintro ⟨hs, -⟩
      cases hs
    | proceed m =>
      obtain rfl : m = n := Option.some.inj (Actor.caller.inj ha)
      exact h.proceed now
    | _ => cases ha
  · have hkept : InHand n c (({ l with outbox := [] } : Listener).after now s) := by
      apply after_of_moves (P := InHand n c) now s h.cleared
      · intro m m' hm hm'
        exact hm'.move hm ha
      · intro hjob
        exact h.cleared.of_desk (desk_after_job now hjob)
    -- The stimulus is not the one that lets the shutdown go on.
    have hother : (l.step now s).stimulus ≠ .proceed n := fun hs => ha (congrArg Stimulus.actor hs)
    exact .inr (.same (fun hconcludes => hother hconcludes.1) hkept.cleared
      fun hs => absurd hs hother)

/-- No step changes the settings. -/
theorem settings_react (l : Listener) (now : Nat) (s : Stimulus) :
    (l.react now s).1.settings = l.settings := by
  have hafter : (({ l with outbox := [] } : Listener).after now s).settings = l.settings := by
    -- Moves keep them; the work of a job does not touch the desk.
    apply after_of_moves (P := fun m => m.settings = l.settings) now s
    · rfl
    · intro m m' hm h
      exact hm.settings_eq.trans h
    · intro hjob
      exact settings_of_desk (desk_after_job now hjob)
  exact hafter

end Listener

end Intake
