import Intake.Proofs.Listener.Fate
import Intake.Proofs.Listener.Incumbent

/-!
# What a poller asks for it has room for

A poller asks for as many messages as slots of its queue are free.  Until its receive call
returns and the messages are handed on, others come and go: jobs of the queue are settled,
and pollers of epochs that are over take a slot and give it back.  None of them lowers the
number of free slots, so as long as the poller is current there is a slot for each message
that it asked for.

- `Covered`: the free slots suffice for what a poller counts on
- `Move.room`: what others do takes no slot away from a poller that is current
- `HasRoom.offered`: a message that is gone past takes one slot at most
- `covered_run`: what pollers count on and what they leave in a run in which nobody receives too
  much
- `measured_run`: what is asked for and what is left in every run of a listener that was built
-/

namespace Intake

/-- How many messages an effect asks for, for a poller. -/
def Effect.asked? (p : PollerId) : Effect → Option Nat
  | .receive r _ request => if r = p then some request.limit else none
  | _ => none

/-- How many messages a poller asked for when it last made a receive call. -/
def asked (p : PollerId) (hist : List Step) : Nat :=
  ((hist.flatMap (·.effects)).filterMap (·.asked? p)).getLast?.getD 0

/-- No poller has ever received more messages than it asked for. -/
def Moderate (hist : List Step) : Prop :=
  ∀ i, ∀ h : i < hist.length, ∀ x ∈ hist[i].before.pollers,
    (hist[i].received x.id).length ≤ asked x.id (hist.take i)

instance : DecidablePred Moderate := fun hist =>
  inferInstanceAs (Decidable (∀ i, ∀ h : i < hist.length, ∀ x ∈ hist[i].before.pollers,
    (hist[i].received x.id).length ≤ asked x.id (hist.take i)))

/-- The last request counts. -/
private theorem asked_append (p : PollerId) (hist : List Step) (x : Step) :
    asked p (hist ++ [x]) = (x.effects.filterMap (·.asked? p)).getLast?.getD (asked p hist) := by
  simp [asked, List.getLast?_append, Option.getD_or]

/-- Moderate so far. -/
private theorem Moderate.of_append {hist : List Step} {x : Step} (h : Moderate (hist ++ [x])) :
    Moderate hist ∧ ∀ y ∈ x.before.pollers, (x.received y.id).length ≤ asked y.id hist := by
  constructor
  · intro i hi y hy
    -- What was asked before a step of the shorter history is the same in the longer one.
    have hlt : i < (hist ++ [x]).length := by simp; omega
    have hi' := h i hlt y
    rw [List.getElem_append_left hi, List.take_append_of_le_length (Nat.le_of_lt hi)] at hi'
    exact hi' hy
  · intro y hy
    have hlast := h hist.length (by simp) y
    simpa using hlast (by simpa using hy)

namespace Listener

variable {G : String → Delivery → Prop} {a : Actor} {l l' m : Listener} {p r : PollerId}
  {d : Delivery} {ds : List Delivery} {q : String} {now n k : Nat} {s : Stimulus}
  {hist : List Step}

/-! ## Room for messages -/

/-- As long as a poller is current there are slots for so many messages. -/
def HasRoom (l : Listener) (p : PollerId) (n : Nat) : Prop :=
  l.isCurrent p → ∀ k, l.freeSlots? p.queue = some k → n ≤ k

/-- The free slots suffice for what a poller counts on: for the messages that it asked for, as
    long as its receive call is out, and for those that it has in hand, but for the first one,
    which has a slot. -/
structure Covered (p : PollerId) (n : Nat) (l : Listener) : Prop where
  receiving : ∀ x t, l.poller? p = some x → x.phase = .receiving t → l.HasRoom p n
  submitting : l.HasRoom p (l.hand p).tail.length

/-- Room for many is room for fewer. -/
private theorem HasRoom.mono (h : l.HasRoom p n) {n' : Nat} (hn : n' ≤ n) : l.HasRoom p n' :=
  fun hc k hk => Nat.le_trans hn (h hc k hk)

/-- There is always room for none. -/
private theorem hasRoom_zero (l : Listener) (p : PollerId) : l.HasRoom p 0 :=
    fun _ k _ => Nat.zero_le k

/-- Room looks at the lifecycle and the stations alone. -/
private theorem HasRoom.congr (h : l.HasRoom p n) (hlife : l'.lifecycle = l.lifecycle)
    (hstations : l'.stations = l.stations) : l'.HasRoom p n := by
  intro hc k hk
  rw [isCurrent, hlife] at hc
  rw [freeSlots?, station?, hstations] at hk
  exact h hc k hk

/-- The queue of a poller has slots. -/
private theorem exists_freeSlots? (hs : l.Sound) {x : Poller} (hx : l.poller? p = some x) :
    ∃ k, l.freeSlots? p.queue = some k := by
  obtain ⟨hmem, rfl⟩ := poller?_eq_some hx
  obtain ⟨st, hst⟩ := Option.isSome_iff_exists.mp
    (isSome_station?.mpr (hs.poller_known _ (List.mem_map_of_mem hmem)))
  exact ⟨_, freeSlots?_eq_some.mpr ⟨st, hst, rfl⟩⟩

/-- A message that is gone past, or with which its poller begins to wait for a worker, takes one
    slot at most. -/
theorem HasRoom.offered {o : Option Fate} (h : l.HasRoom p (n + 1)) (hs : l.Sound)
    (hb : l.Balance none) (hw : l.AtWork p) (ho : Offered l p d o l') : l'.HasRoom p n := by
  intro hc k' hk'
  obtain ⟨x, hx⟩ : ∃ x, l.poller? p = some x := hw.imp fun _ => And.left
  obtain ⟨k, hk⟩ := exists_freeSlots? hs hx
  have hcurrent : l.isCurrent p := (ho.passes hw).isCurrent ▸ hc
  have hroom := h hcurrent k hk
  cases o with
  | some f =>
    obtain ⟨k'', hk'', hsum⟩ := (ho.fair hs hb hw).slots p.queue k hk
    obtain rfl := Option.some.inj (hk'.symm.trans hk'')
    simp only [Bool.false_eq_true, false_and, if_false] at hsum
    split at hsum <;> omega
  | none =>
    obtain ⟨k'', hk'', hsum⟩ := hb.freeSlots? (ho.balance hb hs.names_nodup) ho.posts_eq hk
    obtain rfl := Option.some.inj (hk'.symm.trans hk'')
    -- One slot is loose now, and as many are held as before.
    have hheld : l'.held p.queue = l.held p.queue := by
      cases ho with
      | queued hm =>
        obtain ⟨_, -, -, rfl⟩ := takeSlot?_eq_some_iff.mp hm
        rfl
    simp only [if_true, reduceCtorEq, if_false] at hsum
    omega

/-! ## What others do -/

/-- Of the pollers of a queue one is current at most. -/
theorem isCurrent_of_ne (hc : l.isCurrent p) (hq : r.queue = p.queue) (hne : r ≠ p) :
    l.isCurrent r = false := by
  rw [Bool.eq_false_iff]
  intro hr
  rw [isCurrent_iff] at hc hr
  -- Both would be pollers of the queue in its one running epoch.
  rw [hq, hc] at hr
  have hepoch : p.epoch = r.epoch := by simpa using hr
  obtain ⟨queue, epoch⟩ := r
  obtain ⟨queue', epoch'⟩ := p
  exact hne (by rw [PollerId.mk.injEq]; exact ⟨hq, hepoch.symm⟩)

/-- Slots of other queues do not matter. -/
private theorem freeSlots?_updateSlots_of_ne (l : Listener) {j : String} {f : Slots → Slots}
    (hne : j ≠ q) : (l.updateSlots j f).freeSlots? q = l.freeSlots? q := by
  simp [freeSlots?, station?_updateSlots, hne]

/-- What others do takes no slot away from a poller that is current. -/
theorem Move.room (hm : Move G a l l') (hs : l.Sound) (hb : l.Balance none) (ha : a ≠ .poller p)
    (hc : l.isCurrent p) (hk : l.freeSlots? p.queue = some k) :
    ∃ k', l'.freeSlots? p.queue = some k' ∧ k ≤ k' := by
  have hsame : l'.stations = l.stations → ∃ k', l'.freeSlots? p.queue = some k' ∧ k ≤ k' :=
    fun he => ⟨k, by rw [freeSlots?, station?, he]; exact hk, Nat.le_refl k⟩
  cases hm with
  | @wentPast _ r d f hw _ hf =>
    have hoffered := offered l r d
    rw [hf] at hoffered
    have hfair := hoffered.fair hs hb hw
    obtain ⟨k', hk', hsum⟩ := hfair.slots p.queue k hk
    refine ⟨k', hk', ?_⟩
    -- A poller of the same queue is not current, so it leaves the message.
    have hleft : ¬ ((Passing.job? ⟨r, d, f, false, l, (l.offer r d).2⟩).isSome ∧
        r.queue = p.queue) := by
      rintro ⟨hjob, hqueue⟩
      have houtdated := isCurrent_of_ne hc hqueue fun he => ha (he ▸ rfl)
      rw [job?_of_left (hoffered.fate_of_outdated houtdated)] at hjob
      cases hjob
    simp only [if_neg hleft, Bool.false_eq_true, false_and, if_false] at hsum
    omega
  | @queued _ r d ds hw _ hf =>
    have hoffered := offered l r d
    rw [hf] at hoffered
    -- Only a current poller begins to wait for a worker, and it is one of another queue.
    generalize (l.offer r d).2 = m at hoffered
    cases hoffered with
    | queued hm hcurrent =>
      have hne : r.queue ≠ p.queue := by
        intro hqueue
        rw [isCurrent_of_ne hc hqueue fun he => ha (he ▸ rfl)] at hcurrent
        cases hcurrent
      obtain ⟨_, -, -, rfl⟩ := takeSlot?_eq_some_iff.mp hm
      have hfree : (l.updateSlots r.queue (·.acquire 1)).freeSlots? p.queue = some k :=
        (freeSlots?_updateSlots_of_ne l hne).trans hk
      exact ⟨k, hfree, Nat.le_refl k⟩
  | @wentOn _ r x d ds hx hh =>
    -- The slot with which it waited goes to a job or comes back.
    have hloose := hb.wentOn hs.ids_nodup hx hh
    obtain ⟨k', hk', hsum⟩ := (fair_offerAgain hloose d).slots p.queue k hk
    refine ⟨k', hk', ?_⟩
    by_cases hqueue : r.queue = p.queue
    · simp only [hqueue, and_true, if_true] at hsum
      split at hsum <;> omega
    · simp only [hqueue, and_false, if_false] at hsum
      omega
  | forgot =>
    refine hsame ?_
    unfold forgetBroken
    split <;> rfl
  | _ => exact hsame rfl

/-- What was covered stays so while the poller is spared and no slot is taken away from it. -/
private theorem Covered.spares (h : Covered p n m) (hs : m.Sound) (hspares : Spares p m l')
    (hroom : m.isCurrent p → ∀ k, m.freeSlots? p.queue = some k →
      ∃ k', l'.freeSlots? p.queue = some k' ∧ k ≤ k') : Covered p n l' := by
  have hkeep : ∀ {c : Nat} {x : Poller}, m.poller? p = some x → m.HasRoom p c →
      l'.HasRoom p c := by
    intro c x hx hc hcurrent' k' hk'
    rcases hspares.current hcurrent' with hcurrent | ⟨hnext, -⟩
    · obtain ⟨k, hk⟩ := exists_freeSlots? hs hx
      obtain ⟨k'', hk'', hle⟩ := hroom hcurrent k hk
      obtain rfl := Option.some.inj (hk'.symm.trans hk'')
      exact Nat.le_trans (hc hcurrent k hk) hle
    · rw [poller?_of_nextEpoch hs hnext] at hx
      cases hx
  -- What the poller has out it had out before.
  have hbefore : ∀ y, l'.poller? p = some y → y.phase.isOut → ∃ x, m.poller? p = some x ∧
      x.phase = y.phase := by
    intro y hy hout
    have htouched := hspares.touched
    rw [hy] at htouched
    exact htouched.exists_of_isOut hout
  constructor
  · intro y t hy hphase
    obtain ⟨x, hx, hsame⟩ := hbefore y hy (by rw [hphase]; rfl)
    exact hkeep hx (h.receiving x t hx (hsame.trans hphase))
  · cases hy : l'.poller? p with
    | none =>
      rw [hand, hy]
      exact hasRoom_zero l' p
    | some y =>
      rw [hand_of_poller? hy]
      cases hphase : y.phase with
      | submitting d ds =>
        obtain ⟨x, hx, hsame⟩ := hbefore y hy (by rw [hphase]; rfl)
        have hroom := h.submitting
        rw [hand_of_poller? hx, hsame, hphase] at hroom
        exact hkeep hx hroom
      | _ => exact hasRoom_zero l' p

/-- Others leave a poller what it counts on. -/
private theorem Covered.bystander (h : Covered p n l) (hs : l.Sound) (hb : l.Balance none)
    (ha : s.actor ≠ .poller p) (now : Nat) : Covered p n (l.react now s).1 := by
  have hcleared : ({ l with outbox := [] } : Listener).Sound := hs.congr rfl rfl rfl rfl rfl
  have hcovered : Covered p n { l with outbox := [] } := ⟨h.receiving, h.submitting⟩
  -- A job's stimulus gives slots back at the most; all others by their moves.
  have hafter : Covered p n (({ l with outbox := [] } : Listener).after now s) := by
    cases hjob : s.job? with
    | some i =>
      have hforJob : s.job?.isSome := by rw [hjob]; rfl
      refine hcovered.spares hcleared (spares_after_job now hforJob p) fun _ k hk => ?_
      exact ⟨_, freeSlots?_react hs hb hforJob hk, Nat.le_add_right ..⟩
    | none =>
      have hall : (({ l with outbox := [] } : Listener).after now s).Sound ∧
          (({ l with outbox := [] } : Listener).after now s).Balance none ∧
            Covered p n (({ l with outbox := [] } : Listener).after now s) := by
        apply after_of_moves (P := fun m => m.Sound ∧ m.Balance none ∧ Covered p n m) now s
        · exact ⟨hcleared, hb.congr rfl fun _ => rfl, hcovered⟩
        · intro m m' hm ⟨hms, hmb, hmc⟩
          exact ⟨hms.move hm, hmb.move hm hms,
            hmc.spares hms (hm.spares ha) fun hc k hk => hm.room hms hmb ha hc hk⟩
        · intro hsome
          rw [hjob] at hsome
          cases hsome
      exact hall.2.2
  exact ⟨hafter.receiving, hafter.submitting⟩

/-! ## The turn of the poller -/

/-- A poller that hands on a batch for which there is room leaves no message for want of a slot
    while it is current. -/
private theorem HasRoom.passings (h : l.HasRoom p ds.length) (hs : l.Sound) (hb : l.Balance none)
    (hw : l.AtWork p) {z : Passing} (hz : z ∈ l.passings p ds) (hfate : z.fate = .noSlot) :
    z.before.isCurrent p = false := by
  induction ds generalizing l with
  | nil => cases hz
  | cons d ds ih =>
    have hoffered := Listener.offered l p d
    cases hf : (l.offer p d).1 with
    | none =>
      rw [passings_cons_of_none hf] at hz
      cases hz
    | some f =>
      rw [passings_cons_of_some hf] at hz
      rcases List.mem_cons.mp hz with rfl | hz
      · rw [hf] at hoffered
        -- No slot would mean no room, unless the poller is not current.
        have hnone := (hoffered.fair hs hb hw).noSlot hfate
        rw [Bool.eq_false_iff]
        intro hc
        have hle := h hc 0 hnone
        cases hle
      · exact ih (h.offered hs hb hw hoffered) (hoffered.sound hs)
          (by simpa [hf] using hoffered.balance hb hs.names_nodup) (hoffered.atWork hw) hz

/-- When it begins to wait for a worker there is room for the messages behind the one with which
    it waits. -/
private theorem HasRoom.dispatch (h : l.HasRoom p ds.length) (hs : l.Sound) (hb : l.Balance none)
    (hw : l.AtWork p) (now : Nat) :
    (l.dispatch now p ds).HasRoom p ((l.dispatch now p ds).hand p).tail.length := by
  induction ds generalizing l with
  | nil =>
    rw [hand_dispatch now hw, if_pos rfl]
    exact hasRoom_zero _ p
  | cons d ds ih =>
    have hoffered := Listener.offered l p d
    have hroom := h.offered hs hb hw hoffered
    -- The message at which it stops is held in hand with its slot; the rest are covered.
    cases hf : (l.offer p d).1 with
    | none =>
      obtain ⟨x, hx, -⟩ := hoffered.atWork hw
      rw [dispatch_cons_of_none now hf, hand_setPhase hx, if_pos rfl]
      exact hroom.congr rfl rfl
    | some f =>
      rw [dispatch_cons_of_some now hf]
      exact ih hroom (hoffered.sound hs) (by simpa [hf] using hoffered.balance hb hs.names_nodup)
        (hoffered.atWork hw)

/-- A message with which its poller has waited for a worker takes no further slot. -/
private theorem HasRoom.offerAgain (h : l.HasRoom p n) (hs : l.Sound)
    (hb : l.Balance (some p.queue))
    (hw : l.AtWork p) (d : Delivery) : (l.offerAgain p d).2.HasRoom p n := by
  intro hc k' hk'
  obtain ⟨x, hx⟩ : ∃ x, l.poller? p = some x := hw.imp fun _ => And.left
  obtain ⟨k, hk⟩ := exists_freeSlots? hs hx
  have hroom := h ((passes_offerAgain hw d).isCurrent ▸ hc) k hk
  -- The slot that the message holds stays taken or comes back, so no room is lost.
  obtain ⟨k'', hk'', hsum⟩ := (fair_offerAgain hb d).slots p.queue k hk
  obtain rfl := Option.some.inj (hk'.symm.trans hk'')
  simp only [and_true, if_true] at hsum
  split at hsum <;> omega

/-- A poller that waited for a worker goes on with the rest of its batch from a state in which
    there is room for it. -/
theorem Covered.waited (h : Covered p n l) (hs : l.Sound) (hb : l.Balance none) {x : Poller}
    (hx : l.poller? p = some x) (hphase : x.phase = .submitting d ds) :
    let m := ((l.setPhase p .ready).offerAgain p d).2
    m.Sound ∧ m.Balance none ∧ m.AtWork p ∧ m.HasRoom p ds.length := by
  -- The message that waited has its slot; the room asked for is for those after it.
  have hready : (l.setPhase p .ready).Sound := hs.setPhase p .ready
  have hloose := hb.wentOn hs.ids_nodup hx hphase
  have hw : (l.setPhase p .ready).AtWork p := .setPhase_ready hx
  have hknown : p.queue ∈ (l.setPhase p .ready).names := by
    obtain ⟨hmem, rfl⟩ := poller?_eq_some hx
    exact hs.poller_known _ (List.mem_map_of_mem hmem)
  have hroom : (l.setPhase p .ready).HasRoom p ds.length := by
    have hrest := h.submitting
    rw [hand_of_poller? hx, hphase] at hrest
    exact hrest.congr rfl rfl
  exact ⟨hready.offerAgain hknown d, hloose.offerAgain d, hw.offerAgain,
    hroom.offerAgain hready hloose hw d⟩

/-- A poller that receives no more than it asked for hands on its batch from a state in which
    there is room for it. -/
private theorem Covered.received (h : Covered p n l) (hs : l.Sound) (hb : l.Balance none)
    {x : Poller} {t : Nat} (hx : l.poller? p = some x) (hphase : x.phase = .receiving t)
    (hds : ds.length ≤ n) :
    let m := l.setPhase p .ready
    m.Sound ∧ m.Balance none ∧ m.AtWork p ∧ m.HasRoom p ds.length :=
  ⟨hs.setPhase p .ready, hb.setPhase hs.ids_nodup hx (by rw [hphase]; rfl) rfl,
    .setPhase_ready hx, ((h.receiving x t hx hphase).mono hds).congr rfl rfl⟩

/-- A message handed on again has its slot already. -/
private theorem fate_offerAgain_ne (l : Listener) (p : PollerId) (d : Delivery) :
    (l.offerAgain p d).1 ≠ .noSlot := by
  unfold Listener.offerAgain
  dsimp only
  split <;> nofun

/-- No message is left for want of a slot by a poller that is current. -/
private theorem left_of_covered {bound : PollerId → Nat} (h : ∀ p, Covered p (bound p) l)
    (hs : l.Sound)
    (hb : l.Balance none) (hmoderate : ∀ p, (l.receivedBy p s).length ≤ bound p) {z : Passing}
    (hz : z ∈ l.passedBy now s) (hfate : z.fate = .noSlot) :
    z.before.isCurrent z.poller = false := by
  have hspec := passedBy_spec now s l
  generalize l.passedBy now s = ps at hspec hz
  cases hspec with
  | nobody => cases hz
  | @received p x t ds hx hphase =>
    have hds : ds.length ≤ bound p := by simpa [receivedBy, hx, hphase] using hmoderate p
    obtain ⟨hms, hmb, hw, hroom⟩ := (h p).received hs hb hx hphase hds
    rw [poller_of_mem_passings hz]
    exact hroom.passings hms hmb hw hz hfate
  | @waited p x d ds hx hphase =>
    obtain ⟨hms, hmb, hw, hroom⟩ := (h p).waited hs hb hx hphase
    rcases List.mem_cons.mp hz with rfl | hz
    -- The message with which the poller waited has a slot.
    · exact absurd hfate (fate_offerAgain_ne _ p d)
    · rw [poller_of_mem_passings hz]
      exact hroom.passings hms hmb hw hz hfate

/-- An empty hand needs no room. -/
private theorem hasRoom_of_hand (h : l.hand p = []) : l.HasRoom p (l.hand p).tail.length := by
  rw [h]
  exact hasRoom_zero l p

/-- After its turn there is room for the messages that a poller has in hand. -/
private theorem Covered.turn (h : Covered p n l) (hs : l.Sound) (hb : l.Balance none) (now : Nat)
    (ha : s.actor = .poller p) (hmoderate : (l.receivedBy p s).length ≤ n) :
    (l.after now s).HasRoom p ((l.after now s).hand p).tail.length := by
  rcases turn_after now ha with hsame | ⟨x, hx, hfits, -⟩
  · rw [hsame]
    exact h.submitting
  · obtain ⟨-, rfl⟩ := poller?_eq_some hx
    cases hfits with
    | goOn hgo =>
      cases hphase : x.phase with
      | submitting d ds =>
        obtain ⟨hms, hmb, hw, hroom⟩ := h.waited hs hb hx hphase
        have hafter : l.after now (.goOn x.id) =
            ((l.setPhase x.id .ready).offerAgain x.id d).2.dispatch now x.id ds := by
          simp [after, hx, hgo, goOn, hphase, resumeSubmit]
        rw [hafter]
        exact hroom.dispatch hms hmb hw now
      | _ =>
        -- The poller has nothing in hand.
        have hhand : x.phase.hand = [] := by rw [hphase]; rfl
        have haside : Aside l (l.after now (.goOn x.id)) := by
          refine aside_after now _ rfl (fun _ _ he => by cases he) fun r y he hy => ?_
          cases he
          rw [← Option.some.inj (hx.symm.trans hy), hhand]
        exact hasRoom_of_hand ((haside.hand x.id).trans ((hand_of_poller? hx).trans hhand))
    | @answer t hphase a =>
      have hhand : l.hand x.id = [] := by rw [hand_of_poller? hx, hphase]; rfl
      have haside : (∀ ds, a = .batch ds → ds = []) → Aside l (l.after now (.answer x.id a)) := by
        intro hnil
        refine aside_after now _ rfl (fun _ ds he => ?_) fun _ _ he => by cases he
        cases he
        exact hnil ds rfl
      cases a with
      | failed | broken => exact hasRoom_of_hand (((haside (by simp)).hand x.id).trans hhand)
      | batch ds =>
        cases ds with
        | nil => exact hasRoom_of_hand (((haside (by simp)).hand x.id).trans hhand)
        | cons d ds =>
          have hds : (d :: ds).length ≤ n := by simpa [receivedBy, hx, hphase] using hmoderate
          obtain ⟨hms, hmb, hw, hroom⟩ := h.received hs hb hx hphase hds
          have hafter : l.after now (.answer x.id (.batch (d :: ds))) =
              (l.setPhase x.id .ready).dispatch now x.id (d :: ds) := by
            simp [after, hx, hphase, takeAnswer]
          rw [hafter]
          exact hroom.dispatch hms hmb hw now

/-- A poller that waits for its receive call after its turn has asked for what is free. -/
private theorem Ends.of_receiving (h : Ends now s p l l') (hw : l.AtWork p) {y : Poller} {t : Nat}
    (hy : l'.poller? p = some y) (hphase : y.phase = .receiving t) :
    ∃ st, l.station? p.queue = some st ∧ l' = (l.setPhase p (.receiving now)).emit
      (.receive p st.slots.free (l.polling st.source st.slots.free)) := by
  obtain ⟨x, hx, hready⟩ := hw
  cases h with
  | asks hst => exact ⟨_, hst, rfl⟩
  | retired =>
    rw [poller?_retire] at hy
    cases hy
  | awaitsSlot | rests =>
    -- It waits for slots, rests or goes on at once.
    rw [park, poller?_updatePoller (fun z => by split <;> rfl), hx, Option.map_some, if_pos rfl]
      at hy
    obtain rfl := Option.some.inj hy
    split at hphase <;> cases hphase
  | submits | breaks =>
    rw [poller?_setPhase, hx, Option.map_some, if_pos rfl] at hy
    obtain rfl := Option.some.inj hy
    cases hphase
  | ready =>
    obtain rfl := Option.some.inj (hx.symm.trans hy)
    rw [hready] at hphase
    cases hphase

/-! ## Steps and runs -/

/-- Who does not act asks for nothing. -/
private theorem asked_of_ne (hs : l.Sound) (ha : s.actor ≠ .poller p) (now : Nat) :
    asked p (hist ++ [l.step now s]) = asked p hist := by
  have hnone : (l.step now s).effects.filterMap (·.asked? p) = [] := by
    refine List.filterMap_eq_nil_iff.mpr fun e he => ?_
    cases e with
    -- Whoever makes a receive call is the actor of the step.
    | receive r free request =>
      have hne : r ≠ p := fun hr => ha (actor_of_receiver hs he (hr ▸ rfl))
      exact if_neg hne
    | _ => rfl
  rw [asked_append, hnone]
  rfl

/-- Every step leaves a poller what it counts on. -/
theorem Covered.step (h : Covered p (asked p hist) l) (hs : l.Sound) (hb : l.Balance none)
    (hpolling : l.polling = .bySlots) (now : Nat) (s : Stimulus)
    (hmoderate : (l.receivedBy p s).length ≤ asked p hist) :
    Covered p (asked p (hist ++ [l.step now s])) (l.react now s).1 := by
  by_cases ha : s.actor = .poller p
  · have hcleared : Covered p (asked p hist) { l with outbox := [] } := ⟨h.receiving, h.submitting⟩
    have hcs : ({ l with outbox := [] } : Listener).Sound := hs.congr rfl rfl rfl rfl rfl
    have hcb : ({ l with outbox := [] } : Listener).Balance none := hb.congr rfl fun _ => rfl
    have heffects : (l.step now s).effects =
        (({ l with outbox := [] } : Listener).after now s).outbox.reverse := rfl
    refine ⟨fun y t hy hphase => ?_, hcleared.turn hcs hcb now ha hmoderate⟩
    have hy' : (({ l with outbox := [] } : Listener).after now s).poller? p = some y := hy
    show (({ l with outbox := [] } : Listener).after now s).HasRoom p _
    rw [asked_append, heffects]
    rcases turn_after (l := { l with outbox := [] }) now ha with hsame | ⟨x, hx, -, m, hm, hends⟩
    · -- A receive call that was out already is still out.
      rw [hsame] at hy' ⊢
      exact hcleared.receiving y t hy' hphase
    · obtain ⟨st, hst, hafter⟩ := hends.of_receiving (hm.atWork (.setPhase_ready hx)) hy' hphase
      have hask : m.polling = .bySlots := hm.polling.trans hpolling
      rw [hafter, hask]
      -- What it asks for comes last in this step.
      have hasked : (((m.setPhase p (.receiving now)).emit (.receive p st.slots.free
          (Polling.bySlots st.source st.slots.free))).outbox.reverse.filterMap
            (·.asked? p)).getLast?.getD (asked p hist) =
          min st.slots.free st.source.options.batch := by
        simp [emit, Effect.asked?, Polling.bySlots]
      rw [hasked]
      intro _ k hk
      have hfree : m.freeSlots? p.queue = some k := hk
      obtain ⟨st', hst', rfl⟩ := freeSlots?_eq_some.mp hfree
      obtain rfl := Option.some.inj (hst.symm.trans hst')
      exact Nat.min_le_left ..
  · rw [asked_of_ne hs ha]
    exact h.bystander hs hb ha now

/-- Settling a job does not change how receives are made. -/
private theorem polling_settle (l : Listener) (j : Job) : (l.settle j).polling = l.polling := by
  unfold settle
  dsimp only
  rw [releaseSlot_eq]
  rfl

/-- Nor does any move. -/
private theorem Move.polling_eq (hm : Move G a l l') : l'.polling = l.polling := by
  cases hm with
  | wentPast hw => exact ((offered ..).passes hw).polling
  | queued hw => exact (((offered ..).passes hw).polling :)
  | wentOn hx => exact (passes_offerAgain (.setPhase_ready hx) _).polling
  | forgot =>
    unfold forgetBroken
    split <;> rfl
  | _ => rfl

/-- No step changes how receive calls are made. -/
theorem polling_react (l : Listener) (now : Nat) (s : Stimulus) :
    (l.react now s).1.polling = l.polling := by
  have hafter : (({ l with outbox := [] } : Listener).after now s).polling = l.polling := by
    -- No move and no part of a job touches it.
    apply after_of_moves (P := fun m => m.polling = l.polling) now s
    · rfl
    · exact fun hm h => hm.polling_eq.trans h
    · intro hjob
      apply after_forJob_of_parts (P := fun m => m.polling = l.polling) now s hjob
      · rfl
      · exact fun h => h
      · exact fun h => h
      · exact fun h => h
      · exact fun h => h
      · exact fun {_ j} _ h => (polling_settle _ j).trans h
  exact hafter

/-- A receive call asks for all free slots. -/
private theorem request_of_receive (hs : l.Sound) (hb : l.Balance none)
    (hpolling : l.polling = .bySlots) {free : Nat} {request : ReceiveRequest}
    (he : .receive p free request ∈ (l.step now s).effects) :
    (l.step now s).after.freeSlots? p.queue = some request.limit ∧ 1 ≤ request.limit ∧
      ∃ st, l.station? p.queue = some st ∧ request.destination = st.source.destination ∧
        request.limit ≤ st.source.options.batch := by
  obtain ⟨-, x, m, st, -, -, hm, -, hst, hpos, hafter, rfl, rfl⟩ := exists_turn_of_receive hs he
  have hposts : m.posts = l.posts := hm.posts
  obtain ⟨slots, hslots⟩ := station?_of_posts hposts.symm hst
  have hstation : (l.step now s).after.station? p.queue = some st := by
    show (({ l with outbox := [] } : Listener).after now s).station? p.queue = some st
    rw [hafter]
    exact hst
  -- No more slots are free than a batch has messages.
  have hle : st.slots.free ≤ st.source.options.batch := by
    have hsum := (hb.react hs now s).sum hstation
    omega
  have hask : m.polling = .bySlots := hm.polling.trans hpolling
  have hlimit : (m.polling st.source st.slots.free).limit = st.slots.free := by
    rw [hask]
    exact Nat.min_eq_left hle
  rw [hlimit]
  refine ⟨freeSlots?_eq_some.mpr ⟨st, hstation, rfl⟩, hpos, _, hslots, ?_, hle⟩
  rw [hask]
  rfl

/-- Who is not there receives nothing. -/
private theorem receivedBy_of_none (h : l.poller? p = none) (s : Stimulus) : l.receivedBy p s =
    [] := by
  rw [List.eq_nil_iff_forall_not_mem]
  intro d hd
  obtain ⟨ds, rfl, -⟩ := eq_answer_of_mem_receivedBy hd
  simp [receivedBy, h] at hd

/-- In a run in which nobody receives too much, the free slots suffice for what the pollers count
    on, and no poller that is current leaves a message for want of a slot. -/
theorem covered_run (hs : l.Sound) (hb : l.Balance none) (hpolling : l.polling = .bySlots)
    (hnone : l.pollers = []) (xs : List (Nat × Stimulus)) (hmoderate : Moderate (l.steps xs)) :
    (∀ p, Covered p (asked p (l.steps xs)) (l.run xs)) ∧
      ∀ z ∈ passed (l.steps xs), z.fate = .noSlot → z.before.isCurrent z.poller = false := by
  -- Along the run: sound and in balance, each poller is covered for what it may receive.
  have hrun : (l.run xs).Sound ∧ (l.run xs).Balance none ∧ (l.run xs).polling = .bySlots ∧
      (Moderate (l.steps xs) → (∀ p, Covered p (asked p (l.steps xs)) (l.run xs)) ∧
        ∀ z ∈ passed (l.steps xs), z.fate = .noSlot → z.before.isCurrent z.poller = false) := by
    apply run_keeps (P := fun hist m => m.Sound ∧ m.Balance none ∧ m.polling = .bySlots ∧
      (Moderate hist → (∀ p, Covered p (asked p hist) m) ∧
        ∀ z ∈ passed hist, z.fate = .noSlot → z.before.isCurrent z.poller = false))
    · refine ⟨hs, hb, hpolling, fun _ => ⟨fun p => ⟨fun x t hx => ?_, hasRoom_of_hand ?_⟩,
        fun z hz => by cases hz⟩⟩
      · simp [poller?, hnone] at hx
      · simp [hand, poller?, hnone]
    · rintro hist m now s ⟨hms, hmb, hmp, hm⟩
      refine ⟨hms.react now s, hmb.react hms now s, (polling_react m now s).trans hmp,
        fun hmoderate => ?_⟩
      -- What is received in this step is covered by what was asked for.
      obtain ⟨hbefore, hlast⟩ := hmoderate.of_append
      obtain ⟨hcovered, hleft⟩ := hm hbefore
      have hreceived : ∀ p, (m.receivedBy p s).length ≤ asked p hist := by
        intro p
        cases hy : m.poller? p with
        | none =>
          rw [receivedBy_of_none hy]
          exact Nat.zero_le _
        | some y =>
          obtain ⟨hmem, rfl⟩ := poller?_eq_some hy
          exact hlast y hmem
      refine ⟨fun p => (hcovered p).step hms hmb hmp now s (hreceived p), fun z hz => ?_⟩
      rw [passed, List.flatMap_append] at hz
      rcases List.mem_append.mp hz with hz | hz
      · exact hleft z hz
      · have hcleared : ∀ p, Covered p (asked p hist) { m with outbox := [] } :=
          fun p => ⟨(hcovered p).receiving, (hcovered p).submitting⟩
        have hpassed : z ∈ (m.step now s).passings := by simpa using hz
        exact left_of_covered hcleared (hms.congr rfl rfl rfl rfl rfl) (hmb.congr rfl fun _ => rfl)
          hreceived hpassed
  exact hrun.2.2.2 hmoderate

section Build

variable {σ : Type} (k : Lookup σ) (settings : ListenerSettings) (handler : String)
  (rs : List Registration) (t : σ)

/-- In every run of every listener that asks by free slots, a receive call asks for as many
    messages as slots of the queue are free when it is made, which are one at least and a batch
    at most.  If no poller ever receives more than it asked for, only a poller whose epoch is
    over leaves a message for want of a slot. -/
theorem measured_run (xs : List (Nat × Stimulus)) :
    let b := (build k settings .bySlots handler rs t).1
    (∀ x ∈ b.steps xs, ∀ p free request, .receive p free request ∈ x.effects →
      x.after.freeSlots? p.queue = some request.limit ∧ 1 ≤ request.limit ∧
        ∃ st, b.station? p.queue = some st ∧ request.destination = st.source.destination ∧
          request.limit ≤ st.source.options.batch) ∧
    (Moderate (b.steps xs) → ∀ z ∈ passed (b.steps xs), z.fate = .noSlot →
      z.before.isCurrent z.poller = false) := by
  intro b
  have hsound : b.Sound := sound_build k settings .bySlots handler rs t
  have hbalance : b.Balance none := balance_build k settings .bySlots handler rs t
  constructor
  · -- The request of a step is made of the free slots; the posts stay those of the beginning.
    intro x hx p free request he
    obtain ⟨ys, now, s, -, rfl, -⟩ := exists_run_of_mem_steps hx
    have hpolling : (b.run ys).polling = .bySlots :=
      run_keeps (P := fun _ m => m.polling = .bySlots) rfl
        (fun _ m now s hm => (polling_react m now s).trans hm) ys
    obtain ⟨hfree, hpos, st, hst, hdest, hle⟩ :=
      request_of_receive (sound_run hsound ys) (balance_run hsound hbalance ys) hpolling he
    obtain ⟨slots, hslots⟩ := station?_of_posts (posts_run b ys).symm hst
    exact ⟨hfree, hpos, _, hslots, hdest, hle⟩
  · intro hmoderate
    exact (covered_run hsound hbalance rfl rfl xs hmoderate).2

/-- A queue of two slots is stopped while its poller waits for messages, and started again.  Both
    pollers ask for two messages and receive them; the one of the first epoch comes late and finds
    no slot. -/
theorem measured_run_restarted :
    let b := (build Lookup.verbatim .standard .bySlots "h"
      [⟨"q", { QueueOptions.standard with batch := 2 }, none⟩] ()).1
    let d : Delivery := ⟨none, "r", "x", .empty, .empty⟩
    let hist := b.steps [(0, .start 0 "q"), (0, .goOn ⟨"q", 1⟩), (1, .stop 1 "q"),
      (10001, .proceed 1), (10001, .start 2 "q"), (10001, .goOn ⟨"q", 2⟩),
      (10002, .answer ⟨"q", 2⟩ (.batch [d, d])), (10003, .answer ⟨"q", 1⟩ (.batch [d, d]))]
    Moderate hist ∧ (passed hist).map (·.fate) = [.taken 0, .taken 1, .noSlot, .noSlot] ∧
      ∀ z ∈ passed hist, z.fate = .noSlot → z.before.isCurrent z.poller = false :=
  ⟨by decide, by decide, (measured_run Lookup.verbatim .standard "h"
    [⟨"q", { QueueOptions.standard with batch := 2 }, none⟩] () _).2 (by decide)⟩

end Build

end Listener

end Intake
