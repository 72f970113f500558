import Intake.Proofs.Listener.Passing

/-!
# What a stimulus does to the messages

A stimulus lets a poller go past messages, or it turns the work on one message that the
workers have taken.  `Reacts` says which, with all that follows for the messages in hand,
the jobs and what is wanted; whoever wants to know what a step can do asks `reacts`.

- `Turns`: which stimulus turns the work on a message to which phase, and what is wanted
- `Turned`: what is different when the work has turned
- `reacts`: every stimulus does the one or the other
-/

namespace Intake

/-- What happens to a message that the workers have taken. -/
inductive Milestone
  | invoked (handler : String) (letter : Letter)
  | ended (r : HandlerResult)
  | deleting (destination receipt : String)
  | deleted (r : Except BrokerError Unit)
  | settled

/-- Whether a message is deleted when its handler has ended in this way. -/
def Source.deletes (s : Source) (r : HandlerResult) : Bool :=
  s.options.policy.deletes r.outcome s.redrive

namespace Listener

variable {l l' : Listener} {p : PollerId} {n : Nat} {j : Job} {now : Nat}

/-- What a job learns from a stimulus that fits its phase. -/
def learned? (n : Nat) (s : Stimulus) (l : Listener) : Option Milestone :=
  match s with
  | .endJob m r => if m = n ∧ (l.job? m).any (·.phase = .handling) then some (.ended r) else none
  | .deleted m r =>
    if m = n ∧ (l.job? m).any (·.phase = .deleting) then some (.deleted r) else none
  | _ => none

/-! ## Jobs by their numbers -/

/-- A job is found by its number. -/
theorem job?_of_mem (hs : l.Sound) (hj : j ∈ l.jobs) : l.job? j.number = some j :=
  List.find?_key (fun i : Job => i.number) hs.numbers_nodup hj

/-- The jobs grow by those that the passings became. -/
theorem Grown.mem_jobs {ps : List Passing} (h : Grown l ps l') :
    j ∈ l'.jobs ↔ j ∈ l.jobs ∨ j ∈ ps.filterMap (·.job?) := by
  rw [h.jobs, List.mem_append]

/-- The new jobs have numbers that were not given before. -/
theorem Grown.le_number {ps : List Passing} (h : Grown l ps l')
    (hj : j ∈ ps.filterMap (·.job?)) : l.accepted ≤ j.number := by
  have hmem := List.mem_map_of_mem (f := Job.number) hj
  rw [h.numbers] at hmem
  exact (List.mem_range'_1.mp hmem).1

/-- The numbers given out before keep their jobs. -/
theorem Grown.job?_of_lt {ps : List Passing} (h : Grown l ps l') (hn : n < l.accepted) :
    l'.job? n = l.job? n := by
  -- The new jobs come later in the order of numbers.
  have hnew : (ps.filterMap (·.job?)).find? (·.number = n) = none := by
    refine List.find?_eq_none.mpr fun j hj => ?_
    have hle := h.le_number hj
    simp only [decide_eq_true_eq]
    omega
  rw [job?, h.jobs, List.find?_append, hnew, Option.or_none, job?]

/-- A new job has not begun. -/
theorem phase_of_mem_filterMap {ps : List Passing} (hj : j ∈ ps.filterMap (·.job?)) :
    j.phase = .accepted := by
  obtain ⟨x, -, hx⟩ := List.mem_filterMap.mp hj
  exact (Passing.job?_eq_some_iff.mp hx).2.2.2

/-- Setting a phase changes one job. -/
private theorem job?_setJobPhase (l : Listener) (n : Nat) (ph : JobPhase) (m : Nat) :
    (l.setJobPhase n ph).job? m =
      (l.job? m).map fun j => if n = m then { j with phase := ph } else j :=
  List.find?_change Job.number (f := fun j => { j with phase := ph }) (fun _ => rfl)
    l.jobs m

/-- Settling takes one job away. -/
private theorem job?_settle (l : Listener) (j : Job) (m : Nat) :
    (l.settle j).job? m = if j.number = m then none else l.job? m := by
  rw [job?, jobs_settle]
  exact List.find?_remove l.jobs j.number m

/-- It changes no hand. -/
private theorem hand_settle (l : Listener) (j : Job) (r : PollerId) :
    (l.settle j).hand r = l.hand r :=
  hand_releaseSlot { l with jobs := l.jobs.filter (·.number ≠ j.number) } j.queue r

/-! ## The work on a message -/

/-- The work on a message turns to another phase, or is over; something may be wanted for it,
    and things that are for no job. -/
structure Turned (l : Listener) (j : Job) (own : Option Effect) (o : Option JobPhase)
    (l' : Listener) : Prop where
  job? : ∀ m, l'.job? m = if j.number = m then o.map ({ j with phase := · }) else l.job? m
  mem_jobs : ∀ i ∈ l'.jobs, ∃ k ∈ l.jobs, { i with phase := .accepted } = { k with phase := .accepted }
  accepted : l'.accepted = l.accepted
  hand : ∀ r, l'.hand r = l.hand r
  outbox : ∃ es, l'.outbox = own.toList ++ es ++ l.outbox ∧ ∀ e ∈ es, e.job? = none

/-- By setting its phase a job turns to it. -/
private theorem Turned.setJobPhase (hj : l.job? j.number = some j) (ph : JobPhase) :
    Turned l j none (some ph) (l.setJobPhase j.number ph) := by
  refine ⟨fun m => ?_, fun i hi => ?_, rfl, fun _ => rfl, [], rfl, by simp⟩
  · -- The job itself has the new phase, and no other job is touched.
    rw [job?_setJobPhase]
    by_cases hm : j.number = m
    · subst hm
      simp [hj]
    · simp [hm]
  · obtain ⟨k, hk, rfl⟩ := List.mem_map.mp hi
    refine ⟨k, hk, ?_⟩
    split <;> rfl

/-- By settling it a job turns to its end. -/
private theorem Turned.settle (l : Listener) (j : Job) : Turned l j none none (l.settle j) := by
  -- A job is settled by taking it out, giving its slot back and freeing its worker.
  have heq : l.settle j = { ({ l with jobs := l.jobs.filter (·.number ≠ j.number) } :
      Listener).releaseSlot j.queue with workers := (l.settle j).workers } := rfl
  refine ⟨fun m => job?_settle l j m, fun i hi => ⟨i, ?_, rfl⟩, ?_, hand_settle l j, [], ?_,
    by simp⟩
  · rw [heq] at hi
    simp only [releaseSlot_jobs] at hi
    exact List.mem_of_mem_filter hi
  · rw [heq]
    simp
  · rw [heq]
    simp

/-- What is wanted for the job comes last. -/
private theorem Turned.emit {o : Option JobPhase} (h : Turned l j none o l') (e : Effect) :
    Turned l j (some e) o (l'.emit e) := by
  obtain ⟨es, hout, hes⟩ := h.outbox
  exact ⟨h.job?, h.mem_jobs, h.accepted, h.hand, es, congrArg (e :: ·) hout, hes⟩

/-- A notice may come first. -/
private theorem Turned.report {own : Option Effect} {o : Option JobPhase} (notice : Notice)
    (h : Turned (l.report notice) j own o l') : Turned l j own o l' := by
  -- The notice goes out ahead of what else the reaction sends.
  obtain ⟨es, hout, hes⟩ := h.outbox
  refine ⟨h.job?, h.mem_jobs, h.accepted, h.hand, es ++ [.report notice], ?_, fun e he => ?_⟩
  · simpa [Listener.report, Listener.emit] using hout
  · rcases List.mem_append.mp he with he | he
    · exact hes e he
    · rw [List.mem_singleton.mp he]
      rfl

/-- What is wanted for a job is what it wants when its work turns. -/
theorem Turned.own_eq {own : Option Effect} {o : Option JobPhase} (h : Turned l j own o l')
    (hl : l.outbox = []) {e : Effect} (he : e ∈ l'.outbox) (hn : e.job? = some n) :
    own = some e := by
  obtain ⟨es, hout, hes⟩ := h.outbox
  rw [hout, hl, List.append_nil] at he
  rcases List.mem_append.mp he with he | he
  · exact Option.mem_toList.mp he
  -- The other things that are wanted are for no job.
  · rw [hes e he] at hn
    cases hn

/-- Which stimulus turns the work on a message, what is wanted for it then, and to which phase
    it turns; without a phase the work is over. -/
inductive Turns (l : Listener) (j : Job) : Stimulus → Option Effect → Option JobPhase → Prop
  /-- The handler is called. -/
  | began {s : Station} (hs : l.station? j.queue = some s) (hphase : j.phase = .accepted) :
    Turns l j (.beginJob j.number)
      (some (.invoke j.number s.handler (s.source.letter j.delivery))) (some .handling)
  /-- The handler has ended, and the message is deleted. -/
  | deleting {s : Station} {r : HandlerResult} (hs : l.station? j.queue = some s)
    (hphase : j.phase = .handling) (hr : s.source.deletes r = true) :
    Turns l j (.endJob j.number r)
      (some (.delete j.number s.source.destination j.delivery.receipt)) (some .deleting)
  /-- The handler has ended, and the message is not deleted. -/
  | kept {s : Station} {r : HandlerResult} (hs : l.station? j.queue = some s)
    (hphase : j.phase = .handling) (hr : s.source.deletes r = false) :
    Turns l j (.endJob j.number r) none none
  /-- The deletion has ended. -/
  | gone {r : Except BrokerError Unit} (hphase : j.phase = .deleting) :
    Turns l j (.deleted j.number r) none none

section Turns

variable {s : Stimulus} {own : Option Effect} {o : Option JobPhase}

/-- A turn of a job is by a stimulus of the job. -/
theorem Turns.job? (h : Turns l j s own o) : s.job? = some j.number := by
  cases h <;> rfl

/-- What is wanted when the work on a message turns is wanted for its job. -/
theorem Turns.own_job? (h : Turns l j s own o) {e : Effect} (he : own = some e) :
    e.job? = some j.number := by
  cases h with
  | began | deleting => cases he; rfl
  | kept | gone => cases he

/-- A job learns only of itself. -/
theorem Turns.learned?_of_ne (h : Turns l j s own o) {m : Nat} (hm : m ≠ j.number) :
    l.learned? m s = none := by
  cases h with
  | began => rfl
  | deleting | kept | gone => simp [learned?, Ne.symm hm]

/-- A job that begins invokes its handler. -/
theorem turned_beginJob {st : Station} (hs : l.station? j.queue = some st)
    (hj : l.job? j.number = some j) :
    Turned l j (some (.invoke j.number st.handler (st.source.letter j.delivery)))
      (some .handling) (l.beginJob j) := by
  unfold beginJob
  rw [hs]
  exact (Turned.setJobPhase hj .handling).emit _

/-- A job that ends asks for a deletion or is settled. -/
theorem turned_endJob {st : Station} (hs : l.station? j.queue = some st)
    (hj : l.job? j.number = some j) (hphase : j.phase = .handling) (r : HandlerResult) :
    ∃ own o, Turns l j (.endJob j.number r) own o ∧ Turned l j own o (l.endJob j r) := by
  have hjob : ∀ notice, (l.report notice).job? j.number = some j := fun _ => hj
  unfold endJob
  rw [hs]
  dsimp only
  split
  -- A notice about a failure comes before what is wanted for the job.
  next hr =>
    refine ⟨_, _, .deleting hs hphase hr, ?_⟩
    cases r.failure? with
    | none => exact (Turned.setJobPhase hj .deleting).emit _
    | some cause => exact ((Turned.setJobPhase (hjob _) .deleting).emit _).report
  next hr =>
    refine ⟨_, _, .kept hs hphase (by simpa [Source.deletes] using hr), ?_⟩
    cases r.failure? with
    | none => exact .settle l j
    | some cause => exact (Turned.settle _ j).report

/-- The end of its deletion settles it. -/
theorem turned_finishDelete (l : Listener) (j : Job) (r : Except BrokerError Unit) :
    Turned l j none none (l.finishDelete j r) := by
  unfold finishDelete
  cases r with
  | ok => exact .settle l j
  | error => exact (Turned.settle _ j).report

end Turns

/-! ## Messages that are handed on -/

/-- From one state to another a poller may have gone past messages.  What the pollers had in
    hand and received they have gone past or have in hand. -/
structure Handed (now : Nat) (s : Stimulus) (l l' : Listener) : Prop where
  grown : Grown l (l.passedBy now s) l'
  hand : ∀ r, l.hand r ++ l.receivedBy r s =
    ((l.passedBy now s).filter (·.poller = r)).map (·.delivery) ++ l'.hand r
  learned : ∀ n, l.learned? n s = none

/-- A stimulus at which no poller goes past a message. -/
private theorem Handed.aside {s : Stimulus} (ha : Aside l l') (hp : l.passedBy now s = [])
    (hr : ∀ r, l.receivedBy r s = []) (hn : ∀ n, l.learned? n s = none) : Handed now s l l' :=
  ⟨hp ▸ ha.grown, fun r => by rw [hp, hr r, ha.hand r, List.append_nil]; rfl, hn⟩

/-- The messages of a batch that a poller goes past are all its own. -/
private theorem filter_passings (p r : PollerId) (ds : List Delivery) (l : Listener) :
    (l.passings p ds).filter (·.poller = r) = if p = r then l.passings p ds else [] := by
  split
  next hp => exact List.filter_eq_self.mpr fun x hx => by simp [poller_of_mem_passings hx, hp]
  next hp => exact List.filter_eq_nil_iff.mpr fun x hx => by simp [poller_of_mem_passings hx, hp]

/-- A poller hands on what it receives. -/
private theorem Handed.answered {x : Poller} {since : Nat} {ds : List Delivery}
    (hx : l.poller? p = some x) (hphase : x.phase = .receiving since) :
    Handed now (.answer p (.batch ds)) l ((l.setPhase p .ready).dispatch now p ds) := by
  have hw : (l.setPhase p .ready).AtWork p := .setPhase_ready hx
  refine ⟨?_, fun r => ?_, fun _ => rfl⟩
  -- Being at work again is no growth; the batch is handed on from there.
  · have hready : Grown l [] (l.setPhase p .ready) := .still rfl rfl [] rfl (by simp)
    simp only [passedBy, hx, hphase]
    exact hready.trans (grown_dispatch now hw)
  · simp only [passedBy, receivedBy, hx, hphase]
    rw [filter_passings, hand_dispatch now hw, hand_setPhase hx]
    by_cases hp : p = r
    -- The poller that received had nothing in hand; the others keep what they have.
    · subst hp
      have hnil : l.hand p = [] := by rw [hand_of_poller? hx, hphase]; rfl
      simp only [if_true, hnil, List.nil_append, map_delivery_passings]
    · simp [hp]

/-- A poller that waited for a worker goes on with what it has in hand. -/
theorem Handed.resumed {x : Poller} {d : Delivery} {ds : List Delivery}
    (hx : l.poller? p = some x) (hphase : x.phase = .submitting d ds) (hc : l.canGoOn now x) :
    Handed now (.goOn p) l ((l.setPhase p .ready).resumeSubmit now p d ds) := by
  have hw : (l.setPhase p .ready).AtWork p := .setPhase_ready hx
  refine ⟨?_, fun r => ?_, fun _ => rfl⟩
  · have hready : Grown l [] (l.setPhase p .ready) := .still rfl rfl [] rfl (by simp)
    simp only [passedBy, hx, hphase, hc, if_true]
    exact hready.trans ((grown_offerAgain _ p d).trans (grown_dispatch now hw.offerAgain))
  · simp only [passedBy, receivedBy, hx, hphase, hc, if_true, List.append_nil]
    rw [List.filter_cons, filter_passings, resumeSubmit, hand_dispatch now hw.offerAgain,
      hand_offerAgain, hand_setPhase hx]
    by_cases hp : p = r
    -- What it had in hand is the message with which it waited and the rest.
    · subst hp
      have hcons : l.hand p = d :: ds := by rw [hand_of_poller? hx, hphase]; rfl
      simp [hcons, map_delivery_passings]
    · simp [hp]

/-! ## What a stimulus does -/

/-- What a stimulus does to the messages. -/
inductive Reacts (now : Nat) (l : Listener) (s : Stimulus) (l' : Listener) : Prop
  | handed (h : Handed now s l l')
  | turned {j : Job} {own : Option Effect} {o : Option JobPhase}
    (hj : l.job? j.number = some j) (hs : Turns l j s own o) (h : Turned l j own o l')

/-- A stimulus that does not fit the state changes nothing. -/
private theorem Reacts.unfit {s : Stimulus} (h : l.after now s = l)
    (hp : l.passedBy now s = []) (hr : ∀ r, l.receivedBy r s = [])
    (hn : ∀ n, l.learned? n s = none) : Reacts now l s (l.after now s) :=
  .handed (.aside (h.symm ▸ Aside.refl l) hp hr hn)

/-- A stimulus that hands on no message happens aside. -/
theorem aside_after (now : Nat) (s : Stimulus) (hs : s.job? = none)
    (ha : ∀ p ds, s = .answer p (.batch ds) → ds = [])
    (hd : ∀ p x, s = .goOn p → l.poller? p = some x → x.phase.hand = []) :
    Aside l (l.after now s) := by
  refine (moves_after now s hs (fun p ds he d hmem => ?_) fun p x he hx d hmem => ?_).aside
  · rw [ha p ds he] at hmem
    cases hmem
  · rw [hd p x he hx] at hmem
    cases hmem

/-- Going on, a poller hands on the message it waits with and those after it, or makes a round. -/
private theorem reacts_goOn (now : Nat) (p : PollerId) (l : Listener) :
    Reacts now l (.goOn p) (l.after now (.goOn p)) := by
  cases hx : l.poller? p with
  | none =>
    exact .unfit (by simp [after, hx]) (by simp [passedBy, hx]) (fun _ => rfl) fun _ => rfl
  | some x =>
    by_cases hc : l.canGoOn now x
    · cases hphase : x.phase with
      | submitting d ds =>
        have hafter : l.after now (.goOn p) =
            (l.setPhase p .ready).resumeSubmit now x.id d ds := by
          simp [after, hx, hc, goOn, hphase]
        rw [hafter, (poller?_eq_some hx).2]
        exact .handed (.resumed hx hphase hc)
      | _ =>
        -- The poller has no message in hand.
        refine .handed (.aside (aside_after now _ rfl (by simp) fun r y he hy => ?_)
          (by simp [passedBy, hx, hphase]) (fun _ => rfl) fun _ => rfl)
        cases he
        obtain rfl := Option.some.inj (hx.symm.trans hy)
        rw [hphase]
        rfl
    · refine .unfit (by simp [after, hx, hc]) ?_ (fun _ => rfl) fun _ => rfl
      cases hphase : x.phase <;> simp [passedBy, hx, hphase, hc]

/-- A batch received is handed on. -/
private theorem reacts_batch (now : Nat) (p : PollerId) (ds : List Delivery) (l : Listener) :
    Reacts now l (.answer p (.batch ds)) (l.after now (.answer p (.batch ds))) := by
  cases hx : l.poller? p with
  | none =>
    exact .unfit (by simp [after, hx]) (by simp [passedBy, hx]) (by simp [receivedBy, hx])
      fun _ => rfl
  | some x =>
    cases hphase : x.phase with
    | receiving since =>
      cases ds with
      -- After an empty batch the poller rests or goes on.
      | nil =>
        exact .handed (.aside (aside_after now _ rfl (by simp) (by simp))
          (by simp [passedBy, hx, hphase, passings]) (by simp [receivedBy, hx, hphase])
          fun _ => rfl)
      | cons d ds =>
        have hafter : l.after now (.answer p (.batch (d :: ds))) =
            (l.setPhase p .ready).dispatch now p (d :: ds) := by
          simp [after, hx, hphase, takeAnswer]
        rw [hafter]
        exact .handed (.answered hx hphase)
    | _ =>
      exact .unfit (by simp [after, hx, hphase]) (by simp [passedBy, hx, hphase])
        (by simp [receivedBy, hx, hphase]) fun _ => rfl

/-- The beginning of a job is a turn of it, or nothing. -/
private theorem reacts_beginJob (now n : Nat) (l : Listener) :
    Reacts now l (.beginJob n) (l.after now (.beginJob n)) := by
  -- A job that is there and accepted begins; otherwise nothing happens.
  cases hj : l.job? n with
  | none => exact .unfit (by simp [after, hj]) rfl (fun _ => rfl) fun _ => rfl
  | some j =>
    obtain ⟨-, rfl⟩ := job?_eq_some hj
    by_cases hphase : j.phase = .accepted
    · cases hs : l.station? j.queue with
      | none =>
        exact .unfit (by simp [after, hj, hphase, beginJob, hs]) rfl (fun _ => rfl) fun _ => rfl
      | some st =>
        have hafter : l.after now (.beginJob j.number) = l.beginJob j := by
          simp [after, hj, hphase]
        exact hafter ▸ .turned hj (.began hs hphase) (turned_beginJob hs hj)
    · exact .unfit (by simp [after, hj, hphase]) rfl (fun _ => rfl) fun _ => rfl

/-- So is its end. -/
private theorem reacts_endJob (hs : l.Sound) (now n : Nat) (r : HandlerResult) :
    Reacts now l (.endJob n r) (l.after now (.endJob n r)) := by
  cases hj : l.job? n with
  | none => exact .unfit (by simp [after, hj]) rfl (fun _ => rfl) (by simp [learned?, hj])
  | some j =>
    obtain ⟨hmem, rfl⟩ := job?_eq_some hj
    by_cases hphase : j.phase = .handling
    -- The queue of a job is registered, so its policy can decide.
    · obtain ⟨st, hst⟩ := Option.isSome_iff_exists.mp (isSome_station?.mpr (hs.job_known j hmem))
      have hafter : l.after now (.endJob j.number r) = l.endJob j r := by
        simp [after, hj, hphase]
      obtain ⟨own, o, hturns, hturned⟩ := turned_endJob hst hj hphase r
      exact hafter ▸ .turned hj hturns hturned
    · exact .unfit (by simp [after, hj, hphase]) rfl (fun _ => rfl)
        (by simp [learned?, hj, hphase])

/-- So is the end of its deletion. -/
private theorem reacts_deleted (now n : Nat) (r : Except BrokerError Unit) (l : Listener) :
    Reacts now l (.deleted n r) (l.after now (.deleted n r)) := by
  -- A job whose deletion is out ends with it; otherwise nothing happens.
  cases hj : l.job? n with
  | none => exact .unfit (by simp [after, hj]) rfl (fun _ => rfl) (by simp [learned?, hj])
  | some j =>
    obtain ⟨-, rfl⟩ := job?_eq_some hj
    by_cases hphase : j.phase = .deleting
    · have hafter : l.after now (.deleted j.number r) = l.finishDelete j r := by
        simp [after, hj, hphase]
      exact hafter ▸ .turned hj (.gone hphase) (turned_finishDelete l j r)
    · exact .unfit (by simp [after, hj, hphase]) rfl (fun _ => rfl)
        (by simp [learned?, hj, hphase])

/-- Each stimulus turns a job, or hands on messages, or does neither. -/
theorem reacts (hs : l.Sound) (now : Nat) (s : Stimulus) : Reacts now l s (l.after now s) := by
  -- By the stimulus; calls and failed receives touch no job and no message.
  cases s with
  | goOn p => exact reacts_goOn now p l
  | answer p a =>
    cases a with
    | batch ds => exact reacts_batch now p ds l
    | failed | broken =>
      exact .handed (.aside (aside_after now _ rfl (by simp) (by simp)) rfl (fun _ => rfl)
        fun _ => rfl)
  | beginJob n => exact reacts_beginJob now n l
  | endJob n r => exact reacts_endJob hs now n r
  | deleted n r => exact reacts_deleted now n r l
  | _ =>
    exact .handed (.aside (aside_after now _ rfl (by simp) (by simp)) rfl (fun _ => rfl)
      fun _ => rfl)

/-- What the reaction to a stimulus does, from a state in which nothing is wanted yet. -/
theorem reacts_react (hs : l.Sound) (now : Nat) (s : Stimulus) :
    Reacts now { l with outbox := [] } s (({ l with outbox := [] } : Listener).after now s) :=
  reacts (hs.congr rfl rfl rfl rfl rfl : ({ l with outbox := [] } : Listener).Sound) now s

end Listener

end Intake
