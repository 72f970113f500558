import Intake.Proofs.Listener.Course

/-!
# A message is deleted after its handler, as its policy says

- `Deletes`: what holds of the deletions of a run
- `deletes_run`: it holds of every run of every listener that was built
-/

namespace Intake

namespace HandlerResult

/-- Whatever is not a success is a failure. -/
theorem outcome_eq (r : HandlerResult) : r.outcome = if r = ok then .success else .failure := by
  cases r <;> rfl

end HandlerResult

/-- The deletion of a job's message, as its destination and receipt. -/
def Effect.deletion? (n : Nat) : Effect → Option (String × String)
  | .delete m dest receipt => if m = n then some (dest, receipt) else none
  | _ => none

/-- How the handler of a job ends. -/
def Step.end? (n : Nat) (x : Step) : Option HandlerResult :=
  match x.stimulus with
  | .endJob m r =>
    if m = n ∧ (x.before.job? m).any (·.phase = .handling) then some r else none
  | _ => none

/-- The deletions of a job's message that were wanted, in order. -/
def deletions (n : Nat) (hist : List Step) : List (String × String) :=
  hist.flatMap fun x => x.effects.filterMap (·.deletion? n)

/-- The ends of a job's handler, in order. -/
def ends (n : Nat) (hist : List Step) : List HandlerResult := hist.filterMap (·.end? n)

/-- The deletions of a run of a listener `b` come after the handlers, as the policies say. -/
structure Deletes (b : Listener) (hist : List Step) : Prop where
  /-- A message is deleted in a step in which its handler ends, after the step in which its
      handler was called, under its own receipt and at the destination of its queue. -/
  after_end : ∀ before x later, hist = before ++ x :: later → ∀ n dest receipt,
    .delete n dest receipt ∈ x.effects → ∃ j ∈ works before, ∃ st r,
      j.number = n ∧ b.station? j.queue = some st ∧ x.end? n = some r ∧
      (∃ y ∈ before, .invoke n st.handler (st.source.letter j.delivery) ∈ y.effects) ∧
      dest = st.source.destination ∧ receipt = j.delivery.receipt
  /-- A message whose handler has not ended is not deleted.  A handler ends once, and then its
      message is deleted once if the policy decides so, however the deletion goes, and never
      otherwise. -/
  as_decided : ∀ j ∈ works hist, ∃ st, b.station? j.queue = some st ∧
    (ends j.number hist = [] ∧ deletions j.number hist = [] ∨
      ∃ r, ends j.number hist = [r] ∧ deletions j.number hist =
        if st.source.options.policy.deletes (if r = .ok then .success else .failure)
            st.source.redrive
          then [(st.source.destination, j.delivery.receipt)] else [])
  /-- Under the policy `never` no message is deleted. -/
  never : ∀ j ∈ works hist, ∀ st, b.station? j.queue = some st →
    st.source.options.policy = .never → deletions j.number hist = []
  /-- A handler can delete what it is called with exactly under the policy `never`, and just
      this delivery. -/
  acknowledged : ∀ x ∈ hist, ∀ n handler letter, .invoke n handler letter ∈ x.effects →
    ∃ j ∈ works hist, ∃ st, j.number = n ∧ b.station? j.queue = some st ∧
      letter.acknowledgment = if st.source.options.policy = .never
        then some ⟨j.queue, st.source.destination, j.delivery.receipt⟩ else none
  /-- The messages under these numbers are different ones, each received by a poller of its
      queue. -/
  numbers : ((works hist).map (·.number)).Nodup
  received : ∀ j ∈ works hist, ∃ p : PollerId, p.queue = j.queue ∧ j.delivery ∈ received p hist

/-! ## Deletions and ends as milestones -/

/-- The deletion that a milestone stands for. -/
def Milestone.deletion? : Milestone → Option (String × String)
  | .deleting dest receipt => some (dest, receipt)
  | _ => none

/-- The end of a handler that a milestone stands for. -/
def Milestone.end? : Milestone → Option HandlerResult
  | .ended r => some r
  | _ => none

/-- The deletions among the milestones of a step are those asked for by it. -/
private theorem Step.filterMap_milestones_deletion? (n : Nat) (x : Step) :
    (x.milestones n).filterMap (·.deletion?) = x.effects.filterMap (·.deletion? n) := by
  have hlearned : (x.before.learned? n x.stimulus).toList.filterMap (·.deletion?) = [] := by
    unfold Listener.learned?
    cases x.stimulus with
    | endJob | deleted =>
      dsimp only
      split <;> rfl
    | _ => rfl
  have hsettled : (if (x.before.job? n).isSome && (x.after.job? n).isNone then
      [Milestone.settled] else []).filterMap (·.deletion?) = [] := by
    split <;> rfl
  -- What is left are the effects, read as milestones first and as deletions then.
  rw [milestones, List.filterMap_append, List.filterMap_append, hlearned, hsettled,
    List.append_nil, List.nil_append, List.filterMap_filterMap]
  congr 1
  funext e
  cases e with
  | invoke m | delete m =>
    by_cases hm : m = n <;> simp [Effect.milestone?, Effect.deletion?, Milestone.deletion?, hm]
  | _ => rfl

/-- The ends among them are those that the job learns. -/
private theorem Step.filterMap_milestones_end? (n : Nat) (x : Step) :
    (x.milestones n).filterMap (·.end?) = (x.end? n).toList := by
  -- Neither the effects nor the settling tell an end.
  have heffects : (x.effects.filterMap (·.milestone? n)).filterMap (·.end?) = [] := by
    rw [List.filterMap_filterMap]
    refine List.filterMap_eq_nil_iff.mpr fun e _ => ?_
    cases e with
    | invoke m | delete m => by_cases hm : m = n <;> simp [Effect.milestone?, Milestone.end?, hm]
    | _ => rfl
  have hsettled : (if (x.before.job? n).isSome && (x.after.job? n).isNone then
      [Milestone.settled] else []).filterMap (·.end?) = [] := by
    split <;> rfl
  rw [milestones, List.filterMap_append, List.filterMap_append, heffects, hsettled,
    List.append_nil, List.append_nil]
  unfold Listener.learned? end?
  cases x.stimulus with
  | endJob m r =>
    dsimp only
    split <;> rfl
  | deleted m r =>
    dsimp only
    split <;> rfl
  | _ => rfl

/-- The deletions of a history are among its milestones. -/
private theorem deletions_eq (n : Nat) (hist : List Step) :
    deletions n hist = (milestones n hist).filterMap (·.deletion?) := by
  rw [deletions, milestones, List.filterMap_flatMap]
  simp only [Step.filterMap_milestones_deletion?]

/-- So are the ends. -/
private theorem ends_eq (n : Nat) (hist : List Step) :
    ends n hist = (milestones n hist).filterMap (·.end?) := by
  rw [ends, milestones, List.filterMap_flatMap, List.filterMap_eq_flatMap_toList]
  simp only [Step.filterMap_milestones_end?]

/-! ## Deletions in runs -/

namespace Listener

variable {l b : Listener} {hist : List Step} {j : Job} {n : Nat}

/-- A handler whose call is a milestone was called in a step. -/
private theorem invoke_of_mem_milestones {handler : String} {letter : Letter}
    (h : .invoked handler letter ∈ milestones n hist) :
    ∃ y ∈ hist, .invoke n handler letter ∈ y.effects := by
  obtain ⟨y, hy, hmem⟩ := List.mem_flatMap.mp h
  refine ⟨y, hy, ?_⟩
  rw [Step.milestones, List.mem_append, List.mem_append] at hmem
  rcases hmem with (hmem | hmem) | hmem
  · -- No stimulus tells a job that its handler is called.
    unfold learned? at hmem
    cases hs : y.stimulus <;> simp only [hs] at hmem <;> (try split at hmem) <;> simp at hmem
  · obtain ⟨e, he, hm⟩ := List.mem_filterMap.mp hmem
    cases e with
    | invoke m h' letter' =>
      simp only [Effect.milestone?, Option.ite_none_right_eq_some, Option.some.injEq] at hm
      obtain ⟨rfl, hm⟩ := hm
      cases hm
      exact he
    | delete m =>
      simp [Effect.milestone?] at hm
    | _ => cases hm
  · split at hmem <;> simp at hmem

/-- The job with a number is the one of which the ledger knows, in its phase. -/
private theorem Ledger.course_of_mem (h : Ledger b hist l) (hj : j ∈ l.jobs) :
    { j with phase := .accepted } ∈ works hist ∧ ∃ st slots, b.station? j.queue = some st ∧
      l.station? j.queue = some { st with slots } ∧
      Course st j.delivery (some j.phase) (milestones j.number hist) := by
  obtain ⟨st, hst, hc⟩ := h.course _ (h.known j hj)
  obtain ⟨slots, hslots⟩ := station?_of_posts h.posts hst
  -- The job is there, so its phase in the course is the one that it has now.
  have hphase : (l.job? j.number).map (·.phase) = some j.phase := by
    rw [job?_of_mem h.sound hj, Option.map_some]
  exact ⟨h.known j hj, st, slots, hst, hslots, hphase ▸ hc⟩

/-- A job is deleted as its policy decides at its end. -/
theorem Ledger.as_decided (h : Ledger b hist l) (hj : j ∈ works hist) :
    ∃ st, b.station? j.queue = some st ∧
      (ends j.number hist = [] ∧ deletions j.number hist = [] ∨
        ∃ r, ends j.number hist = [r] ∧ deletions j.number hist =
          if st.source.deletes r then [(st.source.destination, j.delivery.receipt)] else []) := by
  obtain ⟨st, hst, hc⟩ := h.course j hj
  refine ⟨st, hst, ?_⟩
  -- Both are read off the milestones, and the course knows what these are.
  rw [ends_eq, deletions_eq]
  generalize milestones j.number hist = ms at hc ⊢
  generalize (l.job? j.number).map (·.phase) = o at hc
  cases hc with
  | accepted => exact .inl ⟨rfl, rfl⟩
  | handling => exact .inl ⟨rfl, rfl⟩
  | deleting hr => exact .inr ⟨_, rfl, by rw [hr]; rfl⟩
  | kept hr => exact .inr ⟨_, rfl, by rw [hr]; rfl⟩
  | gone hr => exact .inr ⟨_, rfl, by rw [hr]; rfl⟩

/-- Where a job comes from: a poller of its queue received the message. -/
theorem Ledger.received (h : Ledger b hist l) (hj : j ∈ works hist) :
    ∃ p : PollerId, p.queue = j.queue ∧ j.delivery ∈ Intake.received p hist := by
  -- The job is that of a message that a poller passed on, and so had in hand.
  obtain ⟨x, hx, hjob⟩ := List.mem_filterMap.mp hj
  obtain ⟨-, hqueue, hdelivery, -⟩ := Passing.job?_eq_some_iff.mp hjob
  refine ⟨x.poller, hqueue, ?_⟩
  rw [h.hands x.poller, ← hdelivery]
  refine List.mem_append_left _ (List.mem_map_of_mem (List.mem_filter.mpr ⟨hx, ?_⟩))
  exact decide_eq_true rfl

/-- A deletion is wanted in the step in which the handler of its message ends. -/
private theorem Ledger.after_end (h : Ledger b hist l) {now : Nat} {s : Stimulus}
    {dest receipt : String}
    (he : .delete n dest receipt ∈ (l.step now s).effects) : ∃ j ∈ works hist, ∃ st r,
      j.number = n ∧ b.station? j.queue = some st ∧ (l.step now s).end? n = some r ∧
      (∃ y ∈ hist, .invoke n st.handler (st.source.letter j.delivery) ∈ y.effects) ∧
      dest = st.source.destination ∧ receipt = j.delivery.receipt := by
  obtain ⟨j, hj, hn, o, hturns⟩ := turns_of_mem_effects h.sound he rfl
  obtain ⟨hwork, st, slots, hst, hslots, hc⟩ := h.course_of_mem hj
  cases hturns with
  | @deleting s r hs hphase hr =>
    obtain rfl := Option.some.inj (hs.symm.trans hslots)
    rw [hphase] at hc
    refine ⟨{ j with phase := .accepted }, hwork, st, r, rfl, hst, ?_, ?_, rfl, rfl⟩
    -- Its handler is at work until this step, so it was called in an earlier one.
    · have hjob := job?_of_mem h.sound hj
      simp [Step.end?, Listener.step, hjob, hphase]
    · refine invoke_of_mem_milestones ?_
      generalize milestones j.number hist = ms at hc
      cases hc
      exact List.mem_singleton.mpr rfl

/-- Under the policy `never` no deletion is decided on. -/
private theorem Ledger.never (h : Ledger b hist l) (hj : j ∈ works hist) {st : Station}
    (hst : b.station? j.queue = some st) (hnever : st.source.options.policy = .never) :
    deletions j.number hist = [] := by
  -- Either nothing is decided yet, or the policy has decided against it.
  obtain ⟨st', hst', hdecided⟩ := h.as_decided hj
  obtain rfl := Option.some.inj (hst.symm.trans hst')
  rcases hdecided with ⟨-, hnone⟩ | ⟨r, -, hdel⟩
  · exact hnone
  · rw [hdel, Source.deletes, hnever]
    rfl

/-- A handler is called by its own queue, with the letter of its own delivery. -/
theorem Ledger.invoked (h : Ledger b hist l) {now : Nat} {s : Stimulus} {handler : String}
    {letter : Letter} (he : .invoke n handler letter ∈ (l.step now s).effects) :
    ∃ j ∈ works hist, ∃ st, j.number = n ∧ b.station? j.queue = some st ∧
      handler = st.handler ∧ letter = st.source.letter j.delivery := by
  obtain ⟨j, hj, hn, o, hturns⟩ := turns_of_mem_effects h.sound he rfl
  obtain ⟨hwork, st, slots, hst, hslots, -⟩ := h.course_of_mem hj
  -- Only the beginning of a job calls the handler.
  cases hturns with
  | @began s hs hphase =>
    obtain rfl := Option.some.inj (hs.symm.trans hslots)
    exact ⟨{ j with phase := .accepted }, hwork, st, rfl, hst, rfl, rfl⟩

/-- What a handler can delete is its own delivery. -/
private theorem Ledger.acknowledged (h : Ledger b hist l) {now : Nat} {s : Stimulus}
    {handler : String} {letter : Letter} (he : .invoke n handler letter ∈ (l.step now s).effects) :
    ∃ j ∈ works hist, ∃ st, j.number = n ∧ b.station? j.queue = some st ∧
      letter.acknowledgment = if st.source.options.policy = .never
        then some ⟨j.queue, st.source.destination, j.delivery.receipt⟩ else none := by
  obtain ⟨j, hj, st, hn, hst, -, rfl⟩ := h.invoked he
  have hname : st.source.name = j.queue := (station?_eq_some hst).2
  refine ⟨j, hj, st, hn, hst, ?_⟩
  simp only [Source.letter, Source.acknowledgment?, hname]

/-- In every run of every listener that was built, the engine deletes a message only after
    the handler of this message has ended, exactly once if the policy decides so on the end
    of the handler, and never otherwise. -/
theorem deletes_run {σ : Type} (k : Lookup σ) (settings : ListenerSettings) (polling : Polling)
    (handler : String) (rs : List Registration) (s : σ) (xs : List (Nat × Stimulus)) :
    let b := (build k settings polling handler rs s).1
    Deletes b (b.steps xs) ∧ ∀ st ∈ b.stations, MadeFrom k rs handler st := by
  intro b
  have hledger : ∀ ys, Ledger b (b.steps ys) (b.run ys) := ledger_run k settings polling handler rs s
  refine ⟨⟨?_, ?_, ?_, ?_, ?_, fun j hj => (hledger xs).received hj⟩,
    fun st hst => madeFrom_of_build k settings polling handler rs s hst⟩
  · intro before x later hcut n dest receipt hmem
    -- The ledger of the state in which the deletion is wanted says whose message it is.
    obtain ⟨ys, now, s', rfl, rfl⟩ := steps_eq_append_cons hcut
    exact (hledger ys).after_end hmem
  · intro j hj
    obtain ⟨st, hst, hdecided⟩ := (hledger xs).as_decided hj
    refine ⟨st, hst, ?_⟩
    simpa only [Source.deletes, HandlerResult.outcome_eq] using hdecided
  · intro j hj st hst hnever
    exact (hledger xs).never hj hst hnever
  · intro x hx n handler' letter hmem
    obtain ⟨ys, now, s', later, rfl, hcut⟩ := exists_run_of_mem_steps hx
    obtain ⟨j, hj, hletter⟩ := (hledger ys).acknowledged hmem
    refine ⟨j, ?_, hletter⟩
    -- The messages that were taken before this step are among all of the run.
    rw [hcut, works, passed, List.flatMap_append, List.filterMap_append]
    exact List.mem_append_left _ hj
  · rw [(hledger xs).numbers]
    exact List.nodup_range

/-- A deletion that fails is not tried again. -/
example :
    let b := (build Lookup.verbatim .standard .bySlots "h" [⟨"q", .standard, none⟩] ()).1
    deletions 0 (b.steps [(0, .start 0 "q"), (0, .goOn ⟨"q", 1⟩),
      (1, .answer ⟨"q", 1⟩ (.batch [⟨none, "r", "x", .empty, .empty⟩])), (1, .beginJob 0),
      (2, .stop 1 "q"), (3, .endJob 0 .ok), (4, .deleted 0 (.error (.unknownQueue "q"))),
      (5, .deleted 0 (.ok ()))]) = [("q", "r")] := by
  decide

end Listener

end Intake
