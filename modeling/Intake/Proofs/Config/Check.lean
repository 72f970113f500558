import Intake.Config.Check

/-!
# What a configuration without a fault keeps to

- `Admits`: the rules about one queue alone
- `queuesFault?_eq_none_iff`: queues without a fault keep to these, and their names differ
- `Lawful`: all rules about a configuration
- `Fails`: the first rule that a configuration breaks
- `lawful_or_fails`: a configuration is lawful, or it fails by the fault that is found
-/

namespace Intake

/-! ## The order of the rules -/

/-- The place of a rule in the order in which the rules are checked. -/
def ConfigFault.place : ConfigFault → Nat
  | .noWorkersPerQueue => 0
  | .noWorkers => 1
  | .emptyName => 2
  | .duplicateName _ => 3
  | .emptyBatch _ => 4
  | .wakeOutOfRange _ _ => 5
  | .batchTooLarge _ _ => 6

/-- The first of some rules that are broken. -/
def ConfigFault.IsFirst (broken : ConfigFault → Prop) (f : ConfigFault) : Prop :=
  broken f ∧ ∀ g, broken g → f.place ≤ g.place

namespace Config

variable {c : Config} {q : QueueEntry} {qs earlier : List QueueEntry} {before : List String}
  {f g : ConfigFault}

/-- A queue keeps to the rules that are about it alone. -/
structure Admits (c : Config) (q : QueueEntry) : Prop where
  named : Text.trim q.name ≠ ""
  batch_pos : 1 ≤ c.batch q
  wake : ∀ w, q.wake = some w → 1 ≤ w ∧ w ≤ c.batch q

/-- The number of free slots that wakes a waiter is at least one, and not more than there are. -/
theorem Admits.wakeAt_le (h : c.Admits q) :
    1 ≤ (c.options q).wakeAt ∧ (c.options q).wakeAt ≤ (c.options q).batch := by
  have hbatch : 1 ≤ (c.options q).batch := h.batch_pos
  have hwake : ∀ w, (c.options q).wake = some w → 1 ≤ w ∧ w ≤ (c.options q).batch := h.wake
  rw [QueueOptions.wakeAt]
  -- Without a threshold of its own a queue wakes at its whole batch.
  cases hw : (c.options q).wake with
  | none =>
    rw [Option.getD_none]
    omega
  | some w =>
    have hrange := hwake w hw
    rw [Option.getD_some]
    omega

/-- A section passes exactly if it is admitted and its name is not taken. -/
theorem queueFault?_eq_none_iff :
    c.queueFault? before q = none ↔ c.Admits q ∧ Text.trim q.name ∉ before := by
  unfold queueFault?
  dsimp only
  -- The three refusals in the order of the check, then the range of the threshold.
  constructor
  · intro h
    split at h
    · cases h
    next hnamed =>
      split at h
      · cases h
      next hnew =>
        split at h
        · cases h
        next hbatch =>
          refine ⟨⟨hnamed, Nat.pos_of_ne_zero hbatch, fun w hw => ?_⟩, hnew⟩
          simp only [hw] at h
          split at h
          · cases h
          · omega
  · rintro ⟨⟨hnamed, hbatch, hwake⟩, hnew⟩
    rw [if_neg hnamed, if_neg hnew, if_neg (Nat.ne_of_gt hbatch)]
    cases hw : q.wake with
    | none => rfl
    | some w =>
      have hrange := hwake w hw
      exact if_neg (by omega)

/-- Queues have no fault if each keeps to its rules and their names differ, among them and from
    the names before. -/
theorem queuesFault?_eq_none_iff : c.queuesFault? before qs = none ↔ (∀ q ∈ qs, c.Admits q) ∧
    (qs.map (Text.trim ·.name)).Nodup ∧ ∀ q ∈ qs, Text.trim q.name ∉ before := by
  induction qs generalizing before with
  | nil => simp [queuesFault?]
  | cons q qs ih =>
    have hcons : c.queuesFault? before (q :: qs) = none ↔
        c.queueFault? before q = none ∧
          c.queuesFault? (Text.trim q.name :: before) qs = none := by
      rw [queuesFault?]
      cases c.queueFault? before q <;> simp
    rw [hcons, queueFault?_eq_none_iff, ih, List.forall_mem_cons, List.forall_mem_cons,
      List.map_cons, List.nodup_cons]
    simp only [List.mem_map, List.mem_cons, not_or, not_exists, not_and]
    -- That a later name differs from this one is counted among the names before it.
    constructor
    · rintro ⟨⟨hq, hnew⟩, hqs, hnodup, hlater⟩
      exact ⟨⟨hq, hqs⟩, ⟨fun j hj => (hlater j hj).1, hnodup⟩, hnew, fun j hj => (hlater j hj).2⟩
    · rintro ⟨⟨hq, hqs⟩, ⟨hne, hnodup⟩, hnew, hlater⟩
      exact ⟨⟨hq, hnew⟩, hqs, hnodup, fun j hj => ⟨hne j hj, hlater j hj⟩⟩

/-- What holds of the workers and the queues of a configuration without a fault. -/
theorem rules_of_fault? (h : c.fault? = none) : c.listener.workersPerQueue ≠ 0 ∧
    c.listener.maxWorkers ≠ some 0 ∧ (∀ q ∈ c.queues, c.Admits q) ∧
      (c.queues.map (Text.trim ·.name)).Nodup := by
  -- Each guard that is passed gives one rule; what is left is the check of the queues.
  unfold fault? at h
  split at h
  · cases h
  next hper =>
    split at h
    · cases h
    next hmax =>
      obtain ⟨hadmits, hnodup, -⟩ := queuesFault?_eq_none_iff.mp h
      exact ⟨hper, hmax, hadmits, hnodup⟩

/-! ## Lawful configurations -/

/-- Queues keep to their rules, each by itself and all with names of their own. -/
structure AdmitsAll (c : Config) (qs : List QueueEntry) : Prop where
  each : ∀ q ∈ qs, c.Admits q
  distinct : (qs.map (Text.trim ·.name)).Nodup

/-- A configuration keeps to all rules. -/
structure Lawful (c : Config) : Prop where
  workersPerQueue_pos : 1 ≤ c.listener.workersPerQueue
  maxWorkers_ne : c.listener.maxWorkers ≠ some 0
  queues : c.AdmitsAll c.queues

/-- From no names at all: the sections pass exactly if all of them are admitted. -/
theorem queuesFault?_nil_eq_none_iff : c.queuesFault? [] qs = none ↔ c.AdmitsAll qs := by
  rw [queuesFault?_eq_none_iff]
  exact ⟨fun ⟨heach, hdistinct, _⟩ => ⟨heach, hdistinct⟩,
    fun ⟨heach, hdistinct⟩ => ⟨heach, hdistinct, fun _ _ => List.not_mem_nil⟩⟩

/-- The check passes exactly for a lawful configuration. -/
theorem fault?_eq_none_iff : c.fault? = none ↔ c.Lawful := by
  constructor
  · intro h
    obtain ⟨hper, hmax, hadmits, hnodup⟩ := rules_of_fault? h
    exact ⟨Nat.pos_of_ne_zero hper, hmax, hadmits, hnodup⟩
  · -- A lawful configuration passes each guard in turn.
    rintro ⟨hper, hmax, hqueues⟩
    rw [fault?, if_neg (Nat.ne_of_gt hper), if_neg hmax]
    exact queuesFault?_nil_eq_none_iff.mpr hqueues

/-- For SQS, each batch has to fit into one request besides. -/
theorem sqsFault?_eq_none_iff : c.sqsFault? = none ↔
    c.Lawful ∧ ∀ q ∈ c.queues, c.batch q ≤ sqsBatchLimit := by
  rw [← fault?_eq_none_iff, sqsFault?]
  cases c.fault? <;> simp

/-! ## The first rule that is broken -/

/-- A rule about the workers is broken. -/
inductive BreaksWorkers (c : Config) : ConfigFault → Prop
  | noWorkersPerQueue (h : c.listener.workersPerQueue = 0) : BreaksWorkers c .noWorkersPerQueue
  | noWorkers (h : c.listener.maxWorkers = some 0) : BreaksWorkers c .noWorkers

/-- A queue after some others breaks a rule.  Of two queues with one name it is the later one that
    does. -/
inductive Breaks (c : Config) (earlier : List QueueEntry) (q : QueueEntry) : ConfigFault → Prop
  | emptyName (h : Text.trim q.name = "") : Breaks c earlier q .emptyName
  | duplicateName {u : QueueEntry} (hu : u ∈ earlier) (h : Text.trim u.name = Text.trim q.name) :
    Breaks c earlier q (.duplicateName (Text.trim q.name))
  | emptyBatch (h : c.batch q = 0) : Breaks c earlier q (.emptyBatch (Text.trim q.name))
  | wakeOutOfRange {w : Nat} (hw : q.wake = some w) (h : w = 0 ∨ c.batch q < w) :
    Breaks c earlier q (.wakeOutOfRange (Text.trim q.name) (c.batch q))

/-- The first rule that a configuration breaks: one about the workers, or else one that is broken by
    a queue after others that keep to all of theirs. -/
inductive Fails (c : Config) : ConfigFault → Prop
  | workers {f : ConfigFault} (h : f.IsFirst c.BreaksWorkers) : Fails c f
  | queue {earlier later : List QueueEntry} {q : QueueEntry} {f : ConfigFault}
    (hworkers : ∀ g, ¬ c.BreaksWorkers g) (hcut : c.queues = earlier ++ q :: later)
    (hearlier : c.AdmitsAll earlier) (h : f.IsFirst (c.Breaks earlier q)) : Fails c f

/-- A queue breaks each rule in one way only. -/
private theorem Breaks.eq_of_place (hf : c.Breaks earlier q f) (hg : c.Breaks earlier q g)
    (h : f.place = g.place) : f = g := by
  cases hf <;> cases hg <;> first | rfl | simp [ConfigFault.place] at h

/-- The fault of a queue is the first rule that it breaks. -/
private theorem isFirst_of_queueFault?
    (hbefore : ∀ n, n ∈ before ↔ ∃ u ∈ earlier, Text.trim u.name = n)
    (h : c.queueFault? before q = some f) : f.IsFirst (c.Breaks earlier q) := by
  -- Each branch knows that the rules before its own are kept.
  unfold queueFault? at h
  dsimp only at h
  split at h
  next hname =>
    obtain rfl := Option.some.inj h
    exact ⟨.emptyName hname, fun g hg => by cases hg <;> simp [ConfigFault.place]⟩
  next hname =>
    split at h
    next hold =>
      obtain rfl := Option.some.inj h
      obtain ⟨u, hu, hsame⟩ := (hbefore _).mp hold
      refine ⟨.duplicateName hu hsame, fun g hg => ?_⟩
      cases hg with
      | emptyName h => exact absurd h hname
      | _ => simp [ConfigFault.place]
    next hnew =>
      split at h
      next hbatch =>
        obtain rfl := Option.some.inj h
        refine ⟨.emptyBatch hbatch, fun g hg => ?_⟩
        cases hg with
        | emptyName h => exact absurd h hname
        | duplicateName hu h => exact absurd ((hbefore _).mpr ⟨_, hu, h⟩) hnew
        | _ => simp [ConfigFault.place]
      next hbatch =>
        split at h
        next w hw =>
          split at h
          next hrange =>
            obtain rfl := Option.some.inj h
            refine ⟨.wakeOutOfRange hw hrange, fun g hg => ?_⟩
            cases hg with
            | emptyName h => exact absurd h hname
            | duplicateName hu h => exact absurd ((hbefore _).mpr ⟨_, hu, h⟩) hnew
            | emptyBatch h => exact absurd h hbatch
            | wakeOutOfRange => exact Nat.le_refl _
          next => cases h
        next => cases h

/-- The fault of a section is the first of the rules that it breaks. -/
theorem queueFault?_eq_some_iff
    (hbefore : ∀ n, n ∈ before ↔ ∃ u ∈ earlier, Text.trim u.name = n) :
    c.queueFault? before q = some f ↔ f.IsFirst (c.Breaks earlier q) := by
  refine ⟨isFirst_of_queueFault? hbefore, fun hf => ?_⟩
  cases hfault : c.queueFault? before q with
  | none =>
    obtain ⟨⟨hname, hbatch, hwake⟩, hnew⟩ := queueFault?_eq_none_iff.mp hfault
    cases hf.1 with
    | emptyName h => exact absurd h hname
    | duplicateName hu h => exact absurd ((hbefore _).mpr ⟨_, hu, h⟩) hnew
    | emptyBatch h => omega
    | wakeOutOfRange hw h =>
      have hrange := hwake _ hw
      omega
  | some g =>
    -- Both are first, and there is one way to break a rule.
    have hg := isFirst_of_queueFault? hbefore hfault
    exact congrArg some (hg.1.eq_of_place hf.1 (Nat.le_antisymm (hg.2 f hf.1) (hf.2 g hg.1)))

/-- The fault of some queues is that of the first one that has a fault after the others. -/
theorem queuesFault?_eq_some_iff : c.queuesFault? before qs = some f ↔
    ∃ earlier q later, qs = earlier ++ q :: later ∧ c.queuesFault? before earlier = none ∧
      c.queueFault? ((earlier.map (Text.trim ·.name)).reverse ++ before) q = some f := by
  -- The first queue has a fault, or it adds its name to those before and the others go on.
  induction qs generalizing before with
  | nil => simp [queuesFault?]
  | cons u qs ih =>
    rw [queuesFault?]
    constructor
    · intro h
      split at h
      next g hg => exact ⟨[], u, qs, rfl, rfl, hg.trans h⟩
      next hu =>
        obtain ⟨earlier, q, later, rfl, hearlier, hq⟩ := ih.mp h
        refine ⟨u :: earlier, q, later, rfl, ?_, ?_⟩
        · rw [queuesFault?, hu]
          exact hearlier
        · rwa [List.map_cons, List.reverse_cons, List.append_assoc]
    · rintro ⟨earlier, q, later, hcut, hearlier, hq⟩
      cases earlier with
      | nil =>
        obtain ⟨rfl, rfl⟩ := List.cons.inj hcut
        rw [show c.queueFault? before u = some f from hq]
      | cons u' earlier =>
        obtain ⟨rfl, rfl⟩ := List.cons.inj hcut
        rw [queuesFault?] at hearlier
        split at hearlier
        · cases hearlier
        next =>
          rw [List.map_cons, List.reverse_cons, List.append_assoc] at hq
          exact ih.mpr ⟨earlier, q, later, rfl, hearlier, hq⟩

/-- Where no rule about the workers is broken, the fault is that of the queues. -/
private theorem fails_iff_of_workers (hworkers : ∀ g, ¬ c.BreaksWorkers g) :
    c.queuesFault? [] c.queues = some f ↔ c.Fails f := by
  -- The names checked before are those of the sections before.
  have hbefore : ∀ (earlier : List QueueEntry) (n : String),
      n ∈ (earlier.map (Text.trim ·.name)).reverse ++ [] ↔
        ∃ u ∈ earlier, Text.trim u.name = n := by simp
  rw [queuesFault?_eq_some_iff]
  constructor
  · rintro ⟨earlier, q, later, hcut, hearlier, hq⟩
    exact .queue hworkers hcut (queuesFault?_nil_eq_none_iff.mp hearlier)
      ((queueFault?_eq_some_iff (hbefore _)).mp hq)
  · rintro (⟨hbroken, -⟩ | ⟨-, hcut, hearlier, h⟩)
    · exact absurd hbroken (hworkers f)
    · exact ⟨_, _, _, hcut, queuesFault?_nil_eq_none_iff.mpr hearlier,
        (queueFault?_eq_some_iff (hbefore _)).mpr h⟩

/-- The fault found is the one by which the configuration fails. -/
theorem fault?_eq_some_iff : c.fault? = some f ↔ c.Fails f := by
  unfold fault?
  split
  -- The two rules on the workers come first, in this order.
  next hper =>
    constructor
    · rintro ⟨⟩
      exact .workers ⟨.noWorkersPerQueue hper, fun g _ => Nat.zero_le _⟩
    · rintro (⟨hbroken, hfirst⟩ | ⟨hworkers, -⟩)
      · cases hbroken with
        | noWorkersPerQueue => rfl
        | noWorkers => exact absurd (hfirst _ (.noWorkersPerQueue hper)) (by decide)
      · exact absurd (.noWorkersPerQueue hper) (hworkers _)
  next hper =>
    split
    next hmax =>
      constructor
      · rintro ⟨⟩
        refine .workers ⟨.noWorkers hmax, fun g hg => ?_⟩
        cases hg with
        | noWorkersPerQueue h => exact absurd h hper
        | noWorkers => exact Nat.le_refl _
      · rintro (⟨hbroken, -⟩ | ⟨hworkers, -⟩)
        · cases hbroken with
          | noWorkersPerQueue h => exact absurd h hper
          | noWorkers => rfl
        · exact absurd (.noWorkers hmax) (hworkers _)
    -- Neither is broken, so the sections decide.
    next hmax =>
      apply fails_iff_of_workers
      rintro g (h | h)
      · exact hper h
      · exact hmax h

/-- A configuration has no fault exactly if it is lawful, and else the fault by which it fails; the
    service adds a limit of ten messages to a batch. -/
theorem lawful_or_fails (c : Config) :
    (c.fault? = none ↔ c.Lawful) ∧ (∀ f, c.fault? = some f ↔ c.Fails f) ∧
      (c.sqsFault? = none ↔ c.Lawful ∧ ∀ q ∈ c.queues, c.batch q ≤ 10) :=
  ⟨fault?_eq_none_iff, fun _ => fault?_eq_some_iff, sqsFault?_eq_none_iff⟩

/-- The second queue has an empty batch, but its name is looked at first. -/
example :
    let c : Config :=
      { Config.standard with
        queues := [.named "a", { QueueEntry.named " a" with batch := some 0 }] }
    c.fault? = some (.duplicateName "a") := by
  decide

end Config

end Intake
