import Intake.Lifecycle
import Intake.Proofs.Table

/-!
# Standings

What each operation on a lifecycle does to the standing of every queue, and which queues are
running.
-/

namespace Intake.Lifecycle

variable {l : Lifecycle} {q j : String} {e : Nat}

/-- A start opens an epoch for a queue that is known and not running: the next one. -/
theorem nextEpoch?_eq_some : l.nextEpoch? q = some e ↔
    ∃ s, l.standing? q = some s ∧ s.stage ≠ .running ∧ s.epoch + 1 = e := by
  unfold nextEpoch?
  cases l.standing? q with
  | none => simp
  | some s => by_cases hs : s.stage = .running <;> simp [hs]

/-- A queue runs in the epoch of its standing. -/
theorem runningEpoch?_eq_some :
    l.runningEpoch? q = some e ↔ l.standing? q = some ⟨.running, e⟩ := by
  unfold runningEpoch?
  cases l.standing? q with
  | none => simp
  | some s =>
    obtain ⟨stage, epoch⟩ := s
    cases stage <;> simp

/-- A queue is running if its standing says so. -/
theorem isRunning_iff : l.isRunning q ↔ ∃ e, l.standing? q = some ⟨.running, e⟩ := by
  unfold isRunning stage?
  cases l.standing? q with
  | none => simp
  | some s =>
    obtain ⟨stage, epoch⟩ := s
    cases stage <;> simp

/-- A start changes the standing of its queue alone. -/
theorem standing?_beginStart (he : l.nextEpoch? q = some e) (j : String) :
    (l.beginStart q).standing? j = if j = q then some ⟨.running, e⟩ else l.standing? j := by
  simp only [beginStart, he, standing?]
  exact Table.get?_set ..

/-- A stop changes the standing of its queue alone. -/
theorem standing?_beginStop (he : l.runningEpoch? q = some e) (j : String) :
    (l.beginStop q).standing? j = if j = q then some ⟨.stopping, e⟩ else l.standing? j := by
  simp only [beginStop, he, standing?]
  exact Table.get?_set ..

/-- The end of a stop changes the standing of its queue, if this is still stopping in the epoch of
    the stop, and nothing else. -/
theorem standing?_finishStop (l : Lifecycle) (q : String) (e : Nat) (j : String) :
    (l.finishStop q e).standing? j =
      if j = q ∧ l.standing? q = some ⟨.stopping, e⟩ then some ⟨.stopped, e⟩
      else l.standing? j := by
  unfold finishStop
  -- Only the stop that began in this epoch, and is not over, is brought to its end.
  by_cases h : l.standing? q = some ⟨.stopping, e⟩
  · rw [if_pos h]
    simp only [h, and_true]
    exact Table.get?_set ..
  · simp [h]

/-- Nothing is known of any queue at first. -/
@[simp] theorem standing?_empty (q : String) : empty.standing? q = none := rfl

/-- Nothing is known of any queue after all are forgotten. -/
@[simp] theorem standing?_clear (l : Lifecycle) (q : String) : l.clear.standing? q = none := rfl

/-- A queue that is registered is known and stopped, unless it was known before. -/
theorem standing?_register (l : Lifecycle) (q j : String) :
    (l.register q).standing? j =
      if j = q ∧ l.standing? q = none then some ⟨.stopped, 0⟩ else l.standing? j := by
  unfold register Table.contains
  cases h : l.queues.get? q with
  | none =>
    simp only [standing?, h, Option.isSome_none, Bool.false_eq_true, if_false, and_true]
    exact Table.get?_set ..
  | some s => simp [standing?, h]

/-- Registering queues makes just these known, as stopped. -/
theorem standing?_foldl_register (qs : List String) (l : Lifecycle) (j : String) :
    (qs.foldl register l).standing? j =
      if j ∈ qs ∧ l.standing? j = none then some ⟨.stopped, 0⟩ else l.standing? j := by
  induction qs generalizing l with
  | nil => simp
  | cons q qs ih =>
    rw [List.foldl_cons, ih, standing?_register]
    -- A name that is already known keeps its standing when it is registered again.
    by_cases hj : j = q
    · subst hj
      cases h : l.standing? j <;> simp
    · simp [hj]

/-! ## Running queues -/

/-- What one operation on a lifecycle leads to. -/
inductive Next (l : Lifecycle) : Lifecycle → Prop
  | same : Next l l
  | started {q : String} {e : Nat} (he : l.nextEpoch? q = some e) : Next l (l.beginStart q)
  | stopping {q : String} {e : Nat} (he : l.runningEpoch? q = some e) : Next l (l.beginStop q)
  | stopped (q : String) (e : Nat) : Next l (l.finishStop q e)
  | cleared : Next l l.clear

/-- Registering a queue leaves the queues unambiguous. -/
private theorem nodup_register (h : l.queues.names.Nodup) (q : String) :
    (l.register q).queues.names.Nodup := by
  unfold register
  split
  · exact h
  · exact Table.nodup_set h ..

/-- Registering some queues leaves the queues unambiguous. -/
theorem nodup_foldl_register (qs : List String) (h : l.queues.names.Nodup) :
    (qs.foldl register l).queues.names.Nodup := by
  induction qs generalizing l with
  | nil => exact h
  | cons q qs ih => exact ih (nodup_register h q)

/-- The queues of a lifecycle stay unambiguous. -/
theorem Next.nodup {l' : Lifecycle} (h : l.Next l') (hl : l.queues.names.Nodup) :
    l'.queues.names.Nodup := by
  cases h with
  | same => exact hl
  | started he =>
    rw [beginStart, he]
    exact Table.nodup_set hl ..
  | stopping he =>
    rw [beginStop, he]
    exact Table.nodup_set hl ..
  | stopped =>
    unfold finishStop
    split
    · -- Either the standing of a known queue is set, or nothing changes.
      exact Table.nodup_set hl ..
    · exact hl
  | cleared => exact List.nodup_nil

/-- The queues that are listed as running are those that run. -/
theorem mem_running (h : l.queues.names.Nodup) : q ∈ l.running ↔ l.isRunning q := by
  -- The running queues are the entries with this stage, in the order of their names.
  rw [running, sortedTexts, List.mem_mergeSort, isRunning_iff]
  constructor
  · intro hq
    obtain ⟨⟨j, stage, e⟩, hmem, rfl⟩ := List.mem_map.mp hq
    obtain ⟨hentry, hs⟩ := List.mem_filter.mp hmem
    obtain rfl : stage = .running := by simpa using hs
    exact ⟨e, (Table.mem_entries_iff h).mp hentry⟩
  · rintro ⟨e, he⟩
    exact List.mem_map.mpr ⟨(q, ⟨.running, e⟩),
      List.mem_filter.mpr ⟨(Table.mem_entries_iff h).mpr he, by simp⟩, rfl⟩

/-- No queue is listed twice as running. -/
theorem nodup_running (h : l.queues.names.Nodup) : l.running.Nodup := by
  rw [running, sortedTexts, (List.mergeSort_perm _ _).nodup_iff]
  exact h.sublist (List.filter_sublist.map _)

end Intake.Lifecycle
