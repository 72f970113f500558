import Intake.Proofs.Config.Check
import Intake.Proofs.Listener.Enrolment
import Intake.Service
import Mathlib.Algebra.Order.BigOperators.Group.List
import Mathlib.Algebra.Order.Group.Nat

/-!
# Which configurations are sized well

The sizes of a listener are counted in words of 64 bits, and its shutdown counts the workers in a
word of 32 bits.  A configuration without a fault may ask for more than that.

- `Listener.WellSized`: no size of a listener is cut off
- `Listener.wellSized_build_iff`: when that is so for a listener that was built
- `Config.wellSized_iff`: when that is so for a configuration, whatever its queues resolve to
-/

namespace Intake

variable {σ : Type}

/-- No size of a listener is cut off. -/
structure Listener.WellSized (l : Listener) : Prop where
  /-- The workers that the queues are meant to keep busy. -/
  core : coreWorkers l.settings l.stations = l.stations.length * l.settings.workersPerQueue
  /-- The messages that can be in hand; nobody adds them up if the number of workers is fixed. -/
  total : l.settings.maxWorkers = none → sized (totalBatch l.stations) = totalBatch l.stations
  /-- There can be so many workers. -/
  possible : l.workers.limit ≤ Workers.maxLimit
  /-- Whenever it begins, a shutdown waits for all workers. -/
  awaited : ∀ xs, ∀ n ∈ (l.run xs).workers.wanted?, n = l.workers.limit

/-- Where every queue is where its name says, no look-up fails. -/
private theorem Lookup.Resolves.eq_ok {name : String} {u u' : Unit}
    {a : Except BrokerError (String × Bool)}
    {asked : List Question} (h : Lookup.verbatim.Resolves name u a asked u') :
    a = .ok (name, false) := by
  -- A lookup that says the name itself never fails, so only the last case is left.
  cases h with
  | nowhere h => cases h
  | unclear _ h => cases h
  | resolved h h' =>
    cases h
    cases h'
    rfl

namespace Listener

variable (k : Lookup σ) (settings : ListenerSettings) (polling : Polling) (handler : String)
  (rs : List Registration) (s : σ) {l : Listener}

/-! ## What a shutdown waits for -/

/-- A shutdown waits for the workers that there are, counted in 32 bits. -/
theorem wanted_run (h : l.workers.wanted? = none) (xs : List (Nat × Stimulus)) :
    ∀ n ∈ (l.run xs).workers.wanted?, n = l.workers.limit % size32 := by
  -- The number of workers stays the same, so it is the one from which the shutdown counts.
  let Counts (w : Workers PollerId) : Prop :=
    w.limit = l.workers.limit ∧ ∀ n ∈ w.wanted?, n = l.workers.limit % size32
  have hrun : Counts (l.run xs).workers := by
    apply run_keeps (P := fun _ m => Counts m.workers) _ _ xs
    · exact ⟨rfl, by simp [h]⟩
    · intro _ m now s hm
      apply workers_keeps (P := Counts) _ _ hm now
      · intro w w' hshifted hw
        refine ⟨hshifted.limit.trans hw.1, ?_⟩
        cases hshifted with
        | same => exact hw.2
        | submitted p => simpa using hw.2
        | resumed => simpa using hw.2
        | draining => simp [Workers.wanted?, Workers.beginShutdown, hw.1]
        | closed => simp [Workers.wanted?, Workers.close]
      · intro w hw
        exact ⟨(Workers.limit_finish w).trans hw.1, by simpa using hw.2⟩
  exact hrun.2

/-- Nothing runs in a listener just built. -/
theorem running_build : (build k settings polling handler rs s).1.lifecycle.running = [] := by
  rw [List.eq_nil_iff_forall_not_mem]
  intro q hq
  have hnodup := nodup_queues_run k settings polling handler rs s []
  obtain ⟨e, he⟩ := Lifecycle.isRunning_iff.mp ((Lifecycle.mem_running hnodup).mp hq)
  -- After a build each known queue is stopped.
  simp only [run_nil, standing?_build] at he
  split at he <;> simp at he

/-- A listener that was just built can be shut down at once. -/
theorem wanted_shutdown_build :
    ((build k settings polling handler rs s).1.run [(0, .shutdown 0)]).workers.wanted? =
      some ((build k settings polling handler rs s).1.workers.limit % size32) := by
  have hworkers :
      ((build k settings polling handler rs s).1.run [(0, .shutdown 0)]).workers =
        (build k settings polling handler rs s).1.workers.beginShutdown := by
    show (shutdown 0 0 { (build k settings polling handler rs s).1 with outbox := [] }).workers = _
    -- No queue has to be stopped first.
    have hactive : (build k settings polling handler rs s).1.active = true := rfl
    simp only [shutdown, hactive, report, emit, running_build, stopEach, concludeStops]
    rfl
  rw [hworkers]
  rfl

/-! ## A listener that was just built -/

/-- Where nothing is cut off from the sum of the batches, it is the number of workers that are
    there unless another one is set. -/
private theorem limit_build_eq
    (htotal : settings.maxWorkers = none →
      sized (totalBatch (build k settings polling handler rs s).1.stations) =
        totalBatch (build k settings polling handler rs s).1.stations) :
    (build k settings polling handler rs s).1.workers.limit = max (settings.maxWorkers.getD
      (totalBatch (build k settings polling handler rs s).1.stations)) 1 := by
  rw [workers_build, Workers.ofSize, workerLimit]
  cases hmax : settings.maxWorkers with
  | none => rw [Option.getD_none, Option.getD_none, htotal hmax]
  | some n => rfl

/-- A listener is sized well if the workers that are meant to be busy fit in 64 bits and all
    workers in 32. -/
theorem wellSized_build_iff : (build k settings polling handler rs s).1.WellSized ↔
    (build k settings polling handler rs s).1.stations.length * settings.workersPerQueue < size64 ∧
      settings.maxWorkers.getD (totalBatch (build k settings polling handler rs s).1.stations) <
        size32 := by
  have hsized : ∀ n, sized n = n ↔ n < size64 := by
    intro n
    simp only [sized, size64]
    omega
  -- From well sized to the bounds: the shutdown of a fresh listener asks for all its workers.
  constructor
  · intro h
    have hawaited := h.awaited [(0, .shutdown 0)] _ (wanted_shutdown_build ..)
    rw [limit_build_eq k settings polling handler rs s h.total] at hawaited
    refine ⟨(hsized _).mp h.core, ?_⟩
    simp only [size32] at hawaited ⊢
    omega
  · -- Conversely: below the bounds no conversion loses anything.
    rintro ⟨hcore, hfits⟩
    have htotal : settings.maxWorkers = none →
        sized (totalBatch (build k settings polling handler rs s).1.stations) =
          totalBatch (build k settings polling handler rs s).1.stations := by
      intro hmax
      rw [hmax, Option.getD_none] at hfits
      exact (hsized _).mpr (Nat.lt_trans hfits (by decide))
    have hlt : (build k settings polling handler rs s).1.workers.limit < size32 := by
      rw [limit_build_eq k settings polling handler rs s htotal]
      exact Nat.max_lt.mpr ⟨hfits, by decide⟩
    refine ⟨(hsized _).mpr hcore, htotal, ?_, fun xs n hn => ?_⟩
    · simp only [Workers.maxLimit, size64, size32] at hlt ⊢
      omega
    · rw [wanted_run rfl xs n hn, Nat.mod_eq_of_lt hlt]

/-! ## All registrations at once -/

/-- There are no more queues than registrations, and no more messages in hand than their batches
    allow. -/
private theorem stations_build_le :
    (build k settings polling handler rs s).1.stations.length ≤ rs.length ∧
      totalBatch (build k settings polling handler rs s).1.stations ≤
        (rs.map (·.options.batch)).sum := by
  obtain ⟨es, notices, henrols, hstations, -⟩ := exists_enrols k handler rs s
  rw [build_eq_idle, hstations]
  -- Registrations that are refused leave a gap, so what is taken is a sublist of what is asked.
  have hsublist : (Enrolment.taken es).Sublist es := List.filter_sublist
  constructor
  · rw [idle, length_stations henrols, ← henrols.entries, List.length_map]
    exact hsublist.length_le
  · rw [idle, totalBatch_stations henrols, ← henrols.entries, List.map_map]
    exact (hsublist.map _).sum_le_sum fun _ _ => Nat.zero_le _

/-- Where every queue is found and may be taken, all of them are. -/
private theorem stations_build_verbatim (hnames : (rs.map (·.name)).Nodup)
    (hbatch : ∀ r ∈ rs, 1 ≤ r.options.batch) :
    (build Lookup.verbatim settings polling handler rs ()).1.stations.length = rs.length ∧
      totalBatch (build Lookup.verbatim settings polling handler rs ()).1.stations =
        (rs.map (·.options.batch)).sum := by
  obtain ⟨es, notices, henrols, hstations, -⟩ := exists_enrols Lookup.verbatim handler rs ()
  -- Each registration has a name of its own and a batch, so each one is taken.
  have htaken : Enrolment.taken es = es := by
    apply List.filter_eq_self.mpr
    intro e he
    obtain ⟨earlier, later, hcut⟩ := List.append_of_mem he
    obtain ⟨a, hresolves, hsource⟩ :=
      (henrols.each earlier e later hcut).2.lookedUp (henrols.isEligible hnames hbatch hcut)
    rw [hsource, hresolves.eq_ok]
    rfl
  rw [build_eq_idle, hstations]
  constructor
  · rw [idle, length_stations henrols, htaken, ← henrols.entries, List.length_map]
  · rw [idle, totalBatch_stations henrols, htaken, ← henrols.entries, List.map_map]
    rfl

end Listener

namespace Config

open Listener

/-- A configuration without a fault is sized well, whatever its queues resolve to, if and only if
    the workers that they are meant to keep busy fit in 64 bits, and its workers in 32. -/
theorem wellSized_iff (c : Config) (h : c.fault? = none) :
    (∀ (σ : Type) (k : Lookup σ) (polling : Polling) (handler : String) (s : σ),
      (build k c.listener polling handler (Service.registrations c) s).1.WellSized) ↔
    c.queues.length * c.listener.workersPerQueue < size64 ∧
      c.listener.maxWorkers.getD (c.queues.map c.batch).sum < size32 := by
  have hlength : (Service.registrations c).length = c.queues.length := List.length_map ..
  have hsum : ((Service.registrations c).map (·.options.batch)).sum =
      (c.queues.map c.batch).sum := by
    rw [Service.registrations, List.map_map]
    rfl
  constructor
  · intro hall
    obtain ⟨-, -, hadmits, hnodup⟩ := rules_of_fault? h
    -- Names that differ without the blanks around them differ.
    have hnames : ((Service.registrations c).map (·.name)).Nodup := by
      rw [Service.registrations, List.map_map]
      apply List.Nodup.of_map Text.trim
      rw [List.map_map]
      exact hnodup
    have hbatch : ∀ r ∈ Service.registrations c, 1 ≤ r.options.batch := by
      intro r hr
      obtain ⟨q, hq, rfl⟩ := List.mem_map.mp hr
      exact (hadmits q hq).batch_pos
    have hsized := (wellSized_build_iff ..).mp (hall Unit Lookup.verbatim .bySlots "" ())
    obtain ⟨hstations, htotal⟩ :=
      stations_build_verbatim c.listener .bySlots "" (Service.registrations c) hnames hbatch
    rwa [hstations, htotal, hlength, hsum] at hsized
  · rintro ⟨hcore, hlimit⟩ σ k polling handler s
    obtain ⟨hstations, htotal⟩ :=
      stations_build_le k c.listener polling handler (Service.registrations c) s
    rw [hlength] at hstations
    rw [hsum] at htotal
    apply (wellSized_build_iff ..).mpr
    refine ⟨Nat.lt_of_le_of_lt (Nat.mul_le_mul_right _ hstations) hcore, ?_⟩
    cases hmax : c.listener.maxWorkers with
    | none =>
      rw [hmax] at hlimit
      exact Nat.lt_of_le_of_lt htotal hlimit
    | some n =>
      rw [hmax] at hlimit
      exact hlimit

/-- As many workers as a word of 32 bits has values are no fault, and a shutdown does not wait for
    any of them: it is done while a handler is at work. -/
theorem not_wellSized_of_size32 :
    let c : Config :=
      { Config.standard with
        listener := { ListenerSettings.standard with maxWorkers := some size32 }
        queues := [.named "q"] }
    let l := (build Lookup.verbatim c.listener .bySlots "h" (Service.registrations c) ()).1
    let d : Delivery := ⟨none, "r", "x", .empty, .empty⟩
    let m := l.run [(0, .start 0 "q"), (0, .goOn ⟨"q", 1⟩), (3, .answer ⟨"q", 1⟩ (.batch [d])),
      (3, .beginJob 0), (10, .stop 1 "q"), (10, .goOn ⟨"q", 1⟩), (10, .proceed 1),
      (10, .shutdown 2)]
    c.fault? = none ∧ ¬ l.WellSized ∧ m.workers.isDrained ∧ m.jobs.map (·.phase) = [.handling] := by
  intro c l d m
  refine ⟨by decide, fun h => ?_, by decide +kernel⟩
  -- The limit is just beyond 32 bits, so nothing has to come back for the drain.
  have hfits := ((wellSized_build_iff ..).mp h).2
  exact absurd hfits (by decide)

/-- Two queues with ten messages each are sized well. -/
theorem wellSized_iff_two :
    let c : Config := { Config.standard with queues := [.named "q", .named "o"] }
    c.fault? = none ∧ ∀ (σ : Type) (k : Lookup σ) (polling : Polling) (handler : String) (s : σ),
      (build k c.listener polling handler (Service.registrations c) s).1.WellSized := by
  intro c
  have hvalid : c.fault? = none := by decide
  exact ⟨hvalid, (wellSized_iff c hvalid).mpr (by decide)⟩

end Config

end Intake
