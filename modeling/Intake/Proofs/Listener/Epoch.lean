import Intake.Proofs.Listener.Sound

/-!
# Epochs go on and do not come back

A queue goes from one standing to later ones: its epoch never falls, and it is running
again only in an epoch that it has not had.  So a poller whose epoch is over stays
outdated, whatever else happens.

- `Lifecycle.Onward`: one lifecycle can become another
- `Move.desk_eq`: pollers leave alone what callers see
- `onward_react`: the lifecycle of a listener goes onward in every step
- `IsOver.onward`: an epoch that is over stays over
-/

namespace Intake

/-! ## Standings -/

/-- A standing can give way to another one: the epoch does not fall, and a queue that has
    come to run does so in a new epoch. -/
structure Standing.Precedes (s s' : Standing) : Prop where
  epoch_le : s.epoch ≤ s'.epoch
  running : s'.stage = .running → s' = s ∨ s.epoch < s'.epoch

namespace Standing

/-- A standing precedes itself. -/
theorem Precedes.refl (s : Standing) : s.Precedes s := ⟨Nat.le_refl _, fun _ => .inl rfl⟩

/-- Preceding is transitive. -/
theorem Precedes.trans {s s' s'' : Standing} (h : s.Precedes s') (h' : s'.Precedes s'') :
    s.Precedes s'' where
  epoch_le := Nat.le_trans h.epoch_le h'.epoch_le
  running hrun := by
    rcases h'.running hrun with rfl | hlt
    · exact h.running hrun
    · exact .inr (Nat.lt_of_le_of_lt h.epoch_le hlt)

end Standing

namespace Lifecycle

variable {l l' l'' : Lifecycle} {q : String} {e : Nat}

/-- One lifecycle can become another: every standing comes from one that precedes it, so no
    queue becomes known. -/
def Onward (l l' : Lifecycle) : Prop :=
  ∀ q s', l'.standing? q = some s' → ∃ s, l.standing? q = some s ∧ s.Precedes s'

/-- A lifecycle goes on from itself. -/
theorem Onward.refl (l : Lifecycle) : l.Onward l := fun _ s hs => ⟨s, hs, .refl s⟩

/-- Going on is transitive. -/
theorem Onward.trans (h : l.Onward l') (h' : l'.Onward l'') : l.Onward l'' := by
  intro q s'' hs''
  obtain ⟨s', hs', hp'⟩ := h' q s'' hs''
  obtain ⟨s, hs, hp⟩ := h q s' hs'
  exact ⟨s, hs, hp.trans hp'⟩

/-- A queue that is not known does not get known. -/
theorem Onward.unknown (h : l.Onward l') (hq : l.standing? q = none) : l'.standing? q = none := by
  cases hs' : l'.standing? q with
  | none => rfl
  | some s' =>
    -- A queue that is known now was known before.
    obtain ⟨s, hs, -⟩ := h q s' hs'
    rw [hq] at hs
    cases hs

/-- A start goes on, since it opens a higher epoch. -/
private theorem onward_beginStart (he : l.nextEpoch? q = some e) : l.Onward (l.beginStart q) := by
  intro j s' hs'
  rw [standing?_beginStart he] at hs'
  split at hs'
  next hj =>
    -- The epoch that a start opens is the next one.
    obtain ⟨s, hs, -, rfl⟩ := nextEpoch?_eq_some.mp he
    obtain rfl := Option.some.inj hs'
    exact ⟨s, hj ▸ hs, Nat.le_succ _, fun _ => .inr (Nat.lt_succ_self _)⟩
  next => exact ⟨s', hs', .refl s'⟩

/-- A stop goes on: the epoch stays. -/
private theorem onward_beginStop (he : l.runningEpoch? q = some e) : l.Onward (l.beginStop q) := by
  intro j s' hs'
  rw [standing?_beginStop he] at hs'
  split at hs'
  -- The queue itself keeps its epoch and only changes its stage; the others stay as they are.
  next hj =>
    obtain rfl := Option.some.inj hs'
    exact ⟨_, hj ▸ runningEpoch?_eq_some.mp he, Nat.le_refl e, nofun⟩
  next => exact ⟨s', hs', .refl s'⟩

/-- So does the end of a stop. -/
private theorem onward_finishStop (l : Lifecycle) (q : String) (e : Nat) : l.Onward
    (l.finishStop q e) := by
  intro j s' hs'
  rw [standing?_finishStop] at hs'
  split at hs'
  -- As when a stop begins, the epoch stays.
  next hj =>
    obtain rfl := Option.some.inj hs'
    exact ⟨_, hj.1 ▸ hj.2, Nat.le_refl e, nofun⟩
  next => exact ⟨s', hs', .refl s'⟩

/-- So does clearing. -/
private theorem onward_clear (l : Lifecycle) : l.Onward l.clear := by
  intro q s' hs'
  rw [standing?_clear] at hs'
  cases hs'

/-- Each next state goes on. -/
theorem Next.onward (h : l.Next l') : l.Onward l' := by
  cases h with
  | same => exact .refl l
  | started he => exact onward_beginStart he
  | stopping he => exact onward_beginStop he
  | stopped q e => exact onward_finishStop l q e
  | cleared => exact onward_clear l

end Lifecycle

namespace Listener

variable {G : String → Delivery → Prop} {a : Actor} {l l' : Listener} {p : PollerId}
  {s : Stimulus}

/-! ## What callers see -/

/-- What pollers and jobs leave alone: the settings, the lifecycle, the pending calls and
    whether the listener is active. -/
def desk (l : Listener) : ListenerSettings × Lifecycle × List Call × Bool :=
  (l.settings, l.lifecycle, l.calls, l.active)

/-- The settings lie on the desk. -/
theorem settings_of_desk (h : l'.desk = l.desk) : l'.settings = l.settings :=
  congrArg Prod.fst h

/-- So does the lifecycle. -/
theorem lifecycle_of_desk (h : l'.desk = l.desk) : l'.lifecycle = l.lifecycle :=
  congrArg (·.2.1) h

/-- So do the pending calls. -/
theorem calls_of_desk (h : l'.desk = l.desk) : l'.calls = l.calls := congrArg (·.2.2.1) h

/-- So does whether the listener is active. -/
theorem active_of_desk (h : l'.desk = l.desk) : l'.active = l.active := congrArg (·.2.2.2) h

/-- Giving a slot back touches nothing on the desk. -/
@[simp] theorem desk_releaseSlot (l : Listener) (q : String) : (l.releaseSlot q).desk = l.desk := by
  rw [releaseSlot_eq]
  rfl

/-- Nor does offering a message. -/
theorem Offered.desk_eq {d : Delivery} {o : Option Fate} (h : Offered l p d o l') :
    l'.desk = l.desk := by
  -- Taking a slot touches no desk.
  have htake : ∀ {m : Listener}, l.takeSlot? p.queue = some m → m.desk = l.desk :=
    fun hm => same_takeSlot? (fun _ => rfl) hm
  cases h with
  | noSlot => rfl
  | outdated hm => rw [desk_releaseSlot, htake hm]
  | taken hm => exact (htake hm :)
  | @refused m hm =>
    exact (desk_releaseSlot { m with workers := l.workers.submit p } p.queue).trans (htake hm :)
  | queued hm => exact (htake hm :)

/-- Nor does handing one on again. -/
private theorem desk_offerAgain (l : Listener) (p : PollerId) (d : Delivery) :
    (l.offerAgain p d).2.desk = l.desk := by
  unfold offerAgain
  dsimp only
  split
  · rfl
  · exact desk_releaseSlot { l with workers := l.workers.resume p } p.queue

/-- A poller leaves alone what callers see. -/
theorem Move.desk_eq (hm : Move G (.poller p) l l') : l'.desk = l.desk := by
  cases hm with
  | wentPast => exact (offered ..).desk_eq
  | queued => exact ((offered ..).desk_eq :)
  | wentOn => exact desk_offerAgain ..
  | _ => rfl

/-- Nor does settling a job. -/
theorem desk_settle (l : Listener) (j : Job) : (l.settle j).desk = l.desk :=
  desk_releaseSlot { l with jobs := l.jobs.filter (·.number ≠ j.number) } j.queue

/-- So does the work on a message. -/
theorem desk_after_job (now : Nat) {s : Stimulus} (hs : s.job?.isSome) :
    (l.after now s).desk = l.desk := by
  apply after_forJob_of_parts (P := fun m => m.desk = l.desk) now s hs rfl
  · exact fun h => h
  · exact fun h => h
  · exact fun h => h
  · exact fun h => h
  · exact fun {_ j} _ h => (desk_settle _ j).trans h

/-- Only callers change what callers see. -/
theorem desk_react (now : Nat) (hs : ∀ call, s.actor ≠ .caller call) :
    (l.react now s).1.desk = l.desk := by
  have hafter : (({ l with outbox := [] } : Listener).after now s).desk = l.desk := by
    apply after_of_moves (P := fun m => m.desk = l.desk) now s
    · rfl
    · -- A poller's move and a job's note leave the desk alone.
      intro m m' hm hdesk
      cases ha : s.actor with
      | caller call => exact absurd ha (hs call)
      | poller p =>
        rw [ha] at hm
        exact hm.desk_eq.trans hdesk
      | job n =>
        rw [ha] at hm
        cases hm with
        | noted => exact hdesk
    · intro hjob
      exact desk_after_job now hjob
  exact hafter

/-! ## The lifecycle goes onward -/

/-- A move takes the lifecycle one step on, at the most. -/
private theorem Move.lifecycle_next (hm : Move G a l l') : l.lifecycle.Next l'.lifecycle := by
  cases a with
  | poller p =>
    rw [lifecycle_of_desk hm.desk_eq]
    exact .same
  | job n =>
    cases hm with
    | noted => exact .same
  -- Only a caller's move does; each is one of the five ways.
  | caller call =>
    cases hm with
    | opened he => exact .started he
    | stopping he => exact .stopping he
    | stopped q e => exact .stopped q e
    | cleared => exact .cleared
    | forgot =>
      unfold forgetBroken
      split <;> exact .same
    | _ => exact .same

/-- So by a move the lifecycle goes on. -/
theorem Move.onward (hm : Move G a l l') : l.lifecycle.Onward l'.lifecycle :=
  hm.lifecycle_next.onward

/-- What every operation on the lifecycle keeps, every step keeps. -/
theorem lifecycle_keeps {P : Lifecycle → Prop} (hP : ∀ {m m' : Lifecycle}, m.Next m' → P m → P m')
    (h : P l.lifecycle) (now : Nat) (s : Stimulus) : P (l.react now s).1.lifecycle := by
  have hafter : P (({ l with outbox := [] } : Listener).after now s).lifecycle := by
    apply after_of_moves (P := fun m => P m.lifecycle) now s
    · exact h
    · intro m m' hm
      exact hP hm.lifecycle_next
    · intro hs
      rw [lifecycle_of_desk (desk_after_job now hs)]
      exact h
  exact hafter

/-- And by a step. -/
theorem onward_react (l : Listener) (now : Nat) (s : Stimulus) :
    l.lifecycle.Onward (l.react now s).1.lifecycle :=
  lifecycle_keeps (P := fun m => l.lifecycle.Onward m) (fun hm ho => ho.trans hm.onward) (.refl _)
    now s

section Build

variable {σ : Type} (k : Lookup σ) (settings : ListenerSettings) (polling : Polling)
  (handler : String) (rs : List Registration) (s : σ)

/-- In every run the queues of the lifecycle are unambiguous. -/
theorem nodup_queues_run (xs : List (Nat × Stimulus)) :
    ((build k settings polling handler rs s).1.run xs).lifecycle.queues.names.Nodup := by
  apply run_keeps (P := fun _ m => m.lifecycle.queues.names.Nodup)
  · rw [build_eq_idle, idle]
    exact Lifecycle.nodup_foldl_register _ List.nodup_nil
  · intro _ m now s hm
    exact lifecycle_keeps Lifecycle.Next.nodup hm now s

end Build

/-- There are no more running queues than registered ones that run. -/
theorem length_running_le (h : l.Sound) (hnodup : l.lifecycle.queues.names.Nodup) :
    l.lifecycle.running.length ≤ l.names.countP l.lifecycle.isRunning := by
  -- Whatever runs is known, so it is counted among the names.
  have hsub : l.lifecycle.running ⊆ l.names.filter l.lifecycle.isRunning := by
    intro q hq
    have hrunning := (Lifecycle.mem_running hnodup).mp hq
    obtain ⟨e, he⟩ := Lifecycle.isRunning_iff.mp hrunning
    exact List.mem_filter.mpr ⟨h.standing_known q (he ▸ rfl), hrunning⟩
  rw [List.countP_eq_length_filter]
  exact (List.subperm_of_subset (Lifecycle.nodup_running hnodup) hsub).length_le

/-! ## Epochs that are over -/

/-- The epoch of a poller is over: its queue has gone past it, or is not running in it, or is
    not known any more. -/
def IsOver (l : Listener) (p : PollerId) : Prop :=
  ∀ s, l.lifecycle.standing? p.queue = some s → p.epoch ≤ s.epoch ∧ s ≠ ⟨.running, p.epoch⟩

/-- A poller is current if its queue is running in its epoch. -/
theorem isCurrent_iff :
    l.isCurrent p ↔ l.lifecycle.standing? p.queue = some ⟨.running, p.epoch⟩ := by
  simp [isCurrent, Lifecycle.isCurrent]

/-- In a listener that has just been built every queue is stopped. -/
theorem isCurrent_build {σ : Type} (k : Lookup σ) (settings : ListenerSettings)
    (polling : Polling) (handler : String) (rs : List Registration) (s : σ) (p : PollerId) :
    (build k settings polling handler rs s).1.isCurrent p = false := by
  rw [Bool.eq_false_iff]
  intro hc
  have hstopped := isCurrent_iff.mp hc
  rw [build_eq_idle, idle, Lifecycle.standing?_foldl_register] at hstopped
  split at hstopped <;> cases hstopped

/-- A poller whose epoch is over is not current. -/
theorem IsOver.isCurrent (h : l.IsOver p) : l.isCurrent p = false := by
  rw [Bool.eq_false_iff]
  intro hc
  exact (h _ (isCurrent_iff.mp hc)).2 rfl

/-- An epoch that is over stays over. -/
theorem IsOver.onward (h : l.IsOver p) (ho : l.lifecycle.Onward l'.lifecycle) : l'.IsOver p := by
  intro s' hs'
  obtain ⟨s, hs, hp⟩ := ho p.queue s' hs'
  obtain ⟨hle, hne⟩ := h s hs
  refine ⟨Nat.le_trans hle hp.epoch_le, ?_⟩
  rintro rfl
  -- The queue would run in this epoch again, or in one that is later.
  rcases hp.running rfl with heq | hlt
  · exact hne heq.symm
  · exact Nat.not_lt.mpr hle hlt

end Listener

end Intake
