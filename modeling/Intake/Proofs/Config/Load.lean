import Intake.Proofs.Config.Check
import Intake.Proofs.Config.Override
import Intake.Proofs.Listener.Enrolment
import Intake.Service

/-!
# How a loaded configuration is registered

Names come from a file and from the environment.  Both lose the blanks around them before they are
compared, so that the checked names are the registered ones, and no registration is turned away.

- `Registrable`: the queues of a configuration have names that can be registered
- `Registered`: a listener was built for the queues of a configuration as they stand
- `registered_of_load`: so it is whenever the configuration was loaded
-/

namespace Intake

namespace Config

variable {c : Config} {env : Environment} {n : String} {v : Toml.Node} {q : QueueEntry}

/-! ## Names from a file -/

/-- An entry is read from some value, or it is absent. -/
private theorem of_entry? {α : Type} {read : Toml.Node → Option α} {absent a : α} {fs : Toml.Fields}
    {k : String} (h : entry? read absent fs k = some a) : a = absent ∨ ∃ v, read v = some a := by
  unfold entry? at h
  split at h
  next v _ => exact .inr ⟨v, h⟩
  next => exact .inl (Option.some.inj h).symm

/-- The name of a section is read without blanks around it. -/
private theorem isBare_of_queue? (h : queue? v = some q) : Text.IsBare q.name := by
  simp only [queue?, Option.bind_eq_bind, Option.bind_eq_some_iff] at h
  -- The name is the third thing read; what is read besides does not matter.
  obtain ⟨fs, -, n, hn, batch, -, visibility, -, wait, -, policy, -, wake, -, hq⟩ := h
  obtain rfl := Option.some.inj hq
  rcases of_entry? hn with rfl | ⟨v, hv⟩
  · -- A name that is left out is empty, and no blank begins or ends it.
    exact ⟨by simp [QueueEntry.blank], by simp [QueueEntry.blank]⟩
  · obtain ⟨s, -, rfl⟩ := Option.map_eq_some_iff.mp hv
    exact Text.isBare_trim s

/-- What holds of every value that is read holds of all values in a list. -/
private theorem forall_of_mapM {α β : Type} {read : α → Option β} {P : β → Prop} {xs : List α}
    {ys : List β}
    (h : xs.mapM read = some ys) (hread : ∀ x y, read x = some y → P y) : ∀ y ∈ ys, P y := by
  induction xs generalizing ys with
  | nil =>
    obtain rfl := Option.some.inj h
    exact List.forall_mem_nil _
  | cons x xs ih =>
    simp only [List.mapM_cons, Option.bind_eq_bind, Option.bind_eq_some_iff] at h
    obtain ⟨y, hy, ys', hys, h⟩ := h
    obtain rfl := Option.some.inj h
    exact List.forall_mem_cons.mpr ⟨hread x y hy, ih hys⟩

/-- The names of all sections are read without blanks around them. -/
private theorem isBare_of_queues? {qs : List QueueEntry} (h : queues? v = some qs) :
    ∀ q ∈ qs, Text.IsBare q.name := by
  cases v with
  | array vs => exact forall_of_mapM h fun _ _ => isBare_of_queue?
  | tables gs => exact forall_of_mapM h fun _ _ => isBare_of_queue?
  | _ => cases h

/-- So are those of a whole text. -/
private theorem isBare_of_ofText? {s : String} (h : ofText? s = some c) :
    ∀ q ∈ c.queues, Text.IsBare q.name := by
  obtain ⟨fs, -, h⟩ := Option.bind_eq_some_iff.mp h
  simp only [decode?, Option.bind_eq_bind, Option.bind_eq_some_iff] at h
  -- Of all that is read only the queues carry names.
  obtain ⟨sqs, -, listener, -, defaults, -, queues, hqueues, inMemory, -, hc⟩ := h
  obtain rfl := Option.some.inj hc
  rcases of_entry? hqueues with rfl | ⟨v, hv⟩
  · exact List.forall_mem_nil _
  · exact isBare_of_queues? hv

/-- A configuration read from the files has such names too, and the standard one has none. -/
private theorem isBare_of_unmodified {files : Files} {path : Option String}
    (h : unmodified files env path = .ok c) : ∀ q ∈ c.queues, Text.IsBare q.name := by
  unfold unmodified ofFile at h
  split at h
  -- From a file that is read and understood, or the standard one if there is none.
  next content _ =>
    split at h
    · cases h
    · split at h
      next c' htext =>
        cases h
        exact isBare_of_ofText? htext
      next => cases h
  next =>
    cases h
    exact List.forall_mem_nil _

/-! ## Names from the environment -/

/-- Overriding adds names without blanks around them only. -/
private theorem isBare_of_override (h : ∀ q ∈ c.queues, Text.IsBare q.name) (env : Environment) :
    ∀ q ∈ (c.override env).queues, Text.IsBare q.name := by
  obtain ⟨names, added, hoffers, hnewcomers, hadded⟩ := exists_added c env
  rw [hadded, List.forall_mem_append]
  refine ⟨h, fun q hq => ?_⟩
  obtain ⟨n, hn, rfl⟩ := List.mem_map.mp hq
  exact hoffers.isBare n ((hnewcomers.mem_iff n).mp hn).1

/-! ## Loaded configurations -/

/-- The queues of a configuration have names that are bare and not empty, each one its own. -/
structure Registrable (c : Config) : Prop where
  bare : ∀ q ∈ c.queues, Text.IsBare q.name
  named : ∀ q ∈ c.queues, q.name ≠ ""
  distinct : (c.queues.map (·.name)).Nodup

/-- What is loaded was checked after the environment had overridden it. -/
private theorem lawful_of_load {files : Files} {path : Option String}
    (h : load files env path = .ok c) : c.Lawful ∧ ∀ q ∈ c.queues, Text.IsBare q.name := by
  unfold load at h
  split at h
  · cases h
  next c' hfile =>
    unfold checked at h
    split at h
    · cases h
    -- What passes the check is lawful; the names come from the file and the override.
    next hfault =>
      cases h
      exact ⟨fault?_eq_none_iff.mp hfault, isBare_of_override (isBare_of_unmodified hfile) env⟩

/-- The names that were checked are the names as they stand. -/
private theorem Lawful.registrable (h : c.Lawful) (hbare : ∀ q ∈ c.queues, Text.IsBare q.name) :
    c.Registrable where
  bare := hbare
  named q hq hname := (h.queues.each q hq).named (by rw [Text.trim_eq_self (hbare q hq), hname])
  -- The rules are about trimmed names, and bare names are trimmed already.
  distinct := by
    have htrim : c.queues.map (Text.trim ·.name) = c.queues.map (·.name) :=
      List.map_congr_left fun q hq => Text.trim_eq_self (hbare q hq)
    exact htrim ▸ h.queues.distinct

/-! ## Registered configurations -/

open Listener

section Registered

variable {σ : Type}

/-- A listener was built for the queues of a configuration as they stand. -/
structure Registered (c : Config) (k : Lookup σ) (handler : String) (s : σ)
    (built : Listener × List Notice × σ) (es : List (Enrolment σ)) : Prop where
  enrols : Enrols k (Service.registrations c) s es
  /-- Every name is looked up, so that it is taken if it resolves. -/
  lookedUp : ∀ e ∈ es, ∃ a, k.Resolves e.entry.name e.before a e.asked e.after ∧
    e.source? = e.entry.source? a
  reported : ∀ n ∈ built.2.1, ∀ name, n ≠ .repeated name ∧ n ≠ .emptyBatch name
  /-- A queue that was taken has a station under its name, with the threshold that its options say.
      That is in its range as it is. -/
  served : ∀ e ∈ es, ∀ source, e.source? = some source → ∃ slots,
    built.1.station? e.entry.name = some ⟨source, handler, slots⟩ ∧
      slots.capacity = e.entry.options.batch ∧ slots.threshold = e.entry.options.wakeAt ∧
      1 ≤ slots.threshold ∧ slots.threshold ≤ slots.capacity

/-- The threshold of a station is the one that its options say, and in its range. -/
private theorem Admits.slots_stationOf (h : c.Admits q) {source : Source}
    (hsource : source.options = c.options q) (handler : String) :
    let slots := (stationOf source handler).slots
    slots.threshold = source.options.wakeAt ∧ 1 ≤ slots.threshold ∧
      slots.threshold ≤ slots.capacity := by
  -- The limits on a threshold are those that make a gate take it as it is.
  obtain ⟨hpos, hle⟩ := h.wakeAt_le
  rw [← hsource] at hpos hle
  have hthreshold := Slots.threshold_ofCapacity hpos hle
  exact ⟨hthreshold, hthreshold.symm ▸ hpos, hthreshold.symm ▸ hle⟩

/-- A lawful configuration registers all its queues, each under its own name. -/
theorem registered_build (h : c.Lawful) (hnames : c.Registrable) (settings : ListenerSettings)
    (polling : Polling) (k : Lookup σ) (handler : String) (s : σ) :
    ∃ es, c.Registered k handler s
      (build k settings polling handler (Service.registrations c) s) es := by
  obtain ⟨es, notices, henrols, hstations, -⟩ :=
    exists_enrols k handler (Service.registrations c) s
  have hopened : (build k settings polling handler (Service.registrations c) s).1.stations =
      es.filterMap (·.station? handler) := by
    rw [build_eq_idle, hstations]
    rfl
  have hdistinct : ((Service.registrations c).map (·.name)).Nodup := by
    rw [Service.registrations, List.map_map]
    exact hnames.distinct
  have hbatch : ∀ r ∈ Service.registrations c, 1 ≤ r.options.batch :=
    List.forall_mem_map.mpr fun q hq => (h.queues.each q hq).batch_pos
  -- What was checked makes each registration eligible in its turn.
  refine ⟨es, henrols, fun e he => ?_, fun n hn name => ?_, fun e he source hsource => ?_⟩
  · obtain ⟨earlier, later, hcut⟩ := List.append_of_mem he
    exact (henrols.each earlier e later hcut).2.lookedUp (henrols.isEligible hdistinct hbatch hcut)
  · rcases List.mem_cons.mp (List.mem_reverse.mp hn) with rfl | hn
    · exact ⟨nofun, nofun⟩
    · have hnew : ∀ r ∈ Service.registrations c, ∀ st ∈ ([] : List Station),
          st.source.name ≠ r.name := fun _ _ => List.forall_mem_nil _
      rcases notices_stationsOf hdistinct hnew hbatch [] s n hn with hn | ⟨_, _, rfl⟩
      · cases hn
      · exact ⟨nofun, nofun⟩
  · obtain ⟨-, hoptions⟩ := henrols.source_of_mem he hsource
    obtain ⟨q, hq, hentry⟩ := List.mem_map.mp (henrols.entries ▸ List.mem_map_of_mem he)
    have hhandler : e.entry.handler.getD handler = handler := by rw [← hentry, Option.getD_none]
    have hstation := station?_build henrols hopened he hsource
    rw [hhandler] at hstation
    have hsource' : source.options = c.options q := by rw [hoptions, ← hentry]
    obtain ⟨hthreshold, hrange⟩ := (h.queues.each q hq).slots_stationOf hsource' handler
    exact ⟨_, hstation, congrArg (·.batch) hoptions, hoptions ▸ hthreshold, hrange⟩

end Registered

end Config

end Intake
