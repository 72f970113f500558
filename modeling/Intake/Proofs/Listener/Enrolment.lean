import Intake.Proofs.Listener.Alike
import Intake.Proofs.Listener.Calls
import Intake.Proofs.Listener.Staffing

/-!
# Which registrations are taken

Registrations have their turn one after another.  What comes of one depends on what came of those
before it: a name that is taken is not looked up again, but one that could not be resolved, or
whose batch was empty, is still to be had.

- `Lookup.Resolves`: how a name is resolved, and what is asked for that
- `Enrols`: what comes of each registration
- `Opened`: the listener that is built for what comes of them
- `enrols_build`: every list of registrations is enrolled, and the listener built for it
-/

namespace Intake

variable {σ : Type}

/-! ## Looking up a name -/

/-- What a look-up is asked. -/
inductive Question
  | destination (name : String)
  | redrive (dest : String)

/-- Look-ups that note what they are asked, in order. -/
def Lookup.noting (k : Lookup σ) : Lookup (σ × List Question) where
  destination name s :=
    ((k.destination name s.1).1, (k.destination name s.1).2, s.2 ++ [.destination name])
  redrive dest s := ((k.redrive dest s.1).1, (k.redrive dest s.1).2, s.2 ++ [.redrive dest])

/-- A name is looked up in a state: first its destination, then whether there is a dead-letter
    queue.  That leads to an answer, by some questions, and to another state. -/
inductive Lookup.Resolves (k : Lookup σ) (name : String) (s : σ) :
    Except BrokerError (String × Bool) → List Question → σ → Prop
  | nowhere {e : BrokerError} {t : σ} (h : k.destination name s = (.error e, t)) :
    Resolves k name s (.error e) [.destination name] t
  | unclear {dest : String} {e : BrokerError} {t u : σ} (h : k.destination name s = (.ok dest, t))
    (h' : k.redrive dest t = (.error e, u)) :
    Resolves k name s (.error e) [.destination name, .redrive dest] u
  | resolved {dest : String} {redrive : Bool} {t u : σ} (h : k.destination name s = (.ok dest, t))
    (h' : k.redrive dest t = (.ok redrive, u)) :
    Resolves k name s (.ok (dest, redrive)) [.destination name, .redrive dest] u

/-- The source that a registration has once its name is resolved. -/
def Registration.source? (r : Registration) : Except BrokerError (String × Bool) → Option Source
  | .ok (dest, redrive) => some ⟨r.name, dest, r.options, redrive⟩
  | .error _ => none

/-- A registration is resolved as its name is looked up, and noting what is asked changes nothing
    about it. -/
private theorem Lookup.exists_resolves (k : Lookup σ) (r : Registration) (s : σ)
    (qs : List Question) :
    ∃ a asked t result, k.Resolves r.name s a asked t ∧ r.source? a = result.toOption ∧
      k.source r.name r.options s = (result, t) ∧
      k.noting.source r.name r.options (s, qs) = (result, t, qs ++ asked) := by
  simp only [source, noting]
  -- By the two questions: where the queue is, and what its redrive rule is.
  cases hdest : k.destination r.name s with
  | mk found t =>
    cases found with
    | error e => exact ⟨_, _, t, .error (.unresolved r.name e), .nowhere hdest, rfl, rfl, rfl⟩
    | ok dest =>
      cases hredrive : k.redrive dest t with
      | mk found' u =>
        cases found' with
        | error e =>
          exact ⟨_, _, u, .error (.unresolved r.name e), .unclear hdest hredrive, rfl,
            by simp [hredrive], by simp [hredrive]⟩
        | ok redrive =>
          exact ⟨_, _, u, .ok ⟨r.name, dest, r.options, redrive⟩, .resolved hdest hredrive, rfl,
            by simp [hredrive], by simp [hredrive]⟩

/-! ## Registrations in their turn -/

/-- What came of a registration in its turn. -/
structure Enrolment (σ : Type) where
  entry : Registration
  /-- The state of what is asked, before and after. -/
  before : σ
  after : σ
  /-- What was asked. -/
  asked : List Question
  /-- The source that is served, if the registration was taken. -/
  source? : Option Source

namespace Enrolment

/-- A registration may be taken if its batch is not empty and its name was not taken before. -/
def IsEligible (earlier : List (Enrolment σ)) (e : Enrolment σ) : Prop :=
  1 ≤ e.entry.options.batch ∧ ∀ u ∈ earlier, u.entry.name = e.entry.name → u.source? = none

/-- What comes of a registration after others: one that may be taken is looked up, and taken if its
    name is resolved; nothing is asked for any other. -/
structure Follows (k : Lookup σ) (earlier : List (Enrolment σ)) (e : Enrolment σ) : Prop where
  lookedUp : e.IsEligible earlier → ∃ a, k.Resolves e.entry.name e.before a e.asked e.after ∧
    e.source? = e.entry.source? a
  passedOver : ¬ e.IsEligible earlier → e.source? = none ∧ e.asked = [] ∧ e.after = e.before

/-- The station that is opened, with the registration's own handler or else the one for all. -/
def station? (handler : String) (e : Enrolment σ) : Option Station :=
  e.source?.map fun source => Listener.stationOf source (e.entry.handler.getD handler)

/-- The registrations that were taken. -/
def taken (es : List (Enrolment σ)) : List (Enrolment σ) := es.filter (·.source?.isSome)

/-- The state of what is asked after some registrations. -/
def leaves (s : σ) (es : List (Enrolment σ)) : σ := (es.getLast?.map (·.after)).getD s

end Enrolment

open Enrolment (taken leaves)

/-- What comes of registrations in order, each in the state that the ones before it have left. -/
structure Enrols (k : Lookup σ) (rs : List Registration) (s : σ) (es : List (Enrolment σ)) :
    Prop where
  entries : es.map (·.entry) = rs
  each : ∀ earlier e later, es = earlier ++ e :: later →
    e.before = leaves s earlier ∧ e.Follows k earlier

namespace Enrols

variable {k : Lookup σ} {rs : List Registration} {s : σ} {es : List (Enrolment σ)}
  {e : Enrolment σ} {source : Source}

/-- One more registration has its turn. -/
private theorem append (h : Enrols k rs s es) (hbefore : e.before = leaves s es)
    (he : e.Follows k es) : Enrols k (rs ++ [e.entry]) s (es ++ [e]) where
  entries := by rw [List.map_append, h.entries, List.map_singleton]
  each earlier e' later hcut := by
    rcases cut_append hcut with ⟨rfl, rfl, -⟩ | ⟨later', -, hcut⟩
    · exact ⟨hbefore, he⟩
    · exact h.each earlier e' later' hcut

/-- A source keeps the name and the options of its registration. -/
theorem source_of_mem (h : Enrols k rs s es) (he : e ∈ es) (hsource : e.source? = some source) :
    source.name = e.entry.name ∧ source.options = e.entry.options := by
  obtain ⟨earlier, later, hcut⟩ := List.append_of_mem he
  -- Whoever is looked up has the source that was found.
  obtain ⟨-, hfollows⟩ := h.each earlier e later hcut
  by_cases heligible : e.IsEligible earlier
  · obtain ⟨a, -, hsame⟩ := hfollows.lookedUp heligible
    rw [hsource] at hsame
    cases a with
    | error => cases hsame
    | ok found =>
      obtain rfl := Option.some.inj hsame
      exact ⟨rfl, rfl⟩
  · -- Who is passed over has no source.
    rw [(hfollows.passedOver heligible).1] at hsource
    cases hsource

/-- Where names differ and no batch is empty, every registration may be taken. -/
theorem isEligible (h : Enrols k rs s es) (hnames : (rs.map (·.name)).Nodup)
    (hbatch : ∀ r ∈ rs, 1 ≤ r.options.batch) {earlier later : List (Enrolment σ)}
    (hcut : es = earlier ++ e :: later) : e.IsEligible earlier := by
  rw [← h.entries, List.map_map, hcut, List.map_append, List.nodup_append] at hnames
  refine ⟨hbatch e.entry ?_, fun u hu hname => ?_⟩
  · rw [← h.entries]
    exact List.mem_map_of_mem (hcut ▸ List.mem_append_right _ List.mem_cons_self)
  · -- Nobody before has the name.
    exact absurd hname (hnames.2.2 _ (List.mem_map_of_mem hu) _ List.mem_cons_self)

end Enrols

namespace Listener

open Enrols

variable {k : Lookup σ} {rs : List Registration} {s : σ} {es : List (Enrolment σ)}

/-! ## The turns of a list -/

/-- Registering one list after the other. -/
private theorem stationsOf_append (k : Lookup σ) (handler : String) (rs rs' : List Registration)
    (stations : List Station) (notices : List Notice) (s : σ) :
    stationsOf k handler (rs ++ rs') stations notices s =
      stationsOf k handler rs' (stationsOf k handler rs stations notices s).1
        (stationsOf k handler rs stations notices s).2.1
        (stationsOf k handler rs stations notices s).2.2 := by
  induction rs generalizing stations notices s with
  | nil => rfl
  | cons r rs ih =>
    simp only [List.cons_append, stationsOf]
    -- A registration is refused, or unresolved, or it gets a station; each time the rest follows.
    split
    · exact ih ..
    · split
      · exact ih ..
      · split <;> exact ih ..

/-- Where the names are new and no batch is empty, only a name that cannot be resolved is
    reported. -/
theorem notices_stationsOf {rs : List Registration} {stations : List Station}
    (hnames : (rs.map (·.name)).Nodup) (hnew : ∀ r ∈ rs, ∀ st ∈ stations, st.source.name ≠ r.name)
    (hbatch : ∀ r ∈ rs, 1 ≤ r.options.batch) (notices : List Notice) (s : σ) :
    ∀ n ∈ (stationsOf k handler rs stations notices s).2.1,
      n ∈ notices ∨ ∃ name cause, n = .unresolved name cause := by
  induction rs generalizing stations notices s with
  | nil => exact fun n hn => .inl hn
  | cons r rs ih =>
    rw [List.map_cons, List.nodup_cons] at hnames
    rw [List.forall_mem_cons] at hnew hbatch
    unfold stationsOf
    rw [if_neg (by simpa using hnew.1), if_neg (Nat.ne_of_gt hbatch.1)]
    split
    next e t _ =>
      -- Not found: a notice, and no station.
      intro n hn
      rcases ih hnames.2 hnew.2 hbatch.2 _ t n hn with hn | hn
      · rcases List.mem_cons.mp hn with rfl | hn
        · exact .inr ⟨_, _, rfl⟩
        · exact .inl hn
      · exact .inr hn
    next source t hsource =>
      refine ih hnames.2 (fun r' hr' st hst => ?_) hbatch.2 notices t
      rcases List.mem_append.mp hst with hst | hst
      · exact hnew.2 r' hr' st hst
      · -- The station that was opened has the name of its registration.
        obtain rfl := List.mem_singleton.mp hst
        rw [stationOf, (source_eq_ok hsource).1]
        exact fun hname => hnames.1 (hname ▸ List.mem_map_of_mem hr')

/-- A name has a station if a registration of it was taken. -/
theorem any_stations_iff (h : Enrols k rs s es) (handler name : String) :
    (es.filterMap (·.station? handler)).any (·.source.name = name) ↔
      ¬ ∀ u ∈ es, u.entry.name = name → u.source? = none := by
  rw [List.any_eq_true]
  constructor
  · -- A station of the name is that of an entry with a source.
    rintro ⟨st, hst, hname⟩ hnone
    obtain ⟨u, hu, hstation⟩ := List.mem_filterMap.mp hst
    obtain ⟨source, hsource, rfl⟩ := Option.map_eq_some_iff.mp hstation
    have hentry : u.entry.name = name :=
      (h.source_of_mem hu hsource).1.symm.trans (of_decide_eq_true hname)
    rw [hnone u hu hentry] at hsource
    cases hsource
  · intro hsome
    push Not at hsome
    obtain ⟨u, hu, hname, htaken⟩ := hsome
    obtain ⟨source, hsource⟩ := Option.ne_none_iff_exists'.mp htaken
    refine ⟨stationOf source (u.entry.handler.getD handler), List.mem_filterMap.mpr ⟨u, hu, ?_⟩,
      decide_eq_true ((h.source_of_mem hu hsource).1.trans hname)⟩
    rw [Enrolment.station?, hsource, Option.map_some]

/-- One registration has its turn after others, whether or not it is noted what is asked. -/
private theorem exists_follows (h : Enrols k rs s es) (handler : String) (r : Registration)
    (notices : List Notice) (qs : List Question) : ∃ (e : Enrolment σ) (notices' : List Notice),
      e.entry = r ∧ e.before = leaves s es ∧ e.Follows k es ∧
      stationsOf k handler [r] (es.filterMap (·.station? handler)) notices (leaves s es) =
        ((es ++ [e]).filterMap (·.station? handler), notices', e.after) ∧
      stationsOf k.noting handler [r] (es.filterMap (·.station? handler)) notices
          (leaves s es, qs) =
        ((es ++ [e]).filterMap (·.station? handler), notices', e.after, qs ++ e.asked) := by
  have hany := any_stations_iff h handler r.name
  -- What comes of a registration that is passed over.
  let skipped : Enrolment σ := ⟨r, leaves s es, leaves s es, [], none⟩
  have hskipped : ¬ skipped.IsEligible es → skipped.Follows k es :=
    fun hnot => ⟨fun heligible => absurd heligible hnot, fun _ => ⟨rfl, rfl, rfl⟩⟩
  have hstations : (es ++ [skipped]).filterMap (·.station? handler) =
      es.filterMap (·.station? handler) := by
    rw [List.filterMap_append]
    exact List.append_nil _
  simp only [stationsOf]
  split
  next htaken =>
    refine ⟨skipped, .repeated r.name :: notices, rfl, rfl, hskipped fun heligible => ?_, ?_, ?_⟩
    · exact hany.mp htaken heligible.2
    · rw [hstations]
    · rw [hstations, List.append_nil]
  next hfree =>
    split
    next hbatch =>
      refine ⟨skipped, .emptyBatch r.name :: notices, rfl, rfl, hskipped fun heligible => ?_,
        ?_, ?_⟩
      · have hpos : 1 ≤ r.options.batch := heligible.1
        omega
      · rw [hstations]
      · rw [hstations, List.append_nil]
    next hbatch =>
      obtain ⟨a, asked, t, result, hresolves, hsource, hplain, hnoting⟩ :=
        k.exists_resolves r (leaves s es) qs
      rw [hplain, hnoting]
      have hfollows : Enrolment.Follows k es ⟨r, leaves s es, t, asked, r.source? a⟩ := by
        refine ⟨fun _ => ⟨a, hresolves, rfl⟩, fun hnot => absurd ⟨?_, ?_⟩ hnot⟩
        · show 1 ≤ r.options.batch
          omega
        · by_contra hsome
          exact hfree (hany.mpr hsome)
      cases result with
      | error e =>
        refine ⟨_, .unresolved r.name e :: notices, rfl, rfl, hfollows, ?_, ?_⟩
        all_goals simp [Enrolment.station?, hsource, Except.toOption]
      | ok source =>
        refine ⟨_, notices, rfl, rfl, hfollows, ?_, ?_⟩
        all_goals simp [Enrolment.station?, hsource, Except.toOption]

/-- Every list of registrations is enrolled, and the stations are opened for those that are
    taken. -/
theorem exists_enrols (k : Lookup σ) (handler : String) (rs : List Registration) (s : σ) :
    ∃ (es : List (Enrolment σ)) (notices : List Notice), Enrols k rs s es ∧
      stationsOf k handler rs [] [] s =
        (es.filterMap (·.station? handler), notices, leaves s es) ∧
      stationsOf k.noting handler rs [] [] (s, []) =
        (es.filterMap (·.station? handler), notices, leaves s es, es.flatMap (·.asked)) := by
  induction rs using List.reverseRecOn with
  | nil => exact ⟨[], [], ⟨rfl, by simp⟩, rfl, rfl⟩
  -- The last registration follows those before it.
  | append_singleton rs r ih =>
    obtain ⟨es, notices, henrols, hplain, hnoting⟩ := ih
    obtain ⟨e, notices', rfl, hbefore, hfollows, hplain', hnoting'⟩ :=
      exists_follows henrols handler r notices (es.flatMap (·.asked))
    have hafter : leaves s (es ++ [e]) = e.after := by simp [leaves]
    refine ⟨es ++ [e], notices', henrols.append hbefore hfollows, ?_, ?_⟩
    · rw [stationsOf_append, hplain, hplain', hafter]
    · rw [stationsOf_append, hnoting, hnoting', hafter, List.flatMap_append,
        List.flatMap_singleton]

/-! ## The stations that are opened -/

/-- What a station has from its registration the stations have from those that were taken. -/
private theorem map_stations {α : Type} (h : Enrols k rs s es) (handler : String) {f : Station → α}
    {g : Registration → α}
    (hfg : ∀ (r : Registration) (source : Source) (own : String), source.name = r.name →
      source.options = r.options → f (stationOf source own) = g r) :
    (es.filterMap (·.station? handler)).map f = (taken es).map fun e => g e.entry := by
  rw [List.map_filterMap, taken, ← List.filterMap_eq_map, List.filterMap_filter]
  refine List.filterMap_congr fun e he => ?_
  -- Only those that were resolved have a station, and its source has their name and options.
  cases hsource : e.source? with
  | none => simp [Enrolment.station?, hsource]
  | some source =>
    obtain ⟨hname, hoptions⟩ := h.source_of_mem he hsource
    simp [Enrolment.station?, hsource, hfg e.entry source _ hname hoptions]

/-- The stations have the names of the entries taken. -/
private theorem names_stations (h : Enrols k rs s es) (handler : String) :
    (es.filterMap (·.station? handler)).map (·.source.name) = (taken es).map (·.entry.name) :=
  map_stations h handler fun _ _ _ hname _ => hname

/-- There are as many. -/
theorem length_stations (h : Enrols k rs s es) (handler : String) :
    (es.filterMap (·.station? handler)).length = (taken es).length := by
  simpa using congrArg List.length (names_stations h handler)

/-- And their batches are those of the entries. -/
theorem totalBatch_stations (h : Enrols k rs s es) (handler : String) :
    totalBatch (es.filterMap (·.station? handler)) =
      ((taken es).map (·.entry.options.batch)).sum := by
  rw [totalBatch_eq_sum, map_stations h handler (g := (·.options.batch))]
  exact fun _ _ _ _ hoptions => congrArg QueueOptions.batch hoptions

end Listener

/-- A listener serves a registration that was taken: from the source that was found, with the
    registration's own handler or else the one for all.  All slots of the queue are free, and it
    is stopped. -/
structure Listener.Serves (l : Listener) (handler : String) (r : Registration) (source : Source) :
    Prop where
  station : ∃ slots, l.station? r.name = some ⟨source, r.handler.getD handler, slots⟩ ∧
    slots.capacity = r.options.batch ∧ slots.free = r.options.batch
  stage : l.lifecycle.stage? r.name = some .stopped

/-- Nothing that starts and stops queues knows a queue. -/
structure Listener.Stranger (l : Listener) (q : String) : Prop where
  unlisted : q ∉ l.registered
  stage : l.lifecycle.stage? q = none
  unpolled : ∀ x ∈ l.pollers, x.id.queue ≠ q
  /-- A start or a stop of the queue is refused, and nothing changes. -/
  refused : ∀ now n, ∀ s ∈ [Stimulus.start n q, .stop n q],
    (l.step now s).effects =
        [.returned n (.error (if l.active then .notRegistered q else .shutDown))] ∧
      (l.step now s).after = l

/-- A listener that was built for what came of some registrations. -/
structure Opened (settings : ListenerSettings) (handler : String) (es : List (Enrolment σ))
    (l : Listener) : Prop where
  serves : ∀ e ∈ es, ∀ source, e.source? = some source → l.Serves handler e.entry source
  /-- The registered queues are those of the registrations that were taken. -/
  registered : l.registered = sortedTexts ((taken es).map (·.entry.name))
  nodup : ((taken es).map (·.entry.name)).Nodup
  /-- No other queue is known, then or later. -/
  stranger : ∀ xs q, (∀ e ∈ es, e.entry.name = q → e.source? = none) → (l.run xs).Stranger q
  /-- The number of workers is the one that is set, or else the sum of the batches. -/
  limit : (settings.maxWorkers = none → ((taken es).map (·.entry.options.batch)).sum < size64) →
    l.workers.limit =
      max (settings.maxWorkers.getD ((taken es).map (·.entry.options.batch)).sum) 1
  core : (taken es).length * settings.workersPerQueue < size64 →
    l.workers.core = min ((taken es).length * settings.workersPerQueue) l.workers.limit

namespace Listener

variable {k : Lookup σ} {rs : List Registration} {s : σ} {es : List (Enrolment σ)}
  {settings : ListenerSettings} {polling : Polling} {handler : String} {l : Listener} {q : String}

/-- A start and a stop look for the station first. -/
private theorem after_unknown (hnone : l.station? q = none) (now n : Nat) :
    ∀ s ∈ [Stimulus.start n q, .stop n q], l.after now s =
      l.emit (.returned n (.error (if l.active then .notRegistered q else .shutDown))) := by
  intro s hs
  rcases List.mem_pair.mp hs with rfl | rfl
  · cases hactive : l.active <;> simp [after, start, hactive, hnone, returnsShutDown]
  · cases hactive : l.active <;> simp [after, stop, hactive, hnone, returnsShutDown]

/-- A queue that has no station is a stranger. -/
private theorem Sound.stranger (h : l.Sound) (hout : l.outbox = []) (hq : q ∉ l.names) :
    l.Stranger q where
  unlisted := mt mem_registered.mp hq
  stage := by
    -- Nothing of the queue is there: no standing, no poller, no station.
    have hnone : l.lifecycle.standing? q = none := by
      by_contra hsome
      exact hq (h.standing_known q (Option.isSome_iff_ne_none.mpr hsome))
    rw [Lifecycle.stage?, hnone]
    rfl
  unpolled x hx hxq := hq (hxq ▸ h.poller_known x.id (List.mem_map_of_mem hx))
  refused now n s hs := by
    have hnone : ({ l with outbox := [] } : Listener).station? q = none := by
      by_contra hsome
      exact hq (isSome_station?.mp (Option.isSome_iff_ne_none.mpr hsome))
    exact step_of_emit hout (after_unknown hnone now n s hs)

/-- A registration that was taken has its station under its name. -/
theorem station?_build (h : Enrols k rs s es)
    (hstations : (build k settings polling handler rs s).1.stations =
      es.filterMap (·.station? handler)) {e : Enrolment σ} {source : Source} (he : e ∈ es)
    (hsource : e.source? = some source) :
    (build k settings polling handler rs s).1.station? e.entry.name =
      some (stationOf source (e.entry.handler.getD handler)) := by
  have hmem : stationOf source (e.entry.handler.getD handler) ∈
      (build k settings polling handler rs s).1.stations := by
    rw [hstations]
    exact List.mem_filterMap.mpr ⟨e, he, by rw [Enrolment.station?, hsource, Option.map_some]⟩
  -- A name has one station, so it is this one.
  rw [← (h.source_of_mem he hsource).1]
  exact station?_of_mem (sound_build k settings polling handler rs s).names_nodup hmem

/-- An entry with a source is served. -/
theorem serves_build (h : Enrols k rs s es)
    (hstations : (build k settings polling handler rs s).1.stations =
      es.filterMap (·.station? handler)) {e : Enrolment σ} {source : Source} (he : e ∈ es)
    (hsource : e.source? = some source) :
    (build k settings polling handler rs s).1.Serves handler e.entry source := by
  -- What was enrolled has a station under its name.
  have hoptions := (h.source_of_mem he hsource).2
  have hstation := station?_build h hstations he hsource
  have hknown : e.entry.name ∈ (build k settings polling handler rs s).1.names :=
    isSome_station?.mp (Option.isSome_of_eq_some hstation)
  refine ⟨⟨_, hstation, congrArg (·.batch) hoptions, congrArg (·.batch) hoptions⟩, ?_⟩
  rw [Lifecycle.stage?, standing?_build, if_pos hknown]
  rfl

/-- The listener with the stations of those that were taken is the one to be built. -/
theorem opened_build (h : Enrols k rs s es)
    (hstations : (build k settings polling handler rs s).1.stations =
      es.filterMap (·.station? handler)) :
    Opened settings handler es (build k settings polling handler rs s).1 := by
  have hsound := sound_build k settings polling handler rs s
  have hnames : (build k settings polling handler rs s).1.names =
      (taken es).map (·.entry.name) := by
    rw [names, hstations, names_stations h]
  constructor
  case serves => exact fun e he source hsource => serves_build h hstations he hsource
  case registered => exact congrArg sortedTexts hnames
  case nodup => exact hnames ▸ hsound.names_nodup
  case stranger =>
    intro xs q hnone
    apply (sound_run hsound xs).stranger (outbox_run rfl xs)
    -- No run changes which queues there are.
    rw [names_of_posts (posts_run _ xs), hnames]
    intro hmem
    obtain ⟨e, he, hname⟩ := List.mem_map.mp hmem
    obtain ⟨he, hsome⟩ := List.mem_filter.mp he
    rw [hnone e he hname] at hsome
    cases hsome
  case limit =>
    intro hfits
    rw [workers_build, Workers.ofSize, workerLimit, hstations, totalBatch_stations h]
    cases hmax : settings.maxWorkers with
    | some n => rfl
    | none => exact congrArg (max · 1) (Nat.mod_eq_of_lt (hfits hmax))
  case core =>
    intro hfits
    rw [workers_build, Workers.ofSize, coreWorkers, hstations, length_stations h, sized,
      Nat.mod_eq_of_lt hfits]

/-- An empty batch and a failed look-up do not keep a name from being taken. -/
example :
    let k : Lookup Nat :=
      ⟨fun name n => (if n = 0 then .error (.unknownQueue name) else .ok name, n + 1),
        fun _ n => (.ok true, n)⟩
    let o := QueueOptions.standard
    (build k .standard .bySlots "h" [⟨"q", { o with batch := 0 }, none⟩, ⟨"q", o, none⟩,
        ⟨"q", o, some "own"⟩, ⟨"q", o, none⟩] 0).1.posts =
      [(⟨"q", "q", o, true⟩, "own")] := by
  decide

end Listener

end Intake
