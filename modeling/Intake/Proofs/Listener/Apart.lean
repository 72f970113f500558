import Intake.Proofs.Listener.Inputs

/-!
# Queues do not interfere

What surrounds a queue is a `Regime`: what its receive calls return and when, how long its
handlers are at work and how they end, and when the queue is started and stopped may depend on
what has happened on this queue so far, and on nothing else.  Two listeners with as many
workers as messages can be in hand, in which a queue is under the same regime, have the same
story to tell of the queue, whatever happens on their other queues.

- `story`: what happened on a queue, with instants, events, standings and free slots
- `Follows`: in a run a queue is under a regime, and loses no time by itself
- `Unfolds`: the story of a queue alone
- `Follows.unfolds`: seen from one of its queues, a run is a run of the queue alone
- `Unfolds.unique`: under a regime there is one story
- `apart_run`: the story of a queue is the same in any two runs
-/

namespace Intake

/-- What happened on a queue at one step. -/
structure Moment where
  now : Nat
  input : QueueInput
  /-- What was wanted done about the queue, in order. -/
  events : List QueueEvent
  /-- Where the queue stood afterwards. -/
  standing : Option Standing
  /-- Its free slots afterwards. -/
  free : Option Nat
deriving DecidableEq

/-- What surrounds a queue, as far as it depends on what happened on the queue so far. -/
structure Regime where
  /-- Whether something is due from outside at an instant: a call, the return of a receive
      call, the end of a handler or of a deletion. -/
  due : List Moment → Nat → Bool
  /-- What comes first at an instant, from outside or by itself. -/
  next : List Moment → Nat → QueueInput

/-- At an instant before a horizon an input comes as a regime has it. -/
def Regime.Allows (R : Regime) (horizon : Nat) (σ : List Moment) (now : Nat)
    (i : QueueInput) : Prop :=
  now < horizon ∧ R.next σ now = i ∧ (R.due σ now ∨ i.isInner)

instance (R : Regime) (horizon : Nat) (σ : List Moment) (now : Nat) (i : QueueInput) :
    Decidable (R.Allows horizon σ now i) :=
  inferInstanceAs (Decidable (now < horizon ∧ R.next σ now = i ∧ (R.due σ now ∨ i.isInner)))

/-- A regime under which one thing after another happens on a queue; what comes from outside
    comes at its instant. -/
def Regime.script (plan : List (Nat × QueueInput)) : Regime where
  due σ now := (plan[σ.length]?).any fun e => !e.2.isInner && e.1 ≤ now
  next σ _ := ((plan[σ.length]?).map (·.2)).getD .discard

namespace Step

/-- What was wanted done about a queue. -/
def eventsOf (q : String) (x : Step) : List QueueEvent :=
  x.effects.filterMap (·.event? q (x.before.owns q))

/-- What happened on a queue, given what the stimulus is to it. -/
def moment (q : String) (x : Step) (i : QueueInput) : Moment :=
  ⟨x.now, i, x.eventsOf q, x.after.lifecycle.standing? q, x.after.freeSlots? q⟩

/-- What happened on a queue, if anything did. -/
def moment? (q : String) (x : Step) : Option Moment :=
  (x.before.input? q x.now x.stimulus).map (x.moment q)

/-- Nothing happened on a queue. -/
structure Misses (q : String) (x : Step) : Prop where
  events : x.eventsOf q = []
  standing : x.after.lifecycle.standing? q = x.before.lifecycle.standing? q
  free : x.after.freeSlots? q = x.before.freeSlots? q

end Step

/-- What happened on a queue. -/
def story (q : String) (hist : List Step) : List Moment := hist.filterMap (·.moment? q)

namespace Listener

variable {R : Regime} {q : String} {horizon t u now : Nat} {σ later later' : List Moment}
  {l l' m : Listener} {own own' : Nat → Bool} {s s' : Stimulus} {i : QueueInput}
  {xs : List (Nat × Stimulus)}

/-- From one instant to another nothing of a queue goes on by itself, and nothing is due from
    outside. -/
def Rests (R : Regime) (q : String) (σ : List Moment) (l : Listener) (t u : Nat) : Prop :=
  t ≤ u ∧ ∀ v < u, t ≤ v → R.due σ v = false ∧ l.isBusy q v = false

/-- In a run a queue is under a regime until a horizon, from a state, an instant and a story on:
    time passes only while the queue rests, and what happens on the queue the regime allows. -/
def Follows (R : Regime) (q : String) (horizon : Nat) :
    Listener → Nat → List Moment → List (Nat × Stimulus) → Prop
  | l, t, σ, [] => Rests R q σ l t horizon
  | l, t, σ, (now, s) :: xs =>
    Rests R q σ l t now ∧ (∀ i ∈ l.input? q now s, R.Allows horizon σ now i) ∧
      Follows R q horizon (l.react now s).1 now (σ ++ ((l.step now s).moment? q).toList) xs

instance : Decidable (Rests R q σ l t u) :=
  inferInstanceAs (Decidable (t ≤ u ∧ ∀ v < u, t ≤ v → R.due σ v = false ∧ l.isBusy q v = false))

instance decidableFollows (R : Regime) (q : String) (horizon : Nat) :
    ∀ l t σ xs, Decidable (Follows R q horizon l t σ xs)
  | l, t, σ, [] => inferInstanceAs (Decidable (Rests R q σ l t horizon))
  | l, t, σ, (now, s) :: xs =>
    have := decidableFollows R q horizon (l.react now s).1 now
      (σ ++ ((l.step now s).moment? q).toList) xs
    inferInstanceAs (Decidable (Rests R q σ l t now ∧
      (∀ i ∈ l.input? q now s, R.Allows horizon σ now i) ∧ _))

/-- The calls of a run start or stop single queues, or start all queues, and have different
    numbers. -/
structure Single (xs : List (Nat × Stimulus)) : Prop where
  kinds : ∀ x ∈ xs, x.2.isClosing = false
  numbers : (xs.filterMap (·.2.request?)).Nodup

/-! ## Steps -/

/-- Two listeners at rest show the same of a queue. -/
abbrev Matches (q : String) (l l' : Listener) : Prop := Alike q (l.owns q) (l'.owns q) l l'

/-- Without its outbox a listener looks the same, but for the events. -/
private theorem view_cleared (l : Listener) (own own' : Nat → Bool) :
    ({ l with outbox := [] } : Listener).view q own' = { l.view q own with events := [] } := rfl

/-- What is alike apart from what is wanted matches once that is done. -/
private theorem Alike.cleared (h : Alike q own own' l l') :
    Matches q { l with outbox := [] } { l' with outbox := [] } := by
  rw [Matches, Alike, view_cleared l own, view_cleared l' own', h.view]

/-- The events of a step are those in its view. -/
theorem eventsOf_step (h : l.outbox = []) : (l.step now s).eventsOf q =
    ((l.after now s).view q (l.owns q)).events.reverse := by
  simp only [Step.eventsOf, step, react_of_outbox h, view, List.filterMap_reverse]

/-- Alike listeners have the same free slots. -/
private theorem Alike.freeSlots? (h : Alike q own own' l l') :
    l.freeSlots? q = l'.freeSlots? q := by
  rw [Listener.freeSlots?, Listener.freeSlots?, h.station]

/-- One input is the same moment for two listeners that match, and they match afterwards. -/
theorem Matches.step (h : Matches q l l') (hl : l.Regular) (hl' : l'.Regular)
    (hs : l.input? q now s = some i) (hs' : l'.input? q now s' = some i) :
    Matches q (l.react now s).1 (l'.react now s').1 ∧
      (l.step now s).moment q i = (l'.step now s').moment q i := by
  have hafter := h.after hl hl' (isInput_of_input? hs) (isInput_of_input? hs')
  have hmatches : Matches q (l.react now s).1 (l'.react now s').1 := by
    rw [react_of_outbox hl.outbox, react_of_outbox hl'.outbox]
    exact hafter.cleared
  refine ⟨hmatches, ?_⟩
  rw [Step.moment, Step.moment, eventsOf_step hl.outbox, eventsOf_step hl'.outbox, hafter.view]
  exact congrArg₂ (Moment.mk now i _) hmatches.standing hmatches.freeSlots?

/-- What is no input for a queue leaves it as it is. -/
theorem Regular.missed (hl : l.Regular) (hs : s.isClosing = false)
    (h : l.input? q now s = none) :
    Matches q (l.react now s).1 l ∧ (l.step now s).Misses q := by
  -- What is no input for the queue does not show.
  have hafter : Alike q (l.owns q) (l.owns q) (l.after now s) l :=
    view_after_of_input?_eq_none hl hs h
  have hmatches : Matches q (l.react now s).1 { l with outbox := [] } := by
    rw [react_of_outbox hl.outbox]
    exact hafter.cleared
  have hcleared : ({ l with outbox := [] } : Listener) = l := by
    rw [← hl.outbox]
  rw [hcleared] at hmatches
  refine ⟨hmatches, ?_, hmatches.standing, hmatches.freeSlots?⟩
  rw [eventsOf_step hl.outbox, hafter.view, view, hl.outbox]
  rfl

/-! ## The story of a queue alone -/

/-- Rests add up while nobody becomes busy. -/
theorem Rests.trans (h : Rests R q σ l t u) (h' : Rests R q σ m u now)
    (hbusy : ∀ v, m.isBusy q v = l.isBusy q v) : Rests R q σ l t now := by
  refine ⟨Nat.le_trans h.1 h'.1, fun v hv htv => ?_⟩
  rcases Nat.lt_or_ge v u with hvu | huv
  · exact h.2 v hvu htv
  · rw [← hbusy]
    exact h'.2 v hv huv

/-- How the story of a queue goes on under a regime, from a state in which the queue was
    touched last.  What happens on other queues in the meantime is left out. -/
inductive Unfolds (R : Regime) (q : String) (horizon : Nat) :
    Listener → Nat → List Moment → List Moment → Prop
  | quiet {l : Listener} {t : Nat} {σ : List Moment} (hrest : Rests R q σ l t horizon) :
    Unfolds R q horizon l t σ []
  | turn {l m : Listener} {t now : Nat} {s : Stimulus} {i : QueueInput} {σ later : List Moment}
    (hrest : Rests R q σ l t now) (hm : m.Regular) (hlike : Matches q l m)
    (hi : m.input? q now s = some i) (hallows : R.Allows horizon σ now i)
    (hnext : (m.react now s).1.Regular)
    (h : Unfolds R q horizon (m.react now s).1 now (σ ++ [(m.step now s).moment q i]) later) :
    Unfolds R q horizon l t σ ((m.step now s).moment q i :: later)

/-- While a queue rests nothing is allowed to happen on it. -/
private theorem Rests.not_allows (h : Rests R q σ l t u) (hl : l.Regular) (hm : m.Regular)
    (hlike : Matches q l m) (hi : m.input? q now s = some i) (ht : t ≤ now)
    (hallows : R.Allows horizon σ now i) : u ≤ now := by
  -- If time went on beyond `u` nothing is due there and the queue is idle, so no input is allowed.
  by_contra hlt
  obtain ⟨hdue, hidle⟩ := h.2 now (Nat.lt_of_not_le hlt) ht
  rcases hallows.2.2 with hdue' | hinner
  · rw [hdue] at hdue'
    cases hdue'
  · have hbusy := isBusy_of_isInput (isInput_of_input? hi) hinner
    rw [← hlike.isBusy hl hm, hidle] at hbusy
    cases hbusy

namespace Unfolds

/-- What happens on other queues may come first. -/
private theorem missed (h : Unfolds R q horizon m u σ later) (hrest : Rests R q σ l t u)
    (hl : l.Regular) (hm : m.Regular) (hlike : Matches q l m) :
    Unfolds R q horizon l t σ later := by
  have hbusy : ∀ v, m.isBusy q v = l.isBusy q v := hlike.symm.isBusy hm hl
  cases h with
  | quiet hrest' => exact .quiet (hrest.trans hrest' hbusy)
  | turn hrest' hm' hlike' hi hallows hnext h =>
    exact .turn (hrest.trans hrest' hbusy) hm' (hlike.trans hlike') hi hallows hnext h

/-- Under a regime there is one story. -/
theorem unique (h : Unfolds R q horizon l t σ later) (h' : Unfolds R q horizon l' t σ later')
    (hl : l.Regular) (hl' : l'.Regular) (hlike : Matches q l l') : later = later' := by
  induction h generalizing l' later' with
  | quiet hrest =>
    cases h' with
    | quiet => rfl
    | turn hrest' hm' hlike' hi' hallows' =>
      -- One listener rests, so nothing is allowed to happen in the other.
      have hle := hrest.not_allows hl hm' (hlike.trans hlike') hi' hrest'.1 hallows'
      have hlt := hallows'.1
      omega
  | turn hrest hm hlikem hi hallows hnext _ ih =>
    cases h' with
    | quiet hrest' =>
      have hle := hrest'.not_allows hl' hm (hlike.symm.trans hlikem) hi hrest.1 hallows
      have hlt := hallows.1
      omega
    | turn hrest' hm' hlikem' hi' hallows' hnext' hlater' =>
      -- Neither listener rests beyond the instant at which something happens in the other.
      have hle := hrest.not_allows hl hm' (hlike.trans hlikem') hi' hrest'.1 hallows'
      have hle' := hrest'.not_allows hl' hm (hlike.symm.trans hlikem) hi hrest.1 hallows
      obtain rfl := Nat.le_antisymm hle hle'
      obtain rfl := hallows.2.1.symm.trans hallows'.2.1
      have hmatches : Matches q _ _ := hlikem.symm.trans (hlike.trans hlikem')
      obtain ⟨hmatches', hmoment⟩ := hmatches.step hm hm' hi hi'
      rw [← hmoment] at hlater' ⊢
      rw [ih hlater' hnext hnext' hmatches']

end Unfolds

/-! ## Runs -/

/-- Seen from one of its queues, a run is a run of the queue alone. -/
theorem Follows.unfolds (h : Follows R q horizon l t σ xs) (hl : l.Regular)
    (hkinds : ∀ x ∈ xs, x.2.isClosing = false) (hn : l.Numbered xs) :
    Unfolds R q horizon l t σ (story q (l.steps xs)) := by
  induction xs generalizing l t σ with
  | nil => exact .quiet h
  | cons x xs ih =>
    obtain ⟨now, s⟩ := x
    obtain ⟨hrest, hallows, hlater⟩ := h
    obtain ⟨hs, hkinds⟩ := List.forall_mem_cons.mp hkinds
    have hn' := hn.react hl hs
    have hnext := hl.react hs hn'
    have hunfolds := ih hlater hnext hkinds hn'
    rw [steps_cons, story, List.filterMap_cons]
    -- By the first step: it misses the queue, or it is the next moment of its story.
    cases hi : l.input? q now s with
    | none =>
      have hnone : (l.step now s).moment? q = none := congrArg (Option.map _) hi
      rw [hnone] at hunfolds ⊢
      rw [Option.toList_none, List.append_nil] at hunfolds
      exact hunfolds.missed hrest hl hnext (hl.missed hs hi).1.symm
    | some i =>
      have hsome : (l.step now s).moment? q = some ((l.step now s).moment q i) :=
        congrArg (Option.map _) hi
      rw [hsome] at hunfolds ⊢
      exact .turn hrest hl rfl hi (hallows i hi) hnext hunfolds

/-- Steps in which nothing happens on a queue leave it as it is. -/
private theorem misses_of_mem_steps (hl : l.Regular) (hkinds : ∀ x ∈ xs, x.2.isClosing = false)
    (hn : l.Numbered xs) {x : Step} (hx : x ∈ l.steps xs) (hnone : x.moment? q = none) :
    x.Misses q := by
  induction xs generalizing l with
  | nil => cases hx
  | cons y ys ih =>
    obtain ⟨hs, hkinds⟩ := List.forall_mem_cons.mp hkinds
    have hn' := hn.react hl hs
    rcases List.mem_cons.mp hx with rfl | hx
    · -- The first step misses the queue, and so does the rest, which the induction covers.
      exact (hl.missed hs (Option.map_eq_none_iff.mp hnone)).2
    · exact ih (hl.react hs hn') hkinds hn' hx

section Build

variable {τ τ' : Type} (k : Lookup τ) (k' : Lookup τ') (settings : ListenerSettings)
  (polling : Polling) (handler handler' : String) (rs rs' : List Registration) (t : τ) (t' : τ')

/-- A listener that was built with its own number of workers is regular. -/
theorem regular_build (hnone : settings.maxWorkers = none)
    (hfits : totalBatch (build k settings polling handler rs t).1.stations < size64) :
    (build k settings polling handler rs t).1.Regular where
  roomy := by
    have hlimit := limit_build k settings polling handler rs t hnone hfits
    exact ⟨staffed_build k settings polling handler rs t (by omega), rfl⟩
  active := rfl
  queues_nodup := nodup_queues_run k settings polling handler rs t []
  calls c hc := by cases hc
  numbers_nodup := List.nodup_nil
  outbox := rfl

/-- Listeners match that were built with one station for a queue. -/
theorem matches_build (hq : (build k settings polling handler rs t).1.station? q =
      (build k' settings polling handler' rs' t').1.station? q) :
    Matches q (build k settings polling handler rs t).1
      (build k' settings polling handler' rs' t').1 := by
  have hstanding : (build k settings polling handler rs t).1.lifecycle.standing? q =
      (build k' settings polling handler' rs' t').1.lifecycle.standing? q := by
    -- The names are those of the stations, and the builds agree on the station.
    have hnames : q ∈ (build k settings polling handler rs t).1.names ↔
        q ∈ (build k' settings polling handler' rs' t').1.names := by
      rw [← isSome_station?, hq, isSome_station?]
    rw [standing?_build, standing?_build]
    simp only [hnames]
  rw [Matches, Alike, view, view, hq, hstanding]
  rfl

/-- Queues do not interfere.  Two listeners serve a queue from the same station, with a worker for
    each message that can be in hand.  If in a run of each the queue is under one regime, the
    same happens on it at the same instants, and no other step wants anything done about it or
    changes where it stands and its free slots. -/
theorem apart_run (hnone : settings.maxWorkers = none)
    (hfits : totalBatch (build k settings polling handler rs t).1.stations < size64)
    (hfits' : totalBatch (build k' settings polling handler' rs' t').1.stations < size64)
    (hq : (build k settings polling handler rs t).1.station? q =
      (build k' settings polling handler' rs' t').1.station? q)
    {xs xs' : List (Nat × Stimulus)} (hxs : Single xs) (hxs' : Single xs')
    (hfollows : Follows R q horizon (build k settings polling handler rs t).1 0 [] xs)
    (hfollows' : Follows R q horizon (build k' settings polling handler' rs' t').1 0 [] xs') :
    let hist := (build k settings polling handler rs t).1.steps xs
    let hist' := (build k' settings polling handler' rs' t').1.steps xs'
    story q hist = story q hist' ∧ ∀ x ∈ hist ++ hist', x.moment? q = none → x.Misses q := by
  intro hist hist'
  have hl := regular_build k settings polling handler rs t hnone hfits
  have hl' := regular_build k' settings polling handler' rs' t' hnone hfits'
  have hn : Numbered (build k settings polling handler rs t).1 xs := hxs.numbers
  have hn' : Numbered (build k' settings polling handler' rs' t').1 xs' := hxs'.numbers
  refine ⟨?_, fun x hx hmoment => ?_⟩
  · -- Both runs unfold under the same regime, so they tell the same story.
    exact (hfollows.unfolds hl hxs.kinds hn).unique (hfollows'.unfolds hl' hxs'.kinds hn') hl hl'
      (matches_build k k' settings polling handler handler' rs rs' t t' hq)
  · rcases List.mem_append.mp hx with hx | hx
    · exact misses_of_mem_steps hl hxs.kinds hn hx hmoment
    · exact misses_of_mem_steps hl' hxs'.kinds hn' hx hmoment

end Build

/-- A queue is started, served and stopped.  In one of two runs nothing else happens; in the other
    one the handler and the poller of another queue break off, and that queue is stopped. -/
theorem apart_run_neighbour :
    let b := (build Lookup.verbatim .standard .bySlots "h"
      [⟨"q", .standard, none⟩, ⟨"o", .standard, none⟩] ()).1
    let d : Delivery := ⟨none, "r", "x", .empty, .empty⟩
    let R := Regime.script [(0, .start), (0, .goOn 1), (3, .answer 1 (.batch [d])),
      (3, .beginJob 0), (5, .endJob 0 .ok), (6, .deleted 0 (.ok ())), (8, .stop)]
    let quiet := [(0, .start 0 "q"), (0, .goOn ⟨"q", 1⟩), (3, .answer ⟨"q", 1⟩ (.batch [d])),
      (3, .beginJob 0), (5, .endJob 0 .ok), (6, .deleted 0 (.ok ())), (8, .stop 1 "q")]
    let loud := [(0, .start 0 "o"), (0, .goOn ⟨"o", 1⟩), (0, .start 3 "q"), (0, .goOn ⟨"q", 1⟩),
      (1, .answer ⟨"o", 1⟩ (.batch [d, d])), (1, .beginJob 0), (2, .endJob 0 (.broken none)),
      (3, .answer ⟨"q", 1⟩ (.batch [d])), (3, .beginJob 2), (4, .stop 1 "o"),
      (5, .endJob 2 .ok), (6, .answer ⟨"o", 1⟩ (.broken "x")), (6, .proceed 1),
      (6, .deleted 2 (.ok ())), (8, .stop 2 "q")]
    Follows R "q" 9 b 0 [] quiet ∧ Follows R "q" 9 b 0 [] loud ∧
      (story "q" (b.steps quiet)).length = 7 ∧
        story "q" (b.steps quiet) = story "q" (b.steps loud) := by
  intro b d R quiet loud
  -- The neighbour's broken handler, broken receive and own stop are in the loud run only.
  have hquiet : Follows R "q" 9 b 0 [] quiet := by decide
  have hloud : Follows R "q" 9 b 0 [] loud := by decide
  exact ⟨hquiet, hloud, by decide, (apart_run Lookup.verbatim Lookup.verbatim .standard .bySlots
    "h" "h" _ _ () () rfl (by decide) (by decide) rfl ⟨by decide, by decide⟩
    ⟨by decide, by decide⟩ hquiet hloud).1⟩

end Listener

end Intake
