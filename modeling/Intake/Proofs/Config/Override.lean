import Intake.Config.Load
import Intake.Proofs.Text
import Mathlib.Logic.Function.Basic

/-!
# What the environment overrides

Each variable of an environment overrides one setting of a configuration, and nothing else.

- `Agree`: two configurations agree about the setting of a variable
- `agree_override`: the setting of a variable comes from its text and its old value alone
- `exists_newcomers`: the queues that are added are those whose names are new
- `merges_override`: an environment is merged into a configuration, once and for all
- `kept_or_standard`: a text that cannot be used leaves a number as it is, but not a truth value
-/

namespace Intake

/-! ## The variables -/

/-- A variable that overrides a setting. -/
inductive Variable
  | region
  | endpoint
  | autoCreate
  | backoff
  | stopTimeout
  | emptyDelay
  | autoStart
  | queues
  | inMemory
deriving DecidableEq, Repr

namespace Variable

/-- The name of a variable in an environment. -/
def key : Variable → String
  | .region => "QL_SQS_REGION"
  | .endpoint => "QL_SQS_ENDPOINT_URL"
  | .autoCreate => "QL_SQS_AUTO_CREATE_QUEUES"
  | .backoff => "QL_BACKOFF_TIME_MS"
  | .stopTimeout => "QL_QUEUE_STOP_TIMEOUT_MS"
  | .emptyDelay => "QL_EMPTY_POLL_DELAY_MS"
  | .autoStart => "QL_AUTO_STARTUP"
  | .queues => "QL_QUEUES"
  | .inMemory => "QL_DEV_MODE"

/-- Each variable has a key of its own. -/
private theorem key_injective : Function.Injective key := by
  intro v w h
  cases v <;> cases w <;> first | rfl | simp [key] at h

/-- What the text of a variable stands for. -/
inductive Kind
  | text
  | number
  | flag
  | names
deriving DecidableEq, Repr

/-- What the texts of a variable stand for. -/
def kind : Variable → Kind
  | .region | .endpoint => .text
  | .backoff | .stopTimeout | .emptyDelay => .number
  | .autoCreate | .autoStart | .inMemory => .flag
  | .queues => .names

/-- A text from which no value of the setting can be read. -/
def Unusable (v : Variable) (s : String) : Prop :=
  match v.kind with
  | .number => Text.unsigned? size64 s = none
  | .flag => Text.bool? s = none
  | .text | .names => False

end Variable

namespace Config

variable {c c' : Config} {env env' : Environment} {v : Variable} {qs : List QueueEntry}
  {names added : List String} {m n s : String}

/-- Two configurations agree about what a variable overrides. -/
def Agree (v : Variable) (c c' : Config) : Prop :=
  match v with
  | .region => c.sqs.region = c'.sqs.region
  | .endpoint => c.sqs.endpoint = c'.sqs.endpoint
  | .autoCreate => c.sqs.autoCreate = c'.sqs.autoCreate
  | .backoff => c.listener.backoff = c'.listener.backoff
  | .stopTimeout => c.listener.stopTimeout = c'.listener.stopTimeout
  | .emptyDelay => c.listener.emptyDelay = c'.listener.emptyDelay
  | .autoStart => c.autoStart = c'.autoStart
  | .queues => c.queues = c'.queues
  | .inMemory => c.inMemory = c'.inMemory

/-- Two configurations agree about what no variable overrides. -/
structure AgreeBeyond (c c' : Config) : Prop where
  minSlotWait : c.listener.minSlotWait = c'.listener.minSlotWait
  workersPerQueue : c.listener.workersPerQueue = c'.listener.workersPerQueue
  maxWorkers : c.listener.maxWorkers = c'.listener.maxWorkers
  drainTimeout : c.listener.drainTimeout = c'.listener.drainTimeout
  defaults : c.defaults = c'.defaults

/-- There is nothing else in a configuration. -/
private theorem eq_of_agree (h : ∀ v, Agree v c c') (hbeyond : AgreeBeyond c c') : c = c' := by
  obtain ⟨⟨_, _, _⟩, ⟨_, _, _, _, _, _, _⟩, _, _, _, _⟩ := c
  obtain ⟨⟨_, _, _⟩, ⟨_, _, _, _, _, _, _⟩, _, _, _, _⟩ := c'
  -- The rest is equal at once; then one field after the other.
  obtain ⟨rfl, rfl, rfl, rfl, rfl⟩ := hbeyond
  obtain rfl := h .region
  obtain rfl := h .endpoint
  obtain rfl := h .autoCreate
  obtain rfl := h .backoff
  obtain rfl := h .stopTimeout
  obtain rfl := h .emptyDelay
  obtain rfl := h .autoStart
  obtain rfl := h .queues
  obtain rfl := h .inMemory
  rfl

/-! ## One variable and its setting -/

/-- A configuration agrees with itself on each variable. -/
theorem agree_refl (v : Variable) (c : Config) : Agree v c c := by
  cases v <;> rfl

/-- A setting is overridden by the text of its variable, and by nothing else. -/
theorem agree_override (henv : env v.key = env' v.key) (h : Agree v c c') :
    Agree v (c.override env) (c'.override env') := by
  cases v <;>
    simp only [Agree, Variable.key, override, overrideSqs, overrideListener, overrideNumber,
      overrideFlag] at henv h ⊢ <;>
    rw [henv, h]

/-- Without a text a variable overrides nothing. -/
private theorem agree_override_of_unset (henv : env v.key = none) : Agree v (c.override env) c := by
  cases v <;>
    simp only [Agree, Variable.key, override, overrideSqs, overrideListener, overrideNumber,
      overrideFlag] at henv ⊢ <;>
    rw [henv] <;> rfl

/-- What no variable is about is left alone. -/
private theorem agreeBeyond_override : AgreeBeyond (c.override env) c := ⟨rfl, rfl, rfl, rfl, rfl⟩

/-- What the other variables hold does not matter. -/
private theorem agree_override_update {w : Variable} (h : w ≠ v) (text : Option String) :
    Agree w (c.override (Function.update env v.key text)) (c.override env) := by
  apply agree_override
  · exact Function.update_of_ne (fun hkey => h (Variable.key_injective hkey)) ..
  · exact agree_refl w c

/-! ## The names of queues -/

/-- The names in a text are the parts between its commas, without the blanks around them; empty ones
    do not count. -/
def Lists (s : String) (names : List String) : Prop :=
  ∃ parts : List String, ",".intercalate parts = s ∧ (∀ p ∈ parts, ',' ∉ p.toList) ∧
    names = (parts.map Text.trim).filter (· ≠ "")

/-- The names listed are the pieces of the text between the commas. -/
private theorem lists_listedNames (s : String) : Lists s (listedNames s) := by
  -- The parts are those at which the text is cut; that they join to it makes them its parts.
  refine ⟨(Text.splitAt ',' s.toList).map String.ofList, ?_, ?_, ?_⟩
  · rw [← String.toList_inj, String.toList_intercalate, List.map_map]
    have hparts : (Text.splitAt ',' s.toList).map (String.toList ∘ String.ofList) =
        Text.splitAt ',' s.toList :=
      List.map_id'' (fun _ => String.toList_ofList) _
    rw [hparts]
    exact Text.intercalate_splitAt ..
  · intro p hp
    obtain ⟨cs, hcs, rfl⟩ := List.mem_map.mp hp
    rw [String.toList_ofList]
    exact Text.not_mem_of_mem_splitAt hcs
  · rw [listedNames, List.map_map]
    rfl

/-- The names listed have no blanks around them. -/
private theorem Lists.isBare (h : Lists s names) : ∀ n ∈ names, Text.IsBare n := by
  obtain ⟨parts, -, -, rfl⟩ := h
  intro n hn
  obtain ⟨p, -, rfl⟩ := List.mem_map.mp (List.mem_filter.mp hn).1
  exact Text.isBare_trim p

/-- The names that an environment offers. -/
def Offers (env : Environment) (names : List String) : Prop :=
  match env "QL_QUEUES" with
  | some s => Lists s names
  | none => names = []

/-- Nor have the names that an environment offers. -/
theorem Offers.isBare (h : Offers env names) : ∀ n ∈ names, Text.IsBare n := by
  unfold Offers at h
  split at h
  · exact h.isBare
  · exact h ▸ List.forall_mem_nil _

/-- Of some names those that no queue has yet, each at the place where it first occurs. -/
structure Newcomers (qs : List QueueEntry) (names added : List String) : Prop where
  mem_iff : ∀ n, n ∈ added ↔ n ∈ names ∧ ∀ q ∈ qs, q.name ≠ n
  ordered : added.Pairwise fun m n => names.idxOf m < names.idxOf n

namespace Newcomers

/-- One more name does not change where the others first occur. -/
private theorem idxOf_append (h : Newcomers qs names added) (hmem : m ∈ added) (n : String) :
    (names ++ [n]).idxOf m = names.idxOf m :=
  List.idxOf_append_of_mem ((h.mem_iff m).mp hmem).1

/-- Newcomers stay in the order of their first mention when the list grows. -/
private theorem ordered_append (h : Newcomers qs names added) (n : String) :
    added.Pairwise fun a b => (names ++ [n]).idxOf a < (names ++ [n]).idxOf b := by
  refine h.ordered.imp_of_mem fun ha hb hab => ?_
  rwa [h.idxOf_append ha, h.idxOf_append hb]

/-- A name that was there before, or that a queue has, is no newcomer. -/
private theorem skip (h : Newcomers qs names added) (hn : n ∈ added ∨ ∃ q ∈ qs, q.name = n) :
    Newcomers qs (names ++ [n]) added where
  mem_iff m := by
    rw [h.mem_iff, List.mem_append, List.mem_singleton]
    constructor
    · exact fun ⟨hm, hnew⟩ => ⟨.inl hm, hnew⟩
    · rintro ⟨hm | rfl, hnew⟩
      · exact ⟨hm, hnew⟩
      · -- The name is one of those added, or of a queue there before.
        rcases hn with hn | ⟨q, hq, hname⟩
        · exact (h.mem_iff m).mp hn
        · exact absurd hname (hnew q hq)
  ordered := h.ordered_append n

/-- Any other name is the last newcomer. -/
private theorem append (h : Newcomers qs names added) (hn : n ∉ added)
    (hnew : ∀ q ∈ qs, q.name ≠ n) : Newcomers qs (names ++ [n]) (added ++ [n]) where
  mem_iff m := by
    rw [List.mem_append, h.mem_iff, List.mem_append, List.mem_singleton]
    constructor
    · rintro (⟨hm, hm'⟩ | rfl)
      · exact ⟨.inl hm, hm'⟩
      · exact ⟨.inr rfl, hnew⟩
    · rintro ⟨hm | rfl, hm'⟩
      · exact .inl ⟨hm, hm'⟩
      · exact .inr rfl
  ordered := by
    have hlast : n ∉ names := fun hmem => hn ((h.mem_iff n).mpr ⟨hmem, hnew⟩)
    refine List.pairwise_append.mpr ⟨h.ordered_append n, List.pairwise_singleton .., ?_⟩
    -- The last name is new, so it first occurs at the end.
    intro m hm b hb
    obtain rfl := List.mem_singleton.mp hb
    rw [h.idxOf_append hm, List.idxOf_append_of_notMem hlast]
    exact Nat.lt_of_lt_of_le (List.idxOf_lt_length_iff.mpr ((h.mem_iff m).mp hm).1)
      (Nat.le_add_right ..)

end Newcomers

/-- A queue with a name and without settings of its own. -/
def plain (n : String) : QueueEntry := { QueueEntry.blank with name := n }

/-- A queue added by name has the plain section of that name. -/
private theorem named_eq_plain (h : Text.IsBare n) : QueueEntry.named n = plain n := by
  rw [QueueEntry.named, Text.trim_eq_self h]
  rfl

/-- Names can be added one list after the other. -/
private theorem addQueues_append (qs : List QueueEntry) (ns ms : List String) :
    addQueues qs (ns ++ ms) = addQueues (addQueues qs ns) ms := by
  induction ns generalizing qs with
  | nil => rfl
  | cons n ns ih => exact ih _

/-- The queues that are added are those whose names are new. -/
theorem exists_newcomers (qs : List QueueEntry) (hnames : ∀ n ∈ names, Text.IsBare n) :
    ∃ added, Newcomers qs names added ∧ addQueues qs names = qs ++ added.map plain := by
  -- From the end, since a name is compared with all that were added before it.
  induction names using List.reverseRecOn with
  | nil => exact ⟨[], ⟨by simp, .nil⟩, (List.append_nil qs).symm⟩
  | append_singleton names n ih =>
    rw [List.forall_mem_append, List.forall_mem_singleton] at hnames
    obtain ⟨added, hnewcomers, hadded⟩ := ih hnames.1
    have hknown : (qs ++ added.map plain).any (·.name = n) ↔
        n ∈ added ∨ ∃ q ∈ qs, q.name = n := by
      simp only [List.any_append, Bool.or_eq_true, List.any_eq_true, decide_eq_true_eq,
        List.mem_map, exists_exists_and_eq_and, plain, exists_eq_right]
      exact or_comm
    rw [addQueues_append, hadded, addQueues, addQueues]
    split
    next h => exact ⟨added, hnewcomers.skip (hknown.mp h), rfl⟩
    next h =>
      rw [hknown, not_or, not_exists] at h
      refine ⟨added ++ [n], hnewcomers.append h.1 fun q hq hname => h.2 q ⟨hq, hname⟩, ?_⟩
      rw [named_eq_plain hnames.2, List.map_append, List.append_assoc]
      rfl

/-- Of the names that an environment offers the new ones are added. -/
theorem exists_added (c : Config) (env : Environment) : ∃ names added, Offers env names ∧
    Newcomers c.queues names added ∧ (c.override env).queues = c.queues ++ added.map plain := by
  cases hs : env "QL_QUEUES" with
  | none =>
    refine ⟨[], [], ?_, ⟨by simp, .nil⟩, ?_⟩
    · simp only [Offers, hs]
    · simp only [override, hs, List.map_nil, List.append_nil]
  | some s =>
    -- All names listed are offered; those not known yet are added.
    obtain ⟨added, hnewcomers, hadded⟩ := exists_newcomers c.queues (lists_listedNames s).isBare
    refine ⟨listedNames s, added, ?_, hnewcomers, ?_⟩
    · simp only [Offers, hs]
      exact lists_listedNames s
    · simp only [override, hs]
      exact hadded

/-- Names that queues have already add nothing. -/
private theorem addQueues_eq_self (h : ∀ n ∈ names, ∃ q ∈ qs, q.name = n) :
    addQueues qs names = qs := by
  induction names with
  | nil => rfl
  | cons n names ih =>
    rw [List.forall_mem_cons] at h
    rw [addQueues, if_pos (by simpa using h.1), ih h.2]

/-- To add names once more adds nothing. -/
private theorem addQueues_addQueues (qs : List QueueEntry) (hnames : ∀ n ∈ names, Text.IsBare n) :
    addQueues (addQueues qs names) names = addQueues qs names := by
  apply addQueues_eq_self
  -- After the first time every name has a queue, an old one or one that was added for it.
  intro n hn
  obtain ⟨added, hnewcomers, hadded⟩ := exists_newcomers qs hnames
  rw [hadded]
  by_cases hknown : ∃ q ∈ qs, q.name = n
  · obtain ⟨q, hq, hname⟩ := hknown
    exact ⟨q, List.mem_append_left _ hq, hname⟩
  · push Not at hknown
    have hmem := (hnewcomers.mem_iff n).mpr ⟨hn, hknown⟩
    exact ⟨plain n, List.mem_append_right _ (List.mem_map_of_mem hmem), rfl⟩

/-! ## Merging -/

/-- Overriding a number twice is overriding it once. -/
private theorem overrideNumber_overrideNumber (env : Environment) (key : String) (old : Nat) :
    overrideNumber env key (overrideNumber env key old) = overrideNumber env key old := by
  unfold overrideNumber
  cases (env key).bind (Text.unsigned? size64) <;> rfl

/-- The same for a flag. -/
private theorem overrideFlag_overrideFlag (env : Environment) (key : String)
    (otherwise old : Bool) : overrideFlag env key otherwise (overrideFlag env key otherwise old) =
      overrideFlag env key otherwise old := by
  unfold overrideFlag
  cases env key <;> rfl

/-- An environment overrides no more the second time. -/
private theorem override_override (env : Environment) (c : Config) :
    (c.override env).override env = c.override env := by
  -- It is enough to look at each variable and at the rest.
  refine eq_of_agree (fun v => ?_) agreeBeyond_override
  cases v with
  | region =>
    simp only [Agree, override, overrideSqs]
    cases env "QL_SQS_REGION" <;> rfl
  | endpoint =>
    simp only [Agree, override, overrideSqs]
    cases env "QL_SQS_ENDPOINT_URL" <;> rfl
  | backoff | stopTimeout | emptyDelay => exact overrideNumber_overrideNumber ..
  | autoCreate | autoStart | inMemory => exact overrideFlag_overrideFlag ..
  | queues =>
    simp only [Agree, override]
    cases env "QL_QUEUES" with
    | none => rfl
    | some s => exact addQueues_addQueues _ (lists_listedNames s).isBare

/-- What comes of overriding a configuration from an environment. -/
structure Merges (c : Config) (env : Environment) : Prop where
  /-- The queues stay, and those with new names come after them. -/
  queues : ∃ names added, Offers env names ∧ Newcomers c.queues names added ∧
    (c.override env).queues = c.queues ++ added.map plain
  /-- A variable changes its own setting at most, whatever it holds. -/
  own : ∀ (v : Variable) (text : Option String), ∀ w ≠ v,
    Agree w (c.override (Function.update env v.key text)) (c.override env)
  unset : ∀ v, env v.key = none → Agree v (c.override env) c
  /-- Nothing else in an environment matters. -/
  others : ∀ key text, (∀ v : Variable, v.key ≠ key) →
    c.override (Function.update env key text) = c.override env
  beyond : AgreeBeyond (c.override env) c
  again : (c.override env).override env = c.override env

/-- An environment is merged into a configuration, once and for all. -/
theorem merges_override (c : Config) (env : Environment) : Merges c env where
  queues := exists_added c env
  own v text w h := agree_override_update h text
  unset v := agree_override_of_unset
  others key text h := by
    -- No variable has this key, so each holds what it held.
    refine eq_of_agree (fun v => agree_override ?_ (agree_refl v c)) ⟨rfl, rfl, rfl, rfl, rfl⟩
    exact Function.update_of_ne (h v) ..
  beyond := agreeBeyond_override
  again := override_override env c

/-- A name that is there already and one that comes twice are passed over. -/
example :
    let c : Config := { Config.standard with queues := [.named "b"] }
    let env : Environment := fun k => if k = "QL_QUEUES" then some "c, b,,a ,c" else none
    (c.override env).queues.map (·.name) = ["b", "c", "a"] := by
  decide +kernel

/-! ## Texts that cannot be used -/

/-- A number stays as it is if none can be read from its variable. -/
private theorem overrideNumber_of_unusable {key : String} (henv : env key = some s)
    (hs : Text.unsigned? size64 s = none) (old : Nat) : overrideNumber env key old = old := by
  rw [overrideNumber, henv, Option.bind_some, hs, Option.getD_none]

/-- A truth value becomes a fixed one if none can be read from its variable. -/
private theorem overrideFlag_of_unusable {key : String} (henv : env key = some s)
    (hs : Text.bool? s = none) (otherwise old : Bool) :
    overrideFlag env key otherwise old = otherwise := by
  simp only [overrideFlag, henv, hs, Option.getD_none]

/-- A number keeps its value when its variable holds a text that cannot be used.  A truth value
    becomes the standard one then, so that it is kept only if it was the standard one before. -/
theorem kept_or_standard (c : Config) (env : Environment) (v : Variable) (s : String)
    (henv : env v.key = some s) (hs : v.Unusable s) :
    (v.kind = .number → Agree v (c.override env) c) ∧
      (v.kind = .flag → Agree v (c.override env) .standard ∧
        (Agree v (c.override env) c ↔ Agree v c .standard)) := by
  have hnumber : v.kind = .number → Agree v (c.override env) c := by
    intro hkind
    cases v <;> first | exact overrideNumber_of_unusable henv hs _ | cases hkind
  have hflag : v.kind = .flag → Agree v (c.override env) .standard := by
    intro hkind
    cases v <;> first | exact overrideFlag_of_unusable henv hs _ _ | cases hkind
  refine ⟨hnumber, fun hkind => ⟨hflag hkind, ?_⟩⟩
  have hstandard := hflag hkind
  -- A field that agrees with the standard one agrees with the old one iff the old one is standard.
  cases v <;> simp only [Agree] at hstandard ⊢ <;> rw [hstandard] <;> exact eq_comm

/-- A number with a unit is passed over, so that a rest that a file sets stays; but with a wrong
    truth value queues that were to be kept in memory are not. -/
theorem kept_or_standard_unit :
    let c : Config :=
      { Config.standard with
        listener := { ListenerSettings.standard with backoff := 250 }
        inMemory := true }
    let env : Environment := fun k =>
      if k = "QL_BACKOFF_TIME_MS" then some "10s"
      else if k = "QL_DEV_MODE" then some "yes"
      else none
    Variable.backoff.Unusable "10s" ∧ (c.override env).listener.backoff = 250 ∧
      Variable.inMemory.Unusable "yes" ∧ (c.override env).inMemory = false := by
  intro c env
  -- A number with a unit is no number, and the old one is kept; a flag falls to the default.
  have hnumber : Variable.backoff.Unusable "10s" := by
    show Text.unsigned? size64 "10s" = none
    decide
  have hflag : Variable.inMemory.Unusable "yes" := rfl
  exact ⟨hnumber, (kept_or_standard c env .backoff "10s" rfl hnumber).1 rfl,
    hflag, ((kept_or_standard c env .inMemory "yes" rfl hflag).2 rfl).1⟩

/-- A truth value with a capital letter cannot be used: queues that a file says not to start are
    started all the same. -/
theorem not_kept_capital :
    let files : Files := fun p =>
      if p = "config.toml" then some (.ok "[container]\nauto_startup = false\n") else none
    let env : Environment := fun k => if k = "QL_AUTO_STARTUP" then some "False" else none
    let c : Config := { Config.standard with autoStart := false }
    unmodified files env none = .ok c ∧ env Variable.autoStart.key = some "False" ∧
      Variable.autoStart.Unusable "False" ∧ load files env none = .ok (c.override env) ∧
      ¬ Agree .autoStart (c.override env) c := by
  intro files env c
  have hfile : unmodified files env none = .ok c := by decide +kernel
  refine ⟨hfile, rfl, rfl, ?_, ?_⟩
  · rw [load, hfile]
    rfl
  · -- Only the small letters are understood, so the text overrides with the default.
    show ¬ (c.override env).autoStart = c.autoStart
    decide

end Config

end Intake
