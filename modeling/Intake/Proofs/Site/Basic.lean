import Intake.Proofs.LeaseStore.Traffic
import Intake.Proofs.Listener.Course
import Intake.Rehearsal.Broker

/-!
# A listener at a store

A `Site` is a listener that receives from a store in memory and deletes there, while others
call the store and the listener as they like.  What happens next is left open: which receive
call looks, which deletion is carried out, how a handler ends, and at which instants.

- `Happening`: what can happen at a site
- `Site.act`: what it leads to, with a record of what the listener and the store did
- `Site.run`, `Site.records`: a sequence of happenings
-/

namespace Intake

/-- A listener at a store, with the calls of the listener that the store has still to answer. -/
structure Site where
  listener : Listener
  store : LeaseStore
  polls : List (PollerId × LongPoll)
  /-- Jobs whose messages are to be deleted, with destination and receipt. -/
  deletions : List (Nat × String × String)

/-- One thing that happens at a site. -/
inductive Happening
  /-- The store is called by someone else than the listener. -/
  | called (c : StoreCall)
  /-- The listener is told something that is no answer of the store. -/
  | told (x : Stimulus)
  /-- The receive call at a place in the list looks for messages. -/
  | looked (i : Nat)
  /-- The deletion at a place in the list is carried out. -/
  | erased (i : Nat)

/-- What the listener and the store did when something happened. -/
structure SiteRecord where
  reactions : List Step
  calls : List StoreStep

/-- Whether a stimulus is an answer of a broker. -/
def Stimulus.isAnswer : Stimulus → Bool
  | .answer _ _ | .deleted _ _ => true
  | _ => false

namespace Site

/-- A listener at a store before anything happens. -/
def fresh (l : Listener) (s : LeaseStore) : Site := ⟨l, s, [], []⟩

/-- A call of the listener to the store begins. -/
def begin (now : Nat) (s : Site) : Effect → Site
  | .receive p _ r => { s with polls := s.polls ++ [(p, LongPoll.start now s.store r)] }
  | .delete n dest receipt => { s with deletions := s.deletions ++ [(n, dest, receipt)] }
  | _ => s

/-- The listener is told something, and begins the calls that it wants. -/
def feed (now : Nat) (x : Stimulus) (s : Site) : Site :=
  (s.listener.react now x).2.foldl (begin now) { s with listener := (s.listener.react now x).1 }

/-- What a happening leads to, and what was done. -/
def act (s : Site) (now : Nat) : Happening → SiteRecord × Site
  | .called c => (⟨[], [s.store.step now c]⟩, { s with store := (s.store.answer now c).2 })
  | .told x =>
    if x.isAnswer then (⟨[], []⟩, s) else (⟨[s.listener.step now x], []⟩, s.feed now x)
  | .looked i =>
    match s.polls[i]? with
    | none => (⟨[], []⟩, s)
    | some (p, poll) =>
      let calls := (poll.calls s.store).map (s.store.step now)
      match poll.look now s.store with
      | (.inl r, store) =>
        let x := Stimulus.answer p (Broker.storedAnswer r)
        (⟨[s.listener.step now x], calls⟩,
          { s with store, polls := s.polls.eraseIdx i }.feed now x)
      | (.inr poll, store) => (⟨[], calls⟩, { s with store, polls := s.polls.set i (p, poll) })
  | .erased i =>
    match s.deletions[i]? with
    | none => (⟨[], []⟩, s)
    | some (n, dest, receipt) =>
      let r := s.store.delete dest receipt
      let x := Stimulus.deleted n r.1
      (⟨[s.listener.step now x], [s.store.step now (.delete dest receipt)]⟩,
        { s with store := r.2, deletions := s.deletions.eraseIdx i }.feed now x)

/-- The site after a happening at an instant. -/
def next (s : Site) (x : Nat × Happening) : Site := (s.act x.1 x.2).2

/-- The site after a sequence of happenings. -/
def run (s : Site) (xs : List (Nat × Happening)) : Site := xs.foldl next s

/-- The records of a sequence of happenings. -/
def records (s : Site) (xs : List (Nat × Happening)) : List SiteRecord :=
  noted next (fun s x => (s.act x.1 x.2).1) s xs

end Site

/-- The steps of the listener, in order. -/
def reactions (hist : List SiteRecord) : List Step := hist.flatMap (·.reactions)

/-- The steps of the store, in order. -/
def storeCalls (hist : List SiteRecord) : List StoreStep := hist.flatMap (·.calls)

namespace Site

variable {s : Site} {now : Nat}

/-- What the listener wants of the store is all that beginning its calls changes. -/
private theorem foldl_begin (now : Nat) (es : List Effect) (s : Site) :
    (es.foldl (begin now) s).listener = s.listener ∧ (es.foldl (begin now) s).store = s.store ∧
      ∀ e ∈ (es.foldl (begin now) s).deletions, e ∈ s.deletions ∨ .delete e.1 e.2.1 e.2.2 ∈ es := by
  induction es generalizing s with
  | nil => exact ⟨rfl, rfl, fun e he => .inl he⟩
  | cons e es ih =>
    have hbegin : (begin now s e).listener = s.listener ∧ (begin now s e).store = s.store ∧
        ∀ d ∈ (begin now s e).deletions, d ∈ s.deletions ∨ e = .delete d.1 d.2.1 d.2.2 := by
      cases e with
      | delete n dest receipt =>
        refine ⟨rfl, rfl, fun d hd => ?_⟩
        rcases List.mem_append.mp hd with hd | hd
        · exact .inl hd
        · rw [List.mem_singleton.mp hd]
          exact .inr rfl
      | _ => exact ⟨rfl, rfl, fun d hd => .inl hd⟩
    -- The other effects begin their calls after this one.
    obtain ⟨hlistener, hstore, hdeletions⟩ := ih (begin now s e)
    refine ⟨hlistener.trans hbegin.1, hstore.trans hbegin.2.1, fun d hd => ?_⟩
    rcases hdeletions d hd with hd | hd
    · rcases hbegin.2.2 d hd with hd | hd
      · exact .inl hd
      · exact .inr (hd ▸ List.mem_cons_self)
    · exact .inr (List.mem_cons_of_mem e hd)

/-- The listener reacts. -/
theorem feed_listener (now : Nat) (x : Stimulus) (s : Site) :
    (s.feed now x).listener = (s.listener.react now x).1 :=
  (foldl_begin ..).1

/-- The calls that the listener wants are begun, and none of them is answered yet. -/
theorem feed_store (now : Nat) (x : Stimulus) (s : Site) : (s.feed now x).store = s.store :=
  (foldl_begin ..).2.1

/-- A deletion that is to be carried out was already so, or is wanted now. -/
theorem mem_feed_deletions {x : Stimulus} {e : Nat × String × String}
    (he : e ∈ (s.feed now x).deletions) :
    e ∈ s.deletions ∨ .delete e.1 e.2.1 e.2.2 ∈ (s.listener.step now x).effects :=
  (foldl_begin now (s.listener.step now x).effects
    { s with listener := (s.listener.react now x).1 }).2.2 e he

end Site

end Intake
