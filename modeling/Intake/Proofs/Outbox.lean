import Intake.Outbox
import Intake.Proofs.LeaseStore.Contents

/-!
# Senders and the store behind them

A sender resolves names through an address book.  The book asks the store for a name that it does
not know, so what a sender does comes to calls to the store, and what the book knows stays true
as long as no queue is taken away.

- `Outbox.Resolved`: the ways in which a name is resolved
- `Outbox.asks`, `Outbox.callsToSend`: the calls that a sender makes to the store
- `Outbox.Current`: what is known is the destination of a queue that is there
-/

namespace Intake

/-! ## What a store answers -/

namespace LeaseStore

variable {s : LeaseStore} {now : Nat} {name dest body id : String} {delay : Nat} {e : BrokerError}

/-- The destination that the store gives a name is that of the queue of this name. -/
@[simp] theorem queueName_destination (name : String) :
    queueName (destination name) = .ok name := by
  simp [queueName, destination, String.toList_append, Text.stripStart?_append]

/-- A name that is no destination is looked up, and a queue is made for it at need. -/
theorem resolve_of_not (h : isDestination name = false) :
    s.resolve name = if (s.queues.get? name).isSome then (.ok (destination name), s)
      else if s.autoCreate then (.ok (destination name), s.create name)
      else (.error (.unknownQueue name), s) := by
  rw [resolve, if_neg (by simp [h])]
  rfl

/-- A name is resolved to the destination of a queue that is there then. -/
private theorem resolve_ok (h : isDestination name = false) (hok : (s.resolve name).1 = .ok dest) :
    dest = destination name ∧ ((s.resolve name).2.queues.get? name).isSome := by
  rw [resolve_of_not h] at hok ⊢
  -- The queue is there already, or it is made if that is allowed.
  by_cases hq : (s.queues.get? name).isSome
  · rw [if_pos hq] at hok ⊢
    exact ⟨(Except.ok.inj hok).symm, hq⟩
  · rw [if_neg hq] at hok ⊢
    by_cases hmake : s.autoCreate
    · rw [if_pos hmake] at hok ⊢
      exact ⟨(Except.ok.inj hok).symm, Kept.isSome_create s name⟩
    · rw [if_neg hmake] at hok
      cases hok

/-- A name that is not resolved leaves no trace. -/
theorem resolve_error (h : isDestination name = false) (herror : (s.resolve name).1 = .error e) :
    (s.resolve name).2 = s := by
  rw [resolve_of_not h] at herror ⊢
  -- The store changes only when it makes a queue, and then it answers with a destination.
  by_cases hq : (s.queues.get? name).isSome
  · rw [if_pos hq]
  · rw [if_neg hq] at herror ⊢
    by_cases hmake : s.autoCreate
    · rw [if_pos hmake] at herror
      cases herror
    · rw [if_neg hmake]

/-- A name that is no destination is resolved if it has a queue or one may be made. -/
theorem exists_resolve_ok_iff (h : isDestination name = false) :
    (∃ dest, (s.resolve name).1 = .ok dest) ↔ (s.queues.get? name).isSome ∨ s.autoCreate := by
  rw [resolve_of_not h]
  by_cases hq : (s.queues.get? name).isSome
  · simp [hq]
  · by_cases hmake : s.autoCreate <;> simp [hq, hmake]

/-- Looking up a queue leaves the clock of the store. -/
theorem wallClock_resolve (h : isDestination name = false) :
    (s.resolve name).2.wallClock = s.wallClock := by
  rw [resolve_of_not h, create]
  split
  · rfl
  · split
    · split <;> rfl
    · rfl

/-- The queue that a name stands for: a name that is no destination is the name of a queue. -/
def home (name : String) : Except BrokerError String :=
  if isDestination name then queueName name else .ok name

/-- What is sent is stored at the end of its queue, hidden for the time of its delay. -/
private theorem exists_stores_of_send (h : (s.send now dest body delay).1 = .ok id) :
    ∃ n, queueName dest = .ok n ∧ (s.send now dest body delay).2.Stores n
      ⟨id, body, s.wallClock + now, now + 1000 * delay, 0, none⟩ := by
  unfold send at h ⊢
  cases hat : s.at? dest with
  | error e =>
    rw [hat] at h
    cases h
  | ok found =>
    obtain ⟨n, q⟩ := found
    rw [hat] at h
    obtain rfl := Except.ok.inj h
    -- The message comes last in its queue.
    refine ⟨n, (at?_eq_ok.mp hat).1, stores_of_set rfl ?_⟩
    exact List.mem_append_right _ List.mem_cons_self

/-- What is refused leaves no trace. -/
private theorem send_of_error (h : (s.send now dest body delay).1 = .error e) :
    (s.send now dest body delay).2 = s := by
  unfold send at h ⊢
  -- A send fails only where the queue is not found, before anything is stored.
  cases hat : s.at? dest with
  | error e => rfl
  | ok found =>
    rw [hat] at h
    cases h

/-- A message can be sent if and only if its destination names a queue that is there. -/
theorem exists_send_ok_iff : (∃ id, (s.send now dest body delay).1 = .ok id) ↔
    ∃ n, queueName dest = .ok n ∧ (s.queues.get? n).isSome := by
  -- Everything but the queue is there always, so only its absence can fail.
  have hiff : (∃ id, (s.send now dest body delay).1 = .ok id) ↔
      ∃ found, s.at? dest = .ok found := by
    unfold send
    cases s.at? dest <;> simp
  rw [hiff]
  constructor
  · rintro ⟨⟨n, q⟩, hat⟩
    obtain ⟨hname, hq⟩ := at?_eq_ok.mp hat
    exact ⟨n, hname, hq ▸ rfl⟩
  · rintro ⟨n, hname, hq⟩
    obtain ⟨q, hq⟩ := Option.isSome_iff_exists.mp hq
    exact ⟨(n, q), at?_eq_ok.mpr ⟨hname, hq⟩⟩

end LeaseStore

namespace Outbox

variable {o : Outbox} {now : Nat} {name body dest id : String} {delay : Nat} {e : BrokerError}

/-! ## Resolving a name -/

/-- How a name is resolved: to what, and what the sender's side is then. -/
inductive Resolved (o : Outbox) (name : String) : Except BrokerError String → Outbox → Prop
  /-- It is a destination already. -/
  | itself (h : isDestination name) : Resolved o name (.ok name) o
  | known (h : isDestination name = false) {dest : String}
    (hdest : o.book.known.get? name = some dest) : Resolved o name (.ok dest) o
  | found (h : isDestination name = false) (hnew : o.book.known.get? name = none) {dest : String}
    (hstore : (o.store.resolve name).1 = .ok dest) :
    Resolved o name (.ok dest)
      ⟨(o.store.resolve name).2, o.book.known.set name dest, o.book.asked + 1⟩
  | failed (h : isDestination name = false) (hnew : o.book.known.get? name = none)
    {e : BrokerError} (hstore : (o.store.resolve name).1 = .error e) :
    Resolved o name (.error e) { o with book := { o.book with asked := o.book.asked + 1 } }

/-- What becomes of a name that is looked up: it is a destination, it is known, it is found or
    nothing is found. -/
theorem resolved (o : Outbox) (name : String) :
    Resolved o name (o.resolve name).1 (o.resolve name).2 := by
  unfold resolve AddressBook.resolve
  cases hname : isDestination name with
  | true => exact .itself hname
  | false =>
    cases hknown : o.book.known.get? name with
    | some dest => exact .known hname hknown
    | none =>
      -- The store is asked for a name that is not known.
      rcases hstore : o.store.resolve name with ⟨e | dest, s⟩
      · have herror : (o.store.resolve name).1 = .error e := congrArg Prod.fst hstore
        obtain rfl : s = o.store :=
          (congrArg Prod.snd hstore).symm.trans (LeaseStore.resolve_error hname herror)
        simpa only [hstore, Bool.false_eq_true, if_false] using
          Resolved.failed (o := o) hname hknown herror
      · have hfound := Resolved.found hname hknown (congrArg Prod.fst hstore)
        simpa only [hstore, Bool.false_eq_true, if_false] using hfound

/-- The names for which the store is asked when a name is resolved: each is written down before the
    store answers. -/
def asks (o : Outbox) (name : String) : List String :=
  (o.book.resolve (fun n (s : LeaseStore × List String) =>
    ((s.1.resolve n).1, (s.1.resolve n).2, s.2 ++ [n])) name (o.store, [])).2.2.2

/-- The store is asked for names alone that are not known. -/
theorem asks_eq (o : Outbox) (name : String) : o.asks name =
    if isDestination name || (o.book.known.get? name).isSome then [] else [name] := by
  unfold asks AddressBook.resolve
  -- The store is asked only for a bare name that the book does not know.
  cases hname : isDestination name with
  | true => rfl
  | false =>
    cases hknown : o.book.known.get? name with
    | some dest => rfl
    | none =>
      simp only [Bool.false_eq_true, if_false]
      cases (o.store.resolve name).1 <;> rfl

/-- Resolving a name comes to the calls for which the store is asked. -/
theorem store_resolve (o : Outbox) (now : Nat) (name : String) :
    (o.resolve name).2.store = o.store.run ((o.asks name).map fun n => (now, .resolve n)) := by
  have hresolved := o.resolved name
  rw [asks_eq]
  generalize (o.resolve name).1 = r, (o.resolve name).2 = o' at hresolved ⊢
  cases hresolved with
  | itself h => simp [h, LeaseStore.run]
  | known h hdest => simp [h, hdest, LeaseStore.run]
  | found h hnew => simp [h, hnew, LeaseStore.run, LeaseStore.next, LeaseStore.answer]
  | failed h hnew hstore =>
    -- A store that refuses stays as it is.
    have hsame := LeaseStore.resolve_error h hstore
    simp [h, hnew, LeaseStore.run, LeaseStore.next, LeaseStore.answer, hsame]

/-- Looking up a name leaves the clock of the store. -/
theorem wallClock_resolve (o : Outbox) (name : String) :
    (o.resolve name).2.store.wallClock = o.store.wallClock := by
  have hresolved := o.resolved name
  generalize (o.resolve name).1 = r, (o.resolve name).2 = o' at hresolved ⊢
  cases hresolved with
  | found hname => exact LeaseStore.wallClock_resolve hname
  | _ => rfl

/-! ## Sending a text -/

/-- What cannot be looked up cannot be sent to. -/
private theorem sendText_of_error (h : (o.resolve name).1 = .error e) (now : Nat) (body : String)
    (delay : Nat) : o.sendText now name body delay = (.error e, (o.resolve name).2) := by
  unfold sendText
  generalize o.resolve name = resolved at h ⊢
  obtain ⟨r, o'⟩ := resolved
  obtain rfl : r = .error e := h
  rfl

/-- What can be looked up is sent to in the store. -/
private theorem sendText_of_ok (h : (o.resolve name).1 = .ok dest) (now : Nat) (body : String)
    (delay : Nat) : o.sendText now name body delay =
      (((o.resolve name).2.store.send now dest body (wholeDelay delay)).1,
        { (o.resolve name).2 with
          store := ((o.resolve name).2.store.send now dest body (wholeDelay delay)).2 }) := by
  unfold sendText
  generalize o.resolve name = resolved at h ⊢
  obtain ⟨r, o'⟩ := resolved
  obtain rfl : r = .ok dest := h
  rfl

/-- A text that is refused leaves no trace in the store: no message, and no queue that was made
    for it. -/
theorem store_sendText_of_error (herror : (o.sendText now name body delay).1 = .error e) :
    (o.sendText now name body delay).2.store = o.store := by
  have hresolved := o.resolved name
  cases hname : (o.resolve name).1 with
  | error e =>
    rw [sendText_of_error hname]
    rw [hname] at hresolved
    generalize (o.resolve name).2 = o' at hresolved ⊢
    cases hresolved
    rfl
  | ok dest =>
    rw [sendText_of_ok hname] at herror ⊢
    refine (LeaseStore.send_of_error herror).trans ?_
    rw [hname] at hresolved
    generalize (o.resolve name).2 = o' at hresolved herror ⊢
    cases hresolved with
    | itself | known => rfl
    -- A queue that has just been made takes the text.
    | found hnot _ hstore =>
      obtain ⟨rfl, hq⟩ := LeaseStore.resolve_ok hnot hstore
      obtain ⟨id, hid⟩ := LeaseStore.exists_send_ok_iff.mpr
        ⟨name, LeaseStore.queueName_destination name, hq⟩
      cases herror.symm.trans hid

/-- The calls that sending a text makes to the store. -/
def callsToSend (o : Outbox) (name body : String) (delay : Nat) : List StoreCall :=
  (o.asks name).map .resolve ++
    match (o.resolve name).1 with
    | .ok dest => [.send dest body (wholeDelay delay)]
    | .error _ => []

/-- Of sending a text the store sees its calls alone. -/
theorem store_sendText (o : Outbox) (now : Nat) (name body : String) (delay : Nat) :
    (o.sendText now name body delay).2.store =
      o.store.run ((o.callsToSend name body delay).map (now, ·)) := by
  have hresolve := o.store_resolve now name
  unfold callsToSend
  rw [List.map_append, List.map_map, LeaseStore.run, List.foldl_append]
  change _ = List.foldl _ (o.store.run _) _
  rw [Function.comp_def, ← hresolve]
  -- A name that does not resolve is not sent to.
  cases h : (o.resolve name).1 with
  | error e => rw [sendText_of_error h]; rfl
  | ok dest => rw [sendText_of_ok h]; rfl

/-- The calls that sending a payload makes to the store. -/
def callsToPublish (o : Outbox) (name : String) (p : Payload) (delay : Nat) : List StoreCall :=
  match p.text with
  | .ok body => o.callsToSend name body delay
  | .error _ => []

/-- A payload without a text is refused at once. -/
theorem publish_of_error {p : Payload} (h : p.text = .error e) (o : Outbox) (now : Nat)
    (name : String) (delay : Nat) : o.publish now name p delay = (.error e, o) := by
  rw [publish, h]

/-- A payload with a text is sent as this text. -/
theorem publish_of_ok {p : Payload} (h : p.text = .ok body) (o : Outbox) (now : Nat)
    (name : String) (delay : Nat) :
    o.publish now name p delay = o.sendText now name body delay := by
  rw [publish, h]

/-- Of publishing a payload the store sees its calls alone. -/
theorem store_publish (o : Outbox) (now : Nat) (name : String) (p : Payload) (delay : Nat) :
    (o.publish now name p delay).2.store =
      o.store.run ((o.callsToPublish name p delay).map (now, ·)) := by
  unfold callsToPublish
  cases h : p.text with
  | error e => rw [publish_of_error h]; rfl
  | ok body => rw [publish_of_ok h, store_sendText]

/-! ## What is known -/

/-- Whatever is known is the destination of a queue that is there. -/
def Current (o : Outbox) : Prop :=
  ∀ name dest, o.book.known.get? name = some dest →
    isDestination name = false ∧ dest = LeaseStore.destination name ∧
      (o.store.queues.get? name).isSome

namespace Current

/-- Nothing is known at first. -/
theorem of_empty (h : o.book = .empty) : o.Current := fun name dest hdest => by
  rw [h] at hdest
  cases hdest

/-- A call to the store takes no queue away. -/
theorem answer (h : o.Current) (now : Nat) (c : StoreCall) :
    Current { o with store := (o.store.answer now c).2 } := fun name dest hdest =>
  (h name dest hdest).imp_right fun h =>
    h.imp_right fun hq => LeaseStore.isSome_get?_answer hq now c

/-- What is known stays right whatever the store is asked, as no queue ever goes. -/
theorem run (h : o.Current) (xs : List (Nat × StoreCall)) :
    Current { o with store := o.store.run xs } := by
  induction xs generalizing o with
  | nil => exact h
  | cons x xs ih => exact ih (h.answer x.1 x.2)

/-- What is forgotten is not known wrongly. -/
theorem forget (h : o.Current) (name : String) :
    Current { o with book := o.book.forget name } := by
  intro j dest hj
  change (o.book.known.erase name).get? j = some dest at hj
  rw [Table.get?_erase] at hj
  -- A name that is forgotten is not in the book; the others are as they were.
  split at hj
  · cases hj
  · exact h j dest hj

/-- What is learned is true. -/
theorem resolve (h : o.Current) (name : String) : (o.resolve name).2.Current := by
  have hresolved := o.resolved name
  generalize (o.resolve name).1 = r, (o.resolve name).2 = o' at hresolved ⊢
  cases hresolved with
  | itself | known | failed => exact h
  | @found hname hnew dest hstore =>
    obtain ⟨hdest, hq⟩ := LeaseStore.resolve_ok hname hstore
    intro j dest' hj
    change (o.book.known.set name dest).get? j = some dest' at hj
    rw [Table.get?_set] at hj
    -- The name that was looked up is known from now on, and the queue is there.
    split at hj
    next heq =>
      subst heq
      exact ⟨hname, Option.some.inj hj ▸ hdest, hq⟩
    next => exact h.answer 0 (.resolve name) j dest' hj

/-- Sending a text leaves right what is known. -/
theorem sendText (h : o.Current) (now : Nat) (name body : String) (delay : Nat) :
    (o.sendText now name body delay).2.Current := by
  cases hname : (o.resolve name).1 with
  | error e =>
    rw [sendText_of_error hname]
    exact h.resolve name
  | ok dest =>
    rw [sendText_of_ok hname]
    exact (h.resolve name).answer now (.send dest body (wholeDelay delay))

/-- Publishing a payload leaves right what is known. -/
theorem publish (h : o.Current) (now : Nat) (name : String) (p : Payload) (delay : Nat) :
    (o.publish now name p delay).2.Current := by
  cases htext : p.text with
  | error e =>
    rw [publish_of_error htext]
    exact h
  | ok body =>
    rw [publish_of_ok htext]
    exact h.sendText now name body delay

end Current

/-- A name is resolved to the destination of the queue that it stands for. -/
private theorem Current.queueName_of_resolve (h : o.Current) (hok : (o.resolve name).1 = .ok dest) :
    LeaseStore.queueName dest = LeaseStore.home name := by
  have hresolved := o.resolved name
  unfold LeaseStore.home
  rw [hok] at hresolved
  generalize (o.resolve name).2 = o' at hresolved
  -- However the name was looked up, the destination is that of its queue.
  cases hresolved with
  | itself hname => rw [if_pos hname]
  | known hname hdest =>
    obtain ⟨-, rfl, -⟩ := h name dest hdest
    simp [hname]
  | found hname _ hstore =>
    obtain ⟨rfl, -⟩ := LeaseStore.resolve_ok hname hstore
    simp [hname]

/-- A text that is sent is stored in the queue that the name stands for. -/
theorem Current.exists_stores_of_sendText (h : o.Current)
    (hok : (o.sendText now name body delay).1 = .ok id) :
    ∃ n, LeaseStore.home name = .ok n ∧ (o.sendText now name body delay).2.store.Stores n
      ⟨id, body, o.store.wallClock + now, now + 1000 * wholeDelay delay, 0, none⟩ := by
  -- The message is sent to the queue that the name resolves to, which is its home.
  cases hname : (o.resolve name).1 with
  | error e =>
    rw [sendText_of_error hname] at hok
    cases hok
  | ok dest =>
    rw [sendText_of_ok hname] at hok ⊢
    obtain ⟨n, hn, hstores⟩ := LeaseStore.exists_stores_of_send hok
    refine ⟨n, (h.queueName_of_resolve hname).symm.trans hn, ?_⟩
    rwa [wallClock_resolve] at hstores

/-- A text is sent if the queue that the name stands for is there, or may be made. -/
theorem Current.exists_sendText_ok_iff (h : o.Current) (now : Nat) (body : String) (delay : Nat) :
    (∃ id, (o.sendText now name body delay).1 = .ok id) ↔
      ∃ n, LeaseStore.home name = .ok n ∧ ((o.store.queues.get? n).isSome ∨
        (isDestination name = false ∧ o.store.autoCreate)) := by
  have hresolved := o.resolved name
  -- Sending fails if the name cannot be looked up, or if there is no queue at its destination.
  cases hname : (o.resolve name).1 with
  | error e =>
    rw [sendText_of_error hname]
    rw [hname] at hresolved
    generalize (o.resolve name).2 = o' at hresolved
    cases hresolved with
    | failed hnot _ hstore =>
      have hnone := LeaseStore.exists_resolve_ok_iff (s := o.store) hnot
      simpa [LeaseStore.home, hnot, hstore] using hnone
  | ok dest =>
    rw [sendText_of_ok hname, LeaseStore.exists_send_ok_iff]
    rw [hname] at hresolved
    generalize (o.resolve name).2 = o' at hresolved ⊢
    cases hresolved with
    | itself hdest => simp [LeaseStore.home, hdest]
    | known hnot hdest =>
      obtain ⟨-, rfl, hq⟩ := h name dest hdest
      simp [LeaseStore.home, hnot, hq]
    | found hnot _ hstore =>
      obtain ⟨rfl, hq⟩ := LeaseStore.resolve_ok hnot hstore
      have hmade := (LeaseStore.exists_resolve_ok_iff hnot).mp ⟨_, hstore⟩
      simpa [LeaseStore.home, hnot, hq] using hmade

end Outbox

end Intake
