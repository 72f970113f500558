import Intake.Proofs.LeaseStore.Errand

/-!
# An address book makes no difference

Names are resolved through an address book as the store itself would resolve them, only that the
store is asked less often.

- `Outbox.Transparent`: what resolving a name through the address book comes to
- `Counter.transparent_run`: it is so after all that can happen at a counter
-/

namespace Intake

namespace Outbox

variable {o : Outbox} {name : String}

/-- An address book through which names are resolved as the store itself resolves them. -/
structure Transparent (o : Outbox) : Prop where
  /-- A name comes to what the store would answer, be it a value or an error, and the store is left
      as it would be by that answer. -/
  same : ∀ name, isDestination name = false → (o.resolve name).1 = (o.store.resolve name).1 ∧
    (o.resolve name).2.store = (o.store.resolve name).2
  /-- The store is asked once for a name that is not known, and otherwise not at all. -/
  asks : ∀ name, isDestination name = false →
    o.asks name = if (o.book.known.get? name).isSome then [] else [name]
  counted : ∀ name, (o.resolve name).2.book.asked = o.book.asked + (o.asks name).length
  /-- What the store answers with an error is not remembered. -/
  failed : ∀ name e, (o.resolve name).1 = .error e →
    (o.resolve name).2.book.known = o.book.known
  /-- Whatever is known is the destination of a queue that is there, as the store has it now. -/
  known : ∀ name dest, o.book.known.get? name = some dest →
    dest = LeaseStore.destination name ∧ (o.store.queues.get? name).isSome ∧
      o.store.resolve name = (.ok dest, o.store)

/-- What is known is what the store would answer. -/
private theorem Current.resolve_store (h : o.Current) {dest : String}
    (hdest : o.book.known.get? name = some dest) : o.store.resolve name = (.ok dest, o.store) := by
  obtain ⟨hname, rfl, hq⟩ := h name dest hdest
  rw [LeaseStore.resolve_of_not hname, if_pos hq]

/-- An outbox whose cache is current answers as one without a cache. -/
private theorem Current.transparent (h : o.Current) : o.Transparent := by
  constructor
  case same =>
    intro name hname
    have hresolved := o.resolved name
    -- The name is none of the store's own destinations, so it is in the cache or asked for.
    generalize (o.resolve name).1 = r, (o.resolve name).2 = o' at hresolved ⊢
    cases hresolved with
    | itself h => cases hname.symm.trans h
    | known _ hdest => rw [h.resolve_store hdest]; exact ⟨rfl, rfl⟩
    | found _ _ hstore => exact ⟨hstore.symm, rfl⟩
    | failed _ _ hstore => exact ⟨hstore.symm, (LeaseStore.resolve_error hname hstore).symm⟩
  case asks =>
    intro name hname
    rw [asks_eq, hname, Bool.false_or]
  case counted =>
    intro name
    have hresolved := o.resolved name
    rw [asks_eq]
    generalize (o.resolve name).1 = r, (o.resolve name).2 = o' at hresolved ⊢
    -- Only a name that was not known before adds a question.
    cases hresolved with
    | itself h => simp [h]
    | known h hdest => simp [h, hdest]
    | found h hnew | failed h hnew => simp [h, hnew]
  case failed =>
    intro name e herror
    have hresolved := o.resolved name
    rw [herror] at hresolved
    generalize (o.resolve name).2 = o' at hresolved ⊢
    cases hresolved
    rfl
  case known =>
    intro name dest hdest
    obtain ⟨-, heq, hq⟩ := h name dest hdest
    exact ⟨heq, hq, h.resolve_store hdest⟩

end Outbox

/-- Whatever senders, receivers and other callers do at a store at which nobody was before, names
    are resolved through the address book as the store itself would resolve them then. -/
theorem Counter.transparent_run (s : LeaseStore) (xs : List (Nat × Errand)) :
    ((ofStore s).run xs).outbox.Transparent :=
  (current_run s xs).transparent

/-- A queue that is made for a name is there when the name is forgotten, and is found again. -/
example :
    let o := ((Counter.ofStore { LeaseStore.empty with autoCreate := true }).run
      [(0, .sendText "q" "x" 0), (1, .resolve "q"), (2, .forget "q"), (3, .resolve "q")]).outbox
    o.book.asked = 2 ∧ o.book.known.get? "q" = some "memory://q" ∧ o.store.depth "q" = 1 := by
  decide

end Intake
