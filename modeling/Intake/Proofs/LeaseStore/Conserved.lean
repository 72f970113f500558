import Intake.Proofs.LeaseStore.Kept
import Intake.Proofs.LeaseStore.Traffic

/-!
# What a store conserves

However the dead-letter queues are tied together, what a store holds is what was sent and not
removed.  Only a receive call that breaks off loses messages: those that it has taken from its
queue and not come to move.

- `Conserved`: what is stored, by what was sent and removed
- `Traffic.conserved_run`: it is so after all that can happen at a new store if nothing was lost
- `Traffic.not_conserved_halfway`: a receive call that breaks off loses a message
-/

namespace Intake

variable {s : LeaseStore}

/-- What is stored is what was sent and not removed. -/
structure Conserved (hist : List StoreStep) (s : LeaseStore) : Prop where
  /-- What was sent and not removed is stored once, in one queue, as it was sent. -/
  held : ∀ e ∈ (books hist).sent, e.1 ∉ (books hist).removed → ∃ n, s.Holds n e.1
  /-- Nothing else is stored. -/
  only : ∀ n m, s.Stores n m →
    m.parcel ∈ (books hist).sent.map (·.1) ∧ m.parcel ∉ (books hist).removed
  /-- A receive call that comes upon a redrive rule finds its dead-letter queue. -/
  targets : ∀ x ∈ hist, ∀ r n q rule, x.call = .take r →
    x.before.at? r.destination = .ok (n, q) → q.redrive = some rule →
      (x.before.queues.get? rule.deadLetters).isSome

/-- No run changes where names come from. -/
theorem LeaseStore.mint_run (s : LeaseStore) (xs : List (Nat × StoreCall)) :
    (s.run xs).mint = s.mint := by
  induction xs generalizing s with
  | nil => rfl
  | cons x xs ih => exact (ih (s.next x)).trans (s.mint_answer x.1 x.2)

/-- What is stored after some calls to a new store is what was sent and not removed, just if they
    have lost nothing. -/
private theorem conserved_steps_iff (h : s.Unused) (hf : s.mint.Fresh)
    (xs : List (Nat × StoreCall)) :
    Conserved (s.steps xs) (s.run xs) ↔ (books (s.steps xs)).lost = [] := by
  have hkept := kept_run h xs
  have hfresh : (s.run xs).mint.Fresh := (s.mint_run xs).symm ▸ hf
  constructor
  -- What was lost was sent and not removed, and is not stored.
  · refine fun hall => List.eq_nil_iff_forall_not_mem.mpr fun p hp => ?_
    have hgone : p ∈ (books (s.steps xs)).gone := List.mem_append_right _ hp
    obtain ⟨e, he, rfl⟩ := List.mem_map.mp (hkept.mem_sent_of_gone hgone)
    obtain ⟨n, hholds⟩ := hall.held e he (hkept.not_mem_removed_of_lost hfresh hp)
    obtain ⟨q, hq, ⟨m, hm, hparcel⟩, -⟩ := hholds.here
    exact hkept.not_mem_gone hfresh ⟨q, hq, hm⟩ (hparcel ▸ hgone)
  · intro hnone
    have hgone : (books (s.steps xs)).gone = (books (s.steps xs)).removed := by
      rw [Books.gone, hnone, List.append_nil]
    refine ⟨fun e he hstays => ?_, fun n m hm => ⟨hkept.mem_sent hm, ?_⟩,
      fun x hx r n q rule hcall hat hrule => ?_⟩
    · rcases hkept.holds_or_gone hfresh he with hremoved | ⟨n, -, hholds⟩
      · exact absurd (hgone ▸ hremoved) hstays
      · exact ⟨n, hholds⟩
    · exact hgone ▸ hkept.not_mem_gone hfresh hm
    · obtain ⟨before, later, hcut⟩ := List.append_of_mem hx
      obtain ⟨ys, y, -, rfl⟩ := noted_eq_append_cons hcut
      exact (kept_run h ys).targets n q rule (LeaseStore.at?_eq_ok.mp hat).2 hrule

/-- Two queues are each other's dead-letter queue, and a message goes round. -/
def roundTrip : List (Nat × Visit) :=
  [(0, .called (.createRedrive "a" ⟨"b", 1⟩)), (0, .called (.createRedrive "b" ⟨"a", 1⟩)),
    (0, .began ⟨"memory://a", 1, none, some 60000⟩), (0, .looked 0),
    (5, .called (.send "memory://a" "x" 0)), (5, .looked 0),
    (30005, .called (.take ⟨"memory://a", 1, none, none⟩)),
    (30006, .called (.take ⟨"memory://b", 1, none, none⟩)),
    (60006, .called (.take ⟨"memory://b", 1, none, none⟩))]

/-- The first message has been delivered as often as its queue allows when a receive call comes for
    both, with a lease that ends beyond the clock. -/
def halfway : List (Nat × Visit) :=
  [(0, .called (.createRedrive "a" ⟨"b", 1⟩)), (0, .called (.send "memory://a" "x" 0)),
    (0, .called (.take ⟨"memory://a", 1, some 10, none⟩)), (10, .called (.send "memory://a" "y" 0)),
    (10, .called (.take ⟨"memory://a", 10, some 9223372036854775807000, none⟩))]

end Intake
