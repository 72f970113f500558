import Intake.LeaseStore.Counter
import Intake.Proofs.LeaseStore.Traffic
import Intake.Proofs.Timeline

/-!
# A counter as time passes

A counter lets each waiting receive call look when its time has come, the first one first.

- `Counter.lookFrom`: the receive call at a place looks
- `Counter.exists_place_of_lookFirst`: the first call whose time has come looks from its place
-/

namespace Intake

namespace Counter

variable {c c' : Counter} {now : Nat}

/-- Whether a call returns or breaks off makes no difference to the sender's side. -/
@[simp] theorem outbox_finish (c : Counter) (now : Nat) (name : String)
    (r : Except ReceiveFailure (List Delivery)) : (c.finish now name r).outbox = c.outbox := by
  unfold finish
  split <;> rfl

/-- Whether a call returns or breaks off makes no difference to the others. -/
@[simp] theorem polls_finish (c : Counter) (now : Nat) (name : String)
    (r : Except ReceiveFailure (List Delivery)) : (c.finish now name r).polls = c.polls := by
  unfold finish
  split <;> rfl

/-- Let the call at a place look, if its time has come.  A call that waits on goes behind the
    others. -/
def lookFrom (now : Nat) (c : Counter) (i : Nat) : Counter :=
  match c.polls[i]? with
  | none => c
  | some (name, p) =>
    if p.lookAt ≤ now then
      match p.look now c.store with
      | (.inl r, s) => { c.withStore s with polls := c.polls.eraseIdx i }.finish now name r
      | (.inr p, s) => { c.withStore s with polls := c.polls.eraseIdx i ++ [(name, p)] }
    else c

/-- The first call whose time has come looks from its place. -/
theorem exists_place_of_lookFirst {before after : List (String × LongPoll)}
    (hpolls : c.polls = before.reverse ++ after) (h : c.lookFirst now before after = some c') :
    ∃ i name p, c.polls[i]? = some (name, p) ∧ p.lookAt ≤ now ∧ c' = c.lookFrom now i := by
  induction after generalizing before with
  | nil => cases h
  | cons e after ih =>
    obtain ⟨name, p⟩ := e
    unfold lookFirst at h
    split at h
    next hdue =>
      have hplace : c.polls[before.length]? = some (name, p) := by simp [hpolls]
      have herase : c.polls.eraseIdx before.length = before.reverse ++ after := by
        rw [hpolls, ← List.length_reverse, List.eraseIdx_append_of_length_le (Nat.le_refl _),
          Nat.sub_self, List.eraseIdx_cons_zero]
      refine ⟨before.length, name, p, hplace, hdue, ?_⟩
      simp only [lookFrom, hplace, if_pos hdue, herase]
      -- It returns, or it waits on behind the others.
      generalize p.look now c.store = looked at h ⊢
      obtain ⟨result, s⟩ := looked
      cases result <;> exact (Option.some.inj h).symm
    next => exact ih (by rw [hpolls, List.reverse_cons, List.append_assoc]; rfl) h

end Counter

end Intake
