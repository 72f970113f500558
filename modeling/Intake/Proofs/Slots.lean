import Intake.Slots

/-!
# Taking slots and putting them back

- `release_acquire`: a slot that was taken and comes back leaves the slots as they were
- `release_one`: one slot that is missing comes back in full
- `threshold_ofCapacity`: a threshold that is in its range is taken as it is
-/

namespace Intake.Slots

variable {s : Slots}

/-- Taking slots ignores no release. -/
@[simp] theorem ignored_acquire (s : Slots) (n : Nat) : (s.acquire n).ignored = s.ignored := rfl

/-- One slot that is missing comes back in full. -/
theorem release_one (h : s.free < s.capacity) :
    s.release 1 = { s with free := s.free + 1 } := by
  have hone : s.missing 1 = 1 := by
    unfold missing
    omega
  simp [release, hone]

/-- One slot is taken if one is free. -/
private theorem acquire_one (h : 0 < s.free) : s.acquire 1 = { s with free := s.free - 1 } := by
  have hone : s.granted 1 = 1 := by
    unfold granted
    omega
  simp [acquire, hone]

/-- A slot that was taken and comes back leaves the slots as they were. -/
theorem release_acquire (hpos : 0 < s.free) (hle : s.free ≤ s.capacity) :
    (s.acquire 1).release 1 = s := by
  rw [acquire_one hpos, release_one (by dsimp only; omega)]
  simp only [Nat.sub_add_cancel hpos]

/-- A threshold in its range is not changed. -/
theorem threshold_ofCapacity {capacity threshold : Nat} (hpos : 1 ≤ threshold)
    (hle : threshold ≤ capacity) : (ofCapacity capacity threshold).threshold = threshold := by
  simp only [ofCapacity]
  omega

end Intake.Slots
