/-! # Virtual time

A `Timeline` says how a system behaves in time: `act?` does one thing that can be
done at an instant, `next?` names the next instant at which the passing of time
alone makes something possible.  Doing things takes no time; the clock moves only
when nothing can be done, and then straight to the next such instant.

* `settle`    everything that can be done at an instant is done
* `runUntil`  time passes until a condition holds or a limit is reached -/

namespace Intake

/-- The behaviour of a system in time. -/
structure Timeline (σ : Type) where
  /-- One thing that can be done at this instant, if there is any. -/
  act? : Nat → σ → Option σ
  /-- The next instant for which something waits. -/
  next? : σ → Option Nat

namespace Timeline

variable {σ : Type} (T : Timeline σ)

/-- Do what can be done at instant `now`, at most `fuel` things. -/
def settleFor (now : Nat) : Nat → σ → σ
  | 0, s => s
  | fuel + 1, s =>
    match T.act? now s with
    | none => s
    | some s' => settleFor now fuel s'

/-- More things than any system here does at one instant. -/
def burst : Nat := 1000000

/-- Do everything that can be done at instant `now`. -/
def settle (now : Nat) (s : σ) : σ := T.settleFor now burst s

/-- Where the clock goes from `now` when nothing is left to do: to the next instant
    for which something waits, not past `limit`. -/
def hop (now limit : Nat) (s : σ) : Nat :=
  match T.next? s with
  | some t => min limit (max t (now + 1))
  | none => limit

/-- The clock goes on. -/
theorem lt_hop {now limit : Nat} (h : now < limit) (s : σ) : now < T.hop now limit s := by
  unfold hop
  split <;> omega

/-- The clock does not go past the limit. -/
theorem hop_le {now limit : Nat} (s : σ) : T.hop now limit s ≤ limit := by
  unfold hop
  split <;> omega

/-- Let time pass from `now` until `done` holds at an instant at which everything is
    done, at the latest until `limit`.  The result is the instant reached and the
    state then. -/
def runUntil (done : σ → Bool) (limit now : Nat) (s : σ) : Nat × σ :=
  let s := T.settle now s
  if done s then (now, s)
  else if now < limit then
    runUntil done limit (T.hop now limit s) s
  else (now, s)
termination_by limit - now
decreasing_by exact Nat.sub_lt_sub_left ‹now < limit› (T.lt_hop ‹now < limit› _)

/-- Let time pass until `limit`. -/
def advance (limit now : Nat) (s : σ) : Nat × σ := T.runUntil (fun _ => false) limit now s

end Timeline

/-- The smallest of some instants. -/
def earliest (ts : List Nat) : Option Nat := ts.min?

end Intake
