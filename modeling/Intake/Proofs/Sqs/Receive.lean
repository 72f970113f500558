import Intake.Config.Check
import Intake.Proofs.Table
import Intake.Sqs.Client

/-!
# The numbers in a receive call

A receive call asks for one to ten messages and waits for twenty seconds at most.  Its seconds are
sent in 32 bits with a sign.  They are narrowed before anything is cut off, so what does not fit
comes out as another number: the wait stays in its range, but the length of a lease can become
negative.

- `Capped`: a call with every number cut off at its limit
- `Narrowed`: the call that is made, whatever is asked for
- `Narrowed.capped_iff`: when the two are one
- `receive_narrowed`: a receive makes one call
-/

namespace Intake

namespace Json

/-- Looking up in an object into which a field was put. -/
private theorem lookup_insertField (k : String) (v : Json) (fs : List (String × Json))
    (j : String) :
    Table.lookup j (insertField k v fs) = if j = k then some v else Table.lookup j fs := by
  induction fs with
  | nil => rfl
  | cons f fs ih =>
    obtain ⟨i, w⟩ := f
    simp only [insertField]
    split
    · rfl
    · split
      next _ hk =>
        -- The field that is replaced has the name of the new one.
        simp only [Table.lookup, hk]
        split <;> rfl
      next _ hk =>
        simp only [Table.lookup, ih]
        by_cases hj : j = i
        · rw [if_pos hj, if_pos hj, if_neg (fun h => hk (h.symm.trans hj))]
        · rw [if_neg hj, if_neg hj]

/-- An object has the fields of which it was made. -/
private theorem field?_mkObj {fs : List (String × Json)} (h : (fs.map (·.1)).Nodup) (k : String) :
    (mkObj fs).field? k = Table.lookup k fs := by
  -- The fields are put in one after the other, so each is found by its key.
  have hfold : ∀ acc, Table.lookup k (fs.foldl (fun acc f => insertField f.1 f.2 acc) acc) =
      (Table.lookup k fs).or (Table.lookup k acc) := by
    induction fs with
    | nil => exact fun _ => rfl
    | cons f fs ih =>
      intro acc
      rw [List.map_cons, List.nodup_cons] at h
      rw [List.foldl_cons, ih h.2, lookup_insertField, Table.lookup]
      by_cases hk : k = f.1
      · rw [if_pos hk, if_pos hk, Table.lookup_of_not_mem_names (hk ▸ h.1)]
        rfl
      · rw [if_neg hk, if_neg hk]
  exact (hfold []).trans (Option.or_none ..)

end Json

namespace Sqs

/-- The largest number in 32 bits with a sign. -/
def largest32 : Nat := size32 / 2 - 1

/-- A receive call for a request with every number brought below its limit. -/
structure Capped (r : ReceiveRequest) (call : Request) : Prop where
  action : call.action = "ReceiveMessage"
  destination : call.body.field? "QueueUrl" = some (.str r.destination)
  limit : call.body.field? "MaxNumberOfMessages" = some (.nat (min (max r.limit 1) receiveLimit))
  wait : call.body.field? "WaitTimeSeconds" =
    r.wait.map fun w => .nat (min (wholeSeconds w) waitLimit)
  visibility : call.body.field? "VisibilityTimeout" =
    r.visibility.map fun v => .nat (min (wholeSeconds v) largest32)

/-- A number as it stands in 32 bits with a sign: its residue, or a negative number if that does
    not fit. -/
def narrowed (n : Nat) : Int :=
  if n % size32 ≤ largest32 then (n % size32 : Nat) else (n % size32 : Nat) - size32

/-- A wait that is narrowed first and cut off then; a negative one is none. -/
def shortened (n : Nat) : Nat :=
  if n % size32 ≤ largest32 then min (n % size32) waitLimit else 0

/-- A receive call for a request with its seconds narrowed to 32 bits with a sign. -/
structure Narrowed (r : ReceiveRequest) (call : Request) : Prop where
  action : call.action = "ReceiveMessage"
  destination : call.body.field? "QueueUrl" = some (.str r.destination)
  limit : call.body.field? "MaxNumberOfMessages" = some (.nat (min (max r.limit 1) receiveLimit))
  wait : call.body.field? "WaitTimeSeconds" =
    r.wait.map fun w => .nat (shortened (wholeSeconds w))
  visibility : call.body.field? "VisibilityTimeout" =
    r.visibility.map fun v => .int (narrowed (wholeSeconds v))

/-! ## Narrowing -/

/-- Reading 32 bits as a signed number. -/
private theorem signed32_eq (n : Nat) : signed32 n = narrowed n := by
  simp only [narrowed, signed32, Int.bmod, size32, largest32]
  omega

/-- And raising what is negative to 0 afterwards. -/
private theorem clamp_signed32 (n : Nat) : min (max (signed32 n) 0) waitLimit = shortened n := by
  have hlt : n % size32 < size32 := Nat.mod_lt n (by decide)
  rw [signed32_eq, narrowed, shortened]
  split <;> omega

/-- A number is cut off at the largest by being narrowed if it fits, or has the residue of the
    largest. -/
theorem narrowed_eq_min_iff (n : Nat) :
    narrowed n = (min n largest32 : Nat) ↔ n ≤ largest32 ∨ n % size32 = largest32 := by
  simp only [narrowed, size32, largest32]
  omega

/-- A wait is cut off rightly if it fits, or if its residue fits and is too long as well. -/
theorem shortened_eq_min_iff (n : Nat) : shortened n = min n waitLimit ↔
    n ≤ largest32 ∨ waitLimit ≤ n % size32 ∧ n % size32 ≤ largest32 := by
  have hlarge : waitLimit < largest32 := by decide
  have hpos : 0 < waitLimit := by decide
  -- Up to the largest number of 32 bits nothing is lost.
  have hfits : n ≤ largest32 → n % size32 = n := fun hn =>
    Nat.mod_eq_of_lt (Nat.lt_of_le_of_lt hn (by decide))
  unfold shortened
  split
  next h =>
    by_cases hn : n ≤ largest32
    · simp only [hfits hn, hn, true_or]
    · omega
  next h =>
    have hn : ¬ n ≤ largest32 := fun hn => h ((hfits hn).symm ▸ hn)
    omega

/-! ## One call -/

/-- To change the result of a conversation asks nothing more. -/
private theorem Dialogue.requests_map {α β : Type} (f : α → β) (d : Dialogue α) (last : Reply)
    (replies : List Reply) : ((d.map f).run last replies).2.1 = (d.run last replies).2.1 := by
  induction d generalizing replies with
  | done a => rfl
  | ask r next ih =>
    cases replies with
    | nil => exact congrArg (r :: ·) (ih last [])
    | cons reply replies => exact congrArg (r :: ·) (ih reply replies)

/-- A request is done with its reply. -/
private theorem request_eq {α : Type} (action : String) (parameters : List (String × Json))
    (read : Json → Option α) : ∃ next,
      request action parameters read = .ask ⟨action, Json.mkObj parameters⟩ next ∧
      ∀ reply, ∃ a, next reply = .done a := by
  refine ⟨_, rfl, fun reply => ?_⟩
  cases reply with
  | success v =>
    dsimp only
    cases read v <;> exact ⟨_, rfl⟩
  | refused | unreachable => exact ⟨_, rfl⟩

/-- Whatever comes back, one thing is asked. -/
private theorem requests_request {α : Type} (action : String) (parameters : List (String × Json))
    (read : Json → Option α) (last : Reply) (replies : List Reply) :
    ((request action parameters read).run last replies).2.1 =
      [⟨action, Json.mkObj parameters⟩] := by
  obtain ⟨next, heq, hdone⟩ := request_eq action parameters read
  rw [heq]
  -- The one call is answered by the first reply, or by the last one when the list is empty.
  cases replies with
  | nil =>
    obtain ⟨a, ha⟩ := hdone last
    simp only [Dialogue.run, ha]
  | cons reply replies =>
    obtain ⟨a, ha⟩ := hdone reply
    simp only [Dialogue.run, ha]

/-- A receive is one request. -/
private theorem requests_receive (r : ReceiveRequest) (last : Reply) (replies : List Reply) :
    ((receive r).run last replies).2.1 =
      [⟨"ReceiveMessage", Json.mkObj (receiveParameters r)⟩] := by
  rw [receive, Dialogue.requests_map, requests_request]

/-- No parameter of a receive call is given twice. -/
private theorem nodup_receiveParameters (r : ReceiveRequest) :
    ((receiveParameters r).map (·.1)).Nodup := by
  unfold receiveParameters
  cases r.visibility <;> cases r.wait <;> simp

/-- Its parameters are those asked for, narrowed. -/
private theorem narrowed_receiveParameters (r : ReceiveRequest) :
    Narrowed r ⟨"ReceiveMessage", Json.mkObj (receiveParameters r)⟩ := by
  -- One field after the other; the wait and the visibility by what is asked for.
  have hfield := Json.field?_mkObj (nodup_receiveParameters r)
  constructor
  · rfl
  · rw [hfield]
    rfl
  · rw [hfield]
    rfl
  · rw [hfield, receiveParameters]
    simp only [clamp_signed32]
    cases r.visibility <;> cases r.wait <;> rfl
  · rw [hfield, receiveParameters]
    simp only [signed32_eq]
    cases r.visibility <;> cases r.wait <;> rfl

/-- The call that is made is the one with every number cut off if each time fits in 32 bits with
    a sign, or is cut off by chance. -/
theorem Narrowed.capped_iff {r : ReceiveRequest} {call : Request} (h : Narrowed r call) :
    Capped r call ↔
      (∀ w ∈ r.wait, wholeSeconds w ≤ largest32 ∨
        waitLimit ≤ wholeSeconds w % size32 ∧ wholeSeconds w % size32 ≤ largest32) ∧
      ∀ v ∈ r.visibility, wholeSeconds v ≤ largest32 ∨ wholeSeconds v % size32 = largest32 := by
  -- First the wait, then the visibility; an absent one is left out on both sides.
  have hwait : call.body.field? "WaitTimeSeconds" =
      r.wait.map (fun w => Json.nat (min (wholeSeconds w) waitLimit)) ↔
      ∀ w ∈ r.wait, wholeSeconds w ≤ largest32 ∨
        waitLimit ≤ wholeSeconds w % size32 ∧ wholeSeconds w % size32 ≤ largest32 := by
    rw [h.wait]
    cases r.wait with
    | none => simp
    | some w =>
      simp only [Option.map_some, Json.nat, Option.some.injEq, Json.int.injEq, Int.natCast_inj,
        Option.mem_def, forall_eq', shortened_eq_min_iff]
  have hvisibility : call.body.field? "VisibilityTimeout" =
      r.visibility.map (fun v => Json.nat (min (wholeSeconds v) largest32)) ↔
      ∀ v ∈ r.visibility, wholeSeconds v ≤ largest32 ∨ wholeSeconds v % size32 = largest32 := by
    rw [h.visibility]
    cases r.visibility with
    | none => simp
    | some v =>
      simp only [Option.map_some, Json.nat, Option.some.injEq, Json.int.injEq, Option.mem_def,
        forall_eq', narrowed_eq_min_iff]
  rw [← hwait, ← hvisibility]
  exact ⟨fun hc => ⟨hc.wait, hc.visibility⟩,
    fun ⟨hw, hv⟩ => ⟨h.action, h.destination, h.limit, hw, hv⟩⟩

/-- Every receive makes one call, whatever the service replies.  Its seconds are narrowed to 32
    bits with a sign; so its numbers are cut off at their limits exactly if each time fits, or is
    cut off by chance. -/
theorem receive_narrowed (r : ReceiveRequest) (last : Reply) (replies : List Reply) :
    ∃ call, ((receive r).run last replies).2.1 = [call] ∧ Narrowed r call ∧
      (Capped r call ↔
        (∀ w ∈ r.wait, wholeSeconds w ≤ largest32 ∨
          waitLimit ≤ wholeSeconds w % size32 ∧ wholeSeconds w % size32 ≤ largest32) ∧
        ∀ v ∈ r.visibility, wholeSeconds v ≤ largest32 ∨
          wholeSeconds v % size32 = largest32) := by
  have hnarrowed := narrowed_receiveParameters r
  exact ⟨_, requests_receive r last replies, hnarrowed, hnarrowed.capped_iff⟩

/-- A queue with times that do not fit. -/
def overlong : QueueEntry :=
  { QueueEntry.named "q" with
    visibility := some (largest32 + 1), wait := some (largest32 + 1) }

/-- A configuration with such a queue keeps to all rules; yet the lease becomes negative, and there
    is no wait at all. -/
theorem not_capped_overlong :
    let c : Config := { Config.standard with queues := [overlong] }
    let r := Polling.bySlots ⟨"q", "https://queues/q", c.options overlong, false⟩ 10
    c.sqsFault? = none ∧ ∃ call, ((receive r).run .unreachable []).2.1 = [call] ∧
      call.body.field? "VisibilityTimeout" = some (.int (-(largest32 + 1))) ∧
      call.body.field? "WaitTimeSeconds" = some (.nat 0) ∧ ¬ Capped r call := by
  intro c r
  have hnarrowed := narrowed_receiveParameters r
  refine ⟨by decide, _, requests_receive r _ _, hnarrowed.visibility, hnarrowed.wait,
    fun hcapped => ?_⟩
  -- The visibility is beyond 32 bits, and not congruent to the cap.
  have hfits := (hnarrowed.capped_iff.mp hcapped).2 _ rfl
  exact absurd hfits (by decide)

end Sqs

end Intake
