import Intake.Json

/-! # Heartbeats

When the queues are in memory, a message is sent to each of them at regular intervals.
It tells when it was sent, in universal time. -/

namespace Intake.Heartbeat

/-- The interval from one heartbeat to the next, in milliseconds. -/
def interval : Nat := 5000

/-- The year, the month and the day of a day that is counted from the first of January
    1970.  Years are taken to begin in March, so that a leap day comes last. -/
def date (day : Nat) : Nat × Nat × Nat :=
  let n := day + 719468
  let era := n / 146097
  let dayOfEra := n % 146097
  let yearOfEra := (dayOfEra - dayOfEra / 1460 + dayOfEra / 36524 - dayOfEra / 146096) / 365
  let dayOfYear := dayOfEra - (365 * yearOfEra + yearOfEra / 4 - yearOfEra / 100)
  let m := (5 * dayOfYear + 2) / 153
  let month := if m < 10 then m + 3 else m - 9
  let year := 400 * era + yearOfEra + if month ≤ 2 then 1 else 0
  (year, month, dayOfYear - (153 * m + 2) / 5 + 1)

/-- A number with at least `width` digits. -/
def padded (width n : Nat) : String :=
  let ds := Nat.toDigits 10 n
  String.ofList (List.replicate (width - ds.length) '0' ++ ds)

/-- An instant, in milliseconds from the beginning of 1970, as date and time. -/
def timestamp (t : Nat) : String :=
  let (year, month, day) := date (t / 86400000)
  let s := t / 1000 % 86400
  padded 4 year ++ "-" ++ padded 2 month ++ "-" ++ padded 2 day ++ "T" ++ padded 2 (s / 3600)
    ++ ":" ++ padded 2 (s / 60 % 60) ++ ":" ++ padded 2 (s % 60) ++ "." ++ padded 3 (t % 1000)
    ++ "+00:00"

/-- The message that is sent at an instant. -/
def message (t : Nat) : Json :=
  Json.mkObj [("type", .str "heartbeat"), ("sent_at", .str (timestamp t))]

end Intake.Heartbeat
