/-! # Unsigned decimal numbers of bounded size

Reading is strict: ASCII digits only, at least one, and at most one `+` in front.  A
number that does not fit is refused. -/

namespace Intake.Text

/-- The value of a decimal digit. -/
def digit? (c : Char) : Option Nat :=
  if '0' ≤ c ∧ c ≤ '9' then some (c.toNat - '0'.toNat) else none

/-- The number that a list of digits goes on with after `n`. -/
def digitsFrom (n : Nat) : List Char → Option Nat
  | [] => some n
  | c :: cs => (digit? c).bind fun d => digitsFrom (10 * n + d) cs

/-- The number that a nonempty list of digits denotes. -/
def digits? : List Char → Option Nat
  | [] => none
  | cs => digitsFrom 0 cs

/-- The number below `bound` that a text denotes. -/
def unsigned? (bound : Nat) (s : String) : Option Nat :=
  let cs := s.toList
  let ds := match cs with
    | '+' :: rest => rest
    | _ => cs
  (digits? ds).filter (· < bound)

/-- Digits are read as the number that they denote. -/
theorem digitsFrom_eq {cs : List Char} (h : ∀ c ∈ cs, c.isDigit = true) (n : Nat) :
    digitsFrom n cs = some (Nat.ofDigitChars 10 cs n) := by
  induction cs generalizing n with
  | nil => rfl
  | cons c cs ih =>
    have hc : digit? c = some (c.toNat - '0'.toNat) := by
      have hdigit := h c List.mem_cons_self
      simp only [Char.isDigit, Bool.and_eq_true, decide_eq_true_eq] at hdigit
      exact if_pos hdigit
    rw [digitsFrom, hc, Nat.ofDigitChars_cons]
    exact ih (fun d hd => h d (List.mem_cons_of_mem _ hd)) _

/-- A number that fits is read back. -/
theorem unsigned?_toString {bound k : Nat} (h : k < bound) :
    unsigned? bound (toString k) = some k := by
  have hdigits : ∀ c ∈ Nat.toDigits 10 k, c.isDigit = true :=
    fun c hc => Nat.isDigit_of_mem_toDigits (by decide) (by decide) hc
  have hread : digits? (Nat.toDigits 10 k) = some k := by
    cases hcs : Nat.toDigits 10 k with
    | nil => exact absurd hcs Nat.toDigits_ne_nil
    | cons c cs =>
      rw [digits?, ← hcs, digitsFrom_eq hdigits, Nat.ofDigitChars_ten_toDigits]
      exact nofun
  -- No sign stands in front of the digits.
  have hplus : ∀ rest, Nat.toDigits 10 k ≠ '+' :: rest := fun rest he =>
    absurd (hdigits '+' (he ▸ List.mem_cons_self)) (by decide)
  rw [unsigned?, Nat.toString_eq_repr, Nat.repr_eq_ofList_toDigits, String.toList_ofList]
  split
  next rest hcs => exact absurd hcs (hplus rest)
  next => simp [hread, h]

/-- The truth value that a text names. -/
def bool? (s : String) : Option Bool :=
  if s = "true" then some true
  else if s = "false" then some false
  else none

end Intake.Text
