/-! # Binary floating point numbers of 64 bits

A finite number is `±mantissa · 2 ^ exponent` with a mantissa below `2 ^ 53` and an
exponent of at least `-1074`.

* `ofDecimal?`      the number nearest to a decimal, a tie going to the even mantissa
* `shortestDigits`  the fewest decimal digits that read back as the number
* `toText`          those digits in positional notation or with an exponent -/

namespace Intake

/-- A finite number. -/
structure Binary64 where
  negative : Bool
  mantissa : Nat
  exponent : Int
deriving DecidableEq, Repr

namespace Binary64

/-- The least mantissa of a number that is not very small. -/
def hiddenBit : Nat := 4503599627370496

/-- The quotient of two numbers rounded to the nearest integer, a tie to the even one. -/
def roundDiv (num den : Nat) : Nat :=
  let q := num / den
  let r := num % den
  if 2 * r < den then q
  else if den < 2 * r then q + 1
  else if q % 2 = 0 then q
  else q + 1

/-- Numerator and denominator of `n · 2 ^ e`. -/
def scale2 (n : Nat) (e : Int) : Nat × Nat :=
  if 0 ≤ e then (n * Nat.pow 2 e.toNat, 1) else (n, Nat.pow 2 (-e).toNat)

/-- Numerator and denominator of `n · 10 ^ e`. -/
def scale10 (n : Nat) (e : Int) : Nat × Nat :=
  if 0 ≤ e then (n * Nat.pow 10 e.toNat, 1) else (n, Nat.pow 10 (-e).toNat)

/-- The exponent of the number nearest to a positive quotient. -/
def exponentOf (num den : Nat) : Int :=
  let e : Int := (num.log2 : Int) - (den.log2 : Int) - 52
  -- the quotient lies between `2 ^ (e + 51)` and `2 ^ (e + 53)`
  let (n, d) := scale2 den e
  let e := if num * d < hiddenBit * n then e - 1 else e
  max e (-1074)

/-- The number nearest to `± num / den`, if it is finite. -/
def ofQuotient? (negative : Bool) (num den : Nat) : Option Binary64 :=
  if num = 0 then some ⟨negative, 0, -1074⟩
  else
    let e := exponentOf num den
    let (n, d) := scale2 den e
    let m := roundDiv (num * d) n
    let x : Binary64 := if m = 2 * hiddenBit then ⟨negative, hiddenBit, e + 1⟩ else ⟨negative, m, e⟩
    if 971 < x.exponent then none else some x

/-- The number nearest to `± n · 10 ^ e`, if it is finite.  Where the power of ten alone
    decides, it is not computed. -/
def ofDecimal? (negative : Bool) (n : Nat) (e : Int) : Option Binary64 :=
  let point : Int := e + (Nat.toDigits 10 n).length
  if n = 0 ∨ point < -330 then some ⟨negative, 0, -1074⟩
  else if 310 < point then none
  else
    let (num, den) := scale10 n e
    ofQuotient? negative num den

/-- Four times the mantissa, and the ends of the interval of the reals that round to the
    number, in quarters of its last place. -/
def interval (x : Binary64) : Nat × Nat × Nat :=
  let m := 4 * x.mantissa
  if x.mantissa = hiddenBit ∧ -1074 < x.exponent then (m, m - 1, m + 2) else (m, m - 2, m + 2)

/-- Whether `n · 10 ^ k` rounds to the number. -/
def readsBack (x : Binary64) (n : Nat) (k : Int) : Bool :=
  let (_, lo, hi) := x.interval
  let (num, den) := scale10 n k
  let (one, per) := scale2 1 (x.exponent - 2)
  let v := num * per
  let lo := lo * one * den
  let hi := hi * one * den
  if x.mantissa % 2 = 0 then lo ≤ v && v ≤ hi else lo < v && v < hi

/-- The number of decimal digits before the point of a quotient of at least one. -/
def integerDigits (num den : Nat) : Nat := (Nat.toDigits 10 (num / den)).length

/-- The power of ten of the first digit of a positive quotient, plus one: the quotient is
    below `10 ^ p` and not below `10 ^ (p - 1)`. -/
def pointOf (num den : Nat) : Int :=
  if den ≤ num then integerDigits num den
  else
    -- the reciprocal, rounded up, is above `10 ^ (-p)` by less than a factor of ten
    let p : Int := 1 - (integerDigits (den - 1) num : Int)
    p

/-- The shortest of the decimals with at least `n` digits that read back, with the power
    of ten of its last digit. -/
def shortestFrom (x : Binary64) (num den : Nat) (point : Int) : Nat → Nat → Nat × Int
  | 0, n => (roundDiv num den, point - n)
  | fuel + 1, n =>
    let k : Int := point - n
    -- the value in units of `10 ^ k`
    let (a, b) := scale10 1 k
    let num' := num * b
    let den' := den * a
    let lo := num' / den'
    let hi := lo + 1
    let nearLo := 2 * (num' % den') ≤ den'
    if x.readsBack lo k && (nearLo || !x.readsBack hi k) then (lo, k)
    else if x.readsBack hi k then (hi, k)
    else shortestFrom x num den point fuel (n + 1)

/-- The fewest digits that read back as the number, with the power of ten of the last. -/
def shortestDigits (x : Binary64) : Nat × Int :=
  if x.mantissa = 0 then (0, 0)
  else
    let (num, den) := scale2 x.mantissa x.exponent
    shortestFrom x num den (pointOf num den) 17 1

/-- Digits without the zeros at their end, and the power of ten of the last one left. -/
def dropZeros : Nat → Nat → Int → Nat × Int
  | 0, n, k => (n, k)
  | fuel + 1, n, k => if n ≠ 0 ∧ n % 10 = 0 then dropZeros fuel (n / 10) (k + 1) else (n, k)

/-- A number in text: positional from `10 ^ -5` to below `10 ^ 16`, always with a point;
    else with one digit before the point and a signed exponent. -/
def toText (x : Binary64) : String :=
  let sign := if x.negative then "-" else ""
  if x.mantissa = 0 then sign ++ "0.0"
  else
    let (n, k) := x.shortestDigits
    let (n, k) := dropZeros 400 n k
    let ds := Nat.toDigits 10 n
    let point : Int := k + ds.length
    let zeros (j : Int) : List Char := List.replicate j.toNat '0'
    sign ++ String.ofList
      (if -5 < point ∧ point ≤ 16 then
        if 0 ≤ k then ds ++ zeros k ++ ['.', '0']
        else if 0 < point then ds.take point.toNat ++ '.' :: ds.drop point.toNat
        else '0' :: '.' :: zeros (-point) ++ ds
      else
        let rest := ds.drop 1
        let e := point - 1
        ds.take 1 ++ (if rest.isEmpty then [] else '.' :: rest) ++
          'e' :: (if 0 ≤ e then '+' else '-') :: Nat.toDigits 10 e.natAbs)

end Binary64

end Intake
