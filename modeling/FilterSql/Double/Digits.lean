import FilterSql.Double.Basic

/-!
# Shortest digits

The shortest decimal that reads back as a given binary number, and of those of that length the
nearest one.  `shortest` tests, for one digit, two digits and so on, the two neighbours of the
number on the decimal grid with that many digits against the interval of reals that round to it.
-/

namespace FilterSql.Double

/-- What a tie between the two neighbours on a decimal grid goes to. -/
inductive Tie where
  /-- The neighbour whose last digit is even. -/
  | even
  /-- The larger neighbour. -/
  | up
  deriving DecidableEq, Repr

/-- The decimal `coefficient · 10^exponent`. -/
structure Decimal where
  coefficient : Nat
  exponent : Int
  deriving DecidableEq, Repr

/-- The reals that round to `value / unit`: from `low / unit` to `high / unit`, the ends included if
`closed`. -/
structure Interval where
  value : Nat
  low : Nat
  high : Nat
  unit : Nat
  closed : Bool
  deriving Repr

/-- The interval of the double `mantissa · 2^exponent`, in quarters of the last place.  Below a
power of two the neighbour is half as far. -/
def Interval.of (mantissa : Nat) (exponent : Int) : Interval :=
  let scale := 2 ^ (exponent - 2).toNat
  let atPower := mantissa == 2 ^ 52 && Binary.Format.binary64.minExponent < exponent
  { value := 4 * mantissa * scale
    low := (4 * mantissa - if atPower then 1 else 2) * scale
    high := (4 * mantissa + 2) * scale
    unit := 2 ^ (2 - exponent).toNat
    closed := mantissa % 2 == 0 }

/-- Does the decimal `n · 10^k` lie in the interval? -/
def Interval.contains (i : Interval) (n : Nat) (k : Int) : Bool :=
  let x := n * 10 ^ k.toNat * i.unit
  let ten := 10 ^ (-k).toNat
  if i.closed then decide (i.low * ten ≤ x ∧ x ≤ i.high * ten)
  else decide (i.low * ten < x ∧ x < i.high * ten)

/-- The nearest decimal with last place `10^k` that lies in the interval, if there is one. -/
def Interval.onGrid (i : Interval) (tie : Tie) (k : Int) : Option Nat :=
  let num := i.value * 10 ^ (-k).toNat
  let den := i.unit * 10 ^ k.toNat
  let n := num / den
  let r := num % den
  match i.contains n k, i.contains (n + 1) k with
  | true, true =>
    if 2 * r < den then some n
    else if den < 2 * r then some (n + 1)
    else match tie with
      | .even => some (if n % 2 = 0 then n else n + 1)
      | .up => some (n + 1)
  | true, false => some n
  | false, true => some (n + 1)
  | false, false => none

/-- The exponent of the first digit of `num / den`, both positive. -/
def firstPlace (num den : Nat) : Int :=
  let guess : Int := ((num.log2 : Int) - den.log2) * 30103 / 100000
  if den * 10 ^ (guess + 1).toNat ≤ num * 10 ^ (-(guess + 1)).toNat then guess + 1
  else if den * 10 ^ guess.toNat ≤ num * 10 ^ (-guess).toNat then guess
  else guess - 1

/-- Takes the zeros off the end of a coefficient, at most `fuel` of them. -/
def stripZeros : (fuel : Nat) → Nat → Int → Decimal
  | 0, n, k => ⟨n, k⟩
  | fuel + 1, n, k => if n % 10 = 0 then stripZeros fuel (n / 10) (k + 1) else ⟨n, k⟩

/-- Tries grids with more and more digits. -/
def search (i : Interval) (tie : Tie) (first : Int) : (fuel digits : Nat) → Decimal
  | 0, digits =>
    ⟨i.value * 10 ^ (digits - first).toNat / (i.unit * 10 ^ (first - digits).toNat), first - digits⟩
  | fuel + 1, digits =>
    let k := first - digits
    match i.onGrid tie k with
    | some n => stripZeros (digits + 1) n k
    | none => search i tie first fuel (digits + 1)

/-- The shortest decimal that reads back as `mantissa · 2^exponent`, for a positive mantissa.
Seventeen digits always suffice. -/
def shortest (tie : Tie) (mantissa : Nat) (exponent : Int) : Decimal :=
  let i := Interval.of mantissa exponent
  search i tie (firstPlace i.value i.unit) 17 0

end FilterSql.Double
