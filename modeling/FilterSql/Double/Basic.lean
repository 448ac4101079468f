import FilterSql.Binary.Format

/-!
# Doubles

A `Double` is a word of the 64-bit binary format.  The operations go through exact arithmetic on
the datum of the word: rounding of quotients, comparison, truncation to an integer.
-/

namespace FilterSql

open Binary

/-- A 64-bit binary floating number, given by its bits. -/
structure Double where
  bits : UInt64
  deriving DecidableEq, Repr, Inhabited

namespace Double

/-- The number that the bits stand for. -/
def datum (x : Double) : Datum := Format.binary64.datum x.bits.toNat

/-- The double with a given word. -/
def ofWord (word : Nat) : Double := ⟨UInt64.ofNat word⟩

/-- The nearest double to `±num / den`. -/
def ofQuotient (negative : Bool) (num den : Nat) : Double :=
  ofWord (Format.binary64.word negative (Format.binary64.magnitude num den))

/-- The nearest double to an integer. -/
def ofInt (n : Int) : Double := ofQuotient (decide (n < 0)) n.natAbs 1

/-- The double of a datum of any format, rounded if need be. -/
def ofDatum (d : Datum) : Double := ofWord (Format.binary64.ofDatum d)

/-- The quiet NaN. -/
def nan : Double := ofDatum .nan

/-- An infinity. -/
def infinity (negative : Bool) : Double := ofDatum (.infinite negative)

/-- A zero. -/
def zero (negative : Bool) : Double := ofQuotient negative 0 1

/-- Is it not a number? -/
def isNaN (x : Double) : Bool := x.datum == .nan

/-- Is it a number other than an infinity? -/
def isFinite (x : Double) : Bool :=
  match x.datum with
  | .finite .. => true
  | _ => false

/-- The sign bit. -/
def isNegative (x : Double) : Bool := decide (2 ^ 63 ≤ x.bits.toNat)

/-- The opposite sign. -/
def neg (x : Double) : Double := ofWord ((x.bits.toNat + 2 ^ 63) % 2 ^ 64)

/-- `±m · 2^e` as a signed integer count of units `2^unit`, for `unit ≤ e`. -/
def scaled (negative : Bool) (m : Nat) (e unit : Int) : Int :=
  let n : Int := (m * 2 ^ (e - unit).toNat : Nat)
  if negative then -n else n

/-- The order of two doubles; none if one of them is a NaN.  Both zeros are equal. -/
def compare? (x y : Double) : Option Ordering :=
  match x.datum, y.datum with
  | .nan, _ | _, .nan => none
  | .infinite s, .infinite t =>
    if s = t then some .eq else if s then some .lt else some .gt
  | .infinite s, .finite .. => some (if s then .lt else .gt)
  | .finite .., .infinite t => some (if t then .gt else .lt)
  | .finite s m e, .finite t n f =>
    let unit := min e f
    some (compare (scaled s m e unit) (scaled t n f unit))

/-- Numeric equality: a NaN differs from all, both zeros are equal. -/
def numEq (x y : Double) : Bool := x.compare? y == some .eq

/-- The integer part toward zero of a finite double. -/
def truncate? (x : Double) : Option Int :=
  match x.datum with
  | .finite negative m e =>
    let n : Int := (m * 2 ^ e.toNat / 2 ^ (-e).toNat : Nat)
    some (if negative then -n else n)
  | _ => none

/-- Is it a finite double without a fractional part? -/
def isIntegral (x : Double) : Bool :=
  match x.datum with
  | .finite _ m e => m % 2 ^ (-e).toNat == 0
  | _ => false

/-- The product of two doubles, rounded; only for finite ones. -/
def mulFinite (x y : Double) : Double :=
  match x.datum, y.datum with
  | .finite s m e, .finite t n f =>
    ofQuotient (s != t) (m * n * 2 ^ (e + f).toNat) (2 ^ (-(e + f)).toNat)
  | _, _ => nan

/-- The quotient of two doubles, rounded; only for finite ones and a divisor that is not zero. -/
def divFinite (x y : Double) : Double :=
  match x.datum, y.datum with
  | .finite s m e, .finite t n f =>
    ofQuotient (s != t) (m * 2 ^ (e - f).toNat) (n * 2 ^ (f - e).toNat)
  | _, _ => nan

/-- `n · 10^k` rounded to the nearest double.  Exponents far outside the range of doubles are
settled by the number of digits of `n`, so that no power is computed for them. -/
def ofDecimal (negative : Bool) (n : Nat) (k : Int) : Double :=
  if n = 0 then zero negative
  else if 400 < k then infinity negative
  else if k < -400 - (n.log2 : Int) then zero negative
  else ofQuotient negative (n * 10 ^ k.toNat) (10 ^ (-k).toNat)

end Double

end FilterSql
