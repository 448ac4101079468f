import FilterSql.Power

/-!
# Binary floating formats

A binary interchange format stores a sign, a biased exponent and a fraction.  This file reads a
word of such a format as an exact number `±m · 2^e` (`Format.datum`) and rounds an exact quotient
to the nearest number of the format (`Format.magnitude`), halves to the even neighbour.  Everything
is integer arithmetic, so that comparisons and conversions are exact.
-/

namespace FilterSql.Binary

/-- The quotient `num / den` rounded to the nearest natural number, a half to the even one. -/
def roundQuotient (num den : Nat) : Nat :=
  let q := num / den
  let r := num % den
  if 2 * r < den then q
  else if den < 2 * r then q + 1
  else if q % 2 = 0 then q else q + 1

/-- A format with `fraction` stored fraction bits and `exponent` exponent bits. -/
structure Format where
  fraction : Nat
  exponent : Nat
  deriving DecidableEq, Repr

/-- The 64-bit format. -/
def Format.binary64 : Format := ⟨52, 11⟩

/-- The 32-bit format. -/
def Format.binary32 : Format := ⟨23, 8⟩

/-- What a word of a binary format stands for. -/
inductive Datum where
  | nan
  | infinite (negative : Bool)
  /-- The number `±mantissa · 2^exponent`. -/
  | finite (negative : Bool) (mantissa : Nat) (exponent : Int)
  deriving DecidableEq, Repr

namespace Format

/-- The exponent of the last place of the smallest numbers. -/
def minExponent (f : Format) : Int :=
  2 - (2 : Int) ^ (f.exponent - 1) - f.fraction

/-- The magnitude word of infinity. -/
def infinity (f : Format) : Nat := (2 ^ f.exponent - 1) * 2 ^ f.fraction

/-- The place of the sign bit. -/
def signBit (f : Format) : Nat := 2 ^ (f.fraction + f.exponent)

/-- The quiet NaN with an empty payload. -/
def quietNaN (f : Format) : Nat := f.infinity + 2 ^ (f.fraction - 1)

/-- Reads a word. -/
def datum (f : Format) (word : Nat) : Datum :=
  let negative := decide (f.signBit ≤ word)
  let magnitude := word % f.signBit
  let biased := magnitude / 2 ^ f.fraction
  let stored := magnitude % 2 ^ f.fraction
  if biased = 2 ^ f.exponent - 1 then
    if stored = 0 then .infinite negative else .nan
  else if biased = 0 then .finite negative stored f.minExponent
  else .finite negative (2 ^ f.fraction + stored) (f.minExponent + biased - 1)

/-- The largest `k` with `2^k ≤ num / den`, for positive `num` and `den`. -/
def log2Quotient (num den : Nat) : Int :=
  let k : Int := (num.log2 : Int) - den.log2
  if den * 2 ^ k.toNat ≤ num * 2 ^ (-k).toNat then k else k - 1

/-- The magnitude word nearest to `num / den`; what is too large becomes infinity.  Subnormal and
normal words share one formula, since the words of a format count its numbers in order. -/
def magnitude (f : Format) (num den : Nat) : Nat :=
  if num = 0 then 0
  else
    let place := max (log2Quotient num den - f.fraction) f.minExponent
    let units := roundQuotient (num * 2 ^ (-place).toNat) (den * 2 ^ place.toNat)
    min ((place - f.minExponent).toNat * 2 ^ f.fraction + units) f.infinity

/-- The word of a sign and a magnitude. -/
def word (f : Format) (negative : Bool) (magnitude : Nat) : Nat :=
  if negative then f.signBit + magnitude else magnitude

/-- The word nearest to a datum of another format; a NaN becomes the quiet one of its kind. -/
def ofDatum (f : Format) : Datum → Nat
  | .nan => f.quietNaN
  | .infinite negative => f.word negative f.infinity
  | .finite negative m e =>
    f.word negative (f.magnitude (m * 2 ^ e.toNat) (2 ^ (-e).toNat))

end Format

end FilterSql.Binary
