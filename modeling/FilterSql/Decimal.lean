import FilterSql.Double.Text

/-!
# Decimal numbers

A `Decimal` is `±coefficient / 10^scale` with a coefficient of 96 bits and at most 28 places.  It
keeps its places, so `1.50` is not `1.5`.  Reading a decimal with more digits than fit rounds it in
its fraction and fails in its whole part.
-/

namespace FilterSql

open Text

/-- A decimal number of 96 bits and at most 28 places. -/
structure Decimal where
  negative : Bool
  coefficient : Nat
  scale : Nat
  coefficient_lt : coefficient < 2 ^ 96
  scale_le : scale ≤ 28
  deriving DecidableEq, Repr

namespace Decimal

/-- The decimal with these parts, if they fit. -/
def ofParts? (negative : Bool) (coefficient scale : Nat) : Option Decimal :=
  if hc : coefficient < 2 ^ 96 then
    if hs : scale ≤ 28 then some ⟨negative, coefficient, scale, hc, hs⟩ else none
  else none

/-- Gives up as few places as need be for the coefficient to fit, halves to the even neighbour. -/
def fit? (negative : Bool) (coefficient scale : Nat) : Option Decimal :=
  (List.range (scale + 1)).findSome? fun k =>
    ofParts? negative (Binary.roundQuotient coefficient (10 ^ k)) (scale - k)

/-! ## Places -/

/-- Divides by ten, halves up. -/
def roundTenth (n : Nat) : Nat := (n + 5) / 10

/-- Takes up to `places` zeros off the end of a number; gives what is left and the places left. -/
def trimZeros (n : Nat) : (places : Nat) → Nat × Nat
  | 0 => (n, 0)
  | places + 1 => if n % 10 = 0 then trimZeros (n / 10) places else (n, places + 1)

/-- Adds up to `places` zeros to a number while it fits; gives the places added as well. -/
def addZeros (n : Nat) : (places : Nat) → Nat × Nat
  | 0 => (n, 0)
  | places + 1 =>
    if 10 * n < 2 ^ 96 then
      let (m, added) := addZeros (10 * n) places
      (m, added + 1)
    else (n, 0)

/-- The decimal with `scale` places: fewer places round halves up, more places are added as far as
they fit. -/
def rescale? (d : Decimal) (scale : Nat) : Option Decimal :=
  if scale ≤ d.scale then
    let k := d.scale - scale
    ofParts? d.negative ((d.coefficient + 10 ^ k / 2) / 10 ^ k) scale
  else if d.coefficient = 0 then ofParts? d.negative 0 (min scale 28)
  else
    let (n, added) := addZeros d.coefficient (min scale 28 - d.scale)
    ofParts? d.negative n (d.scale + added)

/-! ## Reading text -/

/-- What a reader of digits has read: their value, the places after the point, whether there was a
digit and whether there was a point. -/
structure Reading where
  value : Nat
  places : Nat
  digits : Bool
  point : Bool

/-- Ends a reading. -/
def Reading.close? (negative : Bool) (r : Reading) : Option Decimal :=
  if r.digits then ofParts? negative r.value r.places else none

/-- Ends a reading before a digit that does not fit, which rounds it; the text after the digit does
not count. -/
def Reading.round? (negative : Bool) (r : Reading) (next : Char) : Option Decimal :=
  if isDigit next then
    if 5 ≤ digitValue next then
      if r.value + 1 < 2 ^ 96 then ofParts? negative (r.value + 1) r.places
      else if r.places = 0 then none
      else ofParts? negative ((r.value + 5) / 10) (r.places - 1)
    else ofParts? negative r.value r.places
  else if next = '_' || next = '.' then ofParts? negative r.value r.places
  else none

/-- Reads digits with at most one point, and marks `_` after digits. -/
def Reading.run? (negative : Bool) (r : Reading) : List Char → Option Decimal
  | [] => r.close? negative
  | c :: rest =>
    if r.point && r.places = 28 then r.round? negative c
    else if isDigit c then
      let value := 10 * r.value + digitValue c
      if value < 2 ^ 96 then
        run? negative ⟨value, if r.point then r.places + 1 else 0, true, r.point⟩ rest
      else if r.point then r.round? negative c
      else none
    else if c = '.' then if r.point then none else run? negative { r with point := true } rest
    else if c = '_' && r.digits then run? negative r rest
    else none

/-- Reads a decimal without exponent, with an optional sign. -/
def ofPlain? (cs : List Char) : Option Decimal :=
  match cs with
  | '-' :: rest => Reading.run? true ⟨0, 0, false, false⟩ rest
  | '+' :: rest => Reading.run? false ⟨0, 0, false, false⟩ rest
  | _ => Reading.run? false ⟨0, 0, false, false⟩ cs

/-- Reads digits with an optional plus. -/
def places? : List Char → Option Nat
  | '+' :: ds => natural? ds
  | ds => natural? ds

/-- Moves the point by an exponent.  Places that an exponent adds or removes are kept as they are;
beyond that the number is multiplied out and loses the zeros at the end of its fraction. -/
def shift? (d : Decimal) (exponent : List Char) : Option Decimal :=
  match exponent with
  | '-' :: ds => do
    let k ← places? ds
    ofParts? d.negative d.coefficient (d.scale + k)
  | ds => do
    let k ← places? ds
    if k ≤ d.scale then ofParts? d.negative d.coefficient (d.scale - k)
    else if 28 < k then none
    else
      let product ← fit? d.negative (d.coefficient * 10 ^ k) d.scale
      let (n, scale) := trimZeros product.coefficient product.scale
      ofParts? d.negative n scale

/-- Is the character the mark of an exponent? -/
def isExponentMark (c : Char) : Bool := c == 'e' || c == 'E'

/-- Reads a decimal with an optional sign and exponent. -/
def ofText? (s : String) : Option Decimal :=
  let cs := s.toList
  match cs.dropWhile (!isExponentMark ·) with
  | [] => ofPlain? cs
  | _ :: exponent => do
    let base ← ofPlain? (cs.takeWhile (!isExponentMark ·))
    base.shift? exponent

/-! ## Doubles -/

/-- Turns `n / 2^k` into `m / 5^0 · 10^-j`, one factor of two at a time: a factor is divided out
while `n` is even, else it becomes a factor of ten below, unless `5 · n` has more than 96 bits, when
it is divided out with the loss of a bit.  Gives `m` and `j`. -/
def clearTwos (n : Nat) : (k : Nat) → Nat × Nat
  | 0 => (n, 0)
  | k + 1 =>
    if n % 2 = 0 then clearTwos (n / 2) k
    else if 5 * n < 2 ^ 96 then
      let (m, j) := clearTwos (5 * n) k
      (m, j + 1)
    else clearTwos (n / 2) k

/-- Turns `n · 2^k` into `m · 10^j`, one factor of two at a time: it is multiplied in while the top
of 96 bits is free, else it becomes a factor of ten, and `n` is divided by five. -/
def gatherTwos (n : Nat) : (k : Nat) → Nat × Nat
  | 0 => (n, 0)
  | k + 1 =>
    if n < 2 ^ 95 then gatherTwos (2 * n) k
    else
      let (m, j) := gatherTwos (n / 5) k
      (m, j + 1)

/-- Gives up places beyond the 28th, halves up in each step. -/
def dropPlaces (n : Nat) : (places : Nat) → Nat × Nat
  | 0 => (n, 0)
  | places + 1 =>
    if places < 28 then (n, places + 1)
    else if n / 10 = 0 then (0, 0)
    else dropPlaces (roundTenth n) places

/-- Gives up places while the number has more than 52 bits, halves up in each step. -/
def dropExcess (n : Nat) : (places : Nat) → Nat × Nat
  | 0 => (n, 0)
  | places + 1 => if n < 2 ^ 52 then (n, places + 1) else dropExcess (roundTenth n) places

/-- The decimal of a double, of at most 52 bits below the point. -/
def ofDouble? (x : Double) : Option Decimal :=
  match x.datum with
  | .finite negative m e =>
    if m = 0 then ofParts? negative 0 0
    else if e < 0 then
      let (n, places) := clearTwos m (-e).toNat
      let (n, places) := dropPlaces n places
      let (n, places) := dropExcess n places
      let (n, places) := trimZeros n places
      ofParts? negative n places
    else
      let (n, power) := gatherTwos m e.toNat
      ofParts? negative (n * 10 ^ power) 0
  | _ => none

/-- The double nearest to the exact integer, halves away from zero. -/
def roundAway (x : Double) : Double :=
  match x.datum with
  | .finite negative m e =>
    let den := 2 ^ (-e).toNat
    Double.ofQuotient negative ((2 * (m * 2 ^ e.toNat) + den) / (2 * den)) 1
  | _ => x

/-- The sum of two doubles that are not negative, rounded. -/
def addMagnitudes (x y : Double) : Double :=
  match x.datum, y.datum with
  | .finite _ m e, .finite _ n f =>
    let unit := min e f
    let sum := m * 2 ^ (e - unit).toNat + n * 2 ^ (f - unit).toNat
    Double.ofQuotient false (sum * 2 ^ unit.toNat) (2 ^ (-unit).toNat)
  | _, _ => Double.nan

/-- The double of a decimal.  Whole part and fraction are rounded for themselves, and their sum once
more to the places of the decimal. -/
def toDouble (d : Decimal) : Double :=
  if d.scale = 0 then
    if d.coefficient = 0 then Double.zero false else Double.ofQuotient d.negative d.coefficient 1
  else
    let power := 10 ^ d.scale
    let scale := Double.ofQuotient false power 1
    let whole := Double.ofQuotient false (d.coefficient / power) 1
    let part := (Double.ofQuotient false (d.coefficient % power) 1).divFinite scale
    let magnitude :=
      if d.coefficient % power = 0 then whole
      else (roundAway ((addMagnitudes whole part).mulFinite scale)).divFinite scale
    if d.negative then magnitude.neg else magnitude

end Decimal

end FilterSql
