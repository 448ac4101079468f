import FilterSql.Decimal
import FilterSql.Postgres.Wire

/-!
# Decimals in binary form

The type `numeric` is sent as groups of four digits: their number, the power of ten thousand of the
first, the sign, the places to be shown, and the groups.
-/

namespace FilterSql.Postgres

/-- The groups of four digits of a number, the highest first. -/
def groups (n : Nat) : List Nat :=
  if h : n = 0 then []
  else
    have : n / 10000 < n := Nat.div_lt_self (by omega) (by decide)
    groups (n / 10000) ++ [n % 10000]

/-- The number of groups, the power of the first, the sign, the places, and the groups. -/
def numericForm (weight : Int) (negative : Bool) (places : Nat) (gs : List Nat) : Bytes :=
  wordBytes 2 gs.length ++ signedBytes 2 weight ++ wordBytes 2 (if negative then 0x4000 else 0) ++
    wordBytes 2 places ++ gs.flatMap (wordBytes 2)

/-- Drops zeros at the end. -/
def dropLastZeros (gs : List Nat) : List Nat := (gs.reverse.dropWhile (· == 0)).reverse

/-- The bytes of a decimal.  Groups of zeros after the point are left out if there are digits before
it, and zero has no groups. -/
def decimalBytes (d : Decimal) : Bytes :=
  if d.coefficient = 0 then numericForm 0 false 0 []
  else
    let gs := groups (d.coefficient * 10 ^ ((4 - d.scale % 4) % 4))
    let weight : Int := gs.length - (d.scale + 3) / 4 - 1
    let shown :=
      if weight < 0 then gs
      else
        let whole := weight.toNat + 1
        gs.take whole ++ dropLastZeros (gs.drop whole)
    numericForm weight d.negative d.scale shown

/-- The words of two bytes; a single byte at the end is no word. -/
def words : Bytes → List Nat
  | a :: b :: rest => (256 * a.toNat + b.toNat) :: words rest
  | _ => []

/-- The decimal of groups: the groups up to the power zero, and of the others as many as 28 places
hold. The next group after these rounds the last place, halves up. -/
def ofGroups? (weight : Int) (negative : Bool) (places : Nat) (gs : List Nat) : Option Decimal :=
  let value (gs : List Nat) : Nat := gs.foldl (fun n g => 10000 * n + g) 0
  let whole := (weight + 1).toNat
  if 8 < whole then none
  else do
    let integer := value (gs.take whole) * 10000 ^ (whole - (gs.take whole).length)
    let leading := List.replicate (-(weight + 1)).toNat 0
    let fraction := leading ++ gs.drop whole
    let kept := fraction.take 7
    let up := if ((fraction.drop 7).head?.getD 0) < 5000 then 0 else 1
    let d ← Decimal.fit? negative
      ((integer * 10000 ^ kept.length + value kept) * 10 ^ (28 - 4 * kept.length) + up) 28
    d.rescale? places

/-- The decimal of bytes.  Those after the last group do not count. -/
def decimal? (bs : Bytes) : Option Decimal :=
  match words bs with
  | count :: weight :: sign :: places :: gs =>
    let power : Int := if weight < 0x8000 then weight else weight - 0x10000
    if gs.length < count || (sign != 0 && sign != 0x4000) then none
    else ofGroups? power (sign == 0x4000) places (gs.take count)
  | _ => none

end FilterSql.Postgres
