import FilterSql.Double.Digits
import FilterSql.Text.Numeral

/-!
# Doubles as text

Writing a double with its shortest digits in a given `Layout`, and reading decimal text: a sign,
digits with a point among them, an exponent, or the names of infinity and NaN.
-/

namespace FilterSql.Double

open Text

/-- How shortest digits are set. -/
structure Layout where
  tie : Tie
  /-- The exponents of the first digit that are written without an exponent; all if absent. -/
  positional : Option (Int × Int)
  /-- Is `.0` written after an integer? -/
  pointZero : Bool
  deriving Repr

/-- A decimal without an exponent. -/
def Decimal.positional (d : Decimal) : List Char :=
  let ds := naturalChars d.coefficient
  if 0 ≤ d.exponent then ds ++ List.replicate d.exponent.toNat '0'
  else
    let places := (-d.exponent).toNat
    if places < ds.length then ds.take (ds.length - places) ++ '.' :: ds.drop (ds.length - places)
    else '0' :: '.' :: (List.replicate (places - ds.length) '0' ++ ds)

/-- The exponent of the first digit. -/
def Decimal.firstPlace (d : Decimal) : Int :=
  d.exponent + (naturalChars d.coefficient).length - 1

/-- A decimal with one digit before the point and a signed exponent. -/
def Decimal.scientific (d : Decimal) : List Char :=
  let place := d.firstPlace
  let mantissa :=
    match naturalChars d.coefficient with
    | [] => []
    | [c] => [c]
    | c :: rest => c :: '.' :: rest
  mantissa ++ 'e' :: (if place < 0 then '-' else '+') :: naturalChars place.natAbs

/-- A decimal in a layout. -/
def Layout.chars (l : Layout) (d : Decimal) : List Char :=
  let inRange :=
    match l.positional with
    | none => true
    | some (least, greatest) => decide (least ≤ d.firstPlace ∧ d.firstPlace ≤ greatest)
  if inRange then
    if l.pointZero && 0 ≤ d.exponent then d.positional ++ ['.', '0'] else d.positional
  else d.scientific

/-- The finite number `±mantissa · 2^exponent` in a layout. -/
def Layout.finite (l : Layout) (negative : Bool) (mantissa : Nat) (exponent : Int) : String :=
  let d := if mantissa = 0 then ⟨0, 0⟩ else shortest l.tie mantissa exponent
  String.ofList ((if negative then ['-'] else []) ++ l.chars d)

/-- Doubles as plain text never have an exponent, and integers no point. -/
def plain : Layout := ⟨.up, none, false⟩

/-- A double as plain text. -/
def text (x : Double) : String :=
  match x.datum with
  | .nan => "NaN"
  | .infinite negative => if negative then "-inf" else "inf"
  | .finite negative m e => plain.finite negative m e

/-- The exponent part of a numeral: nothing, or `e` with an optional sign and digits. -/
def exponent? : List Char → Option Int
  | [] => some 0
  | c :: rest => if c = 'e' || c = 'E' then integer? rest else none

/-- An unsigned decimal: digits with at most one point, at least one digit, and an exponent. -/
def ofUnsigned? (negative : Bool) (cs : List Char) : Option Double :=
  let whole := cs.takeWhile isDigit
  let rest := cs.dropWhile isDigit
  let (part, tail) :=
    match rest with
    | '.' :: r => (r.takeWhile isDigit, r.dropWhile isDigit)
    | r => ([], r)
  if whole.isEmpty && part.isEmpty then none
  else
    (exponent? tail).map fun k =>
      ofDecimal negative (digitsValue (whole ++ part)) (k - part.length)

/-- Reads a double without its sign. -/
def ofMagnitude? (negative : Bool) (cs : List Char) : Option Double :=
  let name := String.ofList (cs.map Char.toLower)
  if name = "inf" || name = "infinity" then some (infinity negative)
  else if name = "nan" then some (if negative then nan.neg else nan)
  else ofUnsigned? negative cs

/-- Reads a double: no surrounding blanks, any overflow is an infinity. -/
def ofText? (s : String) : Option Double :=
  match s.toList with
  | '+' :: cs => ofMagnitude? false cs
  | '-' :: cs => ofMagnitude? true cs
  | cs => ofMagnitude? false cs

end FilterSql.Double
