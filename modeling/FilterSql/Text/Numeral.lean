/-!
# Numerals

Reading unsigned and signed decimal numerals.  Only ASCII digits count, and no digit separators.
-/

namespace FilterSql.Text

/-- Is the character an ASCII digit? -/
def isDigit (c : Char) : Bool := '0' ≤ c && c ≤ '9'

/-- The value of an ASCII digit. -/
def digitValue (c : Char) : Nat := c.toNat - '0'.toNat

/-- The number that a list of digits writes, the first digit highest. -/
def digitsValue (ds : List Char) : Nat := ds.foldl (fun n c => 10 * n + digitValue c) 0

/-- The number written by a non-empty list of digits and nothing else. -/
def natural? (cs : List Char) : Option Nat :=
  if !cs.isEmpty && cs.all isDigit then some (digitsValue cs) else none

/-- An optional sign and digits. -/
def integer? : List Char → Option Int
  | '+' :: ds => (natural? ds).map Int.ofNat
  | '-' :: ds => (natural? ds).map fun n => -(n : Int)
  | ds => (natural? ds).map Int.ofNat

/-- The decimal digits of a number. -/
def naturalChars (n : Nat) : List Char := Nat.toDigits 10 n

/-- The decimal text of a number. -/
def natural (n : Nat) : String := String.ofList (naturalChars n)

/-- The decimal text of an integer. -/
def integer (n : Int) : String :=
  if n < 0 then String.ofList ('-' :: naturalChars n.natAbs) else natural n.natAbs

/-- A number in at least `width` digits, zeros in front. -/
def padded (width n : Nat) : List Char :=
  let ds := naturalChars n
  List.replicate (width - ds.length) '0' ++ ds

end FilterSql.Text
