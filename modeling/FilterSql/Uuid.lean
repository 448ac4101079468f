import FilterSql.Power

/-!
# Universally unique identifiers

Sixteen bytes, written as 32 hexadecimal digits in groups of 8, 4, 4, 4 and 12.
-/

namespace FilterSql

/-- A number of 128 bits. -/
structure Uuid where
  value : BitVec 128
  deriving DecidableEq, Repr, Inhabited

namespace Uuid

/-- The 32 hexadecimal digits. -/
def digits (u : Uuid) : List Char :=
  (List.range 32).map fun i => Nat.digitChar (u.value.toNat / 16 ^ (31 - i) % 16)

/-- The groups of digits with dashes between them, in lower case. -/
def text (u : Uuid) : String :=
  let ds := u.digits
  String.ofList (ds.take 8 ++ '-' :: (ds.drop 8).take 4 ++ '-' :: (ds.drop 12).take 4 ++
    '-' :: (ds.drop 16).take 4 ++ '-' :: ds.drop 20)

/-- The value of a hexadecimal digit in either case. -/
def hexDigit? (c : Char) : Option Nat :=
  if '0' ≤ c ∧ c ≤ '9' then some (c.toNat - 48)
  else if 'a' ≤ c ∧ c ≤ 'f' then some (c.toNat - 87)
  else if 'A' ≤ c ∧ c ≤ 'F' then some (c.toNat - 55)
  else none

/-- Reads 32 digits. -/
def ofDigits? (ds : List Char) : Option Uuid :=
  if ds.length = 32 then
    (ds.mapM hexDigit?).map fun vs => ⟨BitVec.ofNat 128 (vs.foldl (fun n v => 16 * n + v) 0)⟩
  else none

/-- Reads digits with a dash after the 8th, 12th, 16th and 20th. -/
def ofGroups? (cs : List Char) : Option Uuid :=
  match cs.drop 8, cs.drop 13, cs.drop 18, cs.drop 23 with
  | '-' :: _, '-' :: _, '-' :: _, '-' :: rest =>
    ofDigits?
      (cs.take 8 ++ (cs.drop 9).take 4 ++ (cs.drop 14).take 4 ++ (cs.drop 19).take 4 ++ rest)
  | _, _, _, _ => none

/-- Reads groups, which may stand in braces or after `urn:uuid:`, or 32 digits without dashes. -/
def ofText? (s : String) : Option Uuid :=
  let cs := s.toList
  if cs.length = 32 then ofDigits? cs
  else if cs.length = 36 then ofGroups? cs
  else if cs.length = 38 ∧ cs.head? = some '{' ∧ cs.getLast? = some '}' then
    ofGroups? ((cs.drop 1).take 36)
  else if cs.length = 45 ∧ cs.take 9 = "urn:uuid:".toList then ofGroups? (cs.drop 9)
  else none

end Uuid

end FilterSql
