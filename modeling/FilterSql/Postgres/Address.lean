import FilterSql.Json.Reader
import FilterSql.Text.Blank
import FilterSql.Text.Numeral

/-!
# Addresses of hosts

The texts of addresses: four octets between dots, or eight groups of hexadecimal digits between
colons, in which two colons stand for groups of zeros and the last two groups may be written as
octets.
-/

namespace FilterSql.Postgres

/-- An address of a host. -/
inductive Address where
  | v4 (value : BitVec 32)
  | v6 (value : BitVec 128)
  deriving DecidableEq, Repr

namespace Address

/-- The number of digits in a base, the highest digit first. -/
def ofDigits (base : Nat) (ds : List Nat) : Nat := ds.foldl (fun n d => base * n + d) 0

/-- A number below 256 without zeros in front. -/
def octet? (cs : List Char) : Option Nat := do
  let n ← Text.natural? cs
  if n < 256 ∧ Text.naturalChars n = cs then some n else none

/-- The number that four octets write. -/
def fourOctets? (cs : List Char) : Option Nat := do
  let os ← (cs.splitOn '.').mapM octet?
  if os.length = 4 then some (ofDigits 256 os) else none

/-- A number in one to four hexadecimal digits. -/
def group? (cs : List Char) : Option Nat :=
  if cs.isEmpty ∨ 4 < cs.length then none else (cs.mapM Json.hexValue?).map (ofDigits 16)

/-- Groups, the last two of which may be octets. -/
def groups? : List (List Char) → Option (List Nat)
  | [] => some []
  | [last] =>
    match fourOctets? last with
    | some n => some [n / 65536, n % 65536]
    | none => (group? last).map fun n => [n]
  | g :: rest => do return (← group? g) :: (← groups? rest)

/-- The pieces between colons; an empty text has none. -/
def colonPieces (cs : List Char) : List (List Char) :=
  if cs.isEmpty then [] else cs.splitOn ':'

/-- What stands before and after the first two colons in a row, if there are such. -/
def cutGap : List Char → Option (List Char × List Char)
  | [] => none
  | c :: rest =>
    match c, rest with
    | ':', ':' :: after => some ([], after)
    | _, _ => (cutGap rest).map fun (before, after) => (c :: before, after)

/-- The eight groups of a text. -/
def eightGroups? (cs : List Char) : Option (List Nat) := do
  match cutGap cs with
  | none =>
    let gs ← groups? (colonPieces cs)
    if gs.length = 8 then some gs else none
  | some (before, after) =>
    let front ← (colonPieces before).mapM group?
    let back ← groups? (colonPieces after)
    if front.length + back.length < 8 then
      some (front ++ List.replicate (8 - front.length - back.length) 0 ++ back)
    else none

/-- Reads an address. -/
def ofText? (s : String) : Option Address :=
  match fourOctets? s.toList with
  | some n => some (.v4 (BitVec.ofNat 32 n))
  | none => (eightGroups? s.toList).map fun gs => .v6 (BitVec.ofNat 128 (ofDigits 65536 gs))

end Address

end FilterSql.Postgres
