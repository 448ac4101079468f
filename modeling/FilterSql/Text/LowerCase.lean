import FilterSql.Text.CaseTables

/-!
# Lower case

Lower-casing of characters and of whole texts.  A character may have a lower case of two
characters, and a capital sigma at the end of a word becomes a final sigma.
-/

namespace FilterSql.Text

/-- Does one of the ranges hold the code point? -/
def inRanges (ranges : List (Nat × Nat)) (n : Nat) : Bool :=
  ranges.any fun (first, last) => first ≤ n && n ≤ last

/-- Does the character have a case? -/
def isCased (c : Char) : Bool := inRanges casedRanges c.toNat

/-- Do case conditions look past the character? -/
def isCaseIgnorable (c : Char) : Bool := inRanges caseIgnorableRanges c.toNat

/-- Does the run hold the code point? -/
def CaseRun.contains (r : CaseRun) (n : Nat) : Bool :=
  r.first ≤ n && n ≤ r.last && (n - r.first) % r.step == 0

/-- The lower case of a character by itself.  ASCII needs no table. -/
def lowerChar (c : Char) : List Char :=
  if c.toNat < 128 then [c.toLower]
  else if c.toNat = 0x130 then ['i', Char.ofNat 0x307]
  else
    match lowerRuns.find? (·.contains c.toNat) with
    | some r => [Char.ofNat ((c.toNat : Int) + r.shift).toNat]
    | none => [c]

/-- Is the first character that is not ignorable one with a case? -/
def reachesCased (cs : List Char) : Bool :=
  match cs.dropWhile isCaseIgnorable with
  | c :: _ => isCased c
  | [] => false

/-- Lower-cases the characters after `before`, which is given in reverse. -/
def lowerFrom (before : List Char) : List Char → List Char
  | [] => []
  | c :: rest =>
    let low :=
      if c.toNat = 0x3A3 then
        if reachesCased before && !reachesCased rest then [Char.ofNat 0x3C2] else [Char.ofNat 0x3C3]
      else lowerChar c
    low ++ lowerFrom (c :: before) rest

/-- The lower case of a text. -/
def lower (s : String) : String := String.ofList (lowerFrom [] s.toList)

/-- Lower-cases the first character only. -/
def lowerFirst (s : String) : String :=
  match s.toList with
  | [] => ""
  | c :: rest => String.ofList (lowerChar c ++ rest)

end FilterSql.Text
