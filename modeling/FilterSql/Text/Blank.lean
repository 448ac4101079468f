/-!
# Blanks and pieces of text

The characters that count as white space, trimming, and cutting text at separators.
-/

namespace FilterSql.Text

/-- Does the character have the property `White_Space`? -/
def isBlank (c : Char) : Bool :=
  let n := c.toNat
  (0x09 ≤ n && n ≤ 0x0D) || n == 0x20 || n == 0x85 || n == 0xA0 || n == 0x1680 ||
    (0x2000 ≤ n && n ≤ 0x200A) || n == 0x2028 || n == 0x2029 || n == 0x202F || n == 0x205F ||
    n == 0x3000

/-- Drops the blanks at both ends of a list of characters. -/
def trimChars (cs : List Char) : List Char :=
  ((cs.dropWhile isBlank).reverse.dropWhile isBlank).reverse

/-- Drops the blanks at both ends of a text. -/
def trim (s : String) : String := String.ofList (trimChars s.toList)

/-- The maximal runs of characters that are no separators. -/
def runs (sep : Char → Bool) (cs : List Char) : List (List Char) :=
  (cs.splitOnP sep).filter fun p => !p.isEmpty

/-- The pieces of a text between separators, empty ones included. -/
def split (sep : Char → Bool) (s : String) : List String :=
  (s.toList.splitOnP sep).map String.ofList

/-- The non-empty pieces of a text between separators. -/
def words (sep : Char → Bool) (s : String) : List String :=
  (runs sep s.toList).map String.ofList

/-- What stands before and after the first separator, if there is one. -/
def cut (sep : Char) : List Char → Option (List Char × List Char)
  | [] => none
  | c :: rest =>
    if c = sep then some ([], rest)
    else (cut sep rest).map fun (before, after) => (c :: before, after)

/-- Equality of texts up to the case of ASCII letters. -/
def sameIgnoringCase (s t : String) : Bool :=
  s.toList.map Char.toLower == t.toList.map Char.toLower

end FilterSql.Text
