import FilterSql.Json.Basic
import FilterSql.Double.Text

/-!
# JSON text

The compact text of a JSON value, without blanks, and the pretty one, with one member or element
per line and two spaces of indentation.
-/

namespace FilterSql.Json

open Text

/-- Doubles in JSON text show that they are doubles, and turn to an exponent below `10^-5` and from
`10^16` on. -/
def numberLayout : Double.Layout := ⟨.even, some (-5, 15), true⟩

/-- The text of a number. -/
def numberChars : Number → List Char
  | .int n => (integer n).toList
  | .float x =>
    match x.datum with
    | .finite negative m e => (numberLayout.finite negative m e).toList
    | _ => ['n', 'u', 'l', 'l']

/-- A hexadecimal digit in lower case. -/
def hexDigit (n : Nat) : Char := Nat.digitChar (n % 16)

/-- A character as it stands in a JSON string. -/
def escape (c : Char) : List Char :=
  if c = '"' then ['\\', '"']
  else if c = '\\' then ['\\', '\\']
  else if c = '\n' then ['\\', 'n']
  else if c = '\r' then ['\\', 'r']
  else if c = '\t' then ['\\', 't']
  else if c.toNat = 8 then ['\\', 'b']
  else if c.toNat = 12 then ['\\', 'f']
  else if c.toNat < 32 then ['\\', 'u', '0', '0', hexDigit (c.toNat / 16), hexDigit c.toNat]
  else [c]

/-- A JSON string. -/
def quote (s : String) : List Char := '"' :: (s.toList.flatMap escape ++ ['"'])

mutual

/-- The compact text. -/
def compactChars : Json → List Char
  | .null => ['n', 'u', 'l', 'l']
  | .bool b => if b then ['t', 'r', 'u', 'e'] else ['f', 'a', 'l', 's', 'e']
  | .num n => numberChars n
  | .str s => quote s
  | .arr xs => '[' :: (compactElements xs ++ [']'])
  | .obj ms => '{' :: (compactMembers ms ++ ['}'])

/-- Elements with commas between them. -/
def compactElements : List Json → List Char
  | [] => []
  | [x] => compactChars x
  | x :: xs => compactChars x ++ ',' :: compactElements xs

/-- Members with commas between them. -/
def compactMembers : Members → List Char
  | [] => []
  | [(k, v)] => quote k ++ ':' :: compactChars v
  | (k, v) :: ms => quote k ++ ':' :: (compactChars v ++ ',' :: compactMembers ms)

end

/-- A new line at a depth of indentation. -/
def lineBreak (depth : Nat) : List Char := '\n' :: List.replicate (2 * depth) ' '

mutual

/-- The pretty text at a depth of indentation. -/
def prettyChars (depth : Nat) : Json → List Char
  | .arr [] => ['[', ']']
  | .arr xs => '[' :: (prettyElements (depth + 1) xs ++ lineBreak depth ++ [']'])
  | .obj [] => ['{', '}']
  | .obj ms => '{' :: (prettyMembers (depth + 1) ms ++ lineBreak depth ++ ['}'])
  | j => compactChars j

/-- Elements on lines of their own. -/
def prettyElements (depth : Nat) : List Json → List Char
  | [] => []
  | [x] => lineBreak depth ++ prettyChars depth x
  | x :: xs => lineBreak depth ++ prettyChars depth x ++ ',' :: prettyElements depth xs

/-- Members on lines of their own. -/
def prettyMembers (depth : Nat) : Members → List Char
  | [] => []
  | [(k, v)] => lineBreak depth ++ quote k ++ ':' :: ' ' :: prettyChars depth v
  | (k, v) :: ms =>
    lineBreak depth ++ quote k ++
      ':' :: ' ' :: (prettyChars depth v ++ ',' :: prettyMembers depth ms)

end

/-- The compact text of a value. -/
def compact (j : Json) : String := String.ofList (compactChars j)

/-- The pretty text of a value. -/
def pretty (j : Json) : String := String.ofList (prettyChars 0 j)

end FilterSql.Json
