import FilterSql.Json.Tree
import FilterSql.Text.Numeral

/-!
# Reading JSON text

The reader turns text into a `Tree`: strings with their escapes, numbers by the grammar of JSON,
containers.  It works on lists of characters; each step returns what it leaves of the text.

A number literal without point and exponent that fits 64 bits is an integer.  Any other keeps as
many of its digits as fit a 64-bit word, rounds them to a double and scales it by a power of ten,
with one more rounding (two below `10^-308`).
-/

namespace FilterSql.Json

open Text

/-! ## Numbers -/

/-- A number literal by its parts. -/
structure Literal where
  negative : Bool
  whole : List Char
  fraction : Option (List Char)
  /-- The exponent: is it negative, and its digits. -/
  exponent : Option (Bool × List Char)
  deriving Repr

/-- Digits kept in a 64-bit word, and the power of ten by which they are to be scaled. -/
structure Significand where
  digits : Nat
  power : Int
  deriving Repr

/-- Adds digits of the whole part while they fit; each later one only counts as a power of ten. -/
def Significand.ofWhole : (fits : Bool) → List Char → Significand → Significand
  | _, [], s => s
  | fits, c :: cs, s =>
    let n := 10 * s.digits + digitValue c
    if fits && n < 2 ^ 64 then ofWhole true cs ⟨n, s.power⟩
    else ofWhole false cs ⟨s.digits, s.power + 1⟩

/-- Adds digits of the fraction while they fit, and leaves out all after the first that does not. -/
def Significand.addFraction : List Char → Significand → Significand
  | [], s => s
  | c :: cs, s =>
    let n := 10 * s.digits + digitValue c
    if n < 2 ^ 64 then addFraction cs ⟨n, s.power - 1⟩ else s

/-- The double nearest to a power of ten up to `10^308`. -/
def powerOfTen (k : Nat) : Double := .ofQuotient false (10 ^ k) 1

/-- Divides by a power of ten, in steps of `10^308`. -/
def scaleDown (x : Double) (k : Nat) : Double :=
  if k ≤ 308 then x.divFinite (powerOfTen k)
  else if x.numEq (.zero false) then x
  else scaleDown (x.divFinite (powerOfTen 308)) (k - 308)
termination_by k

/-- A double from its kept digits; none if it is beyond the doubles. -/
def Significand.double? (s : Significand) : Option Double :=
  let x := Double.ofInt s.digits
  if s.power < 0 then some (scaleDown x (-s.power).toNat)
  else if 308 < s.power then if s.digits = 0 then some x else none
  else
    let y := x.mulFinite (powerOfTen s.power.toNat)
    if y.isFinite then some y else none

/-- The number that a literal stands for. -/
def Literal.number? (l : Literal) : Option Number :=
  let whole := Significand.ofWhole true l.whole ⟨0, 0⟩
  let signed (x : Double) : Number := .float (if l.negative then x.neg else x)
  match l.fraction, l.exponent with
  | none, none =>
    if whole.power = 0 ∧ ¬ l.negative then some (.int whole.digits)
    else if whole.power = 0 ∧ 0 < whole.digits ∧ whole.digits ≤ 2 ^ 63 then
      some (.int (-(whole.digits : Int)))
    else whole.double?.map signed
  | fraction, exponent =>
    let s := whole.addFraction (fraction.getD [])
    match exponent with
    | none => s.double?.map signed
    | some (down, ds) =>
      let k : Int := digitsValue ds
      if 2 ^ 31 ≤ k then if s.digits ≠ 0 ∧ ¬ down then none else some (signed (.zero false))
      else (Significand.mk s.digits (s.power + if down then -k else k)).double?.map signed

/-- Takes the digits off the front, at least one. -/
def digits? (cs : List Char) : Option (List Char × List Char) :=
  match cs.takeWhile isDigit with
  | [] => none
  | ds => some (ds, cs.dropWhile isDigit)

/-- The whole part of a literal has no needless zero in front. -/
def whole? : List Char → Option (List Char × List Char)
  | '0' :: rest =>
    match rest with
    | c :: _ => if isDigit c then none else some (['0'], rest)
    | [] => some (['0'], rest)
  | cs => digits? cs

/-- The fraction of a literal, if there is one. -/
def fraction? : List Char → Option (Option (List Char) × List Char)
  | '.' :: rest => (digits? rest).map fun (ds, r) => (some ds, r)
  | cs => some (none, cs)

/-- The exponent of a literal, if there is one. -/
def exponentPart? : List Char → Option (Option (Bool × List Char) × List Char)
  | c :: rest =>
    if c = 'e' || c = 'E' then
      match rest with
      | '+' :: r => (digits? r).map fun (ds, r) => (some (false, ds), r)
      | '-' :: r => (digits? r).map fun (ds, r) => (some (true, ds), r)
      | r => (digits? r).map fun (ds, r) => (some (false, ds), r)
    else some (none, c :: rest)
  | [] => some (none, [])

/-- Reads a literal after its sign. -/
def unsigned? (negative : Bool) (cs : List Char) : Option (Literal × List Char) := do
  let (whole, r) ← whole? cs
  let (fraction, r) ← fraction? r
  let (exponent, r) ← exponentPart? r
  return (⟨negative, whole, fraction, exponent⟩, r)

/-- Reads a number literal. -/
def literal? : List Char → Option (Literal × List Char)
  | '-' :: rest => unsigned? true rest
  | cs => unsigned? false cs

/-! ## Strings -/

/-- A part of a string: a character, or a unit of 16 bits written as `\uXXXX`. -/
inductive Part where
  | char (c : Char)
  | unit (n : Nat)
  deriving Repr

/-- The value of a hexadecimal digit. -/
def hexValue? (c : Char) : Option Nat :=
  if '0' ≤ c ∧ c ≤ '9' then some (c.toNat - 48)
  else if 'a' ≤ c ∧ c ≤ 'f' then some (c.toNat - 87)
  else if 'A' ≤ c ∧ c ≤ 'F' then some (c.toNat - 55)
  else none

/-- The value of four hexadecimal digits. -/
def hexUnit? (a b c d : Char) : Option Nat := do
  return (((← hexValue? a) * 16 + (← hexValue? b)) * 16 + (← hexValue? c)) * 16 + (← hexValue? d)

/-- The character of an escape of one letter. -/
def shortEscape? (c : Char) : Option Char :=
  if c = '"' then some '"'
  else if c = '\\' then some '\\'
  else if c = '/' then some '/'
  else if c = 'b' then some (Char.ofNat 8)
  else if c = 'f' then some (Char.ofNat 12)
  else if c = 'n' then some '\n'
  else if c = 'r' then some '\r'
  else if c = 't' then some '\t'
  else none

/-- Reads a string after its opening quote; `acc` holds the parts so far in reverse. -/
def stringParts? (acc : List Part) : List Char → Option (List Part × List Char)
  | [] => none
  | '"' :: rest => some (acc.reverse, rest)
  | '\\' :: 'u' :: a :: b :: c :: d :: rest =>
    match hexUnit? a b c d with
    | some n => stringParts? (.unit n :: acc) rest
    | none => none
  | '\\' :: e :: rest =>
    match shortEscape? e with
    | some c => stringParts? (.char c :: acc) rest
    | none => none
  | c :: rest => if c.toNat < 32 ∨ c = '\\' then none else stringParts? (.char c :: acc) rest

/-- Is the unit the first half of a surrogate pair? -/
def isHighSurrogate (n : Nat) : Bool := 0xD800 ≤ n && n < 0xDC00

/-- Is the unit the second half of a surrogate pair? -/
def isLowSurrogate (n : Nat) : Bool := 0xDC00 ≤ n && n < 0xE000

/-- The characters of a string, if its surrogates come in pairs. -/
def joinParts? : List Part → Option (List Char)
  | [] => some []
  | .char c :: rest => (joinParts? rest).map (c :: ·)
  | .unit n :: rest =>
    if isHighSurrogate n then
      match rest with
      | .unit m :: rest' =>
        if isLowSurrogate m then
          (joinParts? rest').map (Char.ofNat (0x10000 + (n - 0xD800) * 0x400 + (m - 0xDC00)) :: ·)
        else none
      | _ => none
    else if isLowSurrogate n then none
    else (joinParts? rest).map (Char.ofNat n :: ·)

/-- Reads a string after its opening quote. -/
def string? (cs : List Char) : Option (Option String × List Char) :=
  (stringParts? [] cs).map fun (parts, rest) => ((joinParts? parts).map String.ofList, rest)

/-! ## Containers -/

/-- Is the character a blank between the tokens of a JSON text? -/
def isSpace (c : Char) : Bool := c == ' ' || c == '\t' || c == '\n' || c == '\r'

/-- Drops blanks. -/
def skipSpace (cs : List Char) : List Char := cs.dropWhile isSpace

mutual

/-- Reads one value. -/
def tree? : (fuel : Nat) → List Char → Option (Tree × List Char)
  | 0, _ => none
  | fuel + 1, cs =>
    match skipSpace cs with
    | 'n' :: 'u' :: 'l' :: 'l' :: rest => some (.null, rest)
    | 't' :: 'r' :: 'u' :: 'e' :: rest => some (.bool true, rest)
    | 'f' :: 'a' :: 'l' :: 's' :: 'e' :: rest => some (.bool false, rest)
    | '"' :: rest => (string? rest).map fun (s, r) => (.text s, r)
    | '[' :: rest =>
      match skipSpace rest with
      | ']' :: r => some (.list [], r)
      | r => (listItems? fuel r).map fun (xs, r) => (.list xs, r)
    | '{' :: rest =>
      match skipSpace rest with
      | '}' :: r => some (.record [], r)
      | r => (recordItems? fuel r).map fun (ms, r) => (.record ms, r)
    | r => (literal? r).map fun (l, r) => (.number l.number?, r)

/-- Reads the elements of a list up to its closing bracket. -/
def listItems? : (fuel : Nat) → List Char → Option (List Tree × List Char)
  | 0, _ => none
  | fuel + 1, cs => do
    let (x, r) ← tree? fuel cs
    match skipSpace r with
    | ']' :: r => return ([x], r)
    | ',' :: r =>
      let (xs, r) ← listItems? fuel r
      return (x :: xs, r)
    | _ => none

/-- Reads the members of a record up to its closing brace. -/
def recordItems? : (fuel : Nat) → List Char → Option (List (Option String × Tree) × List Char)
  | 0, _ => none
  | fuel + 1, cs =>
    match skipSpace cs with
    | '"' :: r => do
      let (key, r) ← string? r
      match skipSpace r with
      | ':' :: r =>
        let (value, r) ← tree? fuel r
        match skipSpace r with
        | '}' :: r => return ([(key, value)], r)
        | ',' :: r =>
          let (ms, r) ← recordItems? fuel r
          return ((key, value) :: ms, r)
        | _ => none
      | _ => none
    | _ => none

end

/-- Reads a whole text as one tree.  Two steps per character are enough. -/
def document? (s : String) : Option Tree :=
  let cs := s.toList
  match tree? (2 * cs.length + 2) cs with
  | some (t, rest) => if (skipSpace rest).isEmpty then some t else none
  | none => none

/-- Reads a whole text as one value. -/
def parse? (s : String) : Option Json := do
  (← document? s).json? .ofText

end FilterSql.Json
