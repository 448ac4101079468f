import FilterSql.Json.Reader
import FilterSql.Value.Basic

/-!
# Binary forms of cells and parameters

Numbers are big-endian words, texts are UTF-8, and dates and moments count from the year 2000.  Each
`encode` has a `decode?` that refuses bytes of another length.
-/

namespace FilterSql.Postgres

/-- Bytes as they are sent. -/
abbrev Bytes := List UInt8

/-! ## Words -/

/-- A number in `width` bytes, the highest first; what does not fit is cut off. -/
def wordBytes : (width : Nat) → Nat → Bytes
  | 0, _ => []
  | width + 1, n => UInt8.ofNat (n / 256 ^ width) :: wordBytes width n

/-- The number that bytes stand for, the highest first. -/
def wordOf (bs : Bytes) : Nat := bs.foldl (fun n b => 256 * n + b.toNat) 0

/-- A signed number in `width` bytes. -/
def signedBytes (width : Nat) (n : Int) : Bytes := wordBytes width (n % 256 ^ width).toNat

/-- The number of `width` bytes. -/
def unsigned? (width : Nat) (bs : Bytes) : Option Nat :=
  if bs.length = width then some (wordOf bs) else none

/-- The signed number of `width` bytes. -/
def signed? (width : Nat) (bs : Bytes) : Option Int :=
  (unsigned? width bs).map fun n => if 2 * n < 256 ^ width then (n : Int) else n - 256 ^ width

/-! ## Texts -/

/-- The bytes of a text. -/
def textBytes (s : String) : Bytes := s.toUTF8.toList

/-- The text of bytes, if they are UTF-8. -/
def text? (bs : Bytes) : Option String := String.fromUTF8? ⟨bs.toArray⟩

/-- The mark before documents of the type `jsonb`. -/
def documentMark : UInt8 := 1

/-- The bytes of a document. -/
def documentBytes (marked : Bool) (j : Json) : Bytes :=
  if marked then documentMark :: textBytes j.compact else textBytes j.compact

/-- The document of bytes. -/
def document? (marked : Bool) (bs : Bytes) : Option Json :=
  match marked, bs with
  | false, _ => text? bs >>= Json.parse?
  | true, b :: rest => if b = documentMark then text? rest >>= Json.parse? else none
  | true, [] => none

/-! ## Floating numbers -/

/-- The bytes of a double. -/
def doubleBytes (x : Double) : Bytes := wordBytes 8 x.bits.toNat

/-- The bytes of the 32-bit number nearest to a double. -/
def singleBytes (x : Double) : Bytes :=
  let f := Binary.Format.binary32
  wordBytes 4 (if x.isNaN then f.word x.isNegative f.quietNaN else f.ofDatum x.datum)

/-- The double of bytes. -/
def double? (bs : Bytes) : Option Double := (unsigned? 8 bs).map Double.ofWord

/-- The double of the bytes of a 32-bit number. -/
def single? (bs : Bytes) : Option Double :=
  (unsigned? 4 bs).map fun w => Double.ofDatum (Binary.Format.binary32.datum w)

/-! ## Days and moments -/

/-- The day 2000-01-01. -/
def epochDay : Int := 10957

/-- The bytes of a day. -/
def dateBytes (d : Date) : Bytes := signedBytes 4 (d.days - epochDay)

/-- The day of bytes. -/
def date? (bs : Bytes) : Option Date := signed? 4 bs >>= fun n => Date.ofDays? (n + epochDay)

/-- The microseconds since 2000-01-01, cut toward that day. -/
def microseconds (t : Moment) : Int :=
  Int.tdiv ((t.seconds - epochDay * 86400) * 1000000000 + t.nanos) 1000

/-- The bytes of a moment. -/
def momentBytes (t : Moment) : Bytes := signedBytes 8 (microseconds t)

/-- The moment of bytes. -/
def moment? (bs : Bytes) : Option Moment := do
  let n ← signed? 8 bs
  Moment.ofSeconds? (n / 1000000 + epochDay * 86400) ((n % 1000000).toNat * 1000)

/-! ## Truth values and identifiers -/

/-- The byte of a truth value. -/
def boolBytes (b : Bool) : Bytes := [if b then 1 else 0]

/-- The truth value of a byte; all but zero is true. -/
def bool? (bs : Bytes) : Option Bool :=
  match bs with
  | [b] => some (b != 0)
  | _ => none

/-- The bytes of an identifier. -/
def uuidBytes (u : Uuid) : Bytes := wordBytes 16 u.value.toNat

/-- The identifier of bytes. -/
def uuid? (bs : Bytes) : Option Uuid := (unsigned? 16 bs).map fun n => ⟨BitVec.ofNat 128 n⟩

end FilterSql.Postgres
