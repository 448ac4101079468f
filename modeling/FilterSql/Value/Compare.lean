import FilterSql.Value.Basic

/-!
# Comparing values

Equality (`Value.same`), which doubles hold by value and documents whatever the order of their
members; the content by which values are hashed (`Value.sameContent`); and the partial order
(`Value.compare?`), which relates values of one kind and integers with doubles.
-/

namespace FilterSql.Value

/-- Equality of values of one kind. -/
def same : Value → Value → Bool
  | .int m, .int n => m == n
  | .uint m, .uint n => m == n
  | .float x, .float y => x.numEq y
  | .string s, .string t => s == t
  | .bool a, .bool b => a == b
  | .json j, .json k => j.same k
  | .uuid u, .uuid v => u == v
  | .bytes bs, .bytes cs => bs == cs
  | .date d, .date e => d == e
  | .timestamp s, .timestamp t => s == t
  | .localTime s, .localTime t => s == t
  | .null, .null => true
  | _, _ => false

/-- Equality of kind and hashed content: the bits of doubles and the text of documents. -/
def sameContent : Value → Value → Bool
  | .float x, .float y => x.bits == y.bits
  | .json j, .json k => j.compact == k.compact
  | v, w => v.same w

/-- The order of two values; none if they are not comparable. -/
def compare? : Value → Value → Option Ordering
  | .int m, .int n => some (compare m.toInt n.toInt)
  | .uint m, .uint n => some (compare m.toNat n.toNat)
  | .float x, .float y => x.compare? y
  | .int m, .float y => (Double.ofInt m.toInt).compare? y
  | .float x, .int n => x.compare? (.ofInt n.toInt)
  | .string s, .string t => some (compare s t)
  | .bool a, .bool b => some (compare a.toNat b.toNat)
  | .date d, .date e => some (compare d.days e.days)
  | .timestamp s, .timestamp t => some (s.order t)
  | _, _ => none

end FilterSql.Value
