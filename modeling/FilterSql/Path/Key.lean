import FilterSql.Error
import FilterSql.Text.Blank

/-!
# Keys

A key is a list of segments with points between them.  A segment is a name, which may be followed by
a tag in parentheses: `deliverable(Parcel).title`.
-/

namespace FilterSql

/-- A segment of a key. -/
structure Segment where
  name : String
  tag : Option String
  deriving DecidableEq, Repr

namespace Segment

/-- The text of a segment. -/
def text (s : Segment) : String :=
  match s.tag with
  | some tag => s!"{s.name}({tag})"
  | none => s.name

/-- Reads a segment.  A tag begins at the first opening parenthesis and ends with the segment. -/
def ofChars? (cs : List Char) : Option Segment :=
  match cs.dropWhile (· != '(') with
  | [] => if cs.isEmpty || cs.contains ')' then none else some ⟨String.ofList cs, none⟩
  | _ :: rest =>
    let name := cs.takeWhile (· != '(')
    let tag := rest.dropLast
    if name.isEmpty || tag.isEmpty || rest.getLast? != some ')' ||
        tag.any (fun c => c == '(' || c == ')') then none
    else some ⟨String.ofList name, some (String.ofList tag)⟩

end Segment

/-- Reads the segments of a key. -/
def Segment.ofKey (key : String) : Except CompileError (List Segment) :=
  match (key.toList.splitOn '.').mapM Segment.ofChars? with
  | some segments => .ok segments
  | none => .error (.malformedKey key)

/-- The names of segments with points between them. -/
def Segment.joinNames (segments : List Segment) : String :=
  ".".intercalate (segments.map (·.name))

end FilterSql
