import FilterSql.Proofs.Sql.Rendering
import FilterSql.Proofs.Sql.Words

/-!
# Keys of documents read back

Where a text is taken out of a document, its keys stand in literals: in PostgreSQL each in one of
its own behind an arrow, in SQLite all of them in one path `$.a."b c"`.  `arrowKeys?` and
`argumentKeys?` read the keys off what follows the column.  These are the keys that were written,
whatever characters they have (`keys_of_extraction`), so that the text determines them.
-/

namespace FilterSql.Sql

/-! ## Literals -/

/-- The meaning of characters between quotes, where a doubled quote is one; none if a quote stands
alone. -/
def undoubled? (quote : Char) : List Char → Option (List Char)
  | [] => some []
  | [c] => if c = quote then none else some [c]
  | c :: c' :: rest =>
    if c ≠ quote then (undoubled? quote (c' :: rest)).map (c :: ·)
    else if c' = quote then (undoubled? quote rest).map (quote :: ·)
    else none

theorem undoubled?_cons {quote c : Char} (h : c ≠ quote) (cs : List Char) :
    undoubled? quote (c :: cs) = (undoubled? quote cs).map (c :: ·) := by
  cases cs with
  | nil => simp [undoubled?, h]
  | cons c' rest => rw [undoubled?, if_pos h]

theorem undoubled?_doubled (quote : Char) (cs : List Char) :
    undoubled? quote (doubled quote cs) = some cs := by
  induction cs with
  | nil => rfl
  | cons c cs ih =>
    rw [← List.singleton_append, doubled_append]
    by_cases h : c = quote
    · subst h
      simp [doubled, undoubled?, ← ih]
    · have single : doubled quote [c] = [c] := by simp [doubled, h]
      rw [single, List.singleton_append, undoubled?_cons h, ih]
      rfl

theorem doubled_injective (quote : Char) : Function.Injective (doubled quote) := by
  intro cs ds h
  have same := congrArg (undoubled? quote) h
  rw [undoubled?_doubled, undoubled?_doubled] at same
  exact Option.some.inj same

/-! ## Paths -/

/-- May the character begin a member that stands without quotes? -/
def opensMember (c : Char) : Bool := c.isAlpha || c == '_'

/-- May the character stand in a member without quotes? -/
def inMember (c : Char) : Bool := c.isAlphanum || c == '_'

/-- What a member means that begins after a quote, and what stands after its closing quote.  A
backslash comes before a backslash or a quote that is meant. -/
def quotedMember? : List Char → Option (List Char × List Char)
  | [] => none
  | [c] => if c = '"' then some ([], []) else none
  | c :: c' :: rest =>
    if c = '"' then some ([], c' :: rest)
    else if c ≠ '\\' then (quotedMember? (c' :: rest)).map fun (key, after) => (c :: key, after)
    else if c' = '\\' ∨ c' = '"' then
      (quotedMember? rest).map fun (key, after) => (c' :: key, after)
    else none

/-- What a member means, and what stands after it.  Without quotes it goes as far as it can. -/
def pathMember? : List Char → Option (List Char × List Char)
  | [] => none
  | c :: rest =>
    if c = '"' then quotedMember? rest
    else if opensMember c then some (c :: rest.takeWhile inMember, rest.dropWhile inMember)
    else none

theorem length_quotedMember? {cs key after : List Char} (h : quotedMember? cs = some (key, after)) :
    after.length < cs.length := by
  fun_induction quotedMember? cs generalizing key with
  | case1 => simp at h
  | case2 =>
    obtain ⟨-, rfl⟩ := by simpa using h
    simp
  | case3 => simp at h
  | case4 c' rest =>
    obtain ⟨-, rfl⟩ := by simpa using h
    simp
  | case5 c c' rest hq hc ih =>
    obtain ⟨⟨key', after'⟩, hp, heq⟩ := Option.map_eq_some_iff.1 h
    obtain ⟨-, rfl⟩ := Prod.mk.inj heq
    have := ih hp
    simp only [List.length_cons] at this ⊢
    omega
  | case6 c c' rest hq hc hc' ih =>
    obtain ⟨⟨key', after'⟩, hp, heq⟩ := Option.map_eq_some_iff.1 h
    obtain ⟨-, rfl⟩ := Prod.mk.inj heq
    have := ih hp
    simp only [List.length_cons]
    omega
  | case7 => simp at h

theorem length_pathMember? {cs key after : List Char} (h : pathMember? cs = some (key, after)) :
    after.length < cs.length := by
  cases cs with
  | nil => simp [pathMember?] at h
  | cons c rest =>
    rw [pathMember?] at h
    split_ifs at h
    · have := length_quotedMember? h
      simp only [List.length_cons]
      omega
    · obtain ⟨-, rfl⟩ := by simpa using h
      have := (List.dropWhile_sublist inMember (l := rest)).length_le
      simp only [List.length_cons]
      omega

/-- The members of a path, each after a point. -/
def pathMembers? : List Char → Option (List String)
  | [] => some []
  | c :: rest =>
    if c = '.' then
      match h : pathMember? rest with
      | some (key, after) =>
        have := length_pathMember? h
        (pathMembers? after).map (String.ofList key :: ·)
      | none => none
    else none
termination_by cs => cs.length
decreasing_by simp only [List.length_cons]; omega

/-- The keys of a path, which begins with a dollar sign. -/
def pathKeys? : List Char → Option (List String)
  | [] => none
  | c :: rest => if c = '$' then pathMembers? rest else none

theorem quotedMember?_memberChar (c : Char) (cs : List Char) :
    quotedMember? (memberChar c ++ cs) =
      (quotedMember? cs).map fun (key, after) => (c :: key, after) := by
  unfold memberChar
  by_cases h : c = '\\' ∨ c = '"'
  · rw [if_pos h]
    simp [quotedMember?, h]
  · rw [if_neg h]
    obtain ⟨hslash, hquote⟩ := not_or.1 h
    cases cs with
    | nil => simp [quotedMember?, hquote]
    | cons c' rest => simp [quotedMember?, hslash, hquote]

theorem quotedMember?_flatMap (key rest : List Char) :
    quotedMember? (key.flatMap memberChar ++ '"' :: rest) = some (key, rest) := by
  induction key with
  | nil => cases rest <;> simp [quotedMember?]
  | cons c key ih =>
    rw [List.flatMap_cons, List.append_assoc, quotedMember?_memberChar, ih]
    rfl

/-- A member is read back if nothing stands behind it that it could go on with. -/
theorem pathMember?_memberChars (key : List Char) {rest : List Char}
    (h : ∀ c ∈ rest.head?, inMember c = false) :
    pathMember? (memberChars key ++ rest) = some (key, rest) := by
  unfold memberChars
  by_cases plain : isPlainMember key = true
  · rw [if_pos plain]
    cases key with
    | nil => simp [isPlainMember] at plain
    | cons c key =>
      obtain ⟨opens, inside⟩ : opensMember c = true ∧ ∀ d ∈ key, inMember d = true := by
        simpa [isPlainMember, opensMember, inMember] using plain
      have hc : c ≠ '"' := by
        rintro rfl
        exact absurd opens (by decide)
      have stop : rest.takeWhile inMember = [] ∧ rest.dropWhile inMember = rest := by
        cases rest with
        | nil => exact ⟨rfl, rfl⟩
        | cons d rest => simp [h d rfl]
      rw [List.cons_append, pathMember?, if_neg hc, if_pos opens,
        List.takeWhile_append_of_pos inside, List.dropWhile_append_of_pos inside, stop.1, stop.2,
        List.append_nil]
  · rw [if_neg plain, List.cons_append, pathMember?, if_pos rfl, List.append_assoc,
      List.singleton_append, quotedMember?_flatMap]

/-- Behind a member there is the end, or the point before the next one. -/
theorem head?_members (f : String → List Char) (keys : List String) :
    ∀ c ∈ (keys.flatMap fun key => '.' :: f key).head?, inMember c = false := by
  cases keys with
  | nil => simp
  | cons key keys =>
    rintro c ⟨⟩
    decide

theorem pathMembers?_flatMap (keys : List String) :
    pathMembers? (keys.flatMap fun key => '.' :: memberChars key.toList) = some keys := by
  induction keys with
  | nil => rw [List.flatMap_nil, pathMembers?]
  | cons key keys ih =>
    have member := pathMember?_memberChars key.toList
      (head?_members (fun key => memberChars key.toList) keys)
    rw [List.flatMap_cons, List.cons_append, pathMembers?, if_pos rfl]
    split
    · rename_i key' after heq
      obtain ⟨rfl, rfl⟩ := Prod.mk.inj (Option.some.inj (member.symm.trans heq))
      rw [ih, String.ofList_toList]
      rfl
    · rename_i heq
      cases member.symm.trans heq

/-- A path reads back as the keys that it was made of. -/
theorem pathKeys?_dollarPath (keys : List String) :
    pathKeys? (dollarPath keys).toList = some keys := by
  rw [dollarPath, String.toList_ofList, pathKeys?, if_pos rfl, pathMembers?_flatMap]

/-! ## Texts in documents -/

/-- The keys that arrows go down, each in a literal, where the last arrow gives a text. -/
def arrowKeys? : List Token → Option (List String)
  | [.bare '-', .bare '>', .bare '>', .literal cs] =>
    (undoubled? '\'' cs).map fun key => [String.ofList key]
  | .bare '-' :: .bare '>' :: .literal cs :: rest => do
    let key ← undoubled? '\'' cs
    let keys ← arrowKeys? rest
    return String.ofList key :: keys
  | _ => none

/-- The keys of a path in a literal, which is the second argument of a function. -/
def argumentKeys? : List Token → Option (List String)
  | [.bare ',', .bare ' ', .literal cs, .bare ')'] => (undoubled? '\'' cs).bind pathKeys?
  | _ => none

theorem arrowKeys?_arrows {keys : List String} (h : keys ≠ []) (i : Nat) :
    arrowKeys? (tokens .postgres i (arrows keys)) = some keys := by
  fun_induction arrows keys with
  | case1 => exact absurd rfl h
  | case2 key =>
    have last : tokens .postgres i [.fixed "->>", .literal key] =
        [.bare '-', .bare '>', .bare '>', .literal (doubled '\'' key.toList)] := rfl
    rw [last, arrowKeys?, undoubled?_doubled, Option.map_some, String.ofList_toList]
  | case3 key keys hne ih =>
    have step : tokens .postgres i (.fixed "->" :: .literal key :: arrows keys) =
        .bare '-' :: .bare '>' :: .literal (doubled '\'' key.toList) ::
          tokens .postgres i (arrows keys) := rfl
    rw [step, arrowKeys?, undoubled?_doubled, ih hne]
    simp

theorem argumentKeys?_dollarPath (keys : List String) (i : Nat) :
    argumentKeys? (tokens .sqlite i [.fixed ", ", .literal (dollarPath keys), .fixed ")"]) =
      some keys := by
  have argument : tokens .sqlite i [.fixed ", ", .literal (dollarPath keys), .fixed ")"] =
      [.bare ',', .bare ' ', .literal (doubled '\'' (dollarPath keys).toList), .bare ')'] := rfl
  rw [argument, argumentKeys?, undoubled?_doubled, Option.bind_some, pathKeys?_dollarPath]

theorem assemble_append (d : Dialect) (i : Nat) (ps qs : List Piece) :
    assemble d i (ps ++ qs) = assemble d i ps ++ assemble d (i + (bindings ps).length) qs := by
  induction ps generalizing i with
  | nil => rfl
  | cons p ps ih =>
    cases p with
    | bound v => simp [assemble, ih, Nat.add_assoc, Nat.add_comm 1]
    | fixed s | name s | literal s => simp [assemble, ih]

/-- A column ends before anything but a point. -/
theorem tokens_column_inj {d : Dialect} {i j : Nat} {c c' : Column} {ts ts' : List Token}
    (hts : ts.head? ≠ some (.bare '.')) (hts' : ts'.head? ≠ some (.bare '.'))
    (h : tokens d i c.pieces ++ ts = tokens d j c'.pieces ++ ts') : c = c' ∧ ts = ts' := by
  have point : ".".toList = ['.'] := rfl
  have same {s t : String} : doubled d.nameQuote s.toList = doubled d.nameQuote t.toList ↔ s = t :=
    (doubled_injective d.nameQuote).eq_iff.trans String.toList_inj
  obtain ⟨q, name⟩ := c
  obtain ⟨q', name'⟩ := c'
  cases q with
  | none =>
    cases q' with
    | none => simpa [Column.pieces, qualifierPieces, tokens, same] using h
    | some q' =>
      obtain ⟨-, rfl⟩ := by simpa [Column.pieces, qualifierPieces, tokens, point] using h
      exact absurd rfl hts
  | some q =>
    cases q' with
    | none =>
      obtain ⟨-, h⟩ := by simpa [Column.pieces, qualifierPieces, tokens, point] using h
      exact absurd (congrArg List.head? h.symm) hts'
    | some q' =>
      have parts : q = q' ∧ name = name' ∧ ts = ts' := by
        simpa [Column.pieces, qualifierPieces, tokens, point, same] using h
      obtain ⟨rfl, rfl, rfl⟩ := parts
      exact ⟨rfl, rfl⟩

/-- The pieces behind the column in SQLite. -/
def pathArgument (keys : List String) : List Piece :=
  [.fixed ", ", .literal (dollarPath keys), .fixed ")"]

theorem readable_pathArgument (keys : List String) : Readable .sqlite (pathArgument keys) := by
  have path : Readable .sqlite [.literal (dollarPath keys)] := .singleton (enclosed_dollarPath _ _)
  exact (path.snoc_fixed (by decide)).cons_fixed (by decide)

theorem arrowKeys?_lex {keys : List String} (h : keys ≠ []) (i : Nat) :
    (lex .postgres (assemble .postgres i (arrows keys))).bind arrowKeys? = some keys := by
  have readable : Readable .postgres (arrows keys) := readable_arrows .nil keys
  rw [lex_assemble readable, Option.bind_some, arrowKeys?_arrows h]

theorem argumentKeys?_lex (keys : List String) (i : Nat) :
    (lex .sqlite (assemble .sqlite i (pathArgument keys))).bind argumentKeys? = some keys := by
  rw [lex_assemble (readable_pathArgument keys), Option.bind_some, pathArgument,
    argumentKeys?_dollarPath]

theorem assemble_arrows (column : List Piece) (keys : List String) (i : Nat) :
    assemble .postgres i (extraction .postgres column keys) = assemble .postgres i column ++
      assemble .postgres (i + (bindings column).length) (arrows keys) := by
  rw [extraction, assemble_append]

theorem assemble_pathArgument (column : List Piece) (keys : List String) (i : Nat) :
    assemble .sqlite i (extraction .sqlite column keys) = "json_extract(".toList ++
      (assemble .sqlite i column ++
        assemble .sqlite (i + (bindings column).length) (pathArgument keys)) := by
  rw [extraction, List.cons_append, assemble, assemble_append, pathArgument]

section

variable {d : Dialect} {i : Nat} {keys keys' : List String}

/-- Behind the same column, no two lists of keys make the same text. -/
theorem keys_eq_of_assemble (hd : d ≠ .mysql) (h : keys ≠ []) (h' : keys' ≠ [])
    {column : List Piece}
    (same : assemble d i (extraction d column keys) = assemble d i (extraction d column keys')) :
    keys = keys' := by
  cases d with
  | postgres =>
    rw [assemble_arrows, assemble_arrows] at same
    have read := congrArg (fun cs => (lex .postgres cs).bind arrowKeys?)
      (List.append_cancel_left same)
    simpa only [arrowKeys?_lex h, arrowKeys?_lex h', Option.some.injEq] using read
  | mysql => exact absurd rfl hd
  | sqlite =>
    rw [assemble_pathArgument, assemble_pathArgument] at same
    have read := congrArg (fun cs => (lex .sqlite cs).bind argumentKeys?)
      (List.append_cancel_left (List.append_cancel_left same))
    simpa only [argumentKeys?_lex, Option.some.injEq] using read

theorem head?_arrows (h : keys ≠ []) :
    (tokens .postgres i (arrows keys)).head? = some (.bare '-') := by
  fun_cases arrows keys with
  | case1 => exact absurd rfl h
  | case2 | case3 => rfl

/-- No two columns make the same text with keys, whatever these are. -/
theorem column_eq_of_assemble (hd : d ≠ .mysql) (h : keys ≠ []) (h' : keys' ≠ []) {c c' : Column}
    (same : assemble d i (extraction d c.pieces keys) =
      assemble d i (extraction d c'.pieces keys')) : c = c' := by
  have readable (c : Column) (keys : List String) : Readable d (extraction d c.pieces keys) :=
    readable_extraction (readable_qualified c.qualifier c.name) keys
  have read := congrArg (lex d) same
  rw [lex_assemble (readable c keys), lex_assemble (readable c' keys')] at read
  replace read := Option.some.inj read
  cases d with
  | postgres =>
    rw [extraction, extraction, tokens_append, tokens_append] at read
    refine (tokens_column_inj ?_ ?_ read).1
    · simp [head?_arrows h]
    · simp [head?_arrows h']
  | mysql => exact absurd rfl hd
  | sqlite =>
    rw [extraction, extraction, List.cons_append, List.cons_append, tokens, tokens, tokens_append,
      tokens_append] at read
    refine (tokens_column_inj ?_ ?_ (List.append_cancel_left read)).1
    · simp [tokens]
    · simp [tokens]

end

/-- The keys are read back from the text behind the column, which may be any, and so may the keys:
in PostgreSQL arrows go down them one by one, and in SQLite they are those of one path.  No two
lists of keys make the same text, neither with the same column nor with two quoted ones. -/
theorem keys_of_extraction (column : List Piece) {keys : List String} (h : keys ≠ []) (i : Nat) :
    (∃ back, assemble .postgres i (extraction .postgres column keys) =
        assemble .postgres i column ++ back ∧ (lex .postgres back).bind arrowKeys? = some keys) ∧
      (∃ back, assemble .sqlite i (extraction .sqlite column keys) =
          "json_extract(".toList ++ (assemble .sqlite i column ++ back) ∧
        (lex .sqlite back).bind argumentKeys? = some keys) ∧
      ∀ d ≠ Dialect.mysql, ∀ keys' ≠ [],
        (assemble d i (extraction d column keys) = assemble d i (extraction d column keys') →
          keys = keys') ∧
        ∀ c c' : Column, assemble d i (extraction d c.pieces keys) =
          assemble d i (extraction d c'.pieces keys') → c = c' ∧ keys = keys' := by
  refine ⟨⟨_, assemble_arrows column keys i, arrowKeys?_lex h _⟩,
    ⟨_, assemble_pathArgument column keys i, argumentKeys?_lex keys _⟩, ?_⟩
  intro d hd keys' h'
  refine ⟨keys_eq_of_assemble hd h h', fun c c' same => ?_⟩
  obtain rfl := column_eq_of_assemble hd h h' same
  exact ⟨rfl, keys_eq_of_assemble hd h h' same⟩

/-- Keys with blanks, quotes and backslashes, without characters, and one that needs no quotes. -/
def oddKeys : List String := ["a.b c", "it's", "\"\\", "", "_1"]

theorem keys_of_extraction_odd : oddKeys ≠ [] ∧
    assemble .sqlite 0 (extraction .sqlite [.name "doc"] oddKeys) =
      "json_extract(\"doc\", '$.\"a.b c\".\"it''s\".\"\\\"\\\\\".\"\"._1')".toList ∧
    (∃ back, assemble .postgres 0 (extraction .postgres [.name "doc"] oddKeys) =
        assemble .postgres 0 [.name "doc"] ++ back ∧
      (lex .postgres back).bind arrowKeys? = some oddKeys) ∧
    ∃ back, assemble .sqlite 0 (extraction .sqlite [.name "doc"] oddKeys) =
        "json_extract(".toList ++ (assemble .sqlite 0 [.name "doc"] ++ back) ∧
      (lex .sqlite back).bind argumentKeys? = some oddKeys := by
  have nonempty : oddKeys ≠ [] := by decide
  obtain ⟨arrows, path, -⟩ := keys_of_extraction [.name "doc"] nonempty 0
  exact ⟨nonempty, by decide +kernel, arrows, path⟩

end FilterSql.Sql
