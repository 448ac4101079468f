import FilterSql.Proofs.Sql.Atoms
import FilterSql.Proofs.Sql.Lexing

/-!
# Reading pieces back

The text of pieces reads as the pieces were meant (`lex_assemble`), provided that they are
`Readable`: fixed texts come from the `vocabulary`, literals keep a reader inside their quotes, and
two pieces that are not fixed never touch.  The placeholders found are those of the bound values, in
their order (`placeholders_tokens`).
-/

namespace FilterSql.Sql

/-- The keywords and punctuation of statements: all that a statement says outside quotes, but for
its placeholders. -/
def vocabulary : List String :=
  ["select ", "*", ", ", " from ", " inner join ", " left join ", " on ", " where ", " group by ",
    " order by ", " asc", " desc", " limit ", " offset ", " as ", ".", "(", ")", "(*)", "count",
    " = ", " <> ", " < ", " <= ", " > ", " >= ", " like ", " not like ", " ilike ", " not ilike ",
    " and ", " or ", "not (", " in (", " not in (", " between ", " is null", " is not null",
    "->", "->>", "JSON_UNQUOTE(JSON_EXTRACT(", "))", "json_extract("]

/-- Is the character a quote of some dialect, or does it belong to a placeholder? -/
def isSpecial (c : Char) : Bool :=
  c == '\'' || c == '"' || c == Dialect.nameQuote .mysql || c == '$' || c == '?' || Text.isDigit c

theorem vocabulary_plain :
    ∀ s ∈ vocabulary, s.toList ≠ [] ∧ ∀ c ∈ s.toList, isSpecial c = false := by
  have check : vocabulary.all fun s => !s.toList.isEmpty && s.toList.all fun c => !isSpecial c := by
    decide
  intro s hs
  simpa using List.all_eq_true.1 check s hs

theorem ne_of_not_special {c e : Char} (h : isSpecial c = false) (he : isSpecial e = true) :
    c ≠ e := by
  rintro rfl
  simp [h] at he

theorem isSpecial_nameQuote (d : Dialect) : isSpecial d.nameQuote = true := by cases d <;> decide

/-! ## Readable pieces -/

/-- Is the piece a fixed text? -/
def Piece.isFixed : Piece → Bool
  | .fixed _ => true
  | _ => false

/-- Does the piece read as it is meant?  A fixed text is known, and a literal does not leave its
quotes. -/
def Piece.Sound (d : Dialect) : Piece → Prop
  | .fixed s => s ∈ vocabulary
  | .literal s => Enclosed '\'' d.escapes (doubled '\'' s.toList)
  | _ => True

/-- Sound pieces with fixed text between any two that are not fixed. -/
structure Readable (d : Dialect) (ps : List Piece) : Prop where
  sound : ∀ p ∈ ps, p.Sound d
  separated : ps.IsChain fun p q => p.isFixed ∨ q.isFixed

/-- Pieces that begin with fixed text, if there are any. -/
def Opens (ps : List Piece) : Prop := ∀ p ∈ ps.head?, p.isFixed

theorem Opens.nil : Opens [] := by simp [Opens]

theorem Opens.cons_fixed (s : String) (ps : List Piece) : Opens (.fixed s :: ps) := by
  simp [Opens, Piece.isFixed]

namespace Readable

variable {d : Dialect} {ps qs : List Piece}

theorem nil : Readable d [] := ⟨by simp, .nil⟩

theorem singleton {p : Piece} (h : p.Sound d) : Readable d [p] := ⟨by simpa using h, .singleton p⟩

/-- What begins with fixed text may follow anything. -/
theorem append (hp : Readable d ps) (hq : Readable d qs) (ho : Opens qs) :
    Readable d (ps ++ qs) where
  sound p h := (List.mem_append.1 h).elim (hp.sound p) (hq.sound p)
  separated := List.isChain_append.2
    ⟨hp.separated, hq.separated, fun _ _ _ hy => .inr (ho _ hy)⟩

theorem cons_fixed {s : String} (hq : Readable d qs) (hs : s ∈ vocabulary) :
    Readable d (.fixed s :: qs) where
  sound p h := by
    rcases List.mem_cons.1 h with rfl | h
    · exact hs
    · exact hq.sound p h
  separated := List.isChain_cons.2 ⟨fun _ _ => .inl rfl, hq.separated⟩

theorem join {s : String} (hp : Readable d ps) (hq : Readable d qs) (hs : s ∈ vocabulary) :
    Readable d (ps ++ .fixed s :: qs) :=
  hp.append (hq.cons_fixed hs) (.cons_fixed s qs)

theorem snoc_fixed {s : String} (hp : Readable d ps) (hs : s ∈ vocabulary) :
    Readable d (ps ++ [.fixed s]) := hp.join .nil hs

theorem of_cons {p : Piece} (h : Readable d (p :: ps)) : Readable d ps :=
  ⟨fun q hq => h.sound q (by simp [hq]), h.separated.of_cons⟩

end Readable

/-- The tokens of pieces, with the placeholders counted from `index`. -/
def tokens (d : Dialect) : (index : Nat) → List Piece → List Token
  | _, [] => []
  | i, .fixed s :: rest => s.toList.map .bare ++ tokens d i rest
  | i, .name s :: rest => .name (doubled d.nameQuote s.toList) :: tokens d i rest
  | i, .literal s :: rest => .literal (doubled '\'' s.toList) :: tokens d i rest
  | i, .bound _ :: rest => (placeholder d i).map .bare ++ tokens d (i + 1) rest

/-- A piece that is not fixed is followed by the end or by a character of a keyword. -/
theorem Readable.head_plain {d : Dialect} {p : Piece} {ps : List Piece} (h : Readable d (p :: ps))
    (hp : p.isFixed = false) {i : Nat} {c : Char} (hc : (assemble d i ps).head? = some c) :
    isSpecial c = false := by
  cases ps with
  | nil => simp [assemble] at hc
  | cons q ps =>
    have hq : q.isFixed := by simpa [hp] using (List.isChain_cons_cons.1 h.separated).1
    cases q with
    | fixed s =>
      obtain ⟨hne, hs⟩ := vocabulary_plain s (h.sound (.fixed s) (by simp))
      rw [assemble, List.head?_append_of_ne_nil _ hne] at hc
      exact hs c (List.mem_of_mem_head? hc)
    | name | literal | bound => simp [Piece.isFixed] at hq

theorem placeholder_bare (d : Dialect) (i : Nat) {c : Char} (h : c ∈ placeholder d i) :
    c ≠ d.nameQuote ∧ c ≠ '\'' := by
  cases d with
  | postgres =>
    rcases List.mem_cons.1 h with rfl | h
    · exact ⟨by decide, by decide⟩
    · exact ⟨Text.ne_of_isDigit (Text.isDigit_naturalChars h) (by decide),
        Text.ne_of_isDigit (Text.isDigit_naturalChars h) (by decide)⟩
  | mysql | sqlite =>
    obtain rfl : c = '?' := by simpa [placeholder] using h
    exact ⟨by decide, by decide⟩

/-- The text of readable pieces has their tokens. -/
theorem lex_assemble {d : Dialect} {ps : List Piece} (h : Readable d ps) (i : Nat) :
    lex d (assemble d i ps) = some (tokens d i ps) := by
  induction ps generalizing i with
  | nil => rw [assemble, lex]; rfl
  | cons p ps ih =>
    have ih := ih h.of_cons
    cases p with
    | fixed s =>
      obtain ⟨-, hs⟩ := vocabulary_plain s (h.sound (.fixed s) (by simp))
      rw [assemble, lex_bare _ fun c hc => ⟨ne_of_not_special (hs c hc) (isSpecial_nameQuote d),
        ne_of_not_special (hs c hc) (by decide)⟩, ih]
      rfl
    | name s =>
      -- A quote right behind the name would be taken for a part of it.
      have hr : (assemble d i ps).head? ≠ some d.nameQuote := fun hc =>
        ne_of_not_special (h.head_plain rfl hc) (isSpecial_nameQuote d) rfl
      rw [assemble, quoted_eq, List.cons_append, List.append_assoc, List.singleton_append,
        lex_name (enclosed_doubled _ _) hr, ih]
      rfl
    | literal s =>
      have hs : Enclosed '\'' d.escapes (doubled '\'' s.toList) := h.sound (.literal s) (by simp)
      have hr : (assemble d i ps).head? ≠ some '\'' := fun hc =>
        ne_of_not_special (h.head_plain rfl hc) (by decide) rfl
      rw [assemble, quoted_eq, List.cons_append, List.append_assoc, List.singleton_append,
        lex_literal hs hr, ih]
      rfl
    | bound v =>
      rw [assemble, lex_bare _ fun c => placeholder_bare d i, ih]
      rfl

theorem Readable.leadingDigits_tokens {d : Dialect} {p : Piece} {ps : List Piece}
    (h : Readable d (p :: ps)) (hp : p.isFixed = false) (i : Nat) :
    leadingDigits (tokens d i ps) = [] := by
  cases ps with
  | nil => rfl
  | cons q ps =>
    have hq : q.isFixed := by simpa [hp] using (List.isChain_cons_cons.1 h.separated).1
    cases q with
    | fixed s =>
      obtain ⟨hne, hs⟩ := vocabulary_plain s (h.sound (.fixed s) (by simp))
      obtain ⟨c, cs, hcs⟩ := List.exists_cons_of_ne_nil hne
      have hc : Text.isDigit c = false := by
        have := hs c (by simp [hcs])
        simp only [isSpecial, Bool.or_eq_false_iff] at this
        exact this.2
      simp [tokens, hcs, leadingDigits, hc]
    | name | literal | bound => simp [Piece.isFixed] at hq

/-- The placeholders of readable pieces stand for their bindings, one after the other. -/
theorem placeholders_tokens {d : Dialect} {ps : List Piece} (h : Readable d ps) (i : Nat) :
    placeholders d (tokens d i ps) = (List.range' i (bindings ps).length).map (marker d) := by
  induction ps generalizing i with
  | nil => rfl
  | cons p ps ih =>
    have ih := ih h.of_cons
    cases p with
    | fixed s =>
      obtain ⟨-, hs⟩ := vocabulary_plain s (h.sound (.fixed s) (by simp))
      rw [tokens, placeholders_bare _ fun c hc => ⟨ne_of_not_special (hs c hc) (by decide),
        ne_of_not_special (hs c hc) (by decide)⟩, ih, bindings_fixed]
    | name s => rw [tokens, placeholders, ih, bindings_name]; simp
    | literal s => rw [tokens, placeholders, ih, bindings_literal]; simp
    | bound v =>
      rw [tokens, placeholders_placeholder d i (h.leadingDigits_tokens rfl (i + 1)), ih,
        bindings_bound, List.length_cons, List.range'_succ, List.map_cons]

end FilterSql.Sql
