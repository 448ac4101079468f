import FilterSql.Proofs.Compiler.Placeholders
import FilterSql.Proofs.Sql.Keywords

/-!
# Bounds on the number of rows

A compiled statement ends with a LIMIT clause if the limit of the filter is a bound, and then with
an OFFSET clause if the offset is one, and says neither word anywhere else.  The two clauses are
made without regard to each other, so an OFFSET clause stands alone whenever the offset is a bound
and the limit is none (`bounds_last`), in all dialects (`offset_alone_album`).
-/

namespace FilterSql

open Sql

namespace Sql

variable {d : Dialect}

/-- The clause of a bound, if there is one: the keyword and a placeholder. -/
def boundWords (d : Dialect) (keyword : Word) (place : Nat) : Option Int64 → List Word
  | some _ => [keyword, .run (placeholder d place)]
  | none => []

/-- An OFFSET clause comes without a LIMIT clause before it. -/
def OffsetAlone (words : List Word) : Prop :=
  ∃ before after, words = before ++ Word.offset :: after ∧ Word.limit ∉ before

/-- After words of something else an OFFSET clause is alone if there is one, but no LIMIT clause. -/
theorem offsetAlone_iff {front : List Word} (h : ∀ w ∈ front, ¬ w.IsBound) (i j : Nat)
    (limit offset : Option Int64) :
    OffsetAlone (front ++ boundWords d .limit i limit ++ boundWords d .offset j offset) ↔
      limit = none ∧ offset.isSome = true := by
  have front_ne {w : Word} (hw : w.IsBound) : w ∉ front := fun hmem => h w hmem hw
  constructor
  · rintro ⟨before, after, hwords, hbefore⟩
    rw [List.append_assoc] at hwords
    obtain ⟨done, rfl, hrest⟩ | ⟨done, rfl, hrest⟩ := List.append_eq_append_iff.1 hwords
    · -- The OFFSET clause comes after the words of something else.
      cases limit with
      | none => cases offset with
        | none => simp [boundWords] at hrest
        | some n => exact ⟨rfl, rfl⟩
      | some n =>
        cases done with
        | nil => exact absurd (List.cons.inj hrest).1 (by decide)
        | cons w done =>
          obtain ⟨rfl, -⟩ := List.cons.inj hrest
          exact absurd (List.mem_append_right _ List.mem_cons_self) hbefore
    · cases done with
      | nil => cases limit with
        | none => cases offset with
          | none => simp [boundWords] at hrest
          | some n => exact ⟨rfl, rfl⟩
        | some n => exact absurd (List.cons.inj hrest).1 (by decide)
      | cons w done =>
        obtain ⟨rfl, -⟩ := List.cons.inj hrest
        exact absurd (List.mem_append_right _ List.mem_cons_self) (front_ne (.inr rfl))
  · rintro ⟨rfl, hoffset⟩
    obtain ⟨n, rfl⟩ := Option.isSome_iff_exists.1 hoffset
    refine ⟨front, [.run (placeholder d j)], ?_, front_ne (.inl rfl)⟩
    simp [boundWords]

/-- The words of pieces and the clause of a bound. -/
theorem wordsOf_append_bound {keyword : String} {word : Word} (ps : List Piece) (j : Option Json)
    (hk : Loose keyword) (hw : fixedWords keyword = [word]) :
    wordsOf d 0 (ps ++ clausePieces d keyword (boundExpr? j)) =
      wordsOf d 0 ps ++ boundWords d word (bindings ps).length (j >>= rowBound?) := by
  rw [boundExpr?]
  cases j >>= rowBound? with
  | none => simp [clausePieces, boundWords]
  | some n =>
    have value : wordsOf d (0 + (bindings ps).length) [.bound (.int n)] =
        [.run (placeholder d (bindings ps).length)] := by
      simp only [wordsOf, tokens, List.append_nil, Nat.zero_add, tokenWords_placeholder]
    rw [Option.map_some, clausePieces, wordsOf_join _ _ _ hk, hw, Expr.pieces, value]
    rfl

end Sql

theorem Sql.Atom.Plain.isPhrase {a : Atom} (h : a.Plain) : a.IsPhrase := by
  cases a with
  | function name => exact h.elim
  | column | value | all => trivial

namespace Compiler

variable {c : Compiler} {root : Entity} {f : Filter} {built : Select}

/-- A statement that counts rows consists of phrases. -/
theorem phrases_buildCount (h : c.buildCount root f = .ok built) (d : Dialect) :
    Phrases (built.pieces d) := by
  have phrase : ∀ a ∈ built.atoms, a.IsPhrase := by
    intro a ha
    obtain plain | rfl := atoms_buildCount h a ha
    · exact plain.isPhrase
    · exact (by decide : "count" ∈ phrases)
  rw [Select.pieces_eq_front]
  obtain ⟨s, condition, -, -, ⟨-, rfl⟩ | ⟨joins, -, -, rfl⟩⟩ := buildCount_cases h
  · exact ((Select.phrases_front phrase (phrases_table _ _)).append .nil).append .nil
  · have inner : Phrases ((groupedSelect root joins condition).pieces d) := by
      rw [Select.pieces_eq_front]
      refine ((Select.phrases_front (fun a ha => phrase a ?_) (phrases_table _ _)).append
        .nil).append .nil
      simpa [Select.atoms, fromAtoms, sourceAtoms] using .inr ha
    have rest : Phrases (.fixed ")" :: labelPieces (some countedLabel)) :=
      (phrases_labelPieces _).cons_fixed (by decide)
    have source : Phrases (fromPieces d
        (some (.query (groupedSelect root joins condition) (some countedLabel)))) :=
      ((inner.append rest).cons_fixed (by decide)).cons_fixed (by decide)
    exact ((Select.phrases_front phrase source).append .nil).append .nil

/-- A statement that fetches rows consists of phrases and, at its end, of the clauses of bounds. -/
theorem pieces_buildSelect (h : c.buildSelect root f = .ok built) (d : Dialect) :
    Phrases (built.front d) ∧ built.pieces d = built.front d ++
      clausePieces d " limit " (boundExpr? f.limit) ++
      clausePieces d " offset " (boundExpr? (f.skip <|> f.offset)) := by
  have plain := plain_buildSelect h
  obtain ⟨s, condition, orderBy, joins, -, -, -, -, rfl⟩ := buildSelect_eq_ok.1 h
  exact ⟨Select.phrases_front (fun a ha => (plain a ha).isPhrase) (phrases_table _ _),
    Select.pieces_eq_front _⟩

/-- The words of a statement that fetches rows, and what it binds. -/
theorem words_buildSelect (h : c.buildSelect root f = .ok built) (d : Dialect) :
    ∃ front values, (∀ w ∈ front, ¬ w.IsBound) ∧
      bindings (built.pieces d) =
        values ++ rowBoundValues f.limit ++ rowBoundValues (f.skip <|> f.offset) ∧
      wordsOf d 0 (built.pieces d) = front ++
        boundWords d .limit values.length (f.limit >>= rowBound?) ++
        boundWords d .offset (values ++ rowBoundValues f.limit).length
          ((f.skip <|> f.offset) >>= rowBound?) := by
  obtain ⟨phrases, pieces⟩ := pieces_buildSelect h d
  have limit : Loose " limit " ∧ fixedWords " limit " = [Word.limit] := by decide
  have offset : Loose " offset " ∧ fixedWords " offset " = [Word.offset] := by decide
  refine ⟨wordsOf d 0 (built.front d), bindings (built.front d),
    not_isBound_of_phrases phrases 0, ?_, ?_⟩
  · rw [pieces]
    simp only [bindings_append, bindings_clausePieces, values_boundExpr]
  · rw [pieces, wordsOf_append_bound _ _ offset.1 offset.2,
      wordsOf_append_bound _ _ limit.1 limit.2, bindings_append, bindings_clausePieces,
      values_boundExpr]

/-- A statement that fetches rows ends with the clauses of its bounds, a LIMIT clause if the limit
is a bound and an OFFSET clause if the offset is one, and has them nowhere else.  So it has an
OFFSET clause without a LIMIT clause exactly if the offset is a bound and the limit is none.  A
statement that counts rows has neither clause. -/
theorem bounds_last (c : Compiler) (entity : String) :
    (∀ f st, c.select entity f = .ok st → ∃ ts front values,
      lex c.dialect st.text.toList = some ts ∧
      st.bindings = values ++ rowBoundValues f.limit ++ rowBoundValues (f.skip <|> f.offset) ∧
      tokenWords ts = front ++
        boundWords c.dialect .limit values.length (f.limit >>= rowBound?) ++
        boundWords c.dialect .offset (values ++ rowBoundValues f.limit).length
          ((f.skip <|> f.offset) >>= rowBound?) ∧
      (∀ w ∈ front, ¬ w.IsBound) ∧
      (OffsetAlone (tokenWords ts) ↔
        f.limit >>= rowBound? = none ∧ ((f.skip <|> f.offset) >>= rowBound?).isSome = true)) ∧
    ∀ clause st, c.count entity clause = .ok st → ∃ ts, lex c.dialect st.text.toList = some ts ∧
      ∀ w ∈ tokenWords ts, ¬ w.IsBound := by
  constructor
  · intro f st h
    obtain ⟨root, built, -, hbuilt, rfl⟩ := registered_of_select h
    obtain ⟨front, values, hfront, hbindings, hwords⟩ := words_buildSelect hbuilt c.dialect
    refine ⟨tokens c.dialect 0 (built.pieces c.dialect), front, values,
      Select.lex_render (known_buildSelect hbuilt) c.dialect, hbindings, hwords, hfront, ?_⟩
    rw [show tokenWords (tokens c.dialect 0 (built.pieces c.dialect)) = _ from hwords]
    exact offsetAlone_iff hfront _ _ _ _
  · intro clause st h
    obtain ⟨root, built, -, hbuilt, rfl⟩ := registered_of_count h
    refine ⟨_, Select.lex_render (known_buildCount hbuilt) c.dialect, ?_⟩
    exact not_isBound_of_phrases (phrases_buildCount hbuilt c.dialect) 0

/-- The pages of an album, in a database that has no OFFSET clause without a LIMIT clause. -/
def album : Compiler where
  registry := ⟨.ofList [{ name := "Page", properties := [{ name := "id", isId := true }] }]⟩
  dialect := .sqlite

/-- Ten pages after the first five. -/
def albumFilter : Filter := { limit := some (.str " 10 "), skip := some (.num (.int 5)) }

/-- Pages are fetched and counted.  The text that fetches those after the first five has the words
of an OFFSET clause at its end. -/
theorem album_pages : (album.select "Page" albumFilter).map (·.text) = .ok ("select " ++
      "\"page\".\"id\" from \"page\" order by \"page\".\"id\" asc limit ? offset ?") ∧
    (album.count "Page" none).map (·.text) = .ok "select count(*) as \"cnt\" from \"page\"" ∧
    (album.select "Page" { offset := some (.num (.int 5)) }).map (·.text) =
      .ok "select \"page\".\"id\" from \"page\" order by \"page\".\"id\" asc offset ?" ∧
    (lex album.dialect ("select \"page\".\"id\" from \"page\" " ++
      "order by \"page\".\"id\" asc offset ?").toList).map tokenWords =
      some ([.run "select".toList, .name "page".toList, .run ".".toList, .name "id".toList,
        .run "from".toList, .name "page".toList, .run "order".toList, .run "by".toList,
        .name "page".toList, .run ".".toList, .name "id".toList, .run "asc".toList] ++
        Word.offset :: [.run "?".toList]) := by
  decide +kernel

theorem bounds_last_album : ∃ st counting, album.select "Page" albumFilter = .ok st ∧
    album.count "Page" none = .ok counting ∧
    (∃ ts front values, lex album.dialect st.text.toList = some ts ∧
      st.bindings = values ++ rowBoundValues albumFilter.limit ++
        rowBoundValues (albumFilter.skip <|> albumFilter.offset) ∧
      tokenWords ts = front ++
        boundWords album.dialect .limit values.length (albumFilter.limit >>= rowBound?) ++
        boundWords album.dialect .offset (values ++ rowBoundValues albumFilter.limit).length
          ((albumFilter.skip <|> albumFilter.offset) >>= rowBound?) ∧
      (∀ w ∈ front, ¬ w.IsBound) ∧
      (OffsetAlone (tokenWords ts) ↔ albumFilter.limit >>= rowBound? = none ∧
        ((albumFilter.skip <|> albumFilter.offset) >>= rowBound?).isSome = true)) ∧
    ∃ ts, lex album.dialect counting.text.toList = some ts ∧ ∀ w ∈ tokenWords ts, ¬ w.IsBound := by
  obtain ⟨hst, hcounting, -⟩ := album_pages
  obtain ⟨st, hst, -⟩ := map_eq_ok.1 hst
  obtain ⟨counting, hcounting, -⟩ := map_eq_ok.1 hcounting
  exact ⟨st, counting, hst, hcounting, (bounds_last album "Page").1 albumFilter st hst,
    (bounds_last album "Page").2 none counting hcounting⟩

/-- Pages after the first five, however many, are asked for by an OFFSET clause alone. -/
theorem offset_alone_album : ∃ st ts,
    album.select "Page" { offset := some (.num (.int 5)) } = .ok st ∧
    st.text = "select \"page\".\"id\" from \"page\" order by \"page\".\"id\" asc offset ?" ∧
    lex album.dialect st.text.toList = some ts ∧ OffsetAlone (tokenWords ts) := by
  obtain ⟨-, -, htext, words⟩ := album_pages
  obtain ⟨st, hst, htext⟩ := map_eq_ok.1 htext
  obtain ⟨ts, hts, hwords⟩ := Option.map_eq_some_iff.1 words
  refine ⟨st, ts, hst, htext, ?_, _, _, hwords, by decide⟩
  rw [htext]
  exact hts

end Compiler

end FilterSql
