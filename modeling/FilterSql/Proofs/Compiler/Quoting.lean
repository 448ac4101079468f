import FilterSql.Proofs.Compiler.Parts

/-!
# Nothing leaves its quotes

A compiled statement ends outside quotes, and outside quotes it says only words of the fixed
`vocabulary` and placeholders (`statement_guarded`).  Names of entities, tables, columns and labels,
tags, keys of paths and bound values come from schemas and filters; none of their characters is
outside quotes, in any dialect.
-/

namespace FilterSql

open Sql

/-- Tokens that outside quotes are words of the vocabulary and placeholders only. -/
inductive Sql.Guarded (d : Dialect) : List Token → Prop
  | nil : Guarded d []
  | word {s : String} {ts : List Token} (hs : s ∈ vocabulary) (h : Guarded d ts) :
    Guarded d (s.toList.map .bare ++ ts)
  | placeholder (place : Nat) {ts : List Token} (h : Guarded d ts) :
    Guarded d ((marker d place).toList.map .bare ++ ts)
  | name (cs : List Char) {ts : List Token} (h : Guarded d ts) : Guarded d (.name cs :: ts)
  | literal (cs : List Char) {ts : List Token} (h : Guarded d ts) : Guarded d (.literal cs :: ts)

/-- A text that ends outside quotes and is guarded. -/
def Sql.GuardedText (d : Dialect) (text : String) : Prop :=
  ∃ ts, lex d text.toList = some ts ∧ Guarded d ts

namespace Sql

theorem toList_marker (d : Dialect) (i : Nat) : (marker d i).toList = placeholder d i := by
  cases d <;> simp [marker, placeholder, Text.naturalChars, toString, Nat.repr]

theorem guarded_tokens {d : Dialect} {ps : List Piece} (h : Readable d ps) (i : Nat) :
    Guarded d (tokens d i ps) := by
  induction ps generalizing i with
  | nil => exact .nil
  | cons p ps ih =>
    have ih := ih h.of_cons
    cases p with
    | fixed s => exact .word (h.sound (.fixed s) (by simp)) (ih i)
    | name s => exact .name _ (ih i)
    | literal s => exact .literal _ (ih i)
    | bound v =>
      rw [tokens, ← toList_marker]
      exact .placeholder i (ih (i + 1))

theorem Select.guarded_render {s : Select} (h : ∀ a ∈ s.atoms, a.Known) (d : Dialect) :
    GuardedText d (s.render d).text :=
  ⟨tokens d 0 (s.pieces d), Select.lex_render h d, guarded_tokens (Select.readable_pieces s h) 0⟩

end Sql

namespace Compiler

/-- Whatever the schema and the filter say, a statement ends outside quotes, and outside quotes it
consists of the words of the vocabulary and of placeholders. -/
theorem statement_guarded (c : Compiler) (entity : String) :
    (∀ f st, c.select entity f = .ok st → GuardedText c.dialect st.text) ∧
      ∀ clause st, c.count entity clause = .ok st → GuardedText c.dialect st.text := by
  constructor
  · intro f st h
    obtain ⟨root, built, -, hbuilt, rfl⟩ := registered_of_select h
    exact Select.guarded_render (known_buildSelect hbuilt) c.dialect
  · intro clause st h
    obtain ⟨root, built, -, hbuilt, rfl⟩ := registered_of_count h
    exact Select.guarded_render (known_buildCount hbuilt) c.dialect

/-- A schema whose names are made to leave their quotes. -/
def hostile : Compiler where
  registry := ⟨.ofList [{ name := "a`; drop", properties := [{ name := "meta" }] }]⟩
  dialect := .mysql

/-- A filter with a key and a value that are made to do so, too. -/
def hostileFilter : Filter := .ofCondition (.obj [("meta.k\\'; drop", .str "' or 1")])

theorem statement_guarded_hostile : ∃ st, hostile.select "a`; drop" hostileFilter = .ok st ∧
    st.text = "select `a``; drop`.`meta` from `a``; drop` " ++
      "where JSON_UNQUOTE(JSON_EXTRACT(`meta`, '$.\"k\\\\''; drop\"')) = ?" ∧
    GuardedText hostile.dialect st.text := by
  have outcome : (hostile.select "a`; drop" hostileFilter).map (·.text) =
      .ok ("select `a``; drop`.`meta` from `a``; drop` " ++
        "where JSON_UNQUOTE(JSON_EXTRACT(`meta`, '$.\"k\\\\''; drop\"')) = ?") := by
    decide +kernel
  obtain ⟨st, h, text⟩ := map_eq_ok.1 outcome
  exact ⟨st, h, text, (statement_guarded hostile "a`; drop").1 hostileFilter st h⟩

end Compiler

end FilterSql
