import FilterSql.Proofs.Text.Digits
import FilterSql.Sql.Select
import Mathlib.Data.List.Chain
import Mathlib.Tactic.Common

/-!
# Reading the text of a statement

`lex` cuts a text into tokens as a database does: names and literals in their quotes, and the
characters outside of quotes one by one.  `placeholders` finds the placeholders outside quotes.

What is between quotes is described by `Enclosed`: characters after which a reader is still inside.
A text with its quotes doubled is enclosed (`enclosed_doubled`); where a backslash escapes the next
character, backslashes have to come in pairs with what they escape.
-/

namespace FilterSql

/-- Does a backslash in a literal escape the character after it? -/
def Dialect.escapes : Dialect → Bool
  | mysql => true
  | _ => false

namespace Sql

/-! ## Quotes -/

/-- What stands before the closing quote, and what stands after it; none if nothing closes.  Neither
a doubled quote closes nor an escaped one. -/
def closing (quote : Char) (escapes : Bool) : List Char → Option (List Char × List Char)
  | [] => none
  | [c] => if c = quote then some ([], []) else none
  | c :: c' :: rest =>
    if c = quote ∧ c' ≠ quote then some ([], c' :: rest)
    else if c = quote ∨ (escapes ∧ c = '\\') then
      (closing quote escapes rest).map fun (before, after) => (c :: c' :: before, after)
    else (closing quote escapes (c' :: rest)).map fun (before, after) => (c :: before, after)

theorem length_closing {quote : Char} {escapes : Bool} {cs before after : List Char}
    (h : closing quote escapes cs = some (before, after)) : after.length < cs.length := by
  fun_induction closing quote escapes cs generalizing before with
  | case1 => simp at h
  | case2 => simp_all
  | case3 => simp at h
  | case4 c c' rest _ =>
    obtain ⟨-, rfl⟩ := by simpa using h
    simp
  | case5 c c' rest _ _ ih =>
    obtain ⟨⟨before', after'⟩, hp, hq⟩ := Option.map_eq_some_iff.1 h
    obtain ⟨-, rfl⟩ := Prod.mk.inj hq
    have := ih hp
    simp only [List.length_cons]
    omega
  | case6 c c' rest _ _ ih =>
    obtain ⟨⟨before', after'⟩, hp, hq⟩ := Option.map_eq_some_iff.1 h
    obtain ⟨-, rfl⟩ := Prod.mk.inj hq
    have := ih hp
    simp only [List.length_cons] at this ⊢
    omega

/-- Characters after which a reader that was inside quotes still is. -/
def Enclosed (quote : Char) (escapes : Bool) (cs : List Char) : Prop :=
  ∀ rest, closing quote escapes (cs ++ rest) =
    (closing quote escapes rest).map fun (before, after) => (cs ++ before, after)

section Enclosed

variable {quote : Char} {escapes : Bool}

theorem Enclosed.nil : Enclosed quote escapes [] := by
  intro rest
  simp

theorem Enclosed.append {cs ds : List Char} (hc : Enclosed quote escapes cs)
    (hd : Enclosed quote escapes ds) : Enclosed quote escapes (cs ++ ds) := by
  intro rest
  rw [List.append_assoc, hc, hd, Option.map_map]
  simp [Function.comp_def]

theorem Enclosed.flatMap {α : Type} {f : α → List Char} {xs : List α}
    (h : ∀ x ∈ xs, Enclosed quote escapes (f x)) : Enclosed quote escapes (xs.flatMap f) := by
  induction xs with
  | nil => exact .nil
  | cons x xs ih =>
    rw [List.flatMap_cons]
    exact (h x (by simp)).append (ih fun y hy => h y (by simp [hy]))

theorem enclosed_char {c : Char} (hq : c ≠ quote) (he : ¬ (escapes ∧ c = '\\')) :
    Enclosed quote escapes [c] := by
  intro rest
  cases rest with
  | nil => simp [closing, hq]
  | cons c' rest =>
    rw [List.singleton_append, closing, if_neg (by simp [hq]), if_neg (by simp [hq, he])]
    rfl

theorem enclosed_quote : Enclosed quote escapes [quote, quote] := by
  intro rest
  simp [closing]

theorem enclosed_escaped (hq : quote ≠ '\\') (c : Char) : Enclosed quote true ['\\', c] := by
  intro rest
  simp [closing, hq.symm]

end Enclosed

/-- The characters with each quote among them doubled. -/
def doubled (quote : Char) (cs : List Char) : List Char :=
  cs.flatMap fun c => if c = quote then [c, c] else [c]

theorem quoted_eq (quote : Char) (cs : List Char) :
    quoted quote cs = quote :: (doubled quote cs ++ [quote]) := rfl

theorem doubled_append (quote : Char) (cs ds : List Char) :
    doubled quote (cs ++ ds) = doubled quote cs ++ doubled quote ds := List.flatMap_append

/-- With its quotes doubled any text is enclosed. -/
theorem enclosed_doubled (quote : Char) (cs : List Char) :
    Enclosed quote false (doubled quote cs) := by
  refine Enclosed.flatMap fun c _ => ?_
  split_ifs with h
  · subst h
    exact enclosed_quote
  · exact enclosed_char h (by simp)

theorem closing_end {quote : Char} {escapes : Bool} {rest : List Char}
    (h : rest.head? ≠ some quote) : closing quote escapes (quote :: rest) = some ([], rest) := by
  cases rest with
  | nil => simp [closing]
  | cons c rest =>
    have hc : c ≠ quote := by simpa using h
    simp [closing, hc]

/-- A reader in quotes reads what is enclosed and stops at the quote after it. -/
theorem Enclosed.closing_append {quote : Char} {escapes : Bool} {cs rest : List Char}
    (hc : Enclosed quote escapes cs) (hr : rest.head? ≠ some quote) :
    closing quote escapes (cs ++ quote :: rest) = some (cs, rest) := by
  rw [hc, closing_end hr]
  simp

/-! ## Tokens -/

/-- A token of a text.  Names and literals hold what stands between their quotes as written. -/
inductive Token where
  /-- A character outside quotes. -/
  | bare (c : Char)
  | name (cs : List Char)
  | literal (cs : List Char)
  deriving DecidableEq, Repr

/-- The tokens of a text; none if the text ends inside quotes. -/
def lex (d : Dialect) : List Char → Option (List Token)
  | [] => some []
  | c :: rest =>
    if c = d.nameQuote then
      match h : closing c false rest with
      | some (cs, after) =>
        have := length_closing h
        (lex d after).map (.name cs :: ·)
      | none => none
    else if c = '\'' then
      match h : closing c d.escapes rest with
      | some (cs, after) =>
        have := length_closing h
        (lex d after).map (.literal cs :: ·)
      | none => none
    else (lex d rest).map (.bare c :: ·)
termination_by cs => cs.length
decreasing_by all_goals simp only [List.length_cons]; omega

theorem nameQuote_ne (d : Dialect) : d.nameQuote ≠ '\'' := by cases d <;> decide

theorem lex_name {d : Dialect} {cs rest : List Char} (hc : Enclosed d.nameQuote false cs)
    (hr : rest.head? ≠ some d.nameQuote) :
    lex d (d.nameQuote :: (cs ++ d.nameQuote :: rest)) = (lex d rest).map (.name cs :: ·) := by
  rw [lex, if_pos rfl]
  split
  · rename_i ds after h
    obtain ⟨rfl, rfl⟩ : cs = ds ∧ rest = after := by simpa [hc.closing_append hr] using h
    rfl
  · rename_i h
    simp [hc.closing_append hr] at h

theorem lex_literal {d : Dialect} {cs rest : List Char} (hc : Enclosed '\'' d.escapes cs)
    (hr : rest.head? ≠ some '\'') :
    lex d ('\'' :: (cs ++ '\'' :: rest)) = (lex d rest).map (.literal cs :: ·) := by
  rw [lex, if_neg (nameQuote_ne d).symm, if_pos rfl]
  split
  · rename_i ds after h
    obtain ⟨rfl, rfl⟩ : cs = ds ∧ rest = after := by simpa [hc.closing_append hr] using h
    rfl
  · rename_i h
    simp [hc.closing_append hr] at h

/-- Characters without quotes are read as they stand. -/
theorem lex_bare {d : Dialect} {cs : List Char} (rest : List Char)
    (h : ∀ c ∈ cs, c ≠ d.nameQuote ∧ c ≠ '\'') :
    lex d (cs ++ rest) = (lex d rest).map (cs.map .bare ++ ·) := by
  induction cs with
  | nil => simp
  | cons c cs ih =>
    obtain ⟨hn, hl⟩ := h c (by simp)
    rw [List.cons_append, lex, if_neg hn, if_neg hl, ih fun c hc => h c (by simp [hc]),
      Option.map_map]
    rfl

/-! ## Placeholders -/

/-- The digits at the front of tokens. -/
def leadingDigits : List Token → List Char
  | .bare c :: rest => if Text.isDigit c then c :: leadingDigits rest else []
  | _ => []

/-- The placeholders among tokens: in PostgreSQL a dollar sign with the digits after it, elsewhere a
question mark. -/
def placeholders (d : Dialect) : List Token → List String
  | [] => []
  | .bare c :: rest =>
    match d with
    | .postgres =>
      if c = '$' then String.ofList ('$' :: leadingDigits rest) :: placeholders d rest
      else placeholders d rest
    | _ => if c = '?' then "?" :: placeholders d rest else placeholders d rest
  | _ :: rest => placeholders d rest

/-- The placeholder of the value at a place, which PostgreSQL counts from one. -/
def marker (d : Dialect) (place : Nat) : String :=
  match d with
  | .postgres => "$" ++ toString (place + 1)
  | _ => "?"

theorem placeholders_bare {d : Dialect} {cs : List Char} (rest : List Token)
    (h : ∀ c ∈ cs, c ≠ '$' ∧ c ≠ '?') :
    placeholders d (cs.map .bare ++ rest) = placeholders d rest := by
  induction cs with
  | nil => rfl
  | cons c cs ih =>
    obtain ⟨hs, hq⟩ := h c (by simp)
    have ih := ih fun c hc => h c (by simp [hc])
    cases d <;> simpa [placeholders, hs, hq] using ih

theorem leadingDigits_bare {cs : List Char} {rest : List Token} (h : ∀ c ∈ cs, Text.isDigit c)
    (hr : leadingDigits rest = []) : leadingDigits (cs.map .bare ++ rest) = cs := by
  induction cs with
  | nil => exact hr
  | cons c cs ih =>
    have hc : Text.isDigit c := h c (by simp)
    simpa [leadingDigits, hc] using ih fun c hc => h c (by simp [hc])

/-- A placeholder is found as it was written, if no digit stands behind it. -/
theorem placeholders_placeholder (d : Dialect) (i : Nat) {rest : List Token}
    (hr : leadingDigits rest = []) :
    placeholders d ((placeholder d i).map .bare ++ rest) = marker d i :: placeholders d rest := by
  have digits {c : Char} (h : c ∈ Text.naturalChars (i + 1)) : c ≠ '$' ∧ c ≠ '?' :=
    ⟨Text.ne_of_isDigit (Text.isDigit_naturalChars h) (by decide),
      Text.ne_of_isDigit (Text.isDigit_naturalChars h) (by decide)⟩
  cases d with
  | postgres =>
    simp only [placeholder, List.map_cons, List.cons_append, placeholders, if_true]
    rw [leadingDigits_bare (fun c => Text.isDigit_naturalChars) hr,
      placeholders_bare rest fun c => digits]
    congr 1
    rw [marker, ← String.toList_inj]
    simp [Text.naturalChars, toString, Nat.repr]
  | mysql => simp [placeholder, placeholders, marker]
  | sqlite => simp [placeholder, placeholders, marker]

end Sql

end FilterSql
