import FilterSql.Proofs.Sql.Reading

/-!
# Words of a text

`tokenWords` puts the tokens of a text together: characters outside quotes make a word as long as
neither a blank nor a mark comes between them, and parentheses and commas are words of their own.
The words of pieces (`wordsOf`) are those of their parts wherever a fixed text that is `Loose`
stands in between (`wordsOf_join`).
-/

namespace FilterSql.Sql

/-- A word of a text. -/
inductive Word where
  /-- Characters outside quotes. -/
  | run (cs : List Char)
  /-- A parenthesis or a comma. -/
  | mark (c : Char)
  | name (cs : List Char)
  | literal (cs : List Char)
  deriving DecidableEq, Repr

/-- Is the character a word of its own? -/
def isMark (c : Char) : Bool := c == '(' || c == ')' || c == ','

/-- Does the character end the word before it? -/
def isLoose (c : Char) : Bool := c == ' ' || isMark c

/-- Do tokens begin inside a run? -/
def startsRun : List Token → Bool
  | .bare c :: _ => !isLoose c
  | _ => false

/-- Do tokens end inside a run? -/
def endsRun (ts : List Token) : Bool :=
  match ts.getLast? with
  | some (.bare c) => !isLoose c
  | _ => false

/-- A character before words, which it joins if they begin inside a run. -/
def attach (c : Char) : Bool → List Word → List Word
  | true, .run cs :: ws => .run (c :: cs) :: ws
  | _, ws => .run [c] :: ws

/-- The words of tokens. -/
def tokenWords : List Token → List Word
  | [] => []
  | .name cs :: ts => .name cs :: tokenWords ts
  | .literal cs :: ts => .literal cs :: tokenWords ts
  | .bare c :: ts =>
    if c = ' ' then tokenWords ts
    else if isMark c then .mark c :: tokenWords ts
    else attach c (startsRun ts) (tokenWords ts)

theorem tokenWords_of_startsRun {ts : List Token} (h : startsRun ts = true) :
    ∃ cs ws, tokenWords ts = .run cs :: ws := by
  match ts with
  | [] | .name _ :: _ | .literal _ :: _ => simp [startsRun] at h
  | .bare c :: ts =>
    obtain ⟨hc, hm⟩ : c ≠ ' ' ∧ isMark c = false := by simpa [startsRun, isLoose] using h
    rw [tokenWords, if_neg hc, if_neg (by simp [hm])]
    unfold attach
    split
    · exact ⟨_, _, rfl⟩
    · exact ⟨_, _, rfl⟩

theorem attach_append {c : Char} {ts : List Token} (us : List Word) :
    attach c (startsRun ts) (tokenWords ts ++ us) =
      attach c (startsRun ts) (tokenWords ts) ++ us := by
  cases h : startsRun ts with
  | false => rfl
  | true =>
    obtain ⟨cs, ws, hw⟩ := tokenWords_of_startsRun h
    rw [hw]
    rfl

/-- Words are cut where one of the two sides is outside a run. -/
theorem tokenWords_append {ts us : List Token} (h : endsRun ts = false ∨ startsRun us = false) :
    tokenWords (ts ++ us) = tokenWords ts ++ tokenWords us := by
  induction ts with
  | nil => rfl
  | cons t ts ih =>
    have tail : tokenWords (ts ++ us) = tokenWords ts ++ tokenWords us := by
      refine ih (h.imp_left fun h => ?_)
      cases ts with
      | nil => rfl
      | cons t' ts => simpa [endsRun] using h
    match t with
    | .name _ | .literal _ => simp only [List.cons_append, tokenWords, tail]
    | .bare c =>
      rw [List.cons_append, tokenWords, tokenWords, tail]
      split_ifs with hc hm
      · rfl
      · rfl
      · cases ts with
        | nil =>
          have hu : startsRun us = false := h.resolve_left (by simp [endsRun, isLoose, hc, hm])
          rw [List.nil_append, hu]
          rfl
        | cons t' ts =>
          have same : startsRun (t' :: ts ++ us) = startsRun (t' :: ts) := by cases t' <;> rfl
          rw [same, attach_append]

theorem tokenWords_run {cs : List Char} (hn : cs ≠ []) (h : ∀ c ∈ cs, isLoose c = false) :
    tokenWords (cs.map .bare) = [.run cs] := by
  induction cs with
  | nil => exact absurd rfl hn
  | cons c cs ih =>
    obtain ⟨hc, hm⟩ : c ≠ ' ' ∧ isMark c = false := by simpa [isLoose] using h c (by simp)
    rw [List.map_cons, tokenWords, if_neg hc, if_neg (by simp [hm])]
    cases cs with
    | nil => rfl
    | cons c' cs =>
      rw [ih (by simp) fun c hc => h c (by simp [hc]), List.map_cons, startsRun, h c' (by simp)]
      rfl

theorem tokenWords_placeholder (d : Dialect) (i : Nat) :
    tokenWords ((placeholder d i).map .bare) = [.run (placeholder d i)] := by
  cases d with
  | postgres =>
    refine tokenWords_run (by simp [placeholder]) fun c hc => ?_
    rcases List.mem_cons.1 hc with rfl | hc
    · decide
    · have digit := Text.isDigit_naturalChars hc
      simp [isLoose, isMark, Text.ne_of_isDigit digit (by decide : Text.isDigit ' ' = false),
        Text.ne_of_isDigit digit (by decide : Text.isDigit '(' = false),
        Text.ne_of_isDigit digit (by decide : Text.isDigit ')' = false),
        Text.ne_of_isDigit digit (by decide : Text.isDigit ',' = false)]
  | mysql | sqlite => rfl

/-! ## Words of pieces -/

variable {d : Dialect}

theorem tokens_append (i : Nat) (ps qs : List Piece) :
    tokens d i (ps ++ qs) = tokens d i ps ++ tokens d (i + (bindings ps).length) qs := by
  induction ps generalizing i with
  | nil => rfl
  | cons p ps ih =>
    cases p with
    | bound v =>
      rw [List.cons_append, tokens, tokens, ih, bindings_bound, List.length_cons, List.append_assoc,
        Nat.add_right_comm, Nat.add_assoc]
    | fixed s => simp only [List.cons_append, tokens, ih, bindings_fixed, List.append_assoc]
    | name s => simp only [List.cons_append, tokens, ih, bindings_name]
    | literal s => simp only [List.cons_append, tokens, ih, bindings_literal]

/-- The words of pieces, with the placeholders counted from `index`. -/
def wordsOf (d : Dialect) (index : Nat) (ps : List Piece) : List Word :=
  tokenWords (tokens d index ps)

theorem wordsOf_append {i : Nat} {ps qs : List Piece} (h : endsRun (tokens d i ps) = false ∨
    startsRun (tokens d (i + (bindings ps).length) qs) = false) :
    wordsOf d i (ps ++ qs) = wordsOf d i ps ++ wordsOf d (i + (bindings ps).length) qs := by
  rw [wordsOf, tokens_append, tokenWords_append h]
  rfl

/-- A fixed text that begins outside a run. -/
def StartsLoose (s : String) : Prop := s.toList.head?.any isLoose = true

/-- A fixed text that ends outside a run. -/
def EndsLoose (s : String) : Prop := endsRun (s.toList.map .bare) = false

/-- A fixed text that both begins and ends outside a run. -/
def Loose (s : String) : Prop := StartsLoose s ∧ EndsLoose s

instance (s : String) : Decidable (StartsLoose s) := inferInstanceAs (Decidable (_ = true))

instance (s : String) : Decidable (EndsLoose s) := inferInstanceAs (Decidable (_ = false))

instance (s : String) : Decidable (Loose s) := inferInstanceAs (Decidable (_ ∧ _))

/-- The words of a fixed text. -/
def fixedWords (s : String) : List Word := tokenWords (s.toList.map .bare)

theorem wordsOf_fixed {s : String} (i : Nat) (ps : List Piece)
    (hs : EndsLoose s := by decide) :
    wordsOf d i (.fixed s :: ps) = fixedWords s ++ wordsOf d i ps := tokenWords_append (.inl hs)

theorem wordsOf_append_fixed {s : String} (i : Nat) (ps qs : List Piece)
    (hs : StartsLoose s := by decide) : wordsOf d i (ps ++ .fixed s :: qs) =
      wordsOf d i ps ++ wordsOf d (i + (bindings ps).length) (.fixed s :: qs) := by
  obtain ⟨c, hc, hl⟩ : ∃ c, s.toList.head? = some c ∧ isLoose c = true := by
    simpa [StartsLoose, Option.any_eq_true] using hs
  obtain ⟨cs, hcs⟩ := List.head?_eq_some_iff.1 hc
  exact wordsOf_append (.inr (by simp [tokens, hcs, startsRun, hl]))

theorem wordsOf_snoc {s : String} (i : Nat) (ps : List Piece)
    (hs : StartsLoose s := by decide) :
    wordsOf d i (ps ++ [.fixed s]) = wordsOf d i ps ++ fixedWords s := by
  rw [wordsOf_append_fixed _ _ _ hs]
  simp [wordsOf, tokens, fixedWords]

theorem wordsOf_join {s : String} (i : Nat) (ps qs : List Piece)
    (hs : Loose s := by decide) : wordsOf d i (ps ++ .fixed s :: qs) =
      wordsOf d i ps ++ (fixedWords s ++ wordsOf d (i + (bindings ps).length) qs) := by
  rw [wordsOf_append_fixed _ _ _ hs.1, wordsOf_fixed _ _ hs.2]

end FilterSql.Sql
