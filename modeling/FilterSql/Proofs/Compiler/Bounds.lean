import FilterSql.Proofs.Compiler.Paging
import FilterSql.Proofs.Double.Integers
import FilterSql.Proofs.Text.Pieces

/-!
# Integers as bounds

A limit or an offset that is an integer becomes a double on its way into a statement, whether it is
a number or its digits.  What the statement binds is therefore an integer within `2⁻⁵³` of it, and
the integer itself exactly if it is a double or the largest word (`integers_bound`); the first other
one is `2 ^ 53 + 1` (`bound_lowered_album`).
-/

namespace FilterSql

open Sql

/-! ## Integers -/

/-- The JSON value is the integer, or a text that writes it in decimal. -/
inductive Json.Spells : Json → ℕ → Prop
  | number (n : ℕ) : Spells (.int n) n
  | text {s : String} {n : ℕ} (h : Text.Numeral s.toList n) : Spells (.str s) n

theorem Text.numeral_natural (n : ℕ) : Numeral (natural n).toList n := by
  have digits : ∀ c ∈ naturalChars n, isDigit c = true := fun c => isDigit_naturalChars
  have value : decimalValue (naturalChars n) = n := by
    rw [← digitsValue_eq, digitsValue_naturalChars]
  have numeral : Numeral (naturalChars n) (decimalValue (naturalChars n)) :=
    .plain Nat.toDigits_ne_nil digits
  rwa [value, ← String.toList_ofList (l := naturalChars n)] at numeral

/-- The digits of an integer spell it. -/
theorem Json.spells_natural (n : ℕ) : Spells (.str (Text.natural n)) n :=
  .text (Text.numeral_natural n)

/-- There are no blanks in a numeral. -/
theorem Text.Numeral.trim_eq {s : String} {n : ℤ} (h : Numeral s.toList n) : trim s = s := by
  have solid : ∀ c ∈ s.toList, isBlank c = false := by
    generalize s.toList = cs at h
    cases h with
    | plain hne digits => exact fun c hc => isBlank_of_isDigit (digits c hc)
    | plus hne digits | minus hne digits =>
      intro c hc
      obtain rfl | hc := List.mem_cons.1 hc
      · decide
      · exact isBlank_of_isDigit (digits c hc)
  have trimmed : Trimmed s.toList :=
    ⟨fun c hc => solid c (List.mem_of_mem_head? hc),
      fun c hc => solid c (List.mem_of_mem_getLast? hc)⟩
  rw [trim, trimmed.trimChars_eq, String.ofList_toList]

/-! ## Bounds -/

/-- The word that an integer becomes on its way through a double: the integer itself if it is a
double or the largest word. -/
structure BoundFor (n : ℕ) (w : Int64) : Prop where
  near : |w.toInt - n| * 2 ^ 53 ≤ n
  exact : w.toInt = n ↔ Double.Representable n ∨ n = 2 ^ 63 - 1

/-- The largest word is rounded up, and cut again. -/
theorem truncate?_largest : (Double.ofInt (2 ^ 63 - 1)).truncate? = some (2 ^ 63) := by
  decide +kernel

theorem boundFor_clampedWord {n k : ℕ} (h : n < 2 ^ 63)
    (value : (Double.ofInt n).value? = some (k : ℚ)) (within : Double.Within (1 / 2 ^ 53) k n)
    (exact : k = n ↔ Double.Representable n) : BoundFor n (Value.clampedWord k) := by
  have word : (Value.clampedWord k).toInt = min (k : ℤ) (2 ^ 63 - 1) := by
    rw [Value.toInt_clampedWord]
    omega
  have close : |(k : ℤ) - n| * 2 ^ 53 ≤ n := by
    have scaled : |(k : ℚ) - n| * 2 ^ 53 ≤ n := by
      rw [Double.Within, one_div_mul_eq_div] at within
      exact (le_div_iff₀ (by positivity)).1 within
    exact_mod_cast scaled
  have largest : n = 2 ^ 63 - 1 → k = 2 ^ 63 := by
    rintro rfl
    have same := (Double.truncate?_of_value? value).symm.trans truncate?_largest
    exact_mod_cast Option.some.inj same
  constructor
  · rw [word]
    obtain hle | hlt := le_or_gt (k : ℤ) (2 ^ 63 - 1)
    · rwa [min_eq_left hle]
    · rw [min_eq_right hlt.le]
      refine le_trans (mul_le_mul_of_nonneg_right ?_ (by decide)) close
      rw [abs_of_nonneg (by omega), abs_of_nonneg (by omega)]
      omega
  · rw [word, ← exact]
    omega

/-- An integer is a bound however it is spelled. -/
theorem exists_boundFor {j : Json} {n : ℕ} (spelled : j.Spells n) (positive : 1 ≤ n)
    (h : n < 2 ^ 63) : ∃ w, rowBound? j = some w ∧ BoundFor n w := by
  have number : rowBound? j = rowBound? (.int n) := by
    cases spelled with
    | number => rfl
    | text numeral =>
      simp only [rowBound?, numeral.trim_eq, Double.ofText?_of_numeral numeral (by omega)]
      rfl
  obtain ⟨k, value, within, exact⟩ := Double.exists_natural (h.trans (by decide))
  have whole := Double.truncate?_of_value? value
  have large : (1 : ℚ) ≤ k := by
    have size : (1 : ℚ) ≤ n := by exact_mod_cast positive
    have pos : (0 : ℚ) < k := by linarith [within.ge]
    exact_mod_cast pos
  have order : (Double.ofInt n).compare? (.ofInt 1) = some (compare (k : ℚ) 1) := by
    obtain ⟨one, value', -, exact'⟩ := Double.exists_natural (n := 1) (by decide)
    obtain rfl : one = 1 := exact'.2 (Double.representable_of_le (by decide))
    exact Double.compare?_of_value? value (by exact_mod_cast value')
  refine ⟨Value.clampedWord k, ?_, boundFor_clampedWord h value within exact⟩
  have notLess : compare (k : ℚ) 1 = .gt ∨ compare (k : ℚ) 1 = .eq := by
    obtain hlt | heq := large.lt_or_eq
    · exact .inl (compare_gt_iff_gt.2 hlt)
    · exact .inr (compare_eq_iff_eq.2 heq.symm)
  rw [number]
  obtain hgt | heq := notLess
  · simp [rowBound?, Json.int, order, hgt, whole]
  · simp [rowBound?, Json.int, order, heq, whole]

/-! ## Statements -/

/-- The statement ends with the clauses of a limit and an offset, each with the placeholder of its
value, and has them nowhere else.  Its placeholders stand for its values in turn. -/
def Sql.Statement.Paged (st : Statement) (d : Dialect) (limit offset : Option Int64) : Prop :=
  ∃ ts front values, lex d st.text.toList = some ts ∧
    placeholders d ts = (List.range st.bindings.length).map (marker d) ∧
    st.bindings = values ++ limit.toList.map .int ++ offset.toList.map .int ∧
    tokenWords ts = front ++ boundWords d .limit values.length limit ++
      boundWords d .offset (values.length + limit.toList.length) offset ∧
    ∀ w ∈ front, ¬ w.IsBound

namespace Compiler

variable {c : Compiler} {entity : String} {f : Filter} {st : Statement}

theorem paged_of_select (h : c.select entity f = .ok st) : st.Paged c.dialect
    (f.limit >>= rowBound?) ((f.skip <|> f.offset) >>= rowBound?) := by
  obtain ⟨root, built, -, hbuilt, rfl⟩ := registered_of_select h
  obtain ⟨front, values, hfront, hbindings, hwords⟩ := words_buildSelect hbuilt c.dialect
  obtain ⟨ts, lexed, aligned⟩ := Select.aligned_render (known_buildSelect hbuilt) c.dialect
  have tokens : some ts = some (tokens c.dialect 0 (built.pieces c.dialect)) :=
    lexed.symm.trans (Select.lex_render (known_buildSelect hbuilt) c.dialect)
  obtain rfl := Option.some.inj tokens
  refine ⟨_, front, values, lexed, aligned, hbindings, ?_, hfront⟩
  have count : (values ++ rowBoundValues f.limit).length =
      values.length + (f.limit >>= rowBound?).toList.length := by
    rw [List.length_append, rowBoundValues, List.length_map]
  rw [← count]
  exact hwords

/-- A limit or an offset that spells an integer is bound as an integer next to it in the clause of
its own: the same one if it is a double or the largest word, and within `2⁻⁵³` of it otherwise. -/
theorem integers_bound (h : c.select entity f = .ok st) :
    ∃ limit offset, st.Paged c.dialect limit offset ∧
      ∀ j n, Json.Spells j n → 1 ≤ n → n < 2 ^ 63 →
        (f.limit = some j → ∃ w, limit = some w ∧ BoundFor n w) ∧
        ((f.skip <|> f.offset) = some j → ∃ w, offset = some w ∧ BoundFor n w) := by
  refine ⟨_, _, paged_of_select h, fun j n spelled positive fits => ?_⟩
  obtain ⟨w, read, bound⟩ := exists_boundFor spelled positive fits
  constructor <;> intro here <;> exact ⟨w, by rw [here]; exact read, bound⟩

/-- Ten pages after the first million. -/
def spelledPages : Filter :=
  { limit := some (.str (Text.natural 10)), skip := some (.int (10 ^ 6)) }

theorem integers_bound_album : ∃ st limit offset, album.select "Page" spelledPages = .ok st ∧
    st.Paged .sqlite limit offset ∧ (∃ w, limit = some w ∧ BoundFor 10 w) ∧
    ∃ w, offset = some w ∧ BoundFor (10 ^ 6) w := by
  have text : (album.select "Page" spelledPages).map (·.text) = .ok ("select " ++
      "\"page\".\"id\" from \"page\" order by \"page\".\"id\" asc limit ? offset ?") := by
    decide +kernel
  obtain ⟨st, hst, -⟩ := map_eq_ok.1 text
  obtain ⟨limit, offset, paged, bounds⟩ := integers_bound hst
  refine ⟨st, limit, offset, hst, paged, ?_, ?_⟩
  · exact (bounds _ 10 (Json.spells_natural 10) (by decide) (by decide)).1 rfl
  · exact (bounds _ (10 ^ 6) (.number _) (by decide) (by decide)).2 rfl

/-- A limit of `2 ^ 53 + 1` pages is bound as one of `2 ^ 53`. -/
theorem bound_lowered_album : ∃ st,
    album.select "Page" (Filter.withLimit {} (2 ^ 53 + 1)) = .ok st ∧
    st.text = "select \"page\".\"id\" from \"page\" order by \"page\".\"id\" asc limit ?" ∧
    st.bindings = [.int (2 ^ 53)] ∧ st.bindings ≠ [.int (2 ^ 53 + 1)] := by
  have parts : (album.select "Page" (Filter.withLimit {} (2 ^ 53 + 1))).map
      (fun st => (st.text, st.bindings.length)) =
      .ok ("select \"page\".\"id\" from \"page\" order by \"page\".\"id\" asc limit ?", 1) := by
    decide +kernel
  obtain ⟨st, hst, hparts⟩ := map_eq_ok.1 parts
  obtain ⟨htext, hlength⟩ := Prod.mk.inj hparts
  have lowered : rowBound? (.int ((2 ^ 53 + 1 : ℕ) : ℤ)) = some (2 ^ 53) := by decide +kernel
  have bindings : st.bindings = [.int (2 ^ 53)] := by
    obtain ⟨-, -, values, -, -, hvalues, -⟩ := paged_of_select hst
    rw [Filter.withLimit, Option.bind_eq_bind, Option.bind_some, lowered] at hvalues
    have short : values = [] := by
      simpa [hlength] using congrArg List.length hvalues
    simpa [short] using hvalues
  refine ⟨st, hst, htext, bindings, ?_⟩
  rw [bindings]
  simp only [ne_eq, List.cons.injEq, Value.int.injEq, and_true]
  decide

end Compiler

end FilterSql
