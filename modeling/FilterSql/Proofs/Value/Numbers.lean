import FilterSql.Proofs.Double.Exact
import FilterSql.Value.Basic
import Mathlib.Data.Nat.Digits.Defs

/-!
# The numbers of values

What number a value stands for (`Value.Denotes`): numbers of all kinds for themselves, exactly;
truth values for 0 and 1; texts for the integers that they write in decimal.  The integer that a
value is read as is this number, but for doubles beyond the signed words, which are read as the
nearest word (`Value.Saturates`, `Value.integer?_eq_some_iff`).
-/

namespace FilterSql

/-! ## Numerals -/

namespace Text

/-- The number that decimal digits write, the first digit highest. -/
def decimalValue (ds : List Char) : ℕ := Nat.ofDigits 10 (ds.reverse.map digitValue)

/-- The characters write the integer: decimal digits, after a sign or none. -/
inductive Numeral : List Char → ℤ → Prop
  | plain {ds : List Char} (hne : ds ≠ []) (h : ∀ c ∈ ds, isDigit c = true) :
    Numeral ds (decimalValue ds)
  | plus {ds : List Char} (hne : ds ≠ []) (h : ∀ c ∈ ds, isDigit c = true) :
    Numeral ('+' :: ds) (decimalValue ds)
  | minus {ds : List Char} (hne : ds ≠ []) (h : ∀ c ∈ ds, isDigit c = true) :
    Numeral ('-' :: ds) (-decimalValue ds)

theorem digitsValue_eq (ds : List Char) : digitsValue ds = decimalValue ds := by
  rw [digitsValue, decimalValue, Nat.ofDigits_eq_foldr, List.foldr_map, List.foldr_reverse]
  simp [Nat.add_comm]

theorem natural?_eq_some_iff {ds : List Char} {n : ℕ} : natural? ds = some n ↔
    ds ≠ [] ∧ (∀ c ∈ ds, isDigit c = true) ∧ n = decimalValue ds := by
  have digits : (!ds.isEmpty && ds.all isDigit) = true ↔
      ds ≠ [] ∧ ∀ c ∈ ds, isDigit c = true := by
    simp
  rw [natural?, digitsValue_eq]
  by_cases h : (!ds.isEmpty && ds.all isDigit) = true
  · rw [if_pos h, Option.some_inj]
    exact ⟨fun hn => ⟨(digits.1 h).1, (digits.1 h).2, hn.symm⟩, fun hn => hn.2.2.symm⟩
  · rw [if_neg h]
    exact ⟨(nomatch ·), fun hn => absurd (digits.2 ⟨hn.1, hn.2.1⟩) h⟩

theorem integer?_minus (ds : List Char) :
    integer? ('-' :: ds) = (natural? ds).map fun n => -Int.ofNat n := by
  rw [integer?]
  cases natural? ds <;> rfl

/-- Without a sign in front there are only digits to read. -/
theorem integer?_unsigned {ds : List Char} (hplus : ∀ cs, ds ≠ '+' :: cs)
    (hminus : ∀ cs, ds ≠ '-' :: cs) : integer? ds = (natural? ds).map Int.ofNat := by
  unfold integer?
  split
  · exact absurd rfl (hplus _)
  · exact absurd rfl (hminus _)
  · rfl

/-- Numerals are read as the integers that they write. -/
theorem integer?_eq_some_iff {cs : List Char} {n : ℤ} : integer? cs = some n ↔ Numeral cs n := by
  constructor
  · intro h
    by_cases plus : ∃ ds, cs = '+' :: ds
    · obtain ⟨ds, rfl⟩ := plus
      obtain ⟨k, hk, rfl⟩ := Option.map_eq_some_iff.1 h
      obtain ⟨hne, hdigits, rfl⟩ := natural?_eq_some_iff.1 hk
      exact .plus hne hdigits
    by_cases minus : ∃ ds, cs = '-' :: ds
    · obtain ⟨ds, rfl⟩ := minus
      rw [integer?_minus] at h
      obtain ⟨k, hk, rfl⟩ := Option.map_eq_some_iff.1 h
      obtain ⟨hne, hdigits, rfl⟩ := natural?_eq_some_iff.1 hk
      exact .minus hne hdigits
    rw [integer?_unsigned (not_exists.1 plus) (not_exists.1 minus)] at h
    obtain ⟨k, hk, rfl⟩ := Option.map_eq_some_iff.1 h
    obtain ⟨hne, hdigits, rfl⟩ := natural?_eq_some_iff.1 hk
    exact .plain hne hdigits
  · intro h
    cases h with
    | plain hne hdigits =>
      have unsigned {c : Char} (hc : isDigit c = false) (ds : List Char) : cs ≠ c :: ds := by
        rintro rfl
        rw [hdigits c List.mem_cons_self] at hc
        cases hc
      rw [integer?_unsigned (unsigned (by decide)) (unsigned (by decide)),
        natural?_eq_some_iff.2 ⟨hne, hdigits, rfl⟩]
      rfl
    | plus hne hdigits =>
      rw [integer?, natural?_eq_some_iff.2 ⟨hne, hdigits, rfl⟩]
      rfl
    | minus hne hdigits =>
      rw [integer?_minus, natural?_eq_some_iff.2 ⟨hne, hdigits, rfl⟩]
      rfl

end Text

/-! ## Denotations -/

namespace Value

/-- The value stands for the number. -/
inductive Denotes : Value → ℚ → Prop
  | int (n : Int64) : Denotes (.int n) n.toInt
  | uint (n : UInt64) : Denotes (.uint n) n.toNat
  | float {x : Double} {q : ℚ} (h : x.value? = some q) : Denotes (.float x) q
  | bool (b : Bool) : Denotes (.bool b) b.toNat
  | string {s : String} {n : ℤ} (h : Text.Numeral s.toList n) : Denotes (.string s) n
  | document {n : ℤ} : Denotes (.json (.num (.int n))) n
  | fraction {x : Double} {q : ℚ} (h : x.value? = some q) : Denotes (.json (.num (.float x))) q

/-- A value stands for one number only. -/
theorem Denotes.unique {v : Value} {p q : ℚ} (hp : v.Denotes p) (hq : v.Denotes q) : p = q := by
  cases hp with
  | int n => cases hq; rfl
  | uint n => cases hq; rfl
  | bool b => cases hq; rfl
  | document => cases hq; rfl
  | float hx => obtain _ | _ | hy := hq; exact Option.some_inj.1 (hx.symm.trans hy)
  | fraction hx => cases hq with | fraction hy => exact Option.some_inj.1 (hx.symm.trans hy)
  | string hs =>
    cases hq with
    | string ht =>
      have read := (Text.integer?_eq_some_iff.2 hs).symm.trans (Text.integer?_eq_some_iff.2 ht)
      rw [Option.some_inj.1 read]

/-- The value is a double whose number is an integer beyond the signed words; `n` is the word
nearest to it. -/
def Saturates (v : Value) (n : ℤ) : Prop :=
  ∃ (x : Double) (m : ℤ), v = .float x ∧ x.value? = some (m : ℚ) ∧
    (2 ^ 63 ≤ m ∧ n = 2 ^ 63 - 1 ∨ m < -2 ^ 63 ∧ n = -2 ^ 63)

/-- The value is a document that is a double, which is not read as an integer. -/
def IsFraction (v : Value) : Prop := ∃ x, v = .json (.num (.float x))

/-! ## The integer that a value is read as -/

theorem word?_eq_some_iff {n : ℤ} {w : Int64} : word? n = some w ↔ n = w.toInt := by
  rw [word?]
  constructor
  · intro h
    obtain ⟨hn, hw⟩ := Option.ite_none_right_eq_some.1 h
    rw [← Option.some_inj.1 hw, Int64.toInt_ofInt_of_le hn.1 hn.2]
  · rintro rfl
    rw [if_pos ⟨w.le_toInt, w.toInt_lt⟩, Int64.ofInt_toInt]

theorem toInt_clampedWord (m : ℤ) :
    (clampedWord m).toInt = max (-2 ^ 63) (min m (2 ^ 63 - 1)) :=
  Int64.toInt_ofInt_of_le (by omega) (by omega)

theorem clampedWord_eq_iff {m : ℤ} {w : Int64} : clampedWord m = w ↔
    m = w.toInt ∨ 2 ^ 63 ≤ m ∧ w.toInt = 2 ^ 63 - 1 ∨ m < -2 ^ 63 ∧ w.toInt = -2 ^ 63 := by
  have value := toInt_clampedWord m
  have least := w.le_toInt
  have most := w.toInt_lt
  rw [← Int64.toInt_inj, value]
  omega

theorem integer?_float {x : Double} {w : Int64} :
    (float x).integer? = some w ↔ (float x).Denotes w.toInt ∨ (float x).Saturates w.toInt := by
  have truncated : (float x).integer? = some w ↔
      ∃ m : ℤ, x.value? = some (m : ℚ) ∧ clampedWord m = w := by
    simp only [Double.value?_eq_intCast_iff]
    rw [integer?, Option.ite_none_right_eq_some, Option.map_eq_some_iff]
    simp only [and_assoc, exists_and_left]
  rw [truncated]
  simp only [clampedWord_eq_iff]
  constructor
  · rintro ⟨m, hm, rfl | beyond⟩
    · exact .inl (.float hm)
    · exact .inr ⟨x, m, rfl, hm, beyond⟩
  · rintro (⟨⟨hx⟩⟩ | ⟨y, m, hy, hm, beyond⟩)
    · exact ⟨w.toInt, ‹_›, .inl rfl⟩
    · cases hy
      exact ⟨m, hm, .inr beyond⟩

theorem Denotes.integer? {v : Value} {q : ℚ} {w : Int64} (h : v.Denotes q) (hq : q = w.toInt)
    (hv : ¬v.IsFraction) : v.integer? = some w := by
  cases h with
  | int n => exact congrArg some (Int64.toInt_inj.1 (Int.cast_inj.1 hq))
  | uint n => exact word?_eq_some_iff.2 (by exact_mod_cast hq)
  | float hx => exact integer?_float.2 (.inl (.float (hq ▸ hx)))
  | bool b =>
    have small : (b.toNat : ℤ) = w.toInt := by exact_mod_cast hq
    refine congrArg some (Int64.toInt_inj.1 ?_)
    rw [← small]
    cases b <;> rfl
  | string hs =>
    rw [Value.integer?, Text.integer?_eq_some_iff.2 hs]
    exact word?_eq_some_iff.2 (Int.cast_inj.1 hq)
  | document => exact word?_eq_some_iff.2 (Int.cast_inj.1 hq)
  | fraction hx => exact absurd ⟨_, rfl⟩ hv

theorem denotes_of_integer? {v : Value} {w : Int64} (h : v.integer? = some w) :
    v.Denotes w.toInt ∧ ¬v.IsFraction ∨ v.Saturates w.toInt := by
  cases v with
  | float x => exact (integer?_float.1 h).imp_left fun hx => ⟨hx, nofun⟩
  | int n => cases h; exact .inl ⟨.int w, nofun⟩
  | uint n =>
    have fits : (n.toNat : ℤ) = w.toInt := word?_eq_some_iff.1 h
    refine .inl ⟨?_, nofun⟩
    rw [← fits, Int.cast_natCast]
    exact .uint n
  | bool b => cases b <;> cases h <;> exact .inl ⟨.bool _, nofun⟩
  | string s =>
    obtain ⟨n, hn, hw⟩ := Option.bind_eq_some_iff.1 h
    rw [← word?_eq_some_iff.1 hw]
    exact .inl ⟨.string (Text.integer?_eq_some_iff.1 hn), nofun⟩
  | json j =>
    cases j with
    | num k =>
      cases k with
      | int n =>
        rw [← word?_eq_some_iff.1 h]
        exact .inl ⟨.document, nofun⟩
      | float x => nomatch h
    | _ => nomatch h
  | _ => nomatch h

/-- A value is read as the integer that it stands for.  Doubles beyond the signed words are read as
the nearest word; those in documents are not read at all. -/
theorem integer?_eq_some_iff {v : Value} {w : Int64} : v.integer? = some w ↔
    v.Denotes w.toInt ∧ ¬v.IsFraction ∨ v.Saturates w.toInt := by
  constructor
  · exact denotes_of_integer?
  · rintro (⟨hv, whole⟩ | saturated)
    · exact hv.integer? rfl whole
    · obtain ⟨x, m, rfl, beyond⟩ := saturated
      exact integer?_float.2 (.inr ⟨x, m, rfl, beyond⟩)

end Value

end FilterSql
